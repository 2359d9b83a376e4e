import AutoRec.Rec.Refine

/-!
# The invariant of the module

What holds in every state of the module: each group is in a phase that goes with its log, and while
`on_start_recording` runs, its recording is used and not recording yet.

* `StageOk`: what is known at each point of `on_start_recording`.
* `SysInv`, `reach_sysInv`: the invariant.
* `opFor_ok`: the module sees to what its groups rely on.
-/

namespace AutoRec

/-! ## Steps that are not the check loop's -/

/-- The slot is filled or emptied by the check loop. -/
def RecorderOp.isStart : RecorderOp → Bool
  | .pick _ | .enter _ _ | .fail _ | .drop => true
  | .idle | .check _ _ | .stop | .patNotDetected | .ts _ | .notice _ | .update _ => false

/-- The step is one of a sequence that uses no tuner. -/
def Label.isAside : Label → Bool
  | .stop _ | .stopQueued | .ts _ _ | .patNotDetected _ | .presentTimeout | .presentEvent _
  | .table _ => true
  | .timeout _ _ _ | .opened _ | .start _ | .started | .notice _ => false

/-- What such a step can be for a group. -/
def RecorderOp.isAside : RecorderOp → Bool
  | .idle | .stop | .patNotDetected | .ts _ | .update _ => true
  | .pick _ | .enter _ _ | .fail _ | .drop | .check _ _ | .notice _ => false

theorem RecorderOp.isStart_of_isAside {op : RecorderOp} (h : op.isAside = true) :
    op.isStart = false := by
  cases op <;> first | rfl | cases h

namespace Recorder

variable {v w : Recorder} {op : RecorderOp}

theorem step_groupId (h : v.step op = some w) : w.inst.groupId = v.inst.groupId := by
  have hts : ∀ (v : Recorder) (data : List UInt8),
      (v.onTsReceived data).inst.groupId = v.inst.groupId := by
    intro v data
    unfold onTsReceived
    split
    · exact Instance.onTsReceived_groupId ‹_›
    · rfl
  cases op with
  | idle | pick | fail | drop =>
    cases h
    rfl
  | enter | update =>
    dsimp only [step] at h
    split_ifs at h
    cases h
    rfl
  | check =>
    cases h
    dsimp only
    split_ifs <;> rfl
  | stop =>
    dsimp only [step] at h
    split_ifs at h <;> cases h <;> rfl
  | patNotDetected =>
    dsimp only [step] at h
    split_ifs at h
    · cases h
      exact hts _ _
    · cases h
      rfl
  | ts data =>
    cases h
    exact hts v data
  | notice now =>
    dsimp only [step] at h
    split at h
    · rename_i p q hq
      cases h
      cases p <;> rfl
    · cases h

theorem Idle.step_recording (h : Idle v) (hop : op.isStart = false) (hn : v.step op = some w) :
    w.recording = v.recording := by
  have hrec := h.not_recording
  cases op with
  | pick | enter | fail | drop => cases hop
  | idle =>
    cases hn
    rfl
  | check | stop | patNotDetected =>
    simp only [Recorder.step, hrec, Bool.and_false, Bool.false_and, Bool.false_eq_true, if_false,
      Option.some.injEq] at hn
    subst hn
    rfl
  | ts data =>
    cases hn
    exact onTsReceived_recording data
  | notice now =>
    dsimp only [Recorder.step] at hn
    split at hn
    · rename_i p q hq
      cases hn
      cases p with
      | endSuccess => exact absurd (by rw [hq]; exact List.mem_cons_self) h.no_success
      | postProcess => exact absurd (by rw [hq]; exact List.mem_cons_self) h.no_post
      | init | preProcess | nowRecording | endError => rfl
    · cases hn
  | update f =>
    simp only [Recorder.step, hrec, Bool.false_eq_true, if_false, reduceCtorEq] at hn

theorem Idle.step_idle (h : Idle v) (hok : OpOk v op) (hop : ∀ now b, op ≠ .enter now b)
    (hn : v.step op = some w) : w.isCrashed = true ∨ Idle w := by
  rcases h.step hok hn with ⟨hc, -⟩ | ⟨hw, -⟩ | ⟨⟨now, b, he⟩, -⟩
  · exact .inl hc
  · exact .inr hw
  · exact absurd he (hop now b)

theorem RecorderInv.idle_of_unused {P : Reserve → Prop} (h : RecorderInv P v)
    (hc : v.isCrashed = false) (hu : v.recording.isUsed = false) : Idle v := by
  cases h with
  | idle hi _ => exact hi
  | recording hr _ | closing hr _ => exact absurd hr.isUsed (by simp [hu])
  | crashed _ hc' _ => exact absurd hc' (by simp [hc])

end Recorder

/-! ## The invariant -/

/-- What is known of the recording of `g`, and of what has been done, at each point of
`on_start_recording`. -/
def StageOk (settings : Settings) (g : Group) (r : Reserve) (done : StartRecord) :
    StartStage → Prop
  | .add param => r.isUsed = true ∧ done = ⟨[], []⟩ ∧ param = readdParam r
  | .requested | .channel | .tune _ | .present _ | .presentWait _ | .force | .added _ =>
    r.isUsed = true ∧ done = ⟨[], []⟩
  | .replied .success => True
  | .replied .invalidGroup => settings.tunerResourceMax ≤ g
  | .replied .channelLookup => r.isUsed = true
  | .replied .rescheduled => r.isUsed = false ∧ done = ⟨[], Sys.tunerStopClose⟩
  | .replied .diskLow | .replied .tuneErr | .replied .noPresentEvent | .replied .forceErr
  | .replied .readdErr | .replied .progressNotInit =>
    r.isUsed = false ∧ ∃ f, done = ⟨[f], Sys.tunerStopClose⟩ ∧ f.isUsed = true ∧
      Flag.has f.state ReserveState.endError = true

/-- The recording has not been started. -/
def StartStage.isUnstarted : StartStage → Prop
  | .replied exit => exit ≠ .success
  | _ => True

/-- The exits that put a result down. -/
def StartExit.isStored : StartExit → Bool
  | .diskLow | .tuneErr | .noPresentEvent | .forceErr | .readdErr | .progressNotInit => true
  | .invalidGroup | .channelLookup | .rescheduled | .success => false

/-- What is known of a step of `on_start_recording`, for a recording that is used. -/
def OutcomeOk (m : RecManager) (g : Group) : StartOutcome → Prop
  | .wait stage => StageOk m.settings g m.recordings[g] ⟨[], []⟩ stage ∧ ∀ e, stage ≠ .replied e
  | .fail f exit => Flag.has f ReserveState.endError = true ∧ exit.isStored = true
  | .invalid => m.settings.tunerResourceMax ≤ g
  | .add _ | .leave | .reschedule | .record _ => True

theorem goStart_ok (m : RecManager) (g : Group) (now : ℤ) : OutcomeOk m g (goStart m g now) := by
  unfold goStart
  split_ifs
  · exact ⟨rfl, rfl⟩
  · trivial

/-- **One step** of `on_start_recording`. -/
theorem startNext_ok {m : RecManager} {g : Group} {stage : StartStage} {i : StartLabel}
    {o : StartOutcome} (hu : m.recordings[g].isUsed = true)
    (h : startNext m g stage i = some o) : OutcomeOk m g o := by
  unfold startNext at h
  split at h <;> try obtain rfl := Option.some.inj h
  · split_ifs with hg hd
    · exact hg
    · exact ⟨rfl, rfl⟩
    · exact ⟨⟨hu, rfl⟩, nofun⟩
  · trivial
  · exact ⟨⟨hu, rfl⟩, nofun⟩
  · split_ifs
    · exact ⟨rfl, rfl⟩
    · exact ⟨⟨hu, rfl⟩, nofun⟩
    · exact goStart_ok m g _
  · exact ⟨⟨hu, rfl⟩, nofun⟩
  · split_ifs
    · exact goStart_ok m g _
    · exact ⟨⟨hu, rfl⟩, nofun⟩
  · split_ifs
    · exact ⟨⟨hu, rfl⟩, nofun⟩
    · exact ⟨rfl, rfl⟩
  · split_ifs
    · exact ⟨rfl, rfl⟩
    · exact ⟨⟨hu, rfl, rfl⟩, nofun⟩
  · trivial
  · split_ifs
    · trivial
    · exact ⟨rfl, rfl⟩
  · cases h

/-- `on_start_recording` goes on only before it has replied. -/
theorem StageOk.of_startNext {settings : Settings} {m : RecManager} {g : Group} {r : Reserve}
    {done : StartRecord} {stage : StartStage} {i : StartLabel} {o : StartOutcome}
    (h : StageOk settings g r done stage) (ho : startNext m g stage i = some o) :
    r.isUsed = true ∧ done = ⟨[], []⟩ ∧ stage.isUnstarted := by
  cases stage with
  | add => exact ⟨h.1, h.2.1, trivial⟩
  | requested | channel | tune | present | presentWait | force | added => exact ⟨h.1, h.2, trivial⟩
  | replied => cases i <;> cases ho

namespace Sys

variable {s t : Sys} {l : Label} {settings : Settings} {P : Reserve → Prop} {g : Group}

/-- **The invariant** of the module. -/
structure SysInv (P : Reserve → Prop) (settings : Settings) (s : Sys) : Prop where
  settings_eq : s.mgr.settings = settings
  reserves : ReservesInv s.mgr.reserves
  groupId : ∀ g : Group, s.mgr.recInstances[g].groupId = g
  recorder : ∀ g, Recorder.RecorderInv P (s.recorder g)
  stage : ∀ g stage done, s.checkLoop = .starting g stage done →
    StageOk settings g s.mgr.recordings[g] done stage
  unstarted : ∀ g stage done, s.checkLoop = .starting g stage done → stage.isUnstarted →
    (s.recorder g).isCrashed = true ∨ Recorder.Idle (s.recorder g)

/-! ## The check loop in a step -/

/-- What a step does to `on_check_loop`: it leaves it where it is, it ends or begins a turn, it
picks a reserve, or it is a step of `on_start_recording`. -/
inductive LoopStep (a : Sys) : Label → Sys → Prop
  | other {i b} : b.checkLoop = a.checkLoop → (∀ c, (opFor a i c).isStart = false) → LoopStep a i b
  | turn {i b} : (i = .started ∨ ∀ c stage done, a.checkLoop ≠ .starting c stage done) →
      (∀ c stage done, b.checkLoop ≠ .starting c stage done) →
      (∀ c, (opFor a i c).isStart = false) → LoopStep a i b
  | picked {c : Group} {k} : a.checkLoop = .opening → (c : ℕ) < a.mgr.settings.tunerResourceMax →
      a.mgr.recordings[c].isUsed = false → a.mgr.reqStartRecordingReserve = some k →
      LoopStep a (.opened (some c)) ((a.tuner c [.opened]).pickAndStart c)
  | start {c stage done i o} : a.checkLoop = .starting c stage done →
      startNext a.mgr c stage i = some o → LoopStep a (.start i) (a.startStep c done o)

theorem pickAndStart_some {i : Fin reserveNumMax} (h : s.mgr.reqStartRecordingReserve = some i) :
    (s.pickAndStart g).checkLoop = .starting g .requested ⟨[], []⟩ ∧
      (s.pickAndStart g).mgr.recordings[g] = RecManager.picked g s.mgr.reserves[i] := by
  unfold pickAndStart
  simp only [s.mgr.pick_eq g h]
  simp [setMgr, tuner, mgr]

theorem onTimeout_checkLoop (now : ℤ) (nowEnd df : Group → ℤ) :
    (s.onTimeout now nowEnd df).checkLoop = .paused ∨
      (s.onTimeout now nowEnd df).checkLoop = .opening := by
  obtain ⟨c, l, -, hl, heq⟩ := s.onTimeout_eq now nowEnd df
  rw [heq]
  exact hl

/-- The check loop and the tuners stay as they are. -/
structure KeepsLoop (s t : Sys) : Prop where
  checkLoop : t.checkLoop = s.checkLoop
  tuners : t.tuners = s.tuners

theorem onStopRecording_keepsLoop : KeepsLoop s (s.onStopRecording g) := by
  unfold onStopRecording
  split_ifs <;> exact ⟨rfl, rfl⟩

theorem onTsReceived_keepsLoop (data : List UInt8) : KeepsLoop s (s.onTsReceived g data) := by
  unfold onTsReceived
  dsimp only
  split <;> exact ⟨rfl, rfl⟩

theorem onPatNotDetected_keepsLoop : KeepsLoop s (s.onPatNotDetected g) := by
  unfold onPatNotDetected
  split_ifs
  · exact ⟨(onTsReceived_keepsLoop []).checkLoop, (onTsReceived_keepsLoop []).tuners⟩
  · exact ⟨rfl, rfl⟩

theorem onPresentEvent_keepsLoop (e : Option PresentEvent) :
    KeepsLoop s (s.onPresentEvent g e) := by
  unfold onPresentEvent
  cases e with
  | none => exact ⟨rfl, rfl⟩
  | some e =>
    dsimp only
    split_ifs <;> exact ⟨rfl, rfl⟩

theorem onRecordingNotice_checkLoop (n : RecordingNotice) (now : ℤ) :
    (s.onRecordingNotice n now).checkLoop = s.checkLoop := by
  unfold onRecordingNotice
  split <;> rfl

theorem step_keepsLoop (hl : l.isAside = true) (h : s.step l = some t) : KeepsLoop s t := by
  cases l with
  | timeout | opened | start | started | notice => cases hl
  | stop g' =>
    obtain rfl := Option.some.inj h
    exact onStopRecording_keepsLoop
  | stopQueued =>
    dsimp only [step] at h
    split at h
    · obtain rfl := Option.some.inj h
      exact ⟨onStopRecording_keepsLoop.checkLoop, onStopRecording_keepsLoop.tuners⟩
    · cases h
  | ts g' data =>
    obtain rfl := Option.some.inj h
    exact onTsReceived_keepsLoop data
  | patNotDetected g' =>
    obtain rfl := Option.some.inj h
    exact onPatNotDetected_keepsLoop
  | presentTimeout =>
    dsimp only [step] at h
    split at h
    · obtain rfl := Option.some.inj h
      exact ⟨rfl, rfl⟩
    · cases h
  | presentEvent e =>
    dsimp only [step] at h
    split at h
    · obtain rfl := Option.some.inj h
      exact ⟨(onPresentEvent_keepsLoop e).checkLoop, (onPresentEvent_keepsLoop e).tuners⟩
    · cases h
  | table op =>
    dsimp only [step] at h
    split_ifs at h
    obtain ⟨b, -, rfl⟩ := Option.map_eq_some_iff.mp h
    exact ⟨rfl, rfl⟩

theorem opFor_isAside (hl : l.isAside = true) (g : Group) : (opFor s l g).isAside = true := by
  cases l with
  | timeout | opened | start | started | notice => cases hl
  | presentTimeout | table => rfl
  | stop | ts | patNotDetected =>
    dsimp only [opFor]
    split_ifs <;> rfl
  | stopQueued =>
    dsimp only [opFor]
    split
    · split_ifs <;> rfl
    · rfl
  | presentEvent e =>
    cases e with
    | none => rfl
    | some e =>
      dsimp only [opFor]
      split
      · split_ifs <;> rfl
      · rfl

/-- **What a step does to the check loop.** -/
theorem step_loop (h : s.step l = some t) : LoopStep s l t := by
  cases l with
  | timeout now nowEnd df =>
    dsimp only [step] at h
    split at h
    · obtain rfl := Option.some.inj h
      refine .turn (.inr (by simp [*])) (fun g stage done hc => ?_) fun g => rfl
      rcases onTimeout_checkLoop (s := s) now nowEnd df with hp | hp <;> rw [hp] at hc <;> cases hc
    · cases h
  | opened g' =>
    cases g' with
    | none =>
      dsimp only [step] at h
      split at h
      · obtain rfl := Option.some.inj h
        exact .turn (.inr (by simp [*])) (by simp) fun g => rfl
      · cases h
    | some g' =>
      dsimp only [step] at h
      split at h
      · split_ifs at h with hlt
        obtain rfl := Option.some.inj h
        unfold onOpened
        dsimp only
        rcases hu : s.mgr.recordings[g'].isUsed with _ | _
        · rw [if_neg Bool.false_ne_true]
          rcases hp : s.mgr.reqStartRecordingReserve with _ | i
          · have hex : s.mgr.isExistReqStartRecordingReserve = false := by
              simp [RecManager.isExistReqStartRecordingReserve, hp]
            rw [pickAndStart_none (s := s.tuner g' [.opened]) hex]
            refine .turn (.inr (by simp [*])) (by simp) fun g => ?_
            dsimp only [opFor]
            split_ifs
            · simp only [pickOp, hp]
              rfl
            · rfl
          · exact .picked ‹_› hlt hu hp
        · rw [if_pos rfl]
          refine .turn (.inr (by simp [*])) (by simp) fun g => ?_
          dsimp only [opFor]
          rw [if_neg]
          · rfl
          · rintro ⟨rfl, hf⟩
            rw [hu] at hf
            cases hf
      · cases h
  | start l =>
    dsimp only [step] at h
    split at h
    · obtain ⟨o, ho, rfl⟩ := Option.map_eq_some_iff.mp h
      exact .start ‹_› ho
    · cases h
  | started =>
    dsimp only [step] at h
    split at h
    · obtain rfl := Option.some.inj h
      exact .turn (.inl rfl) (by simp) fun g => rfl
    · cases h
  | notice now =>
    dsimp only [step] at h
    split at h
    · rename_i n q hq
      obtain rfl := Option.some.inj h
      refine .other (onRecordingNotice_checkLoop n now) fun g => ?_
      simp only [opFor, hq]
      split_ifs <;> rfl
    · cases h
  | stop | stopQueued | ts | patNotDetected | presentTimeout | presentEvent | table =>
    exact .other (step_keepsLoop rfl h).checkLoop fun g =>
      RecorderOp.isStart_of_isAside (opFor_isAside rfl g)

/-! ## What the groups rely on -/

theorem opFor_update {f : Reserve → Reserve} (h : opFor s l g = .update f) :
    ∃ e, f = (·.updatePresent e) := by
  cases l with
  | timeout | started | presentTimeout | table => cases h
  | stop | ts | patNotDetected =>
    dsimp only [opFor] at h
    split_ifs at h
  | opened g' =>
    cases g' with
    | none => cases h
    | some g' =>
      dsimp only [opFor, pickOp] at h
      split_ifs at h
      split at h <;> cases h
  | start i =>
    dsimp only [opFor] at h
    split at h
    · split_ifs at h
      rcases ho : startNext s.mgr g _ i with _ | o
      · rw [ho] at h
        cases h
      · rw [ho] at h
        cases o <;> cases h
    · cases h
  | stopQueued | notice =>
    dsimp only [opFor] at h
    split at h
    · split_ifs at h
    · cases h
  | presentEvent e =>
    cases e with
    | none => cases h
    | some e =>
      dsimp only [opFor] at h
      split at h
      · split_ifs at h
        exact ⟨e, (RecorderOp.update.inj h).symm⟩
      · cases h

theorem updatePresent_keeps (e : PresentEvent) (r : Reserve) :
    (r.updatePresent e).isUsed = r.isUsed ∧ (r.updatePresent e).state = r.state := by
  unfold Reserve.updatePresent
  split_ifs <;> exact ⟨rfl, rfl⟩

theorem opFor_picked {k : Fin reserveNumMax} (hu : s.mgr.recordings[g].isUsed = false)
    (hk : s.mgr.reqStartRecordingReserve = some k) (g' : Group) :
    opFor s (.opened (some g)) g' =
      if g = g' then .pick (RecManager.picked g s.mgr.reserves[k]) else .idle := by
  dsimp only [opFor]
  by_cases hg : g = g'
  · subst hg
    rw [if_pos ⟨rfl, hu⟩, if_pos rfl]
    simp only [pickOp, hk]
  · rw [if_neg (fun h => hg h.1), if_neg hg]

theorem opFor_start {stage : StartStage} {done : StartRecord} {i : StartLabel} {o : StartOutcome}
    (hc : s.checkLoop = .starting g stage done) (ho : startNext s.mgr g stage i = some o)
    (g' : Group) :
    opFor s (.start i) g' = if g = g' then outcomeOp s.mgr.settings o else .idle := by
  simp only [opFor, hc]
  by_cases hg : g = g'
  · subst hg
    rw [if_pos rfl, if_pos rfl, ho]
    rfl
  · rw [if_neg hg, if_neg hg]

/-- **The module sees to what its groups rely on.** -/
theorem opFor_ok (hI : SysInv P settings s) (hc : s.isCrashed = false) (h : s.step l = some t)
    (g : Group) : (s.recorder g).OpOk (opFor s l g) := by
  have hother : (opFor s l g).isStart = false → (s.recorder g).OpOk (opFor s l g) := by
    intro hop
    rcases he : opFor s l g with _ | _ | _ | _ | _ | _ | _ | _ | _ | _ | f
    case update =>
      obtain ⟨e, rfl⟩ := opFor_update he
      exact updatePresent_keeps e
    all_goals first | trivial | (rw [he] at hop; cases hop)
  cases step_loop h with
  | other _ hop | turn _ _ hop => exact hother (hop g)
  | @picked c k _ _ hu hk =>
    rw [opFor_picked hu hk g]
    split_ifs with hg
    · subst hg
      obtain ⟨-, hp, -⟩ := Slots.firstFrom_some hk
      refine ⟨hu, (Bool.and_eq_true_iff.mp hp).1, ?_⟩
      simp only [RecManager.picked, Reserve.unmark_state]
      rw [Flag.has_andNot (by decide)]
      exact hI.reserves.clean k k.2
    · trivial
  | @start c stage done i o hl ho =>
    rw [opFor_start hl ho g]
    split_ifs with hg
    · subst hg
      obtain ⟨hu, -, hst⟩ := (hI.stage c stage done hl).of_startNext ho
      have hidle := (hI.unstarted c stage done hl hst).resolve_left
        (by simp [recorder_isCrashed hc])
      have hok : (s.recorder c).recording.isUsed = true ∧
          (s.recorder c).recording.isRecording = false := ⟨hu, hidle.not_recording⟩
      cases o <;> first | exact hok | trivial
    · trivial

/-! ## One step -/

theorem next_settings {a b : Table} {op : TableOp} (hI : ReservesInv a.mgr.reserves)
    (h : a.next op = some b) : b.mgr.settings = a.mgr.settings := by
  rcases hop : op.isSequence with _ | _
  · cases op with
    | add | removeReserve | removeReserveByIndex | timeout | scheduleState | event => cases hop
    | checkReserves now =>
      obtain rfl := Option.some.inj h
      exact (a.mgr.checkReserves_frame now).2.2
    | refreshReserves state =>
      obtain rfl := Option.some.inj h
      simp only [RecManager.refreshReserves_eq]
    | pick g =>
      obtain rfl := Option.some.inj h
      rcases hp : a.mgr.reqStartRecordingReserve with _ | k
      · simp only [RecManager.pickReqStartRecordingReserve, hp]
      · simp only [a.mgr.pick_eq g hp]
        rfl
    | other =>
      obtain rfl := Option.some.inj h
      rfl
  · exact (table_frame hI hop h).2.2

theorem step_settings (hI : ReservesInv s.mgr.reserves) (h : s.step l = some t) :
    t.mgr.settings = s.mgr.settings ∧ ReservesInv t.mgr.reserves := by
  obtain ⟨ops, hops⟩ := step_table h
  refine (Machine.reach_of_exec hops).inv
    (fun b => b.mgr.settings = s.mgr.settings ∧ ReservesInv b.mgr.reserves) ⟨rfl, hI⟩ ?_
  rintro a op b ⟨hs, ha⟩ - hn
  exact ⟨(next_settings ha hn).trans hs, Table.next_reservesInv ha hn⟩

theorem startStep_stage {stage stage' : StartStage} {done' : StartRecord} {i : StartLabel}
    {o : StartOutcome} (hset : s.mgr.settings = settings)
    (hu : s.mgr.recordings[g].isUsed = true) (ho : startNext s.mgr g stage i = some o)
    (h : (s.startStep g ⟨[], []⟩ o).checkLoop = .starting g stage' done') :
    StageOk settings g (s.startStep g ⟨[], []⟩ o).mgr.recordings[g] done' stage' := by
  have hok := startNext_ok hu ho
  cases o with
  | wait stage =>
    cases h
    exact hset ▸ hok.1
  | add r =>
    cases h
    have hr := (s.mgr.onAdd_frame r).1
    refine ⟨?_, rfl⟩
    simpa only [startStep, setMgr, mgr, hr] using hu
  | fail f exit =>
    obtain ⟨hf, he⟩ := hok
    cases h
    have hfree : (s.startStep g ⟨[], []⟩ (.fail f exit)).mgr.recordings[g].isUsed = false := by
      simp [startStep, storeFailed, log, setMgr, tuner, mgr]
    have hres : ∃ r, (⟨[] ++ [s.mgr.recordings[g].mark f], [] ++ tunerStopClose⟩ : StartRecord) =
        ⟨[r], tunerStopClose⟩ ∧ r.isUsed = true ∧ Flag.has r.state ReserveState.endError = true :=
      ⟨_, rfl, hu, by rw [Reserve.mark_state, Flag.has_or, hf, Bool.or_true]⟩
    cases exit with
    | diskLow | tuneErr | noPresentEvent | forceErr | readdErr | progressNotInit =>
      exact ⟨hfree, hres⟩
    | invalidGroup | channelLookup | rescheduled | success => cases he
  | leave =>
    cases h
    exact hu
  | reschedule =>
    cases h
    exact ⟨by simp [startStep, setMgr, tuner, mgr], rfl⟩
  | invalid =>
    cases h
    exact hset ▸ hok
  | record now =>
    cases h
    trivial

theorem startStep_checkLoop (done : StartRecord) (o : StartOutcome) :
    ∃ stage' done', (s.startStep g done o).checkLoop = .starting g stage' done' := by
  cases o <;> exact ⟨_, _, rfl⟩

theorem startStep_unstarted {stage : StartStage} {done done' : StartRecord} {o : StartOutcome}
    (h : (s.startStep g done o).checkLoop = .starting g stage done') (hst : stage.isUnstarted)
    (now : ℤ) (b : Bool) : outcomeOp s.mgr.settings o ≠ .enter now b := by
  cases o with
  | record now =>
    cases h
    exact absurd rfl hst
  | wait | add | fail | leave | reschedule | invalid => simp [outcomeOp]

/-- **One step** keeps the invariant. -/
theorem step_sysInv (hI : SysInv P settings s)
    (hP : ∀ (g : Group) now, s.mgr.recordings[g].isUsed = true → P (s.mgr.recordings[g].finish now))
    (hc : s.isCrashed = false) (h : s.step l = some t) : SysInv P settings t := by
  have hgroup := fun g => step_recorder hI.reserves hI.groupId h g
  have hnext : ∀ g, (s.recorder g).next (opFor s l g) = some (t.recorder g) := fun g => by
    rw [Recorder.next, recorder_isCrashed hc, if_neg Bool.false_ne_true, hgroup g]
  obtain ⟨hset, hres⟩ := step_settings hI.reserves h
  have hok := opFor_ok hI hc h
  -- while `on_start_recording` has not begun to record, no other sequence moves its slot
  have hstay : ∀ g, (opFor s l g).isStart = false → Recorder.Idle (s.recorder g) →
      t.mgr.recordings[g] = s.mgr.recordings[g] ∧
        ((t.recorder g).isCrashed = true ∨ Recorder.Idle (t.recorder g)) := by
    intro g hop hidle
    refine ⟨hidle.step_recording hop (hgroup g), hidle.step_idle (hok g) ?_ (hgroup g)⟩
    intro now b he
    rw [he] at hop
    cases hop
  have hidle : ∀ g stage done, s.checkLoop = .starting g stage done → stage.isUnstarted →
      Recorder.Idle (s.recorder g) := fun g stage done hcl hst =>
    (hI.unstarted g stage done hcl hst).resolve_left (by simp [recorder_isCrashed hc])
  refine ⟨hset.trans hI.settings_eq, hres, fun g => ?_,
    fun g => Recorder.next_inv (hI.recorder g) (hP g) (hok g) (hnext g), ?_, ?_⟩
  · exact (Recorder.step_groupId (hgroup g)).trans (hI.groupId g)
  · intro g stage done hcl
    cases step_loop h with
    | other hsame hop =>
      rw [hsame] at hcl
      have hst := hI.stage g stage done hcl
      by_cases hun : stage.isUnstarted
      · rwa [(hstay g (hop g) (hidle g stage done hcl hun)).1]
      · cases stage with
        | replied exit =>
          rw [StartStage.isUnstarted, not_not] at hun
          subst hun
          trivial
        | requested | channel | tune | present | presentWait | force | add | added =>
          exact absurd trivial hun
    | turn _ hne _ => exact absurd hcl (hne g stage done)
    | @picked c k _ _ _ hk =>
      obtain ⟨hcl', hr⟩ := pickAndStart_some (s := s.tuner c [.opened]) (g := c) hk
      rw [hcl'] at hcl
      cases hcl
      obtain ⟨-, hp, -⟩ := Slots.firstFrom_some hk
      rw [hr]
      exact ⟨(Bool.and_eq_true_iff.mp hp).1, rfl⟩
    | @start c stage₀ done₀ i o hl ho =>
      obtain ⟨hu, rfl, -⟩ := (hI.stage c stage₀ done₀ hl).of_startNext ho
      obtain ⟨stage', done', hcl'⟩ := startStep_checkLoop (s := s) (g := c) ⟨[], []⟩ o
      rw [hcl'] at hcl
      cases hcl
      exact startStep_stage hI.settings_eq hu ho hcl'
  · intro g stage done hcl hst
    cases step_loop h with
    | other hsame hop =>
      rw [hsame] at hcl
      exact (hstay g (hop g) (hidle g stage done hcl hst)).2
    | turn _ hne _ => exact absurd hcl (hne g stage done)
    | @picked c k _ _ hu hk =>
      rw [(pickAndStart_some (s := s.tuner c [.opened]) (g := c) hk).1] at hcl
      cases hcl
      have hv := (hI.recorder g).idle_of_unused (recorder_isCrashed hc g) hu
      refine hv.step_idle (hok g) ?_ (hgroup g)
      intro now b he
      rw [opFor_picked hu hk, if_pos rfl] at he
      cases he
    | @start c stage₀ done₀ i o hl ho =>
      obtain ⟨stage', done', hcl'⟩ := startStep_checkLoop (s := s) (g := c) done₀ o
      rw [hcl'] at hcl
      cases hcl
      obtain ⟨-, -, hst₀⟩ := (hI.stage g stage₀ done₀ hl).of_startNext ho
      refine (hidle g stage₀ done₀ hl hst₀).step_idle (hok g) ?_ (hgroup g)
      intro now b he
      rw [opFor_start hl ho, if_pos rfl] at he
      exact startStep_unstarted hcl' hst now b he

/-! ## Every run -/

theorem initial_sysInv : SysInv P settings (initial settings) where
  settings_eq := rfl
  reserves := ReservesInv.initial
  groupId := fun g => by simp [initial, mgr, Table.initial, RecManager.initial, Instance.mk']
  recorder := fun g => by
    refine .idle ⟨?_, ?_, ?_, .inl ?_, ?_⟩ ?_
    all_goals simp [initial, recorder, noticesOf, mgr, Table.initial, RecManager.initial,
      Instance.mk']
    exact .nil
  stage := fun _ _ _ h => by cases h
  unstarted := fun _ _ _ h => by cases h

/-- **Every state of the module** meets the invariant. -/
theorem reach_sysInv {ok : Sys → Label → Prop} (h : Machine.Reach next ok (initial settings) s) :
    SysInv (fun r => r.isUsed = true) settings s :=
  h.inv (SysInv (fun r => r.isUsed = true) settings) initial_sysInv fun _ _ _ hI _ hn =>
    step_sysInv hI (fun _ _ hu => hu) (next_step hn).1 (next_step hn).2

/-! ## Example runs -/

/-- Event 7 is reserved and due, and a tuner has been asked for. -/
def dueRun : List Label :=
  [.table (Table.exampleAdd (Table.exampleEvent 7 100 200)),
    .timeout 100 (fun _ => 100) (fun _ => 2000)]

/-- The recording of event 7 is started by group 0 at 100. -/
def startRun : List Label :=
  dueRun ++ ([.opened (some 0), .start (.enter 2000), .start (.channel (some 27)),
    .start (.tuned true 100), .start (.present (some 7) 100), .started] : List Label)

end Sys

end AutoRec
