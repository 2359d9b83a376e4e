import AutoRec.Rec.Tuners

/-!
# Who owns a tuner

The check loop opens a tuner when a reserve is due, and picks the reserve after that. In between,
any sequence can take the reserve away. When a recording has ended, or has not started, `tune_stop`
and `close` are sent; if the tuner cannot be stopped, the service refuses to close it.

* `OwnsTuners`: at the end of a turn every tuner of the manager belongs to a recording, or its
  `close` is on its way.
* `PicksOpened`, `PicksAndCloses`: there is something to pick for a tuner that has been opened, and
  a tuner that is closed has been stopped.
* `TunedInv`: the invariant of the manager and the service.
* **`ownsTuners_of_picksAndCloses`**, and `not_ownsTuners`.
-/

namespace AutoRec

namespace Recorder

variable {v w : Recorder} {op : RecorderOp}

/-- The slot is not filled or emptied. -/
def KeepsUsed : RecorderOp → Prop
  | .pick _ | .fail _ | .drop | .notice _ => False
  | .idle | .enter _ _ | .check _ _ | .stop | .patNotDetected | .ts _ | .update _ => True

theorem keepsUsed_of_isAside (h : op.isAside = true) : KeepsUsed op := by
  cases op <;> trivial

theorem step_isUsed (hop : KeepsUsed op) (hok : OpOk v op) (h : v.step op = some w) :
    w.recording.isUsed = v.recording.isUsed := by
  cases op with
  | pick | fail | drop | notice => exact hop.elim
  | idle =>
    cases h
    rfl
  | enter | update =>
    dsimp only [step] at h
    split_ifs at h
    cases h
    first | rfl | exact (hok _).1
  | check =>
    cases h
    dsimp only
    split_ifs <;> rfl
  | stop =>
    dsimp only [step] at h
    split_ifs at h <;> cases h <;> rfl
  | patNotDetected =>
    dsimp only [step] at h
    split_ifs at h <;> cases h
    · rw [onTsReceived_recording]
      rfl
    · rfl
  | ts data =>
    cases h
    exact congrArg Reserve.isUsed (onTsReceived_recording data)

end Recorder

namespace Sys

variable {s t : Sys} {l : Label} {settings : Settings} {P : Reserve → Prop} {g : Group}

/-- The tuner has been handed over, and its recording is in its slot. -/
def Records (s : Sys) (g : Group) : Prop :=
  s.tuners[g].getLast? = some .handed ∧ s.mgr.recordings[g].isUsed = true

/-- When a tuner has been opened its slot is free, and a reserve is still to be picked. -/
def PicksOpened (s : Sys) : Label → Prop
  | .opened (some g) =>
    s.mgr.recordings[g].isUsed = false ∧ s.mgr.isExistReqStartRecordingReserve = true
  | _ => True

instance (s : Sys) (l : Label) : Decidable (PicksOpened s l) := by
  unfold PicksOpened
  split <;> infer_instance

/-! ## What happens to a tuner in a step -/

/-- The tuner stays as it is with its recording, or it is closed. -/
def KeepsTuner (s t : Sys) (g : Group) : Prop :=
  t.tuners[g] = s.tuners[g] ∧ t.mgr.recordings[g].isUsed = s.mgr.recordings[g].isUsed ∨
    t.tuners[g] = s.tuners[g] ++ tunerStopClose

theorem startStep_keepsTuner (done : StartRecord) (o : StartOutcome) (g' : Group) :
    KeepsTuner s (s.startStep g done o) g' := by
  by_cases hg : g' = g
  · subst hg
    cases o with
    | wait | invalid => exact .inl ⟨rfl, rfl⟩
    | add r => exact .inl ⟨rfl, by simp only [startStep, setMgr, mgr, (s.mgr.onAdd_frame r).1]⟩
    | record now => exact .inl ⟨rfl, by simp [startStep, setMgr, log, mgr, Reserve.enter]⟩
    | fail | leave | reschedule => exact .inr (by simp [startStep, tuner, storeFailed, log, setMgr])
  · refine .inl ⟨?_, congrArg (fun v => v.recording.isUsed) (startStep_ne o hg)⟩
    have hne := Fin.val_ne_of_ne (Ne.symm hg)
    cases o <;> simp [startStep, tuner, storeFailed, log, setMgr, Vector.getElem_set_ne _ _ hne]

theorem onTimeout_tuners (now : ℤ) (nowEnd df : Group → ℤ) :
    (s.onTimeout now nowEnd df).tuners = s.tuners := by
  obtain ⟨c, l, -, -, heq⟩ := s.onTimeout_eq now nowEnd df
  rw [heq]
  rfl

theorem onRecordingNotice_keepsTuner (n : RecordingNotice) (now : ℤ) (g : Group) :
    KeepsTuner s (s.onRecordingNotice n now) g := by
  unfold onRecordingNotice
  by_cases hg : g = n.groupId
  · subst hg
    split
    · exact .inl ⟨rfl, by simp [setMgr, mgr]⟩
    · exact .inr (by simp [tuner, log, setMgr])
    all_goals exact .inl ⟨rfl, rfl⟩
  · have hne := Fin.val_ne_of_ne (Ne.symm hg)
    split
    · exact .inl ⟨rfl, by simp [setMgr, mgr, updRecording_ne _ _ hg]⟩
    · exact .inl ⟨by simp [tuner, log, setMgr, Vector.getElem_set_ne _ _ hne],
        by simp [tuner, log, setMgr, mgr, updRecording_ne _ _ hg]⟩
    all_goals exact .inl ⟨rfl, rfl⟩

/-- **Only an opened tuner changes hands** in a step, or it is closed. -/
theorem step_keepsTuner (hI : SysInv P settings s) (hc : s.isCrashed = false)
    (hl : ∀ c, l ≠ .opened (some c)) (h : s.step l = some t) (g : Group) : KeepsTuner s t g := by
  have hkeep : t.tuners = s.tuners → Recorder.KeepsUsed (opFor s l g) → KeepsTuner s t g :=
    fun ht hop => .inl ⟨by rw [ht], Recorder.step_isUsed hop (opFor_ok hI hc h g)
      (step_recorder hI.reserves hI.groupId h g)⟩
  cases l with
  | timeout now nowEnd df =>
    dsimp only [step] at h
    split at h
    · obtain rfl := Option.some.inj h
      exact hkeep (onTimeout_tuners now nowEnd df) trivial
    · cases h
  | opened g' =>
    cases g' with
    | none =>
      dsimp only [step] at h
      split at h
      · obtain rfl := Option.some.inj h
        exact .inl ⟨rfl, rfl⟩
      · cases h
    | some g' => exact absurd rfl (hl g')
  | start i =>
    dsimp only [step] at h
    split at h
    · obtain ⟨o, -, rfl⟩ := Option.map_eq_some_iff.mp h
      exact startStep_keepsTuner _ o g
    · cases h
  | started =>
    dsimp only [step] at h
    split at h
    · obtain rfl := Option.some.inj h
      exact .inl ⟨rfl, rfl⟩
    · cases h
  | notice now =>
    dsimp only [step] at h
    split at h
    · rename_i n q hq
      obtain rfl := Option.some.inj h
      exact onRecordingNotice_keepsTuner (s := { s with notices := q }) n now g
    · cases h
  | stop | stopQueued | ts | patNotDetected | presentTimeout | presentEvent | table =>
    exact hkeep (step_keepsLoop rfl h).tuners
      (Recorder.keepsUsed_of_isAside (opFor_isAside rfl g))

theorem pickAndStart_records {k : Fin reserveNumMax} (hk : s.mgr.reqStartRecordingReserve = some k)
    (g : Group) : ((s.tuner g [.opened]).pickAndStart g).Records g := by
  obtain ⟨-, hp, -⟩ := Slots.firstFrom_some hk
  refine ⟨?_, ?_⟩
  · unfold pickAndStart
    simp only [(s.tuner g [.opened]).mgr.pick_eq g hk]
    simp [tuner, setMgr]
  · rw [(pickAndStart_some (s := s.tuner g [.opened]) (g := g) hk).2]
    exact (Bool.and_eq_true_iff.mp hp).1

theorem pickAndStart_keepsTuner {k : Fin reserveNumMax}
    (hk : s.mgr.reqStartRecordingReserve = some k) {g g' : Group} (hg : g' ≠ g) :
    KeepsTuner s ((s.tuner g [.opened]).pickAndStart g) g' := by
  refine .inl ⟨?_, congrArg (fun v => v.recording.isUsed) (pickAndStart_ne hg)⟩
  have hne := Fin.val_ne_of_ne (Ne.symm hg)
  unfold pickAndStart
  simp only [(s.tuner g [.opened]).mgr.pick_eq g hk]
  simp [tuner, setMgr, Vector.getElem_set_ne _ _ hne]

/-- **A step** hands the opened tuner over, if there is something to pick for it, and keeps or closes
the other ones. -/
theorem step_tuner (hI : SysInv P settings s) (hc : s.isCrashed = false) (hok : PicksOpened s l)
    (h : s.step l = some t) (g : Group) : KeepsTuner s t g ∧ l ≠ .opened (some g) ∨ t.Records g := by
  by_cases hl : ∃ c, l = .opened (some c)
  · obtain ⟨c, rfl⟩ := hl
    obtain ⟨hu, hex⟩ := hok
    obtain ⟨k, hk⟩ := Option.isSome_iff_exists.mp hex
    dsimp only [step] at h
    split at h
    · split_ifs at h
      obtain rfl := Option.some.inj h
      simp only [onOpened, hu]
      by_cases hg : g = c
      · subst hg
        exact .inr (pickAndStart_records hk g)
      · exact .inl ⟨pickAndStart_keepsTuner hk hg, by simpa using Ne.symm hg⟩
    · cases h
  · exact .inl ⟨step_keepsTuner hI hc (fun c hc => hl ⟨c, hc⟩) h g, fun hg => hl ⟨g, hg⟩⟩

theorem mem_sends (h : t.tuners[g] = s.tuners[g] ++ tunerStopClose) :
    .closeReq recThread g ∈ s.sends t := by
  refine List.mem_flatMap.mpr ⟨g, List.mem_finRange g, ?_⟩
  rw [h, List.drop_left]
  simp [tunerStopClose, TunerEvent.request]

theorem openReq_notMem_sends : .openReq recThread ∉ s.sends t := by
  simp only [sends, List.mem_flatMap, List.mem_filterMap, not_exists, not_and]
  rintro g - e -
  cases e <;> nofun

/-! ## The request for a tuner -/

/-- The check loop waits for a tuner from the end of its pause to the reply. -/
theorem asks_step (hl : ∀ r, l ≠ .opened r) (h : s.step l = some t) :
    s.checkLoop.asks + (s.requests t l).count (.openReq recThread) ≤ t.checkLoop.asks := by
  have hkeep : s.requests t l = [] → t.checkLoop = s.checkLoop →
      s.checkLoop.asks + (s.requests t l).count (.openReq recThread) ≤ t.checkLoop.asks := by
    intro hr hc
    rw [hr, hc, List.count_nil, Nat.add_zero]
  cases l with
  | timeout now nowEnd df =>
    dsimp only [step] at h
    split at h
    · rename_i hp
      obtain rfl := Option.some.inj h
      rcases onTimeout_checkLoop (s := s) now nowEnd df with ht | ht <;>
        simp [requests, CheckLoop.asks, hp, ht]
    · cases h
  | opened r => exact absurd rfl (hl r)
  | start i =>
    dsimp only [step] at h
    split at h
    · rename_i g stage done hp
      obtain ⟨o, -, rfl⟩ := Option.map_eq_some_iff.mp h
      obtain ⟨stage', done', ht⟩ := startStep_checkLoop (s := s) (g := g) done o
      simp only [requests, CheckLoop.asks, hp, ht]
      split <;> simp
    · cases h
  | started =>
    dsimp only [step] at h
    split at h
    · rename_i hp
      obtain rfl := Option.some.inj h
      simp [requests, CheckLoop.asks, hp]
    · cases h
  | notice now =>
    dsimp only [step] at h
    split at h
    · obtain rfl := Option.some.inj h
      exact hkeep rfl (onRecordingNotice_checkLoop _ now)
    · cases h
  | stop | stopQueued | ts | patNotDetected | presentTimeout | presentEvent | table =>
    exact hkeep rfl (step_keepsLoop rfl h).checkLoop

theorem opening_of_opened {r : Option Group} (h : s.step (.opened r) = some t) :
    s.checkLoop = .opening := by
  cases r <;>
  · dsimp only [step] at h
    split at h
    · assumption
    · cases h

end Sys

/-! ## The manager and the service -/

namespace TunedSys

variable {t u : TunedSys} {op : TunerOp} {settings : Settings} {tunerHalAllocates : List String}
  {g : Group}

/-- **At the end of a turn** of the check loop, every tuner that the service has for the manager
belongs to a recording, or its `close` is on its way. -/
def OwnsTuners (t : TunedSys) : Prop :=
  t.sys.checkLoop = .paused → ∀ g : Group, t.svc.owner g = some .recManager →
    t.sys.Records g ∨ .closeReq recThread g ∈ t.mail

/-- There is something to pick for a tuner that has been opened, and a tuner that the manager closes
is not tuned any more. -/
def PicksAndCloses (t : TunedSys) : TunedOp → Prop
  | .manager l => t.sys.PicksOpened l
  | .handle (.closeReq _ g) => t.svc.owner g = some .recManager → t.svc.isTuned g = false
  | _ => True

instance (t : TunedSys) (op : TunedOp) : Decidable (PicksAndCloses t op) := by
  unfold PicksAndCloses
  split <;> infer_instance

/-- The tuner belongs to a recording, or its `close` is on its way, or the reply that gives it is. -/
def Kept (t : TunedSys) (g : Group) : Prop :=
  t.svc.owner g = some .recManager →
    t.sys.Records g ∨ .closeReq recThread g ∈ t.mail ∨ t.openReply = some (some (g : ℕ))

/-- **The invariant** of both: one tuner is asked for while the check loop waits for one, and every
tuner is kept. -/
structure TunedInv (t : TunedSys) : Prop where
  sized : t.svc.Sized
  asked : t.mail.count (.openReq recThread) + t.openReply.toList.length ≤ t.sys.checkLoop.asks
  kept : ∀ g, Kept t g

theorem TunedInv.manage {l : Label} {P : Reserve → Prop} (hI : TunedInv t)
    (hS : Sys.SysInv P settings t.sys) (hok : t.sys.PicksOpened l) (h : t.manage l = some u) :
    TunedInv u := by
  obtain ⟨s, hs, rfl, hsvc, hmail, hreply⟩ := manage_some h
  obtain ⟨hc, hstep⟩ := Sys.next_step hs
  have hcount : u.mail.count (.openReq recThread) =
      t.mail.count (.openReq recThread) + (t.sys.requests u.sys l).count (.openReq recThread) := by
    rw [hmail, List.count_append, List.count_append,
      List.count_eq_zero_of_not_mem Sys.openReq_notMem_sends, Nat.add_zero]
  refine ⟨hsvc ▸ hI.sized, ?_, fun g ho => ?_⟩
  · have hasked := hI.asked
    rcases hreply with ⟨hl, hr⟩ | ⟨r, rfl, hr, hnone⟩
    · have hasks := Sys.asks_step hl hstep
      rw [hcount, hr]
      omega
    · -- the reply to the only request is taken
      rw [hr, Sys.opening_of_opened hstep] at hasked
      have hnil : t.sys.requests u.sys (.opened r) = [] := rfl
      simp only [CheckLoop.asks, Option.toList_some, List.length_singleton] at hasked
      rw [hcount, hnil, hnone, List.count_nil, Option.toList_none, List.length_nil]
      omega
  · rw [hsvc] at ho
    rcases Sys.step_tuner hS hc hok hstep g with ⟨hk, hne⟩ | hrec
    · rcases hk with ⟨ht, hu⟩ | ht
      · rcases hI.kept g ho with ⟨hlast, hused⟩ | hclose | hopen
        · exact .inl ⟨by rw [ht]; exact hlast, hu.trans hused⟩
        · right; left
          simp [hmail, hclose]
        · right; right
          rcases hreply with ⟨-, hr⟩ | ⟨r, rfl, hr, -⟩
          · rw [hr, hopen]
          · rw [hopen, Option.some.injEq] at hr
            obtain ⟨c, rfl, hc⟩ := Option.map_eq_some_iff.mp hr.symm
            exact absurd (congrArg _ (congrArg some (Fin.ext hc))) hne
      · right; left
        rw [hmail]
        exact List.mem_append_right _ (Sys.mem_sends ht)
    · exact .inl hrec

theorem openReply_eq_some {r : Option ℕ} (h : t.svc.openReply op = some r) :
    op = .openReq recThread := by
  unfold TunerService.openReply at h
  split at h
  · split_ifs at h with hc
    rw [hc]
  · cases h

theorem owner_of_serve (hs : t.svc.Sized) (h : t.serve op = some u) {i : ℕ}
    (ho : u.svc.owner i = some .recManager) :
    t.svc.owner i = some .recManager ∨ op = .openReq recThread ∧ u.openReply = some (some i) := by
  obtain ⟨hstep, -, -, hreply⟩ := serve_some h
  rcases TunerService.owner_of_step hs hstep ho with ho | ⟨caller, rfl, hc, hopen⟩
  · exact .inl ho
  · obtain rfl := eq_recThread hc
    refine .inr ⟨rfl, ?_⟩
    rw [hreply, TunerService.openReply, if_pos rfl, hopen, Option.some_or]

theorem TunedInv.handle (hI : TunedInv t) (hop : op ∈ t.mail) (hok : PicksAndCloses t (.handle op))
    (h : ({ t with mail := t.mail.erase op } : TunedSys).serve op = some u) : TunedInv u := by
  obtain ⟨hstep, hsys, hmail, hreply⟩ := serve_some h
  have hperm := List.perm_cons_erase hop
  have hasked := hI.asked
  rw [hperm.count_eq, List.count_cons] at hasked
  have hle : t.sys.checkLoop.asks ≤ 1 := by
    cases t.sys.checkLoop <;> simp [CheckLoop.asks]
  have hno : ∀ r, t.svc.openReply op = some r → t.openReply = none := by
    intro r hr
    rw [openReply_eq_some hr, if_pos BEq.rfl] at hasked
    exact Option.toList_eq_nil_iff.mp (List.length_eq_zero_iff.mp (by omega))
  refine ⟨hI.sized.step hstep, ?_, fun g ho => ?_⟩
  · rw [hmail, hsys, hreply]
    dsimp only
    rcases hr : t.svc.openReply op with _ | r
    · rw [Option.none_or]
      omega
    · rw [openReply_eq_some hr, if_pos BEq.rfl] at hasked
      simp only [Option.some_or, Option.toList_some, List.length_singleton]
      rw [openReply_eq_some hr]
      omega
  · rcases owner_of_serve (t := { t with mail := t.mail.erase op }) hI.sized h ho with
      hold | ⟨-, hopen⟩
    · rcases hI.kept g hold with hrec | hclose | hopen
      · exact .inl (hsys ▸ hrec)
      · rcases List.mem_cons.mp (hperm.mem_iff.mp hclose) with rfl | hclose
        · -- the `close` takes the tuner away
          rw [TunerService.step_closeReq hstep,
            TunerService.owner_onClose hI.sized (hok hold)] at ho
          cases ho
        · exact .inr (.inl (hmail ▸ hclose))
      · right; right
        rcases hr : t.svc.openReply op with _ | r
        · rw [hreply, hr, Option.none_or, hopen]
        · rw [hno r hr] at hopen
          cases hopen
    · exact .inr (.inr hopen)

theorem TunedInv.service (hI : TunedInv t) (hop : op.isOther = true) (h : t.serve op = some u) :
    TunedInv u := by
  obtain ⟨hstep, hsys, hmail, hreply⟩ := serve_some h
  have hnot : op ≠ .openReq recThread := by
    rintro rfl
    exact absurd hop (by decide)
  have hsame : u.openReply = t.openReply := by
    rcases hr : t.svc.openReply op with _ | r
    · rw [hreply, hr, Option.none_or]
    · exact absurd (openReply_eq_some hr) hnot
  refine ⟨hI.sized.step hstep, ?_, fun g ho => ?_⟩
  · rw [hmail, hsys, hsame]
    exact hI.asked
  · rcases owner_of_serve hI.sized h ho with hold | ⟨heq, -⟩
    · have hkept := hI.kept g hold
      rwa [← hsys, ← hmail, ← hsame] at hkept
    · exact absurd heq hnot

/-- **One step** keeps the invariant. -/
theorem TunedInv.next {P : Reserve → Prop} {op : TunedOp} (hI : TunedInv t)
    (hS : Sys.SysInv P settings t.sys) (hok : PicksAndCloses t op) (h : t.next op = some u) :
    TunedInv u := by
  cases op with
  | manager l => exact hI.manage hS hok h
  | handle op =>
    dsimp only [TunedSys.next] at h
    split_ifs at h with hop
    exact hI.handle hop hok h
  | service op =>
    dsimp only [TunedSys.next] at h
    split_ifs at h with hop
    exact hI.service hop h

theorem initial_tunedInv : TunedInv (initial settings tunerHalAllocates) where
  sized := TunerService.sized_moduleUp _
  asked := Nat.le_refl 0
  kept := fun g ho => by
    obtain ⟨r, hr, hne, -⟩ := TunerService.owner_eq_some.mp ho
    exact absurd (congrArg Resource.tunerId (List.eq_of_mem_replicate (List.mem_of_getElem? hr))) hne

/-- **At the end of a turn every tuner of the manager belongs to a recording**, or its `close` is on
its way, in every run in which there is something to pick for each tuner that is opened, and no
tuner is still tuned when its `close` is taken. -/
theorem ownsTuners_of_picksAndCloses
    (h : Machine.Reach next PicksAndCloses (initial settings tunerHalAllocates) t) :
    OwnsTuners t := by
  have hI : TunedInv t :=
    h.inv₂ (fun t => Sys.SysInv (fun r => r.isUsed = true) settings t.sys) TunedInv
      (fun _ hr => Sys.reach_sysInv (reach_sys hr)) initial_tunedInv
      fun _ _ _ hS _ hI hok hn => hI.next hS hok hn
  intro hp g ho
  have hasked := hI.asked
  rw [hp, CheckLoop.asks] at hasked
  rcases hI.kept g ho with hrec | hclose | hopen
  · exact .inl hrec
  · exact .inr hclose
  · rw [hopen, Option.toList_some, List.length_singleton] at hasked
    omega

/-! ## Runs -/

/-- At the end of a turn: who has the first tuner, whether its recording is in its slot, and what the
service has not taken yet. -/
def turnEnd (t : TunedSys) : Option (Option ModuleId × Bool × List TunerOp) :=
  match t.sys.checkLoop with
  | .paused => some (t.svc.owner 0, t.sys.mgr.recordings[0].isUsed, t.mail)
  | _ => none

/-- At the end of this turn the manager has a tuner, and it has no recording. -/
theorem not_ownsTuners_of_turnEnd (h : t.turnEnd = some (some .recManager, false, [])) :
    ¬ OwnsTuners t := by
  unfold turnEnd at h
  split at h
  · rename_i hp
    simp only [Option.some.injEq, Prod.mk.injEq] at h
    obtain ⟨ho, hu, hm⟩ := h
    intro howns
    rcases howns hp 0 ho with ⟨-, hused⟩ | hclose
    · exact absurd (hu.symm.trans hused) Bool.false_ne_true
    · rw [hm] at hclose
      cases hclose
  · cases h

/-- Event 7 is due, and the manager has the tuner 0 for it, which is tuned. -/
def tunedRun : List TunedOp :=
  Sys.dueRun.map .manager ++
    ([.handle (.openReq recThread), .manager (.opened (some 0)), .manager (.start (.enter 2000)),
      .manager (.start (.channel (some 27))), .handle (.tuneWithRetry recThread 0),
      .service (.retryTune 0), .service (.tuneReply true), .service (.psisiState true),
      .service (.retryReply 0), .manager (.start (.tuned true 100))] : List TunedOp)

/-- Event 7 is on the air. -/
def recordRun : List TunedOp :=
  tunedRun ++ ([.manager (.start (.present (some 7) 100)), .manager .started] : List TunedOp)

/-- Event 8 is on the air, and there is no schedule of it; the tuner control replies `ok` to
`tune_stop`. -/
def stopRun (ok : Bool) : List TunedOp :=
  tunedRun ++
    ([.manager (.start (.present (some 8) 100)), .manager (.start (.forced false)),
      .handle (.tuneStop recThread 0), .service (.tuneStopReply ok),
      .handle (.closeReq recThread 0), .manager .started] : List TunedOp)

/-- The reserve is removed while the tuner is being opened. -/
def removeRun : List TunedOp :=
  Sys.dueRun.map .manager ++
    ([.manager (.table (.removeReserve ⟨1, 2, 3, 7⟩ false false)), .handle (.openReq recThread),
      .manager (.opened (some 0))] : List TunedOp)

theorem recordRun_turnEnd :
    Machine.execOk next PicksAndCloses (initial .oneTuner ["tuner0"]) recordRun = true ∧
      (Machine.exec next (initial .oneTuner ["tuner0"]) recordRun).map turnEnd =
        some (some (some .recManager, true, [])) := by
  decide +kernel

theorem stopRun_turnEnd :
    Machine.execOk next PicksAndCloses (initial .oneTuner ["tuner0"]) (stopRun true) = true ∧
      (Machine.exec next (initial .oneTuner ["tuner0"]) (stopRun true)).map turnEnd =
        some (some (none, false, [])) := by
  decide +kernel

theorem refusedRun_turnEnd :
    (Machine.exec next (initial .oneTuner ["tuner0"]) (stopRun false)).map turnEnd =
      some (some (some .recManager, false, [])) := by
  decide +kernel

theorem removeRun_turnEnd :
    (Machine.exec next (initial .oneTuner ["tuner0"]) removeRun).map turnEnd =
      some (some (some .recManager, false, [])) := by
  decide +kernel

theorem ownsTuners_of_picksAndCloses_runs :
    (∃ t, Machine.Reach next PicksAndCloses (initial .oneTuner ["tuner0"]) t ∧
      t.turnEnd = some (some .recManager, true, []) ∧ OwnsTuners t) ∧
    ∃ t, Machine.Reach next PicksAndCloses (initial .oneTuner ["tuner0"]) t ∧
      t.turnEnd = some (none, false, []) ∧ OwnsTuners t := by
  refine ⟨?_, ?_⟩
  · obtain ⟨t, -, hr, hv⟩ := Machine.exists_of_execOk recordRun_turnEnd
    exact ⟨t, hr, hv, ownsTuners_of_picksAndCloses hr⟩
  · obtain ⟨t, -, hr, hv⟩ := Machine.exists_of_execOk stopRun_turnEnd
    exact ⟨t, hr, hv, ownsTuners_of_picksAndCloses hr⟩

/-- **Not every turn ends so**, and each of the two conditions is needed: in `removeRun` nothing is
left to pick for the tuner, in `stopRun` it is not stopped and cannot be closed. -/
theorem not_ownsTuners :
    (¬ ∀ settings tunerHalAllocates t,
      Machine.Reach next Machine.anyStep (initial settings tunerHalAllocates) t → OwnsTuners t) ∧
    ∀ run ∈ [removeRun, stopRun false], ∃ t,
      Machine.exec next (initial .oneTuner ["tuner0"]) run = some t ∧ ¬ OwnsTuners t := by
  have hrun : ∀ run ∈ [removeRun, stopRun false], ∃ t,
      Machine.exec next (initial .oneTuner ["tuner0"]) run = some t ∧ ¬ OwnsTuners t := by
    intro run hmem
    have hend : (Machine.exec next (initial .oneTuner ["tuner0"]) run).map turnEnd =
        some (some (some .recManager, false, [])) := by
      simp only [List.mem_cons, List.not_mem_nil, or_false] at hmem
      rcases hmem with rfl | rfl
      · exact removeRun_turnEnd
      · exact refusedRun_turnEnd
    obtain ⟨t, ht, hv⟩ := Option.map_eq_some_iff.mp hend
    exact ⟨t, ht, not_ownsTuners_of_turnEnd hv⟩
  refine ⟨fun h => ?_, hrun⟩
  obtain ⟨t, ht, hnot⟩ := hrun removeRun List.mem_cons_self
  exact hnot (h _ _ t (Machine.reach_of_exec ht))

end TunedSys

end AutoRec
