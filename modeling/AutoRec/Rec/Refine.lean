import AutoRec.Rec.System

/-!
# The module, its table and its groups

A step of the module is a run of the table (`Rec/Table`) and, for each group, one step of the group
(`Rec/Recorder`).

* `step_table`, `reach_table`: what holds of the table in all its runs holds of the module's table.
* `opFor`, `step_recorder`: what a step of the module is for a group.
-/

namespace AutoRec

namespace Sys

variable {s t : Sys} {l : Label} {settings : Settings}

/-! ## Groups that are not meant -/

section Frame

variable (m : RecManager) {g g' : Group} (f : Reserve → Reserve) (fi : Instance → Instance)

@[simp] theorem updRecording_self : (m.updRecording g f).recordings[(g : ℕ)] = f m.recordings[g] := by
  simp [RecManager.updRecording]

theorem updRecording_ne (h : g' ≠ g) :
    (m.updRecording g f).recordings[(g' : ℕ)] = m.recordings[(g' : ℕ)] := by
  simp [RecManager.updRecording, Vector.getElem_set_ne _ _ (Fin.val_ne_of_ne h.symm)]

@[simp] theorem updInstance_self :
    (m.updInstance g fi).recInstances[(g : ℕ)] = fi m.recInstances[g] := by
  simp [RecManager.updInstance]

theorem updInstance_ne (h : g' ≠ g) :
    (m.updInstance g fi).recInstances[(g' : ℕ)] = m.recInstances[(g' : ℕ)] := by
  simp [RecManager.updInstance, Vector.getElem_set_ne _ _ (Fin.val_ne_of_ne h.symm)]

@[simp] theorem updRecording_recInstances :
    (m.updRecording g f).recInstances = m.recInstances := rfl

@[simp] theorem updInstance_recordings : (m.updInstance g fi).recordings = m.recordings := rfl

theorem noticesOf_append (l l' : List RecordingNotice) :
    noticesOf g (l ++ l') = noticesOf g l ++ noticesOf g l' := List.filterMap_append

end Frame

theorem recorder_isCrashed (h : s.isCrashed = false) (g : Group) :
    (s.recorder g).isCrashed = false := by
  rw [isCrashed, List.any_eq_false] at h
  simpa using h g (List.mem_finRange g)

theorem recorder_congr (g : Group) (hr : t.mgr.recordings = s.mgr.recordings)
    (hi : t.mgr.recInstances = s.mgr.recInstances) (hn : t.notices = s.notices)
    (hl : t.logs = s.logs) (ht : t.tsRuns = s.tsRuns) : t.recorder g = s.recorder g := by
  simp only [recorder, hr, hi, hn, hl, ht]

/-! ## One step of a group -/

variable {g g' : Group}

theorem recorder_storeFailed_self (f : ReserveState) :
    (s.recorder g).step (.fail f) = some ((s.storeFailed g f).recorder g) := by
  simp [Recorder.step, recorder, storeFailed, log, setMgr, mgr]

theorem recorder_storeFailed_ne (f : ReserveState) (h : g' ≠ g) :
    (s.storeFailed g f).recorder g' = s.recorder g' := by
  simp [recorder, storeFailed, log, setMgr, mgr, updRecording_ne _ _ h,
    Vector.getElem_set_ne _ _ (Fin.val_ne_of_ne h.symm)]

/-- What `on_start_recording` does to its group. -/
def outcomeOp (settings : Settings) : StartOutcome → RecorderOp
  | .wait _ | .add _ | .leave | .invalid => .idle
  | .fail f _ => .fail f
  | .reschedule => .drop
  | .record now => .enter now settings.isRecUseSplitter

theorem startStep_self {done : StartRecord} {o : StartOutcome}
    (h : ∀ now, o = .record now → s.mgr.recInstances[g].recProgress = .init) :
    (s.recorder g).step (outcomeOp s.mgr.settings o) = some ((s.startStep g done o).recorder g) := by
  cases o with
  | wait | leave | invalid => rfl
  | add r =>
    obtain ⟨hr, hi, -⟩ := s.mgr.onAdd_frame r
    have h' : (s.startStep g done (.add r)).recorder g = s.recorder g :=
      recorder_congr g hr hi rfl rfl rfl
    rw [h']
    rfl
  | fail f exit => exact recorder_storeFailed_self f
  | reschedule => simp [outcomeOp, Recorder.step, recorder, startStep, setMgr, tuner, mgr]
  | record now =>
    have hp := h now rfl
    simp only [Slots.getElem_slot, mgr] at hp
    simp [outcomeOp, Recorder.step, recorder, startStep, setMgr, log, mgr, hp]

theorem startStep_ne {done : StartRecord} (o : StartOutcome) (h : g' ≠ g) :
    (s.startStep g done o).recorder g' = s.recorder g' := by
  cases o with
  | wait | leave | invalid => rfl
  | add r =>
    obtain ⟨hr, hi, -⟩ := s.mgr.onAdd_frame r
    exact recorder_congr g' hr hi rfl rfl rfl
  | fail f exit => exact recorder_storeFailed_ne f h
  | reschedule => simp [recorder, startStep, setMgr, tuner, mgr, updRecording_ne _ _ h]
  | record now =>
    simp [recorder, startStep, setMgr, log, mgr, updRecording_ne _ _ h, updInstance_ne _ _ h,
      Vector.getElem_set_ne _ _ (Fin.val_ne_of_ne h.symm)]

theorem startNext_record {m : RecManager} {stage : StartStage} {l : StartLabel} {now : ℤ}
    (h : startNext m g stage l = some (.record now)) : m.recInstances[g].recProgress = .init := by
  have hgo : ∀ n, goStart m g n = .record now → m.recInstances[g].recProgress = .init := by
    intro n hn
    unfold goStart at hn
    split_ifs at hn with hp
    simpa using hp
  unfold startNext at h
  split at h <;> simp only [Option.some.injEq, reduceCtorEq] at h
  all_goals split_ifs at h
  all_goals exact hgo _ h

/-- The reserve that the check loop is going to put into its slot. -/
def pickOp (m : RecManager) (g : Group) : RecorderOp :=
  match m.reqStartRecordingReserve with
  | some i => .pick (RecManager.picked g m.reserves[i])
  | none => .idle

theorem pickAndStart_self :
    (s.recorder g).step (pickOp s.mgr g) = some ((s.pickAndStart g).recorder g) := by
  unfold pickAndStart pickOp
  rcases hp : s.mgr.reqStartRecordingReserve with _ | i
  · simp only [RecManager.pickReqStartRecordingReserve, hp]
    rfl
  · simp only [s.mgr.pick_eq g hp]
    simp [Recorder.step, recorder, setMgr, tuner, mgr]

theorem pickAndStart_ne (h : g' ≠ g) : (s.pickAndStart g).recorder g' = s.recorder g' := by
  unfold pickAndStart
  rcases hp : s.mgr.reqStartRecordingReserve with _ | i
  · simp only [RecManager.pickReqStartRecordingReserve, hp]
    rfl
  · simp only [s.mgr.pick_eq g hp]
    simp [recorder, setMgr, tuner, mgr, updRecording_ne _ _ h]

theorem pickAndStart_none (h : s.mgr.isExistReqStartRecordingReserve = false) (g : Group) :
    s.pickAndStart g = { s with checkLoop := .paused } := by
  have hp : s.mgr.reqStartRecordingReserve = none := by
    simpa [RecManager.isExistReqStartRecordingReserve] using h
  simp only [pickAndStart, RecManager.pickReqStartRecordingReserve, hp]
  rfl

theorem onTimeout_eq (now : ℤ) (nowEnd df : Group → ℤ) : ∃ c l,
    ((s.mgr.checkReserves now).checkRecordingEnd nowEnd).checkDiskFree df = c ∧
      (l = .paused ∨ l = .opening) ∧ s.onTimeout now nowEnd df =
        { s.setMgr c.1 with stops := s.stops ++ c.2, checkLoop := l } := by
  unfold onTimeout
  generalize ((s.mgr.checkReserves now).checkRecordingEnd nowEnd).checkDiskFree df = c
  dsimp only
  rcases he : c.1.isExistReqStartRecordingReserve with _ | _
  · rw [if_neg Bool.false_ne_true, pickAndStart_none he]
    exact ⟨c, .paused, rfl, .inl rfl, rfl⟩
  · rw [if_pos rfl]
    exact ⟨c, .opening, rfl, .inr rfl, rfl⟩

theorem onTimeout_recorder (now : ℤ) (nowEnd df : Group → ℤ) :
    (s.recorder g).step (.check (nowEnd g) (decide (df g < s.mgr.settings.recDiskSpaceLowLimitMB))) =
      some ((s.onTimeout now nowEnd df).recorder g) := by
  obtain ⟨hr, hi, hs⟩ := s.mgr.checkReserves_frame now
  have hrec : (((s.mgr.checkReserves now).checkRecordingEnd nowEnd).checkDiskFree df).1.recordings[g] =
      if s.mgr.recordings[g].isUsed && s.mgr.recordings[g].isRecording &&
          decide (df g < s.mgr.settings.recDiskSpaceLowLimitMB) then
        s.mgr.recordings[g].mark .endErrorHddFreeSpaceLow else s.mgr.recordings[g] := by
    simp [RecManager.checkDiskFree, RecManager.isDiskLow, RecManager.checkRecordingEnd, hr, hs,
      Reserve.isRecording]
  have hinst :
      (((s.mgr.checkReserves now).checkRecordingEnd nowEnd).checkDiskFree df).1.recInstances[g] =
        if isRecordingEnd (nowEnd g) s.mgr.recordings[g] s.mgr.recInstances[g] then
          s.mgr.recInstances[g].setNextProgress .endSuccess else s.mgr.recInstances[g] := by
    simp [RecManager.checkDiskFree, RecManager.checkRecordingEnd, hr, hi, isRecordingEnd,
      Reserve.isRecording]
  obtain ⟨c, l, hc, -, heq⟩ := s.onTimeout_eq now nowEnd df
  rw [hc] at hrec hinst
  rw [heq]
  simp only [Recorder.step, recorder, setMgr, mgr] at hrec hinst ⊢
  rw [hrec, hinst]
  rfl

theorem onStopRecording_self (hg : (g : ℕ) < s.mgr.settings.tunerResourceMax) :
    (s.recorder g).step .stop = some ((s.onStopRecording g).recorder g) := by
  unfold onStopRecording
  rw [if_neg (by omega)]
  rcases hr : s.mgr.recordings[g].isRecording with _ | _
  · rw [if_neg Bool.false_ne_true]
    simp only [Slots.getElem_slot, mgr] at hr
    simp [Recorder.step, recorder, mgr, hr]
  · rw [if_pos rfl]
    simp only [Slots.getElem_slot, mgr] at hr
    simp [Recorder.step, recorder, setMgr, mgr, hr]

theorem onStopRecording_ne (h : g' ≠ g) : (s.onStopRecording g).recorder g' = s.recorder g' := by
  unfold onStopRecording
  split_ifs
  · rfl
  · simp [recorder, setMgr, mgr, updRecording_ne _ _ h, updInstance_ne _ _ h]
  · rfl

theorem onTsReceived_notices {i i' : Instance} {data : List UInt8} {q : List RecordingNotice}
    (h : i.onTsReceived data = some (i', q)) (g' : Group) :
    noticesOf g' q = if i.groupId = g' then q.map RecordingNotice.recProgress else [] := by
  have hq : ∀ n ∈ q, n.groupId = i.groupId := by
    unfold Instance.onTsReceived at h
    cases hp : i.recProgress <;>
      simp only [hp, Option.some.injEq, Prod.mk.injEq, Option.map_eq_some_iff] at h
    all_goals first
      | (obtain ⟨-, rfl⟩ := h; simp [Instance.notice])
      | (obtain ⟨_, -, -, rfl⟩ := h; simp [Instance.notice])
  unfold noticesOf
  split_ifs with hg
  · rw [← List.filterMap_eq_map]
    exact List.filterMap_congr fun n hn => by rw [hq n hn, if_pos hg]; rfl
  · rw [List.filterMap_eq_nil_iff]
    exact fun n hn => by rw [hq n hn, if_neg hg]

theorem onTsReceived_self (hid : s.mgr.recInstances[g].groupId = g) (data : List UInt8) :
    (s.onTsReceived g data).recorder g = (s.recorder g).onTsReceived data := by
  unfold onTsReceived Recorder.onTsReceived
  dsimp only
  rcases hi : s.mgr.recInstances[g].onTsReceived data with _ | ⟨i', q⟩
  · simp only [Slots.getElem_slot, mgr] at hi
    simp [recorder, mgr, hi]
  · have hq := onTsReceived_notices hi g
    rw [if_pos hid] at hq
    simp only [Slots.getElem_slot, mgr] at hi
    simp [recorder, setMgr, mgr, hi, noticesOf_append, hq]

theorem onTsReceived_ne (hid : s.mgr.recInstances[g].groupId = g) (h : g' ≠ g)
    (data : List UInt8) : (s.onTsReceived g data).recorder g' = s.recorder g' := by
  unfold onTsReceived
  dsimp only
  rcases hi : s.mgr.recInstances[g].onTsReceived data with _ | ⟨i', q⟩
  · simp [recorder, mgr, Vector.getElem_set_ne _ _ (Fin.val_ne_of_ne h.symm)]
  · have hq := onTsReceived_notices hi g'
    rw [hid, if_neg h.symm] at hq
    simp [recorder, setMgr, mgr, noticesOf_append, hq, updInstance_ne _ _ h,
      Vector.getElem_set_ne _ _ (Fin.val_ne_of_ne h.symm)]

theorem onPatNotDetected_self (hid : s.mgr.recInstances[g].groupId = g) :
    (s.recorder g).step .patNotDetected = some ((s.onPatNotDetected g).recorder g) := by
  unfold onPatNotDetected
  rcases hr : s.mgr.recordings[g].isRecording with _ | _
  · rw [if_neg Bool.false_ne_true]
    simp only [Slots.getElem_slot, mgr] at hr
    simp [Recorder.step, recorder, mgr, hr]
  · rw [if_pos rfl, onTsReceived_self]
    · simp only [Slots.getElem_slot, mgr] at hr
      simp [Recorder.step, recorder, setMgr, mgr, hr]
    · simpa [setMgr, mgr, Instance.setNextProgress] using hid

theorem onPatNotDetected_ne (hid : s.mgr.recInstances[g].groupId = g) (h : g' ≠ g) :
    (s.onPatNotDetected g).recorder g' = s.recorder g' := by
  unfold onPatNotDetected
  split_ifs
  · rw [onTsReceived_ne (by simpa [setMgr, mgr, Instance.setNextProgress] using hid) h]
    simp [recorder, setMgr, mgr, updRecording_ne _ _ h, updInstance_ne _ _ h]
  · rfl

theorem onRecordingNotice_self (n : RecordingNotice) (now : ℤ) :
    (s.onRecordingNotice n now).recorder n.groupId =
      (s.recorder n.groupId).onNotice n.recProgress now := by
  unfold onRecordingNotice Recorder.onNotice
  cases n.recProgress with
  | endSuccess => simp [recorder, setMgr, mgr]
  | postProcess => simp [recorder, setMgr, log, tuner, mgr]
  | init | preProcess | nowRecording | endError => rfl

theorem onRecordingNotice_ne (n : RecordingNotice) (now : ℤ) (h : g' ≠ n.groupId) :
    (s.onRecordingNotice n now).recorder g' = s.recorder g' := by
  unfold onRecordingNotice
  cases n.recProgress with
  | endSuccess => simp [recorder, setMgr, mgr, updRecording_ne _ _ h]
  | postProcess =>
    simp [recorder, setMgr, log, tuner, mgr, updRecording_ne _ _ h,
      Vector.getElem_set_ne _ _ (Fin.val_ne_of_ne h.symm)]
  | init | preProcess | nowRecording | endError => rfl

/-- The steps of the table that stand for a sequence leave the groups alone. -/
theorem table_frame {a b : Table} {op : TableOp} (hI : ReservesInv a.mgr.reserves)
    (hop : op.isSequence = true) (h : a.next op = some b) :
    b.mgr.recordings = a.mgr.recordings ∧ b.mgr.recInstances = a.mgr.recInstances ∧
      b.mgr.settings = a.mgr.settings := by
  have hat := fun i c p => (a.mgr.removeReserveAt_spec i c p (hI.blank i i.2)).2
  cases op with
  | add r =>
    obtain rfl := Option.some.inj h
    exact a.mgr.onAdd_frame r
  | removeReserve k c p =>
    obtain rfl := Option.some.inj h
    dsimp only [Table.onRemoveReserve]
    split
    · exact hat _ _ _
    · exact ⟨rfl, rfl, rfl⟩
  | removeReserveByIndex n c p =>
    obtain ⟨⟨b, m⟩, hm, rfl⟩ := Option.map_eq_some_iff.mp h
    unfold RecManager.removeReserve at hm
    split_ifs at hm
    · cases hm
      exact ⟨rfl, rfl, rfl⟩
    · cases hm
      exact hat _ _ _
  | timeout | scheduleState =>
    dsimp only [Table.next] at h
    split at h
    · obtain rfl := Option.some.inj h
      exact ⟨rfl, rfl, rfl⟩
    · cases h
  | event e =>
    dsimp only [Table.next] at h
    split at h
    · obtain rfl := Option.some.inj h
      unfold Table.onEvent
      cases e with
      | none => exact ⟨rfl, rfl, rfl⟩
      | some e =>
        dsimp only
        split_ifs <;> exact ⟨rfl, rfl, rfl⟩
    · cases h
  | checkReserves | refreshReserves | pick | other => cases hop

/-! ## A step of the module -/

/-- What a step of the module is for the group `g`. -/
def opFor (s : Sys) (l : Label) (g : Group) : RecorderOp :=
  match l with
  | .timeout _ nowEnd df =>
    .check (nowEnd g) (decide (df g < s.mgr.settings.recDiskSpaceLowLimitMB))
  | .opened (some g') =>
    if g' = g ∧ s.mgr.recordings[g].isUsed = false then pickOp s.mgr g else .idle
  | .start l =>
    match s.checkLoop with
    | .starting g' stage _ =>
      if g' = g then ((startNext s.mgr g stage l).map (outcomeOp s.mgr.settings)).getD .idle
      else .idle
    | _ => .idle
  | .stop g' => if g' = g ∧ (g : ℕ) < s.mgr.settings.tunerResourceMax then .stop else .idle
  | .stopQueued =>
    match s.stops with
    | g' :: _ => if g' = g ∧ (g : ℕ) < s.mgr.settings.tunerResourceMax then .stop else .idle
    | [] => .idle
  | .notice now =>
    match s.notices with
    | n :: _ => if n.groupId = g then .notice now else .idle
    | [] => .idle
  | .ts g' data => if g' = g then .ts data else .idle
  | .patNotDetected g' => if g' = g then .patNotDetected else .idle
  | .presentEvent (some e) =>
    match s.presentLoop with
    | .waiting g' =>
      if g' = g ∧ s.mgr.recordings[g].isRecording = true then .update (·.updatePresent e) else .idle
    | _ => .idle
  | _ => .idle

theorem step_idle (v : Recorder) : v.step .idle = some v := rfl

theorem onStopRecording_recorder :
    (s.recorder g).step
        (if g' = g ∧ (g : ℕ) < s.mgr.settings.tunerResourceMax then .stop else .idle) =
      some ((s.onStopRecording g').recorder g) := by
  by_cases hg : g' = g
  · subst hg
    by_cases hlt : (g' : ℕ) < s.mgr.settings.tunerResourceMax
    · rw [if_pos ⟨rfl, hlt⟩]
      exact onStopRecording_self hlt
    · rw [if_neg (fun hc => hlt hc.2), onStopRecording, if_pos (not_lt.mp hlt)]
      rfl
  · rw [if_neg (fun hc => hg hc.1), onStopRecording_ne (Ne.symm hg)]
    rfl

/-- **The module moves each group** by a step of the group. -/
theorem step_recorder (hI : ReservesInv s.mgr.reserves)
    (hid : ∀ g : Group, s.mgr.recInstances[g].groupId = g) (h : s.step l = some t) (g : Group) :
    (s.recorder g).step (opFor s l g) = some (t.recorder g) := by
  cases l with
  | timeout now nowEnd df =>
    dsimp only [step] at h
    split at h
    · obtain rfl := Option.some.inj h
      exact onTimeout_recorder now nowEnd df
    · cases h
  | opened g' =>
    cases g' with
    | none =>
      dsimp only [step] at h
      split at h
      · obtain rfl := Option.some.inj h
        rfl
      · cases h
    | some g' =>
      dsimp only [step] at h
      split at h
      · split_ifs at h
        obtain rfl := Option.some.inj h
        unfold onOpened
        dsimp only [opFor]
        by_cases hg : g' = g
        · subst hg
          rcases hu : s.mgr.recordings[g'].isUsed with _ | _
          · rw [if_pos ⟨rfl, rfl⟩, if_neg Bool.false_ne_true]
            exact pickAndStart_self (s := s.tuner g' [.opened])
          · rw [if_neg (by simp), if_pos rfl]
            rfl
        · rw [if_neg (fun hc => hg hc.1), step_idle]
          split_ifs
          · rfl
          · rw [pickAndStart_ne (Ne.symm hg)]
            rfl
      · cases h
  | start l =>
    dsimp only [step] at h
    split at h
    · rename_i g' stage done hc
      obtain ⟨o, ho, rfl⟩ := Option.map_eq_some_iff.mp h
      simp only [opFor, hc]
      by_cases hg : g' = g
      · subst hg
        rw [if_pos rfl, ho]
        exact startStep_self fun now hnow => startNext_record (hnow ▸ ho)
      · rw [if_neg hg, startStep_ne o (Ne.symm hg)]
        rfl
    · cases h
  | started =>
    dsimp only [step] at h
    split at h
    · obtain rfl := Option.some.inj h
      rfl
    · cases h
  | stop g' =>
    obtain rfl := Option.some.inj h
    exact onStopRecording_recorder
  | stopQueued =>
    dsimp only [step] at h
    split at h
    · rename_i g' q hq
      obtain rfl := Option.some.inj h
      simp only [opFor, hq]
      exact onStopRecording_recorder (s := { s with stops := q })
    · cases h
  | notice now =>
    dsimp only [step] at h
    split at h
    · rename_i n q hq
      obtain rfl := Option.some.inj h
      simp only [opFor, hq]
      by_cases hg : n.groupId = g
      · subst hg
        rw [if_pos rfl, onRecordingNotice_self]
        simp [Recorder.step, recorder, noticesOf, hq]
      · rw [if_neg hg, onRecordingNotice_ne n now (Ne.symm hg), step_idle]
        simp [recorder, noticesOf, hq, hg]
    · cases h
  | ts g' data =>
    obtain rfl := Option.some.inj h
    dsimp only [opFor]
    by_cases hg : g' = g
    · subst hg
      rw [if_pos rfl, onTsReceived_self (hid g')]
      rfl
    · rw [if_neg hg, onTsReceived_ne (hid g') (Ne.symm hg)]
      rfl
  | patNotDetected g' =>
    obtain rfl := Option.some.inj h
    dsimp only [opFor]
    by_cases hg : g' = g
    · subst hg
      rw [if_pos rfl]
      exact onPatNotDetected_self (hid g')
    · rw [if_neg hg, onPatNotDetected_ne (hid g') (Ne.symm hg)]
      rfl
  | presentTimeout =>
    dsimp only [step] at h
    split at h
    · obtain rfl := Option.some.inj h
      rfl
    · cases h
  | presentEvent e =>
    dsimp only [step] at h
    split at h
    · rename_i g' hp
      obtain rfl := Option.some.inj h
      cases e with
      | none => rfl
      | some e =>
        simp only [opFor, hp, onPresentEvent]
        by_cases hg : g' = g
        · subst hg
          rcases hr : s.mgr.recordings[g'].isRecording with _ | _
          · rw [if_neg (by simp), if_neg Bool.false_ne_true]
            rfl
          · rw [if_pos ⟨rfl, rfl⟩, if_pos rfl]
            simp only [Slots.getElem_slot, mgr] at hr
            simp [Recorder.step, recorder, setMgr, mgr, hr]
        · rw [if_neg (fun hc => hg hc.1), step_idle]
          split_ifs
          · simp [recorder, setMgr, mgr, updRecording_ne _ _ (Ne.symm hg)]
          · rfl
    · cases h
  | table op =>
    dsimp only [step] at h
    split_ifs at h with hop
    obtain ⟨b, hb, rfl⟩ := Option.map_eq_some_iff.mp h
    obtain ⟨hr, hi, -⟩ := table_frame hI hop hb
    exact congrArg some (recorder_congr (s := s) (t := { s with table := b }) g hr hi rfl rfl rfl).symm

/-! ## The table of the module -/

/-- The step leaves `reserves_` and the loop that follows it up alone. -/
def KeepsTable (s t : Sys) : Prop :=
  t.mgr.reserves = s.mgr.reserves ∧ t.mgr.settings = s.mgr.settings ∧
    t.table.followUp = s.table.followUp ∧ t.table.writes = s.table.writes

theorem setResult_keeps (m : RecManager) (r : Reserve) (g : Group) (f : Reserve → Reserve) :
    ((m.setResult r).updRecording g f).reserves = m.reserves ∧
      ((m.setResult r).updRecording g f).settings = m.settings :=
  ⟨m.setResult_reserves r, m.setResult_settings r⟩

theorem startStep_keeps {done : StartRecord} {o : StartOutcome} (h : ∀ r, o ≠ .add r) :
    KeepsTable s (s.startStep g done o) := by
  cases o with
  | wait | leave | invalid | reschedule | record => exact ⟨rfl, rfl, rfl, rfl⟩
  | add r => exact absurd rfl (h r)
  | fail f exit =>
    obtain ⟨hr, hs⟩ := setResult_keeps (s.mgr.updRecording g (·.mark f))
      (s.mgr.updRecording g (·.mark f)).recordings[g] g fun _ => Reserve.clear
    exact ⟨hr, hs, rfl, rfl⟩

theorem onStopRecording_keeps : KeepsTable s (s.onStopRecording g) := by
  unfold onStopRecording
  split_ifs <;> exact ⟨rfl, rfl, rfl, rfl⟩

theorem onTsReceived_keeps (data : List UInt8) : KeepsTable s (s.onTsReceived g data) := by
  unfold onTsReceived
  dsimp only
  split <;> exact ⟨rfl, rfl, rfl, rfl⟩

theorem onPatNotDetected_keeps : KeepsTable s (s.onPatNotDetected g) := by
  unfold onPatNotDetected
  split_ifs
  · obtain ⟨h₁, h₂, h₃, h₄⟩ := onTsReceived_keeps (g := g) (s := s.setMgr ((s.mgr.updInstance g
      (·.setNextProgress .postProcess)).updRecording g (·.mark .endErrorInternalErr))) []
    exact ⟨h₁, h₂, h₃, h₄⟩
  · exact ⟨rfl, rfl, rfl, rfl⟩

theorem onRecordingNotice_keeps (n : RecordingNotice) (now : ℤ) :
    KeepsTable s (s.onRecordingNotice n now) := by
  unfold onRecordingNotice
  split
  · exact ⟨rfl, rfl, rfl, rfl⟩
  · obtain ⟨hr, hs⟩ := setResult_keeps (s.mgr.updRecording n.groupId (·.finish now))
      (s.mgr.updRecording n.groupId (·.finish now)).recordings[n.groupId] n.groupId
        fun _ => Reserve.clear
    exact ⟨hr, hs, rfl, rfl⟩
  all_goals exact ⟨rfl, rfl, rfl, rfl⟩

theorem onPresentEvent_keeps (e : Option PresentEvent) : KeepsTable s (s.onPresentEvent g e) := by
  unfold onPresentEvent
  cases e with
  | none => exact ⟨rfl, rfl, rfl, rfl⟩
  | some e =>
    dsimp only
    split_ifs <;> exact ⟨rfl, rfl, rfl, rfl⟩

/-- Whatever else a step does is one step of the table. -/
theorem KeepsTable.exec (h : KeepsTable s t) :
    ∃ ops, Machine.exec Table.next s.table ops = some t.table := by
  obtain ⟨hr, hs, hf, hw⟩ := h
  refine ⟨[.other t.mgr.results t.mgr.recordings t.mgr.recInstances], ?_⟩
  obtain ⟨⟨⟨settings, reserves, results, recordings, recInstances⟩, followUp, writes⟩, _⟩ := t
  simp only [mgr] at hr hs hf hw
  subst hr hs hf hw
  rfl

theorem pickAndStart_table : (s.pickAndStart g).table =
    { s.table with mgr := (s.mgr.pickReqStartRecordingReserve g).2 } := by
  unfold pickAndStart
  rcases h : s.mgr.pickReqStartRecordingReserve g with ⟨_ | _, m⟩ <;> rfl

theorem onTimeout_table (now : ℤ) (nowEnd df : Group → ℤ) :
    ∃ ops, Machine.exec Table.next s.table ops = some (s.onTimeout now nowEnd df).table := by
  have htable : (s.onTimeout now nowEnd df).table = { s.table with
      mgr := (((s.mgr.checkReserves now).checkRecordingEnd nowEnd).checkDiskFree df).1 } := by
    obtain ⟨c, l, hc, -, heq⟩ := s.onTimeout_eq now nowEnd df
    rw [heq, hc]
    rfl
  rw [htable]
  refine ⟨[.checkReserves now, .other
    (((s.mgr.checkReserves now).checkRecordingEnd nowEnd).checkDiskFree df).1.results
    (((s.mgr.checkReserves now).checkRecordingEnd nowEnd).checkDiskFree df).1.recordings
    (((s.mgr.checkReserves now).checkRecordingEnd nowEnd).checkDiskFree df).1.recInstances], ?_⟩
  simp only [Machine.exec, Table.next]
  generalize s.table.mgr.checkReserves now = m
  rfl

/-- **The module moves its table** by steps of the table. -/
theorem step_table (h : s.step l = some t) :
    ∃ ops, Machine.exec Table.next s.table ops = some t.table := by
  have hnone : ∃ ops, Machine.exec Table.next s.table ops = some s.table := ⟨[], rfl⟩
  cases l with
  | timeout now nowEnd df =>
    dsimp only [step] at h
    split at h
    · obtain rfl := Option.some.inj h
      exact onTimeout_table now nowEnd df
    · cases h
  | opened g' =>
    cases g' with
    | none =>
      dsimp only [step] at h
      split at h
      · obtain rfl := Option.some.inj h
        exact hnone
      · cases h
    | some g' =>
      dsimp only [step] at h
      split at h
      · split_ifs at h
        obtain rfl := Option.some.inj h
        unfold onOpened
        dsimp only
        split_ifs
        · exact hnone
        · rw [pickAndStart_table]
          exact ⟨[.pick g'], rfl⟩
      · cases h
  | start l =>
    dsimp only [step] at h
    split at h
    · obtain ⟨o, -, rfl⟩ := Option.map_eq_some_iff.mp h
      by_cases ho : ∃ r, o = .add r
      · obtain ⟨r, rfl⟩ := ho
        exact ⟨[.add r], rfl⟩
      · exact (startStep_keeps fun r hr => ho ⟨r, hr⟩).exec
    · cases h
  | started | presentTimeout =>
    dsimp only [step] at h
    split at h
    · obtain rfl := Option.some.inj h
      exact hnone
    · cases h
  | stop g' =>
    obtain rfl := Option.some.inj h
    exact onStopRecording_keeps.exec
  | stopQueued =>
    dsimp only [step] at h
    split at h
    · rename_i g' q hq
      obtain rfl := Option.some.inj h
      exact (onStopRecording_keeps (s := { s with stops := q })).exec
    · cases h
  | notice now =>
    dsimp only [step] at h
    split at h
    · rename_i n q hq
      obtain rfl := Option.some.inj h
      exact (onRecordingNotice_keeps (s := { s with notices := q }) n now).exec
    · cases h
  | ts g' data =>
    obtain rfl := Option.some.inj h
    exact (onTsReceived_keeps data).exec
  | patNotDetected g' =>
    obtain rfl := Option.some.inj h
    exact onPatNotDetected_keeps.exec
  | presentEvent e =>
    dsimp only [step] at h
    split at h
    · obtain rfl := Option.some.inj h
      exact (onPresentEvent_keeps e).exec
    · cases h
  | table op =>
    dsimp only [step] at h
    split_ifs at h
    obtain ⟨b, hb, rfl⟩ := Option.map_eq_some_iff.mp h
    exact ⟨[op], by rw [Machine.exec, hb]; rfl⟩

theorem next_step (h : next s l = some t) : s.isCrashed = false ∧ s.step l = some t := by
  unfold next at h
  split_ifs at h with hc
  exact ⟨by simpa using hc, h⟩

/-- **A run of the module is a run of its table.** -/
theorem reach_table {ok : Sys → Label → Prop} (h : Machine.Reach next ok (initial settings) s) :
    Machine.Reach Table.next Machine.anyStep (Table.initial settings) s.table := by
  refine h.inv (fun s => Machine.Reach Table.next Machine.anyStep (Table.initial settings) s.table)
    .refl fun s l t hs _ hn => ?_
  obtain ⟨ops, hops⟩ := step_table (next_step hn).2
  exact hs.trans (Machine.reach_of_exec hops)

theorem reach_reservesInv {ok : Sys → Label → Prop}
    (h : Machine.Reach next ok (initial settings) s) : ReservesInv s.mgr.reserves :=
  Table.reach_reservesInv (reach_table h)

end Sys

end AutoRec
