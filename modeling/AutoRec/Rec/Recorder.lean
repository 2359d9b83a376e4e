import AutoRec.Lib.Machine
import AutoRec.Rec.Manager

/-!
# One tuner's recording

An abstract machine for what the manager and the tune thread do to one group: its slot of
`recordings_`, its `rec::instance` and the notices on the way between them. The whole module, as
`Rec/System` has it, moves each group by such steps.

* `Recorder`, `RecorderOp`, `Recorder.next`: the machine.
* `RecorderInv`: a group is idle, recording, or closing (the recorder object has been given up and
  the notice of it is on its way); `next_inv`.
* `HasB25`: the recorder object is there whenever `on_ts_received` is going to use it.
* `Logged`: each recording that was entered is finalised once and stores one result.
* `FlagsOk`: no recording is both a success and ended early.
-/

namespace AutoRec

/-- What happens to a recording slot. -/
inductive RecEvent
  /-- `set_result (&recordings_[g])` -/
  | stored (r : Reserve)
  /-- `NOW_RECORDING` is set. -/
  | entered
  /-- The `POST_PROCESS` notice is handled. -/
  | finalised
deriving DecidableEq

/-- A call of `on_ts_received`: the progress, and whether `b25_` is there. -/
structure TsRun where
  recProgress : Progress
  hasB25 : Bool
deriving DecidableEq

/-- The call goes through a null `b25_`. -/
def TsRun.isCrash (t : TsRun) : Bool :=
  (t.recProgress == .nowRecording || t.recProgress == .postProcess) && !t.hasB25

/-- One group, with a record of what has happened to it. -/
structure Recorder where
  recording : Reserve
  inst : Instance
  notices : List Progress
  log : List RecEvent
  tsRuns : List TsRun

/-- The steps of a group. -/
inductive RecorderOp
  /-- nothing -/
  | idle
  /-- The slot takes over a reserve. -/
  | pick (r : Reserve)
  /-- The recording starts. -/
  | enter (now : ℤ) (useSplitter : Bool)
  /-- The start fails with the flag `f`. -/
  | fail (f : ReserveState)
  /-- The reserve has been put in again. -/
  | drop
  /-- `check_recording_end` and `check_disk_free` -/
  | check (now : ℤ) (isLow : Bool)
  /-- `on_stop_recording` -/
  | stop
  /-- The PAT is not detected any more. -/
  | patNotDetected
  /-- `on_ts_received` -/
  | ts (data : List UInt8)
  /-- `on_recording_notice` -/
  | notice (now : ℤ)
  /-- `on_check_recordings_event_loop` writes to the slot. -/
  | update (f : Reserve → Reserve)

/-- `NOW_RECORDING` is set. -/
def Reserve.isRecording (r : Reserve) : Bool := Flag.has r.state ReserveState.nowRecording

/-- `recordings_[g]` once the recording has started. -/
def Reserve.enter (r : Reserve) (now : ℤ) : Reserve :=
  { r.mark .nowRecording with recordingStartTime := Etime.setCurrentTime now }

/-- `recordings_[g]` as the `POST_PROCESS` notice stores it. -/
def Reserve.finish (r : Reserve) (now : ℤ) : Reserve :=
  { r.unmark .nowRecording with recordingEndTime := Etime.setCurrentTime now }

/-- The recorder is told to record the service of `r`. -/
def Instance.start (i : Instance) (r : Reserve) (useSplitter : Bool) : Instance :=
  { i with serviceId := r.serviceId, useSplitter := useSplitter, recProgress := .preProcess }

/-- The condition of `check_recording_end`. -/
def isRecordingEnd (now : ℤ) (r : Reserve) (i : Instance) : Bool :=
  r.isUsed && r.isRecording && r.endTime.le (Etime.setCurrentTime now) &&
    i.recProgress == .nowRecording

namespace Recorder

variable (v : Recorder)

/-- The program has crashed in this group. -/
def isCrashed : Bool := v.tsRuns.any TsRun.isCrash

/-- `on_ts_received`; a crash leaves a record and nothing else. -/
def onTsReceived (data : List UInt8) : Recorder :=
  let v' := { v with tsRuns := v.tsRuns ++ [⟨v.inst.recProgress, v.inst.b25.isSome⟩] }
  match v.inst.onTsReceived data with
  | some (i, q) => { v' with inst := i, notices := v.notices ++ q.map RecordingNotice.recProgress }
  | none => v'

/-- `on_recording_notice`, for the notice `p`. -/
def onNotice (p : Progress) (now : ℤ) : Recorder :=
  match p with
  | .endSuccess => { v with recording := v.recording.mark .endSuccess }
  | .postProcess =>
    { v with
      recording := Reserve.clear
      log := v.log ++ [RecEvent.finalised, .stored (v.recording.finish now)] }
  | .init | .preProcess | .nowRecording | .endError => v

/-- What a step does, while the program runs. -/
def step : RecorderOp → Option Recorder
  | .idle => some v
  | .pick r => some { v with recording := r }
  | .enter now useSplitter =>
    if v.inst.recProgress = .init then
      some { v with
        inst := v.inst.start v.recording useSplitter
        recording := v.recording.enter now
        log := v.log ++ [RecEvent.entered] }
    else none
  | .fail f =>
    some { v with
      recording := Reserve.clear, log := v.log ++ [RecEvent.stored (v.recording.mark f)] }
  | .drop => some { v with recording := Reserve.clear }
  | .check now isLow =>
    some { v with
      inst := if isRecordingEnd now v.recording v.inst then v.inst.setNextProgress .endSuccess
        else v.inst
      recording := if v.recording.isUsed && v.recording.isRecording && isLow then
        v.recording.mark .endErrorHddFreeSpaceLow else v.recording }
  | .stop =>
    if v.recording.isRecording then
      some { v with
        inst := v.inst.setNextProgress .endError
        recording := v.recording.mark .forceStopped }
    else some v
  | .patNotDetected =>
    if v.recording.isRecording then
      some <| onTsReceived { v with
        inst := v.inst.setNextProgress .postProcess
        recording := v.recording.mark .endErrorInternalErr } []
    else some v
  | .ts data => some (v.onTsReceived data)
  | .notice now =>
    match v.notices with
    | p :: q => some (onNotice { v with notices := q } p now)
    | [] => none
  | .update f => if v.recording.isRecording then some { v with recording := f v.recording } else none

/-- The group after a step, if the step can be taken; after a crash there are no steps. -/
def next (op : RecorderOp) : Option Recorder := if v.isCrashed then none else v.step op

/-! ## What the manager sees to -/

/-- A slot is filled when it is free, with a reserve that has not been recorded; a start ends in a
slot that is used and not recording yet; an update keeps the state. -/
def OpOk : RecorderOp → Prop
  | .pick r => v.recording.isUsed = false ∧ r.isUsed = true ∧
      Flag.has r.state ReserveState.terminal = false
  | .enter _ _ | .fail _ | .drop => v.recording.isUsed = true ∧ v.recording.isRecording = false
  | .update f => ∀ r, (f r).isUsed = r.isUsed ∧ (f r).state = r.state
  | .idle | .check _ _ | .stop | .patNotDetected | .ts _ | .notice _ => True

/-! ## The three phases -/

/-- Nothing is being recorded. A stop that came too late may have moved the progress on. -/
structure Idle : Prop where
  clean : Flag.has v.recording.state ReserveState.terminal = false
  no_success : .endSuccess ∉ v.notices
  no_post : .postProcess ∉ v.notices
  progress : v.inst.recProgress = .init ∨ v.inst.recProgress = .endError ∨
    v.inst.recProgress = .postProcess
  no_b25 : v.inst.b25 = none

/-- A recording is going on. -/
structure Recording : Prop where
  isUsed : v.recording.isUsed = true
  isRecording : v.recording.isRecording = true
  no_post : .postProcess ∉ v.notices
  progress : v.inst.recProgress ≠ .init
  has_b25 : v.inst.recProgress = .nowRecording ∨ v.inst.recProgress = .endSuccess →
    v.inst.b25.isSome = true

/-- The recorder object has been given up, and the one notice of it is on its way. -/
structure Closing : Prop where
  isUsed : v.recording.isUsed = true
  isRecording : v.recording.isRecording = true
  post : ∃ l₁ l₂, v.notices = l₁ ++ Progress.postProcess :: l₂ ∧ .postProcess ∉ l₁ ∧
    .endSuccess ∉ l₂ ∧ .postProcess ∉ l₂
  progress : v.inst.recProgress = .init ∨ v.inst.recProgress = .endError ∨
    v.inst.recProgress = .postProcess
  no_b25 : v.inst.b25 = none

variable {v} {w : Recorder} {op : RecorderOp}

theorem Idle.not_recording (h : Idle v) : v.recording.isRecording = false :=
  ReserveState.has_eq_false_of_terminal h.clean rfl

/-! ### `on_ts_received` in each phase -/

theorem onTsReceived_log (data : List UInt8) : (v.onTsReceived data).log = v.log := by
  unfold onTsReceived
  split <;> rfl

theorem onTsReceived_recording (data : List UInt8) :
    (v.onTsReceived data).recording = v.recording := by
  unfold onTsReceived
  split <;> rfl

section

variable (data : List UInt8)

/-- The call is recorded. -/
def ran (v : Recorder) : Recorder :=
  { v with tsRuns := v.tsRuns ++ [⟨v.inst.recProgress, v.inst.b25.isSome⟩] }

theorem onTsReceived_init (hp : v.inst.recProgress = .init) : v.onTsReceived data = v.ran := by
  simp [onTsReceived, Instance.onTsReceived, hp, ran]

theorem onTsReceived_preProcess (hp : v.inst.recProgress = .preProcess) :
    v.onTsReceived data = { v.ran with
      inst := { v.inst with
        b25 := some ⟨v.inst.serviceId, v.inst.useSplitter, []⟩, recProgress := .nowRecording }
      notices := v.notices ++ [Progress.preProcess] } := by
  simp [onTsReceived, Instance.onTsReceived, Instance.notice, hp, ran]

theorem onTsReceived_nowRecording (hp : v.inst.recProgress = .nowRecording) {b : AribB25}
    (hb : v.inst.b25 = some b) : v.onTsReceived data =
      { v.ran with inst := { v.inst with b25 := some (b.put data) } } := by
  simp [onTsReceived, Instance.onTsReceived, hp, hb, ran]

theorem onTsReceived_end
    (hp : v.inst.recProgress = .endSuccess ∨ v.inst.recProgress = .endError) :
    v.onTsReceived data = { v.ran with
      inst := { v.inst with recProgress := .postProcess }
      notices := v.notices ++ [v.inst.recProgress] } := by
  rcases hp with hp | hp <;> simp [onTsReceived, Instance.onTsReceived, Instance.notice, hp, ran]

theorem onTsReceived_postProcess (hp : v.inst.recProgress = .postProcess) {b : AribB25}
    (hb : v.inst.b25 = some b) : v.onTsReceived data =
      { v.ran with
        inst := { v.inst with b25 := none, recProgress := .init }
        notices := v.notices ++ [Progress.postProcess] } := by
  simp [onTsReceived, Instance.onTsReceived, Instance.notice, hp, hb, ran]

/-- Without a recorder object the call that needs it crashes. -/
theorem onTsReceived_crash
    (hp : v.inst.recProgress = .nowRecording ∨ v.inst.recProgress = .postProcess)
    (hb : v.inst.b25 = none) : (v.onTsReceived data).isCrashed = true := by
  rcases hp with hp | hp <;>
    simp [onTsReceived, Instance.onTsReceived, hp, hb, isCrashed, TsRun.isCrash]

theorem Idle.onTsReceived (h : Idle v) :
    (v.onTsReceived data).isCrashed = true ∨ Idle (v.onTsReceived data) := by
  obtain ⟨hc, hs, hpost, hp | hp | hp, hb⟩ := h
  · rw [onTsReceived_init data hp]
    exact .inr ⟨hc, hs, hpost, .inl hp, hb⟩
  · rw [onTsReceived_end data (.inr hp)]
    exact .inr ⟨hc, by simp [hs, hp], by simp [hpost, hp], .inr (.inr rfl), hb⟩
  · exact .inl (onTsReceived_crash data (.inr hp) hb)

theorem Closing.onTsReceived (h : Closing v) :
    (v.onTsReceived data).isCrashed = true ∨ Closing (v.onTsReceived data) := by
  obtain ⟨hu, hr, ⟨l₁, l₂, hn, h₁, hs, h₂⟩, hp | hp | hp, hb⟩ := h
  · rw [onTsReceived_init data hp]
    exact .inr ⟨hu, hr, ⟨l₁, l₂, hn, h₁, hs, h₂⟩, .inl hp, hb⟩
  · rw [onTsReceived_end data (.inr hp)]
    exact .inr ⟨hu, hr, ⟨l₁, l₂ ++ [Progress.endError], by simp [hn, hp], h₁, by simp [hs],
      by simp [h₂]⟩, .inr (.inr rfl), hb⟩
  · exact .inl (onTsReceived_crash data (.inr hp) hb)

theorem Recording.onTsReceived (h : Recording v) :
    (v.onTsReceived data).isCrashed = true ∨ Recording (v.onTsReceived data) ∨
      Closing (v.onTsReceived data) := by
  obtain ⟨hu, hr, hpost, hp, hb⟩ := h
  cases hp' : v.inst.recProgress with
  | init => exact absurd hp' hp
  | preProcess =>
    rw [onTsReceived_preProcess data hp']
    exact .inr (.inl ⟨hu, hr, by simp [hpost], by simp, fun _ => rfl⟩)
  | nowRecording =>
    obtain ⟨b, hb⟩ := Option.isSome_iff_exists.mp (hb (.inl hp'))
    rw [onTsReceived_nowRecording data hp' hb]
    exact .inr (.inl ⟨hu, hr, hpost, hp, fun _ => rfl⟩)
  | endSuccess =>
    rw [onTsReceived_end data (.inl hp')]
    exact .inr (.inl ⟨hu, hr, by simp [hpost, hp'], by simp, by simp⟩)
  | endError =>
    rw [onTsReceived_end data (.inr hp')]
    exact .inr (.inl ⟨hu, hr, by simp [hpost, hp'], by simp, by simp⟩)
  | postProcess =>
    -- the recorder object may be missing when the stop came before the first packet
    rcases hb' : v.inst.b25 with _ | b
    · exact .inl (onTsReceived_crash data (.inr hp') hb')
    · rw [onTsReceived_postProcess data hp' hb']
      exact .inr (.inr ⟨hu, hr, ⟨v.notices, [], rfl, hpost, by simp, by simp⟩, .inl rfl, rfl⟩)

end

/-! ### One step in each phase -/

theorem mark_isRecording {r : Reserve} {f : ReserveState} (h : r.isRecording = true) :
    (r.mark f).isRecording = true := by
  simp only [Reserve.isRecording] at h ⊢
  simp [h]

/-- **Idle**: the slot may be filled, a start may fail or succeed. -/
theorem Idle.step (h : Idle v) (hok : OpOk v op) (hn : v.step op = some w) :
    (w.isCrashed = true ∧ w.log = v.log) ∨
      (Idle w ∧ (w.log = v.log ∨ ∃ r, w.log = v.log ++ [RecEvent.stored r])) ∨
      ((∃ now b, op = .enter now b) ∧ Recording w ∧ w.log = v.log ++ [RecEvent.entered]) := by
  have hrec := h.not_recording
  have hclear : Flag.has Reserve.clear.state ReserveState.terminal = false := by simp
  cases op with
  | idle =>
    cases hn
    exact .inr (.inl ⟨h, .inl rfl⟩)
  | pick r =>
    cases hn
    exact .inr (.inl ⟨⟨hok.2.2, h.no_success, h.no_post, h.progress, h.no_b25⟩, .inl rfl⟩)
  | enter now useSplitter =>
    dsimp only [Recorder.step] at hn
    split_ifs at hn
    cases hn
    refine .inr (.inr ⟨⟨now, useSplitter, rfl⟩, ⟨hok.1, ?_, h.no_post, by simp [Instance.start],
      by simp [Instance.start]⟩, rfl⟩)
    simp only [Reserve.enter, Reserve.isRecording, Reserve.mark_state, Flag.has_or]
    exact Bool.or_eq_true_iff.mpr (.inr rfl)
  | fail f =>
    cases hn
    exact .inr (.inl ⟨⟨hclear, h.no_success, h.no_post, h.progress, h.no_b25⟩, .inr ⟨_, rfl⟩⟩)
  | drop =>
    cases hn
    exact .inr (.inl ⟨⟨hclear, h.no_success, h.no_post, h.progress, h.no_b25⟩, .inl rfl⟩)
  | check now isLow =>
    simp only [Recorder.step, hrec, isRecordingEnd, Bool.and_false, Bool.false_and, Bool.false_eq_true, if_false,
      Option.some.injEq] at hn
    subst hn
    exact .inr (.inl ⟨h, .inl rfl⟩)
  | stop =>
    simp only [Recorder.step, hrec, Bool.false_eq_true, if_false, Option.some.injEq] at hn
    subst hn
    exact .inr (.inl ⟨h, .inl rfl⟩)
  | patNotDetected =>
    simp only [Recorder.step, hrec, Bool.false_eq_true, if_false, Option.some.injEq] at hn
    subst hn
    exact .inr (.inl ⟨h, .inl rfl⟩)
  | ts data =>
    cases hn
    rcases h.onTsReceived data with hc | hi
    · exact .inl ⟨hc, onTsReceived_log data⟩
    · exact .inr (.inl ⟨hi, .inl (onTsReceived_log data)⟩)
  | notice now =>
    dsimp only [Recorder.step] at hn
    split at hn
    · rename_i p q hq
      have hs := h.no_success
      have hpost := h.no_post
      rw [hq, List.mem_cons, not_or] at hs hpost
      cases hn
      have hidle : Idle { v with notices := q } := ⟨h.clean, hs.2, hpost.2, h.progress, h.no_b25⟩
      cases p with
      | endSuccess => exact absurd rfl hs.1
      | postProcess => exact absurd rfl hpost.1
      | init | preProcess | nowRecording | endError => exact .inr (.inl ⟨hidle, .inl rfl⟩)
    · cases hn
  | update f =>
    simp only [Recorder.step, hrec, Bool.false_eq_true, if_false] at hn
    cases hn

/-- **Recording**: the recording goes on, or its recorder object is given up. -/
theorem Recording.step (h : Recording v) (hok : OpOk v op) (hn : v.step op = some w) :
    w.log = v.log ∧ (w.isCrashed = true ∨ Recording w ∨ Closing w) := by
  have hrec := h.isRecording
  cases op with
  | idle =>
    cases hn
    exact ⟨rfl, .inr (.inl h)⟩
  | pick r =>
    have := h.isUsed
    rw [hok.1] at this
    cases this
  | enter | fail | drop =>
    have := hok.2
    rw [hrec] at this
    cases this
  | check now isLow =>
    cases hn
    refine ⟨rfl, .inr (.inl ⟨?_, ?_, h.no_post, ?_, ?_⟩)⟩
    · dsimp only
      split_ifs
      exacts [h.isUsed, h.isUsed]
    · dsimp only
      split_ifs
      exacts [mark_isRecording hrec, hrec]
    · dsimp only
      split_ifs
      exacts [by simp [Instance.setNextProgress], h.progress]
    · -- only a recording that has its recorder object is ended
      dsimp only
      split_ifs with he
      · intro _
        simp only [isRecordingEnd, Bool.and_eq_true, beq_iff_eq] at he
        exact h.has_b25 (.inl he.2)
      · exact h.has_b25
  | stop =>
    simp only [Recorder.step, hrec, if_true, Option.some.injEq] at hn
    subst hn
    exact ⟨rfl, .inr (.inl ⟨h.isUsed, mark_isRecording hrec, h.no_post,
      by simp [Instance.setNextProgress], by simp [Instance.setNextProgress]⟩)⟩
  | patNotDetected =>
    simp only [Recorder.step, hrec, if_true, Option.some.injEq] at hn
    subst hn
    have h' : Recording { v with
        inst := v.inst.setNextProgress .postProcess
        recording := v.recording.mark .endErrorInternalErr } :=
      ⟨h.isUsed, mark_isRecording hrec, h.no_post, by simp [Instance.setNextProgress],
        by simp [Instance.setNextProgress]⟩
    exact ⟨onTsReceived_log _, h'.onTsReceived _⟩
  | ts data =>
    cases hn
    exact ⟨onTsReceived_log _, h.onTsReceived _⟩
  | notice now =>
    dsimp only [Recorder.step] at hn
    split at hn
    · rename_i p q hq
      have hpost := h.no_post
      rw [hq, List.mem_cons, not_or] at hpost
      cases hn
      have hv : Recording { v with notices := q } :=
        ⟨h.isUsed, hrec, hpost.2, h.progress, h.has_b25⟩
      cases p with
      | postProcess => exact absurd rfl hpost.1
      | endSuccess =>
        exact ⟨rfl, .inr (.inl ⟨h.isUsed, mark_isRecording hrec, hpost.2, h.progress, h.has_b25⟩)⟩
      | init | preProcess | nowRecording | endError => exact ⟨rfl, .inr (.inl hv)⟩
    · cases hn
  | update f =>
    simp only [Recorder.step, hrec, if_true, Option.some.injEq] at hn
    subst hn
    obtain ⟨hu, hs⟩ := hok v.recording
    exact ⟨rfl, .inr (.inl ⟨by simpa [hu] using h.isUsed,
      by simpa [Reserve.isRecording, hs] using hrec, h.no_post, h.progress, h.has_b25⟩)⟩

/-- **Closing**: the one `POST_PROCESS` notice is still to come, or it is handled in this step. -/
theorem Closing.step (h : Closing v) (hok : OpOk v op) (hn : v.step op = some w) :
    (w.log = v.log ∧ (w.isCrashed = true ∨ Closing w)) ∨
      Idle w ∧ ∃ now, w.log = v.log ++ [RecEvent.finalised, .stored (v.recording.finish now)] := by
  have hrec := h.isRecording
  cases op with
  | idle =>
    cases hn
    exact .inl ⟨rfl, .inr h⟩
  | pick r =>
    have := h.isUsed
    rw [hok.1] at this
    cases this
  | enter | fail | drop =>
    have := hok.2
    rw [hrec] at this
    cases this
  | check now isLow =>
    have hend : isRecordingEnd now v.recording v.inst = false := by
      rcases h.progress with hp | hp | hp <;> simp [isRecordingEnd, hp]
    simp only [Recorder.step, hend, Bool.false_eq_true, if_false, Option.some.injEq] at hn
    subst hn
    refine .inl ⟨rfl, .inr ⟨?_, ?_, h.post, h.progress, h.no_b25⟩⟩
    · dsimp only
      split_ifs
      exacts [h.isUsed, h.isUsed]
    · dsimp only
      split_ifs
      exacts [mark_isRecording hrec, hrec]
  | stop =>
    simp only [Recorder.step, hrec, if_true, Option.some.injEq] at hn
    subst hn
    exact .inl ⟨rfl, .inr ⟨h.isUsed, mark_isRecording hrec, h.post, .inr (.inl rfl), h.no_b25⟩⟩
  | patNotDetected =>
    simp only [Recorder.step, hrec, if_true, Option.some.injEq] at hn
    subst hn
    exact .inl ⟨onTsReceived_log _, .inl (onTsReceived_crash _ (.inr rfl) h.no_b25)⟩
  | ts data =>
    cases hn
    exact .inl ⟨onTsReceived_log _, h.onTsReceived _⟩
  | notice now =>
    dsimp only [Recorder.step] at hn
    obtain ⟨l₁, l₂, hl, h₁, hs, h₂⟩ := h.post
    rw [hl] at hn
    cases l₁ with
    | nil =>
      cases hn
      refine .inr ⟨⟨by simp [onNotice], hs, h₂, h.progress, h.no_b25⟩, now, rfl⟩
    | cons p l₁ =>
      rw [List.mem_cons, not_or] at h₁
      cases hn
      have hv : Closing { v with notices := l₁ ++ Progress.postProcess :: l₂ } :=
        ⟨h.isUsed, hrec, ⟨l₁, l₂, rfl, h₁.2, hs, h₂⟩, h.progress, h.no_b25⟩
      cases p with
      | postProcess => exact absurd rfl h₁.1
      | endSuccess =>
        exact .inl ⟨rfl, .inr ⟨h.isUsed, mark_isRecording hrec, ⟨l₁, l₂, rfl, h₁.2, hs, h₂⟩,
          h.progress, h.no_b25⟩⟩
      | init | preProcess | nowRecording | endError => exact .inl ⟨rfl, .inr hv⟩
  | update f =>
    simp only [Recorder.step, hrec, if_true, Option.some.injEq] at hn
    subst hn
    obtain ⟨hu, hs⟩ := hok v.recording
    exact .inl ⟨rfl, .inr ⟨by simpa [hu] using h.isUsed,
      by simpa [Reserve.isRecording, hs] using hrec, h.post, h.progress, h.no_b25⟩⟩

end Recorder

/-! ## What is logged -/

/-- The log of a group whose recordings are each finalised once and store one result, which meets
`P`; the flag says that a recording is going on. A start that fails stores a result as well. -/
inductive Logged (P : Reserve → Prop) : Bool → List RecEvent → Prop
  | nil : Logged P false []
  | failed {l} (r : Reserve) : Logged P false l → Logged P false (l ++ [RecEvent.stored r])
  | entered {l} : Logged P false l → Logged P true (l ++ [RecEvent.entered])
  | finalised {l} (r : Reserve) : Logged P true l → P r →
      Logged P false (l ++ [RecEvent.finalised, .stored r])

section

variable {P : Reserve → Prop} {b : Bool} {l : List RecEvent}

/-- The end of a recording is not logged without its result. -/
theorem not_logged_finalised : ¬ Logged P b (l ++ [RecEvent.finalised]) := by
  generalize hl : l ++ [RecEvent.finalised] = l'
  intro h
  cases h with
  | nil => exact absurd hl (by simp)
  | failed r _ | entered _ => exact absurd (List.append_inj' hl rfl).2 (by simp)
  | @finalised l'' r _ _ =>
    rw [List.append_cons l''] at hl
    exact absurd (List.append_inj' hl rfl).2 (by simp)

theorem Logged.result {r : Reserve} (h : Logged P b (l ++ [RecEvent.finalised, .stored r])) :
    P r := by
  revert h
  generalize hl : l ++ [RecEvent.finalised, .stored r] = l'
  intro h
  cases h with
  | nil => exact absurd hl (by simp)
  | failed r' hf =>
    rw [List.append_cons l] at hl
    rw [← (List.append_inj' hl rfl).1] at hf
    exact absurd hf not_logged_finalised
  | entered _ =>
    rw [List.append_cons l] at hl
    exact absurd (List.append_inj' hl rfl).2 (by simp)
  | finalised r' _ hP =>
    have he := (List.append_inj' hl rfl).2
    simp only [List.cons.injEq, RecEvent.stored.injEq, true_and, and_true] at he
    exact he ▸ hP

end

namespace Recorder

variable {v w : Recorder} {op : RecorderOp} {P : Reserve → Prop}

/-- **The invariant** of a group: its phase, and the log that goes with it. -/
inductive RecorderInv (P : Reserve → Prop) (v : Recorder) : Prop
  | idle : Idle v → Logged P false v.log → RecorderInv P v
  | recording : Recording v → Logged P true v.log → RecorderInv P v
  | closing : Closing v → Logged P true v.log → RecorderInv P v
  | crashed (b : Bool) : v.isCrashed = true → Logged P b v.log → RecorderInv P v

theorem RecorderInv.logged (h : RecorderInv P v) : ∃ b, Logged P b v.log := by
  cases h with
  | idle _ hl | recording _ hl | closing _ hl | crashed _ _ hl => exact ⟨_, hl⟩

/-- **One step** keeps the invariant, when what is stored at the end of a recording meets `P`. -/
theorem next_inv (h : RecorderInv P v)
    (hP : ∀ now, v.recording.isUsed = true → P (v.recording.finish now)) (hok : OpOk v op)
    (hn : next v op = some w) : RecorderInv P w := by
  unfold next at hn
  split_ifs at hn with hc
  cases h with
  | idle hi hl =>
    rcases hi.step hok hn with ⟨hw, he⟩ | ⟨hw, he | ⟨r, he⟩⟩ | ⟨-, hw, he⟩
    · exact .crashed false hw (he ▸ hl)
    · exact .idle hw (he ▸ hl)
    · exact .idle hw (he ▸ .failed r hl)
    · exact .recording hw (he ▸ .entered hl)
  | recording hr hl =>
    obtain ⟨he, hw | hw | hw⟩ := hr.step hok hn
    · exact .crashed true hw (he ▸ hl)
    · exact .recording hw (he ▸ hl)
    · exact .closing hw (he ▸ hl)
  | closing hr hl =>
    rcases hr.step hok hn with ⟨he, hw | hw⟩ | ⟨hw, now, he⟩
    · exact .crashed true hw (he ▸ hl)
    · exact .closing hw (he ▸ hl)
    · exact .idle hw (he ▸ .finalised _ hl (hP now hr.isUsed))
  | crashed _ hc' => exact absurd hc' hc

/-! ## The recorder object -/

/-- **The recorder object is there** once the first packet has come, and nothing has crashed. -/
structure HasB25 (v : Recorder) : Prop where
  not_crashed : v.isCrashed = false
  has_b25 : v.inst.recProgress = .init ∨ v.inst.recProgress = .preProcess ∨
    v.inst.b25.isSome = true

/-- A recording is stopped after its first packet and before it has closed. -/
def StopsLate (v : Recorder) : RecorderOp → Prop
  | .stop | .patNotDetected => v.recording.isRecording = true →
      v.inst.recProgress ≠ .init ∧ v.inst.recProgress ≠ .preProcess
  | _ => True

theorem HasB25.ran_not_crashed (h : HasB25 v) : v.ran.isCrashed = false := by
  have h₁ := h.not_crashed
  simp only [isCrashed, ran, List.any_append, List.any_cons, List.any_nil, Bool.or_false,
    Bool.or_eq_false_iff] at h₁ ⊢
  refine ⟨h₁, ?_⟩
  rcases h.has_b25 with hp | hp | hb
  · simp [TsRun.isCrash, hp]
  · simp [TsRun.isCrash, hp]
  · simp [TsRun.isCrash, hb]

theorem HasB25.onTsReceived (h : HasB25 v) (data : List UInt8) : HasB25 (v.onTsReceived data) := by
  have hran := h.ran_not_crashed
  have hb := h.has_b25
  cases hp : v.inst.recProgress with
  | init =>
    rw [onTsReceived_init data hp]
    exact ⟨hran, .inl hp⟩
  | preProcess =>
    rw [onTsReceived_preProcess data hp]
    exact ⟨hran, .inr (.inr rfl)⟩
  | nowRecording =>
    obtain ⟨b, hb⟩ := Option.isSome_iff_exists.mp (by simpa [hp] using hb)
    rw [onTsReceived_nowRecording data hp hb]
    exact ⟨hran, .inr (.inr rfl)⟩
  | endSuccess =>
    rw [onTsReceived_end data (.inl hp)]
    exact ⟨hran, .inr (.inr (by simpa [hp] using hb))⟩
  | endError =>
    rw [onTsReceived_end data (.inr hp)]
    exact ⟨hran, .inr (.inr (by simpa [hp] using hb))⟩
  | postProcess =>
    obtain ⟨b, hb⟩ := Option.isSome_iff_exists.mp (by simpa [hp] using hb)
    rw [onTsReceived_postProcess data hp hb]
    exact ⟨hran, .inl rfl⟩

/-- **One step** keeps the recorder object there. -/
theorem next_hasB25 (h : HasB25 v) (hok : StopsLate v op) (hn : next v op = some w) : HasB25 w := by
  unfold next at hn
  rw [h.not_crashed, if_neg Bool.false_ne_true] at hn
  cases op with
  | idle | pick | fail | drop =>
    cases hn
    exact ⟨h.not_crashed, h.has_b25⟩
  | enter now useSplitter =>
    dsimp only [step] at hn
    split_ifs at hn
    cases hn
    exact ⟨h.not_crashed, .inr (.inl rfl)⟩
  | check now isLow =>
    cases hn
    refine ⟨h.not_crashed, ?_⟩
    dsimp only
    split_ifs with he
    · simp only [isRecordingEnd, Bool.and_eq_true, beq_iff_eq] at he
      rcases h.has_b25 with hp | hp | hb
      · simp [hp] at he
      · simp [hp] at he
      · exact .inr (.inr hb)
    · exact h.has_b25
  | stop =>
    dsimp only [step] at hn
    split_ifs at hn with hr
    · cases hn
      exact ⟨h.not_crashed, .inr (.inr ((h.has_b25.resolve_left (hok hr).1).resolve_left (hok hr).2))⟩
    · cases hn
      exact h
  | patNotDetected =>
    dsimp only [step] at hn
    split_ifs at hn with hr
    · cases hn
      have hb := (h.has_b25.resolve_left (hok hr).1).resolve_left (hok hr).2
      refine HasB25.onTsReceived ?_ []
      exact ⟨h.not_crashed, .inr (.inr hb)⟩
    · cases hn
      exact h
  | ts data =>
    cases hn
    exact h.onTsReceived data
  | notice now =>
    dsimp only [step] at hn
    split at hn
    · rename_i p q hq
      cases hn
      cases p <;> exact ⟨h.not_crashed, h.has_b25⟩
    · cases hn
  | update f =>
    dsimp only [step] at hn
    split_ifs at hn
    cases hn
    exact ⟨h.not_crashed, h.has_b25⟩

/-! ## Success and failure -/

/-- No success has been noted yet, and none is on its way. -/
def NoSuccess (v : Recorder) : Prop :=
  Flag.has v.recording.state ReserveState.endSuccess = false ∧ .endSuccess ∉ v.notices

/-- **A recording that has been stopped or has failed is no success.** -/
def FlagsOk (v : Recorder) : Prop :=
  Flag.has v.recording.state ReserveState.ended = true → NoSuccess v

/-- A success is sent for a recording that has no other end yet, and another end is put down for a
recording that is no success yet. -/
def KeepsApart (v : Recorder) : RecorderOp → Prop
  | .check _ isLow => v.recording.isUsed = true → v.recording.isRecording = true → isLow = true →
      NoSuccess v
  | .stop | .patNotDetected => v.recording.isRecording = true → NoSuccess v
  | .ts _ => v.inst.recProgress = .endSuccess → Flag.has v.recording.state ReserveState.ended = false
  | _ => True

theorem onTsReceived_noSuccess {data : List UInt8} (h : NoSuccess v)
    (hp : v.inst.recProgress ≠ .endSuccess) : NoSuccess (v.onTsReceived data) := by
  refine ⟨by rw [onTsReceived_recording]; exact h.1, ?_⟩
  have hs := h.2
  unfold onTsReceived
  split
  · rename_i i q hq
    dsimp only
    rw [List.mem_append, not_or]
    refine ⟨hs, ?_⟩
    unfold Instance.onTsReceived at hq
    cases hp' : v.inst.recProgress <;>
      simp only [hp', Instance.notice, Option.some.injEq, Prod.mk.injEq, Option.map_eq_some_iff] at hq
    all_goals first
      | exact absurd hp' hp
      | (obtain ⟨-, rfl⟩ := hq; simp)
      | (obtain ⟨_, -, -, rfl⟩ := hq; simp)
  · exact hs

theorem NoSuccess.mark (h : NoSuccess v) {f : ReserveState}
    (hf : Flag.has f ReserveState.endSuccess = false) {i : Instance} :
    NoSuccess { v with recording := v.recording.mark f, inst := i } :=
  ⟨by simp [h.1, hf], h.2⟩

theorem flagsOk_of_clean (h : Flag.has v.recording.state ReserveState.terminal = false) :
    FlagsOk v := by
  intro he
  rw [ReserveState.has_eq_false_of_terminal h rfl] at he
  cases he

theorem FlagsOk.notice (h : FlagsOk v) {p : Progress} {q : List Progress} (hq : v.notices = p :: q)
    (now : ℤ) : FlagsOk (onNotice { v with notices := q } p now) := by
  have hsub : NoSuccess v → NoSuccess { v with notices := q } := fun hs =>
    ⟨hs.1, fun hm => hs.2 (by rw [hq]; exact List.mem_cons_of_mem _ hm)⟩
  cases p with
  | endSuccess =>
    -- the notice was on its way, so that the recording had no other end
    intro he
    have hm : Flag.has v.recording.state ReserveState.ended = true := by
      simp only [onNotice, Reserve.mark_state, Flag.has_or, Bool.or_eq_true] at he
      exact he.resolve_right (by decide)
    exact absurd (by rw [hq]; exact List.mem_cons_self) (h hm).2
  | postProcess => exact flagsOk_of_clean (by simp [onNotice])
  | init | preProcess | nowRecording | endError => exact fun he => hsub (h he)

/-- **One step** keeps success and failure apart. -/
theorem next_flagsOk (h : FlagsOk v) (hop : OpOk v op) (hok : KeepsApart v op)
    (hn : next v op = some w) : FlagsOk w := by
  unfold next at hn
  split_ifs at hn with hc
  cases op with
  | idle =>
    cases hn
    exact h
  | pick r =>
    cases hn
    exact flagsOk_of_clean hop.2.2
  | enter now useSplitter =>
    dsimp only [step] at hn
    split_ifs at hn
    cases hn
    intro he
    simp only [Reserve.enter, Reserve.mark_state, Flag.has_or, Bool.or_eq_true] at he
    obtain ⟨hs, hq⟩ := h (he.resolve_right (by decide))
    refine ⟨?_, hq⟩
    simp only [Reserve.enter, Reserve.mark_state, Flag.has_or, hs, Bool.false_or]
    rfl
  | fail | drop =>
    cases hn
    exact flagsOk_of_clean (by simp)
  | check now isLow =>
    rcases hlow : v.recording.isUsed && v.recording.isRecording && isLow with _ | _
    · simp only [step, hlow, Bool.false_eq_true, if_false, Option.some.injEq] at hn
      subst hn
      exact h
    · simp only [step, hlow, if_true, Option.some.injEq] at hn
      subst hn
      simp only [Bool.and_eq_true] at hlow
      exact fun _ => (hok hlow.1.1 hlow.1.2 hlow.2).mark rfl
  | stop =>
    dsimp only [step] at hn
    split_ifs at hn with hr
    · cases hn
      exact fun _ => (hok hr).mark rfl
    · cases hn
      exact h
  | patNotDetected =>
    dsimp only [step] at hn
    split_ifs at hn with hr
    · cases hn
      refine fun _ => onTsReceived_noSuccess ((hok hr).mark rfl) ?_
      simp [Instance.setNextProgress]
    · cases hn
      exact h
  | ts data =>
    cases hn
    intro he
    rw [onTsReceived_recording] at he
    refine onTsReceived_noSuccess (h he) fun hp => ?_
    rw [hok hp] at he
    cases he
  | notice now =>
    dsimp only [step] at hn
    split at hn
    · cases hn
      exact h.notice ‹_› now
    · cases hn
  | update f =>
    dsimp only [step] at hn
    split_ifs at hn
    cases hn
    intro he
    rw [(hop v.recording).2] at he
    exact ⟨by rw [(hop v.recording).2]; exact (h he).1, (h he).2⟩

theorem FlagsOk.finish (h : FlagsOk v) (now : ℤ) :
    ¬ (Flag.has (v.recording.finish now).state ReserveState.endSuccess = true ∧
      Flag.has (v.recording.finish now).state ReserveState.ended = true) := by
  rintro ⟨hs, he⟩
  simp only [Reserve.finish, Reserve.unmark_state] at hs he
  rw [Flag.has_andNot (by decide)] at hs he
  rw [(h he).1] at hs
  cases hs

end Recorder

end AutoRec
