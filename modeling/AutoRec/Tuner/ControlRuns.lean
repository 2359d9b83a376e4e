import AutoRec.Tuner.Control

/-!
# What the tuner control replies

`freq_` and the state of the thread are two copies of one fact. The thread changes its own copy
first, and the manager its own when an `on_tune_stop` sees that the thread is closed.

* `ControlReply.Ok`: a reply that is true.
* `HasLeft`: the thread has left its loop, and the `on_tune_stop` that waits has not seen it.
* `ControlOk`: the condition on the steps.
* `ControlInv`: the invariant, with a lemma for each function.
* **`repliesOk_reach`**: in every run under the condition all replies are true.
-/

namespace AutoRec

open Machine

/-- A reply that is true: `on_tune` succeeds with the thread tuned, `on_tune_stop` with no
frequency. -/
def ControlReply.Ok : ControlReply → Prop
  | .tune freq ok thread => ok = true → thread.IsTunedFor freq
  | .tuneStop ok freq => ok = true → freq = 0

namespace TuneThread

/-- Behind the loop of `on_tune`. -/
def hasLeft (th : TuneThread) : Bool := decide (th.state = .tuneEnded ∨ th.state = .closed)

theorem not_isTunedFor (th : TuneThread) (h : th.state ≠ .tuned) (freq : ℕ) :
    ¬ th.IsTunedFor freq :=
  fun htuned => h htuned.1

end TuneThread

namespace TunerControl

variable {s t : TunerControl}

/-- The thread has left its loop, and the `on_tune_stop` that waits has not seen it. -/
def HasLeft (s : TunerControl) : Prop :=
  s.freq ≠ 0 ∧ s.stops ≠ [] ∧ s.thread.hasLeft = true

instance (s : TunerControl) : Decidable s.HasLeft := inferInstanceAs (Decidable (_ ∧ _ ∧ _))

/-- The success of an `on_tune_start` that its `on_tune` has not taken. -/
def HasSuccess (s : TunerControl) : Prop := ∃ r ∈ s.tunes, r.phase = .startReplied true

instance (s : TunerControl) : Decidable s.HasSuccess :=
  inferInstanceAs (Decidable (∃ r ∈ s.tunes, r.phase = .startReplied true))

/-- **The condition on the steps**: the thread does not leave its loop by itself while it has a
frequency and is not to stop, nor while a success is on its way; while a stop waits, no start is
taken, and while it has not seen that the thread is gone, no `on_tune` for the old frequency and no
other stop, and it does not give up. -/
def ControlOk (s : TunerControl) : ControlOp → Prop
  | .tune freq => freq = s.freq → freq ≠ 0 ∧ ¬ s.HasLeft
  | .tuneStart _ | .takeStart _ => s.stops = [] ∨ s.freq = 0
  | .tuneStop | .takeStop _ => ¬ s.HasLeft
  | .tuneStopTurn j => (∃ r ∈ s.stops[j]?, 300 ≤ r.chkcnt) → ¬ s.HasLeft
  | .threadStop => ¬ s.HasSuccess
  | .threadBreak => (s.stops ≠ [] ∨ s.freq = 0) ∧ ¬ s.HasSuccess
  | _ => True

instance (s : TunerControl) (op : ControlOp) : Decidable (ControlOk s op) := by
  cases op <;> simp only [ControlOk] <;> infer_instance

/-! ## The invariant -/

/-- **The invariant.** -/
structure ControlInv (s : TunerControl) : Prop where
  /-- The frequency is the one of the thread, or is to be cleared. -/
  tuned : s.freq ≠ 0 → s.thread.IsTunedFor s.freq ∨ s.HasLeft
  start : ∀ r ∈ s.start, (s.stops = [] ∨ s.freq = 0) ∧
    (r.phase ≠ .requested → r.phase ≠ .replied false → s.thread.freq = r.freq) ∧
    ∀ k ∈ r.caller, ∀ x ∈ s.tunes[k]?, x.freq = r.freq
  success : ∀ r ∈ s.tunes, r.phase = .startReplied true → s.thread.IsTunedFor r.freq
  reqStop : s.isReqStop = true → s.stops ≠ []
  replies : ∀ r ∈ s.replies, r.Ok

section Fields

variable (s : TunerControl) (caller : Option ℕ) (phase : TunePhase)

@[simp] theorem setPhase_freq : (s.setPhase caller phase).freq = s.freq := by cases caller <;> rfl

@[simp] theorem setPhase_isReqStop : (s.setPhase caller phase).isReqStop = s.isReqStop := by
  cases caller <;> rfl

@[simp] theorem setPhase_start : (s.setPhase caller phase).start = s.start := by cases caller <;> rfl

@[simp] theorem setPhase_stops : (s.setPhase caller phase).stops = s.stops := by cases caller <;> rfl

@[simp] theorem setPhase_thread : (s.setPhase caller phase).thread = s.thread := by
  cases caller <;> rfl

@[simp] theorem setPhase_replies : (s.setPhase caller phase).replies = s.replies := by
  cases caller <;> rfl

end Fields

theorem getElem?_setPhase {caller : Option ℕ} {phase : TunePhase} {i : ℕ} {r : TuneRun}
    (hr : (s.setPhase caller phase).tunes[i]? = some r) :
    s.tunes[i]? = some r ∨
      ∃ x, caller = some i ∧ s.tunes[i]? = some x ∧ r = { x with phase := phase } := by
  cases caller with
  | none => exact .inl hr
  | some k =>
    simp only [setPhase, List.getElem?_modify] at hr
    by_cases hk : k = i
    · subst hk
      simp only [if_true, Option.map_eq_map, Option.map_eq_some_iff] at hr
      obtain ⟨x, hx, rfl⟩ := hr
      exact .inr ⟨x, rfl, hx, rfl⟩
    · simp only [if_neg hk, Option.map_eq_map, Option.map_id_fun', id_eq] at hr
      exact .inl hr

theorem mem_setPhase {caller : Option ℕ} {phase : TunePhase} {r : TuneRun}
    (hr : r ∈ (s.setPhase caller phase).tunes) :
    r ∈ s.tunes ∨ ∃ k x, caller = some k ∧ s.tunes[k]? = some x ∧ r = { x with phase := phase } := by
  obtain ⟨i, hi⟩ := List.getElem?_of_mem hr
  rcases getElem?_setPhase hi with h | ⟨x, hc, hx, rfl⟩
  · exact .inl (List.mem_of_getElem? h)
  · exact .inr ⟨i, x, hc, hx, rfl⟩

theorem controlInv_init : ControlInv init := by
  constructor <;> simp [init]

theorem ControlInv.withThread (hI : ControlInv s) {th : TuneThread} (hfreq : th.freq = s.thread.freq)
    (htuned : s.freq ≠ 0 →
      th.IsTunedFor s.freq ∨ ({ s with thread := th } : TunerControl).HasLeft)
    (hsuccess : ∀ r ∈ s.tunes, r.phase = .startReplied true → th.IsTunedFor r.freq) :
    ControlInv { s with thread := th } where
  tuned := htuned
  start r hr := by
    obtain ⟨hstops, hphase, hcaller⟩ := hI.start r hr
    exact ⟨hstops, fun h h' => hfreq.trans (hphase h h'), hcaller⟩
  success := hsuccess
  reqStop := hI.reqStop
  replies := hI.replies

theorem ControlInv.setPhase (hI : ControlInv s) (caller : Option ℕ) {phase : TunePhase}
    (hphase : phase ≠ .startReplied true) : ControlInv (s.setPhase caller phase) where
  tuned := by simpa [HasLeft] using hI.tuned
  start r hr := by
    rw [setPhase_start] at hr
    obtain ⟨hstops, hfreq, hcaller⟩ := hI.start r hr
    refine ⟨by simpa using hstops, by simpa using hfreq, ?_⟩
    intro k hk x hx
    rcases getElem?_setPhase hx with h | ⟨y, -, hy, rfl⟩
    · exact hcaller k hk x h
    · exact hcaller k hk y hy
  success r hr hsucc := by
    rw [setPhase_thread]
    rcases mem_setPhase hr with h | ⟨k, x, -, -, rfl⟩
    · exact hI.success r h hsucc
    · exact absurd hsucc hphase
  reqStop := by simpa using hI.reqStop
  replies := by simpa using hI.replies

theorem ControlInv.reply (hI : ControlInv s) {r : ControlReply} (hr : r.Ok) :
    ControlInv { s with replies := s.replies ++ [r] } where
  tuned := hI.tuned
  start := hI.start
  success := hI.success
  reqStop := hI.reqStop
  replies r' hr' := by
    rcases List.mem_append.mp hr' with h | h
    · exact hI.replies r' h
    · rw [List.mem_singleton.mp h]
      exact hr

theorem ControlInv.replyTuneStop (hI : ControlInv { s with isReqStop := false }) {caller : Option ℕ}
    {ok : Bool} (hok : ok = true → s.freq = 0) :
    ControlInv { s.replyTuneStop caller ok with isReqStop := false } := by
  have hphase : TunePhase.stopReplied ok ≠ .startReplied true := by simp
  have h := (hI.reply (r := .tuneStop ok s.freq) hok).setPhase caller hphase
  cases caller with
  | none => exact h
  | some k => exact h

/-! ## The functions of the manager -/

/-- The frequency is the one of the thread, if no stop is about to clear it. -/
theorem ControlInv.isTunedFor (hI : ControlInv s) (h0 : s.freq ≠ 0) (hleft : ¬ s.HasLeft) :
    s.thread.IsTunedFor s.freq :=
  (hI.tuned h0).resolve_right hleft

theorem ControlInv.onTune (hI : ControlInv s) {wkFreq : ℕ}
    (hok : wkFreq = s.freq → wkFreq ≠ 0 ∧ ¬ s.HasLeft) (hstart : s.start = none) :
    ControlInv (s.onTune wkFreq) := by
  rw [TunerControl.onTune]
  by_cases heq : s.freq = wkFreq
  · rw [if_pos heq]
    obtain ⟨h0, hleft⟩ := hok heq.symm
    have htuned := hI.isTunedFor (heq ▸ h0) hleft
    exact hI.reply (r := .tune wkFreq true s.thread) fun _ => heq ▸ htuned
  · rw [if_neg heq]
    refine ⟨hI.tuned, by simp [hstart], ?_, hI.reqStop, hI.replies⟩
    intro r hr hsucc
    rcases List.mem_append.mp hr with h | h
    · exact hI.success r h hsucc
    · rw [List.mem_singleton.mp h] at hsucc
      cases hsucc

theorem ControlInv.onTuneReply (hI : ControlInv s) {k : ℕ} (hs : s.onTuneReply k = some t) :
    ControlInv t := by
  rw [TunerControl.onTuneReply] at hs
  split at hs
  · cases hs
    exact hI.setPhase (some k) (by simp)
  · rename_i wkFreq hk
    cases hs
    exact (hI.setPhase (some k) (by simp)).reply (r := .tune wkFreq false _) (by simp [ControlReply.Ok])
  · rename_i wkFreq ok hk
    cases hs
    refine (hI.setPhase (some k) (by simp)).reply (r := .tune wkFreq ok _) ?_
    rintro rfl
    rw [setPhase_thread]
    exact hI.success _ (List.mem_of_getElem? hk) rfl
  · cases hs

/-- `on_tune_start` begins while no stop waits for a frequency to be cleared. -/
theorem ControlInv.onTuneStart (hI : ControlInv s) {startFreq : ℕ} {caller : Option ℕ}
    (hok : s.stops = [] ∨ s.freq = 0) (hcaller : ∀ k ∈ caller, ∀ x ∈ s.tunes[k]?, x.freq = startFreq) :
    ControlInv (s.onTuneStart startFreq caller) where
  tuned := hI.tuned
  start r hr := by
    cases hr
    exact ⟨hok, by simp, hcaller⟩
  success := hI.success
  reqStop := hI.reqStop
  replies := hI.replies

theorem ControlInv.endTuneStart (hI : ControlInv s) {r : StartRun} (hr : s.start = some r)
    {tuned : Bool} (htuned : tuned = true → s.thread.IsTunedFor r.freq) :
    ControlInv (s.endTuneStart r tuned) := by
  obtain ⟨hstops, -, hcaller⟩ := hI.start r hr
  cases tuned with
  | false =>
    have hfail : ControlInv { s with start := none, state := .tuningErrorStop } :=
      ⟨hI.tuned, by simp, hI.success, hI.reqStop, hI.replies⟩
    exact hfail.setPhase r.caller (by simp)
  | true =>
    have hth := htuned rfl
    rw [TunerControl.endTuneStart, if_pos rfl]
    refine ⟨by simpa using fun _ => .inl hth, by simp, ?_, by simpa using hI.reqStop,
      by simpa using hI.replies⟩
    intro x hx hsucc
    rw [setPhase_thread]
    rcases mem_setPhase hx with h | ⟨k, y, hk, hy, rfl⟩
    · exact hI.success x h hsucc
    · have hfreq : y.freq = r.freq := hcaller k hk y hy
      show s.thread.IsTunedFor y.freq
      rw [hfreq]
      exact hth

theorem ControlInv.onTuneStartTurn (hI : ControlInv s) (hs : s.onTuneStartTurn = some t) :
    ControlInv t := by
  rw [TunerControl.onTuneStartTurn] at hs
  split at hs
  · rename_i r hr
    obtain ⟨hstops, hfreq, hcaller⟩ := hI.start r hr
    have hpoll : ∀ n, r.phase ≠ .requested → r.phase ≠ .replied false →
        ControlInv { s with start := some { r with phase := .polling n } } := by
      intro n h h'
      refine ⟨hI.tuned, ?_, hI.success, hI.reqStop, hI.replies⟩
      rintro r' hr'
      cases hr'
      exact ⟨hstops, fun _ _ => hfreq h h', hcaller⟩
    split at hs
    · rename_i hphase
      cases hs
      exact hpoll 0 (by simp [hphase]) (by simp [hphase])
    · cases hs
      exact hI.endTuneStart hr (by simp)
    · rename_i n hphase
      split at hs
      · split at hs
        · rename_i hstate
          cases hs
          exact hI.endTuneStart hr fun _ => ⟨hstate, hfreq (by simp [hphase]) (by simp [hphase])⟩
        · cases hs
          exact hpoll (n + 1) (by simp [hphase]) (by simp [hphase])
      · cases hs
        exact hI.endTuneStart hr (by simp)
    · cases hs
  · cases hs

theorem ControlInv.onTuneStop (hI : ControlInv s) {caller : Option ℕ} (hok : ¬ s.HasLeft)
    (hstart : s.start = none) : ControlInv (s.onTuneStop caller) := by
  rw [TunerControl.onTuneStop]
  by_cases hloop : s.thread.isInLoop = true
  · rw [if_pos hloop]
    refine ⟨?_, by simp [hstart], hI.success, by simp, hI.replies⟩
    intro h0
    exact .inl (hI.isTunedFor h0 hok)
  · rw [if_neg hloop]
    have hfreq : s.freq = 0 := by
      by_contra h0
      obtain ⟨hstate, -⟩ := hI.isTunedFor h0 hok
      exact hloop (by simp [TuneThread.isInLoop, hstate])
    have hI' : ControlInv { s with state := .tuneStop, isReqStop := false } :=
      ⟨hI.tuned, hI.start, hI.success, by simp, hI.replies⟩
    exact hI'.replyTuneStop (s := { s with state := .tuneStop }) fun _ => hfreq

theorem ControlInv.onTuneStopTurn (hI : ControlInv s) {j : ℕ}
    (hok : (∃ r ∈ s.stops[j]?, 300 ≤ r.chkcnt) → ¬ s.HasLeft) (hstart : s.start = none)
    (hs : s.onTuneStopTurn j = some t) : ControlInv t := by
  rw [TunerControl.onTuneStopTurn] at hs
  split at hs
  · rename_i r hr
    by_cases hlt : r.chkcnt < 300
    · rw [if_pos hlt] at hs
      by_cases hclosed : s.thread.state = .closed
      · rw [if_pos hclosed] at hs
        cases hs
        have hI' : ControlInv
            { s with freq := 0, state := .tuneStop, stops := s.stops.eraseIdx j, isReqStop := false } :=
          ⟨by simp, by simp [hstart], hI.success, by simp, hI.replies⟩
        exact hI'.replyTuneStop
          (s := { s with freq := 0, state := .tuneStop, stops := s.stops.eraseIdx j }) fun _ => rfl
      · rw [if_neg hclosed] at hs
        cases hs
        have hne : s.stops.set j { r with chkcnt := r.chkcnt + 1 } ≠ [] := by
          obtain ⟨hj, -⟩ := List.getElem?_eq_some_iff.mp hr
          intro h
          rw [List.set_eq_nil_iff] at h
          simp [h] at hj
        refine ⟨fun h0 => ?_, by simp [hstart], hI.success, fun _ => hne, hI.replies⟩
        exact (hI.tuned h0).imp id fun h => ⟨h0, hne, h.2.2⟩
    · -- it gives up, and the frequency stays
      rw [if_neg hlt] at hs
      cases hs
      have hleft : ¬ s.HasLeft := hok ⟨r, hr, by omega⟩
      have hI' : ControlInv { s with stops := s.stops.eraseIdx j, isReqStop := false } :=
        ⟨fun h0 => .inl (hI.isTunedFor h0 hleft), by simp [hstart], hI.success, by simp, hI.replies⟩
      exact hI'.replyTuneStop (s := { s with stops := s.stops.eraseIdx j }) (by simp)
  · cases hs

/-! ## The thread -/

/-- The thread takes a request while there is no frequency. -/
theorem ControlInv.onThreadTune (hI : ControlInv s) {isForked : Bool}
    (hs : s.onThreadTune isForked = some t) : ControlInv t := by
  rw [TunerControl.onThreadTune] at hs
  split at hs
  · rename_i r hr
    obtain ⟨hstops, -, hcaller⟩ := hI.start r hr
    split at hs
    · cases hs
      have hfail : ControlInv { s with start := some { r with phase := .replied false } } := by
        refine ⟨hI.tuned, ?_, hI.success, hI.reqStop, hI.replies⟩
        rintro r' hr'
        cases hr'
        exact ⟨hstops, by simp, hcaller⟩
      rw [TuneThread.onTune]
      split
      · exact hfail
      · rename_i hclosed
        rw [not_not] at hclosed
        split
        · -- it is closed, so that there is neither a frequency nor a success
          have hno := s.thread.not_isTunedFor (by simp [hclosed])
          have hfreq : s.freq = 0 := by
            by_contra h0
            rcases hI.tuned h0 with h | ⟨-, hne, -⟩
            · exact hno _ h
            · exact hstops.elim hne h0
          refine ⟨fun h0 => absurd hfreq h0, ?_, ?_, hI.reqStop, hI.replies⟩
          · rintro r' hr'
            cases hr'
            exact ⟨hstops, fun _ _ => rfl, hcaller⟩
          · intro x hx hsucc
            exact absurd (hI.success x hx hsucc) (hno _)
        · exact hfail
    · cases hs
  · cases hs

theorem ControlInv.onTuneBegin (hI : ControlInv s) {th : TuneThread}
    (hs : s.thread.onTuneBegin = some th) : ControlInv { s with thread := th } := by
  rw [TuneThread.onTuneBegin] at hs
  split at hs
  · rename_i hstate
    cases hs
    have hno := s.thread.not_isTunedFor (by simp [hstate])
    refine hI.withThread rfl ?_ fun r hr hsucc => absurd (hI.success r hr hsucc) (hno _)
    intro h0
    rcases hI.tuned h0 with h | ⟨-, -, hleft⟩
    · exact absurd h (hno _)
    · simp [TuneThread.hasLeft, hstate] at hleft
  · cases hs

theorem ControlInv.onRead (hI : ControlInv s) {th : TuneThread} (hs : s.thread.onRead = some th) :
    ControlInv { s with thread := th } := by
  rw [TuneThread.onRead] at hs
  split at hs
  · rename_i hloop
    cases hs
    refine hI.withThread rfl ?_ fun r hr hsucc => ⟨rfl, (hI.success r hr hsucc).2⟩
    intro h0
    rcases hI.tuned h0 with h | ⟨-, -, hleft⟩
    · exact .inl ⟨rfl, h.2⟩
    · simp only [TuneThread.isInLoop, TuneThread.hasLeft, decide_eq_true_eq] at hloop hleft
      rcases hleft with h | h <;> simp [h] at hloop
  · cases hs

/-- The loop is left while a stop waits, or while there is no frequency. -/
theorem ControlInv.onBreak (hI : ControlInv s) (hok : (s.stops ≠ [] ∨ s.freq = 0) ∧ ¬ s.HasSuccess)
    {th : TuneThread} (hs : s.thread.onBreak = some th) : ControlInv { s with thread := th } := by
  rw [TuneThread.onBreak] at hs
  split at hs
  · cases hs
    refine hI.withThread rfl ?_ fun r hr hsucc => absurd ⟨r, hr, hsucc⟩ hok.2
    intro h0
    exact .inr ⟨h0, hok.1.resolve_right h0, rfl⟩
  · cases hs

theorem ControlInv.onTuneEnd (hI : ControlInv s) {th : TuneThread}
    (hs : s.thread.onTuneEnd = some th) : ControlInv { s with thread := th } := by
  rw [TuneThread.onTuneEnd] at hs
  split at hs
  · rename_i hstate
    cases hs
    have hno := s.thread.not_isTunedFor (by simp [hstate])
    refine hI.withThread rfl ?_ fun r hr hsucc => absurd (hI.success r hr hsucc) (hno _)
    intro h0
    rcases hI.tuned h0 with h | ⟨-, hne, -⟩
    · exact absurd h (hno _)
    · exact .inr ⟨h0, hne, rfl⟩
  · cases hs

/-! ## Steps -/

theorem ControlInv.stepFree (hI : ControlInv s) {op : ControlOp} (hok : ControlOk s op)
    (hstart : s.start = none) (hs : s.stepFree op = some t) : ControlInv t := by
  cases op with
  | tune freq =>
    cases hs
    exact hI.onTune hok hstart
  | tuneStart freq =>
    cases hs
    exact hI.onTuneStart hok (by simp)
  | tuneStop =>
    cases hs
    exact hI.onTuneStop hok hstart
  | takeStop k =>
    rw [TunerControl.stepFree] at hs
    split at hs
    · cases hs
      have hleft : ¬ s.HasLeft := hok
      refine (hI.setPhase (some k) (by simp)).onTuneStop ?_ (by simpa using hstart)
      simpa [HasLeft] using hleft
    · cases hs
  | takeStart k =>
    rw [TunerControl.stepFree] at hs
    split at hs
    · rename_i wkFreq hk
      cases hs
      have hstops : s.stops = [] ∨ s.freq = 0 := hok
      refine (hI.setPhase (some k) (by simp)).onTuneStart (by simpa using hstops) ?_
      intro k' hk' x hx
      cases hk'
      rcases getElem?_setPhase hx with h | ⟨y, -, hy, rfl⟩
      · rw [hk] at h
        cases h
        rfl
      · rw [hk] at hy
        cases hy
        rfl
    · cases hs
  | tuneReply k => exact hI.onTuneReply hs
  | tuneStopTurn j => exact hI.onTuneStopTurn hok hstart hs
  | tuneStartTurn => cases hs
  | threadTune isForked => cases hs
  | threadBegin => cases hs
  | threadRead => cases hs
  | threadStop => cases hs
  | threadBreak => cases hs
  | threadEnd => cases hs

/-- **A step under the condition keeps the invariant.** -/
theorem ControlInv.step (hI : ControlInv s) {op : ControlOp} (hok : ControlOk s op)
    (hs : TunerControl.step s op = some t) : ControlInv t := by
  have hfree : ∀ {op}, ControlOk s op → (if s.start.isNone then s.stepFree op else none) = some t →
      ControlInv t := by
    intro op hok hs
    split at hs
    · rename_i hnone
      exact hI.stepFree hok (Option.isNone_iff_eq_none.mp hnone) hs
    · cases hs
  cases op with
  | threadTune isForked => exact hI.onThreadTune hs
  | threadBegin =>
    obtain ⟨th, hth, rfl⟩ := Option.map_eq_some_iff.mp hs
    exact hI.onTuneBegin hth
  | threadRead =>
    obtain ⟨th, hth, rfl⟩ := Option.map_eq_some_iff.mp hs
    exact hI.onRead hth
  | threadStop =>
    rw [TunerControl.step] at hs
    split at hs
    · rename_i hreq
      obtain ⟨th, hth, rfl⟩ := Option.map_eq_some_iff.mp hs
      exact hI.onBreak ⟨.inl (hI.reqStop hreq), hok⟩ hth
    · cases hs
  | threadBreak =>
    obtain ⟨th, hth, rfl⟩ := Option.map_eq_some_iff.mp hs
    exact hI.onBreak hok hth
  | threadEnd =>
    obtain ⟨th, hth, rfl⟩ := Option.map_eq_some_iff.mp hs
    exact hI.onTuneEnd hth
  | tuneStartTurn => exact hI.onTuneStartTurn hs
  | tune freq => exact hfree hok hs
  | tuneStart freq => exact hfree hok hs
  | tuneStop => exact hfree hok hs
  | takeStop k => exact hfree hok hs
  | takeStart k => exact hfree hok hs
  | tuneReply k => exact hfree hok hs
  | tuneStopTurn j => exact hfree hok hs

/-- **In every run under the condition all replies are true.** -/
theorem repliesOk_reach (hr : Reach TunerControl.step ControlOk init s) : ∀ r ∈ s.replies, r.Ok :=
  (hr.inv ControlInv controlInv_init fun _ _ _ hI hok hs => hI.step hok hs).replies

/-! ## Without the condition -/

/-- A thread that leaves its loop by itself: the next `on_tune` for its frequency says that it is
tuned. -/
theorem not_ok_of_threadBreak (hstart : s.start = none) (hloop : s.thread.isInLoop = true) :
    ∃ t, exec TunerControl.step s [.threadBreak, .threadEnd, .tune s.freq] = some t ∧
      ∃ r ∈ t.replies, ¬ r.Ok := by
  let ended : TunerControl := { s with thread := { s.thread with state := .tuneEnded } }
  let closed : TunerControl :=
    { s with thread := { s.thread with state := .closed, isBusy := false } }
  have hbreak : TunerControl.step s .threadBreak = some ended := by
    simp [TunerControl.step, TuneThread.onBreak, hloop, ended]
  have hend : TunerControl.step ended .threadEnd = some closed := by
    simp [TunerControl.step, TuneThread.onTuneEnd, ended, closed]
  have htune : TunerControl.step closed (.tune s.freq) = some (closed.replyTune s.freq true) := by
    simp [TunerControl.step, hstart, TunerControl.stepFree, TunerControl.onTune, closed]
  refine ⟨closed.replyTune s.freq true, ?_, .tune s.freq true closed.thread, ?_, ?_⟩
  · simp only [exec, hbreak, hend, htune]
  · simp [TunerControl.replyTune]
  · intro hok
    cases (hok rfl).1

/-- A stop that has not seen that the thread is gone: another stop says that it is done, and an
`on_tune` for the old frequency that it is tuned. -/
theorem not_ok_of_hasLeft (hstart : s.start = none) (hleft : s.HasLeft) {op : ControlOp}
    (hop : op = .tuneStop ∨ op = .tune s.freq) :
    ∃ t, TunerControl.step s op = some t ∧ ∃ r ∈ t.replies, ¬ r.Ok := by
  obtain ⟨h0, -, hth⟩ := hleft
  simp only [TuneThread.hasLeft, decide_eq_true_eq] at hth
  have hloop : s.thread.isInLoop = false := by
    rcases hth with h | h <;> simp [TuneThread.isInLoop, h]
  rcases hop with rfl | rfl
  · refine ⟨s.onTuneStop none, by simp [TunerControl.step, hstart, TunerControl.stepFree],
      .tuneStop true s.freq, ?_, fun hok => h0 (hok rfl)⟩
    simp [TunerControl.onTuneStop, hloop, TunerControl.replyTuneStop, TunerControl.setPhase]
  · refine ⟨s.onTune s.freq, by simp [TunerControl.step, hstart, TunerControl.stepFree],
      .tune s.freq true s.thread, ?_, ?_⟩
    · simp [TunerControl.onTune, TunerControl.replyTune]
    · intro hok
      have hstate := (hok rfl).1
      rcases hth with h | h <;> simp [h] at hstate

/-- An `on_tune`, whose `on_tune_stop` finds nothing to stop. -/
def tuneRun (k freq : ℕ) : List ControlOp :=
  [.tune freq, .takeStop k, .tuneReply k, .takeStart k, .threadTune true, .tuneStartTurn,
    .threadBegin, .tuneStartTurn, .threadRead, .tuneStartTurn, .tuneReply k]

/-- A tune, one to another frequency, which first has to stop the first, and a stop. -/
def retuneRun : List ControlOp :=
  tuneRun 0 473143 ++
    ([.tune 479143, .takeStop 1, .tuneStopTurn 0, .threadStop, .tuneStopTurn 0, .threadEnd,
      .tuneStopTurn 0, .tuneReply 1, .takeStart 1, .threadTune true, .threadBegin, .tuneStartTurn,
      .threadRead, .tuneStartTurn, .tuneReply 1, .tune 479143, .tuneStop, .threadStop, .threadEnd,
      .tuneStopTurn 0] : List ControlOp)

/-- The replies of `retuneRun`. -/
def retuneReplies : List ControlReply :=
  [.tuneStop true 0, .tune 473143 true ⟨.tuned, true, 473143⟩, .tuneStop true 0,
    .tune 479143 true ⟨.tuned, true, 479143⟩, .tune 479143 true ⟨.tuned, true, 479143⟩,
    .tuneStop true 0]

theorem replies_retuneRun :
    (exec TunerControl.step init retuneRun).map replies = some retuneReplies := by
  decide

theorem execOk_retuneRun : execOk TunerControl.step ControlOk init retuneRun = true := by
  decide

theorem repliesOk_reach_retuneRun : ∃ s, exec TunerControl.step init retuneRun = some s ∧
    s.replies = retuneReplies ∧ ∀ r ∈ s.replies, r.Ok := by
  obtain ⟨s, hs, hreplies⟩ := Option.map_eq_some_iff.mp replies_retuneRun
  exact ⟨s, hs, hreplies, repliesOk_reach (reach_of_execOk execOk_retuneRun hs)⟩

/-- The process of the tuner ends by itself, and the next `on_tune` succeeds with the thread closed.
-/
theorem not_repliesOk :
    ¬ ∀ s, Reach TunerControl.step anyStep init s → ∀ r ∈ s.replies, r.Ok := by
  intro h
  have hrun : (exec TunerControl.step init
      (tuneRun 0 473143 ++ ([.threadBreak, .threadEnd, .tune 473143] : List ControlOp))).map
        replies = some [.tuneStop true 0, .tune 473143 true ⟨.tuned, true, 473143⟩,
        .tune 473143 true ⟨.closed, false, 473143⟩] := by
    decide
  obtain ⟨s, hs, hreplies⟩ := Option.map_eq_some_iff.mp hrun
  have hok := h s (reach_of_exec hs) (.tune 473143 true ⟨.closed, false, 473143⟩) (by simp [hreplies])
  cases (hok rfl).1

end TunerControl

end AutoRec
