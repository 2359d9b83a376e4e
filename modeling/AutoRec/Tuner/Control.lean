import AutoRec.Lib.Machine

/-!
# The control of one tuner

`tuner_control::manager` (`tuner_control/tuner_control.cpp`) and its `tune_thread`
(`tuner_control/tune_thread/tune_thread.cpp`). The notifications and the handlers of the stream are
left out, and so are `force_kill`, which the thread only takes while it is closed, and what the
streams hold.

`on_tune_start` holds the lock, so that nothing else of the manager runs until it is done. `on_tune`
and `on_tune_stop` hold none: other requests come in wherever they wait. A `tune_stop` that is sent
without waiting for the reply is one more request.

* `TuneThread`: its state, and `on_tune` in pieces.
* `TuneRun`, `StopRun`, `StartRun`: the requests at work.
* `TunerControl`: the manager, with its thread and the replies it has given.
* `onTune`, `onTuneStart`, `onTuneStop`, …: the requests and what comes after.
* `ControlOp`, `step`: all of these as steps.
-/

namespace AutoRec

/-- `tune_thread::state`. -/
inductive ThreadState
  | closed
  | opened
  | tuneBegined
  | tuned
  | tuneEnded
deriving DecidableEq, Repr

/-- `client_iface::tuner_state`. -/
inductive TunerState
  | tuningBegin
  | tuningSuccess
  | tuningErrorStop
  | tuneStop
deriving DecidableEq, Repr

/-! ## The thread -/

/-- `tune_thread`: `isBusy` while `on_tune` has it, for the frequency of `param`. -/
structure TuneThread where
  state : ThreadState
  isBusy : Bool
  freq : ℕ
deriving DecidableEq, Repr

namespace TuneThread

/-- The state that `on_tune_stop` asks for. -/
def isInLoop (th : TuneThread) : Bool := decide (th.state = .tuned ∨ th.state = .tuneBegined)

/-- Tuned for `freq`. -/
def IsTunedFor (th : TuneThread) (freq : ℕ) : Prop := th.state = .tuned ∧ th.freq = freq

instance (th : TuneThread) (freq : ℕ) : Decidable (th.IsTunedFor freq) :=
  inferInstanceAs (Decidable (_ ∧ _))

/-- `on_tune`, up to its reply; `isForked` is that the settings have a command for the tuner, and
that the pipes and the process can be made. -/
def onTune (th : TuneThread) (freq : ℕ) (isForked : Bool) : Bool × TuneThread :=
  if th.state ≠ .closed then (false, th)
  else if isForked then (true, ⟨.opened, true, freq⟩)
  else (false, th)

/-- `on_tune`, behind its reply. -/
def onTuneBegin (th : TuneThread) : Option TuneThread :=
  if th.state = .opened then some { th with state := .tuneBegined } else none

/-- The loop of `on_tune` reads from the process. -/
def onRead (th : TuneThread) : Option TuneThread :=
  if th.isInLoop then some { th with state := .tuned } else none

/-- The loop of `on_tune` is left. -/
def onBreak (th : TuneThread) : Option TuneThread :=
  if th.isInLoop then some { th with state := .tuneEnded } else none

/-- The end of `on_tune`. -/
def onTuneEnd (th : TuneThread) : Option TuneThread :=
  if th.state = .tuneEnded then some { th with state := .closed, isBusy := false } else none

end TuneThread

/-! ## The manager -/

/-- Where an `on_tune` is. -/
inductive TunePhase
  | stopRequested
  | stopping
  | stopReplied (ok : Bool)
  | startRequested
  | starting
  | startReplied (ok : Bool)
  | ended
deriving DecidableEq, Repr

/-- An `on_tune`, for `wk_freq`. -/
structure TuneRun where
  freq : ℕ
  phase : TunePhase
deriving DecidableEq, Repr

/-- An `on_tune_stop` that waits, and the `on_tune` it works for. -/
structure StopRun where
  caller : Option ℕ
  chkcnt : ℕ
deriving DecidableEq, Repr

/-- Where an `on_tune_start` is. -/
inductive StartPhase
  /-- The thread has not taken its request yet. -/
  | requested
  | replied (ok : Bool)
  | polling (chkcnt : ℕ)
deriving DecidableEq, Repr

/-- An `on_tune_start`, and the `on_tune` it works for. -/
structure StartRun where
  freq : ℕ
  caller : Option ℕ
  phase : StartPhase
deriving DecidableEq, Repr

/-- A reply of `on_tune`, with the thread as it is then, or of `on_tune_stop`, with `freq_`. -/
inductive ControlReply
  | tune (freq : ℕ) (ok : Bool) (thread : TuneThread)
  | tuneStop (ok : Bool) (freq : ℕ)
deriving DecidableEq, Repr

/-- `tuner_control::manager`, with the thread. -/
structure TunerControl where
  freq : ℕ
  state : TunerState
  isReqStop : Bool
  start : Option StartRun
  tunes : List TuneRun
  stops : List StopRun
  thread : TuneThread
  replies : List ControlReply
deriving DecidableEq, Repr

namespace TunerControl

/-- The constructors. -/
def init : TunerControl where
  freq := 0
  state := .tuneStop
  isReqStop := false
  start := none
  tunes := []
  stops := []
  thread := ⟨.closed, false, 0⟩
  replies := []

variable (s : TunerControl)

/-- The `on_tune` that a request works for goes on. -/
def setPhase (caller : Option ℕ) (phase : TunePhase) : TunerControl :=
  match caller with
  | some k => { s with tunes := s.tunes.modify k fun r => { r with phase := phase } }
  | none => s

/-- A reply of `on_tune`. -/
def replyTune (freq : ℕ) (ok : Bool) : TunerControl :=
  { s with replies := s.replies ++ [ControlReply.tune freq ok s.thread] }

/-- A reply of `on_tune_stop`. -/
def replyTuneStop (caller : Option ℕ) (ok : Bool) : TunerControl :=
  ({ s with replies := s.replies ++ [ControlReply.tuneStop ok s.freq] } : TunerControl).setPhase caller
    (.stopReplied ok)

/-! ## Tune -/

/-- `on_tune`, up to its first request. -/
def onTune (wkFreq : ℕ) : TunerControl :=
  if s.freq = wkFreq then s.replyTune wkFreq true
  else { s with tunes := s.tunes ++ [⟨wkFreq, .stopRequested⟩] }

/-- `on_tune`, behind the replies to its requests. -/
def onTuneReply (k : ℕ) : Option TunerControl :=
  match s.tunes[k]? with
  | some ⟨_, .stopReplied true⟩ => some (s.setPhase (some k) .startRequested)
  | some ⟨wkFreq, .stopReplied false⟩ => some ((s.setPhase (some k) .ended).replyTune wkFreq false)
  | some ⟨wkFreq, .startReplied ok⟩ => some ((s.setPhase (some k) .ended).replyTune wkFreq ok)
  | _ => none

/-! ## Tune start -/

/-- `on_tune_start`, up to its request. -/
def onTuneStart (startFreq : ℕ) (caller : Option ℕ) : TunerControl :=
  { s with state := .tuningBegin, start := some ⟨startFreq, caller, .requested⟩ }

/-- The end of `on_tune_start`. -/
def endTuneStart (r : StartRun) (tuned : Bool) : TunerControl :=
  let s := { s with start := none }
  if tuned then
    ({ s with state := .tuningSuccess, freq := r.freq } : TunerControl).setPhase r.caller
      (.startReplied true)
  else ({ s with state := .tuningErrorStop } : TunerControl).setPhase r.caller (.startReplied false)

/-- `on_tune_start`, behind the reply of the thread, and then in each turn of its loop. -/
def onTuneStartTurn : Option TunerControl :=
  match s.start with
  | some r =>
    match r.phase with
    | .replied true => some { s with start := some { r with phase := .polling 0 } }
    | .replied false => some (s.endTuneStart r false)
    | .polling chkcnt =>
      if chkcnt ≤ 40 then
        if s.thread.state = .tuned then some (s.endTuneStart r true)
        else some { s with start := some { r with phase := .polling (chkcnt + 1) } }
      else some (s.endTuneStart r false)
    | .requested => none
  | none => none

/-! ## Tune stop -/

/-- `on_tune_stop`, up to its loop. -/
def onTuneStop (caller : Option ℕ) : TunerControl :=
  if s.thread.isInLoop then { s with isReqStop := true, stops := s.stops ++ [⟨caller, 0⟩] }
  else
    { ({ s with state := .tuneStop } : TunerControl).replyTuneStop caller true with
      isReqStop := false }

/-- `on_tune_stop`, in a turn of its loop. -/
def onTuneStopTurn (j : ℕ) : Option TunerControl :=
  match s.stops[j]? with
  | some r =>
    if r.chkcnt < 300 then
      if s.thread.state = .closed then
        some
          { ({ s with freq := 0, state := .tuneStop, stops := s.stops.eraseIdx j } :
              TunerControl).replyTuneStop r.caller true with
            isReqStop := false }
      else some { s with stops := s.stops.set j { r with chkcnt := r.chkcnt + 1 } }
    else
      some
        { ({ s with stops := s.stops.eraseIdx j } : TunerControl).replyTuneStop r.caller false with
          isReqStop := false }
  | none => none

/-! ## The thread takes the request -/

/-- `on_tune` of the thread. -/
def onThreadTune (isForked : Bool) : Option TunerControl :=
  match s.start with
  | some r =>
    if r.phase = .requested ∧ s.thread.isBusy = false then
      some
        { s with
          thread := (s.thread.onTune r.freq isForked).2
          start := some { r with phase := .replied (s.thread.onTune r.freq isForked).1 } }
    else none
  | none => none

end TunerControl

/-! ## Steps -/

/-- A request, a request of an `on_tune` that is taken, a piece of one of the functions, or a piece
of the thread. -/
inductive ControlOp
  | tune (freq : ℕ)
  | tuneStart (freq : ℕ)
  | tuneStop
  | takeStop (k : ℕ)
  | takeStart (k : ℕ)
  | tuneReply (k : ℕ)
  | tuneStartTurn
  | tuneStopTurn (j : ℕ)
  | threadTune (isForked : Bool)
  | threadBegin
  | threadRead
  /-- The thread finds `is_req_stop_`. -/
  | threadStop
  /-- The process is at its end, or cannot be read. -/
  | threadBreak
  | threadEnd
deriving DecidableEq, Repr

namespace TunerControl

/-- A step of the manager without the lock being held. -/
def stepFree (s : TunerControl) : ControlOp → Option TunerControl
  | .tune freq => some (s.onTune freq)
  | .tuneStart freq => some (s.onTuneStart freq none)
  | .tuneStop => some (s.onTuneStop none)
  | .takeStop k =>
    match s.tunes[k]? with
    | some ⟨_, .stopRequested⟩ => some ((s.setPhase (some k) .stopping).onTuneStop (some k))
    | _ => none
  | .takeStart k =>
    match s.tunes[k]? with
    | some ⟨wkFreq, .startRequested⟩ =>
      some ((s.setPhase (some k) .starting).onTuneStart wkFreq (some k))
    | _ => none
  | .tuneReply k => s.onTuneReply k
  | .tuneStopTurn j => s.onTuneStopTurn j
  | _ => none

/-- **A step.** -/
def step (s : TunerControl) (op : ControlOp) : Option TunerControl :=
  match op with
  | .threadTune isForked => s.onThreadTune isForked
  | .threadBegin => s.thread.onTuneBegin.map fun th => { s with thread := th }
  | .threadRead => s.thread.onRead.map fun th => { s with thread := th }
  | .threadStop =>
    if s.isReqStop then s.thread.onBreak.map fun th => { s with thread := th } else none
  | .threadBreak => s.thread.onBreak.map fun th => { s with thread := th }
  | .threadEnd => s.thread.onTuneEnd.map fun th => { s with thread := th }
  | .tuneStartTurn => s.onTuneStartTurn
  | op => if s.start.isNone then s.stepFree op else none

end TunerControl

end AutoRec
