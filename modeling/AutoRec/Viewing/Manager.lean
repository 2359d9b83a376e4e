import AutoRec.Common.Etime
import AutoRec.Common.Group
import AutoRec.Lib.Machine
import Mathlib.Logic.Function.Basic

/-!
# The viewing manager and the stream handlers

`viewing::manager` (`viewing_manager/viewing_manager.cpp`) and, for each group, the
`stream_handler::handler` that it drives (`stream_handler/stream_handler.h`). What is viewed, the
stream itself, the files, and the pipes and the command of the child process are left out. The
replies of the other modules are part of the steps. A call of `on_ts_received` is one step.

* `Progress`, with `next` and `notice`: what `on_ts_received` does.
* `GroupState`: what belongs to one group, with the functions on it.
* `Manager`, `Op`, `step`: all groups, and the one `on_start_viewing` that holds the lock.
-/

namespace AutoRec

namespace Viewing

/-! ## The stream handler -/

/-- `handler::progress`. -/
inductive Progress
  | init
  | preProcess
  | processing
  | processEndSuccess
  | processEndError
  | postProcess
  | postProcessForcibly
deriving DecidableEq, Repr

namespace Progress

/-- The progress behind `on_ts_received`. -/
def next : Progress → Progress
  | .init => .init
  | .preProcess | .processing => .processing
  | .processEndSuccess | .processEndError => .postProcess
  | .postProcess | .postProcessForcibly => .init

/-- `on_ts_received` sends a notice with the progress it has found. -/
def notice (p : Progress) : Option Progress :=
  if p = .init ∨ p = .processing then none else some p

/-- The notice ends a session. -/
def isPost (p : Progress) : Bool := p == .postProcess || p == .postProcessForcibly

/-- The session is to be ended. -/
def isEnd (p : Progress) : Bool := p == .processEndSuccess || p == .processEndError || p.isPost

end Progress

/-! ## One group -/

/-- `entry`. -/
structure Entry where
  autoStop : Bool
  autoStopTime : Etime
  isUsed : Bool
deriving DecidableEq, Repr

/-- `entry::clear`. -/
def Entry.clear : Entry := ⟨false, .clear, false⟩

/-- `entry::set`. -/
def Entry.set (e : Entry) : Entry := { e with isUsed := true }

/-- The child process, as `forker` has it. -/
inductive Child
  | none
  | alive
  | dead
deriving DecidableEq, Repr

/-- A message in the queue of the manager. -/
inductive Message
  | stopViewing
  | noticeByStreamHandler (progress : Progress)
deriving DecidableEq, Repr

/-- Who has opened a tuner. -/
inductive Owner
  | free
  | viewing
  | other
deriving DecidableEq, Repr

/-- A group: `viewings_`, the handler, `forker_`, the messages that are queued for it, its tuner,
and the `close` requests of the manager that the tuner service has not handled yet. `sessions` have
been started; `posts` has for each `post_process` notice the number of the session it is sent in. -/
structure GroupState where
  viewing : Entry
  progress : Progress
  child : Child
  queue : List Message
  owner : Owner
  closes : ℕ
  sessions : ℕ
  posts : List ℕ
deriving DecidableEq, Repr

namespace GroupState

/-- A group at the beginning. -/
def initial : GroupState := ⟨.clear, .init, .none, [], .free, 0, 0, []⟩

variable (s : GroupState)

/-- `on_ts_received`. -/
def onTsReceived : GroupState :=
  { s with
    progress := s.progress.next
    queue := s.queue ++ (s.progress.notice.map Message.noticeByStreamHandler).toList
    posts := if s.progress.isPost then s.posts ++ [s.sessions] else s.posts }

/-- A message is sent to the manager. -/
def send (message : Message) : GroupState := { s with queue := s.queue ++ [message] }

/-- `tune_stop` and `close` are sent to the tuner service. -/
def sendClose : GroupState := { s with closes := s.closes + 1 }

/-- `on_notice_by_stream_handler`. -/
def onNotice (progress : Progress) : GroupState :=
  if progress.isPost then { s with child := .none, viewing := .clear }.sendClose else s

/-- `on_stop_viewing`. -/
def onStopViewing : GroupState :=
  if s.viewing.isUsed then { s with progress := .processEndSuccess } else s

/-- The first message is handled. -/
def deliver (isTuner : Bool) : Option GroupState :=
  match s.queue with
  | [] => none
  | .stopViewing :: queue =>
    some (if isTuner then { s with queue := queue }.onStopViewing else { s with queue := queue })
  | .noticeByStreamHandler progress :: queue => some ({ s with queue := queue }.onNotice progress)

/-- The first loop of `on_check_loop`, for the group. -/
def checkAutoStop (now : ℤ) : GroupState :=
  if s.viewing.isUsed && s.viewing.autoStop &&
      s.viewing.autoStopTime.le (Etime.setCurrentTime now) then s.send .stopViewing
  else s

/-- The second loop of `on_check_loop`, for the group. -/
def checkChild : GroupState :=
  match s.child with
  | .dead => { s with child := .none, progress := .postProcessForcibly }
  | .none | .alive => s

/-- `on_set_option`. -/
def onSetOption (autoStopGracePeriodSec now : ℤ) : GroupState :=
  if s.viewing.isUsed && decide (0 < autoStopGracePeriodSec) then
    { s with
      viewing := { s.viewing with
        autoStop := true
        autoStopTime := (Etime.setCurrentTime now).addSec autoStopGracePeriodSec } }
  else s

/-- `on_receive_notify`, when no PAT comes in any more: the handler is called at once. -/
def onPatNotDetected : GroupState :=
  if s.viewing.isUsed then { s with progress := .postProcessForcibly }.onTsReceived else s

/-- `on_start_viewing`, behind `open`. -/
def onOpened : GroupState :=
  { s with owner := .viewing, viewing := if s.viewing.isUsed then .clear else s.viewing }

/-- `do_error`. -/
def doError : GroupState := { s with viewing := .clear }.sendClose

/-- The tuner service has handled a `close`. -/
def close (ok : Bool) : GroupState :=
  { s with closes := s.closes - 1, owner := if ok then .free else s.owner }

/-- `on_start_viewing`, behind the name of the service. -/
def startViewing (isPiped isForked : Bool) : GroupState :=
  let s := { s with viewing := s.viewing.set }
  if s.progress ≠ .init then s.doError
  else if !isPiped then s.doError
  else if !isForked then s.doError
  else { s with child := .alive, progress := .preProcess, sessions := s.sessions + 1 }

end GroupState

/-! ## All groups -/

/-- What an `on_start_viewing` waits for, when its tuner is open. Before that it writes nothing. -/
inductive StartPhase
  | tuning
  | present (retry : ℕ)
  | serviceName
deriving DecidableEq, Repr

/-- `manager`; `starting` is the `on_start_viewing` that holds the lock, if its tuner is open. -/
structure Manager where
  tunerResourceMax : ℕ
  groups : Group → GroupState
  starting : Option (Group × StartPhase)

/-- The steps. -/
inductive Op
  /-- The reply to `open`. -/
  | opened (g : Group)
  | tuned (ok : Bool)
  | present (ok : Bool)
  /-- The reply to `get_service_name`, and whether there are pipes and a child. -/
  | serviceName (isPiped isForked : Bool)
  /-- Somebody sends `stop_viewing`. -/
  | stopViewing (g : Group)
  | setOption (g : Group) (autoStopGracePeriodSec now : ℤ)
  | checkLoop (now : ℤ)
  | patNotDetected (g : Group)
  | childExit (g : Group)
  | tsReceived (g : Group)
  /-- The manager handles the first message for the group. -/
  | deliver (g : Group)
  /-- The tuner service handles a `tune_stop` and a `close` of the manager; it can refuse the `close`,
  as long as the tuner has not stopped. The manager does not look at the reply. -/
  | close (g : Group) (ok : Bool)
  | openOther (g : Group)
  | closeOther (g : Group)
deriving DecidableEq

namespace Manager

/-- The manager after `on_module_up`. -/
def initial (tunerResourceMax : ℕ) : Manager := ⟨tunerResourceMax, fun _ => .initial, none⟩

variable (m : Manager)

/-- The state of one group is written. -/
def setGroup (g : Group) (s : GroupState) : Manager :=
  { m with groups := Function.update m.groups g s }

/-- An `on_start_viewing` goes on. -/
def setStarting (starting : Option (Group × StartPhase)) : Manager :=
  { m with starting := starting }

/-- The end of an `on_start_viewing` that fails. -/
def doError (g : Group) : Manager := (m.setGroup g (m.groups g).doError).setStarting none

/-- **A step.** -/
def step (m : Manager) : Op → Option Manager
  | .opened g =>
    -- the tuner service hands out a tuner that nobody has opened
    if m.starting.isSome ∨ m.tunerResourceMax ≤ g ∨ (m.groups g).owner ≠ .free then none
    else some ((m.setGroup g (m.groups g).onOpened).setStarting (some (g, .tuning)))
  | .tuned ok =>
    match m.starting with
    | some (g, .tuning) =>
      some (if ok then m.setStarting (some (g, .present 0)) else m.doError g)
    | _ => none
  | .present ok =>
    match m.starting with
    | some (g, .present retry) =>
      some (if ok then m.setStarting (some (g, .serviceName))
        else if retry + 1 ≤ 10 then m.setStarting (some (g, .present (retry + 1)))
        else m.doError g)
    | _ => none
  | .serviceName isPiped isForked =>
    match m.starting with
    | some (g, .serviceName) =>
      some ((m.setGroup g ((m.groups g).startViewing isPiped isForked)).setStarting none)
    | _ => none
  | .stopViewing g => some (m.setGroup g ((m.groups g).send .stopViewing))
  | .setOption g sec now =>
    some (if m.tunerResourceMax ≤ g then m else m.setGroup g ((m.groups g).onSetOption sec now))
  | .checkLoop now =>
    some { m with groups := fun g => ((m.groups g).checkAutoStop now).checkChild }
  | .patNotDetected g => some (m.setGroup g (m.groups g).onPatNotDetected)
  | .childExit g =>
    if (m.groups g).child = .alive then some (m.setGroup g { m.groups g with child := .dead })
    else none
  | .tsReceived g => some (m.setGroup g (m.groups g).onTsReceived)
  | .deliver g =>
    ((m.groups g).deliver (decide ((g : ℕ) < m.tunerResourceMax))).map fun s => m.setGroup g s
  | .close g ok =>
    if (m.groups g).closes = 0 then none
    else some (m.setGroup g ((m.groups g).close ok))
  | .openOther g =>
    if (m.groups g).owner = .free then some (m.setGroup g { m.groups g with owner := .other })
    else none
  | .closeOther g =>
    if (m.groups g).owner = .other then some (m.setGroup g { m.groups g with owner := .free })
    else none

end Manager

end Viewing

end AutoRec
