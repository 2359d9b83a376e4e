import AutoRec.Lib.Machine
import AutoRec.Common.Group

/-!
# The tuner service

`tuner_service::manager` (`tuner_service/tuner_service.cpp`): modules open and close tuners, and
tune them. Logging is left out, and so is the channel, which is only passed on.

A request that waits for another module holds the lock of the service, except `tune_with_retry`,
which sends `tune` to the service itself. While the lock is held nothing but the reply waited for
comes in.

* `Resource`, `TunerService`: the tuners, the lock, and the retries.
* `allocateRoundRobin`, `release`, `preCheck`: the allocation.
* `onOpen`, `onClose`, `onTune`, `onTuneWithRetry`, `onTuneStop`, …: the requests and what comes
  after.
* `TunerOp`, `step`: all of these as steps.
-/

namespace AutoRec

/-- `modules::module_id`. -/
inductive ModuleId
  | tuneThread
  | tuneThread1
  | tuneThread2
  | tuneThread3
  | tunerControl
  | tunerControl1
  | tunerControl2
  | tunerControl3
  | psisiManager
  | psisiManager1
  | psisiManager2
  | psisiManager3
  | tunerService
  | recManager
  | channelManager
  | eventScheduleManager
  | eventSearch
  | viewingManager
  | commandServer
  | max
deriving DecidableEq, Repr

/-- The modules, by the index of their thread. -/
def ModuleId.all : List ModuleId :=
  [.tuneThread, .tuneThread1, .tuneThread2, .tuneThread3, .tunerControl, .tunerControl1,
    .tunerControl2, .tunerControl3, .psisiManager, .psisiManager1, .psisiManager2, .psisiManager3,
    .tunerService, .recManager, .channelManager, .eventScheduleManager, .eventSearch,
    .viewingManager, .commandServer]

/-- `caller_of`, for the index of the thread that a request comes from; all that are not modules are
`max`. -/
def callerOf (threadIdx : ℕ) : ModuleId := ModuleId.all.getD threadIdx .max

/-- `client_priority`. -/
inductive ClientPriority
  | other
  | command
  | eventSchedule
  | liveView
  | channelScan
  | recording
deriving DecidableEq, Repr

/-- `get_priority`. -/
def getPriority : ModuleId → ClientPriority
  | .recManager => .recording
  | .eventScheduleManager => .eventSchedule
  | .channelManager => .channelScan
  | .commandServer => .command
  | _ => .other

/-- `resource_t`. -/
structure Resource where
  tunerId : ℕ
  moduleId : ModuleId
  priority : ClientPriority
  isNowTuned : Bool
deriving DecidableEq, Repr

/-- `clear`. -/
def Resource.clear : Resource := ⟨0xff, .max, .other, false⟩

/-- An entry that is given to `m`. -/
def Resource.allocate (r : Resource) (id : ℕ) (m : ModuleId) : Resource :=
  { r with tunerId := id, moduleId := m, priority := getPriority m }

/-- What holds the lock: which tuner, what it waits for, and which `tune_with_retry` it works for.
-/
inductive Locked
  /-- `tune`, for the reply of the tuner control. -/
  | tune (tunerId : ℕ) (retryIdx : Option ℕ)
  /-- `tune`, for the state of the PSI/SI manager; it has been asked `retry` times. -/
  | psisi (tunerId retry : ℕ) (retryIdx : Option ℕ)
  /-- `tune`, which has failed, for the tuner control to stop. -/
  | giveUp (tunerId : ℕ) (retryIdx : Option ℕ)
  /-- `tune_stop`, for the tuner control to stop. -/
  | tuneStop (tunerId : ℕ)
deriving DecidableEq, Repr

/-- What a `tune_with_retry` waits for. -/
inductive RetryWait
  /-- Its request has not been taken yet. -/
  | requested
  | running
  /-- The reply has not been taken yet. -/
  | replied (ok : Bool)
  | ended
deriving DecidableEq, Repr

/-- A `tune_with_retry`. -/
structure RetryRun where
  tunerId : ℕ
  callerModuleId : ModuleId
  retry : ℕ
  wait : RetryWait
deriving DecidableEq, Repr

/-- `tuner_service::manager`. -/
structure TunerService where
  tunerResourceMax : ℕ
  resourceAllocates : List Resource
  nextAllocateTunerId : ℕ
  locked : Option Locked
  retries : List RetryRun
deriving DecidableEq, Repr

namespace TunerService

/-- `on_module_up`, with the commands for the tuners that the settings have been loaded with. -/
def moduleUp (tunerHalAllocates : List String) : TunerService where
  tunerResourceMax := (resizeTunerHalAllocates tunerHalAllocates).length
  resourceAllocates := .replicate (resizeTunerHalAllocates tunerHalAllocates).length .clear
  nextAllocateTunerId := 0
  locked := none
  retries := []

variable (s : TunerService)

/-! ## The allocation -/

/-- The next tuner, in a `uint8_t`. -/
def setNext : TunerService :=
  { s with
    nextAllocateTunerId :=
      if (s.nextAllocateTunerId + 1) % 256 = s.tunerResourceMax then 0
      else (s.nextAllocateTunerId + 1) % 256 }

/-- The entry of a tuner, updated. -/
def updResource (i : ℕ) (f : Resource → Resource) : TunerService :=
  { s with resourceAllocates := s.resourceAllocates.modify i f }

/-- The loop of `allocate_round_robin`, in its turn `n`; `none` is an access behind the entries, or
that the turns do not suffice. -/
def allocateLoop (m : ModuleId) (initId : ℕ) : ℕ → ℕ → TunerService → Option (ℕ × TunerService)
  | 0, _, _ => none
  | fuel + 1, n, s =>
    if initId = s.nextAllocateTunerId ∧ n ≠ 0 then some (0xff, s)
    else
      let id := s.nextAllocateTunerId
      match s.resourceAllocates[id]? with
      | none => none
      | some r =>
        if r.tunerId = 0xff then
          some (id, (s.updResource id fun r => r.allocate id m).setNext)
        else allocateLoop m initId fuel (n + 1) s.setNext

/-- `allocate_round_robin`; `0xff` is no tuner. -/
def allocateRoundRobin (m : ModuleId) : Option (ℕ × TunerService) :=
  allocateLoop m s.nextAllocateTunerId (s.tunerResourceMax + 1) 0 s

/-- `release`. -/
def release (tunerId : ℕ) : Bool × TunerService :=
  if tunerId < s.tunerResourceMax then
    if s.resourceAllocates[tunerId]?.any Resource.isNowTuned then (false, s)
    else (true, s.updResource tunerId fun _ => .clear)
  else (false, s)

/-- `pre_check`. -/
def preCheck (tunerId : ℕ) (m : ModuleId) (isReqTune : Bool) : Bool :=
  decide (tunerId < s.tunerResourceMax) &&
    s.resourceAllocates[tunerId]?.any fun r =>
      decide (r.tunerId = tunerId) && decide (r.moduleId = m) &&
        if isReqTune then !r.isNowTuned else r.isNowTuned

/-! ## Requests -/

/-- `on_open`, with the tuner that it replies. -/
def onOpen (caller : ModuleId) : Option (Option ℕ × TunerService) :=
  (s.allocateRoundRobin caller).map fun r => (if r.1 ≠ 0xff then some r.1 else none, r.2)

/-- `on_close`, with its reply. -/
def onClose (tunerId : ℕ) : Bool × TunerService := s.release tunerId

/-- A reply to `tune`. -/
def replyTune (retryIdx : Option ℕ) (ok : Bool) : TunerService :=
  match retryIdx with
  | some k => { s with retries := s.retries.modify k fun r => { r with wait := .replied ok } }
  | none => s

/-- `on_tune`, up to the request to the tuner control. -/
def onTune (tunerId : ℕ) (callerModuleId : ModuleId) (retryIdx : Option ℕ) : TunerService :=
  if s.preCheck tunerId callerModuleId true then { s with locked := some (.tune tunerId retryIdx) }
  else s.replyTune retryIdx false

/-- `on_tune`, behind the reply of the tuner control. -/
def onTuneReply (tunerId : ℕ) (retryIdx : Option ℕ) (ok : Bool) : TunerService :=
  if ok then { s with locked := some (.psisi tunerId 0 retryIdx) }
  else ({ s with locked := none } : TunerService).replyTune retryIdx false

/-- `on_tune`, behind a reply of the PSI/SI manager. -/
def onPsisiState (tunerId retry : ℕ) (retryIdx : Option ℕ) (ready : Bool) : TunerService :=
  if ready then
    (({ s with locked := none } : TunerService).updResource tunerId fun r =>
      { r with isNowTuned := true }).replyTune retryIdx true
  else if retry + 1 ≤ 75 then { s with locked := some (.psisi tunerId (retry + 1) retryIdx) }
  else { s with locked := some (.giveUp tunerId retryIdx) }

/-- `on_tune_with_retry`, up to its first request. -/
def onTuneWithRetry (tunerId : ℕ) (caller : ModuleId) : TunerService :=
  if s.preCheck tunerId caller true then
    { s with retries := s.retries ++ [⟨tunerId, caller, 3, .requested⟩] }
  else s

/-- `on_tune_with_retry`, behind the reply to one of its requests. -/
def onRetryReply (k : ℕ) (ok : Bool) : TunerService :=
  { s with
    retries := s.retries.modify k fun r =>
      if ok then { r with wait := .ended }
      else if 0 < r.retry then { r with retry := r.retry - 1, wait := .requested }
      else { r with wait := .ended } }

/-- `on_tune_stop`, up to the request to the tuner control. -/
def onTuneStop (tunerId : ℕ) (caller : ModuleId) : TunerService :=
  if s.preCheck tunerId caller false then { s with locked := some (.tuneStop tunerId) } else s

/-- `on_tune_stop`, behind the reply of the tuner control. -/
def onTuneStopReply (tunerId : ℕ) (ok : Bool) : TunerService :=
  let s := { s with locked := none }
  if ok then s.updResource tunerId fun r => { r with isNowTuned := false } else s

end TunerService

/-! ## Steps -/

/-- A request, with the index of the thread it comes from, or the reply of another module. -/
inductive TunerOp
  | openReq (caller : ℕ)
  | closeReq (caller tunerId : ℕ)
  | tune (caller tunerId : ℕ)
  | tuneWithRetry (caller tunerId : ℕ)
  | tuneStop (caller tunerId : ℕ)
  /-- The request of a `tune_with_retry` is taken, and the reply to it. -/
  | retryTune (k : ℕ)
  | retryReply (k : ℕ)
  /-- The tuner control replies to `tune`, the PSI/SI manager to `get_state`, the tuner control to
  `tune_stop`. -/
  | tuneReply (ok : Bool)
  | psisiState (ready : Bool)
  | tuneStopReply (ok : Bool)
deriving DecidableEq, Repr

namespace TunerService

/-- A step without the lock being held. Only the service itself sends requests from its thread. -/
def stepFree (s : TunerService) : TunerOp → Option TunerService
  | .openReq caller => (s.onOpen (callerOf caller)).map Prod.snd
  | .closeReq _ tunerId => some (s.onClose tunerId).2
  | .tune caller tunerId =>
    if callerOf caller = .tunerService then none else some (s.onTune tunerId (callerOf caller) none)
  | .tuneWithRetry caller tunerId =>
    if callerOf caller = .tunerService then none
    else some (s.onTuneWithRetry tunerId (callerOf caller))
  | .tuneStop caller tunerId => some (s.onTuneStop tunerId (callerOf caller))
  | .retryTune k =>
    match s.retries[k]? with
    | some ⟨tunerId, callerModuleId, _, .requested⟩ =>
      some (({ s with
        retries := s.retries.modify k fun r => { r with wait := .running } } : TunerService).onTune
          tunerId callerModuleId (some k))
    | _ => none
  | .retryReply k =>
    match s.retries[k]? with
    | some ⟨_, _, _, .replied ok⟩ => some (s.onRetryReply k ok)
    | _ => none
  | _ => none

/-- **A step.** -/
def step (s : TunerService) (op : TunerOp) : Option TunerService :=
  match s.locked, op with
  | none, op => s.stepFree op
  | some (.tune tunerId retryIdx), .tuneReply ok => some (s.onTuneReply tunerId retryIdx ok)
  | some (.psisi tunerId retry retryIdx), .psisiState ready =>
    some (s.onPsisiState tunerId retry retryIdx ready)
  | some (.giveUp _ retryIdx), .tuneStopReply _ =>
    some (({ s with locked := none } : TunerService).replyTune retryIdx false)
  | some (.tuneStop tunerId), .tuneStopReply ok => some (s.onTuneStopReply tunerId ok)
  | _, _ => none

end TunerService

end AutoRec
