import AutoRec.EventSchedule.Container
import AutoRec.Lib.Machine

/-!
# The event schedule manager

`event_schedule::manager` (`event_schedule_manager/event_schedule_manager.cpp`). Logging, the
histories, the notifications, the saved files and the `tune_stop` and `close` sent at the end of an
execution are left out, and so are the requests that only read or dump. The replies of the other
modules and what is in the tables of the parser are part of the steps.

Every sequence of the module runs on one thread and gives it up only where it waits; what it finds
when it goes on is what the others have left.

* `ExecRun`: an `on_exec_cache_schedule`; `ForceRun`: an `on_cache_schedule_force_current_service`.
* `Manager`, with `check2execute`, `doExit`, `doError`, and the functions `on_…` in pieces.
* `Op`, `step`: the steps; `step_effect`, `execStep_effect`, `check2execute_cases`: what they do.
-/

namespace AutoRec

namespace EventSchedule

/-- `client_iface::cache_schedule_state`. -/
inductive CacheScheduleState
  | init
  | busy
  | ready
deriving DecidableEq, Repr

/-- What the manager reads of the settings. -/
structure Settings where
  isEnable : Bool
  startIntervalDay : ℤ
  startHour : ℤ
  startMin : ℤ
  timeoutMin : ℤ
  retryIntervalMin : ℤ
  tunerResourceMax : ℕ
deriving DecidableEq, Repr

/-- Where an `on_exec_cache_schedule` is: its request is in the queue, it waits for the reply to one
of its own requests, for the end of a wait, or it is over. -/
inductive ExecPhase
  | sent
  | streamName
  | opening
  | physicalCh
  | tuning
  | serviceInfos
  | enabling
  | polling
  | disabling (i : ℕ)
  | ended
deriving DecidableEq, Repr

namespace ExecPhase

/-- The tuner to be used has not been settled yet. -/
def isEarly (p : ExecPhase) : Bool := p == .sent || p == .streamName

/-- Only an execution that is not forced gets here. -/
def isNormal (p : ExecPhase) : Bool := p == .opening || p == .physicalCh || p == .tuning

end ExecPhase

/-- An `on_exec_cache_schedule`: the reserve it has been sent for, of which the message has the key,
and its local variables. -/
structure ExecRun where
  reserve : Reserve
  isForce : Bool
  groupId : UInt8
  workGroupId : Option UInt8
  serviceInfos : List ServiceKey
  isTimeouted : Bool
  phase : ExecPhase
deriving DecidableEq, Repr

/-- The request for a reserve. -/
def ExecRun.send (r : Reserve) : ExecRun := ⟨r, false, 0xff, none, [], false, .sent⟩

/-- The loop that disables the parser is over with this reply, and the cache is written. -/
def ExecRun.endsDisabling (x : ExecRun) (ok : Bool) : Bool :=
  match x.phase with
  | .disabling i => ok || decide (120 ≤ i + 1)
  | _ => false

/-- Where an `on_cache_schedule_force_current_service` is: it waits for the services, or until the
reserve it has made is done with. -/
inductive ForcePhase
  | serviceInfos
  | waiting (tmpReserve : Reserve)
  | ended
deriving DecidableEq, Repr

/-- An `on_cache_schedule_force_current_service`, with its message. -/
structure ForceRun where
  groupId : UInt8
  phase : ForcePhase
deriving DecidableEq, Repr

/-- `manager`. The `on_add_reserves` that are at work, each with its base time, and `stops`
sequences `on_stop_cache_schedule` wait. -/
structure Manager where
  settings : Settings
  state : CacheScheduleState
  container : Container
  latestDumpedKey : ServiceKey
  lastUpdateEITSched : Etime
  startTimeEITSched : Etime
  scheduleCacheNextDay : Etime
  reserves : List Reserve
  retryReserves : List Reserve
  executingReserve : Reserve
  isNeedStop : Bool
  forceCacheGroupId : UInt8
  adds : List Etime
  execs : List ExecRun
  forces : List ForceRun
  stops : ℕ
deriving DecidableEq, Repr

/-- What an `on_exec_cache_schedule` goes on with: the request is taken, a reply, or the end of the
wait. `tables` is what the parser has of each service when the cache is written. -/
inductive ExecLabel
  | start
  | streamName
  | opened (groupId : Option UInt8)
  | physicalCh (isFound : Bool)
  | tuned (ok : Bool)
  | serviceInfos (infos : Option (List ServiceKey))
  | enabled (ok : Bool)
  | wake
  | disabled (ok : Bool) (tables : ServiceKey → List Event)

/-- The steps. -/
inductive Op
  /-- A turn of `on_check_loop`. -/
  | checkLoop (today : Etime) (now : ℤ)
  | cacheSchedule (now : ℤ)
  /-- The reply to `get_channels`, with the first service of each channel. -/
  | addReserves (k : ℕ) (channels : Option (List ServiceKey))
  | exec (k : ℕ) (label : ExecLabel) (now : ℤ)
  | force (groupId : UInt8)
  /-- The reply to `get_current_service_infos`. -/
  | forceInfos (j : ℕ) (infos : Option (List ServiceKey)) (now : ℤ)
  | forceTurn (j : ℕ) (isShutdownRequested : Bool)
  | stop (isShutdownRequested : Bool)
  | stopTurn (isShutdownRequested : Bool)
  | parserNotice (now : ℤ)
  | dumpSchedule (key : ServiceKey)

namespace Manager

/-- The constructor and `on_module_up`, with what the file of the schedules holds. -/
def initial (settings : Settings) (container : Container) (today : Etime) : Manager where
  settings := settings
  state := .init
  container := container
  latestDumpedKey := ⟨0, 0, 0⟩
  lastUpdateEITSched := .clear
  startTimeEITSched := .clear
  scheduleCacheNextDay := today
  reserves := []
  retryReserves := []
  executingReserve := .clear
  isNeedStop := false
  forceCacheGroupId := 0xff
  adds := []
  execs := []
  forces := []
  stops := 0

variable (m : Manager)

/-! ## The check loop -/

/-- The first half of a turn of `on_check_loop`: the batch of the day. -/
def checkDay (today : Etime) : Manager :=
  if today = m.scheduleCacheNextDay then
    { m with
      adds := m.adds ++ [(today.addHour m.settings.startHour).addMin m.settings.startMin]
      scheduleCacheNextDay :=
        today.addDay (if m.settings.startIntervalDay ≤ 1 then 1 else m.settings.startIntervalDay) }
  else m

/-- What `check2execute_reserves` does with the reserve that it has taken out. -/
def take (d : Due) : Manager :=
  if d.isExecuted then
    { m with
      reserves := d.rest
      executingReserve := d.reserve
      execs := m.execs ++ [ExecRun.send d.reserve] }
  else { m with reserves := d.rest }

/-- `check2execute_reserves`. -/
def check2execute (now : ℤ) : Manager :=
  if m.executingReserve.isValid then m
  else ((takeDue (Etime.setCurrentTime now) m.reserves).map m.take).getD m

/-- A turn of `on_check_loop`. -/
def onCheckLoop (today : Etime) (now : ℤ) : Manager :=
  if m.settings.isEnable then (m.checkDay today).check2execute now else m.checkDay today

/-! ## Batches -/

/-- The type of the reserve for the channel `i` of `chNum`. -/
def batchType (i chNum : ℕ) : ReserveType :=
  let type : ReserveType := .normal ||| .rFlg
  let type := if i = 0 then type ||| .sFlg ||| .nFlg else type
  if i + 1 = chNum then type ||| .eFlg ||| .nFlg else type

/-- The reserves of a batch, one minute apart: those of the channels from `i` on, of `chNum`. -/
def batch (chNum : ℕ) : List ServiceKey → ℕ → Etime → List Reserve
  | [], _, _ => []
  | key :: channels, i, startTime =>
    ⟨key, startTime, batchType i chNum⟩ :: batch chNum channels (i + 1) (startTime.addMin 1)

/-- `on_add_reserves`, from the reply to `get_channels` on. -/
def onAddReserves (k : ℕ) (channels : Option (List ServiceKey)) : Option Manager :=
  m.adds[k]?.map fun baseTime =>
    { m with
      adds := m.adds.eraseIdx k
      reserves :=
        addReserves (batch (channels.getD []).length (channels.getD []) 0 baseTime) m.reserves }

/-! ## The execution -/

/-- An `on_exec_cache_schedule` goes on. -/
def setExec (k : ℕ) (x : ExecRun) : Manager := { m with execs := m.execs.set k x }

/-- The end of a batch, in `do_exit`. -/
def endBatch : Manager :=
  { m with
    state := .ready
    reserves := addReserves (markRetries m.retryReserves) m.reserves
    retryReserves := [] }

/-- `do_exit`. -/
def doExit : Manager :=
  if m.executingReserve.isEnd then { m.endBatch with executingReserve := .clear }
  else { m with executingReserve := .clear }

/-- The reserve with which `do_error` tries a service again. -/
def retryReserve (key : ServiceKey) (now : ℤ) : Reserve :=
  ⟨key, (Etime.setCurrentTime now).addMin m.settings.retryIntervalMin, .normal⟩

/-- `do_error`, up to `do_exit`. -/
def pushRetry (key : ServiceKey) (now : ℤ) : Manager :=
  if m.executingReserve.isRetried then
    { m with retryReserves := m.retryReserves ++ [m.retryReserve key now] }
  else m

/-- `do_error`. -/
def doError (k : ℕ) (x : ExecRun) (now : ℤ) : Manager :=
  (m.pushRetry x.reserve.key now).doExit.setExec k { x with phase := .ended }

/-- `on_exec_cache_schedule`, up to its first request. -/
def execStart (k : ℕ) (x : ExecRun) : Manager :=
  let x := { x with isForce := m.executingReserve.isForce, phase := .streamName }
  if m.executingReserve.isStart then { m with state := .busy, retryReserves := [] }.setExec k x
  else m.setExec k x

/-- Behind the name of the stream: a forced execution takes the tuner of the request. -/
def execStreamName (k : ℕ) (x : ExecRun) : Manager :=
  if x.isForce then
    m.setExec k { x with workGroupId := some m.forceCacheGroupId, phase := .serviceInfos }
  else m.setExec k { x with phase := .opening }

/-- Behind `open`. -/
def execOpened (k : ℕ) (x : ExecRun) (groupId : Option UInt8) (now : ℤ) : Manager :=
  match groupId with
  | some g => m.setExec k { x with groupId := g, phase := .physicalCh }
  | none => m.doError k x now

/-- Behind `get_physical_channel_by_service_id`. -/
def execPhysicalCh (k : ℕ) (x : ExecRun) (isFound : Bool) (now : ℤ) : Manager :=
  if isFound then m.setExec k { x with phase := .tuning } else m.doError k x now

/-- Behind `tune_with_retry`. -/
def execTuned (k : ℕ) (x : ExecRun) (ok : Bool) (now : ℤ) : Manager :=
  if ok then m.setExec k { x with workGroupId := some x.groupId, phase := .serviceInfos }
  else m.doError k x now

/-- Behind `get_current_service_infos`, for at most 10 of them. -/
def execServiceInfos (k : ℕ) (x : ExecRun) (infos : Option (List ServiceKey)) (now : ℤ) :
    Manager :=
  match infos with
  | some (info :: infos) =>
    m.setExec k { x with serviceInfos := (info :: infos).take 10, phase := .enabling }
  | _ => m.doError k x now

/-- The head of the loop that waits for the tables. -/
def execPoll (k : ℕ) (x : ExecRun) : Manager :=
  if m.isNeedStop then m.setExec k { x with phase := .disabling 0 }
  else m.setExec k { x with phase := .polling }

/-- Behind `enable_parse_eit_sched`. -/
def execEnabled (k : ℕ) (x : ExecRun) (ok : Bool) (now : ℤ) : Manager :=
  if ok then { m with startTimeEITSched := Etime.setCurrentTime now }.execPoll k x
  else m.doError k x now

/-- Behind the wait for the tables. -/
def execWake (k : ℕ) (x : ExecRun) (now : ℤ) : Manager :=
  let tcur := Etime.setCurrentTime now
  if tcur.gt (m.lastUpdateEITSched.addSec 10) then m.setExec k { x with phase := .disabling 0 }
  else if tcur.gt (m.startTimeEITSched.addMin m.settings.timeoutMin) then
    m.setExec k { x with isTimeouted := true, phase := .disabling 0 }
  else m.execPoll k x

/-- `cache_schedule`, with the events that the tables have of the service. -/
def cacheSchedule (tables : ServiceKey → List Event) (key : ServiceKey) : List Event :=
  if key = ⟨0, 0, 0⟩ then []
  else ((tables key).filter fun e => e.eventId != 0).map fun e => { e with key := key }

/-- The events of one service are cached. -/
def cacheService (tables : ServiceKey → List Event) (c : Container) (key : ServiceKey) : Container :=
  if cacheSchedule tables key = [] then c
  else if c.hasScheduleMap key then
    (c.deleteScheduleMap key).addScheduleMap key (cacheSchedule tables key)
  else c.addScheduleMap key (cacheSchedule tables key)

/-- From the cache on. -/
def execCache (k : ℕ) (x : ExecRun) (tables : ServiceKey → List Event) (now : ℤ) : Manager :=
  let m := { m with container := x.serviceInfos.foldl (cacheService tables) m.container }
  if x.isTimeouted || m.isNeedStop then m.doError k x now
  else m.doExit.setExec k { x with phase := .ended }

/-- Behind the turn `i` of `disable_parse_eit_sched`. -/
def execDisabled (k : ℕ) (x : ExecRun) (i : ℕ) (ok : Bool) (tables : ServiceKey → List Event)
    (now : ℤ) : Manager :=
  if ok || decide (120 ≤ i + 1) then m.execCache k x tables now
  else m.setExec k { x with phase := .disabling (i + 1) }

/-- `on_exec_cache_schedule`, from one wait to the next. -/
def execStep (k : ℕ) (x : ExecRun) (label : ExecLabel) (now : ℤ) : Option Manager :=
  match x.phase, label with
  | .sent, .start => some (m.execStart k x)
  | .streamName, .streamName => some (m.execStreamName k x)
  | .opening, .opened groupId => some (m.execOpened k x groupId now)
  | .physicalCh, .physicalCh isFound => some (m.execPhysicalCh k x isFound now)
  | .tuning, .tuned ok => some (m.execTuned k x ok now)
  | .serviceInfos, .serviceInfos infos => some (m.execServiceInfos k x infos now)
  | .enabling, .enabled ok => some (m.execEnabled k x ok now)
  | .polling, .wake => some (m.execWake k x now)
  | .disabling i, .disabled ok tables => some (m.execDisabled k x i ok tables now)
  | _, _ => none

/-! ## Forced executions -/

/-- The end of an `on_cache_schedule_force_current_service`. -/
def endForce (j : ℕ) : Manager :=
  { m with
    forceCacheGroupId := 0xff
    forces := m.forces.modify j fun f => { f with phase := .ended } }

/-- `on_cache_schedule_force_current_service`, up to its request. -/
def onForce (groupId : UInt8) : Manager :=
  if groupId.toNat ≥ m.settings.tunerResourceMax then { m with forceCacheGroupId := 0xff }
  else { m with forceCacheGroupId := groupId, forces := m.forces ++ [⟨groupId, .serviceInfos⟩] }

/-- The reserve of an `on_cache_schedule_force_current_service`. -/
def tmpReserve (info : ServiceKey) (now : ℤ) : Reserve :=
  ⟨info, Etime.setCurrentTime now, .force ||| .sFlg ||| .eFlg⟩

/-- `on_cache_schedule_force_current_service`, behind its request. -/
def onForceInfos (j : ℕ) (infos : Option (List ServiceKey)) (now : ℤ) : Option Manager :=
  match m.forces[j]? with
  | some ⟨_, .serviceInfos⟩ =>
    match infos with
    | some (info :: _) =>
      some
        { m with
          reserves := addReserve (tmpReserve info now) m.reserves
          forces := m.forces.modify j fun f => { f with phase := .waiting (tmpReserve info now) } }
    | _ => some (m.endForce j)
  | _ => none

/-- `on_cache_schedule_force_current_service`, in a turn of its loop. -/
def onForceTurn (j : ℕ) (isShutdownRequested : Bool) : Option Manager :=
  match m.forces[j]? with
  | some ⟨_, .waiting tmpReserve⟩ =>
    if isShutdownRequested then some (m.endForce j)
    else if tmpReserve ∈ m.reserves then some m
    else if m.executingReserve = tmpReserve ∧ m.executingReserve.isValid then some m
    else some (m.endForce j)
  | _ => none

/-! ## Stop requests -/

/-- `on_stop_cache_schedule`, up to its wait. -/
def onStop (isShutdownRequested : Bool) : Manager :=
  if isShutdownRequested || !m.executingReserve.isValid then { m with isNeedStop := false }
  else { m with isNeedStop := true, stops := m.stops + 1 }

/-- `on_stop_cache_schedule`, in a turn of its loop. -/
def onStopTurn (isShutdownRequested : Bool) : Option Manager :=
  if m.stops = 0 then none
  else if isShutdownRequested || !m.executingReserve.isValid then
    some { m with isNeedStop := false, stops := m.stops - 1 }
  else some m

/-- **A step.** -/
def step (m : Manager) : Op → Option Manager
  | .checkLoop today now => some (m.onCheckLoop today now)
  | .cacheSchedule now => some { m with adds := m.adds ++ [Etime.setCurrentTime now] }
  | .addReserves k channels => m.onAddReserves k channels
  | .exec k label now => m.execs[k]?.bind fun x => m.execStep k x label now
  | .force groupId => some (m.onForce groupId)
  | .forceInfos j infos now => m.onForceInfos j infos now
  | .forceTurn j isShutdownRequested => m.onForceTurn j isShutdownRequested
  | .stop isShutdownRequested => some (m.onStop isShutdownRequested)
  | .stopTurn isShutdownRequested => m.onStopTurn isShutdownRequested
  | .parserNotice now => some { m with lastUpdateEITSched := Etime.setCurrentTime now }
  | .dumpSchedule key => some { m with latestDumpedKey := key }

/-! ## What a step does -/

variable {m m' : Manager} {k : ℕ} {x : ExecRun} {now : ℤ}

/-- What a piece of an execution that goes on does to its variables. -/
inductive RunStep (m : Manager) (x : ExecRun) : ExecRun → Prop
  | start : x.phase = .sent →
      RunStep m x { x with isForce := m.executingReserve.isForce, phase := .streamName }
  | forced : x.phase = .streamName → x.isForce = true →
      RunStep m x { x with workGroupId := some m.forceCacheGroupId, phase := .serviceInfos }
  | opening : x.phase = .streamName → x.isForce = false → RunStep m x { x with phase := .opening }
  | normal {g p} : x.phase.isNormal = true → p.isNormal = true →
      RunStep m x { x with groupId := g, phase := p }
  | tuned : x.phase = .tuning →
      RunStep m x { x with workGroupId := some x.groupId, phase := .serviceInfos }
  | later {infos b p} : x.phase.isEarly = false → x.phase ≠ .ended → p.isEarly = false →
      p.isNormal = false → p ≠ .ended →
      RunStep m x { x with serviceInfos := infos, isTimeouted := b, phase := p }

theorem RunStep.live {x' : ExecRun} (h : RunStep m x x') : x.phase ≠ .ended := by
  intro hended
  cases h with
  | start hphase | forced hphase | opening hphase | tuned hphase =>
    rw [hended] at hphase
    cases hphase
  | normal hphase =>
    rw [hended] at hphase
    cases hphase
  | later _ hphase => exact hphase hended

theorem RunStep.phase_ne {x' : ExecRun} (h : RunStep m x x') : x'.phase ≠ .ended := by
  cases h with
  | start | forced | opening | tuned => exact ExecPhase.noConfusion
  | normal _ hp =>
    rintro rfl
    cases hp
  | later _ _ _ _ hp => exact hp

/-- **What a piece of an execution does**: it only goes on, it opens the batch, or it is the end of
the execution, perhaps with a retry. -/
inductive ExecEffect (m : Manager) (k : ℕ) (x : ExecRun) (now : ℤ) : Manager → Prop
  | going {c t x'} : RunStep m x x' →
      ExecEffect m k x now { m with
        container := c, startTimeEITSched := t, execs := m.execs.set k x' }
  | opened {x'} : m.executingReserve.isStart = true → RunStep m x x' →
      ExecEffect m k x now { m with
        state := .busy, retryReserves := [], execs := m.execs.set k x' }
  | exit {c} : x.phase ≠ .ended → ExecEffect m k x now
      ({ m with container := c }.doExit.setExec k { x with phase := .ended })
  | error {c} : x.phase ≠ .ended → ExecEffect m k x now
      ({ m with container := c }.doError k x now)

theorem execStep_effect {label : ExecLabel} (h : m.execStep k x label now = some m') :
    ExecEffect m k x now m' := by
  have hlive : x.phase ≠ .ended := by
    intro hphase
    simp [execStep, hphase] at h
  have hlater : ∀ {p : ExecPhase}, p.isEarly = false → x.phase = p → x.phase.isEarly = false :=
    fun he hx => hx ▸ he
  unfold execStep at h
  split at h
  all_goals rename_i hphase
  all_goals cases h
  · unfold execStart
    dsimp only
    split
    · rename_i hstart
      exact .opened hstart (.start hphase)
    · exact .going (.start hphase)
  · unfold execStreamName
    split
    · rename_i hforce
      exact .going (.forced hphase hforce)
    · rename_i hforce
      exact .going (.opening hphase (Bool.eq_false_iff.mpr hforce))
  · unfold execOpened
    split
    · exact .going (.normal (hphase ▸ rfl) rfl)
    · exact .error hlive
  · unfold execPhysicalCh
    split
    · exact .going (.normal (hphase ▸ rfl) rfl)
    · exact .error hlive
  · unfold execTuned
    split
    · exact .going (.tuned hphase)
    · exact .error hlive
  · unfold execServiceInfos
    split
    · exact .going (.later (hlater rfl hphase) hlive rfl rfl ExecPhase.noConfusion)
    · exact .error hlive
  · unfold execEnabled execPoll
    split
    · split
      · exact .going (.later (hlater rfl hphase) hlive rfl rfl ExecPhase.noConfusion)
      · exact .going (.later (hlater rfl hphase) hlive rfl rfl ExecPhase.noConfusion)
    · exact .error hlive
  · have he := hlater rfl hphase
    unfold execWake execPoll
    dsimp only
    split
    · exact .going (.later he hlive rfl rfl ExecPhase.noConfusion)
    · split
      · exact .going (.later he hlive rfl rfl ExecPhase.noConfusion)
      · split
        · exact .going (.later he hlive rfl rfl ExecPhase.noConfusion)
        · exact .going (.later he hlive rfl rfl ExecPhase.noConfusion)
  · have he := hlater rfl hphase
    unfold execDisabled execCache
    dsimp only
    split
    · split
      · exact .error hlive
      · exact .exit hlive
    · exact .going (.later he hlive rfl rfl ExecPhase.noConfusion)

/-! ## The end of an execution -/

@[simp] theorem doExit_executingReserve : m.doExit.executingReserve = .clear := by
  unfold doExit
  split <;> rfl

@[simp] theorem doExit_settings : m.doExit.settings = m.settings := by
  unfold doExit
  split <;> rfl

@[simp] theorem doExit_container : m.doExit.container = m.container := by
  unfold doExit
  split <;> rfl

@[simp] theorem doExit_execs : m.doExit.execs = m.execs := by
  unfold doExit
  split <;> rfl

@[simp] theorem setExec_execs (k : ℕ) (x : ExecRun) :
    (m.setExec k x).execs = m.execs.set k x := rfl

theorem doExit_state_of_isEnd (h : m.executingReserve.isEnd = true) : m.doExit.state = .ready := by
  rw [doExit, if_pos h]
  rfl

theorem doExit_reserves_of_not_isEnd (h : ¬ m.executingReserve.isEnd = true) :
    m.doExit.reserves = m.reserves := by
  rw [doExit, if_neg h]

theorem pushRetry_eq (m : Manager) (key : ServiceKey) (now : ℤ) :
    ∃ l, m.pushRetry key now = { m with retryReserves := l } := by
  unfold pushRetry
  split
  · exact ⟨_, rfl⟩
  · exact ⟨m.retryReserves, rfl⟩

@[simp] theorem doError_container : (m.doError k x now).container = m.container := by
  unfold doError pushRetry
  split
  · exact doExit_container
  · exact doExit_container

/-- **The container is written at the end of an execution only.** -/
theorem execStep_container {label : ExecLabel} (h : m.execStep k x label now = some m') :
    m'.container = m.container ∨ ∃ ok tables, label = .disabled ok tables ∧
      x.endsDisabling ok = true ∧
      m'.container = x.serviceInfos.foldl (cacheService tables) m.container := by
  unfold execStep at h
  split at h
  all_goals cases h
  · unfold execStart
    dsimp only
    split
    · exact .inl rfl
    · exact .inl rfl
  · unfold execStreamName
    split
    · exact .inl rfl
    · exact .inl rfl
  · unfold execOpened
    split
    · exact .inl rfl
    · exact .inl doError_container
  · unfold execPhysicalCh
    split
    · exact .inl rfl
    · exact .inl doError_container
  · unfold execTuned
    split
    · exact .inl rfl
    · exact .inl doError_container
  · unfold execServiceInfos
    split
    · exact .inl rfl
    · exact .inl doError_container
  · unfold execEnabled execPoll
    split
    · split
      · exact .inl rfl
      · exact .inl rfl
    · exact .inl doError_container
  · unfold execWake execPoll
    dsimp only
    split
    · exact .inl rfl
    · split
      · exact .inl rfl
      · split
        · exact .inl rfl
        · exact .inl rfl
  · rename_i ok tables hphase
    unfold execDisabled execCache
    dsimp only
    split
    · rename_i hends
      refine .inr ⟨ok, tables, rfl, ?_, ?_⟩
      · rw [ExecRun.endsDisabling, hphase]
        exact hends
      · split
        · exact doError_container
        · exact doExit_container
    · exact .inl rfl

/-! ## What a step does to the lists -/

/-- **What the check of the reserves does**: nothing, or the first reserve is too late, or it is
executed. -/
theorem check2execute_cases (h : Ordered m.reserves) (now : ℤ) :
    m.check2execute now = m ∨
      m.executingReserve.isValid = false ∧ ∃ r l, m.reserves = r :: l ∧
        (r.startTime.addHour 1 ≤ Etime.setCurrentTime now ∧
            m.check2execute now = { m with reserves := l } ∨
          Etime.setCurrentTime now < r.startTime.addHour 1 ∧
            r.startTime ≤ Etime.setCurrentTime now ∧
            m.check2execute now = m.take ⟨r, true, l⟩) := by
  unfold check2execute
  by_cases hvalid : m.executingReserve.isValid = true
  · exact .inl (if_pos hvalid)
  · rw [if_neg hvalid]
    rcases hl : m.reserves with _ | ⟨r, l⟩
    · exact .inl rfl
    · rw [hl] at h
      rw [takeDue_eq_head h.sorted (h.typed r List.mem_cons_self)]
      by_cases hlate : r.startTime.addHour 1 ≤ Etime.setCurrentTime now
      · rw [if_pos hlate]
        exact .inr ⟨by simpa using hvalid, r, l, rfl, .inl ⟨hlate, rfl⟩⟩
      · rw [if_neg hlate]
        by_cases hdue : r.startTime ≤ Etime.setCurrentTime now
        · rw [if_pos hdue]
          exact .inr ⟨by simpa using hvalid, r, l, rfl, .inr ⟨not_le.mp hlate, hdue, rfl⟩⟩
        · rw [if_neg hdue]
          exact .inl rfl

theorem check2execute_eq (m : Manager) (now : ℤ) : ∃ reserves r execs, m.check2execute now =
    { m with reserves := reserves, executingReserve := r, execs := execs } := by
  unfold check2execute
  split
  · exact ⟨_, _, _, rfl⟩
  · rcases takeDue (Etime.setCurrentTime now) m.reserves with _ | d
    · exact ⟨_, _, _, rfl⟩
    · simp only [Option.map_some, Option.getD_some, take]
      split
      · exact ⟨_, _, _, rfl⟩
      · exact ⟨_, _, _, rfl⟩

theorem checkDay_eq (m : Manager) (today : Etime) :
    ∃ adds day, m.checkDay today = { m with adds := adds, scheduleCacheNextDay := day } := by
  unfold checkDay
  split
  · exact ⟨_, _, rfl⟩
  · exact ⟨m.adds, m.scheduleCacheNextDay, rfl⟩

/-- What a request for a forced execution does behind its own request. -/
theorem onForceInfos_cases {j : ℕ} {infos : Option (List ServiceKey)}
    (h : m.onForceInfos j infos now = some m') :
    (∀ info l, infos ≠ some (info :: l)) ∧ m' = m.endForce j ∨
      ∃ info l g f, infos = some (info :: l) ∧ m.forces[j]? = some ⟨g, .serviceInfos⟩ ∧
        m' = { m with
          reserves := addReserve (tmpReserve info now) m.reserves
          forces := m.forces.modify j f } := by
  unfold onForceInfos at h
  split at h
  · rename_i g hj
    split at h
    · exact .inr ⟨_, _, g, _, rfl, hj, (Option.some.inj h).symm⟩
    · rename_i hinfos
      exact .inl ⟨fun info l heq => hinfos info l heq, (Option.some.inj h).symm⟩
  · cases h

theorem onForceTurn_cases {j : ℕ} {b : Bool} (h : m.onForceTurn j b = some m') :
    m' = m ∨ m' = m.endForce j := by
  unfold onForceTurn at h
  split at h
  · split_ifs at h
    · exact .inr (Option.some.inj h).symm
    · exact .inl (Option.some.inj h).symm
    · exact .inl (Option.some.inj h).symm
    · exact .inr (Option.some.inj h).symm
  · cases h

theorem onStop_eq (m : Manager) (b : Bool) :
    ∃ n i, m.onStop b = { m with isNeedStop := i, stops := n } := by
  unfold onStop
  split
  · exact ⟨m.stops, false, rfl⟩
  · exact ⟨_, _, rfl⟩

theorem onStopTurn_eq {b : Bool} (h : m.onStopTurn b = some m') :
    ∃ n i, m' = { m with isNeedStop := i, stops := n } := by
  unfold onStopTurn at h
  split_ifs at h
  · exact ⟨_, _, (Option.some.inj h).symm⟩
  · exact ⟨m.stops, m.isNeedStop, (Option.some.inj h).symm⟩

/-- **What a step does**: nothing to the reserves and the executions, the check of the reserves, a
batch that is put in, a piece of an execution, or the reserve of a forced one. -/
inductive Effect (m : Manager) : Op → Manager → Prop
  | idle {op adds day key t i g forces n} : Effect m op { m with
      adds := adds, scheduleCacheNextDay := day, latestDumpedKey := key, lastUpdateEITSched := t,
      isNeedStop := i, forceCacheGroupId := g, forces := forces, stops := n }
  | checked {today now adds day} : m.settings.isEnable = true →
      Effect m (.checkLoop today now)
        ({ m with adds := adds, scheduleCacheNextDay := day }.check2execute now)
  | added {k channels adds baseTime} : Effect m (.addReserves k channels) { m with
      adds := adds
      reserves :=
        addReserves (batch (channels.getD []).length (channels.getD []) 0 baseTime) m.reserves }
  | exec {k label now x m'} : m.execs[k]? = some x → ExecEffect m k x now m' →
      Effect m (.exec k label now) m'
  | forced {j now info l g f} : m.forces[j]? = some ⟨g, .serviceInfos⟩ →
      Effect m (.forceInfos j (some (info :: l)) now) { m with
        reserves := addReserve (tmpReserve info now) m.reserves
        forces := m.forces.modify j f }

theorem step_effect {op : Op} (h : m.step op = some m') : Effect m op m' := by
  cases op with
  | checkLoop today now =>
    obtain rfl := Option.some.inj h
    obtain ⟨adds, day, hday⟩ := m.checkDay_eq today
    rw [onCheckLoop, hday]
    split
    · rename_i henable
      exact .checked henable
    · exact .idle
  | cacheSchedule now =>
    obtain rfl := Option.some.inj h
    exact .idle
  | addReserves k channels =>
    obtain ⟨baseTime, -, rfl⟩ := Option.map_eq_some_iff.mp h
    exact .added
  | exec k label now =>
    obtain ⟨x, hx, hlabel⟩ := Option.bind_eq_some_iff.mp h
    exact .exec hx (execStep_effect hlabel)
  | force groupId =>
    obtain rfl := Option.some.inj h
    unfold onForce
    split
    · exact .idle
    · exact .idle
  | forceInfos j infos now =>
    rcases onForceInfos_cases h with ⟨-, rfl⟩ | ⟨info, l, g, f, rfl, hj, rfl⟩
    · exact .idle
    · exact .forced hj
  | forceTurn j b =>
    rcases onForceTurn_cases h with rfl | rfl
    · exact .idle
    · exact .idle
  | stop b =>
    obtain rfl := Option.some.inj h
    obtain ⟨n, i, heq⟩ := m.onStop_eq b
    rw [heq]
    exact .idle
  | stopTurn b =>
    obtain ⟨n, i, rfl⟩ := onStopTurn_eq h
    exact .idle
  | parserNotice now =>
    obtain rfl := Option.some.inj h
    exact .idle
  | dumpSchedule key =>
    obtain rfl := Option.some.inj h
    exact .idle

/-- The container is written by one step only. -/
theorem step_container {op : Op} (h : m.step op = some m') :
    m'.container = m.container ∨ ∃ k x ok tables now, op = .exec k (.disabled ok tables) now ∧
      m.execs[k]? = some x ∧ x.endsDisabling ok = true ∧
      m'.container = x.serviceInfos.foldl (cacheService tables) m.container := by
  by_cases hexec : ∃ k label now, op = .exec k label now
  · obtain ⟨k, label, now, rfl⟩ := hexec
    obtain ⟨x, hx, hlabel⟩ := Option.bind_eq_some_iff.mp h
    rcases execStep_container hlabel with heq | ⟨ok, tables, rfl, hends, heq⟩
    · exact .inl heq
    · exact .inr ⟨k, x, ok, tables, now, rfl, hx, hends, heq⟩
  · refine .inl ?_
    cases step_effect h with
    | idle | added | forced => rfl
    | @checked today now adds day _ =>
      obtain ⟨reserves, r, execs, heq⟩ :=
        check2execute_eq { m with adds := adds, scheduleCacheNextDay := day } now
      rw [heq]
    | exec => exact absurd ⟨_, _, _, rfl⟩ hexec

end Manager

end EventSchedule

end AutoRec
