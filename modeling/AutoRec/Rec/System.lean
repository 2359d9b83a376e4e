import AutoRec.Rec.Recorder
import AutoRec.Rec.Table

/-!
# The recording manager

The whole module `rec::manager` with its recorders, one step for each stretch of a sequence between
two points at which it gives up the thread, and one for each call of the tune thread. Which reply
another module gives, what the clock reads and how much space is left are part of the steps.

* `StartStage`, `startNext`: `on_start_recording`, from one reply to the next.
* `Sys`, `Label`, `Sys.next`: the machine.
* `Sys.recorder`, `opFor`: the group `g` of a state, and what a step is for it.
* `next_table`, `next_recorder`: the module moves its table and each of its groups by the steps of
  `Rec/Table` and `Rec/Recorder`.
-/

namespace AutoRec

open Slots

/-! ## `on_start_recording` -/

/-- The ways out of `on_start_recording`. -/
inductive StartExit
  | invalidGroup
  | diskLow
  | channelLookup
  | tuneErr
  | noPresentEvent
  | forceErr
  | rescheduled
  | readdErr
  | progressNotInit
  | success
deriving DecidableEq

/-- Where `on_start_recording` stands: requested by the check loop; waiting for the reply to
`get_physical_channel_by_service_id`, `tune_with_retry`, `get_present_event_info`, the timer between
two tries of that, `cache_schedule_force_current_service`, its own `add_reserve_event`; having
replied. -/
inductive StartStage
  | requested
  | channel
  | tune (ch : UInt16)
  | present (retry : ℕ)
  | presentWait (retry : ℕ)
  | force
  | add (param : AddReserveParam)
  | added (ok : Bool)
  | replied (exit : StartExit)

/-- What `on_start_recording` is woken by. The reply to `add_reserve_event` comes in two: the inner
sequence gets its event, and the outer one its reply. -/
inductive StartLabel
  | enter (df : ℤ)
  | channel (ch : Option UInt16)
  | tuned (ok : Bool) (now : ℤ)
  | present (eventId : Option UInt16) (now : ℤ)
  | presentTimeout
  | forced (ok : Bool)
  | addEvent (e : Option EpgEvent) (serviceName : Option String)
  | added

/-- What `on_start_recording` does before it waits again or has replied. -/
inductive StartOutcome
  /-- The next request is sent. -/
  | wait (stage : StartStage)
  /-- The inner `add_reserve_event` runs. -/
  | add (r : AddRequest)
  /-- `state |= f`, `set_result`, `clear`, `tune_stop`, `close` -/
  | fail (f : ReserveState) (exit : StartExit)
  /-- `tune_stop`, `close` -/
  | leave
  /-- `clear`, `tune_stop`, `close` -/
  | reschedule
  /-- nothing -/
  | invalid
  /-- The recording starts. -/
  | record (now : ℤ)

/-- The request `on_start_recording` sends to its own module, as the coroutine library hands it
over: the module that asked, and the index of the sequence that was started. -/
def innerSource : Source := ⟨moduleRecManager, sequenceAddReserveEvent⟩

/-- `START RECORDING`. -/
def goStart (m : RecManager) (g : Group) (now : ℤ) : StartOutcome :=
  if m.recInstances[g].recProgress ≠ .init then .fail .endErrorInternalErr .progressNotInit
  else .record now

/-- The parameter of the inner `add_reserve_event`; the times are not set. -/
def readdParam (r : Reserve) : AddReserveParam := ⟨r.key, Etime.clear, Etime.clear, r.repeatability⟩

/-- `on_start_recording`, from where it stands to where it waits again. -/
def startNext (m : RecManager) (g : Group) : StartStage → StartLabel → Option StartOutcome
  | .requested, .enter df =>
    some <|
      if (g : ℕ) ≥ m.settings.tunerResourceMax then .invalid
      else if df < m.settings.recDiskSpaceLowLimitMB then .fail .endErrorHddFreeSpaceLow .diskLow
      else .wait .channel
  | .channel, .channel none => some .leave
  | .channel, .channel (some ch) => some (.wait (.tune ch))
  | .tune _, .tuned ok now =>
    some <|
      if !ok then .fail .endErrorTuneErr .tuneErr
      else if m.recordings[g].isEventType then .wait (.present 0)
      else goStart m g now
  | .present retry, .present none _ => some (.wait (.presentWait retry))
  | .present _, .present (some eventId) now =>
    some <| if eventId = m.recordings[g].eventId then goStart m g now else .wait .force
  | .presentWait retry, .presentTimeout =>
    some <|
      if retry + 1 ≤ 10 then .wait (.present (retry + 1))
      else .fail .endErrorInternalErr .noPresentEvent
  | .force, .forced ok =>
    some <|
      if !ok then .fail .endErrorInternalErr .forceErr
      else .wait (.add (readdParam m.recordings[g]))
  | .add param, .addEvent e serviceName => some (.add (.event innerSource param e serviceName))
  | .added ok, .added =>
    some <| if ok then .reschedule else .fail .endErrorEventNotFound .readdErr
  | _, _ => none

/-! ## The machine -/

/-- What the manager does with a tuner. -/
inductive TunerEvent
  /-- The tuner service has given it to the manager. -/
  | opened
  /-- `start_recording` is requested for it. -/
  | handed
  /-- `tune_stop` is sent. -/
  | tuneStop
  /-- `close` is sent. -/
  | close
deriving DecidableEq

/-- What one run of `on_start_recording` has put into `results_`, and sent to the tuner service. -/
structure StartRecord where
  results : List Reserve
  sent : List TunerEvent

/-- Where `on_check_loop` stands: in its pause, waiting for a tuner, or waiting for
`on_start_recording`. -/
inductive CheckLoop
  | paused
  | opening
  | starting (g : Group) (stage : StartStage) (done : StartRecord)

/-- Where `on_check_recordings_event_loop` stands. -/
inductive PresentLoop
  | paused (g : Group)
  | waiting (g : Group)

/-- The module, with the notices and the requests to itself that are on their way, and for each
group a record of what has happened to it. -/
structure Sys where
  table : Table
  notices : List RecordingNotice
  stops : List Group
  checkLoop : CheckLoop
  presentLoop : PresentLoop
  logs : Vector (List RecEvent) groupMax
  tsRuns : Vector (List TsRun) groupMax
  tuners : Vector (List TunerEvent) groupMax

/-- The steps. -/
inductive Label
  /-- The pause of `on_check_loop` ends. -/
  | timeout (now : ℤ) (nowEnd df : Group → ℤ)
  /-- The tuner service replies to `open`. -/
  | opened (g : Option Group)
  /-- `on_start_recording` goes on. -/
  | start (l : StartLabel)
  /-- `on_check_loop` gets the reply of `on_start_recording`. -/
  | started
  /-- `on_stop_recording`, for another module. -/
  | stop (g : Group)
  /-- `on_stop_recording`, for `check_disk_free`. -/
  | stopQueued
  /-- `on_recording_notice` -/
  | notice (now : ℤ)
  /-- The tune thread calls `on_ts_received`. -/
  | ts (g : Group) (data : List UInt8)
  /-- The PAT of the group is not detected any more. -/
  | patNotDetected (g : Group)
  /-- The pause of `on_check_recordings_event_loop` ends. -/
  | presentTimeout
  /-- `on_check_recordings_event_loop` gets the event that is on the air. -/
  | presentEvent (e : Option PresentEvent)
  /-- A step that is about `reserves_` alone. -/
  | table (op : TableOp)

/-- The steps of the table that stand for a sequence of their own. -/
def TableOp.isSequence : TableOp → Bool
  | .add _ | .removeReserve _ _ _ | .removeReserveByIndex _ _ _ | .timeout | .scheduleState _
  | .event _ => true
  | .checkReserves _ | .refreshReserves _ | .pick _ | .other _ _ _ => false

/-- What `on_check_recordings_event_loop` writes to a recording. -/
def Reserve.updatePresent (e : PresentEvent) (r : Reserve) : Reserve :=
  if r.isEventType then
    if r.eventId = e.key.eventId then { r with endTime := e.endTime } else r
  else { r with eventId := e.key.eventId, titleName := e.eventNameChar }

namespace Sys

variable (s : Sys)

/-- The module after `on_module_up`, with no reservation loaded. -/
def initial (settings : Settings) : Sys where
  table := .initial settings
  notices := []
  stops := []
  checkLoop := .paused
  presentLoop := .paused 0
  logs := .replicate _ []
  tsRuns := .replicate _ []
  tuners := .replicate _ []

/-- The manager. -/
abbrev mgr : RecManager := s.table.mgr

/-- The module with the manager `m`. -/
def setMgr (m : RecManager) : Sys := { s with table := { s.table with mgr := m } }

/-- A record of what has happened to a recording. -/
def log (g : Group) (e : List RecEvent) : Sys :=
  { s with logs := s.logs.set g (s.logs[g] ++ e) g.isLt }

/-- A record of what has happened to a tuner. -/
def tuner (g : Group) (e : List TunerEvent) : Sys :=
  { s with tuners := s.tuners.set g (s.tuners[g] ++ e) g.isLt }

/-- The notices of one group. -/
def noticesOf (g : Group) (l : List RecordingNotice) : List Progress :=
  l.filterMap fun n => if n.groupId = g then some n.recProgress else none

/-- One group of the module. -/
def recorder (g : Group) : Recorder where
  recording := s.mgr.recordings[g]
  inst := s.mgr.recInstances[g]
  notices := noticesOf g s.notices
  log := s.logs[g]
  tsRuns := s.tsRuns[g]

/-- The program has crashed. -/
def isCrashed : Bool := (List.finRange groupMax).any fun g => (s.recorder g).isCrashed

/-- `do_tuner_stop_close`. -/
def tunerStopClose : List TunerEvent := [.tuneStop, .close]

/-- `state |= f`, `set_result` and `clear`, on `recordings_[g]`. -/
def storeFailed (g : Group) (f : ReserveState) : Sys :=
  let m := s.mgr.updRecording g (·.mark f)
  (s.setMgr ((m.setResult m.recordings[g]).updRecording g fun _ => Reserve.clear)).log g
    [.stored m.recordings[g]]

/-- `on_start_recording` does `o`. -/
def startStep (g : Group) (done : StartRecord) : StartOutcome → Sys
  | .wait stage => { s with checkLoop := .starting g stage done }
  | .add r =>
    { s.setMgr (s.mgr.onAdd r).2 with checkLoop := .starting g (.added (s.mgr.onAdd r).1) done }
  | .fail f exit =>
    { (s.storeFailed g f).tuner g tunerStopClose with
      checkLoop := .starting g (.replied exit)
        ⟨done.results ++ [s.mgr.recordings[g].mark f], done.sent ++ tunerStopClose⟩ }
  | .leave =>
    { s.tuner g tunerStopClose with
      checkLoop := .starting g (.replied .channelLookup) ⟨done.results, done.sent ++ tunerStopClose⟩ }
  | .reschedule =>
    { (s.setMgr (s.mgr.updRecording g fun _ => Reserve.clear)).tuner g tunerStopClose with
      checkLoop := .starting g (.replied .rescheduled) ⟨done.results, done.sent ++ tunerStopClose⟩ }
  | .invalid => { s with checkLoop := .starting g (.replied .invalidGroup) done }
  | .record now =>
    { (s.setMgr ((s.mgr.updInstance g fun i =>
          i.start s.mgr.recordings[g] s.mgr.settings.isRecUseSplitter).updRecording g
            (·.enter now))).log g [.entered] with
      checkLoop := .starting g (.replied .success) done }

/-- The end of a turn of `on_check_loop`, with the tuner `g`. -/
def pickAndStart (g : Group) : Sys :=
  match s.mgr.pickReqStartRecordingReserve g with
  | (true, m) =>
    { (s.setMgr m).tuner g [.handed] with checkLoop := .starting g .requested ⟨[], []⟩ }
  | (false, m) => { s.setMgr m with checkLoop := .paused }

/-- `on_check_loop`, from the end of its pause. -/
def onTimeout (now : ℤ) (nowEnd df : Group → ℤ) : Sys :=
  let c := ((s.mgr.checkReserves now).checkRecordingEnd nowEnd).checkDiskFree df
  let s₁ := { s.setMgr c.1 with stops := s.stops ++ c.2 }
  if c.1.isExistReqStartRecordingReserve then { s₁ with checkLoop := .opening }
  else s₁.pickAndStart 0

/-- `on_check_loop`, from the reply to `open`. -/
def onOpened (g : Group) : Sys :=
  let s₁ := s.tuner g [.opened]
  if s.mgr.recordings[g].isUsed then { s₁ with checkLoop := .paused } else s₁.pickAndStart g

/-- `on_stop_recording`. -/
def onStopRecording (g : Group) : Sys :=
  if (g : ℕ) ≥ s.mgr.settings.tunerResourceMax then s
  else if s.mgr.recordings[g].isRecording then
    s.setMgr ((s.mgr.updInstance g (·.setNextProgress .endError)).updRecording g
      (·.mark .forceStopped))
  else s

/-- `on_ts_received`; a crash leaves a record and nothing else. -/
def onTsReceived (g : Group) (data : List UInt8) : Sys :=
  let i := s.mgr.recInstances[g]
  let s₁ := { s with
    tsRuns := s.tsRuns.set g (s.tsRuns[g] ++ [⟨i.recProgress, i.b25.isSome⟩]) g.isLt }
  match i.onTsReceived data with
  | some (i', q) => { s₁.setMgr (s.mgr.updInstance g fun _ => i') with notices := s.notices ++ q }
  | none => s₁

/-- `on_receive_notify`, when the PAT is not detected any more. -/
def onPatNotDetected (g : Group) : Sys :=
  if s.mgr.recordings[g].isRecording then
    (s.setMgr ((s.mgr.updInstance g (·.setNextProgress .postProcess)).updRecording g
      (·.mark .endErrorInternalErr))).onTsReceived g []
  else s

/-- `on_recording_notice`. -/
def onRecordingNotice (n : RecordingNotice) (now : ℤ) : Sys :=
  match n.recProgress with
  | .endSuccess => s.setMgr (s.mgr.updRecording n.groupId (·.mark .endSuccess))
  | .postProcess =>
    let m := s.mgr.updRecording n.groupId (·.finish now)
    ((s.setMgr ((m.setResult m.recordings[n.groupId]).updRecording n.groupId
      fun _ => Reserve.clear)).log n.groupId [.finalised, .stored m.recordings[n.groupId]]).tuner
        n.groupId tunerStopClose
  | .init | .preProcess | .nowRecording | .endError => s

/-- `on_check_recordings_event_loop`, from the reply to its request. -/
def onPresentEvent (g : Group) (e : Option PresentEvent) : Sys :=
  let s₁ := { s with presentLoop := .paused (g + 1) }
  match e with
  | some e =>
    if s.mgr.recordings[g].isRecording then
      s₁.setMgr (s.mgr.updRecording g (·.updatePresent e))
    else s₁
  | none => s₁

/-- What a step does, while the program runs. -/
def step : Label → Option Sys
  | .timeout now nowEnd df =>
    match s.checkLoop with
    | .paused => some (s.onTimeout now nowEnd df)
    | _ => none
  | .opened none =>
    match s.checkLoop with
    | .opening => some { s with checkLoop := .paused }
    | _ => none
  | .opened (some g) =>
    match s.checkLoop with
    | .opening => if (g : ℕ) < s.mgr.settings.tunerResourceMax then some (s.onOpened g) else none
    | _ => none
  | .start l =>
    match s.checkLoop with
    | .starting g stage done => (startNext s.mgr g stage l).map (s.startStep g done)
    | _ => none
  | .started =>
    match s.checkLoop with
    | .starting _ (.replied _) _ => some { s with checkLoop := .paused }
    | _ => none
  | .stop g => some (s.onStopRecording g)
  | .stopQueued =>
    match s.stops with
    | g :: q => some ({ s with stops := q }.onStopRecording g)
    | [] => none
  | .notice now =>
    match s.notices with
    | n :: q => some ({ s with notices := q }.onRecordingNotice n now)
    | [] => none
  | .ts g data => some (s.onTsReceived g data)
  | .patNotDetected g => some (s.onPatNotDetected g)
  | .presentTimeout =>
    match s.presentLoop with
    | .paused g =>
      some { s with
        presentLoop := if s.mgr.recordings[g].isRecording then .waiting g else .paused (g + 1) }
    | _ => none
  | .presentEvent e =>
    match s.presentLoop with
    | .waiting g => some (s.onPresentEvent g e)
    | _ => none
  | .table op =>
    if op.isSequence then (s.table.next op).map fun t => { s with table := t } else none

/-- The state after a step, if the step can be taken; after a crash there are no steps. -/
def next (l : Label) : Option Sys := if s.isCrashed then none else s.step l

end Sys

end AutoRec
