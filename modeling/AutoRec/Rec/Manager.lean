import AutoRec.Lib.Slots
import AutoRec.Rec.Instance
import AutoRec.Rec.Reserve

/-!
# The tables of the recording manager

`rec::manager` (`rec_manager/rec_manager.cpp`): the reservations, the results, the recordings, and
the functions on them that run without giving up the thread. Logging, the files the tables are
saved to and the names of the recorded files are left out; `is_overrap_time_reserve` is left out
with them, since its answer is only logged.

* `Settings`, `RecManager`.
* `addReserve`, `removeReserve`, `checkReserves`, `refreshReserves`,
  `pickReqStartRecordingReserve`, `setResult`, `checkRepeatability`: the reservations.
* `checkRecordingEnd`, `checkDiskFree`: the recordings.
* `addAccepted`: what `addReserve` checks before it touches the table.
-/

namespace AutoRec

open Slots

/-- `RESERVE_NUM_MAX`. -/
abbrev reserveNumMax : ℕ := 50

/-- `RESULT_NUM_MAX`. -/
abbrev resultNumMax : ℕ := 20

/-- What the manager reads from `settings.json`. The list of tuners is cut to `GROUP_MAX` entries
when it is loaded (`resize_tuner_hal_allocates`). -/
structure Settings where
  tunerResourceMax : ℕ
  recDiskSpaceLowLimitMB : ℤ
  isRecUseSplitter : Bool
  tunerResourceMax_le : tunerResourceMax ≤ groupMax

/-- One tuner, for the example runs. -/
def Settings.oneTuner : Settings := ⟨1, 1000, false, by decide⟩

/-- `manager`. -/
structure RecManager where
  settings : Settings
  reserves : Vector Reserve reserveNumMax
  results : Vector Reserve resultNumMax
  recordings : Vector Reserve groupMax
  recInstances : Vector Instance groupMax

/-- `state |= f`. -/
def Reserve.mark (r : Reserve) (f : ReserveState) : Reserve := { r with state := r.state ||| f }

/-- `state &= ~f`. -/
def Reserve.unmark (r : Reserve) (f : ReserveState) : Reserve :=
  { r with state := r.state &&& ~~~f }

namespace Reserve

variable (r : Reserve) (f : ReserveState)

@[simp] theorem mark_key : (r.mark f).key = r.key := rfl

@[simp] theorem mark_isUsed : (r.mark f).isUsed = r.isUsed := rfl

@[simp] theorem mark_startTime : (r.mark f).startTime = r.startTime := rfl

@[simp] theorem mark_endTime : (r.mark f).endTime = r.endTime := rfl

@[simp] theorem mark_repeatability : (r.mark f).repeatability = r.repeatability := rfl

@[simp] theorem mark_state : (r.mark f).state = r.state ||| f := rfl

@[simp] theorem unmark_key : (r.unmark f).key = r.key := rfl

@[simp] theorem unmark_isUsed : (r.unmark f).isUsed = r.isUsed := rfl

@[simp] theorem unmark_state : (r.unmark f).state = r.state &&& ~~~f := rfl

end Reserve

namespace RecManager

/-- The manager after `on_module_up`, with no reservation loaded. -/
def initial (settings : Settings) : RecManager where
  settings := settings
  reserves := .replicate _ Reserve.clear
  results := .replicate _ Reserve.clear
  recordings := .replicate _ Reserve.clear
  recInstances := .ofFn Instance.mk'

variable (m : RecManager)

/-! ## Writing to one slot -/

/-- `reserves_[i]`, updated. -/
def updReserve (i : Fin reserveNumMax) (f : Reserve → Reserve) : RecManager :=
  { m with reserves := m.reserves.set i (f m.reserves[i]) i.isLt }

/-- `recordings_[g]`, updated. -/
def updRecording (g : Group) (f : Reserve → Reserve) : RecManager :=
  { m with recordings := m.recordings.set g (f m.recordings[g]) g.isLt }

/-- `rec_instances_[g]`, updated. -/
def updInstance (g : Group) (f : Instance → Instance) : RecManager :=
  { m with recInstances := m.recInstances.set g (f m.recInstances[g]) g.isLt }

/-- Slot `i` goes and the slots above it move down. -/
def removeSlot (i : ℕ) : RecManager := { m with reserves := removeAt m.reserves i Reserve.clear }

/-! ## Reservations -/

/-- `find_empty_reserve`. -/
def findEmptyReserve : Option (Fin reserveNumMax) := firstFrom (fun r => !r.isUsed) m.reserves 0

/-- `is_exist_empty_reserve`. -/
def isExistEmptyReserve : Bool := m.findEmptyReserve.isSome

/-- `is_duplicate_reserve`. -/
def isDuplicateReserve (r : Reserve) : Bool :=
  (firstFrom (fun s => s.isUsed && s.opEq r) m.reserves 0).isSome

/-- The loop of `add_reserve` over `recordings_`: the reserve is being recorded. -/
def isNowRecordingReserve (r : Reserve) : Bool :=
  (firstFrom (fun s => s.isUsed && s.opEq r) m.recordings 0).isSome

/-- The first slot whose reserve starts after `ref`; all slots are looked at, used or not. -/
def firstLater (ref : Etime) : Option (Fin reserveNumMax) :=
  firstFrom (fun r => r.startTime.gt ref) m.reserves 0

/-- `search_ascending_order_reserve`: the slot for a reserve that starts at `ref`, after the slots
from there on have been moved up. -/
def searchAscendingOrderReserve (ref : Etime) : Option (Fin reserveNumMax) × RecManager :=
  match m.firstLater ref with
  | some i => (some i, { m with reserves := (shiftUp m.reserves i).set i Reserve.clear })
  | none => (m.findEmptyReserve, m)

/-- `add_reserve`. -/
def addReserve (a : SetArgs) (isRescheduled : Bool) : Bool × RecManager :=
  match a.startTime, a.endTime with
  | some startTime, some endTime =>
    if startTime.ge endTime then (false, m)
    else if !m.isExistEmptyReserve then (false, m)
    else if m.isDuplicateReserve (Reserve.clear.set a) then (false, m)
    else if !isRescheduled && m.isNowRecordingReserve (Reserve.clear.set a) then (false, m)
    else
      match m.searchAscendingOrderReserve startTime with
      | (none, m') => (false, m')
      | (some i, m') =>
        (true, m'.updReserve i fun r =>
          if isRescheduled then (r.set a).mark .rescheduled else r.set a)
  | _, _ => (false, m)

/-- `set_result`. -/
def setResult (r : Reserve) : RecManager :=
  match firstFrom (fun r => !r.isUsed) m.results 0 with
  | some i => { m with results := m.results.set i r i.isLt }
  | none =>
    -- the oldest result makes room
    { m with results := (shiftDown m.results 0).set (resultNumMax - 1) r }

/-- The time between a repeated reserve and its successor. -/
def nextPeriod : Repeatability → Option (Etime → Etime)
  | .daily => some (·.addDay 1)
  | .weekly => some (·.addWeek 1)
  | .none | .auto => none

/-- `check_repeatability`. -/
def checkRepeatability (r : Reserve) : RecManager :=
  match nextPeriod r.repeatability with
  | none => m
  | some shift =>
    (m.addReserve
      { transportStreamId := r.transportStreamId
        originalNetworkId := r.originalNetworkId
        serviceId := r.serviceId
        eventId := r.eventId
        startTime := some (shift r.startTime)
        endTime := some (shift r.endTime)
        titleName := some r.titleName
        serviceName := some r.serviceName
        isEventType := r.isEventType
        repeatability := r.repeatability } false).2

/-- `get_reserve_index`; `none` is the index -1. -/
def getReserveIndex (k : Key) : Option (Fin reserveNumMax) :=
  firstFrom (fun r => r.isUsed && decide (r.key = k)) m.reserves 0

/-- `remove_reserve`, on a slot of the table. -/
def removeReserveAt (i : Fin reserveNumMax) (isConsiderRepeatability isApplyResult : Bool) :
    RecManager :=
  let m₁ := m.updReserve i (·.mark .removed)
  let m₂ := if isApplyResult then m₁.setResult m₁.reserves[i] else m₁
  let m₃ := if isConsiderRepeatability then m₂.checkRepeatability m₂.reserves[i] else m₂
  m₃.removeSlot i

/-- `remove_reserve`; only the upper bound of the index is checked, and `none` is an access in front
of the table. -/
def removeReserve (index : ℤ) (isConsiderRepeatability isApplyResult : Bool) :
    Option (Bool × RecManager) :=
  if index ≥ reserveNumMax then some (false, m)
  else if h : 0 ≤ index ∧ index.toNat < reserveNumMax then
    some (true, m.removeReserveAt ⟨index.toNat, h.2⟩ isConsiderRepeatability isApplyResult)
  else none

/-- One turn of the loop of `refresh_reserves`. -/
def refreshSlot (state : ReserveState) (m : RecManager) (i : Fin reserveNumMax) : RecManager :=
  if m.reserves[i].isUsed && Flag.has m.reserves[i].state state then m.removeSlot i else m

/-- `refresh_reserves`. -/
def refreshReserves (state : ReserveState) : RecManager :=
  (List.finRange reserveNumMax).reverse.foldl (refreshSlot state) m

/-- Both times of the reserve have passed. -/
def isPassed (currentTime : Etime) (r : Reserve) : Bool :=
  r.startTime.lt currentTime && r.endTime.le currentTime

/-- The time is within the reserve. -/
def isInRange (currentTime : Etime) (r : Reserve) : Bool :=
  r.startTime.le currentTime && r.endTime.gt currentTime

/-- The loop of `check_reserves`, over the slots that are left; it is left at the first reserve
whose time it is. -/
def checkReservesLoop (currentTime : Etime) : List (Fin reserveNumMax) → RecManager → RecManager
  | [], m => m
  | i :: l, m =>
    if !m.reserves[i].isUsed then checkReservesLoop currentTime l m
    else if isPassed currentTime m.reserves[i] then
      let m₁ := m.updReserve i (·.mark .endErrorAlreadyPassed)
      let m₂ := m₁.setResult m₁.reserves[i]
      checkReservesLoop currentTime l (m₂.checkRepeatability m₂.reserves[i])
    else if isInRange currentTime m.reserves[i] then
      m.updReserve i fun r =>
        (if (r.startTime.addSec 10).le currentTime then r.mark .startTimePassed else r).mark
          .reqStartRecording
    else checkReservesLoop currentTime l m

/-- `check_reserves`, when the clock reads `now`. -/
def checkReserves (now : ℤ) : RecManager :=
  (checkReservesLoop (Etime.setCurrentTime now) (List.finRange _) m).refreshReserves
    .endErrorAlreadyPassed

/-- The first reserve that is to be recorded now. -/
def reqStartRecordingReserve : Option (Fin reserveNumMax) :=
  firstFrom (fun r => r.isUsed && Flag.has r.state ReserveState.reqStartRecording) m.reserves 0

/-- `is_exist_req_start_recording_reserve`. -/
def isExistReqStartRecordingReserve : Bool := m.reqStartRecordingReserve.isSome

/-- `pick_req_start_recording_reserve`. -/
def pickReqStartRecordingReserve (g : Group) : Bool × RecManager :=
  match m.reqStartRecordingReserve with
  | none => (false, m)
  | some i =>
    let r := { m.reserves[i].unmark .reqStartRecording with groupId := UInt8.ofNat g }
    let m₁ := (m.updRecording g fun _ => r).removeSlot i
    (true, m₁.checkRepeatability m₁.recordings[g])

/-! ## Recordings -/

/-- `check_recording_end`, when the clock reads `now g` in the turn of group `g`. -/
def checkRecordingEnd (now : Group → ℤ) : RecManager :=
  { m with
    recInstances := .ofFn fun g =>
      if m.recordings[g].isUsed && Flag.has m.recordings[g].state ReserveState.nowRecording &&
          m.recordings[g].endTime.le (Etime.setCurrentTime (now g)) &&
          m.recInstances[g].recProgress == .nowRecording then
        m.recInstances[g].setNextProgress .endSuccess
      else m.recInstances[g] }

/-- The disk is low in the turn of group `g` of `check_disk_free`, and `g` is recording. -/
def isDiskLow (df : Group → ℤ) (g : Group) : Bool :=
  m.recordings[g].isUsed && Flag.has m.recordings[g].state ReserveState.nowRecording &&
    decide (df g < m.settings.recDiskSpaceLowLimitMB)

/-- `check_disk_free`, when the free space is `df g` in the turn of group `g`; with the groups that
are told to stop. -/
def checkDiskFree (df : Group → ℤ) : RecManager × List Group :=
  ({ m with
     recordings := .ofFn fun g =>
       if m.isDiskLow df g then m.recordings[g].mark .endErrorHddFreeSpaceLow
       else m.recordings[g] },
   (List.finRange groupMax).filter (m.isDiskLow df))

end RecManager

end AutoRec
