import AutoRec.Common.Etime
import AutoRec.Lib.Flag

/-!
# Reservations

The entries of the tables of the recording manager (`rec_manager/rec_manager.h`).

* `ReserveState`: the bits of `state`.
* `Reserve`, with `opEq` (`operator ==`), `set` and `clear`; `Key` is what `opEq` compares.
* `ReserveState.ended`: the bits that say how a recording ended badly.
-/

namespace AutoRec

/-- The bits of `reserve::state` (`RESERVE_STATE__…`). -/
abbrev ReserveState : Type := BitVec 32

namespace ReserveState

def init : ReserveState := 0x00000000
def removed : ReserveState := 0x00000001
def rescheduled : ReserveState := 0x00000002
def startTimePassed : ReserveState := 0x00000004
def reqStartRecording : ReserveState := 0x00000100
def nowRecording : ReserveState := 0x00000200
def forceStopped : ReserveState := 0x00000400
def endErrorAlreadyPassed : ReserveState := 0x00010000
def endErrorHddFreeSpaceLow : ReserveState := 0x00020000
def endErrorTuneErr : ReserveState := 0x00040000
def endErrorEventNotFound : ReserveState := 0x00080000
def endErrorInternalErr : ReserveState := 0x00100000
def endSuccess : ReserveState := 0x80000000

/-- Every `RESERVE_STATE__END_ERROR__…` bit. -/
def endError : ReserveState :=
  endErrorAlreadyPassed ||| endErrorHddFreeSpaceLow ||| endErrorTuneErr |||
    endErrorEventNotFound ||| endErrorInternalErr

/-- The bits of a recording that did not end well: `FORCE_STOPPED` and the errors. -/
def ended : ReserveState := forceStopped ||| endError

end ReserveState

/-- `client_iface::reserve_repeatability`. -/
inductive Repeatability
  | none
  | daily
  | weekly
  | auto
deriving DecidableEq, Repr

/-- The four numbers a reserve is known by. -/
structure Key where
  transportStreamId : UInt16
  originalNetworkId : UInt16
  serviceId : UInt16
  eventId : UInt16
deriving DecidableEq, Repr

/-- `reserve`. -/
structure Reserve where
  transportStreamId : UInt16
  originalNetworkId : UInt16
  serviceId : UInt16
  eventId : UInt16
  startTime : Etime
  endTime : Etime
  titleName : String
  serviceName : String
  isEventType : Bool
  repeatability : Repeatability
  state : ReserveState
  recordingStartTime : Etime
  recordingEndTime : Etime
  groupId : UInt8
  isUsed : Bool
deriving DecidableEq

namespace Reserve

/-- `clear`. -/
def clear : Reserve where
  transportStreamId := 0
  originalNetworkId := 0
  serviceId := 0
  eventId := 0
  startTime := Etime.clear
  endTime := Etime.clear
  titleName := ""
  serviceName := ""
  isEventType := false
  repeatability := .none
  state := ReserveState.init
  recordingStartTime := Etime.clear
  recordingEndTime := Etime.clear
  groupId := 0xff
  isUsed := false

/-- What `operator ==` compares. -/
def key (r : Reserve) : Key :=
  ⟨r.transportStreamId, r.originalNetworkId, r.serviceId, r.eventId⟩

/-- `operator ==`. -/
def opEq (r obj : Reserve) : Bool :=
  if r.transportStreamId = obj.transportStreamId ∧ r.originalNetworkId = obj.originalNetworkId ∧
      r.serviceId = obj.serviceId ∧ r.eventId = obj.eventId then true
  else false

@[simp] theorem opEq_iff {r s : Reserve} : r.opEq s = true ↔ r.key = s.key := by
  simp [opEq, key]

@[simp] theorem clear_isUsed : clear.isUsed = false := rfl

@[simp] theorem clear_startTime : clear.startTime = Etime.clear := rfl

@[simp] theorem clear_state : clear.state = 0#32 := rfl

end Reserve

/-- The arguments of `reserve::set` and `add_reserve`; `none` stands for a null pointer. -/
structure SetArgs where
  transportStreamId : UInt16
  originalNetworkId : UInt16
  serviceId : UInt16
  eventId : UInt16
  startTime : Option Etime
  endTime : Option Etime
  titleName : Option String
  serviceName : Option String
  isEventType : Bool
  repeatability : Repeatability

/-- The key a reserve gets from `set`. -/
def SetArgs.key (a : SetArgs) : Key :=
  ⟨a.transportStreamId, a.originalNetworkId, a.serviceId, a.eventId⟩

/-- `set`, on the reserve `r`: what has a null argument is kept. -/
def Reserve.set (r : Reserve) (a : SetArgs) : Reserve :=
  { r with
    transportStreamId := a.transportStreamId
    originalNetworkId := a.originalNetworkId
    serviceId := a.serviceId
    eventId := a.eventId
    startTime := a.startTime.getD r.startTime
    endTime := a.endTime.getD r.endTime
    titleName := a.titleName.getD r.titleName
    serviceName := a.serviceName.getD r.serviceName
    isEventType := a.isEventType
    repeatability := a.repeatability
    state := ReserveState.init
    isUsed := true }

namespace Reserve

variable (r : Reserve) (a : SetArgs)

@[simp] theorem set_key : (r.set a).key = a.key := rfl

@[simp] theorem set_isUsed : (r.set a).isUsed = true := rfl

@[simp] theorem set_state : (r.set a).state = 0#32 := rfl

@[simp] theorem set_startTime : (r.set a).startTime = a.startTime.getD r.startTime := rfl

end Reserve

/-! ## The bits of `state`, seen through one another -/

namespace ReserveState

/-- The bits that are only ever set in `recordings_` and `results_`, or in an entry of `reserves_`
that is taken out in the same call. -/
def terminal : ReserveState := nowRecording ||| endSuccess ||| ended

theorem has_eq_false_of_terminal {s m : ReserveState} (h : Flag.has s terminal = false)
    (hm : terminal &&& m = m) : Flag.has s m = false := by
  have hs : s &&& terminal = 0#32 := by simpa [Flag.has] using h
  have hz : s &&& m = 0#32 := by
    rw [← hm, ← BitVec.and_assoc, hs, BitVec.zero_and]
  simp [Flag.has, hz]

end ReserveState

end AutoRec
