import AutoRec.Lib.Machine
import AutoRec.Rec.Reservations

/-!
# The table of reservations as a machine

Everything that reads or writes `reserves_`, one step for each stretch of a sequence between two
points at which it gives up the thread. The replies of the other modules are part of the steps.

* `AddRequest.call`: the four sequences that add a reserve, up to their call of `add_reserve`.
* `FollowUp`: where `on_check_reserves_event_loop` stands.
* `TableOp`, `Table.next`: the steps. `other` stands for whatever leaves `reserves_` alone.
* `ReservesInv`: what every step keeps; `reach_reservesInv`.
-/

namespace AutoRec

open Slots

/-! ## The sequences that add a reserve -/

/-- `source`: the module that sent a request, and the index the coroutine library gives with it. -/
structure Source where
  threadIdx : UInt8
  sequenceIdx : UInt8
deriving DecidableEq

/-- `modules::module_id::rec_manager`. -/
def moduleRecManager : UInt8 := 13

/-- `client_iface::sequence::start_recording`. -/
def sequenceStartRecording : UInt8 := 7

/-- `client_iface::sequence::add_reserve_event`. -/
def sequenceAddReserveEvent : UInt8 := 9

/-- `add_reserve_param_t`. -/
structure AddReserveParam where
  key : Key
  startTime : Etime
  endTime : Etime
  repeatability : Repeatability
deriving DecidableEq

/-- `event_schedule::client_iface::event_t`: an event of the programme guide. -/
structure EpgEvent where
  key : Key
  startTime : Etime
  endTime : Etime
  eventName : String

/-- `psisi_structs::event_info_t`: the event that is on the air. -/
structure PresentEvent where
  key : Key
  startTime : Etime
  endTime : Etime
  eventNameChar : String

/-- A request to add a reserve, with the replies its sequence gets; a failed reply is `none`. -/
inductive AddRequest
  | currentEvent (groupId : UInt8) (isTuned isPatDetected : Option Bool) (serviceInfos : Option ℤ)
      (presentEvent : Option PresentEvent) (serviceName : Option String)
  | event (source : Source) (param : AddReserveParam) (epgEvent : Option EpgEvent)
      (serviceName : Option String)
  | eventHelper (repeatability : Repeatability) (epgEvent : Option EpgEvent)
      (serviceName : Option String)
  | manual (param : AddReserveParam) (isChannelFound : Bool) (serviceName : Option String)

/-- The arguments for an event of the programme guide. -/
def EpgEvent.setArgs (e : EpgEvent) (serviceName : Option String) (r : Repeatability) : SetArgs where
  transportStreamId := e.key.transportStreamId
  originalNetworkId := e.key.originalNetworkId
  serviceId := e.key.serviceId
  eventId := e.key.eventId
  startTime := some e.startTime
  endTime := some e.endTime
  titleName := some e.eventName
  serviceName := serviceName
  isEventType := true
  repeatability := r

/-- The check of `repeatablity` in the two sequences that add an event. -/
def isEventRepeatability (r : Repeatability) : Bool := r == .none || r == .auto

/-- The check of `on_add_reserve_event` for a request of `on_start_recording`. -/
def isRescheduled (source : Source) : Bool :=
  source.threadIdx == moduleRecManager && source.sequenceIdx == sequenceStartRecording

/-- `on_add_reserve_current_event`. -/
def onAddReserveCurrentEvent (settings : Settings) (groupId : UInt8)
    (isTuned isPatDetected : Option Bool) (serviceInfos : Option ℤ)
    (presentEvent : Option PresentEvent) (serviceName : Option String) :
    Option (SetArgs × Bool) :=
  if groupId.toNat ≥ settings.tunerResourceMax then none
  else if isTuned = some false then none
  else if isPatDetected = some false then none
  else
    match serviceInfos, presentEvent with
    | some num, some e =>
      if num ≤ 0 then none
      else some (EpgEvent.setArgs ⟨e.key, e.startTime, e.endTime, e.eventNameChar⟩ serviceName .none,
        false)
    | _, _ => none

/-- `on_add_reserve_event`. -/
def onAddReserveEvent (source : Source) (param : AddReserveParam) (epgEvent : Option EpgEvent)
    (serviceName : Option String) : Option (SetArgs × Bool) :=
  if !isEventRepeatability param.repeatability then none
  else epgEvent.map fun e =>
    (e.setArgs serviceName param.repeatability, isRescheduled source)

/-- `on_add_reserve_event_helper`. -/
def onAddReserveEventHelper (repeatability : Repeatability) (epgEvent : Option EpgEvent)
    (serviceName : Option String) : Option (SetArgs × Bool) :=
  if !isEventRepeatability repeatability then none
  else epgEvent.map fun e => (e.setArgs serviceName repeatability, false)

/-- `on_add_reserve_manual`. -/
def onAddReserveManual (param : AddReserveParam) (isChannelFound : Bool)
    (serviceName : Option String) : Option (SetArgs × Bool) :=
  if param.repeatability = .auto then none
  else if !isChannelFound then none
  else some ({
    transportStreamId := param.key.transportStreamId
    originalNetworkId := param.key.originalNetworkId
    serviceId := param.key.serviceId
    eventId := 0x00
    startTime := some param.startTime
    endTime := some param.endTime
    titleName := none
    serviceName := serviceName
    isEventType := false
    repeatability := param.repeatability }, false)

/-- The call of `add_reserve` a request ends in, unless it fails before. -/
def AddRequest.call (settings : Settings) : AddRequest → Option (SetArgs × Bool)
  | .currentEvent g t p n e s => onAddReserveCurrentEvent settings g t p n e s
  | .event src param e s => onAddReserveEvent src param e s
  | .eventHelper r e s => onAddReserveEventHelper r e s
  | .manual param f s => onAddReserveManual param f s

/-- A sequence that adds a reserve, with its reply. -/
def RecManager.onAdd (m : RecManager) (r : AddRequest) : Bool × RecManager :=
  match r.call m.settings with
  | some (a, b) => m.addReserve a b
  | none => (false, m)

theorem RecManager.onAdd_frame (m : RecManager) (r : AddRequest) :
    (m.onAdd r).2.recordings = m.recordings ∧ (m.onAdd r).2.recInstances = m.recInstances ∧
      (m.onAdd r).2.settings = m.settings := by
  unfold onAdd
  split
  · exact m.addReserve_frame _ _
  · exact ⟨rfl, rfl, rfl⟩

/-! ## The follow-up of the programme guide -/

/-- Where `on_check_reserves_event_loop` stands: in the pause between two rounds, waiting for the
state of the guide, or waiting for the event of slot `i`, whose key it has sent. -/
inductive FollowUp
  | paused
  | scheduleState
  | event (i : Fin reserveNumMax) (key : Key)

/-- The loop asks for the event of such a reserve. -/
def isFollowed (r : Reserve) : Bool := r.isUsed && r.state != .init && r.isEventType

/-- The next turn of the loop, from slot `i` on: the next request, or the end of the round. -/
def nextRequest (v : Vector Reserve reserveNumMax) (i : ℕ) : FollowUp :=
  match firstFrom isFollowed v i with
  | some k => .event k v[k].key
  | none => .paused

/-- The loop writes to the reserve. -/
def isChanged (e : EpgEvent) (r : Reserve) : Bool :=
  r.startTime != e.startTime || r.endTime != e.endTime || r.titleName != e.eventName

/-- The reserve after the loop has written to it. -/
def Reserve.follow (r : Reserve) (e : EpgEvent) : Reserve :=
  { r with startTime := e.startTime, endTime := e.endTime, titleName := e.eventName }

/-! ## The machine -/

/-- The manager, the loop, and a record of what the loop has written to: the key it had asked for,
and the slot it wrote to as it was before. -/
structure Table where
  mgr : RecManager
  followUp : FollowUp
  writes : List (Key × Reserve)

/-- The steps. -/
inductive TableOp
  | add (r : AddRequest)
  | removeReserve (k : Key) (isConsiderRepeatability isApplyResult : Bool)
  | removeReserveByIndex (index : ℤ) (isConsiderRepeatability isApplyResult : Bool)
  | checkReserves (now : ℤ)
  | refreshReserves (state : ReserveState)
  | pick (g : Group)
  | timeout
  | scheduleState (isReady : Bool)
  | event (e : Option EpgEvent)
  | other (results : Vector Reserve resultNumMax) (recordings : Vector Reserve groupMax)
      (recInstances : Vector Instance groupMax)

namespace Table

/-- The table of a manager that has just come up. -/
def initial (settings : Settings) : Table := ⟨.initial settings, .paused, []⟩

/-- `on_remove_reserve`. -/
def onRemoveReserve (m : RecManager) (k : Key) (c p : Bool) : RecManager :=
  match m.getReserveIndex k with
  | some i => m.removeReserveAt i c p
  | none => m

/-- `on_check_reserves_event_loop`, from the reply to its request for the event of slot `i`. -/
def onEvent (s : Table) (i : Fin reserveNumMax) (key : Key) (e : Option EpgEvent) : Table :=
  let m := match e with
    | some e => if isChanged e s.mgr.reserves[i] then s.mgr.updReserve i (·.follow e) else s.mgr
    | none => s.mgr
  let w := match e with
    | some e => if isChanged e s.mgr.reserves[i] then [(key, s.mgr.reserves[i])] else []
    | none => []
  ⟨m, nextRequest m.reserves (i + 1), s.writes ++ w⟩

/-- The state after a step, if the step can be taken. -/
def next (s : Table) : TableOp → Option Table
  | .add r => some { s with mgr := (s.mgr.onAdd r).2 }
  | .removeReserve k c p => some { s with mgr := onRemoveReserve s.mgr k c p }
  | .removeReserveByIndex i c p =>
    (s.mgr.removeReserve i c p).map fun r => { s with mgr := r.2 }
  | .checkReserves now => some { s with mgr := s.mgr.checkReserves now }
  | .refreshReserves state => some { s with mgr := s.mgr.refreshReserves state }
  | .pick g => some { s with mgr := (s.mgr.pickReqStartRecordingReserve g).2 }
  | .timeout =>
    match s.followUp with
    | .paused => some { s with followUp := .scheduleState }
    | _ => none
  | .scheduleState isReady =>
    match s.followUp with
    | .scheduleState =>
      some { s with followUp := if isReady then nextRequest s.mgr.reserves 0 else .paused }
    | _ => none
  | .event e =>
    match s.followUp with
    | .event i key => some (s.onEvent i key e)
    | _ => none
  | .other results recordings recInstances =>
    some { s with
      mgr := { s.mgr with results := results, recordings := recordings, recInstances := recInstances } }

/-! ## What a step does to `reserves_` -/

/-- The table of reservations after a step, with what the step has found out before. -/
inductive Effect (s : Table) : TableOp → Vector Reserve reserveNumMax → Prop
  | added {r a b st w} : r.call s.mgr.settings = some (a, b) → s.mgr.addAccepted a b = true →
      a.startTime = some st → Placed s.mgr.reserves a b st w → Effect s (.add r) w
  | refused {r} : Effect s (.add r) s.mgr.reserves
  | removed {k c p i} : s.mgr.getReserveIndex k = some i →
      Effect s (.removeReserve k c p) (removeAt s.mgr.reserves i Reserve.clear)
  | missing {k c p} : Effect s (.removeReserve k c p) s.mgr.reserves
  | removedByIndex {n : ℤ} {c p} (i : Fin reserveNumMax) : n = i →
      Effect s (.removeReserveByIndex n c p) (removeAt s.mgr.reserves i Reserve.clear)
  | outOfTable {n : ℤ} {c p} : Effect s (.removeReserveByIndex n c p) s.mgr.reserves
  | checked {now} : Effect s (.checkReserves now)
      (sweep (RecManager.isFlagged .endErrorAlreadyPassed) Reserve.clear
        (RecManager.checkedTable (Etime.setCurrentTime now) s.mgr.reserves))
  | refreshed {state} : Effect s (.refreshReserves state)
      (sweep (RecManager.isFlagged state) Reserve.clear s.mgr.reserves)
  | picked {g i} : s.mgr.reqStartRecordingReserve = some i →
      Effect s (.pick g) (removeAt s.mgr.reserves i Reserve.clear)
  | notPicked {g} : Effect s (.pick g) s.mgr.reserves
  | timeout : Effect s .timeout s.mgr.reserves
  | scheduleState {b} : Effect s (.scheduleState b) s.mgr.reserves
  | followed {i k e} : s.followUp = .event i k →
      Effect s (.event (some e)) (s.mgr.reserves.set i (s.mgr.reserves[i].follow e) i.isLt)
  | noEvent : Effect s (.event none) s.mgr.reserves
  | other {a b c} : Effect s (.other a b c) s.mgr.reserves

end Table

/-- What every step keeps: no key is reserved twice; a free slot is not repeated; no reserve that is
still in the table has been recorded or given up. -/
structure ReservesInv (v : Vector Reserve reserveNumMax) : Prop where
  distinct : DistinctOn Reserve.isUsed Reserve.key v
  blank : All (fun r => r.isUsed = true ∨ r.repeatability = .none) v
  clean : All (fun r => Flag.has r.state ReserveState.terminal = false) v

namespace Table

variable {s t : Table} {op : TableOp}

theorem follow_eq_self {e : EpgEvent} {r : Reserve} (h : isChanged e r = false) :
    r.follow e = r := by
  have ⟨⟨h₁, h₂⟩, h₃⟩ : (r.startTime = e.startTime ∧ r.endTime = e.endTime) ∧
      r.titleName = e.eventName := by simpa [isChanged] using h
  rw [Reserve.follow, ← h₁, ← h₂, ← h₃]

theorem onEvent_reserves (i : Fin reserveNumMax) (key : Key) (e : EpgEvent) :
    (s.onEvent i key (some e)).mgr.reserves =
      s.mgr.reserves.set i (s.mgr.reserves[i].follow e) i.isLt := by
  unfold onEvent
  dsimp only
  split_ifs with h
  · rfl
  · rw [follow_eq_self (by simpa using h), getElem_slot, Vector.set_getElem_self]

theorem onAdd_effect (r : AddRequest) : Effect s (.add r) (s.mgr.onAdd r).2.reserves := by
  unfold RecManager.onAdd
  rcases hc : r.call s.mgr.settings with _ | ⟨a, b⟩
  · exact .refused
  · rcases hacc : s.mgr.addAccepted a b with _ | _
    · simp only [s.mgr.addReserve_of_refused hacc]
      exact .refused
    · obtain ⟨st, w, hst, hw, he⟩ := s.mgr.addReserve_of_accepted hacc
      simp only [he]
      exact .added hc hacc hst hw

/-- **What a step can do to `reserves_`.** -/
theorem next_effect (hI : ReservesInv s.mgr.reserves) (h : next s op = some t) :
    Effect s op t.mgr.reserves := by
  have hat : ∀ i c p, (s.mgr.removeReserveAt i c p).reserves =
      removeAt s.mgr.reserves i Reserve.clear := fun i c p =>
    (s.mgr.removeReserveAt_spec i c p (hI.blank i i.2)).1
  cases op with
  | add r =>
    obtain rfl := Option.some.inj h
    exact onAdd_effect r
  | removeReserve k c p =>
    obtain rfl := Option.some.inj h
    dsimp only [onRemoveReserve]
    split
    · rw [hat]
      exact .removed ‹_›
    · exact .missing
  | removeReserveByIndex n c p =>
    obtain ⟨⟨b, m⟩, hm, rfl⟩ := Option.map_eq_some_iff.mp h
    unfold RecManager.removeReserve at hm
    split_ifs at hm with h₁ h₂
    · cases hm
      exact .outOfTable
    · cases hm
      dsimp only
      rw [hat]
      exact .removedByIndex ⟨n.toNat, h₂.2⟩ (by simp [h₂.1])
  | checkReserves now =>
    obtain rfl := Option.some.inj h
    dsimp only
    rw [RecManager.checkReserves_reserves]
    exact .checked
  | refreshReserves state =>
    obtain rfl := Option.some.inj h
    simp only [RecManager.refreshReserves_eq]
    exact .refreshed
  | pick g =>
    obtain rfl := Option.some.inj h
    rcases hp : s.mgr.reqStartRecordingReserve with _ | i
    · simp only [RecManager.pickReqStartRecordingReserve, hp]
      exact .notPicked
    · simp only [s.mgr.pick_eq g hp]
      exact .picked hp
  | timeout =>
    dsimp only [next] at h
    split at h
    · obtain rfl := Option.some.inj h
      exact .timeout
    · cases h
  | scheduleState b =>
    dsimp only [next] at h
    split at h
    · obtain rfl := Option.some.inj h
      exact .scheduleState
    · cases h
  | event e =>
    dsimp only [next] at h
    split at h
    · obtain rfl := Option.some.inj h
      cases e with
      | none => exact .noEvent
      | some e =>
        rw [onEvent_reserves]
        exact .followed ‹_›
    · cases h
  | other a b c =>
    obtain rfl := Option.some.inj h
    exact .other

end Table

/-! ## What every step keeps -/

namespace ReservesInv

variable {v w : Vector Reserve reserveNumMax}

theorem initial : ReservesInv (.replicate _ Reserve.clear) where
  distinct := fun i j _ _ hi => by simp at hi
  blank := fun k hk => by
    rw [Vector.getElem_replicate]
    exact .inr rfl
  clean := fun k hk => by simp

theorem removeAt (h : ReservesInv v) (i : ℕ) : ReservesInv (removeAt v i Reserve.clear) where
  distinct := h.distinct.removeAt rfl
  blank := h.blank.removeAt (.inr rfl)
  clean := h.clean.removeAt (by simp)

theorem sweep (h : ReservesInv v) (p : Reserve → Bool) :
    ReservesInv (Slots.sweep p Reserve.clear v) where
  distinct := h.distinct.sweep rfl
  blank := h.blank.sweep (.inr rfl)
  clean := h.clean.sweep (by simp)

theorem placed {a : SetArgs} {b : Bool} {st : Etime} (h : ReservesInv v) (hw : Placed v a b st w)
    (hfresh : ∀ j (hj : j < reserveNumMax), v[j].isUsed = true → v[j].key ≠ a.key) :
    ReservesInv w := by
  cases hw with
  | before i hi =>
    exact ⟨h.distinct.insertAt (by simpa using hfresh), h.blank.insertAt (.inl (by simp)),
      h.clean.insertAt (entry_not_terminal _ _ _)⟩
  | last i hl hi =>
    exact ⟨h.distinct.set (by simpa using hfresh), h.blank.set (.inl (by simp)),
      h.clean.set (entry_not_terminal _ _ _)⟩

theorem checked (h : ReservesInv v) (cur : Etime) :
    ReservesInv (Slots.sweep (RecManager.isFlagged .endErrorAlreadyPassed) Reserve.clear
      (RecManager.checkedTable cur v)) where
  distinct := (h.distinct.congr (by simp) (by simp)).sweep rfl
  blank := All.sweep (fun k hk => by simpa using h.blank k hk) (.inr rfl)
  clean := by
    have hall : All (fun r => RecManager.isFlagged .endErrorAlreadyPassed r = true ∨
        Flag.has r.state ReserveState.terminal = false) (RecManager.checkedTable cur v) := by
      intro k hk
      rcases RecManager.checkedTable_cases cur v k hk with he | he <;> rw [he]
      · exact .inr (h.clean k hk)
      · exact RecManager.checkedReserve_state cur (h.clean k hk)
    intro k hk
    have hz : RecManager.isFlagged .endErrorAlreadyPassed Reserve.clear = false := rfl
    have hc : Flag.has Reserve.clear.state ReserveState.terminal = false := by simp
    rcases hall.sweep (.inr hc) k hk with hp | hc
    · rw [sweep_not hz k hk] at hp
      cases hp
    · exact hc

theorem follow (h : ReservesInv v) (i : Fin reserveNumMax) (e : EpgEvent) :
    ReservesInv (v.set i (v[i].follow e) i.isLt) where
  distinct := by
    refine h.distinct.congr (fun k hk => ?_) fun k hk => ?_
    all_goals
      rw [Vector.getElem_set]
      split_ifs with hik
      · subst hik
        rfl
      · rfl
  blank := h.blank.set (h.blank i i.2)
  clean := h.clean.set (h.clean i i.2)

end ReservesInv

namespace Table

variable {s t : Table} {op : TableOp}

/-- **One step** keeps the invariant. -/
theorem next_reservesInv (hI : ReservesInv s.mgr.reserves) (h : next s op = some t) :
    ReservesInv t.mgr.reserves := by
  have he := next_effect hI h
  revert he
  generalize t.mgr.reserves = w
  intro he
  cases he with
  | added _ hacc _ hw => exact hI.placed hw fun j hj => s.mgr.addAccepted_fresh hacc j hj
  | removed | removedByIndex | picked => exact hI.removeAt _
  | checked => exact hI.checked _
  | refreshed => exact hI.sweep _
  | followed => exact hI.follow _ _
  | refused | missing | outOfTable | notPicked | timeout | scheduleState | noEvent | other => exact hI

/-- **Every run** keeps the invariant. -/
theorem reach_reservesInv {settings : Settings} {ok : Table → TableOp → Prop}
    (h : Machine.Reach next ok (initial settings) s) : ReservesInv s.mgr.reserves :=
  h.inv (fun s => ReservesInv s.mgr.reserves) ReservesInv.initial
    fun _ _ _ hI _ hn => next_reservesInv hI hn

/-! ## Example runs -/

/-- An event of the guide, for the example runs: service 3, event `id`. -/
def exampleEvent (id : UInt16) (startTime endTime : ℤ) : EpgEvent :=
  ⟨⟨1, 2, 3, id⟩, ⟨startTime, 0⟩, ⟨endTime, 0⟩, ""⟩

/-- A request to reserve the event. -/
def exampleAdd (e : EpgEvent) : TableOp :=
  .add (.event ⟨18, sequenceAddReserveEvent⟩ ⟨e.key, e.startTime, e.endTime, .none⟩ (some e) none)

end Table

end AutoRec
