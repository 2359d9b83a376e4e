import AutoRec.EventSchedule.Reserves
import Mathlib.Data.List.Infix

/-!
# The container of the schedules

`container` (`event_schedule_manager/event_schedule_container.cpp`): for each service the list of its
events. The file it is saved to, the dumps, and what of an event is only dumped or sorted by are left
out. The events are numbered as they are made, so that a number stands for the address of an event.

* `Container`, with `addScheduleMap`, `deleteScheduleMap`, `hasScheduleMap`, `getEvent`,
  `getEventAt`, `getEvents`.
* `EventRef`: an event that is handed out (`client_iface::event_t`), with its address.
* `Holds`: the address is that of an event of a service. What is handed out is held
  (`holds_getEvent`, …), and another service is not touched (`Holds.addScheduleMap`,
  `Holds.deleteScheduleMap`).
-/

namespace AutoRec

namespace EventSchedule

/-- `_service_key::operator <`. -/
def ServiceKey.lt (k obj : ServiceKey) : Bool :=
  if k.originalNetworkId < obj.originalNetworkId then true
  else if k.originalNetworkId = obj.originalNetworkId then
    if k.transportStreamId < obj.transportStreamId then true
    else if k.transportStreamId = obj.transportStreamId then decide (k.serviceId < obj.serviceId)
    else false
  else false

/-- `event`. -/
structure Event where
  key : ServiceKey
  eventId : UInt16
  startTime : Etime
  endTime : Etime
  eventName : String
  text : String
  extendedInfos : List (String × String)
deriving DecidableEq, Repr

/-- `client_iface::event_t`; `pEventName` and `pText` point into the event at the address `addr`. -/
structure EventRef where
  key : ServiceKey
  eventId : UInt16
  startTime : Etime
  endTime : Etime
  addr : ℕ
deriving DecidableEq, Repr

/-- `container`, with `sched_map_` in the order of its keys; `made` events have been made. -/
structure Container where
  schedMap : List (ServiceKey × List (ℕ × Event))
  made : ℕ
deriving DecidableEq, Repr

/-- `strstr` finds the keyword. -/
def strstr (s keyword : String) : Bool := decide (keyword.toList <:+: s.toList)

/-- The check of an event in `get_events`. -/
def Event.isHit (keyword : String) (isCheckExtendedEvent : Bool) (e : Event) : Bool :=
  if isCheckExtendedEvent then
    strstr e.text keyword ||
      e.extendedInfos.any fun ex => strstr ex.1 keyword || strstr ex.2 keyword
  else strstr e.eventName keyword

/-- What is handed out of an event. -/
def EventRef.of (p : ℕ × Event) : EventRef :=
  ⟨p.2.key, p.2.eventId, p.2.startTime, p.2.endTime, p.1⟩

/-- `sched_map_.insert`: nothing happens if the key is there. -/
def insertSched (key : ServiceKey) (sched : List (ℕ × Event)) :
    List (ServiceKey × List (ℕ × Event)) → List (ServiceKey × List (ℕ × Event))
  | [] => [(key, sched)]
  | entry :: l =>
    if key.lt entry.1 then (key, sched) :: entry :: l
    else if entry.1.lt key then entry :: insertSched key sched l
    else entry :: l

namespace Container

variable (c : Container)

/-- `add_schedule_map`, with the events that are made for it. -/
def addScheduleMap (key : ServiceKey) (sched : List Event) : Container where
  schedMap := insertSched key ((List.range' c.made sched.length).zip sched) c.schedMap
  made := c.made + sched.length

/-- `delete_schedule_map`. -/
def deleteScheduleMap (key : ServiceKey) : Container :=
  { c with schedMap := c.schedMap.filter fun entry => entry.1 != key }

/-- The list of a service, `[]` if there is none. -/
def schedule (key : ServiceKey) : List (ℕ × Event) :=
  ((c.schedMap.find? fun entry => entry.1 == key).map Prod.snd).getD []

/-- `has_schedule_map`. -/
def hasScheduleMap (key : ServiceKey) : Bool := !(c.schedule key).isEmpty

/-- `get_event`, with the number of the event. -/
def getEvent (key : ServiceKey) (eventId : UInt16) : Option EventRef :=
  ((c.schedule key).find? fun p => p.2.key == key && p.2.eventId == eventId).map EventRef.of

/-- `get_event`, with the index in the list. -/
def getEventAt (key : ServiceKey) (index : ℤ) : Option EventRef :=
  if index < 0 then none else ((c.schedule key)[index.toNat]?).map EventRef.of

/-- `get_events`, for at most `outArrayNum` events. -/
def getEvents (keyword : String) (outArrayNum : ℕ) (isCheckExtendedEvent : Bool) : List EventRef :=
  (((c.schedMap.flatMap Prod.snd).filter fun p =>
    p.2.isHit keyword isCheckExtendedEvent).take outArrayNum).map EventRef.of

/-- An event of the service is at the address. -/
def Holds (key : ServiceKey) (addr : ℕ) : Prop :=
  ∃ entry ∈ c.schedMap, entry.1 = key ∧ ∃ p ∈ entry.2, p.1 = addr

instance instDecidableHolds (key : ServiceKey) (addr : ℕ) : Decidable (c.Holds key addr) :=
  inferInstanceAs (Decidable (∃ entry ∈ c.schedMap, entry.1 = key ∧ ∃ p ∈ entry.2, p.1 = addr))

/-- An event is at the address. -/
def isStored (addr : ℕ) : Bool := c.schedMap.any fun entry => entry.2.any fun p => p.1 == addr

variable {c}

theorem isStored_iff {addr : ℕ} : c.isStored addr = true ↔ ∃ key, c.Holds key addr := by
  simp only [isStored, Holds, List.any_eq_true, beq_iff_eq]
  constructor
  · rintro ⟨entry, hentry, p, hp, haddr⟩
    exact ⟨entry.1, entry, hentry, rfl, p, hp, haddr⟩
  · rintro ⟨_, entry, hentry, -, p, hp, haddr⟩
    exact ⟨entry, hentry, p, hp, haddr⟩

theorem Holds.isStored {key : ServiceKey} {addr : ℕ} (h : c.Holds key addr) :
    c.isStored addr = true := isStored_iff.mpr ⟨key, h⟩

theorem mem_insertSched {key : ServiceKey} {sched : List (ℕ × Event)}
    {entry : ServiceKey × List (ℕ × Event)} {l : List (ServiceKey × List (ℕ × Event))}
    (h : entry ∈ l) : entry ∈ insertSched key sched l := by
  induction l with
  | nil => exact absurd h List.not_mem_nil
  | cons first l ih =>
    unfold insertSched
    split
    · exact List.mem_cons_of_mem _ h
    · split
      · rcases List.mem_cons.mp h with rfl | h'
        · exact List.mem_cons_self
        · exact List.mem_cons_of_mem _ (ih h')
      · exact h

theorem Holds.addScheduleMap {key : ServiceKey} {addr : ℕ} (h : c.Holds key addr)
    (key' : ServiceKey) (sched : List Event) : (c.addScheduleMap key' sched).Holds key addr := by
  obtain ⟨entry, hentry, hkey, hp⟩ := h
  exact ⟨entry, mem_insertSched hentry, hkey, hp⟩

theorem Holds.deleteScheduleMap {key key' : ServiceKey} {addr : ℕ} (h : c.Holds key addr)
    (hne : key ≠ key') : (c.deleteScheduleMap key').Holds key addr := by
  obtain ⟨entry, hentry, rfl, hp⟩ := h
  exact ⟨entry, List.mem_filter.mpr ⟨hentry, bne_iff_ne.mpr hne⟩, rfl, hp⟩

theorem holds_of_mem_schedule {key : ServiceKey} {p : ℕ × Event} (h : p ∈ c.schedule key) :
    c.Holds key p.1 := by
  unfold schedule at h
  rcases hfind : c.schedMap.find? fun entry => entry.1 == key with _ | entry
  · rw [hfind] at h
    exact absurd h List.not_mem_nil
  · rw [hfind] at h
    have hkey : entry.1 = key := by simpa using List.find?_some hfind
    exact ⟨entry, List.mem_of_find?_eq_some hfind, hkey, p, h, rfl⟩

theorem holds_getEvent {key : ServiceKey} {eventId : UInt16} {e : EventRef}
    (h : c.getEvent key eventId = some e) : c.Holds key e.addr := by
  obtain ⟨p, hp, rfl⟩ := Option.map_eq_some_iff.mp h
  exact holds_of_mem_schedule (List.mem_of_find?_eq_some hp)

theorem getEvent_key {key : ServiceKey} {eventId : UInt16} {e : EventRef}
    (h : c.getEvent key eventId = some e) : e.key = key ∧ e.eventId = eventId := by
  obtain ⟨p, hp, rfl⟩ := Option.map_eq_some_iff.mp h
  have hboth : (p.2.key == key && p.2.eventId == eventId) = true :=
    (List.find?_eq_some_iff_append.mp hp).1
  obtain ⟨hkey, hid⟩ := Bool.and_eq_true_iff.mp hboth
  exact ⟨beq_iff_eq.mp hkey, beq_iff_eq.mp hid⟩

theorem holds_getEventAt {key : ServiceKey} {index : ℤ} {e : EventRef}
    (h : c.getEventAt key index = some e) : c.Holds key e.addr := by
  unfold getEventAt at h
  split at h
  · cases h
  · obtain ⟨p, hp, rfl⟩ := Option.map_eq_some_iff.mp h
    exact holds_of_mem_schedule (List.mem_of_getElem? hp)

theorem holds_getEvents {keyword : String} {n : ℕ} {b : Bool} {e : EventRef}
    (h : e ∈ c.getEvents keyword n b) : ∃ key, c.Holds key e.addr := by
  obtain ⟨p, hp, rfl⟩ := List.mem_map.mp h
  have hmem := (List.mem_filter.mp (List.mem_of_mem_take hp)).1
  obtain ⟨entry, hentry, hin⟩ := List.mem_flatMap.mp hmem
  exact ⟨entry.1, entry, hentry, rfl, p, hin, rfl⟩

end Container

end EventSchedule

end AutoRec
