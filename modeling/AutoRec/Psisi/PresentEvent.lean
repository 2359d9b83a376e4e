import AutoRec.Psisi.Manager
import Mathlib.Data.List.Induction

/-!
# The event that is on the air

`on_get_present_event_info` and `on_get_follow_event_info` (`psisi_manager/psisi_manager.cpp`),
behind `cache_event_pf_infos` and `check_event_pf_infos`. Of a table the last event is kept, and an
end that is not yet known counts as a duration of minus one second.

* `EventInfo`, `onGetPresentEventInfo`, `onGetFollowEventInfo`: the requests.
* `EitEvent.OnAir`, `FindsPresent`: what is asked of the first one.
* `ofTable_eq`: what is kept of a table; `cacheEventPfInfos_eq`: what is kept, if there is room.
* `check_eq`: the three states of an entry; `onGetEventInfo_iff`: when a request is answered.
* **`findsPresent_iff`**; `not_findsPresent`: an event without an end is never found.
-/

namespace AutoRec

/-! ## The requests -/

/-- The key of an entry. -/
def EventPfInfo.key (i : EventPfInfo) : ServiceKey :=
  ⟨i.tableId, i.transportStreamId, i.originalNetworkId, i.serviceId⟩

/-- `psisi_structs::event_info_t`. -/
structure EventInfo where
  key : ServiceKey
  eventId : UInt16
  startTime : Etime
  endTime : Etime
  eventNameChar : List UInt8
deriving DecidableEq, Repr

/-- What is written for an entry. The name is copied without its NUL, so that the characters behind
it stay. -/
def EventInfo.write (i : EventPfInfo) (out : EventInfo) : EventInfo where
  key := i.key
  eventId := i.eventId
  startTime := i.startTime
  endTime := i.endTime
  eventNameChar := i.eventName ++ out.eventNameChar.drop i.eventName.length

namespace PsisiManager

/-- The two requests, with `p_out_event_info`; `none` is an error. -/
def onGetEventInfo (state : EventPfState) (m : PsisiManager) (key : ServiceKey)
    (out : Option EventInfo) : Option EventInfo :=
  out.bind fun out =>
    (findEventPfInfo { key with tableId := tblidEitPfA } state m.eventPfInfos).map fun i =>
      out.write i

/-- `on_get_present_event_info`. -/
def onGetPresentEventInfo : PsisiManager → ServiceKey → Option EventInfo → Option EventInfo :=
  onGetEventInfo .present

/-- `on_get_follow_event_info`. -/
def onGetFollowEventInfo : PsisiManager → ServiceKey → Option EventInfo → Option EventInfo :=
  onGetEventInfo .follow

end PsisiManager

/-! ## What is asked -/

/-- The duration that stands for an end that is not yet known. -/
def undefinedDuration : List UInt8 := [0xff, 0xff, 0xff]

/-- The key of a table. -/
def EventInformationTable.key (t : EventInformationTable) : ServiceKey :=
  ⟨t.header.tableId, t.transportStreamId, t.originalNetworkId, t.header.tableIdExtension⟩

/-- The events of a table, without those that carry no information. -/
def EventInformationTable.pfEvents (t : EventInformationTable) : List EitEvent :=
  t.events.filter fun e => e.eventId != 0

/-- The last one of these. -/
def EventInformationTable.lastEvent (t : EventInformationTable) : Option EitEvent :=
  t.pfEvents.getLast?

namespace EitEvent

variable (E : Conversions)

/-- `start_time`. -/
def start (e : EitEvent) : Etime := ⟨E.getEpochFromMjd e.startTime, 0⟩

/-- `end_time`, if the duration is defined. -/
def stop (e : EitEvent) : Etime := (e.start E).addSec (getSecFromBcd e.duration)

/-- **On the air**: begun, and with an end that is not known or does not lie before `now`. -/
structure OnAir (now : ℤ) (e : EitEvent) : Prop where
  begun : e.start E ≤ .setCurrentTime now
  notOver : e.duration = undefinedDuration ∨ Etime.setCurrentTime now ≤ e.stop E

instance (now : ℤ) (e : EitEvent) : Decidable (e.OnAir E now) :=
  decidable_of_iff (e.start E ≤ .setCurrentTime now ∧
    (e.duration = undefinedDuration ∨ Etime.setCurrentTime now ≤ e.stop E))
    ⟨fun h => ⟨h.1, h.2⟩, fun h => ⟨h.begun, h.notOver⟩⟩

/-- The answer is this event, of the service with the key. -/
def IsReportedBy (key : ServiceKey) (info : EventInfo) (e : EitEvent) : Prop :=
  info.key = key ∧ info.eventId = e.eventId ∧ info.startTime = e.start E ∧
    (e.duration ≠ undefinedDuration → info.endTime = e.stop E)

instance (key : ServiceKey) (info : EventInfo) (e : EitEvent) :
    Decidable (e.IsReportedBy E key info) :=
  inferInstanceAs (Decidable (_ ∧ _))

end EitEvent

namespace PsisiManager

variable (E : Conversions) (now : ℤ) (s : ServiceInfo) (m : PsisiManager)

/-- The actual p/f tables of a service, with their addresses. -/
def pfTables : List (ℕ × EventInformationTable) :=
  m.mEITH.ext.tables.filter fun t => t.2.key == { s.key with tableId := tblidEitPfA }

/-- The events in these tables. -/
def pfEvents : List EitEvent := (m.pfTables s).flatMap fun t => t.2.pfEvents

/-- The last event of each of them. -/
def lastEvents : List EitEvent := (m.pfTables s).filterMap fun t => t.2.lastEvent

/-- What the tables give for the services that are tuned: an event for each table that has one. -/
def givenEvents : List EitEvent :=
  (m.serviceInfos.filter fun s => s.isTuneTarget).flatMap m.lastEvents

/-- **The present event is found**: if an event of the service is on the air, the request is
answered with one that is. -/
def FindsPresent (out : EventInfo) : Prop :=
  (∃ e ∈ m.pfEvents s, e.OnAir E now) →
    ∃ info ∈ (m.recacheEventPfInfos E now).onGetPresentEventInfo s.key (some out),
      ∃ e ∈ m.pfEvents s, e.OnAir E now ∧
        e.IsReportedBy E { s.key with tableId := tblidEitPfA } info

instance (out : EventInfo) : Decidable (m.FindsPresent E now s out) :=
  inferInstanceAs (Decidable (_ → _))

end PsisiManager

/-! ## What is kept of a table -/

namespace EventPfInfo

variable (E : Conversions)

/-- The entry, with an event and a name in it. -/
def withEvent (i : EventPfInfo) (last : Option EitEvent) (n : List UInt8) : EventPfInfo :=
  match last with
  | none => { i with eventName := n }
  | some e =>
    { i with eventId := e.eventId, startTime := e.start E, endTime := e.stop E, eventName := n }

/-- The entry is for the event `e` of the service with the key. -/
structure IsFor (key : ServiceKey) (e : EitEvent) (i : EventPfInfo) : Prop where
  key_eq : i.key = key
  eventId_eq : i.eventId = e.eventId
  startTime_eq : i.startTime = e.start E
  endTime_eq : i.endTime = e.stop E

end EventPfInfo

section Tables

variable {E : Conversions} {key : ServiceKey} {a : ℕ} {t : EventInformationTable} {e : EitEvent}

theorem readDescriptors_eq (ds : List Descriptor) (i : EventPfInfo) :
    ∃ n, ds.foldl (EventPfInfo.readDescriptor E) i = { i with eventName := n } := by
  induction ds generalizing i with
  | nil => exact ⟨i.eventName, rfl⟩
  | cons d ds ih =>
    have hd : ∃ n, i.readDescriptor E d = { i with eventName := n } := by
      unfold EventPfInfo.readDescriptor
      split
      · split
        · exact ⟨_, rfl⟩
        · exact ⟨i.eventName, rfl⟩
      · exact ⟨i.eventName, rfl⟩
    obtain ⟨n, hn⟩ := hd
    rw [List.foldl_cons, hn]
    exact ih _

theorem readEvent_eq (i : EventPfInfo) (he : e.eventId ≠ 0) :
    ∃ n, i.readEvent E e = i.withEvent E (some e) n := by
  rw [EventPfInfo.readEvent, if_neg he]
  exact readDescriptors_eq e.descriptors _

/-- Of all the events the last one is kept, perhaps with the name of another. -/
theorem readEvents_eq (i : EventPfInfo) (events : List EitEvent) :
    ∃ n, events.foldl (EventPfInfo.readEvent E) i =
      i.withEvent E (events.filter fun e => e.eventId != 0).getLast? n := by
  induction events using List.reverseRecOn with
  | nil => exact ⟨i.eventName, rfl⟩
  | append_singleton events e ih =>
    obtain ⟨n, hn⟩ := ih
    rw [List.foldl_append, List.foldl_cons, List.foldl_nil, hn, List.filter_append]
    by_cases he : e.eventId = 0
    · have hskip : [e].filter (fun e => e.eventId != 0) = [] := by simp [he]
      rw [EventPfInfo.readEvent, if_pos he, hskip, List.append_nil]
      exact ⟨n, rfl⟩
    · have hkeep : [e].filter (fun e => e.eventId != 0) = [e] := by simp [he]
      obtain ⟨n', hn'⟩ := readEvent_eq (E := E)
        (i.withEvent E (events.filter fun e => e.eventId != 0).getLast? n) he
      rw [hn', hkeep, List.getLast?_append, List.getLast?_singleton, Option.some_or]
      refine ⟨n', ?_⟩
      cases (events.filter fun e => e.eventId != 0).getLast? with
      | none => rfl
      | some e => rfl

theorem eventId_of_lastEvent (h : t.lastEvent = some e) : e ∈ t.pfEvents ∧ e.eventId ≠ 0 := by
  have he : e ∈ t.pfEvents := List.mem_of_getLast? h
  exact ⟨he, by simpa using (List.mem_filter.mp he).2⟩

/-- **What is kept of a table**: its last event. -/
theorem ofTable_eq (h : t.lastEvent = some e) :
    ∃ i, EventPfInfo.ofTable E a t = some i ∧ i.IsFor E t.key e := by
  obtain ⟨n, hn⟩ := readEvents_eq (E := E) { EventPfInfo.clear with
    tableId := t.header.tableId
    transportStreamId := t.transportStreamId
    originalNetworkId := t.originalNetworkId
    serviceId := t.header.tableIdExtension } t.events
  change (t.events.filter fun e => e.eventId != 0).getLast? = some e at h
  rw [h] at hn
  rw [EventPfInfo.ofTable, hn]
  exact ⟨_, if_neg (eventId_of_lastEvent h).2, rfl, rfl, rfl, rfl⟩

theorem ofTable_eq_none (h : t.lastEvent = none) : EventPfInfo.ofTable E a t = none := by
  obtain ⟨n, hn⟩ := readEvents_eq (E := E) { EventPfInfo.clear with
    tableId := t.header.tableId
    transportStreamId := t.transportStreamId
    originalNetworkId := t.originalNetworkId
    serviceId := t.header.tableIdExtension } t.events
  change (t.events.filter fun e => e.eventId != 0).getLast? = none at h
  rw [h] at hn
  rw [EventPfInfo.ofTable, hn]
  exact if_pos rfl

end Tables

/-! ## What is kept in the array -/

section Array

variable {E : Conversions} {key : ServiceKey} {a : ℕ} {t : EventInformationTable}
  {tables : List (ℕ × EventInformationTable)} {m : PsisiManager} {s : ServiceInfo} {i : EventPfInfo}

/-- The entries for the tables with a key, if there is room for all of them. -/
def EventPfInfo.ofTables (E : Conversions) (key : ServiceKey)
    (tables : List (ℕ × EventInformationTable)) : List EventPfInfo :=
  (tables.filter fun t => t.2.key == key).filterMap fun t => EventPfInfo.ofTable E t.1 t.2

theorem ofTables_cons_of_ne (h : t.key ≠ key) :
    EventPfInfo.ofTables E key ((a, t) :: tables) = EventPfInfo.ofTables E key tables := by
  rw [EventPfInfo.ofTables, List.filter_cons_of_neg (by simpa using h)]
  rfl

theorem ofTables_cons (h : t.key = key) :
    EventPfInfo.ofTables E key ((a, t) :: tables) =
      (EventPfInfo.ofTable E a t).toList ++ EventPfInfo.ofTables E key tables := by
  rw [EventPfInfo.ofTables, List.filter_cons_of_pos (by simpa using h), List.filterMap_cons]
  cases EventPfInfo.ofTable E a t with
  | none => rfl
  | some i => rfl

theorem cacheEvents_eq {l : List EventPfInfo}
    (h : l.length + (EventPfInfo.ofTables E key tables).length ≤ eventPfInfosMax) :
    cacheEvents E key tables l = l ++ EventPfInfo.ofTables E key tables := by
  induction tables generalizing l with
  | nil => exact (List.append_nil l).symm
  | cons p tables ih =>
    obtain ⟨a, t⟩ := p
    change (if t.key ≠ key then _ else _) = _
    by_cases hkey : t.key = key
    · rw [if_neg (not_not.mpr hkey)]
      by_cases hfull : eventPfInfosMax ≤ l.length
      · -- the array is full, and what is left gives nothing
        have hnil : EventPfInfo.ofTables E key ((a, t) :: tables) = [] := by
          apply List.eq_nil_of_length_eq_zero
          omega
        rw [if_pos hfull, hnil, List.append_nil]
      · rw [ofTables_cons hkey] at h ⊢
        rw [if_neg hfull, ih, List.append_assoc]
        rw [List.length_append] at h ⊢
        omega
    · rw [if_pos hkey]
      rw [ofTables_cons_of_ne hkey] at h ⊢
      exact ih h

/-- The entries for the tables of a service. -/
def PsisiManager.pfInfos (E : Conversions) (m : PsisiManager) (s : ServiceInfo) :
    List EventPfInfo :=
  EventPfInfo.ofTables E { s.key with tableId := tblidEitPfA } m.mEITH.ext.tables

theorem length_pfInfos : (m.pfInfos E s).length = (m.lastEvents s).length := by
  rw [PsisiManager.pfInfos, EventPfInfo.ofTables, PsisiManager.lastEvents, PsisiManager.pfTables,
    List.length_filterMap_eq_countP, List.length_filterMap_eq_countP]
  apply List.countP_congr
  intro t _
  cases h : t.2.lastEvent with
  | none => simp [ofTable_eq_none h]
  | some e =>
    obtain ⟨i, hi, -⟩ := ofTable_eq (E := E) (a := t.1) h
    simp [hi]

/-- **The array**, if there is room: the entries of the services that are tuned. -/
theorem cacheEventPfInfos_eq (h : m.givenEvents.length ≤ eventPfInfosMax) :
    cacheEventPfInfos E m.mEITH.ext m.serviceInfos =
      (m.serviceInfos.filter fun s => s.isTuneTarget).flatMap (m.pfInfos E) := by
  have hrun : ∀ (services : List ServiceInfo) (l : List EventPfInfo),
      l.length + (services.flatMap m.lastEvents).length ≤ eventPfInfosMax →
      services.foldl (fun l s => cacheEvents E { s.key with tableId := tblidEitPfA }
        m.mEITH.ext.tables l) l = l ++ services.flatMap (m.pfInfos E) := by
    intro services
    induction services with
    | nil => exact fun l _ => (List.append_nil l).symm
    | cons s services ih =>
      intro l hl
      rw [List.flatMap_cons, List.length_append, ← length_pfInfos (E := E)] at hl
      have hs : cacheEvents E { s.key with tableId := tblidEitPfA } m.mEITH.ext.tables l =
          l ++ m.pfInfos E s := by
        apply cacheEvents_eq
        change l.length + (m.pfInfos E s).length ≤ _
        omega
      rw [List.foldl_cons, hs, ih, List.flatMap_cons, List.append_assoc]
      rw [List.length_append]
      omega
  have h₀ := hrun (m.serviceInfos.filter fun s => s.isTuneTarget) []
  rw [List.length_nil, Nat.zero_add, List.nil_append] at h₀
  exact h₀ h

theorem mem_cacheEventPfInfos (h : m.givenEvents.length ≤ eventPfInfosMax) :
    i ∈ cacheEventPfInfos E m.mEITH.ext m.serviceInfos ↔
      ∃ s ∈ m.serviceInfos, s.isTuneTarget = true ∧
        ∃ t ∈ m.pfTables s, EventPfInfo.ofTable E t.1 t.2 = some i := by
  rw [cacheEventPfInfos_eq h, List.mem_flatMap]
  constructor
  · rintro ⟨s, hs, hi⟩
    have htuned := List.mem_filter.mp hs
    exact ⟨s, htuned.1, htuned.2, List.mem_filterMap.mp hi⟩
  · rintro ⟨s, hs, htuned, hi⟩
    exact ⟨s, List.mem_filter.mpr ⟨hs, htuned⟩, List.mem_filterMap.mpr hi⟩

end Array

/-! ## The states -/

section States

variable {E : Conversions} {now : ℤ} {key : ServiceKey} {state : EventPfState} {e : EitEvent}
  {i j : EventPfInfo} {l : List EventPfInfo}

/-- The state of the event, as it is worked out. -/
def EitEvent.stateAt (E : Conversions) (now : ℤ) (e : EitEvent) : EventPfState :=
  if Etime.setCurrentTime now < e.start E then .follow
  else if e.stop E < Etime.setCurrentTime now then .alreadyPassed
  else .present

/-- **The three states**: the last branch of `check_event_pf_infos` is never taken. -/
theorem check_eq : i.check now =
    { i with
      state :=
        if Etime.setCurrentTime now < i.startTime then .follow
        else if i.endTime < Etime.setCurrentTime now then .alreadyPassed
        else .present } := by
  unfold EventPfInfo.check
  by_cases hstart : Etime.setCurrentTime now < i.startTime
  · simp [hstart, not_le.mpr hstart]
  · by_cases hend : i.endTime < Etime.setCurrentTime now
    · simp [hstart, hend, not_le.mpr hend]
    · simp [hstart, hend, not_lt.mp hstart, not_lt.mp hend]

theorem EventPfInfo.IsFor.state_check (h : i.IsFor E key e) :
    (i.check now).state = e.stateAt E now := by
  rw [check_eq, EitEvent.stateAt, ← h.startTime_eq, ← h.endTime_eq]

theorem stateAt_eq_follow : e.stateAt E now = .follow ↔ .setCurrentTime now < e.start E := by
  unfold EitEvent.stateAt
  split_ifs <;> simp_all

/-- An undefined duration makes an end that lies before the start. -/
theorem stop_lt_start (h : e.duration = undefinedDuration) : e.stop E < e.start E := by
  have hsec : getSecFromBcd e.duration = -1 := by rw [h]; rfl
  rw [EitEvent.stop, hsec, Etime.lt_def]
  left
  show (e.start E).tvSec + -1 < (e.start E).tvSec
  omega

/-- **Which events count as present**: those on the air, with a defined duration. -/
theorem stateAt_eq_present : e.stateAt E now = .present ↔
    e.OnAir E now ∧ e.duration ≠ undefinedDuration := by
  have htimes : e.stateAt E now = .present ↔
      e.start E ≤ .setCurrentTime now ∧ .setCurrentTime now ≤ e.stop E := by
    unfold EitEvent.stateAt
    rw [← not_lt, ← not_lt]
    split_ifs <;> simp_all
  rw [htimes]
  constructor
  · rintro ⟨hstart, hstop⟩
    refine ⟨⟨hstart, .inr hstop⟩, fun hdur => ?_⟩
    exact absurd (hstart.trans hstop) (not_le.mpr (stop_lt_start hdur))
  · rintro ⟨hair, hdur⟩
    exact ⟨hair.begun, hair.notOver.resolve_left hdur⟩

theorem find_check (h : findEventPfInfo key state (checkEventPfInfos now l) = some j) :
    ∃ i ∈ l, j = i.check now ∧ i.key = key ∧ (i.check now).state = state := by
  have hj := List.find?_some h
  obtain ⟨i, hi, rfl⟩ := List.mem_map.mp (List.mem_of_find?_eq_some h)
  have hboth := Bool.and_eq_true_iff.mp hj
  refine ⟨i, hi, rfl, ?_, eq_of_beq hboth.1⟩
  have hkey : (i.check now).key = key := eq_of_beq hboth.2
  rw [check_eq] at hkey
  exact hkey

theorem exists_find (hi : i ∈ l) (hkey : i.key = key) (hstate : (i.check now).state = state) :
    ∃ j, findEventPfInfo key state (checkEventPfInfos now l) = some j := by
  have hkey' : (i.check now).key = key := by rw [check_eq]; exact hkey
  apply Option.isSome_iff_exists.mp
  rw [findEventPfInfo, List.find?_isSome]
  refine ⟨i.check now, List.mem_map_of_mem hi, ?_⟩
  rw [hstate, beq_self_eq_true, Bool.true_and]
  exact beq_iff_eq.mpr hkey'

end States

/-! ## The answer -/

section Answer

variable {E : Conversions} {now : ℤ} {state : EventPfState} {m : PsisiManager} {s : ServiceInfo}
  {out info : EventInfo}

theorem key_of_mem_pfTables {t : ℕ × EventInformationTable} (h : t ∈ m.pfTables s) :
    t.2.key = { s.key with tableId := tblidEitPfA } := eq_of_beq (List.mem_filter.mp h).2

theorem mem_lastEvents {e : EitEvent} (h : e ∈ m.lastEvents s) : e ∈ m.pfEvents s := by
  obtain ⟨t, ht, he⟩ := List.mem_filterMap.mp h
  exact List.mem_flatMap.mpr ⟨t, ht, (eventId_of_lastEvent he).1⟩

/-- An answer is for the last event of a table of the service, in the state that is asked for. -/
theorem onGetEventInfo_spec (hcap : m.givenEvents.length ≤ eventPfInfosMax)
    (h : (m.recacheEventPfInfos E now).onGetEventInfo state s.key (some out) = some info) :
    ∃ e ∈ m.lastEvents s, e.stateAt E now = state ∧
      e.IsReportedBy E { s.key with tableId := tblidEitPfA } info := by
  obtain ⟨j, hj, rfl⟩ := Option.map_eq_some_iff.mp h
  obtain ⟨i, hi, rfl, hkey, hstate⟩ := find_check hj
  obtain ⟨s', -, -, t, ht, hof⟩ := (mem_cacheEventPfInfos hcap).mp hi
  cases he : t.2.lastEvent with
  | none =>
    rw [ofTable_eq_none he] at hof
    cases hof
  | some e =>
    obtain ⟨i', hi', hfor⟩ := ofTable_eq (E := E) (a := t.1) he
    obtain rfl : i' = i := Option.some.inj (hi'.symm.trans hof)
    -- the table may be that of another entry, but its key is that of `s`
    have htable : t ∈ m.pfTables s :=
      List.mem_filter.mpr ⟨(List.mem_filter.mp ht).1, beq_iff_eq.mpr (hfor.key_eq.symm.trans hkey)⟩
    refine ⟨e, List.mem_filterMap.mpr ⟨t, htable, he⟩, hfor.state_check.symm.trans hstate, ?_⟩
    rw [check_eq]
    exact ⟨hkey, hfor.eventId_eq, hfor.startTime_eq, fun _ => hfor.endTime_eq⟩

/-- **When a request is answered**: the last event of a table is in the state. -/
theorem onGetEventInfo_iff (E : Conversions) (now : ℤ) (state : EventPfState) (out : EventInfo)
    (hs : s ∈ m.serviceInfos) (htuned : s.isTuneTarget = true)
    (hcap : m.givenEvents.length ≤ eventPfInfosMax) :
    (∃ info, (m.recacheEventPfInfos E now).onGetEventInfo state s.key (some out) = some info) ↔
      ∃ e ∈ m.lastEvents s, e.stateAt E now = state := by
  constructor
  · rintro ⟨info, hinfo⟩
    obtain ⟨e, he, hstate, -⟩ := onGetEventInfo_spec hcap hinfo
    exact ⟨e, he, hstate⟩
  · rintro ⟨e, he, hstate⟩
    obtain ⟨t, ht, hlast⟩ := List.mem_filterMap.mp he
    obtain ⟨i, hi, hfor⟩ := ofTable_eq (E := E) (a := t.1) hlast
    have hmem : i ∈ cacheEventPfInfos E m.mEITH.ext m.serviceInfos :=
      (mem_cacheEventPfInfos hcap).mpr ⟨s, hs, htuned, t, ht, hi⟩
    obtain ⟨j, hj⟩ := exists_find hmem (hfor.key_eq.trans (key_of_mem_pfTables ht))
      (hfor.state_check.trans hstate)
    refine ⟨EventInfo.write j out, ?_⟩
    change (findEventPfInfo _ _ _).map _ = _
    exact congrArg (Option.map fun i => EventInfo.write i out) hj

/-- **The following event** is found if the last event of a table has not begun yet. -/
theorem onGetFollowEventInfo_iff (out : EventInfo) (hs : s ∈ m.serviceInfos)
    (htuned : s.isTuneTarget = true) (hcap : m.givenEvents.length ≤ eventPfInfosMax) :
    (∃ info, (m.recacheEventPfInfos E now).onGetFollowEventInfo s.key (some out) = some info) ↔
      ∃ e ∈ m.lastEvents s, Etime.setCurrentTime now < e.start E := by
  rw [PsisiManager.onGetFollowEventInfo, onGetEventInfo_iff E now .follow out hs htuned hcap]
  simp only [stateAt_eq_follow]

/-- **The present event is found** if and only if, when an event of the service is on the air, the
last event of one of its tables is, with a defined duration. -/
theorem findsPresent_iff (E : Conversions) (now : ℤ) (out : EventInfo) (hs : s ∈ m.serviceInfos)
    (htuned : s.isTuneTarget = true) (hcap : m.givenEvents.length ≤ eventPfInfosMax) :
    m.FindsPresent E now s out ↔ ((∃ e ∈ m.pfEvents s, e.OnAir E now) →
      ∃ e ∈ m.lastEvents s, e.OnAir E now ∧ e.duration ≠ undefinedDuration) := by
  have hanswer := onGetEventInfo_iff E now .present out hs htuned hcap
  simp only [stateAt_eq_present] at hanswer
  apply imp_congr_right
  intro _
  rw [← hanswer]
  constructor
  · rintro ⟨info, hinfo, -⟩
    exact ⟨info, hinfo⟩
  · rintro ⟨info, hinfo⟩
    obtain ⟨e, he, hstate, hreport⟩ := onGetEventInfo_spec hcap hinfo
    exact ⟨info, hinfo, e, mem_lastEvents he, (stateAt_eq_present.mp hstate).1, hreport⟩

end Answer

/-- A buffer that has been cleared. -/
def clearedInfo : EventInfo := ⟨⟨0, 0, 0, 0⟩, 0, .clear, .clear, List.replicate 1024 0⟩

/-- The event of `eitPresent` is found, one second after its start. -/
theorem findsPresent_iff_eitPresent : ∃ m s,
    Machine.exec (PsisiManager.step conversionsOfDate) .init
      [noticeOf .sdt (true, 0 :: sdtFirst) sdtFirst_size,
        noticeOf .eitHPf (true, 0 :: eitPresent) eitPresent_size] = some m ∧
      s ∈ m.serviceInfos ∧ (∃ e ∈ m.pfEvents s, e.OnAir conversionsOfDate 1672498801) ∧
      m.FindsPresent conversionsOfDate 1672498801 s clearedInfo := by
  have hrun : (Machine.exec (PsisiManager.step conversionsOfDate) .init
      [noticeOf .sdt (true, 0 :: sdtFirst) sdtFirst_size,
        noticeOf .eitHPf (true, 0 :: eitPresent) eitPresent_size]).map (fun m =>
      decide (m.givenEvents.length ≤ eventPfInfosMax ∧ ∃ s ∈ m.serviceInfos, s.isTuneTarget = true ∧
        ∃ e ∈ m.lastEvents s, e.OnAir conversionsOfDate 1672498801 ∧
          e.duration ≠ undefinedDuration)) = some true := by
    decide +kernel
  obtain ⟨m, hm, hall⟩ := Option.map_eq_some_iff.mp hrun
  obtain ⟨hcap, s, hs, htuned, hshown⟩ := of_decide_eq_true hall
  have hfinds : m.FindsPresent conversionsOfDate 1672498801 s clearedInfo :=
    (findsPresent_iff conversionsOfDate 1672498801 clearedInfo hs htuned hcap).mpr fun _ => hshown
  obtain ⟨e, he, hair, -⟩ := hshown
  exact ⟨m, s, hm, hs, ⟨e, mem_lastEvents he, hair⟩, hfinds⟩

/-- The event of `eitPresent`, with an end that is not yet known. -/
def eitOpenEnd : List UInt8 :=
  [78, 240, 27, 4, 0, 195, 0, 1, 0, 4, 0, 4, 1, 78, 0, 7, 234, 41, 0, 0, 0, 255, 255, 255, 240, 0,
    3, 179, 61, 57]

/-- **It is not found**, one second after its start. -/
theorem not_findsPresent : ∃ m s,
    Machine.exec (PsisiManager.step conversionsOfDate) .init
      [noticeOf .sdt (true, 0 :: sdtFirst) sdtFirst_size,
        noticeOf .eitHPf (true, 0 :: eitOpenEnd) (by decide)] = some m ∧
      (s ∈ m.serviceInfos ∧ s.isTuneTarget = true) ∧ m.givenEvents.length ≤ eventPfInfosMax ∧
      ¬ m.FindsPresent conversionsOfDate 1672498801 s clearedInfo := by
  have hrun : (Machine.exec (PsisiManager.step conversionsOfDate) .init
      [noticeOf .sdt (true, 0 :: sdtFirst) sdtFirst_size,
        noticeOf .eitHPf (true, 0 :: eitOpenEnd) (by decide)]).map (fun m =>
      decide (∃ s ∈ m.serviceInfos, s.isTuneTarget = true ∧
        m.givenEvents.length ≤ eventPfInfosMax ∧
        ¬ m.FindsPresent conversionsOfDate 1672498801 s clearedInfo)) = some true := by
    decide +kernel
  obtain ⟨m, hm, hall⟩ := Option.map_eq_some_iff.mp hrun
  obtain ⟨s, hs, htuned, hcap, hnot⟩ := of_decide_eq_true hall
  exact ⟨m, s, hm, ⟨hs, htuned⟩, hcap, hnot⟩

end AutoRec
