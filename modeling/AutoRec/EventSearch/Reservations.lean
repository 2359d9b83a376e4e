import AutoRec.EventSearch.Search
import AutoRec.Rec.FollowUp

/-!
# The keyword search and the reservations

For every event it finds, the keyword search sends `remove_reserve` and then `add_reserve_event`; it
looks at neither result.

* `Table.Reserved`: the key is reserved, with a repeatability; `Table.effect_reserved`: it stays so
  unless the reserve is picked, has expired or is removed (`Table.Spares`).
* `KeywordSearch`: the table of reservations with a search at work.
* `KeywordSearch.KeepsReserve`: what is removed is accepted again, as it was.
* **`reserved_reach`**: what is reserved at the beginning of a search is reserved at its end.
* `not_reserved`: one reserve is lost, and one has another repeatability.
-/

namespace AutoRec

open Slots EventSchedule

namespace Table

/-! ## Reserves that stay -/

/-- The key is reserved, with the repeatability. -/
def Reserved (v : Vector Reserve reserveNumMax) (k : Key) (repeatability : Repeatability) : Prop :=
  Any (fun r => r.isUsed = true ∧ r.key = k ∧ r.repeatability = repeatability) v

instance instDecidableReserved (v : Vector Reserve reserveNumMax) (k : Key)
    (repeatability : Repeatability) : Decidable (Reserved v k repeatability) :=
  inferInstanceAs (Decidable (∃ j, ∃ hj : j < reserveNumMax,
    v[j].isUsed = true ∧ v[j].key = k ∧ v[j].repeatability = repeatability))

/-- The step does not pick or remove the reserve of the key, and finds it not expired. -/
def Spares (m : RecManager) (k : Key) : TableOp → Prop
  | .removeReserve k' _ _ => k' ≠ k
  | .removeReserveByIndex n _ _ => ∀ i : Fin reserveNumMax, n = i → m.reserves[i].key ≠ k
  | .checkReserves now => ∀ i : Fin reserveNumMax, m.reserves[i].key = k →
      ¬ RecManager.IsExpired (Etime.setCurrentTime now) m.reserves i
  | .refreshReserves state => ∀ i : Fin reserveNumMax, m.reserves[i].key = k →
      RecManager.isFlagged state m.reserves[i] = false
  | .pick _ => ∀ i ∈ m.reqStartRecordingReserve, m.reserves[i].key ≠ k
  | .add _ | .timeout | .scheduleState _ | .event _ | .other _ _ _ => True

instance instDecidableSpares (m : RecManager) (k : Key) (op : TableOp) :
    Decidable (Spares m k op) :=
  match op with
  | .removeReserve k' _ _ => inferInstanceAs (Decidable (k' ≠ k))
  | .removeReserveByIndex n _ _ =>
    inferInstanceAs (Decidable (∀ i : Fin reserveNumMax, n = i → m.reserves[i].key ≠ k))
  | .checkReserves now =>
    inferInstanceAs (Decidable (∀ i : Fin reserveNumMax, m.reserves[i].key = k →
      ¬ RecManager.IsExpired (Etime.setCurrentTime now) m.reserves i))
  | .refreshReserves state =>
    inferInstanceAs (Decidable (∀ i : Fin reserveNumMax, m.reserves[i].key = k →
      RecManager.isFlagged state m.reserves[i] = false))
  | .pick _ =>
    inferInstanceAs (Decidable (∀ i ∈ m.reqStartRecordingReserve, m.reserves[i].key ≠ k))
  | .add _ | .timeout | .scheduleState _ | .event _ | .other _ _ _ =>
    inferInstanceAs (Decidable True)

/-- A reserve that is put in front of a later one does not push the reserve of the key out of the
last slot. -/
def KeepsLast (m : RecManager) (k : Key) (r : AddRequest) : Prop :=
  ∀ c ∈ r.call m.settings, m.addAccepted c.1 c.2 = true → ∀ st ∈ c.1.startTime,
    m.firstLater st = none ∨ m.reserves[reserveNumMax - 1].isUsed = false ∨
      m.reserves[reserveNumMax - 1].key ≠ k

instance instDecidableKeepsLast (m : RecManager) (k : Key) (r : AddRequest) :
    Decidable (KeepsLast m k r) :=
  inferInstanceAs (Decidable (∀ c ∈ r.call m.settings, m.addAccepted c.1 c.2 = true →
    ∀ st ∈ c.1.startTime, m.firstLater st = none ∨ m.reserves[reserveNumMax - 1].isUsed = false ∨
      m.reserves[reserveNumMax - 1].key ≠ k))

variable {s t : Table} {op : TableOp} {k : Key} {repeatability : Repeatability}
  {v w : Vector Reserve reserveNumMax}

/-- **What a step leaves**: a reserve that is spared. -/
theorem effect_reserved (hI : ReservesInv s.mgr.reserves)
    (h : Reserved s.mgr.reserves k repeatability) (hspares : Spares s.mgr k op)
    (hlast : ∀ r, op = .add r → KeepsLast s.mgr k r) (he : Effect s op w) :
    Reserved w k repeatability := by
  cases he with
  | @added r a b st w hr hacc hst hw =>
    cases hw with
    | before i hi =>
      refine h.insertAt fun hn hP => ?_
      have hcases := hlast r rfl (a, b) hr hacc st hst
      rcases hcases with hnone | hfree | hne
      · rw [RecManager.firstLater, hi] at hnone
        cases hnone
      · exact absurd (hfree.symm.trans hP.1) Bool.false_ne_true
      · exact hne hP.2.1
    | last i _ hi =>
      obtain ⟨-, hfree, -⟩ := firstFrom_some hi
      refine h.set fun hP => ?_
      have hu : s.mgr.reserves[(i : ℕ)].isUsed = false := by simpa using hfree
      exact absurd (hu.symm.trans hP.1) Bool.false_ne_true
  | removed hi =>
    obtain ⟨-, hp, -⟩ := firstFrom_some hi
    have hkey := of_decide_eq_true (Bool.and_eq_true_iff.mp hp).2
    exact h.removeAt (Fin.is_lt _) fun hP => hspares (hkey.symm.trans hP.2.1)
  | removedByIndex i hn => exact h.removeAt i.2 fun hP => hspares i hn hP.2.1
  | picked hi => exact h.removeAt (Fin.is_lt _) fun hP => hspares _ hi hP.2.1
  | @checked now =>
    obtain ⟨j, hj, hu, hk, hr⟩ := h
    refine Any.sweep ⟨j, hj, ⟨?_, ?_, ?_⟩, ?_⟩
    · rw [RecManager.checkedTable_isUsed]
      exact hu
    · rw [RecManager.checkedTable_key]
      exact hk
    · rw [RecManager.checkedTable_repeatability]
      exact hr
    · exact checkedTable_not_flagged hI.clean j hj (hspares ⟨j, hj⟩ hk)
  | refreshed =>
    obtain ⟨j, hj, hP⟩ := h
    exact Any.sweep ⟨j, hj, hP, hspares ⟨j, hj⟩ hP.2.1⟩
  | followed => exact h.set fun hP => hP
  | refused | missing | outOfTable | notPicked | timeout | scheduleState | noEvent | other =>
    exact h

theorem reserved_of_placed {a : SetArgs} {b : Bool} {st : Etime} (h : Placed v a b st w) :
    Reserved w a.key a.repeatability := by
  cases h with
  | before i _ =>
    refine ⟨i, i.2, ?_⟩
    rw [insertAt_getElem, if_pos rfl]
    exact ⟨entry_isUsed a b _, entry_key a b _, entry_repeatability a b _⟩
  | last i _ _ =>
    refine ⟨i, i.2, ?_⟩
    rw [Vector.getElem_set_self]
    exact ⟨entry_isUsed a b _, entry_key a b _, entry_repeatability a b _⟩

theorem reserved_of_accepted {r : AddRequest} {a : SetArgs} {b : Bool}
    (hr : r.call s.mgr.settings = some (a, b)) (hacc : s.mgr.addAccepted a b = true)
    (hn : next s (.add r) = some t) : Reserved t.mgr.reserves a.key a.repeatability := by
  obtain rfl := Option.some.inj hn
  obtain ⟨st, w, -, hw, he⟩ := s.mgr.addReserve_of_accepted hacc
  have heq : (s.mgr.onAdd r).2.reserves = w := by
    rw [RecManager.onAdd, hr]
    exact congrArg (fun p => p.2.reserves) he
  show Reserved (s.mgr.onAdd r).2.reserves _ _
  rw [heq]
  exact reserved_of_placed hw

/-- While the key is reserved, a request for it changes nothing. -/
theorem reserved_of_duplicate {r : AddRequest} (h : Reserved s.mgr.reserves k repeatability)
    (hr : ∀ c ∈ r.call s.mgr.settings, c.1.key = k) (hI : ReservesInv s.mgr.reserves)
    (hn : next s (.add r) = some t) : Reserved t.mgr.reserves k repeatability := by
  have he := next_effect hI hn
  revert he
  generalize t.mgr.reserves = w
  intro he
  cases he with
  | added hc hacc =>
    obtain ⟨j, hj, hu, hk, -⟩ := h
    exact absurd (hk.trans (hr _ hc).symm) (s.mgr.addAccepted_fresh hacc j hj hu)
  | refused => exact h

end Table

/-! ## The search -/

/-- The key with which an event is reserved. -/
def EventSchedule.EventRef.reserveKey (e : EventRef) : Key :=
  ⟨e.key.transportStreamId, e.key.originalNetworkId, e.key.serviceId, e.eventId⟩

/-- The table of reservations, with the search that is at work. -/
structure KeywordSearch where
  table : Table
  search : Option Search

/-- The steps; `c` is what the programme guide holds when a request gets there. -/
inductive KeywordSearchOp
  /-- Something else that the recording manager does. -/
  | other (op : TableOp)
  | getEvents (c : Container) (now : ℤ)
  | removeReserve
  /-- `add_reserve_event`; the search goes on when its clock reads `now`. -/
  | addReserve (c : Container) (eventName : String) (serviceName : Option String) (now : ℤ)

/-- `modules::module_id::event_search`. -/
def moduleEventSearch : UInt8 := 16

/-- `client_iface::sequence::add_rec_reserve_keyword_search`, and `…_ex`. -/
def sequenceKeywordSearch (isEx : Bool) : UInt8 := if isEx then 3 else 2

namespace KeywordSearch

/-- The second request for the event `e`, with what `get_event` finds. -/
def addRequest (isEx : Bool) (e : EventRef) (c : Container) (eventName : String)
    (serviceName : Option String) : AddRequest :=
  .event ⟨moduleEventSearch, sequenceKeywordSearch isEx⟩
    ⟨e.reserveKey, Etime.clear, Etime.clear, .none⟩
    ((c.getEvent e.key e.eventId).map fun ev =>
      ⟨ev.reserveKey, ev.startTime, ev.endTime, eventName⟩)
    serviceName

variable (s : KeywordSearch)

/-- A step. -/
def step : KeywordSearchOp → Option KeywordSearch
  | .other op => (s.table.next op).map fun t => { s with table := t }
  | .getEvents c now =>
    match s.search with
    | some ⟨isEx, keyword :: keywords, .getEvents⟩ =>
      some { s with
        search := Search.onEvents ⟨isEx, keyword :: keywords, .getEvents⟩
          (c.getEvents keyword Search.eventsMax isEx) now }
    | _ => none
  | .removeReserve =>
    match s.search with
    | some ⟨isEx, keywords, .removing e rest⟩ =>
      (s.table.next (.removeReserve e.reserveKey false false)).map fun t =>
        ⟨t, some (Search.onRemoved ⟨isEx, keywords, .removing e rest⟩ e rest)⟩
    | _ => none
  | .addReserve c eventName serviceName now =>
    match s.search with
    | some ⟨isEx, keywords, .adding e rest⟩ =>
      (s.table.next (.add (addRequest isEx e c eventName serviceName))).map fun t =>
        ⟨t, Search.onAdded ⟨isEx, keywords, .adding e rest⟩ rest now⟩
    | _ => none

/-- **The premise on a step**: nobody else picks, expires or removes the reserve of the key. -/
def Spares (k : Key) : KeywordSearchOp → Prop
  | .other op => Table.Spares s.table.mgr k op
  | .getEvents _ _ | .removeReserve | .addReserve _ _ _ _ => True

instance instDecidableSpares (k : Key) (op : KeywordSearchOp) : Decidable (s.Spares k op) :=
  match op with
  | .other op => inferInstanceAs (Decidable (Table.Spares s.table.mgr k op))
  | .getEvents _ _ | .removeReserve | .addReserve _ _ _ _ => inferInstanceAs (Decidable True)

/-- `add_reserve_event` for the event `e` puts a reserve in: the guide has an event that starts
before it ends, there is room, and the key is neither reserved nor being recorded. -/
def IsAddable (m : RecManager) (c : Container) (e : EventRef) : Prop :=
  (∃ ev ∈ c.getEvent e.key e.eventId, ev.startTime.lt ev.endTime = true) ∧
    m.isExistEmptyReserve = true ∧
    (∀ i : Fin reserveNumMax, m.reserves[i].isUsed = true → m.reserves[i].key ≠ e.reserveKey) ∧
    ∀ g : Group, m.recordings[g].isUsed = true → m.recordings[g].key ≠ e.reserveKey

instance instDecidableIsAddable (m : RecManager) (c : Container) (e : EventRef) :
    Decidable (IsAddable m c e) :=
  inferInstanceAs (Decidable ((∃ ev ∈ c.getEvent e.key e.eventId, _) ∧ _ ∧ _ ∧ _))

/-- **The condition on a step**: when the search puts the key in again, somebody else has already
done so, or the reserve was not a repeated one and the request is accepted; and no other request
pushes the reserve out of the table. -/
def KeepsReserve (k : Key) (repeatability : Repeatability) : KeywordSearchOp → Prop
  | .other (.add r) => Table.KeepsLast s.table.mgr k r
  | .addReserve c eventName serviceName _ => ∀ x ∈ s.search, ∀ e ∈ x.addedEvent,
      if e.reserveKey = k then
        Table.Reserved s.table.mgr.reserves k repeatability ∨
          repeatability = .none ∧ IsAddable s.table.mgr c e
      else Table.KeepsLast s.table.mgr k (addRequest x.isEx e c eventName serviceName)
  | _ => True

instance instDecidableKeepsReserve (k : Key) (repeatability : Repeatability)
    (op : KeywordSearchOp) : Decidable (s.KeepsReserve k repeatability op) :=
  match op with
  | .other (.add r) => inferInstanceAs (Decidable (Table.KeepsLast s.table.mgr k r))
  | .addReserve c eventName serviceName _ =>
    inferInstanceAs (Decidable (∀ x ∈ s.search, ∀ e ∈ x.addedEvent,
      if e.reserveKey = k then
        Table.Reserved s.table.mgr.reserves k repeatability ∨
          repeatability = .none ∧ IsAddable s.table.mgr c e
      else Table.KeepsLast s.table.mgr k (addRequest x.isEx e c eventName serviceName)))
  | .other (.removeReserve _ _ _) | .other (.removeReserveByIndex _ _ _)
  | .other (.checkReserves _) | .other (.refreshReserves _) | .other (.pick _) | .other .timeout
  | .other (.scheduleState _) | .other (.event _) | .other (.other _ _ _) | .getEvents _ _
  | .removeReserve => inferInstanceAs (Decidable True)

/-! ## What is kept -/

/-- The key is reserved, or its event is between the two requests. -/
structure Keeping (k : Key) (repeatability : Repeatability) (s : KeywordSearch) : Prop where
  inv : ReservesInv s.table.mgr.reserves
  kept : Table.Reserved s.table.mgr.reserves k repeatability ∨
    ∃ x ∈ s.search, ∃ e ∈ x.addedEvent, e.reserveKey = k

variable {s} {s' : KeywordSearch} {k : Key} {repeatability : Repeatability}

theorem addRequest_key {isEx : Bool} {e : EventRef} {c : Container} {eventName : String}
    {serviceName : Option String} {settings : Settings} :
    ∀ a ∈ (addRequest isEx e c eventName serviceName).call settings, a.1.key = e.reserveKey := by
  rintro ⟨a, b⟩ ha
  have ha : onAddReserveEvent _ _ ((c.getEvent e.key e.eventId).map _) serviceName =
      some (a, b) := ha
  rcases hev : c.getEvent e.key e.eventId with _ | ev
  · rw [hev] at ha
    cases ha
  · rw [hev] at ha
    cases ha
    obtain ⟨hkey, hid⟩ := Container.getEvent_key hev
    show ev.reserveKey = e.reserveKey
    rw [EventRef.reserveKey, hkey, hid]
    rfl

theorem addRequest_accepted {m : RecManager} {isEx : Bool} {e : EventRef} {c : Container}
    (h : IsAddable m c e) (eventName : String) (serviceName : Option String) :
    ∃ a b, (addRequest isEx e c eventName serviceName).call m.settings = some (a, b) ∧
      m.addAccepted a b = true ∧ a.key = e.reserveKey ∧ a.repeatability = .none := by
  obtain ⟨⟨ev, hev, hlt⟩, hroom, hfresh, hrec⟩ := h
  have hev : c.getEvent e.key e.eventId = some ev := hev
  obtain ⟨a, b, hcall, hst, hen, hrep⟩ : ∃ a b,
      (addRequest isEx e c eventName serviceName).call m.settings = some (a, b) ∧
        a.startTime = some ev.startTime ∧ a.endTime = some ev.endTime ∧
        a.repeatability = .none := by
    refine ⟨EpgEvent.setArgs ⟨ev.reserveKey, ev.startTime, ev.endTime, eventName⟩ serviceName .none,
      false, ?_, rfl, rfl, rfl⟩
    simp only [addRequest, hev, Option.map_some, AddRequest.call, onAddReserveEvent]
    rfl
  have hkey := addRequest_key (a, b) hcall
  refine ⟨a, b, hcall, ?_, hkey, hrep⟩
  have hge : ev.startTime.ge ev.endTime = false := by
    rw [Bool.eq_false_iff, ne_eq, Etime.ge_iff, not_le]
    exact Etime.lt_iff.mp hlt
  have hdup : m.isDuplicateReserve (Reserve.clear.set a) = false := by
    rw [Bool.eq_false_iff, ne_eq, RecManager.isDuplicateReserve_iff]
    rintro ⟨j, hj, hu, hk⟩
    exact hfresh ⟨j, hj⟩ hu (hk.trans hkey)
  have hnow : m.isNowRecordingReserve (Reserve.clear.set a) = false := by
    rw [Bool.eq_false_iff, ne_eq, RecManager.isNowRecordingReserve_iff]
    rintro ⟨g, hg, hu, hk⟩
    exact hrec ⟨g, hg⟩ hu (hk.trans hkey)
  simp only [RecManager.addAccepted, hst, hen, hge, hroom, hdup, hnow, Bool.not_false,
    Bool.and_self, Bool.or_true]

/-- **A step keeps the reserve of the key.** -/
theorem Keeping.step {op : KeywordSearchOp} (h : s.Keeping k repeatability)
    (hspares : s.Spares k op) (hok : s.KeepsReserve k repeatability op)
    (hstep : s.step op = some s') : s'.Keeping k repeatability := by
  cases op with
  | other op =>
    obtain ⟨t, ht, rfl⟩ := Option.map_eq_some_iff.mp hstep
    refine ⟨Table.next_reservesInv h.inv ht, h.kept.imp_left fun hres => ?_⟩
    refine Table.effect_reserved h.inv hres hspares (fun r hr => ?_) (Table.next_effect h.inv ht)
    subst hr
    exact hok
  | getEvents c now =>
    simp only [KeywordSearch.step] at hstep
    split at hstep
    · rename_i isEx keyword keywords hsearch
      obtain rfl := Option.some.inj hstep
      refine ⟨h.inv, .inl (h.kept.resolve_right ?_)⟩
      rintro ⟨x, hx, e, he, -⟩
      rw [hsearch] at hx
      cases hx
      cases he
    · cases hstep
  | removeReserve =>
    simp only [KeywordSearch.step] at hstep
    split at hstep
    · rename_i isEx keywords e rest hsearch
      obtain ⟨t, ht, rfl⟩ := Option.map_eq_some_iff.mp hstep
      refine ⟨Table.next_reservesInv h.inv ht, ?_⟩
      by_cases hkey : e.reserveKey = k
      · exact .inr ⟨_, rfl, e, rfl, hkey⟩
      · -- another reserve is removed
        have hres : Table.Reserved s.table.mgr.reserves k repeatability := by
          refine h.kept.resolve_right ?_
          rintro ⟨x, hx, e', he, -⟩
          rw [hsearch] at hx
          cases hx
          cases he
        have hother : Table.Spares s.table.mgr k (.removeReserve e.reserveKey false false) := hkey
        exact .inl (Table.effect_reserved h.inv hres hother (fun r hr => by cases hr)
          (Table.next_effect h.inv ht))
    · cases hstep
  | addReserve c eventName serviceName now =>
    simp only [KeywordSearch.step] at hstep
    split at hstep
    · rename_i isEx keywords e rest hsearch
      obtain ⟨t, ht, rfl⟩ := Option.map_eq_some_iff.mp hstep
      refine ⟨Table.next_reservesInv h.inv ht, .inl ?_⟩
      have hok := hok _ hsearch e rfl
      by_cases hkey : e.reserveKey = k
      · rw [if_pos hkey] at hok
        rcases hok with hres | ⟨rfl, hadd⟩
        · exact Table.reserved_of_duplicate hres
            (fun a ha => (addRequest_key a ha).trans hkey) h.inv ht
        · obtain ⟨a, b, hcall, hacc, ha, hrep⟩ := addRequest_accepted hadd eventName serviceName
          have hres := Table.reserved_of_accepted hcall hacc ht
          rw [ha, hkey, hrep] at hres
          exact hres
      · rw [if_neg hkey] at hok
        have hres : Table.Reserved s.table.mgr.reserves k repeatability := by
          refine h.kept.resolve_right ?_
          rintro ⟨x, hx, e', he, hkey'⟩
          rw [hsearch] at hx
          cases hx
          cases he
          exact hkey hkey'
        apply Table.effect_reserved h.inv hres _ _ (Table.next_effect h.inv ht)
        · trivial
        · intro r hr
          cases hr
          exact hok
    · cases hstep

end KeywordSearch

/-! ## Runs -/

/-- **What is reserved when the keyword search begins is reserved, with the same repeatability, when
it ends**, unless somebody else picks, expires or removes it, in every run in which the search puts
in again, as it was, what it has taken out, and no request pushes the reserve out of the table. -/
theorem reserved_reach {settings : Settings} {t : Table}
    (ht : Machine.Reach Table.next Machine.anyStep (.initial settings) t) {k : Key}
    {repeatability : Repeatability} (hk : Table.Reserved t.mgr.reserves k repeatability)
    (isEx : Bool) (keywords : List String) {s : KeywordSearch}
    (h : Machine.Reach KeywordSearch.step
      (fun s op => s.Spares k op ∧ s.KeepsReserve k repeatability op)
      ⟨t, Search.begin isEx keywords⟩ s)
    (hend : s.search = none) : Table.Reserved s.table.mgr.reserves k repeatability := by
  have hkeeping : s.Keeping k repeatability := by
    apply h.inv (KeywordSearch.Keeping k repeatability)
    · exact ⟨Table.reach_reservesInv ht, .inl hk⟩
    · exact fun _ _ _ hs hok hstep => hs.step hok.1 hok.2 hstep
  refine hkeeping.kept.resolve_right ?_
  rintro ⟨x, hx, -⟩
  rw [hend] at hx
  cases hx

namespace KeywordSearch

/-- An event of the guide of the example runs. -/
def guideEvent (id : UInt16) : Event :=
  ⟨⟨1, 2, 3⟩, id, ⟨7200, 0⟩, ⟨10800, 0⟩, "the news", "", []⟩

/-- Two events of one service. -/
def guideExample : Container :=
  ⟨[(⟨1, 2, 3⟩, [(0, guideEvent 7), (1, guideEvent 8)])], 2⟩

/-- The second event has gone. -/
def guideLater : Container := ⟨[(⟨1, 2, 3⟩, [(2, guideEvent 7)])], 3⟩

/-- A request to reserve an event. -/
def guideAdd (id : UInt16) (repeatability : Repeatability) : TableOp :=
  .add (.event ⟨18, sequenceAddReserveEvent⟩ ⟨⟨1, 2, 3, id⟩, .clear, .clear, repeatability⟩
    (some ⟨⟨1, 2, 3, id⟩, ⟨7200, 0⟩, ⟨10800, 0⟩, "the news"⟩) none)

/-- Both events are hit; `c` is the guide when the second one is put in again. -/
def searchBoth (c : Container) : List KeywordSearchOp :=
  [.getEvents guideExample 100, .removeReserve, .addReserve guideExample "the news" none 100,
    .other (.checkReserves 100), .removeReserve, .addReserve c "the news" none 101]

/-- A search for one keyword. -/
def searchNews : Option Search := Search.begin false ["news"]

end KeywordSearch

open KeywordSearch

theorem reserved_reach_run :
    (Machine.exec Table.next (.initial .oneTuner)
      [guideAdd 7 .none, guideAdd 8 .auto]).bind (fun t =>
      (Machine.exec KeywordSearch.step ⟨t, searchNews⟩ (searchBoth guideLater)).map fun s =>
        (decide (Table.Reserved t.mgr.reserves ⟨1, 2, 3, 7⟩ .none), s.search.isNone,
          Machine.execOk KeywordSearch.step
            (fun s op => s.Spares ⟨1, 2, 3, 7⟩ op ∧ s.KeepsReserve ⟨1, 2, 3, 7⟩ .none op)
            ⟨t, searchNews⟩ (searchBoth guideLater))) = some (true, true, true) := by
  decide +kernel

/-- The event 7 is reserved, is hit by the keyword, and is reserved again. -/
theorem reserved_reach_news : ∃ t s,
    Machine.Reach KeywordSearch.step
      (fun s op => s.Spares ⟨1, 2, 3, 7⟩ op ∧ s.KeepsReserve ⟨1, 2, 3, 7⟩ .none op)
      ⟨t, searchNews⟩ s ∧ s.search = none ∧
      Table.Reserved t.mgr.reserves ⟨1, 2, 3, 7⟩ .none ∧
      Table.Reserved s.table.mgr.reserves ⟨1, 2, 3, 7⟩ .none := by
  obtain ⟨t, ht, hrun⟩ := Option.bind_eq_some_iff.mp reserved_reach_run
  obtain ⟨s, hs, hvals⟩ := Option.map_eq_some_iff.mp hrun
  simp only [Prod.mk.injEq, decide_eq_true_eq, Option.isNone_iff_eq_none] at hvals
  obtain ⟨hk, hend, hok⟩ := hvals
  have hreach := Machine.reach_of_execOk hok hs
  exact ⟨t, s, hreach, hend, hk,
    reserved_reach (Machine.reach_of_exec ht) hk false ["news"] hreach hend⟩

theorem not_reserved_run :
    (Machine.exec Table.next (.initial .oneTuner)
      [guideAdd 7 .auto, guideAdd 8 .none]).bind (fun t =>
      (Machine.exec KeywordSearch.step ⟨t, searchNews⟩ (searchBoth guideLater)).map fun s =>
        (decide (Table.Reserved t.mgr.reserves ⟨1, 2, 3, 7⟩ .auto),
          decide (Table.Reserved t.mgr.reserves ⟨1, 2, 3, 8⟩ .none),
          s.search.isNone,
          decide (Table.Reserved s.table.mgr.reserves ⟨1, 2, 3, 7⟩ .auto),
          decide (Table.Reserved s.table.mgr.reserves ⟨1, 2, 3, 8⟩ .none),
          Machine.execOk KeywordSearch.step
            (fun s op => s.Spares ⟨1, 2, 3, 7⟩ op ∧ s.Spares ⟨1, 2, 3, 8⟩ op)
            ⟨t, searchNews⟩ (searchBoth guideLater))) =
      some (true, true, true, false, false, true) := by
  decide +kernel

/-- The event 7 was reserved with a repeatability, which it has lost; the event 8 is not reserved
any more, because the guide has lost it when it is to be put in again. -/
theorem not_reserved : ∃ t s,
    Machine.Reach Table.next Machine.anyStep (.initial .oneTuner) t ∧
      Machine.Reach KeywordSearch.step
        (fun s op => s.Spares ⟨1, 2, 3, 7⟩ op ∧ s.Spares ⟨1, 2, 3, 8⟩ op) ⟨t, searchNews⟩ s ∧
      s.search = none ∧
      (Table.Reserved t.mgr.reserves ⟨1, 2, 3, 7⟩ .auto ∧
        ¬ Table.Reserved s.table.mgr.reserves ⟨1, 2, 3, 7⟩ .auto) ∧
      Table.Reserved t.mgr.reserves ⟨1, 2, 3, 8⟩ .none ∧
        ¬ Table.Reserved s.table.mgr.reserves ⟨1, 2, 3, 8⟩ .none := by
  obtain ⟨t, ht, hrun⟩ := Option.bind_eq_some_iff.mp not_reserved_run
  obtain ⟨s, hs, hvals⟩ := Option.map_eq_some_iff.mp hrun
  simp only [Prod.mk.injEq, decide_eq_true_eq, decide_eq_false_iff_not,
    Option.isNone_iff_eq_none] at hvals
  obtain ⟨h7, h8, hend, hlost7, hlost8, hok⟩ := hvals
  exact ⟨t, s, Machine.reach_of_exec ht, Machine.reach_of_execOk hok hs, hend, ⟨h7, hlost7⟩, h8,
    hlost8⟩

end AutoRec
