import AutoRec.EventSchedule.Manager
import AutoRec.Lib.OrderedMap

/-!
# The schedule map

`sched_map_` of `container` (`event_schedule_manager/event_schedule_container.cpp`) with its full keys
(`event.h`), and what `on_exec_cache_schedule` and the destructor of the manager do with it. A list
of events may be empty, or not there at all, when it comes from the file of the schedules.

* `FullKey`, `FullKey.lt`, `FullKey.eq`; `lt_iff`: the comparison is the order of a number.
* `ScheduleMap`, with `hasScheduleMap`, `deleteScheduleMap`, `addScheduleMap`, `getEvent`.
* `cacheService`, `cacheServices`: the cache step. `View`: the container of the manager is a view of
  this one, and takes the same steps (`View.cacheServices`).
* `HoldsEmpty`: an empty list for a key. It stays for ever (`holdsEmpty_cacheServices`).
* **`cacheServices_iff`**: the map is updated unless an empty list is in the way.
* `clear`, with its loop. **`clear_iff`**: it is right unless there is one entry.
-/

namespace AutoRec

namespace EventSchedule

open IsComparator OrderedMap

/-! ## Keys -/

/-- `_service_key`. -/
structure FullKey where
  key : ServiceKey
  serviceType : UInt8
  serviceName : String
deriving DecidableEq, Repr

namespace FullKey

/-- `operator ==`. -/
def eq (k obj : FullKey) : Bool :=
  k.key.transportStreamId == obj.key.transportStreamId &&
    k.key.originalNetworkId == obj.key.originalNetworkId &&
    k.key.serviceId == obj.key.serviceId

/-- `operator <`. -/
def lt (k obj : FullKey) : Bool := k.key.lt obj.key

variable {k obj : FullKey}

theorem eq_iff : k.eq obj = true ↔ k.key = obj.key := by
  rcases k with ⟨⟨a, b, c⟩, t, n⟩
  rcases obj with ⟨⟨a', b', c'⟩, t', n'⟩
  simp [eq, and_assoc]

end FullKey

/-- The three numbers of a key as one, the network in front. -/
def ServiceKey.rank (k : ServiceKey) : ℕ :=
  (k.originalNetworkId.toNat * 65536 + k.transportStreamId.toNat) * 65536 + k.serviceId.toNat

theorem ServiceKey.lt_iff (k obj : ServiceKey) : k.lt obj = true ↔ k.rank < obj.rank := by
  have hk := k.transportStreamId.toNat_lt
  have hk' := k.serviceId.toNat_lt
  have hobj := obj.transportStreamId.toNat_lt
  have hobj' := obj.serviceId.toNat_lt
  unfold ServiceKey.lt rank
  simp only [UInt16.lt_iff_toNat_lt, ← UInt16.toNat_inj]
  split_ifs
  all_goals simp
  all_goals omega

theorem ServiceKey.rank_inj {k obj : ServiceKey} : k.rank = obj.rank ↔ k = obj := by
  refine ⟨fun h => ?_, congrArg rank⟩
  rcases k with ⟨a, b, c⟩
  rcases obj with ⟨a', b', c'⟩
  have ha := a.toNat_lt
  have hc := c.toNat_lt
  have ha' := a'.toNat_lt
  have hc' := c'.toNat_lt
  simp only [rank] at h
  rw [ServiceKey.mk.injEq, ← UInt16.toNat_inj, ← UInt16.toNat_inj, ← UInt16.toNat_inj]
  omega

namespace FullKey

theorem lt_iff (k obj : FullKey) : k.lt obj = true ↔ k.key.rank < obj.key.rank :=
  k.key.lt_iff obj.key

instance instIsComparator : IsComparator lt := of_rank lt_iff

/-- The keys that the comparison does not tell apart are those that are equal. -/
theorem sameKey_iff {k obj : FullKey} : SameKey lt k obj ↔ k.eq obj = true := by
  rw [sameKey_iff_of_rank lt_iff, ServiceKey.rank_inj, eq_iff]

end FullKey

/-! ## The map -/

/-- `sched_map_`; `none` is a list that is not there. -/
abbrev ScheduleMap := OrderedMap FullKey.lt (Option (List Event))

namespace ScheduleMap

variable (m : ScheduleMap)

/-- `has_schedule_map`. -/
def hasScheduleMap (key : FullKey) : Bool :=
  match m.find? key with
  | some (_, some sched) => !sched.isEmpty
  | _ => false

/-- `delete_schedule_map`; `none` if the list to be cleared is not there. -/
def deleteScheduleMap (key : FullKey) : Option ScheduleMap :=
  match m.find? key with
  | none => some m
  | some (_, none) => none
  | some (_, some _) => some (m.erase key)

/-- `add_schedule_map`. -/
def addScheduleMap (key : FullKey) (sched : List Event) : ScheduleMap :=
  if sched.isEmpty then m else m.insert key (some sched)

/-- `get_event`, with the number of the event. -/
def getEvent (key : FullKey) (eventId : UInt16) : Option Event :=
  if m.hasScheduleMap key then
    match m.find? key with
    | some (_, some sched) => sched.find? fun e => e.key == key.key && e.eventId == eventId
    | _ => none
  else none

/-- The events of one service are cached. -/
def cacheService (tables : ServiceKey → List Event) (info : FullKey) : Option ScheduleMap :=
  let sched := Manager.cacheSchedule tables info.key
  if sched.isEmpty then some m
  else if m.hasScheduleMap info then
    (m.deleteScheduleMap info).map fun m' => m'.addScheduleMap info sched
  else some (m.addScheduleMap info sched)

/-- The cache step of `on_exec_cache_schedule`, for the services that have been tuned. -/
def cacheServices (tables : ServiceKey → List Event) (infos : List FullKey) :
    Option ScheduleMap :=
  infos.foldlM (fun m info => cacheService m tables info) m

/-- The service has new events. -/
def IsNew (tables : ServiceKey → List Event) (info : FullKey) : Prop :=
  Manager.cacheSchedule tables info.key ≠ []

instance instDecidableIsNew (tables : ServiceKey → List Event) (info : FullKey) :
    Decidable (IsNew tables info) :=
  inferInstanceAs (Decidable (Manager.cacheSchedule tables info.key ≠ []))

/-- There is an entry for the key, and no event in it. -/
def HoldsEmpty (key : FullKey) : Prop :=
  ∃ e, m.find? key = some e ∧ (e.2 = none ∨ e.2 = some [])

/-- The new events of the service are what its entry has. -/
def Stores (tables : ServiceKey → List Event) (info : FullKey) : Prop :=
  (m.find? info).map Prod.snd = some (some (Manager.cacheSchedule tables info.key))

/-- **The map has been updated** with the new events of the services. -/
structure Updated (tables : ServiceKey → List Event) (infos : List FullKey) (m m' : ScheduleMap) :
    Prop where
  sched : ∀ info ∈ infos, IsNew tables info → m'.Stores tables info
  event : ∀ info ∈ infos, IsNew tables info → ∀ eventId, m'.getEvent info eventId =
    (Manager.cacheSchedule tables info.key).find? fun e => e.eventId == eventId
  kept : ∀ key, (∀ info ∈ infos, IsNew tables info → info.eq key = false) →
    m'.find? key = m.find? key

/-! ## One service -/

variable {m} {m' : ScheduleMap} {tables : ServiceKey → List Event} {info key : FullKey}

theorem isEmpty_eq_false (h : IsNew tables info) :
    (Manager.cacheSchedule tables info.key).isEmpty = false :=
  Bool.eq_false_iff.mpr fun hnil => h (List.isEmpty_iff.mp hnil)

theorem cacheService_of_not_isNew (h : ¬ IsNew tables info) :
    m.cacheService tables info = some m := by
  rw [cacheService, if_pos (List.isEmpty_iff.mpr (not_not.mp h))]

theorem cacheService_of_isNew (h : IsNew tables info) : m.cacheService tables info =
    if m.hasScheduleMap info then
      (m.deleteScheduleMap info).map fun m' =>
        m'.addScheduleMap info (Manager.cacheSchedule tables info.key)
    else some (m.addScheduleMap info (Manager.cacheSchedule tables info.key)) := by
  rw [cacheService, if_neg (Bool.eq_false_iff.mp (isEmpty_eq_false h))]

theorem deleteScheduleMap_eq (h : m.hasScheduleMap key = true) :
    m.deleteScheduleMap key = some (m.erase key) := by
  rw [hasScheduleMap] at h
  rw [deleteScheduleMap]
  rcases hfind : m.find? key with _ | ⟨k, _ | sched⟩
  · rw [hfind] at h
    cases h
  · rw [hfind] at h
    cases h
  · rfl

theorem addScheduleMap_eq (h : IsNew tables info) :
    m.addScheduleMap info (Manager.cacheSchedule tables info.key) =
      m.insert info (some (Manager.cacheSchedule tables info.key)) :=
  if_neg (Bool.eq_false_iff.mp (isEmpty_eq_false h))

/-- What the service has is replaced, if it is not an empty list. -/
theorem find?_cacheService (h : IsNew tables info) (hempty : ¬ m.HoldsEmpty info) :
    ∃ m', m.cacheService tables info = some m' ∧ ∀ key, m'.find? key =
      if SameKey FullKey.lt info key then
        some (info, some (Manager.cacheSchedule tables info.key))
      else m.find? key := by
  cases hhas : m.hasScheduleMap info with
  | false =>
    refine ⟨m.insert info (some (Manager.cacheSchedule tables info.key)), ?_, fun key => ?_⟩
    · rw [cacheService_of_isNew h, hhas, if_neg Bool.false_ne_true, addScheduleMap_eq h]
    · rw [find?_insert]
      split_ifs with hkey
      · -- the first events of the service
        have hnone : m.find? info = none := by
          rw [hasScheduleMap] at hhas
          rcases hfind : m.find? info with _ | ⟨k, _ | sched⟩
          · rfl
          · exact absurd ⟨_, hfind, .inl rfl⟩ hempty
          · rw [hfind] at hhas
            have hsched : sched = [] := by simpa using hhas
            exact absurd ⟨_, hfind, .inr (congrArg some hsched)⟩ hempty
        rw [← find?_congr hkey, hnone]
        rfl
      · rfl
  | true =>
    refine ⟨(m.erase info).insert info (some (Manager.cacheSchedule tables info.key)), ?_,
      fun key => ?_⟩
    · rw [cacheService_of_isNew h, hhas, if_pos rfl, deleteScheduleMap_eq hhas, Option.map_some,
        addScheduleMap_eq h]
    · rw [find?_insert, find?_erase]
      split_ifs
      · rfl
      · rfl

/-- An empty list stays, and the new events are dropped. -/
theorem find?_cacheService_of_not (h : ¬ (IsNew tables info ∧ ¬ m.HoldsEmpty info)) :
    ∃ m', m.cacheService tables info = some m' ∧ ∀ key, m'.find? key = m.find? key := by
  by_cases hnew : IsNew tables info
  · obtain ⟨e, he, hempty⟩ : m.HoldsEmpty info := by
      by_contra hnot
      exact h ⟨hnew, hnot⟩
    refine ⟨m.insert info (some (Manager.cacheSchedule tables info.key)), ?_, fun key => ?_⟩
    · have hhas : m.hasScheduleMap info = false := by
        obtain ⟨k, sched⟩ := e
        rw [hasScheduleMap, he]
        rcases hempty with rfl | rfl
        · rfl
        · rfl
      rw [cacheService_of_isNew hnew, hhas, if_neg Bool.false_ne_true, addScheduleMap_eq hnew]
    · rw [find?_insert]
      split_ifs with hkey
      · rw [← find?_congr hkey, he]
        rfl
      · rfl
  · exact ⟨m, cacheService_of_not_isNew hnew, fun _ => rfl⟩

theorem holdsEmpty_cacheService (h : m.cacheService tables info = some m') :
    m'.HoldsEmpty key ↔ m.HoldsEmpty key := by
  by_cases hnew : IsNew tables info ∧ ¬ m.HoldsEmpty info
  · obtain ⟨m₁, h₁, hfind⟩ := find?_cacheService hnew.1 hnew.2
    obtain rfl := Option.some.inj (h₁.symm.trans h)
    unfold HoldsEmpty
    rw [hfind]
    split_ifs with hkey
    · rw [← find?_congr hkey]
      refine iff_of_false ?_ hnew.2
      rintro ⟨e, he, hempty⟩
      obtain rfl := Option.some.inj he
      rcases hempty with hnone | hnil
      · cases hnone
      · exact hnew.1 (Option.some.inj hnil)
    · rfl
  · obtain ⟨m₁, h₁, hfind⟩ := find?_cacheService_of_not hnew
    obtain rfl := Option.some.inj (h₁.symm.trans h)
    unfold HoldsEmpty
    rw [hfind]

/-! ## All the services -/

theorem cacheServices_cons {infos : List FullKey} : m.cacheServices tables (info :: infos) =
    (m.cacheService tables info).bind fun m' => cacheServices m' tables infos := rfl

theorem cacheServices_inv {P : ScheduleMap → Prop} {infos : List FullKey} (h : P m)
    (hkeep : ∀ m, P m → ∀ info m', m.cacheService tables info = some m' → P m')
    (hrun : m.cacheServices tables infos = some m') : P m' := by
  rw [cacheServices, ← Machine.exec_eq_foldlM] at hrun
  exact (Machine.reach_of_exec hrun).inv P h fun m info m' h _ hstep => hkeep m h info m' hstep

theorem Stores.cacheService {other : FullKey} (h : m.Stores tables other)
    (hstep : m.cacheService tables info = some m') : m'.Stores tables other := by
  by_cases hnew : IsNew tables info ∧ ¬ m.HoldsEmpty info
  · obtain ⟨m₁, h₁, hfind⟩ := find?_cacheService hnew.1 hnew.2
    obtain rfl := Option.some.inj (h₁.symm.trans hstep)
    unfold Stores
    rw [hfind]
    split_ifs with hkey
    · rw [FullKey.eq_iff.mp (FullKey.sameKey_iff.mp hkey)]
      rfl
    · exact h
  · obtain ⟨m₁, h₁, hfind⟩ := find?_cacheService_of_not hnew
    obtain rfl := Option.some.inj (h₁.symm.trans hstep)
    unfold Stores
    rw [hfind]
    exact h

theorem Stores.cacheServices {other : FullKey} {infos : List FullKey} (h : m.Stores tables other)
    (hrun : m.cacheServices tables infos = some m') : m'.Stores tables other :=
  cacheServices_inv (P := fun m => m.Stores tables other) h
    (fun _ h _ _ hstep => h.cacheService hstep) hrun

/-- **No empty list comes or goes.** -/
theorem holdsEmpty_cacheServices {infos : List FullKey}
    (h : m.cacheServices tables infos = some m') : m'.HoldsEmpty key ↔ m.HoldsEmpty key :=
  cacheServices_inv (P := fun m₁ => m₁.HoldsEmpty key ↔ m.HoldsEmpty key) Iff.rfl
    (fun _ h _ _ hstep => (holdsEmpty_cacheService hstep).trans h) h

theorem Stores.getEvent (h : m.Stores tables info) (hnew : IsNew tables info) (eventId : UInt16) :
    m.getEvent info eventId =
      (Manager.cacheSchedule tables info.key).find? fun e => e.eventId == eventId := by
  obtain ⟨⟨k, sched⟩, hfind, rfl⟩ := Option.map_eq_some_iff.mp h
  have hkey : ∀ e ∈ Manager.cacheSchedule tables info.key, e.key = info.key := by
    intro e he
    unfold Manager.cacheSchedule at he
    split_ifs at he
    · cases he
    · obtain ⟨_, -, rfl⟩ := List.mem_map.mp he
      rfl
  simp only [ScheduleMap.getEvent, hasScheduleMap, hfind, isEmpty_eq_false hnew, Bool.not_false,
    if_true]
  rw [← List.head?_filter, ← List.head?_filter]
  refine congrArg List.head? (List.filter_congr fun e he => ?_)
  rw [hkey e he, beq_self_eq_true, Bool.true_and]

theorem exists_cacheService (h : IsNew tables info → ¬ m.HoldsEmpty info) :
    ∃ m', m.cacheService tables info = some m' ∧ (IsNew tables info → m'.Stores tables info) ∧
      ∀ key, (IsNew tables info → info.eq key = false) → m'.find? key = m.find? key := by
  by_cases hnew : IsNew tables info
  · obtain ⟨m', hm', hfind⟩ := find?_cacheService hnew (h hnew)
    refine ⟨m', hm', fun _ => ?_, fun key hkey => ?_⟩
    · rw [Stores, hfind, if_pos (SameKey.refl info)]
      rfl
    · rw [hfind, if_neg]
      rw [FullKey.sameKey_iff, hkey hnew]
      exact Bool.false_ne_true
  · exact ⟨m, cacheService_of_not_isNew hnew, fun hnew' => absurd hnew' hnew, fun _ _ => rfl⟩

/-- **The cache step**, where no empty list is in the way. -/
theorem updated_cacheServices {infos : List FullKey}
    (h : ∀ info ∈ infos, IsNew tables info → ¬ m.HoldsEmpty info) :
    ∃ m', m.cacheServices tables infos = some m' ∧ Updated tables infos m m' := by
  induction infos generalizing m with
  | nil => exact ⟨m, rfl, by simp, by simp, fun _ _ => rfl⟩
  | cons info infos ih =>
    obtain ⟨hinfo, hinfos⟩ := List.forall_mem_cons.mp h
    obtain ⟨m₁, h₁, hstores, hkept⟩ := exists_cacheService hinfo
    obtain ⟨m', hm', hupdated⟩ := ih fun other hother hnew hempty =>
      hinfos other hother hnew ((holdsEmpty_cacheService h₁).mp hempty)
    have hsched : ∀ other ∈ info :: infos, IsNew tables other → m'.Stores tables other :=
      List.forall_mem_cons.mpr ⟨fun hnew => (hstores hnew).cacheServices hm', hupdated.sched⟩
    refine ⟨m', by rw [cacheServices_cons, h₁]; exact hm', hsched,
      fun other hother hnew => (hsched other hother hnew).getEvent hnew, fun key hkey => ?_⟩
    obtain ⟨hfirst, hrest⟩ := List.forall_mem_cons.mp hkey
    rw [hupdated.kept key hrest, hkept key hfirst]

theorem not_holdsEmpty_of_updated {infos : List FullKey} (h : m.cacheServices tables infos = some m')
    (hupdated : Updated tables infos m m') :
    ∀ info ∈ infos, IsNew tables info → ¬ m.HoldsEmpty info := by
  intro info hinfo hnew hempty
  obtain ⟨e, he, hnil⟩ := (holdsEmpty_cacheServices h).mpr hempty
  have hstores := hupdated.sched info hinfo hnew
  rw [Stores, he] at hstores
  have hsched : e.2 = some (Manager.cacheSchedule tables info.key) := Option.some.inj hstores
  rcases hnil with hnone | hnil
  · rw [hnone] at hsched
    cases hsched
  · rw [hnil] at hsched
    exact hnew (Option.some.inj hsched).symm

/-- **The cache step updates the map if and only if** no service with new events has an empty list;
the keys that the comparison does not tell apart are those that are equal. -/
theorem cacheServices_iff (m : ScheduleMap) (tables : ServiceKey → List Event)
    (infos : List FullKey) :
    ((∃ m', m.cacheServices tables infos = some m' ∧ Updated tables infos m m') ∧
        ∀ k obj : FullKey, (k.lt obj = false ∧ obj.lt k = false ↔ k.eq obj = true)) ↔
      ∀ info ∈ infos, IsNew tables info → ¬ m.HoldsEmpty info := by
  constructor
  · rintro ⟨⟨m', hm', hupdated⟩, -⟩
    exact not_holdsEmpty_of_updated hm' hupdated
  · exact fun h => ⟨updated_cacheServices h, fun _ _ => FullKey.sameKey_iff⟩

/-- The key of the examples. -/
def keyExample : FullKey := ⟨⟨1, 4, 101⟩, 1, "service"⟩

/-- The events of the examples. -/
def tablesExample (key : ServiceKey) : List Event := [⟨key, 7, .clear, .clear, "name", "text", []⟩]

/-- **An empty list of the file**: the new events are dropped. -/
theorem not_updated_always : ¬ ∀ (m : ScheduleMap) (tables : ServiceKey → List Event)
    (infos : List FullKey),
    (∃ m', m.cacheServices tables infos = some m' ∧ Updated tables infos m m') ∧
      ∀ k obj : FullKey, (k.lt obj = false ∧ obj.lt k = false ↔ k.eq obj = true) := by
  intro h
  obtain ⟨⟨m', hm', hupdated⟩, -⟩ :=
    h ⟨[(keyExample, some [])], List.pairwise_singleton _ _⟩ tablesExample [keyExample]
  refine not_holdsEmpty_of_updated hm' hupdated keyExample List.mem_cons_self (by decide) ?_
  exact ⟨(keyExample, some []), by decide, .inr rfl⟩

/-- **What the cache has filled**: with no empty list to begin with, every further step updates the
map. -/
theorem updated_of_filled {steps : List ((ServiceKey → List Event) × List FullKey)}
    (hempty : ∀ key, ¬ m.HoldsEmpty key)
    (h : steps.foldlM (fun m s => cacheServices m s.1 s.2) m = some m')
    (tables : ServiceKey → List Event) (infos : List FullKey) :
    ∃ m'', m'.cacheServices tables infos = some m'' ∧ Updated tables infos m' m'' := by
  induction steps generalizing m with
  | nil =>
    obtain rfl := Option.some.inj h
    exact updated_cacheServices fun info _ _ => hempty info
  | cons step steps ih =>
    rw [List.foldlM_cons] at h
    obtain ⟨m₁, h₁, h⟩ := Option.bind_eq_some_iff.mp h
    exact ih (fun key => mt (holdsEmpty_cacheServices h₁).mp (hempty key)) h

/-! ## The container of the manager -/

/-- The container has the same lists, under the numbers of the keys. -/
def View (c : Container) (m : ScheduleMap) : Prop :=
  c.schedMap.map (fun e => (e.1, e.2.map Prod.snd)) = m.entries.map fun e => (e.1.key, e.2.getD [])

variable {c : Container}

theorem view_find? (h : View c m) (key : FullKey) :
    (c.schedMap.find? fun e => e.1 == key.key).map (fun e => (e.1, e.2.map Prod.snd)) =
      (m.find? key).map fun e => (e.1.key, e.2.getD []) := by
  have hfind := congrArg (List.find? fun e => e.1 == key.key) h
  rw [List.find?_map, List.find?_map] at hfind
  refine hfind.trans (congrArg (Option.map _) ?_)
  refine congrArg (fun p => List.find? p m.entries) (funext fun e => ?_)
  exact decide_eq_decide.mpr (FullKey.sameKey_iff.trans FullKey.eq_iff).symm

theorem View.schedule (h : View c m) (key : FullKey) :
    (c.schedule key.key).map Prod.snd = ((m.find? key).map fun e => e.2.getD []).getD [] := by
  have hleft : ∀ e : Option (ServiceKey × List (ℕ × Event)), ((e.map Prod.snd).getD []).map Prod.snd =
      ((e.map fun e => (e.1, e.2.map Prod.snd)).map Prod.snd).getD [] := by
    rintro (_ | e)
    · rfl
    · rfl
  rw [Container.schedule, hleft, view_find? h key, Option.map_map]
  rfl

theorem View.hasScheduleMap (h : View c m) (key : FullKey) :
    c.hasScheduleMap key.key = m.hasScheduleMap key := by
  have hsched := congrArg List.isEmpty (h.schedule key)
  rw [List.isEmpty_map] at hsched
  rw [Container.hasScheduleMap, hsched, ScheduleMap.hasScheduleMap]
  rcases m.find? key with _ | ⟨k, _ | sched⟩
  · rfl
  · rfl
  · rfl

theorem View.deleteScheduleMap (h : View c m) (key : FullKey) :
    View (c.deleteScheduleMap key.key) (m.erase key) := by
  have hfilter := congrArg (List.filter fun e => e.1 != key.key) h
  rw [List.filter_map, List.filter_map] at hfilter
  refine hfilter.trans (congrArg (List.map _) ?_)
  refine List.filter_congr fun e _ => congrArg not ?_
  exact decide_eq_decide.mpr (FullKey.sameKey_iff.trans FullKey.eq_iff).symm

theorem View.addScheduleMap (h : View c m) (key : FullKey) (sched : List Event) :
    View (c.addScheduleMap key.key sched) (m.insert key (some sched)) := by
  have hnew : ((List.range' c.made sched.length).zip sched).map Prod.snd = sched :=
    List.map_snd_zip (by simp)
  unfold View at h ⊢
  change (insertSched key.key ((List.range' c.made sched.length).zip sched) c.schedMap).map _ =
    (insertEntry FullKey.lt (key, some sched) m.entries).map _
  generalize (List.range' c.made sched.length).zip sched = new at hnew
  generalize c.schedMap = l at h
  generalize m.entries = l' at h
  induction l generalizing l' with
  | nil =>
    obtain rfl := List.map_eq_nil_iff.mp h.symm
    simp [insertSched, insertEntry, hnew]
  | cons e l ih =>
    obtain _ | ⟨e', l'⟩ := l'
    · cases h
    · rw [List.map_cons, List.map_cons, List.cons.injEq] at h
      obtain ⟨he, hl⟩ := h
      have hkey : e.1 = e'.1.key := congrArg Prod.fst he
      unfold insertSched insertEntry
      rw [FullKey.lt, FullKey.lt, hkey]
      split_ifs
      · simp [hnew, he, hl]
      · rw [List.map_cons, List.map_cons, ih l' hl, he]
      · rw [List.map_cons, List.map_cons, hl, he]

theorem View.cacheService (h : View c m) (hstep : m.cacheService tables info = some m') :
    View (Manager.cacheService tables c info.key) m' := by
  rw [Manager.cacheService]
  by_cases hnew : IsNew tables info
  · rw [cacheService_of_isNew hnew, ← h.hasScheduleMap] at hstep
    rw [if_neg hnew]
    split_ifs at hstep ⊢ with hhas
    · rw [deleteScheduleMap_eq (h.hasScheduleMap info ▸ hhas), Option.map_some,
        addScheduleMap_eq hnew] at hstep
      obtain rfl := Option.some.inj hstep
      exact (h.deleteScheduleMap info).addScheduleMap info _
    · rw [addScheduleMap_eq hnew] at hstep
      obtain rfl := Option.some.inj hstep
      exact h.addScheduleMap info _
  · rw [cacheService_of_not_isNew hnew] at hstep
    obtain rfl := Option.some.inj hstep
    rw [if_pos (not_not.mp hnew)]
    exact h

/-- **The manager does the same with its container.** -/
theorem View.cacheServices {infos : List FullKey} (h : View c m)
    (hrun : m.cacheServices tables infos = some m') :
    View ((infos.map FullKey.key).foldl (Manager.cacheService tables) c) m' := by
  induction infos generalizing m c with
  | nil =>
    obtain rfl := Option.some.inj hrun
    exact h
  | cons info infos ih =>
    rw [cacheServices_cons] at hrun
    obtain ⟨m₁, h₁, hrun⟩ := Option.bind_eq_some_iff.mp hrun
    exact ih (h.cacheService h₁) hrun

/-! ## `clear` -/

/-- How `clear` ends. -/
inductive ClearEnd
  | cleared (m : ScheduleMap)
  /-- An iterator that is `end` is advanced. -/
  | advancedEnd
  /-- A list that is not there is cleared. -/
  | nullSched

/-- The loop of `clear`, with the iterator at the entry `i`, for at most the turns that are given. -/
def clearLoop : ℕ → ScheduleMap → ℕ → Option ClearEnd
  | 0, _, _ => none
  | n + 1, m, i =>
    match m.entries[i]? with
    | none => some (.cleared .empty)
    | some (key, _) =>
      match m.deleteScheduleMap key with
      | none => some .nullSched
      -- the iterator is at the first entry again, and is advanced
      | some m' => if m'.entries.isEmpty then some .advancedEnd else clearLoop n m' 1

/-- `clear`, with the turns that its loop may take. -/
def clear (m : ScheduleMap) (n : ℕ) : Option ClearEnd :=
  if m.entries.isEmpty then some (.cleared .empty) else clearLoop n m 0

/-- From the entry `i` on, the loop clears the map. -/
def Clears (m : ScheduleMap) (i : ℕ) : Prop := ∃ n, clearLoop n m i = some (.cleared .empty)

theorem clears_iff {e : FullKey × Option (List Event)}
    (front : List (FullKey × Option (List Event))) {behind : List (FullKey × Option (List Event))}
    (h : m.entries = front ++ e :: behind) :
    m.Clears front.length ↔
      e.2 ≠ none ∧ front ++ behind ≠ [] ∧ Clears (m.erase e.1) 1 := by
  have hmem : e ∈ m.entries := h ▸ List.mem_append_right _ List.mem_cons_self
  have hfind : m.find? e.1 = some e :=
    find?_eq_some_iff.mpr ⟨hmem, SameKey.refl e.1⟩
  have hbehind : (m.erase e.1).entries = front ++ behind := entries_erase front h
  have hturn : ∀ n, clearLoop (n + 1) m front.length = match m.deleteScheduleMap e.1 with
      | none => some .nullSched
      | some m' => if m'.entries.isEmpty then some .advancedEnd else clearLoop n m' 1 := by
    intro n
    rw [clearLoop, h, List.getElem?_append_right le_rfl, Nat.sub_self]
    rfl
  have hdelete : m.deleteScheduleMap e.1 = if e.2 = none then none else some (m.erase e.1) := by
    rw [deleteScheduleMap, hfind]
    obtain ⟨k, _ | sched⟩ := e
    · rfl
    · rfl
  rw [hdelete] at hturn
  by_cases hnull : e.2 = none
  · refine iff_of_false ?_ fun hall => hall.1 hnull
    rintro ⟨_ | n, hn⟩
    · cases hn
    · rw [hturn, if_pos hnull] at hn
      cases hn
  · simp only [if_neg hnull, hbehind, List.isEmpty_iff] at hturn
    constructor
    · rintro ⟨_ | n, hn⟩
      · cases hn
      · rw [hturn] at hn
        split_ifs at hn with hnil
        · cases hn
        · exact ⟨hnull, hnil, n, hn⟩
    · rintro ⟨-, hnil, n, hn⟩
      exact ⟨n + 1, by rw [hturn, if_neg hnil, hn]⟩

/-- From the second turn on, the loop deletes the second entry until there is none. -/
theorem clears_one_iff {e : FullKey × Option (List Event)}
    {l : List (FullKey × Option (List Event))} (h : m.entries = e :: l) :
    m.Clears 1 ↔ ∀ x ∈ l, x.2 ≠ none := by
  induction l generalizing m with
  | nil =>
    refine iff_of_true ⟨1, ?_⟩ (by simp)
    rw [clearLoop, h]
    rfl
  | cons x l ih =>
    have hturn := clears_iff [e] h
    have herase : (m.erase x.1).entries = e :: l := entries_erase [e] h
    rw [ih herase] at hturn
    rw [List.forall_mem_cons]
    exact hturn.trans (and_congr_right fun _ => and_iff_right (List.cons_ne_nil _ _))

/-- **`clear` clears the map, and does not advance `end`, if and only if** there is not just one
entry, and every list but that of the second entry is there: that one is not looked at. -/
theorem clear_iff (m : ScheduleMap) : (∃ n, m.clear n = some (.cleared .empty)) ↔
    m.entries.length ≠ 1 ∧ ∀ i e, i ≠ 1 → m.entries[i]? = some e → e.2 ≠ none := by
  unfold clear
  rcases hentries : m.entries with _ | ⟨x, l⟩
  · exact iff_of_true ⟨0, rfl⟩ ⟨by decide, by simp⟩
  · have hfirst : m.Clears 0 ↔ _ := clears_iff [] hentries
    have herase : (m.erase x.1).entries = l := entries_erase [] hentries
    refine hfirst.trans ?_
    rcases l with _ | ⟨y, l⟩
    · simp
    · rw [clears_one_iff herase]
      constructor
      · rintro ⟨hx, -, hl⟩
        refine ⟨by simp, fun i e hi he => ?_⟩
        rcases i with _ | _ | i
        · rwa [← Option.some.inj he]
        · exact absurd rfl hi
        · exact hl e (List.mem_of_getElem? (i := i) he)
      · rintro ⟨-, hall⟩
        refine ⟨hall 0 x (by decide) rfl, List.cons_ne_nil _ _, fun e he => ?_⟩
        obtain ⟨i, hi⟩ := List.getElem?_of_mem he
        exact hall (i + 2) e (by omega) hi

/-- **A map of one service**: `end` is advanced. -/
theorem not_clear_always : ¬ ∀ m : ScheduleMap, ∃ n, m.clear n = some (.cleared .empty) := by
  intro h
  obtain ⟨n, hn⟩ := h ⟨[(keyExample, some (tablesExample keyExample.key))],
    List.pairwise_singleton _ _⟩
  have hclears : Clears _ 0 := ⟨n, hn⟩
  exact ((clears_iff [] rfl).mp hclears).2.1 rfl

end ScheduleMap

end EventSchedule

end AutoRec
