import AutoRec.Common.Etime
import AutoRec.Lib.Flag
import Mathlib.Data.List.Sort

/-!
# The reserves of the schedule cache

`event_schedule::reserve` (`event_schedule_manager/event_schedule_manager.h`), and what the manager
does to its list of them (`event_schedule_manager/event_schedule_manager.cpp`).

* `ReserveType`: the bits of `type_t`; `Reserve`.
* `addReserve`: a reserve that is not there already goes in behind all that do not start later;
  `addReserves`: several of them. The list stays sorted and without repetitions, and the order of the
  others is kept (`Ordered.addReserves`, `sublist_addReserves`, `pair_sublist_addReserve`).
* `takeDue`: what `check2execute_reserves` takes out. In a sorted list that is the first reserve
  (`takeDue_eq_head`).
* `closeRetries`, `markRetries`: the types of the reserves that are retried (`of_mem_markRetries`).
-/

namespace AutoRec

namespace EventSchedule

/-! ## Reserves -/

/-- The bits of `reserve::type_t`. -/
abbrev ReserveType : Type := BitVec 32

namespace ReserveType

def init : ReserveType := 0x0000
def normal : ReserveType := 0x0001
def force : ReserveType := 0x0002
def typeMask : ReserveType := 0x00ff
/-- The start flag. -/
def sFlg : ReserveType := 0x0100
/-- The end flag. -/
def eFlg : ReserveType := 0x0200
/-- The flag for a notification. -/
def nFlg : ReserveType := 0x0400
/-- The flag for a retry. -/
def rFlg : ReserveType := 0x0800

/-- The kind is `INIT`. -/
def isInit (t : ReserveType) : Bool := t &&& typeMask == init

/-- The kind is `FORCE`. -/
def isForce (t : ReserveType) : Bool := t &&& typeMask == force

end ReserveType

/-- `service_key_t`: what is compared. -/
structure ServiceKey where
  transportStreamId : UInt16
  originalNetworkId : UInt16
  serviceId : UInt16
deriving DecidableEq, Repr

/-- `reserve`. -/
structure Reserve where
  key : ServiceKey
  startTime : Etime
  type : ReserveType
deriving DecidableEq, Repr

namespace Reserve

/-- `is_valid`. -/
def isValid (r : Reserve) : Bool :=
  r.key.transportStreamId != 0 && r.key.originalNetworkId != 0 && r.key.serviceId != 0

/-- `clear`. -/
def clear : Reserve := ⟨⟨0, 0, 0⟩, .clear, .init⟩

/-- A batch begins with the reserve. -/
def isStart (r : Reserve) : Bool := Flag.has r.type ReserveType.sFlg

/-- A batch ends with the reserve. -/
def isEnd (r : Reserve) : Bool := Flag.has r.type ReserveType.eFlg

/-- The reserve is put in again if it fails. -/
def isRetried (r : Reserve) : Bool := Flag.has r.type ReserveType.rFlg

/-- The kind is `INIT`. -/
def isInit (r : Reserve) : Bool := r.type.isInit

/-- The kind is `FORCE`. -/
def isForce (r : Reserve) : Bool := r.type.isForce

theorem clear_flags : clear.isStart = false ∧ clear.isEnd = false ∧ clear.isRetried = false := by
  decide

/-- `_comp__reserve_start_time`. -/
def compStartTime (l r : Reserve) : Bool := r.startTime.gt l.startTime

/-- The order in which `stable_sort` leaves two reserves. -/
def NotAfter (l r : Reserve) : Prop := compStartTime r l = false

instance instDecidableNotAfter (l r : Reserve) : Decidable (l.NotAfter r) :=
  inferInstanceAs (Decidable (_ = false))

theorem notAfter_iff {l r : Reserve} : l.NotAfter r ↔ l.startTime ≤ r.startTime := by
  rw [NotAfter, compStartTime, Bool.eq_false_iff, ne_eq, Etime.gt_iff, not_lt]

theorem notAfter_trans : ∀ a b c : Reserve, a.NotAfter b → b.NotAfter c → a.NotAfter c := by
  intro a b c hab hbc
  rw [notAfter_iff] at hab hbc ⊢
  exact hab.trans hbc

theorem notAfter_total : ∀ a b : Reserve, a.NotAfter b ∨ b.NotAfter a := by
  intro a b
  rw [notAfter_iff, notAfter_iff]
  exact le_total _ _

instance instIsTransNotAfter : IsTrans Reserve NotAfter := ⟨notAfter_trans⟩

instance instTotalNotAfter : Std.Total NotAfter := ⟨notAfter_total⟩

end Reserve

/-! ## The list -/

/-- `add_reserve`: `push_back` and `stable_sort`, unless the reserve is there already. -/
def addReserve (rsv : Reserve) (reserves : List Reserve) : List Reserve :=
  if rsv ∈ reserves then reserves else (reserves ++ [rsv]).insertionSort Reserve.NotAfter

/-- Reserves are put in one after the other. -/
def addReserves (rsvs reserves : List Reserve) : List Reserve :=
  rsvs.foldl (fun l rsv => addReserve rsv l) reserves

/-- The list is sorted, no reserve is in it twice, and none is of the kind `INIT`. -/
structure Ordered (l : List Reserve) : Prop where
  sorted : l.Pairwise Reserve.NotAfter
  nodup : l.Nodup
  typed : ∀ r ∈ l, r.isInit = false

theorem ordered_nil : Ordered [] := ⟨.nil, .nil, fun _ h => absurd h List.not_mem_nil⟩

theorem Ordered.tail {r : Reserve} {l : List Reserve} (h : Ordered (r :: l)) : Ordered l where
  sorted := (List.pairwise_cons.mp h.sorted).2
  nodup := (List.nodup_cons.mp h.nodup).2
  typed s hs := h.typed s (List.mem_cons_of_mem r hs)

section Add

variable {r s : Reserve} {l new : List Reserve}

@[simp] theorem mem_addReserve : s ∈ addReserve r l ↔ s = r ∨ s ∈ l := by
  unfold addReserve
  split
  · rename_i h
    constructor
    · exact .inr
    · rintro (rfl | hs)
      · exact h
      · exact hs
  · rw [List.mem_insertionSort, List.mem_append, List.mem_singleton, or_comm]

theorem Ordered.addReserve (h : Ordered l) (hr : r.isInit = false) : Ordered (addReserve r l) := by
  unfold EventSchedule.addReserve
  split
  · exact h
  · rename_i hnot
    have hperm := List.perm_insertionSort Reserve.NotAfter (l ++ [r])
    refine ⟨List.pairwise_insertionSort _ _, hperm.nodup_iff.mpr ?_, fun s hs => ?_⟩
    · exact List.nodup_append.mpr ⟨h.nodup, List.nodup_singleton r, by
        rintro a ha b hb rfl
        exact hnot (List.mem_singleton.mp hb ▸ ha)⟩
    · rcases List.mem_append.mp (hperm.mem_iff.mp hs) with hs | hs
      · exact h.typed s hs
      · rw [List.mem_singleton.mp hs]
        exact hr

theorem sublist_addReserve (h : Ordered l) : l.Sublist (EventSchedule.addReserve r l) := by
  unfold EventSchedule.addReserve
  split
  · exact .refl l
  · exact List.sublist_insertionSort h.sorted (List.sublist_append_left l [r])

theorem pair_sublist_addReserve (hs : s ∈ l) (hr : r ∉ l) (h : s.startTime ≤ r.startTime) :
    [s, r].Sublist (EventSchedule.addReserve r l) := by
  rw [EventSchedule.addReserve, if_neg hr]
  refine List.pair_sublist_insertionSort (Reserve.notAfter_iff.mpr h) ?_
  exact (List.singleton_sublist.mpr hs).append (.refl [r])

@[simp] theorem mem_addReserves : s ∈ addReserves new l ↔ s ∈ new ∨ s ∈ l := by
  induction new generalizing l with
  | nil => simp [addReserves]
  | cons r new ih =>
    rw [addReserves, List.foldl_cons, ← addReserves, ih, mem_addReserve, List.mem_cons]
    tauto

theorem Ordered.addReserves (h : Ordered l) (hnew : ∀ r ∈ new, r.isInit = false) :
    Ordered (addReserves new l) := by
  induction new generalizing l with
  | nil => exact h
  | cons r new ih =>
    exact ih (h.addReserve (hnew r List.mem_cons_self)) fun s hs => hnew s (List.mem_cons_of_mem r hs)

theorem sublist_addReserves (h : Ordered l) (hnew : ∀ r ∈ new, r.isInit = false) :
    l.Sublist (addReserves new l) := by
  induction new generalizing l with
  | nil => exact .refl l
  | cons r new ih =>
    refine (sublist_addReserve h).trans (ih (h.addReserve (hnew r List.mem_cons_self)) ?_)
    exact fun s hs => hnew s (List.mem_cons_of_mem r hs)

end Add

theorem pair_sublist_of_lt {s e : Reserve} {l : List Reserve} (h : l.Pairwise Reserve.NotAfter)
    (hs : s ∈ l) (he : e ∈ l) (hlt : s.startTime < e.startTime) : [s, e].Sublist l := by
  induction l with
  | nil => exact absurd hs List.not_mem_nil
  | cons a l ih =>
    have ⟨ha, hl⟩ := List.pairwise_cons.mp h
    rcases List.mem_cons.mp he with rfl | he'
    · -- what stands behind `e` does not start earlier
      rcases List.mem_cons.mp hs with rfl | hs'
      · exact absurd hlt (lt_irrefl _)
      · exact absurd hlt (not_lt.mpr (Reserve.notAfter_iff.mp (ha s hs')))
    · rcases List.mem_cons.mp hs with rfl | hs'
      · exact (List.singleton_sublist.mpr he').cons_cons s
      · exact (ih hl hs' he').cons a

/-! ## What is due -/

/-- A reserve taken out, to be executed or because it is too late, and the others. -/
structure Due where
  reserve : Reserve
  isExecuted : Bool
  rest : List Reserve

/-- The loop of `check2execute_reserves`. -/
def takeDue (curTime : Etime) : List Reserve → Option Due
  | [] => none
  | r :: l =>
    if r.isInit then (takeDue curTime l).map fun d => { d with rest := r :: d.rest }
    else if curTime.ge (r.startTime.addHour 1) then some ⟨r, false, l⟩
    else if curTime.ge r.startTime then some ⟨r, true, l⟩
    else (takeDue curTime l).map fun d => { d with rest := r :: d.rest }

theorem takeDue_eq_none {curTime : Etime} {l : List Reserve}
    (h : ∀ r ∈ l, curTime < r.startTime) : takeDue curTime l = none := by
  induction l with
  | nil => rfl
  | cons r l ih =>
    have hr : curTime < r.startTime := h r List.mem_cons_self
    have hlate : curTime < r.startTime.addHour 1 := by
      refine hr.trans (Etime.lt_def.mpr (.inl ?_))
      simp only [Etime.addHour]
      omega
    have hnone : takeDue curTime l = none := ih fun s hs => h s (List.mem_cons_of_mem r hs)
    rw [takeDue, hnone, if_neg (not_le.mpr hlate ∘ Etime.ge_iff.mp),
      if_neg (not_le.mpr hr ∘ Etime.ge_iff.mp)]
    exact ite_self none

/-- **Only the first reserve of a sorted list is looked at.** -/
theorem takeDue_eq_head {curTime : Etime} {r : Reserve} {l : List Reserve}
    (hsorted : (r :: l).Pairwise Reserve.NotAfter) (hinit : r.isInit = false) :
    takeDue curTime (r :: l) =
      if r.startTime.addHour 1 ≤ curTime then some ⟨r, false, l⟩
      else if r.startTime ≤ curTime then some ⟨r, true, l⟩
      else none := by
  rw [takeDue, hinit, if_neg Bool.false_ne_true]
  simp only [Etime.ge_iff]
  by_cases hlate : r.startTime.addHour 1 ≤ curTime
  · rw [if_pos hlate, if_pos hlate]
  · rw [if_neg hlate, if_neg hlate]
    by_cases hdue : r.startTime ≤ curTime
    · rw [if_pos hdue, if_pos hdue]
    · rw [if_neg hdue, if_neg hdue, takeDue_eq_none]
      · rfl
      · intro s hs
        have hle := Reserve.notAfter_iff.mp ((List.pairwise_cons.mp hsorted).1 s hs)
        exact lt_of_lt_of_le (not_le.mp hdue) hle

/-! ## Retries -/

/-- The only reserve that is retried. -/
def Reserve.retryOne (r : Reserve) : Reserve :=
  { r with type := .normal ||| .sFlg ||| .eFlg ||| .nFlg }

/-- The first one of several. -/
def Reserve.retryStart (r : Reserve) : Reserve := { r with type := .normal ||| .sFlg ||| .nFlg }

/-- The last one of several. -/
def Reserve.retryEnd (r : Reserve) : Reserve := { r with type := .normal ||| .eFlg ||| .nFlg }

theorem retryOne_flags (r : Reserve) :
    r.retryOne.isInit = false ∧ r.retryOne.isForce = false ∧ r.retryOne.isEnd = true :=
  (by decide : ReserveType.isInit (.normal ||| .sFlg ||| .eFlg ||| .nFlg) = false ∧
    ReserveType.isForce (.normal ||| .sFlg ||| .eFlg ||| .nFlg) = false ∧
      Flag.has (ReserveType.normal ||| .sFlg ||| .eFlg ||| .nFlg) ReserveType.eFlg = true)

theorem retryStart_flags (r : Reserve) :
    r.retryStart.isInit = false ∧ r.retryStart.isForce = false :=
  (by decide : ReserveType.isInit (.normal ||| .sFlg ||| .nFlg) = false ∧
    ReserveType.isForce (.normal ||| .sFlg ||| .nFlg) = false)

theorem retryEnd_flags (r : Reserve) :
    r.retryEnd.isInit = false ∧ r.retryEnd.isForce = false ∧ r.retryEnd.isEnd = true ∧
      r.retryEnd.isStart = false :=
  (by decide : ReserveType.isInit (.normal ||| .eFlg ||| .nFlg) = false ∧
    ReserveType.isForce (.normal ||| .eFlg ||| .nFlg) = false ∧
      Flag.has (ReserveType.normal ||| .eFlg ||| .nFlg) ReserveType.eFlg = true ∧
        Flag.has (ReserveType.normal ||| .eFlg ||| .nFlg) ReserveType.sFlg = false)

theorem normal_flags {r : Reserve} (h : r.type = .normal) :
    r.isInit = false ∧ r.isForce = false ∧ r.isStart = false := by
  rw [Reserve.isInit, Reserve.isForce, Reserve.isStart, h]
  decide

/-- The last reserve that is retried ends the batch. -/
def closeRetries : List Reserve → List Reserve
  | [] => []
  | [r] => [r.retryEnd]
  | r :: r' :: l => r :: closeRetries (r' :: l)

/-- The types that `on_exec_cache_schedule` gives to `retry_reserves_` at the end of a batch. -/
def markRetries : List Reserve → List Reserve
  | [] => []
  | [r] => [r.retryOne]
  | r :: r' :: l => r.retryStart :: closeRetries (r' :: l)

/-- None of the reserves that are retried is forced, and only the first one opens a batch. -/
theorem of_mem_closeRetries {rs : List Reserve} (hrs : ∀ r ∈ rs, r.type = .normal) :
    ∀ r ∈ closeRetries rs, r.isInit = false ∧ r.isForce = false ∧ r.isStart = false := by
  induction rs using closeRetries.induct with
  | case1 => exact fun _ h => absurd h List.not_mem_nil
  | case2 r =>
    intro s hs
    rw [closeRetries, List.mem_singleton] at hs
    subst hs
    obtain ⟨hinit, hforce, -, hstart⟩ := retryEnd_flags r
    exact ⟨hinit, hforce, hstart⟩
  | case3 r r' l ih =>
    intro s hs
    rw [closeRetries] at hs
    rcases List.mem_cons.mp hs with rfl | hs
    · exact normal_flags (hrs s List.mem_cons_self)
    · exact ih (fun r hr => hrs r (List.mem_cons_of_mem _ hr)) s hs

theorem of_mem_markRetries {rs : List Reserve} (hrs : ∀ r ∈ rs, r.type = .normal) :
    ∀ r ∈ markRetries rs, r.isInit = false ∧ r.isForce = false := by
  intro r hr
  rcases rs with _ | ⟨r₀, _ | ⟨r₁, rs⟩⟩
  · exact absurd hr List.not_mem_nil
  · obtain ⟨hinit, hforce, -⟩ := retryOne_flags r₀
    rw [List.mem_singleton.mp hr]
    exact ⟨hinit, hforce⟩
  · rcases List.mem_cons.mp hr with rfl | hr
    · exact retryStart_flags r₀
    · have ⟨hinit, hforce, _⟩ := of_mem_closeRetries
        (fun r hr => hrs r (List.mem_cons_of_mem r₀ hr)) r hr
      exact ⟨hinit, hforce⟩

end EventSchedule

end AutoRec
