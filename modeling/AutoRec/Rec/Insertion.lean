import AutoRec.Lib.Entries
import AutoRec.Rec.Ordering

/-!
# What `add_reserve` puts in

The used entries of a table as a list, before and after the call.

* `CanAdd`: when the call returns true (`addAccepted_iff`).
* `Inserts`: the new entry is behind all that do not start later than it, and in front of the rest.
* **`addReserve_inserts`**: the call inserts, or leaves everything as it is.
-/

namespace AutoRec

open Slots

/-- The used entries of `reserves_`, in their order. -/
def usedReserves (v : Vector Reserve reserveNumMax) : List Reserve := entries Reserve.isUsed v

/-- The new entry: the arguments, written over a cleared slot or over a free slot of the table. -/
def NewEntry (v : Vector Reserve reserveNumMax) (a : SetArgs) (b : Bool) (e : Reserve) : Prop :=
  ∃ old, (old = Reserve.clear ∨ old ∈ v.toList ∧ old.isUsed = false) ∧ e = a.entry b old

/-- **A stable sorted insertion**: the entries that do not start later, the new one, the others. -/
def Inserts (v : Vector Reserve reserveNumMax) (a : SetArgs) (b : Bool)
    (w : Vector Reserve reserveNumMax) : Prop :=
  ∃ st e, a.startTime = some st ∧ NewEntry v a b e ∧
    e.state = (if b then ReserveState.rescheduled else ReserveState.init) ∧
    usedReserves w = (usedReserves v).filter (fun r => r.startTime.le st) ++
      e :: (usedReserves v).filter fun r => !r.startTime.le st

namespace RecManager

/-- **When `add_reserve` returns true**: the reserve starts before it ends, a slot is free, the key
is not reserved, and, unless it is rescheduled, not being recorded. -/
def CanAdd (m : RecManager) (a : SetArgs) (isRescheduled : Bool) : Prop :=
  ∃ st en, a.startTime = some st ∧ a.endTime = some en ∧ st < en ∧
    (∃ i, ∃ hi : i < reserveNumMax, m.reserves[i].isUsed = false) ∧
    (∀ i (hi : i < reserveNumMax), m.reserves[i].isUsed = true → m.reserves[i].key ≠ a.key) ∧
    (isRescheduled = true ∨
      ∀ g (hg : g < groupMax), m.recordings[g].isUsed = true → m.recordings[g].key ≠ a.key)

variable {m : RecManager} {a : SetArgs} {b : Bool}

theorem isExistEmptyReserve_iff : m.isExistEmptyReserve = true ↔
    ∃ i, ∃ hi : i < reserveNumMax, m.reserves[i].isUsed = false := by
  rw [isExistEmptyReserve, findEmptyReserve, firstFrom_isSome_iff]
  simp only [Nat.zero_le, true_and, Bool.not_eq_true']

theorem isDuplicateReserve_eq_false_iff : m.isDuplicateReserve (Reserve.clear.set a) = false ↔
    ∀ i (hi : i < reserveNumMax), m.reserves[i].isUsed = true → m.reserves[i].key ≠ a.key := by
  rw [Bool.eq_false_iff, ne_eq, isDuplicateReserve_iff, Reserve.set_key]
  push Not
  exact Iff.rfl

theorem isNowRecordingReserve_eq_false_iff :
    m.isNowRecordingReserve (Reserve.clear.set a) = false ↔
      ∀ g (hg : g < groupMax), m.recordings[g].isUsed = true → m.recordings[g].key ≠ a.key := by
  rw [Bool.eq_false_iff, ne_eq, isNowRecordingReserve_iff, Reserve.set_key]
  push Not
  exact Iff.rfl

theorem addAccepted_iff : m.addAccepted a b = true ↔ m.CanAdd a b := by
  have hge : ∀ s e : Etime, s.ge e = false ↔ s < e := fun s e => by
    rw [Bool.eq_false_iff, ne_eq, Etime.ge_iff, not_le]
  unfold addAccepted CanAdd
  rcases a.startTime with _ | st
  · simp
  rcases a.endTime with _ | en
  · simp
  simp only [Bool.and_eq_true, Bool.or_eq_true, Bool.not_eq_true', isExistEmptyReserve_iff,
    isDuplicateReserve_eq_false_iff, isNowRecordingReserve_eq_false_iff, hge, Option.some.injEq,
    exists_and_left, exists_eq_left', and_assoc]

theorem addReserve_fst : (m.addReserve a b).1 = m.addAccepted a b := by
  rcases hacc : m.addAccepted a b with _ | _
  · rw [m.addReserve_of_refused hacc]
  · obtain ⟨st, w, -, -, he⟩ := m.addReserve_of_accepted hacc
    rw [he]

end RecManager

theorem entry_state {a : SetArgs} {b : Bool} {r : Reserve} :
    (a.entry b r).state = if b then ReserveState.rescheduled else ReserveState.init := by
  cases b
  · rfl
  · show ReserveState.init ||| ReserveState.rescheduled = ReserveState.rescheduled
    decide

/-- **What is placed comes in** among the used entries: those in front of it do not start later, and
the first behind it starts later. -/
theorem Placed.comesIn {v w : Vector Reserve reserveNumMax} {a : SetArgs} {b : Bool} {st : Etime}
    (hw : Placed v a b st w) (hp : Packed Reserve.isUsed v)
    (hfree : ∃ i, ∃ hi : i < reserveNumMax, v[i].isUsed = false) :
    ∃ (i : Fin reserveNumMax) (e : Reserve), NewEntry v a b e ∧
      usedReserves w = (v.toList.take i).filter Reserve.isUsed ++
        e :: (v.toList.drop i).filter Reserve.isUsed ∧
      (∀ j (hj : j < reserveNumMax), j < i → v[j].startTime.le st = true) ∧
      ∀ j (hj : j < reserveNumMax), i ≤ j → v[j].isUsed = true →
        v[i].isUsed = true ∧ st < v[i].startTime := by
  have hle : ∀ t : Etime, t.gt st = false → t.le st = true := fun t ht => by
    rw [Etime.le_iff, ← not_lt, ← Etime.gt_iff, ht]
    exact Bool.false_ne_true
  cases hw with
  | before i hi =>
    obtain ⟨-, hgt, hbefore⟩ := firstFrom_some hi
    have hlast : ∀ hn : reserveNumMax - 1 < reserveNumMax,
        v[reserveNumMax - 1].isUsed = false := by
      obtain ⟨k, hk, hfk⟩ := hfree
      exact fun hn => hp.free_of_le (by omega) hn hfk
    refine ⟨i, _, ⟨_, .inl rfl, rfl⟩, entries_insertAt i.2 (entry_isUsed ..) hlast,
      fun j hj hji => hle _ (hbefore ⟨j, hj⟩ hji (Nat.zero_le j)), fun j hj hij hu => ?_⟩
    refine ⟨?_, Etime.gt_iff.mp hgt⟩
    by_contra hi'
    rw [hp.free_of_le hij hj (by simpa using hi')] at hu
    cases hu
  | last i hl hi =>
    obtain ⟨-, hf, -⟩ := firstFrom_some hi
    have hfi : v[(i : ℕ)].isUsed = false := by simpa using hf
    have hmem : v[i] ∈ v.toList := Vector.mem_toList_iff.mpr (Vector.getElem_mem i.2)
    refine ⟨i, _, ⟨_, .inr ⟨hmem, hfi⟩, rfl⟩, entries_set i.2 (entry_isUsed ..) hfi,
      fun j hj _ => hle _ (firstFrom_none hl j hj (Nat.zero_le j)), fun j hj hij hu => ?_⟩
    rw [hp.free_of_le hij hj hfi] at hu
    cases hu

/-- **What is placed is inserted**, if the table is sorted as well. -/
theorem Placed.inserts {v w : Vector Reserve reserveNumMax} {a : SetArgs} {b : Bool} {st : Etime}
    (hw : Placed v a b st w) (hp : Packed Reserve.isUsed v) (hs : StartsSorted v)
    (hst : a.startTime = some st) (hfree : ∃ i, ∃ hi : i < reserveNumMax, v[i].isUsed = false) :
    Inserts v a b w := by
  obtain ⟨i, e, hnew, hused, hbelow, hbehind⟩ := hw.comesIn hp hfree
  have habove : ∀ j (hj : j < reserveNumMax), i ≤ j → v[j].isUsed = true →
      v[j].startTime.le st = false := by
    intro j hj hij hu
    obtain ⟨hui, hgt⟩ := hbehind j hj hij hu
    have hle : v[i].startTime ≤ v[j].startTime := by
      rcases Nat.eq_or_lt_of_le hij with rfl | hlt
      · exact le_rfl
      · exact hs i j hlt hj hui hu
    rw [Bool.eq_false_iff, ne_eq, Etime.le_iff, not_le]
    exact lt_of_lt_of_le hgt hle
  refine ⟨st, e, hst, hnew, ?_, ?_⟩
  · obtain ⟨old, -, rfl⟩ := hnew
    exact entry_state
  · rw [hused, filter_take (q := fun r => r.startTime.le st) hbelow habove,
      filter_drop (q := fun r => r.startTime.le st) hbelow habove]
    rfl

theorem OrderInv.addReserve {m : RecManager} (h : OrderInv m.reserves) (a : SetArgs) (b : Bool) :
    OrderInv (m.addReserve a b).2.reserves := by
  rcases hacc : m.addAccepted a b with _ | _
  · rw [m.addReserve_of_refused hacc]
    exact h
  · obtain ⟨st, w, hst, hw, he⟩ := m.addReserve_of_accepted hacc
    rw [he]
    exact h.placed hst hw

/-- **`add_reserve` is a stable sorted insertion or a no-op**, and it is the insertion exactly when
the reserve can be added. -/
theorem addReserve_inserts (m : RecManager) (a : SetArgs) (b : Bool)
    (hp : Packed Reserve.isUsed m.reserves) (hs : StartsSorted m.reserves) :
    ((m.addReserve a b).1 = true → Inserts m.reserves a b (m.addReserve a b).2.reserves) ∧
      ((m.addReserve a b).1 = false → (m.addReserve a b).2 = m) ∧
      ((m.addReserve a b).1 = true ↔ m.CanAdd a b) := by
  rw [RecManager.addReserve_fst]
  refine ⟨fun hacc => ?_, fun hacc => ?_, RecManager.addAccepted_iff⟩
  · obtain ⟨-, -, -, -, -, hfree, -⟩ := RecManager.addAccepted_iff.mp hacc
    obtain ⟨st, w, hst, hw, he⟩ := m.addReserve_of_accepted hacc
    rw [he]
    exact hw.inserts hp hs hst hfree
  · rw [m.addReserve_of_refused hacc]

/-- The arguments for event `id` of service 3. -/
def exampleArgs (id : UInt16) (startTime endTime : ℤ) : SetArgs :=
  EpgEvent.setArgs ⟨⟨1, 2, 3, id⟩, ⟨startTime, 0⟩, ⟨endTime, 0⟩, ""⟩ none .none

/-- Two reserves, one from 100 and one from 300. -/
def twoReserves : RecManager :=
  (((RecManager.initial .oneTuner).addReserve (exampleArgs 7 300 400) false).2.addReserve
    (exampleArgs 6 100 200) false).2

/-- A third one goes in between. -/
theorem addReserve_inserts_twoReserves :
    (usedReserves (twoReserves.addReserve (exampleArgs 9 200 250) false).2.reserves).map
        (fun r => r.eventId) = [6, 9, 7] ∧
      Inserts twoReserves.reserves (exampleArgs 9 200 250) false
        (twoReserves.addReserve (exampleArgs 9 200 250) false).2.reserves := by
  have hI : OrderInv twoReserves.reserves := (OrderInv.initial.addReserve _ _).addReserve _ _
  exact ⟨by decide,
    (addReserve_inserts twoReserves _ _ hI.packed hI.sorted).1 (by decide)⟩

end AutoRec
