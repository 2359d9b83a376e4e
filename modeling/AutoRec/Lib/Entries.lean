import AutoRec.Lib.Slots

/-!
# The entries of a table

The slots that are in use, read as a list.

* `entries`; `length_entries_eq_iff`.
* `entries_insertAt`, `entries_set`: an entry comes in, in the middle or into a free slot.
* `entries_removeAt`, `Packed.entries_removeAt`: an entry goes.
* `filter_take`, `filter_drop`: a table that is cut where a test stops to hold.
-/

namespace Slots

variable {α : Type*} {n : ℕ} {p q : α → Bool} {v : Vector α n}

/-- The entries that satisfy `p`, in their order. -/
def entries (p : α → Bool) (v : Vector α n) : List α := v.toList.filter p

theorem entries_eq_append (v : Vector α n) (i : ℕ) :
    entries p v = (v.toList.take i).filter p ++ (v.toList.drop i).filter p := by
  rw [← List.filter_append, List.take_append_drop, entries]

theorem length_entries_eq_iff :
    (entries p v).length = n ↔ ∀ i (hi : i < n), p v[i] = true := by
  have hlen : v.toList.length = n := Vector.length_toList
  have hiff : (entries p v).length = v.toList.length ↔ ∀ x ∈ v.toList, p x = true :=
    List.length_filter_eq_length_iff
  rw [hlen] at hiff
  rw [hiff]
  constructor
  · exact fun h i hi => h _ (Vector.mem_toList_iff.mpr (Vector.getElem_mem hi))
  · intro h x hx
    obtain ⟨i, hi, rfl⟩ := Vector.mem_iff_getElem.mp (Vector.mem_toList_iff.mp hx)
    exact h i hi

theorem entries_eq_toList (h : ∀ i (hi : i < n), p v[i] = true) : entries p v = v.toList := by
  apply List.Sublist.eq_of_length List.filter_sublist
  rw [Vector.length_toList]
  exact length_entries_eq_iff.mpr h

/-! ## An entry comes in -/

theorem toList_insertAt (v : Vector α n) {i : ℕ} (hi : i < n) (x : α) :
    (insertAt v i x).toList = v.toList.take i ++ x :: (v.toList.drop i).dropLast := by
  apply List.ext_getElem
  · simp
    omega
  · intro k h1 h2
    have hk : k < n := by simpa using h1
    have hlen : (v.toList.take i).length = i := by simp; omega
    rw [Vector.getElem_toList, insertAt_getElem]
    rcases Nat.lt_trichotomy k i with hki | rfl | hik
    · rw [List.getElem_append_left (by omega)]
      simp only [List.getElem_take, Vector.getElem_toList]
      grind
    · rw [List.getElem_append_right (by omega)]
      simp [hlen]
    · rw [List.getElem_append_right (by omega)]
      obtain ⟨d, rfl⟩ : ∃ d, k = i + 1 + d := ⟨k - i - 1, by omega⟩
      have hd : i + 1 + d - i = d + 1 := by omega
      simp only [hlen, hd, List.getElem_cons_succ, List.getElem_dropLast, List.getElem_drop,
        Vector.getElem_toList]
      grind

/-- **An entry comes in** in front of slot `i`; the last slot is free. -/
theorem entries_insertAt {i : ℕ} (hi : i < n) {x : α} (hx : p x = true)
    (hlast : ∀ hn : n - 1 < n, p v[n - 1] = false) :
    entries p (insertAt v i x) =
      (v.toList.take i).filter p ++ x :: (v.toList.drop i).filter p := by
  have hne : v.toList.drop i ≠ [] := by
    rw [ne_eq, List.drop_eq_nil_iff, Vector.length_toList]
    omega
  have hpl : p ((v.toList.drop i).getLast hne) = false := by
    rw [List.getLast_drop, List.getLast_eq_getElem]
    simp only [Vector.length_toList, Vector.getElem_toList]
    exact hlast (by omega)
  have hdrop : (v.toList.drop i).filter p = (v.toList.drop i).dropLast.filter p := by
    conv_lhs => rw [← List.dropLast_append_getLast hne]
    rw [List.filter_append, List.filter_singleton, hpl]
    exact List.append_nil _
  rw [entries, toList_insertAt v hi, List.filter_append, List.filter_cons_of_pos hx, hdrop]

/-- **An entry comes in** over a free slot. -/
theorem entries_set {i : ℕ} (hi : i < n) {x : α} (hx : p x = true) (hv : p v[i] = false) :
    entries p (v.set i x) = (v.toList.take i).filter p ++ x :: (v.toList.drop i).filter p := by
  have hlen : i < v.toList.length := by simpa using hi
  have hset : (v.set i x).toList = v.toList.take i ++ x :: v.toList.drop (i + 1) := by
    rw [Vector.toList_set, List.set_eq_take_append_cons_drop, if_pos hlen]
  have hdrop : v.toList.drop i = v[i] :: v.toList.drop (i + 1) := by
    rw [List.drop_eq_getElem_cons hlen, Vector.getElem_toList]
  rw [entries, hset, hdrop, List.filter_append, List.filter_cons_of_pos hx,
    List.filter_cons_of_neg (by simp [hv])]

/-! ## An entry goes -/

theorem toList_removeAt (v : Vector α n) {i : ℕ} (hi : i < n) (z : α) :
    (removeAt v i z).toList = v.toList.take i ++ v.toList.drop (i + 1) ++ [z] := by
  apply List.ext_getElem
  · simp
    omega
  · intro k h1 h2
    have hk : k < n := by simpa using h1
    have hlen : (v.toList.take i).length = i := by simp; omega
    rw [Vector.getElem_toList, removeAt_getElem]
    grind

/-- **The entry of slot `i` goes.** -/
theorem entries_removeAt {i : ℕ} (hi : i < n) {z : α} (hz : p z = false) :
    entries p (removeAt v i z) =
      (v.toList.take i).filter p ++ (v.toList.drop (i + 1)).filter p := by
  rw [entries, toList_removeAt v hi]
  simp [List.filter_append, hz]

theorem entries_removeAt_append {i : ℕ} (hi : i < n) {x : α} (hx : p x = true) :
    entries p (removeAt v i x) =
      (v.toList.take i).filter p ++ (v.toList.drop (i + 1)).filter p ++ [x] := by
  rw [entries, toList_removeAt v hi, List.filter_append, List.filter_append,
    List.filter_singleton, hx]
  rfl

theorem Packed.filter_take (h : Packed p v) {i : ℕ} (hi : i < n) (hpi : p v[i] = true) :
    (v.toList.take i).filter p = v.toList.take i := by
  rw [List.filter_eq_self]
  intro x hx
  obtain ⟨j, hj, rfl⟩ := List.mem_iff_getElem.mp hx
  have hji : j < i := by simp at hj; omega
  simpa using h j i hji hi hpi

/-- In a table with the used slots first, the number of a slot is the place of its entry. -/
theorem Packed.entries_removeAt (h : Packed p v) {i : ℕ} (hi : i < n) (hpi : p v[i] = true) {z : α}
    (hz : p z = false) : entries p (Slots.removeAt v i z) = (entries p v).eraseIdx i := by
  have hlen : i < v.toList.length := by simpa using hi
  have hdrop : v.toList.drop i = v[i] :: v.toList.drop (i + 1) := by
    rw [List.drop_eq_getElem_cons hlen, Vector.getElem_toList]
  have htake : (v.toList.take i).length = i := by simp; omega
  rw [Slots.entries_removeAt hi hz, entries_eq_append v i, h.filter_take hi hpi, hdrop,
    List.filter_cons_of_pos hpi, List.eraseIdx_append_of_length_le (by omega), htake]
  simp

/-! ## A table that is cut -/

theorem forall_mem_take {i : ℕ} (hbelow : ∀ j (hj : j < n), j < i → q v[j] = true) :
    ∀ x ∈ v.toList.take i, q x = true := by
  intro x hx
  obtain ⟨j, hj, rfl⟩ := List.mem_iff_getElem.mp hx
  have hji : j < i ∧ j < n := by simp at hj; omega
  simpa using hbelow j hji.2 hji.1

theorem forall_mem_drop {i : ℕ}
    (habove : ∀ j (hj : j < n), i ≤ j → p v[j] = true → q v[j] = false) :
    ∀ x ∈ v.toList.drop i, p x = true → q x = false := by
  intro x hx hpx
  obtain ⟨j, hj, rfl⟩ := List.mem_iff_getElem.mp hx
  have hji : i + j < n := by simp at hj; omega
  have hnot := habove (i + j) hji (Nat.le_add_right i j) (by simpa using hpx)
  simpa using hnot

/-- The slots below `i` satisfy `q`, and the used ones from there on do not. -/
theorem filter_take {i : ℕ} (hbelow : ∀ j (hj : j < n), j < i → q v[j] = true)
    (habove : ∀ j (hj : j < n), i ≤ j → p v[j] = true → q v[j] = false) :
    (v.toList.take i).filter p = (entries p v).filter q := by
  have h1 : ((v.toList.take i).filter p).filter q = (v.toList.take i).filter p := by
    rw [List.filter_eq_self]
    exact fun x hx => forall_mem_take hbelow x (List.mem_filter.mp hx).1
  have h2 : ((v.toList.drop i).filter p).filter q = [] := by
    rw [List.filter_eq_nil_iff]
    intro x hx
    obtain ⟨hx, hpx⟩ := List.mem_filter.mp hx
    simpa using forall_mem_drop habove x hx hpx
  rw [entries_eq_append v i, List.filter_append, h1, h2, List.append_nil]

theorem filter_drop {i : ℕ} (hbelow : ∀ j (hj : j < n), j < i → q v[j] = true)
    (habove : ∀ j (hj : j < n), i ≤ j → p v[j] = true → q v[j] = false) :
    (v.toList.drop i).filter p = (entries p v).filter fun x => !q x := by
  have h1 : ((v.toList.take i).filter p).filter (fun x => !q x) = [] := by
    rw [List.filter_eq_nil_iff]
    intro x hx
    simpa using forall_mem_take hbelow x (List.mem_filter.mp hx).1
  have h2 : ((v.toList.drop i).filter p).filter (fun x => !q x) = (v.toList.drop i).filter p := by
    rw [List.filter_eq_self]
    intro x hx
    obtain ⟨hx, hpx⟩ := List.mem_filter.mp hx
    simpa using forall_mem_drop habove x hx hpx
  rw [entries_eq_append v i, List.filter_append, h1, h2, List.nil_append]

end Slots
