import Mathlib.Algebra.GroupWithZero.Nat
import Mathlib.Tactic.Common

/-!
# Segments packed in a buffer

A buffer from which segments are taken one behind the other, from its start on. The segment in front
can be given back, and then all others move down; the segment behind can grow, shrink or be given
back.

* `slice`, `write`: reading and writing a part of a buffer; `slice_write_self`,
  `slice_write_front`: what is read after something has been written.
* `Laid`: the segments of a list follow each other from one place to another; `Laid.append`,
  `Laid.shift`.
* `slice_closed`: what is read after the gap in front has been closed.
-/

namespace Arena

variable {α : Type*}

/-- The entries from `i` up to `j`. -/
def slice (m : List α) (i j : ℕ) : List α := (m.take j).drop i

/-- `l` is written to the places from `i` on. -/
def write (m : List α) (i : ℕ) (l : List α) : List α := m.take i ++ l ++ m.drop (i + l.length)

section Memory

variable (m l : List α) {i j k : ℕ}

@[simp] theorem getElem?_slice (n : ℕ) :
    (slice m i j)[n]? = if i + n < j then m[i + n]? else none := by
  rw [slice, List.getElem?_drop, List.getElem?_take]

theorem getElem?_write (h : i ≤ m.length) (n : ℕ) : (write m i l)[n]? =
    if n < i then m[n]? else if n < i + l.length then l[n - i]? else m[n]? := by
  have hi : (m.take i).length = i := by rw [List.length_take]; omega
  rw [write, List.append_assoc, List.getElem?_append, hi]
  split_ifs with h₁ h₂
  · rw [List.getElem?_take, if_pos h₁]
  · rw [List.getElem?_append, if_pos (by omega)]
  · rw [List.getElem?_append, if_neg (by omega), List.getElem?_drop]
    congr 1
    omega

theorem length_slice (h : j ≤ m.length) : (slice m i j).length = j - i := by
  rw [slice, List.length_drop, List.length_take]
  omega

@[simp] theorem length_write (h : i + l.length ≤ m.length) : (write m i l).length = m.length := by
  simp only [write, List.length_append, List.length_take, List.length_drop]
  omega

theorem slice_append (hij : i ≤ j) (hjk : j ≤ k) (hj : j ≤ m.length) :
    slice m i j ++ slice m j k = slice m i k := by
  apply List.ext_getElem?
  intro n
  rw [List.getElem?_append, length_slice _ hj]
  simp only [getElem?_slice]
  split_ifs <;> first | rfl | omega | (congr 1; omega)

theorem take_slice (n : ℕ) (h : i + n ≤ j) : (slice m i j).take n = slice m i (i + n) := by
  rw [slice, slice, List.take_drop, List.take_take, Nat.min_eq_left h]

theorem slice_write_self (h : i ≤ m.length) (hj : j = i + l.length) :
    slice (write m i l) i j = l := by
  apply List.ext_getElem?
  intro n
  rw [getElem?_slice, getElem?_write _ _ h]
  split_ifs with h₁ h₂ h₃
  · omega
  · rw [Nat.add_sub_cancel_left]
  · omega
  · rw [List.getElem?_eq_none (by omega)]

theorem slice_write_front (hi : i ≤ m.length) (h : j ≤ i) :
    slice (write m i l) k j = slice m k j := by
  apply List.ext_getElem?
  intro n
  rw [getElem?_slice, getElem?_slice, getElem?_write _ _ hi]
  split_ifs <;> first | rfl | omega

/-- **Closing a gap**: what lies behind `k` is moved down to `i`, and is read there. -/
theorem slice_closed {a b : ℕ} (hik : i ≤ k) (hka : k ≤ a) (hkm : k ≤ m.length)
    (hb : b ≤ m.length) :
    slice (write m i (m.drop k)) (a - (k - i)) (b - (k - i)) = slice m a b := by
  apply List.ext_getElem?
  intro n
  rw [getElem?_slice, getElem?_slice, getElem?_write _ _ (by omega), List.length_drop,
    List.getElem?_drop]
  split_ifs <;> first | rfl | omega | (congr 1; omega)

end Memory

/-! ## Segments -/

variable {σ : Type*} (raw tail : σ → ℕ)

/-- The segments of the list follow each other from `i` to `j`. -/
def Laid : ℕ → List σ → ℕ → Prop
  | i, [], j => i = j
  | i, x :: l, j => raw x = i ∧ raw x ≤ tail x ∧ Laid (tail x) l j

section Laid

variable {raw tail} {i j n : ℕ} {l l' : List σ} {x : σ}

theorem Laid.append (h : Laid raw tail i l j) (h' : Laid raw tail j l' n) :
    Laid raw tail i (l ++ l') n := by
  induction l generalizing i with
  | nil =>
    obtain rfl : i = j := h
    exact h'
  | cons x l ih => exact ⟨h.1, h.2.1, ih h.2.2⟩

theorem laid_append_iff : Laid raw tail i (l ++ l') n ↔
    ∃ j, Laid raw tail i l j ∧ Laid raw tail j l' n := by
  refine ⟨fun h => ?_, fun ⟨j, h, h'⟩ => h.append h'⟩
  induction l generalizing i with
  | nil => exact ⟨i, rfl, h⟩
  | cons x l ih =>
    obtain ⟨j, hl, hl'⟩ := ih h.2.2
    exact ⟨j, ⟨h.1, h.2.1, hl⟩, hl'⟩

theorem laid_snoc_iff : Laid raw tail i (l ++ [x]) n ↔
    Laid raw tail i l (raw x) ∧ raw x ≤ tail x ∧ tail x = n := by
  rw [laid_append_iff]
  constructor
  · rintro ⟨j, hl, rfl, hx, hn⟩
    exact ⟨hl, hx, hn⟩
  · rintro ⟨hl, hx, hn⟩
    exact ⟨raw x, hl, rfl, hx, hn⟩

theorem Laid.le (h : Laid raw tail i l j) : i ≤ j := by
  induction l generalizing i with
  | nil => exact Nat.le_of_eq h
  | cons x l ih =>
    have hx := h.1
    have := h.2.1
    have := ih h.2.2
    omega

theorem Laid.mem (h : Laid raw tail i l j) (hx : x ∈ l) :
    i ≤ raw x ∧ raw x ≤ tail x ∧ tail x ≤ j := by
  induction l generalizing i with
  | nil => cases hx
  | cons y l ih =>
    obtain ⟨hy, hyt, hl⟩ := h
    rcases List.mem_cons.mp hx with rfl | hx
    · exact ⟨Nat.le_of_eq hy.symm, hyt, hl.le⟩
    · have := ih hl hx
      omega

theorem Laid.sum (h : Laid raw tail i l j) : i + (l.map fun x => tail x - raw x).sum = j := by
  induction l generalizing i with
  | nil => exact h
  | cons x l ih =>
    obtain ⟨hx, hxt, hl⟩ := h
    have := ih hl
    rw [List.map_cons, List.sum_cons]
    omega

theorem Laid.shift {f : σ → σ} (h : Laid raw tail i l j) (hi : n ≤ i)
    (hf : ∀ x ∈ l, raw (f x) = raw x - n ∧ tail (f x) = tail x - n) :
    Laid raw tail (i - n) (l.map f) (j - n) := by
  induction l generalizing i with
  | nil =>
    obtain rfl : i = j := h
    rfl
  | cons x l ih =>
    obtain ⟨hx, hxt, hl⟩ := h
    obtain ⟨hr, ht⟩ := hf x List.mem_cons_self
    refine ⟨by omega, by omega, ?_⟩
    rw [ht]
    exact ih hl (by omega) fun y hy => hf y (List.mem_cons_of_mem _ hy)

/-- A change that leaves the places as they are. -/
theorem Laid.congr {f : σ → σ} (h : Laid raw tail i l j)
    (hf : ∀ x ∈ l, raw (f x) = raw x ∧ tail (f x) = tail x) :
    Laid raw tail i (l.map f) j := by
  induction l generalizing i with
  | nil => exact h
  | cons x l ih =>
    obtain ⟨hr, ht⟩ := hf x List.mem_cons_self
    have := h.2.1
    refine ⟨hr.trans h.1, by omega, ?_⟩
    rw [ht]
    exact ih h.2.2 fun y hy => hf y (List.mem_cons_of_mem _ hy)

end Laid

end Arena
