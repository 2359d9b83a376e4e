import Mathlib.Algebra.Group.Nat.Defs
import Mathlib.Algebra.Ring.Int.Defs
import Mathlib.Data.List.Basic
import Mathlib.Tactic.Common

/-!
# Partial writes

A buffer is handed over by calls that each take a piece of it, and that may take less than they are
asked for.

* `Chunk`, `places`, `bytes`: what the calls take; `Covers`: each byte of a part of the buffer, once
  and in order.
* `covers_cons_iff`: the pieces that are not empty follow each other; `Covers.bytes_eq`: they make
  up the part.
* `requested`, `Possible`: results that the calls can have, when a loop asks for what it takes to be
  left.
* `intOf`: a count that is kept in an `int`.
-/

namespace PartialWrites

/-- A piece of a buffer. -/
structure Chunk where
  start : ℕ
  count : ℕ
deriving DecidableEq

/-- The places of the bytes in the buffer, in the order in which they are handed over. -/
def places (l : List Chunk) : List ℕ := l.flatMap fun x => List.range' x.start x.count

/-- The bytes of the pieces. -/
def bytes {α : Type*} (p : List α) (l : List Chunk) : List α :=
  l.flatMap fun x => (p.drop x.start).take x.count

/-- The `n` bytes from the place `i` on are handed over, each once and in order. -/
def Covers (i n : ℕ) (l : List Chunk) : Prop := places l = List.range' i n

instance (i n : ℕ) (l : List Chunk) : Decidable (Covers i n l) :=
  inferInstanceAs (Decidable (places l = List.range' i n))

section Covers

variable {i n : ℕ} {x : Chunk} {l : List Chunk}

theorem places_cons : places (x :: l) = List.range' x.start x.count ++ places l :=
  List.flatMap_cons

theorem covers_nil_iff : Covers i n [] ↔ n = 0 := by
  constructor
  · intro h
    have hlen := congrArg List.length h
    rw [List.length_range'] at hlen
    exact hlen.symm
  · rintro rfl
    rfl

theorem covers_cons_zero (hx : x.count = 0) : Covers i n (x :: l) ↔ Covers i n l := by
  rw [Covers, places_cons, hx]
  rfl

/-- **A piece that is not empty** is the first part, and what follows is the rest. -/
theorem covers_cons_iff (hx : x.count ≠ 0) : Covers i n (x :: l) ↔
    x.start = i ∧ x.count ≤ n ∧ Covers (i + x.count) (n - x.count) l := by
  have hsplit : x.count ≤ n →
      List.range' i n = List.range' i x.count ++ List.range' (i + x.count) (n - x.count) := by
    intro hle
    rw [List.range'_append_1, Nat.add_sub_cancel' hle]
  rw [Covers, places_cons]
  constructor
  · intro h
    have hle : x.count ≤ n := by
      have hlen := congrArg List.length h
      rw [List.length_append, List.length_range', List.length_range'] at hlen
      omega
    rw [hsplit hle] at h
    obtain ⟨hfront, hrest⟩ := List.append_inj h (by rw [List.length_range', List.length_range'])
    refine ⟨?_, hle, hrest⟩
    obtain ⟨c, hc⟩ := Nat.exists_eq_succ_of_ne_zero hx
    rw [hc, List.range'_succ, List.range'_succ] at hfront
    exact (List.cons.inj hfront).1
  · rintro ⟨rfl, hle, hrest⟩
    rw [hsplit hle]
    exact congrArg _ hrest

/-- **The pieces make up the part.** -/
theorem Covers.bytes_eq {α : Type*} (p : List α) (h : Covers i n l) :
    bytes p l = (p.drop i).take n := by
  induction l generalizing i n with
  | nil =>
    rw [covers_nil_iff.mp h, List.take_zero]
    rfl
  | cons x l ih =>
    rw [bytes, List.flatMap_cons]
    by_cases hx : x.count = 0
    · rw [hx, List.take_zero, List.nil_append]
      exact ih ((covers_cons_zero hx).mp h)
    · obtain ⟨hstart, hle, hrest⟩ := (covers_cons_iff hx).mp h
      have hl : bytes p l = _ := ih hrest
      rw [bytes] at hl
      rw [hl, hstart, ← List.drop_drop, ← List.take_add, Nat.add_sub_cancel' hle]

theorem Covers.bytes_self {α : Type*} {p : List α} (h : Covers 0 p.length l) : bytes p l = p := by
  rw [h.bytes_eq p, List.drop_zero, List.take_length]

/-- From the start of the buffer only pieces in front of the part can be taken. -/
theorem Covers.eq_zero_of_start (hl : ∀ x ∈ l, x.start = 0) (hi : i ≠ 0) (h : Covers i n l) :
    n = 0 := by
  induction l with
  | nil => exact covers_nil_iff.mp h
  | cons x l ih =>
    by_cases hx : x.count = 0
    · exact ih (fun y hy => hl y (List.mem_cons_of_mem _ hy)) ((covers_cons_zero hx).mp h)
    · have hstart := hl x List.mem_cons_self
      exact absurd (((covers_cons_iff hx).mp h).1.symm.trans hstart) hi

end Covers

/-! ## The results of the calls -/

/-- A count that is kept in an `int`. -/
def intOf (n : ℕ) : ℤ :=
  if n % 2 ^ 32 < 2 ^ 31 then ((n % 2 ^ 32 : ℕ) : ℤ) else ((n % 2 ^ 32 : ℕ) : ℤ) - 2 ^ 32

theorem intOf_neg_iff (n : ℕ) : intOf n < 0 ↔ 2 ^ 31 ≤ n % 2 ^ 32 := by
  unfold intOf
  split_ifs <;> omega

theorem toNat_intOf {n : ℕ} (h : ¬ intOf n < 0) : (intOf n).toNat = n % 2 ^ 32 := by
  rw [intOf_neg_iff] at h
  rw [intOf, if_pos (by omega), Int.toNat_natCast]

/-- What is asked for in a call, when the calls before it had the results `r` and each was taken to
be what is left of it modulo 2^32. -/
def requested : (ℕ → ℕ) → ℕ → ℕ → ℕ
  | _, len, 0 => len
  | r, len, k + 1 => requested (fun j => r (j + 1)) (len - r 0 % 2 ^ 32) k

/-- No call takes more than it is asked for. -/
def Possible (r : ℕ → ℕ) (len : ℕ) : Prop := ∀ k, r k ≤ requested r len k

theorem requested_le (r : ℕ → ℕ) (len k : ℕ) : requested r len k ≤ len := by
  induction k generalizing r len with
  | zero => exact Nat.le_refl _
  | succ k ih =>
    have h := ih (fun j => r (j + 1)) (len - r 0 % 2 ^ 32)
    rw [requested]
    omega

theorem Possible.tail {r : ℕ → ℕ} {len : ℕ} (h : Possible r len) :
    Possible (fun j => r (j + 1)) (len - r 0 % 2 ^ 32) := fun k => h (k + 1)

theorem Possible.le {r : ℕ → ℕ} {len : ℕ} (h : Possible r len) (k : ℕ) : r k ≤ len :=
  Nat.le_trans (h k) (requested_le r len k)

end PartialWrites
