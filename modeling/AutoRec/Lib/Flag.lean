import Mathlib.Tactic.Common

/-!
# Flags in a machine word

A word of width `w` read as a set of flags; a mask names one flag or several.

* `has s m`: some flag of the mask `m` is set in `s` (`s & m`, read as a truth value).
* `has_or`, `has_andNot`: setting and dropping flags.
-/

namespace Flag

variable {w : ℕ} {s t m : BitVec w}

/-- Some flag of the mask `m` is set in `s`. -/
def has (s m : BitVec w) : Bool := s &&& m != 0#w

@[simp] theorem has_or : has (s ||| t) m = (has s m || has t m) := by
  have hd : (s ||| t) &&& m = (s &&& m) ||| (t &&& m) := by
    rw [BitVec.and_comm, BitVec.and_or_distrib_left, BitVec.and_comm m s, BitVec.and_comm m t]
  have hz : (s ||| t) &&& m = 0#w ↔ s &&& m = 0#w ∧ t &&& m = 0#w := by
    rw [hd, BitVec.or_eq_zero_iff]
  rw [Bool.eq_iff_iff]
  simp only [has, bne_iff_ne, Bool.or_eq_true, ne_eq, hz]
  tauto

@[simp] theorem zero_has : has (0#w) m = false := by
  simp [has]

theorem has_andNot (h : t &&& m = 0#w) : has (s &&& ~~~t) m = has s m := by
  have hs : s &&& ~~~t &&& m = s &&& m := by
    ext i hi
    have hi' : (t &&& m)[i] = false := by rw [h]; simp
    simp only [BitVec.getElem_and, BitVec.getElem_not] at hi' ⊢
    cases s[i] <;> cases ht : t[i] <;> cases hm : m[i] <;> simp_all
  rw [has, has, hs]

end Flag
