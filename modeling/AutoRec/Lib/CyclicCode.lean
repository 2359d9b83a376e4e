import Mathlib.Data.List.Basic
import Mathlib.Tactic.Common

/-!
# Cyclic redundancy checks

The check value of a message, from a register into which the bits of the message are shifted, the
most significant bit first. The register has any width and any polynomial.

* `shiftIn`, `feed`: a bit, and a sequence of bits; `topBits`: a bit vector as a sequence.
* `feed_xor`: the register is linear; `feed_eq_shift`: what is in it and what is fed meet in the
  first bits only.
* `tableOf`, `tableStep`: whole symbols, from a table; **`tableRun_eq`**: the register is the same.
* **`feed_topBits`**: a check value behind its message leaves 0.
* `feed_injective`, `feed_ne`: bits that differ within the width of the register leave it
  different; **`feed_symbol_ne`**: so does another symbol.
-/

namespace CyclicCode

/-! ## The register -/

section Register

variable {w : ℕ} (poly : BitVec w)

/-- What a bit that leaves the register, or comes in, does to the others. -/
def feedback (bit : Bool) : BitVec w := if bit then poly else 0#w

/-- A bit is shifted in. -/
def shiftIn (crc : BitVec w) (bit : Bool) : BitVec w := (crc <<< 1) ^^^ feedback poly (crc.msb ^^ bit)

/-- Bits are shifted in. -/
def feed (crc : BitVec w) (bits : List Bool) : BitVec w := bits.foldl (shiftIn poly) crc

/-- The first `k` bits. -/
def topBits (crc : BitVec w) (k : ℕ) : List Bool := (List.range k).map crc.getMsbD

@[simp] theorem length_topBits (crc : BitVec w) (k : ℕ) : (topBits crc k).length = k := by
  rw [topBits, List.length_map, List.length_range]

theorem topBits_succ (crc : BitVec w) (k : ℕ) :
    topBits crc (k + 1) = crc.msb :: topBits (crc <<< 1) k := by
  rw [topBits, List.range_succ_eq_map, List.map_cons, List.map_map, BitVec.msb_eq_getMsbD_zero]
  congr 1
  refine List.map_congr_left fun i _ => ?_
  rw [BitVec.getMsbD_shiftLeft, Function.comp_apply]

variable {poly} {a b crc : BitVec w} {x y : Bool} {bits bits' : List Bool} {k : ℕ}

theorem topBits_injective (h : topBits a w = topBits b w) : a = b := by
  refine BitVec.eq_of_getMsbD_eq fun i hi => ?_
  exact List.map_inj_left.mp h i (List.mem_range.mpr hi)

theorem feedback_xor : feedback poly (x ^^ y) = feedback poly x ^^^ feedback poly y := by
  cases x <;> cases y <;> simp [feedback]

theorem shiftIn_xor : shiftIn poly (a ^^^ b) (x ^^ y) = shiftIn poly a x ^^^ shiftIn poly b y := by
  have hmsb : ((a ^^^ b).msb ^^ (x ^^ y)) = ((a.msb ^^ x) ^^ (b.msb ^^ y)) := by
    rw [BitVec.msb_xor]
    cases a.msb <;> cases b.msb <;> cases x <;> cases y <;> rfl
  unfold shiftIn
  rw [hmsb, feedback_xor, BitVec.shiftLeft_xor_distrib]
  ac_rfl

theorem feed_cons : feed poly crc (x :: bits) = feed poly (shiftIn poly crc x) bits := rfl

theorem feed_append : feed poly crc (bits ++ bits') = feed poly (feed poly crc bits) bits' :=
  List.foldl_append

/-- **The register is linear.** -/
theorem feed_xor (h : bits.length = bits'.length) :
    feed poly (a ^^^ b) (List.zipWith xor bits bits') = feed poly a bits ^^^ feed poly b bits' := by
  induction bits generalizing a b bits' with
  | nil =>
    cases bits' with
    | nil => rfl
    | cons y t => cases h
  | cons x s ih =>
    cases bits' with
    | nil => cases h
    | cons y t =>
      rw [List.zipWith_cons_cons, feed_cons, feed_cons, feed_cons, shiftIn_xor]
      exact ih (Nat.succ.inj h)

theorem zipWith_xor_replicate : List.zipWith xor bits (.replicate bits.length false) = bits := by
  induction bits with
  | nil => rfl
  | cons x s ih =>
    rw [List.length_cons, List.replicate_succ, List.zipWith_cons_cons, Bool.xor_false, ih]

theorem zipWith_xor_self : List.zipWith xor bits bits = .replicate bits.length false := by
  induction bits with
  | nil => rfl
  | cons x s ih =>
    rw [List.length_cons, List.replicate_succ, List.zipWith_cons_cons, Bool.xor_self, ih]

theorem feed_split : feed poly (a ^^^ b) bits =
    feed poly a bits ^^^ feed poly b (.replicate bits.length false) := by
  have h : feed poly (a ^^^ b) (List.zipWith xor bits (.replicate bits.length false)) = _ :=
    feed_xor List.length_replicate.symm
  rwa [zipWith_xor_replicate] at h

theorem feed_zero (n : ℕ) : feed poly 0#w (.replicate n false) = 0#w := by
  induction n with
  | zero => rfl
  | succ n ih =>
    have hshift : shiftIn poly 0#w false = 0#w := by simp [shiftIn, feedback]
    rw [List.replicate_succ, feed_cons, hshift, ih]

/-- What is in the register meets what is fed in its first bits; the others are shifted. -/
theorem feed_eq_shift (h : bits.length = k) :
    feed poly crc bits = (crc <<< k) ^^^ feed poly 0#w (List.zipWith xor (topBits crc k) bits) := by
  induction bits generalizing crc k with
  | nil =>
    subst h
    have hnil : feed poly 0#w (List.zipWith xor (topBits crc 0) []) = 0#w := rfl
    rw [List.length_nil, hnil, BitVec.shiftLeft_zero, BitVec.xor_zero]
    rfl
  | cons x s ih =>
    subst h
    have hlen : (List.zipWith xor (topBits (crc <<< 1) s.length) s).length = s.length := by
      rw [List.length_zipWith, length_topBits, Nat.min_self]
    have hfirst : shiftIn poly 0#w (crc.msb ^^ x) = 0#w ^^^ feedback poly (crc.msb ^^ x) := by
      simp [shiftIn]
    rw [List.length_cons, topBits_succ, List.zipWith_cons_cons, feed_cons, feed_cons, hfirst,
      shiftIn, feed_split, feed_split, hlen, ih rfl, ← BitVec.shiftLeft_add, Nat.add_comm 1]
    exact BitVec.xor_assoc _ _ _

/-- **A check value behind its message** leaves 0. -/
theorem feed_topBits (crc : BitVec w) : feed poly crc (topBits crc w) = 0#w := by
  rw [feed_eq_shift (length_topBits crc w), zipWith_xor_self, feed_zero,
    BitVec.shiftLeft_eq_zero (Nat.le_refl w), BitVec.xor_zero]

/-! ## Changes -/

/-- With an odd polynomial the last bit tells what the first bit has done. -/
theorem getLsbD_shiftIn (hpoly : poly.getLsbD 0 = true) :
    (shiftIn poly a x).getLsbD 0 = (a.msb ^^ x) := by
  have hw : 0 < w := BitVec.lt_of_getLsbD hpoly
  rw [shiftIn, BitVec.getLsbD_xor, BitVec.getLsbD_shiftLeft]
  cases a.msb ^^ x <;> simp [feedback, hpoly]

theorem shiftIn_injective (hpoly : poly.getLsbD 0 = true) (h : shiftIn poly a x = shiftIn poly b x) :
    a = b := by
  have hlast := getLsbD_shiftIn (a := a) (x := x) hpoly
  rw [h, getLsbD_shiftIn hpoly] at hlast
  have hmsb : b.msb = a.msb := by simpa using hlast
  have hrest : a <<< 1 = b <<< 1 := by
    unfold shiftIn at h
    rw [hmsb] at h
    exact (BitVec.xor_left_inj _).mp h
  refine BitVec.eq_of_getMsbD_eq fun i hi => ?_
  cases i with
  | zero => rw [← BitVec.msb_eq_getMsbD_zero, ← BitVec.msb_eq_getMsbD_zero, hmsb]
  | succ i =>
    have hi' := congrArg (fun v : BitVec w => v.getMsbD i) hrest
    simpa [BitVec.getMsbD_shiftLeft] using hi'

theorem feed_injective (hpoly : poly.getLsbD 0 = true) (h : feed poly a bits = feed poly b bits) :
    a = b := by
  induction bits generalizing a b with
  | nil => exact h
  | cons x s ih => exact shiftIn_injective hpoly (ih h)

/-- The register that holds the bits at its top. -/
def holding (w : ℕ) (bits : List Bool) : BitVec w :=
  (BitVec.ofBoolListBE bits).setWidth w <<< (w - bits.length)

theorem getMsbD_holding (h : bits.length ≤ w) (i : ℕ) :
    (holding w bits).getMsbD i = bits.getD i false := by
  have hplace : w - bits.length + i + bits.length - w = i := by omega
  rw [holding, BitVec.getMsbD_shiftLeft, BitVec.getMsbD_setWidth, BitVec.getMsbD_ofBoolListBE,
    Nat.add_comm i, hplace, decide_eq_true (Nat.le_add_right _ _), Bool.true_and]

theorem topBits_holding (h : bits.length ≤ w) : topBits (holding w bits) bits.length = bits := by
  refine List.ext_getElem (length_topBits _ _) fun i _ hi => ?_
  simp only [topBits, List.getElem_map, List.getElem_range]
  rw [getMsbD_holding h, List.getD_eq_getElem?_getD, List.getElem?_eq_getElem hi, Option.getD_some]

theorem holding_shiftLeft (h : bits.length ≤ w) : holding w bits <<< bits.length = 0#w := by
  refine BitVec.eq_of_getMsbD_eq fun i _ => ?_
  rw [BitVec.getMsbD_shiftLeft, getMsbD_holding h, BitVec.getMsbD_zero,
    List.getD_eq_getElem?_getD, List.getElem?_eq_none (Nat.le_add_left _ _), Option.getD_none]

/-- **Bits that differ** within the width of the register leave it different. -/
theorem feed_ne (hpoly : poly.getLsbD 0 = true) (hlen : bits.length = bits'.length)
    (hw : bits.length ≤ w) (hne : bits ≠ bits') : feed poly crc bits ≠ feed poly crc bits' := by
  intro heq
  generalize hd : List.zipWith xor bits bits' = d
  have hdlen : d.length = bits.length := by
    rw [← hd, List.length_zipWith, ← hlen, Nat.min_self]
  have hdiff : feed poly 0#w d = 0#w := by
    rw [← hd, ← BitVec.xor_self (x := crc), feed_xor hlen, heq, BitVec.xor_self, BitVec.xor_self]
  -- the register that holds the difference is emptied by it, as the empty register is
  have hheld : feed poly (holding w d) d = feed poly 0#w d := by
    rw [feed_eq_shift rfl, topBits_holding (hdlen ▸ hw), holding_shiftLeft (hdlen ▸ hw),
      zipWith_xor_self, feed_zero, hdiff, BitVec.xor_self]
  have hzero : d = .replicate d.length false := by
    have htop : topBits (holding w d) d.length = d := topBits_holding (hdlen ▸ hw)
    rw [feed_injective hpoly hheld] at htop
    refine List.eq_replicate_iff.mpr ⟨rfl, fun x hx => ?_⟩
    rw [← htop] at hx
    obtain ⟨i, -, rfl⟩ := List.mem_map.mp hx
    exact BitVec.getMsbD_zero
  refine hne (List.ext_getElem hlen fun i hi hi' => ?_)
  have hxor : (bits[i] ^^ bits'[i]) = false := by
    have hmem : (bits[i] ^^ bits'[i]) ∈ d := by
      rw [← hd, ← List.getElem_zipWith (f := xor) (h := by rw [List.length_zipWith]; omega)]
      exact List.getElem_mem _
    rw [hzero] at hmem
    exact List.eq_of_mem_replicate hmem
  simpa using hxor

end Register

/-! ## Symbols -/

section Symbols

variable {w v : ℕ} (poly : BitVec w)

/-- The bits of a message of symbols. -/
def bitsOf (l : List (BitVec v)) : List Bool := l.flatMap fun b => topBits b v

/-- The entry of a symbol: what it leaves in the empty register. -/
def tableOf (i : BitVec v) : BitVec w := feed poly 0#w (topBits i v)

/-- A symbol is fed, with what a table says for it and the first bits of the register. -/
def tableStep (table : BitVec v → BitVec w) (crc : BitVec w) (b : BitVec v) : BitVec w :=
  (crc <<< v) ^^^ table ((crc >>> (w - v)).setWidth v ^^^ b)

variable {poly} {table : BitVec v → BitVec w} {crc : BitVec w}

/-- **A symbol at once** is its bits one by one. -/
theorem tableStep_tableOf (hv : v ≤ w) (b : BitVec v) :
    tableStep (tableOf poly) crc b = feed poly crc (topBits b v) := by
  have hbits : topBits ((crc >>> (w - v)).setWidth v ^^^ b) v =
      List.zipWith xor (topBits crc v) (topBits b v) := by
    refine List.ext_getElem (by simp) fun i hi _ => ?_
    rw [length_topBits] at hi
    simp only [topBits, List.getElem_map, List.getElem_range, List.getElem_zipWith,
      BitVec.getMsbD_xor]
    congr 1
    have hplace : i + w - v - (w - v) = i := by omega
    have hin : i + w - v < w := by omega
    have hbehind : ¬ i + w - v < w - v := by omega
    have hfirst : v - w ≤ i := by omega
    rw [BitVec.getMsbD_setWidth, BitVec.getMsbD_ushiftRight, hplace, decide_eq_true hin,
      decide_eq_false hbehind, decide_eq_true hfirst]
    rfl
  rw [feed_eq_shift (length_topBits b v), tableStep, tableOf, hbits]

/-- **The whole message** by the table. -/
theorem tableRun_eq (hv : v ≤ w) (htable : ∀ i, table i = tableOf poly i) (l : List (BitVec v)) :
    l.foldl (tableStep table) crc = feed poly crc (bitsOf l) := by
  obtain rfl : table = tableOf poly := funext htable
  induction l generalizing crc with
  | nil => rfl
  | cons b t ih =>
    rw [List.foldl_cons, tableStep_tableOf hv, ih, ← feed_append]
    rfl

/-- **Another symbol** in its place leaves the register different. -/
theorem feed_symbol_ne (hv : v ≤ w) (hpoly : poly.getLsbD 0 = true) (l l' : List (BitVec v))
    {b b' : BitVec v} (hne : b ≠ b') :
    feed poly crc (bitsOf (l ++ b :: l')) ≠ feed poly crc (bitsOf (l ++ b' :: l')) := by
  simp only [bitsOf, List.flatMap_append, List.flatMap_cons, feed_append]
  intro heq
  refine feed_ne hpoly ?_ ?_ (fun h => hne (topBits_injective h)) (feed_injective hpoly heq)
  · rw [length_topBits, length_topBits]
  · rwa [length_topBits]

end Symbols

end CyclicCode
