import AutoRec.Parser.Classes
import Mathlib.Data.Nat.Bitwise

/-!
# Numbers in a section

The numbers that are read from bytes, most significant first, and how they are written back.

* `toNat_uimsbf16`, `toNat_uimsbf12`: what is read.
* `packed`, `bytesOf`: fields of some width each, written one behind the other; `bytesOf_uimsbf16`.
-/

namespace AutoRec

theorem toNat_shiftLeft_or (b₀ b₁ : UInt8) :
    ((b₀.toUInt16 <<< 8) ||| b₁.toUInt16).toNat = b₀.toNat * 256 + b₁.toNat := by
  have h₀ := b₀.toNat_lt
  have h₁ := b₁.toNat_lt
  have hshift : b₀.toNat <<< ((8 : UInt16).toNat % 16) % 2 ^ 16 = 2 ^ 8 * b₀.toNat := by
    have h8 : (8 : UInt16).toNat % 16 = 8 := rfl
    rw [h8, Nat.shiftLeft_eq]
    omega
  have hor := Nat.two_pow_add_eq_or_of_lt (show b₁.toNat < 2 ^ 8 by omega) b₀.toNat
  rw [UInt16.toNat_or, UInt16.toNat_shiftLeft, UInt8.toNat_toUInt16, UInt8.toNat_toUInt16, hshift,
    ← hor]
  omega

theorem toNat_uimsbf16 (b₀ b₁ : UInt8) : (uimsbf16 b₀ b₁).toNat = b₀.toNat * 256 + b₁.toNat :=
  toNat_shiftLeft_or b₀ b₁

theorem toNat_uimsbf12 (b₀ b₁ : UInt8) :
    (uimsbf12 b₀ b₁).toNat = b₀.toNat % 16 * 256 + b₁.toNat := by
  have hand : (b₀ &&& 0x0f).toNat = b₀.toNat % 16 := Nat.and_two_pow_sub_one_eq_mod b₀.toNat 4
  rw [uimsbf12, toNat_shiftLeft_or, hand]

/-- Four bytes as a number. -/
def uimsbf32 (b₀ b₁ b₂ b₃ : UInt8) : UInt32 :=
  (b₀.toUInt32 <<< 24) ||| (b₁.toUInt32 <<< 16) ||| (b₂.toUInt32 <<< 8) ||| b₃.toUInt32

theorem toNat_uimsbf32 (b₀ b₁ b₂ b₃ : UInt8) : (uimsbf32 b₀ b₁ b₂ b₃).toNat =
    b₀.toNat * 256 ^ 3 + b₁.toNat * 256 ^ 2 + b₂.toNat * 256 + b₃.toNat := by
  have h₀ := b₀.toNat_lt
  have h₁ := b₁.toNat_lt
  have h₂ := b₂.toNat_lt
  have h₃ := b₃.toNat_lt
  have hs₀ : (b₀.toUInt32 <<< 24).toNat = 2 ^ 24 * b₀.toNat := by
    have hk : (24 : UInt32).toNat % 32 = 24 := rfl
    rw [UInt32.toNat_shiftLeft, UInt8.toNat_toUInt32, hk, Nat.shiftLeft_eq]
    omega
  have hs₁ : (b₁.toUInt32 <<< 16).toNat = b₁.toNat * 2 ^ 16 := by
    have hk : (16 : UInt32).toNat % 32 = 16 := rfl
    rw [UInt32.toNat_shiftLeft, UInt8.toNat_toUInt32, hk, Nat.shiftLeft_eq]
    omega
  have hs₂ : (b₂.toUInt32 <<< 8).toNat = b₂.toNat * 2 ^ 8 := by
    have hk : (8 : UInt32).toNat % 32 = 8 := rfl
    rw [UInt32.toNat_shiftLeft, UInt8.toNat_toUInt32, hk, Nat.shiftLeft_eq]
    omega
  -- each part lies below the bits of those in front of it
  have hor₁ := Nat.two_pow_add_eq_or_of_lt (show b₁.toNat * 2 ^ 16 < 2 ^ 24 by omega) b₀.toNat
  have hor₂ := Nat.two_pow_add_eq_or_of_lt (show b₂.toNat * 2 ^ 8 < 2 ^ 16 by omega)
    (b₀.toNat * 2 ^ 8 + b₁.toNat)
  have hor₃ := Nat.two_pow_add_eq_or_of_lt (show b₃.toNat < 2 ^ 8 by omega)
    (b₀.toNat * 2 ^ 16 + b₁.toNat * 2 ^ 8 + b₂.toNat)
  have hsum₁ : 2 ^ 24 * b₀.toNat + b₁.toNat * 2 ^ 16 = 2 ^ 16 * (b₀.toNat * 2 ^ 8 + b₁.toNat) := by
    omega
  have hsum₂ : 2 ^ 16 * (b₀.toNat * 2 ^ 8 + b₁.toNat) + b₂.toNat * 2 ^ 8 =
      2 ^ 8 * (b₀.toNat * 2 ^ 16 + b₁.toNat * 2 ^ 8 + b₂.toNat) := by
    omega
  rw [uimsbf32, UInt32.toNat_or, UInt32.toNat_or, UInt32.toNat_or, hs₀, hs₁, hs₂,
    UInt8.toNat_toUInt32, ← hor₁, hsum₁, ← hor₂, hsum₂, ← hor₃]
  omega

/-- Fields one behind the other, the most significant bit first: each a width and a value. -/
def packed (fields : List (ℕ × ℕ)) : ℕ :=
  fields.foldl (fun n x => n * 2 ^ x.1 + x.2 % 2 ^ x.1) 0

/-- The last bytes of a number, the most significant one first. -/
def bytesOf : ℕ → ℕ → List UInt8
  | 0, _ => []
  | k + 1, n => UInt8.ofNat (n / 256 ^ k) :: bytesOf k n

theorem bytesOf_one (n : ℕ) : bytesOf 1 n = [UInt8.ofNat n] := by
  rw [bytesOf, bytesOf, Nat.pow_zero, Nat.div_one]

theorem bytesOf_two (n : ℕ) : bytesOf 2 n = [UInt8.ofNat (n / 256), UInt8.ofNat n] := by
  rw [bytesOf, bytesOf_one, Nat.pow_one]

theorem bytesOf_two_eq_iff {n : ℕ} {b₀ b₁ : UInt8} (hn : n < 65536) :
    bytesOf 2 n = [b₀, b₁] ↔ n = b₀.toNat * 256 + b₁.toNat := by
  have h₀ := b₀.toNat_lt
  have h₁ := b₁.toNat_lt
  rw [bytesOf_two, List.cons.injEq, List.cons.injEq, ← UInt8.toNat_inj, ← UInt8.toNat_inj,
    UInt8.toNat_ofNat', UInt8.toNat_ofNat']
  simp only [and_true]
  omega

theorem bytesOf_uimsbf16 (b₀ b₁ : UInt8) : bytesOf 2 (uimsbf16 b₀ b₁).toNat = [b₀, b₁] := by
  rw [bytesOf_two_eq_iff (uimsbf16 b₀ b₁).toNat_lt, toNat_uimsbf16]

theorem bytesOf_four (n : ℕ) : bytesOf 4 n = [UInt8.ofNat (n / 256 ^ 3),
    UInt8.ofNat (n / 256 ^ 2), UInt8.ofNat (n / 256), UInt8.ofNat n] := by
  rw [bytesOf, bytesOf, bytesOf_two]

theorem bytesOf_four_eq_iff {n : ℕ} {b₀ b₁ b₂ b₃ : UInt8} (hn : n < 2 ^ 32) :
    bytesOf 4 n = [b₀, b₁, b₂, b₃] ↔
      n = b₀.toNat * 256 ^ 3 + b₁.toNat * 256 ^ 2 + b₂.toNat * 256 + b₃.toNat := by
  have h₀ := b₀.toNat_lt
  have h₁ := b₁.toNat_lt
  have h₂ := b₂.toNat_lt
  have h₃ := b₃.toNat_lt
  simp only [bytesOf_four, List.cons.injEq, ← UInt8.toNat_inj, UInt8.toNat_ofNat', and_true]
  omega

theorem forall_uint8 {P : UInt8 → Prop} (h : ∀ n < 256, P (UInt8.ofNat n)) (b : UInt8) : P b := by
  have := h b.toNat b.toNat_lt
  rwa [UInt8.ofNat_toNat] at this

end AutoRec
