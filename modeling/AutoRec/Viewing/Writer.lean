import AutoRec.Lib.PartialWrites

/-!
# The handler that passes a stream to the viewer

`on_start_viewing` gives the stream handler a function that writes to the pipe of the command it has
started (`viewing_manager.cpp`). A retry starts behind what the call before it has written, not
behind all that has been written.

* `writeLoop`, `writeHandler`: the function.
* `Passes`: each byte is passed once and in order; `Passes.bytes_eq`: what the pipe gets.
* `writeLoop_cases`, `writeLoop_ends_or`, `writeLoop_last`: one turn of the loop, and its last one.
* **`writeHandler_passes_iff`**: one call does it, or two.
-/

namespace AutoRec

open PartialWrites

/-- The loop of the handler over the results `r` of `write`: what it returns, and what has been
written. `off` is the result of the call before, where the next piece is taken from. -/
def writeLoop : ℕ → (ℕ → ℕ) → ℕ → ℕ → Option (ℤ × List Chunk)
  | 0, _, _, _ => none
  | fuel + 1, r, off, size =>
    if size = 0 then some (0, [])
    else if intOf (r 0) < 0 then some (-1, [⟨off, r 0⟩])
    else if intOf (r 0) = 0 then some (0, [⟨off, r 0⟩])
    else
      (writeLoop fuel (fun k => r (k + 1)) (intOf (r 0)).toNat (size - (intOf (r 0)).toNat)).map
        fun x => (x.1, ⟨off, r 0⟩ :: x.2)

/-- The handler. -/
def writeHandler (r : ℕ → ℕ) (fuel size : ℕ) : Option (ℤ × List Chunk) := writeLoop fuel r 0 size

/-- The handler comes to its end and has passed the bytes, each once and in order. -/
def Passes (r : ℕ → ℕ) (size : ℕ) : Prop :=
  ∃ fuel result pieces, writeHandler r fuel size = some (result, pieces) ∧ Covers 0 size pieces

/-- Each call that is asked for something takes something. -/
def Positive (r : ℕ → ℕ) (size : ℕ) : Prop := ∀ k, 0 < requested r size k → 0 < r k

/-- A call that has taken all `n` bytes is the last one: as an `int` it is all of them, or it is
taken for a failure or for nothing. -/
def EndsAt (n : ℕ) : Prop := intOf n ≤ 0 ∨ intOf n = n

theorem Positive.tail {r : ℕ → ℕ} {size : ℕ} (h : Positive r size) :
    Positive (fun j => r (j + 1)) (size - r 0 % 2 ^ 32) := fun k => h (k + 1)

section Loop

variable {fuel size i n : ℕ} {r : ℕ → ℕ} {result : ℤ} {l : List Chunk}

theorem writeLoop_zero {off : ℕ} (h : writeLoop fuel r off 0 = some (result, l)) : l = [] := by
  cases fuel with
  | zero => cases h
  | succ fuel =>
    cases h
    rfl

/-- **One turn of the loop**, if the bytes from `i` on are passed from then on. -/
theorem writeLoop_cases {off : ℕ} (h : writeLoop fuel r off size = some (result, l))
    (hsize : size ≠ 0) (hpos : 0 < r 0) (hcovers : Covers i n l) : off = i ∧ r 0 ≤ n ∧
      (intOf (r 0) ≤ 0 ∧ r 0 = n ∨
        0 < intOf (r 0) ∧ ∃ fuel' result' l',
          writeLoop fuel' (fun k => r (k + 1)) (r 0 % 2 ^ 32) (size - r 0 % 2 ^ 32) =
            some (result', l') ∧ Covers (i + r 0) (n - r 0) l') := by
  have hcount : (Chunk.mk off (r 0)).count ≠ 0 := Nat.ne_of_gt hpos
  cases fuel with
  | zero => cases h
  | succ fuel =>
    rw [writeLoop, if_neg hsize] at h
    split_ifs at h with hneg hzero
    · cases h
      obtain ⟨hstart, hle, hrest⟩ := (covers_cons_iff hcount).mp hcovers
      have hend := covers_nil_iff.mp hrest
      dsimp only at hle hend
      exact ⟨hstart, hle, .inl ⟨Int.le_of_lt hneg, by omega⟩⟩
    · cases h
      obtain ⟨hstart, hle, hrest⟩ := (covers_cons_iff hcount).mp hcovers
      have hend := covers_nil_iff.mp hrest
      dsimp only at hle hend
      exact ⟨hstart, hle, .inl ⟨Int.le_of_eq hzero, by omega⟩⟩
    · obtain ⟨⟨result', l'⟩, hloop, hout⟩ := Option.map_eq_some_iff.mp h
      cases hout
      obtain ⟨hstart, hle, hrest⟩ := (covers_cons_iff hcount).mp hcovers
      rw [toNat_intOf hneg] at hloop
      exact ⟨hstart, hle, .inr ⟨by omega, fuel, result', l', hloop, hrest⟩⟩

/-- **The last turn** takes all that is left. -/
theorem writeLoop_last (r : ℕ → ℕ) (off : ℕ) (hr : r 0 = size) (hend : EndsAt size) :
    ∃ result l, writeLoop 2 r off size = some (result, l) ∧ Covers off size l := by
  by_cases hsize : size = 0
  · exact ⟨0, [], by rw [writeLoop, if_pos hsize], covers_nil_iff.mpr hsize⟩
  · have hcovers : Covers off size [⟨off, r 0⟩] := by
      rw [covers_cons_iff (by rw [hr]; exact hsize)]
      exact ⟨rfl, Nat.le_of_eq hr, covers_nil_iff.mpr (by rw [hr, Nat.sub_self])⟩
    rw [writeLoop, if_neg hsize]
    by_cases hneg : intOf (r 0) < 0
    · exact ⟨-1, _, if_pos hneg, hcovers⟩
    by_cases hzero : intOf (r 0) = 0
    · exact ⟨0, _, by rw [if_neg hneg, if_pos hzero], hcovers⟩
    have hint : intOf (r 0) = size := by
      rw [hr] at hneg hzero ⊢
      exact hend.resolve_left (by omega)
    refine ⟨0, [⟨off, r 0⟩], ?_, hcovers⟩
    rw [if_neg hneg, if_neg hzero, hint, Int.toNat_natCast, Nat.sub_self]
    rfl

theorem intOf_pos (h : 0 < intOf n) : n % 2 ^ 32 < 2 ^ 31 ∧ intOf n = (n % 2 ^ 32 : ℕ) := by
  have hneg : ¬ intOf n < 0 := by omega
  have htoNat := toNat_intOf hneg
  rw [intOf_neg_iff] at hneg
  exact ⟨by omega, by omega⟩

/-- **A turn** is the last one, or something is left to be written behind it. -/
theorem writeLoop_ends_or {off : ℕ} (h : writeLoop fuel r off size = some (result, l))
    (hsize : size ≠ 0) (hpos : 0 < r 0) (hcovers : Covers i n l) (hn : n ≤ size) :
    off = i ∧ r 0 ≤ n ∧ (r 0 = n ∧ EndsAt n ∨
      r 0 % 2 ^ 32 < 2 ^ 31 ∧ size - r 0 % 2 ^ 32 ≠ 0 ∧ ∃ fuel' result' l',
        writeLoop fuel' (fun k => r (k + 1)) (r 0 % 2 ^ 32) (size - r 0 % 2 ^ 32) =
          some (result', l') ∧ Covers (i + r 0) (n - r 0) l') := by
  obtain ⟨hoff, hle, hcase⟩ := writeLoop_cases h hsize hpos hcovers
  refine ⟨hoff, hle, ?_⟩
  rcases hcase with ⟨hint, hall⟩ | ⟨hint, fuel', result', l', hrun, hcovers'⟩
  · exact .inl ⟨hall, .inl (hall ▸ hint)⟩
  obtain ⟨hlt, hint⟩ := intOf_pos hint
  by_cases hrest : size - r 0 % 2 ^ 32 = 0
  · rw [hrest] at hrun
    rw [writeLoop_zero hrun, covers_nil_iff] at hcovers'
    have hmod := Nat.mod_le (r 0) (2 ^ 32)
    have hall : r 0 = n := by omega
    exact .inl ⟨hall, .inr (by rw [← hall, hint]; omega)⟩
  · exact .inr ⟨hlt, hrest, fuel', result', l', hrun, hcovers'⟩

end Loop

variable {r : ℕ → ℕ}

theorem Passes.bytes_eq {p : List UInt8} (h : Passes r p.length) :
    ∃ fuel result pieces, writeHandler r fuel p.length = some (result, pieces) ∧
      bytes p pieces = p := by
  obtain ⟨fuel, result, pieces, hrun, hcovers⟩ := h
  exact ⟨fuel, result, pieces, hrun, hcovers.bytes_self⟩

/-- **When the handler passes the bytes**, each once and in order: there are none, one call takes
all of them, or the second call takes what the first one has left. -/
theorem writeHandler_passes_iff {size : ℕ} (hr : Possible r size) (hpos : Positive r size) :
    Passes r size ↔ size = 0 ∨ r 0 = size ∧ EndsAt size ∨
      r 0 < 2 ^ 31 ∧ r 0 + r 1 = size ∧ EndsAt (r 1) := by
  constructor
  · rintro ⟨fuel, result, l, hrun, hcovers⟩
    by_cases hsize : size = 0
    · exact .inl hsize
    have hpos₀ := hpos 0 (Nat.pos_of_ne_zero hsize)
    obtain ⟨-, hle, hlast | ⟨hlt, hsize₁, fuel₁, result₁, l₁, hrun₁, hcovers₁⟩⟩ :=
      writeLoop_ends_or hrun hsize hpos₀ hcovers (Nat.le_refl size)
    · exact .inr (.inl hlast)
    -- the second call starts where the first result as an `int` says
    have hmod := Nat.mod_le (r 0) (2 ^ 32)
    obtain ⟨hoff, hle₁, hcase⟩ := writeLoop_ends_or hrun₁ hsize₁
      (hpos.tail 0 (Nat.pos_of_ne_zero hsize₁)) hcovers₁ (by omega)
    simp only [Nat.zero_add] at hoff hle₁ hcase
    refine .inr (.inr ⟨by omega, ?_⟩)
    rcases hcase with ⟨hall, hend⟩ | ⟨hlt₁, hsize₂, fuel₂, result₂, l₂, hrun₂, hcovers₂⟩
    · exact ⟨by omega, hall ▸ hend⟩
    · -- and a third one starts in front of what has been passed
      obtain ⟨hoff₂, -, -⟩ := writeLoop_cases hrun₂ hsize₂
        (hpos.tail.tail 0 (Nat.pos_of_ne_zero hsize₂)) hcovers₂
      have hmod₁ := Nat.mod_le (r 1) (2 ^ 32)
      omega
  · rintro (rfl | ⟨hall, hend⟩ | ⟨hlt, hall, hend⟩)
    · exact ⟨1, 0, [], rfl, rfl⟩
    · obtain ⟨result, l, hrun, hcovers⟩ := writeLoop_last r 0 hall hend
      exact ⟨2, result, l, hrun, hcovers⟩
    · by_cases hsize : size = 0
      · exact ⟨1, 0, [], by rw [hsize]; rfl, covers_nil_iff.mpr hsize⟩
      have hpos₀ := hpos 0 (Nat.pos_of_ne_zero hsize)
      have hint : intOf (r 0) = r 0 := by
        rw [intOf, if_pos (by omega), Nat.mod_eq_of_lt (by omega)]
      have hrest : size - r 0 = r 1 := by omega
      obtain ⟨result, l, hrun, hcovers⟩ :=
        writeLoop_last (fun k => r (k + 1)) (r 0) (show r (0 + 1) = r 1 from rfl) hend
      refine ⟨3, result, ⟨0, r 0⟩ :: l, ?_, ?_⟩
      · rw [writeHandler, writeLoop, if_neg hsize, hint, if_neg (by omega), if_neg (by omega),
          Int.toNat_natCast, hrest, hrun, Option.map_some]
      · rw [covers_cons_iff (Nat.ne_of_gt hpos₀)]
        refine ⟨rfl, by dsimp only; omega, ?_⟩
        rw [Nat.zero_add, hrest]
        exact hcovers

/-- Three bytes that `write` takes one by one: the third call starts at the second byte again. -/
theorem writeHandler_repeats :
    Possible (fun k => if k < 3 then 1 else 0) 3 ∧ Positive (fun k => if k < 3 then 1 else 0) 3 ∧
      ¬ Passes (fun k => if k < 3 then 1 else 0) 3 := by
  have hreq : ∀ k, requested (fun k => if k < 3 then 1 else 0) 3 (k + 3) = 0 :=
    fun k => Nat.le_zero.mp (requested_le (fun _ => 0) 0 k)
  refine ⟨fun k => ?_, fun k hk => ?_, ?_⟩
  · match k with
    | 0 | 1 | 2 => decide
    | k + 3 => exact Nat.zero_le _
  · match k with
    | 0 | 1 | 2 => decide
    | k + 3 => exact absurd hk (by rw [hreq]; exact Nat.lt_irrefl 0)
  · rintro ⟨fuel, result, pieces, h, hcovers⟩
    match fuel with
    | 0 | 1 | 2 | 3 => cases h
    | fuel + 4 =>
      have hout : writeHandler (fun k => if k < 3 then 1 else 0) (fuel + 4) 3 =
        some (0, [⟨0, 1⟩, ⟨1, 1⟩, ⟨1, 1⟩]) := rfl
      cases hout.symm.trans h
      revert hcovers
      decide

/-- Three bytes of which the first call takes one and the second two. -/
theorem writeHandler_passes_second : Passes (fun k => if k < 2 then k + 1 else 0) 3 := by
  have hreq : ∀ k, requested (fun k => if k < 2 then k + 1 else 0) 3 (k + 2) = 0 :=
    fun k => Nat.le_zero.mp (requested_le (fun _ => 0) 0 k)
  have hr : Possible (fun k => if k < 2 then k + 1 else 0) 3 := fun k => by
    match k with
    | 0 | 1 => decide
    | k + 2 => exact Nat.zero_le _
  have hpos : Positive (fun k => if k < 2 then k + 1 else 0) 3 := fun k hk => by
    match k with
    | 0 | 1 => decide
    | k + 2 => exact absurd hk (by rw [hreq]; exact Nat.lt_irrefl 0)
  exact (writeHandler_passes_iff hr hpos).mpr (.inr (.inr ⟨by decide, rfl, .inr rfl⟩))

end AutoRec
