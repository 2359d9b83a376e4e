import AutoRec.Lib.PartialWrites

/-!
# `file_buffered_writer`

The handler that writes a recording to its file (`common/file_buffered_writer.h`). Its loop asks
`fwrite` for what is left, but always from the start of the buffer, and does not stop when nothing
is written.

* `FileBufferedWriter`, `fwriteLoop`, `process`: the writer and its handler.
* `Writes`: the bytes are written once and in order, or the handler fails; `process_file_eq`: what
  is in the file then.
* `FwriteRun`: the runs of the loop that come to an end.
* `fwriteLoop_neg`, `fwriteLoop_whole`, `FwriteRun.whole`: how the loop ends.
* **`process_writes_iff`**: when it does so.
-/

namespace AutoRec

open PartialWrites

/-- The writer, with what has been written to its file. -/
structure FileBufferedWriter where
  mpFile : Option (List UInt8)

/-- The loop of the handler over the results `r` of `fwrite`: what it returns, and what has been
written. All pieces start where the buffer starts: the pointer stays. -/
def fwriteLoop : ℕ → (ℕ → ℕ) → ℕ → Option (ℤ × List Chunk)
  | 0, _, _ => none
  | fuel + 1, r, len =>
    if len = 0 then some (0, [])
    else if intOf (r 0) < 0 then some (intOf (r 0), [⟨0, r 0⟩])
    else
      (fwriteLoop fuel (fun k => r (k + 1)) (len - (intOf (r 0)).toNat)).map fun x =>
        (x.1, ⟨0, r 0⟩ :: x.2)

namespace FileBufferedWriter

/-- The handler: what it returns, what it has written, and the writer behind it. -/
def process (w : FileBufferedWriter) (r : ℕ → ℕ) (fuel : ℕ) (p : List UInt8) :
    Option (ℤ × List Chunk × FileBufferedWriter) :=
  match w.mpFile with
  | none => some (-1, [], w)
  | some file =>
    (fwriteLoop fuel r p.length).map fun x => (x.1, x.2, ⟨some (file ++ bytes p x.2)⟩)

/-- The handler comes to its end, and it has written the bytes once and in order and returns 0, or
it returns a negative value. -/
def Writes (w : FileBufferedWriter) (r : ℕ → ℕ) (p : List UInt8) : Prop :=
  ∃ fuel result pieces w', w.process r fuel p = some (result, pieces, w') ∧
    (result = 0 ∧ Covers 0 p.length pieces ∨ result < 0)

end FileBufferedWriter

/-! ## The loop -/

section Loop

variable {fuel k len : ℕ} {r : ℕ → ℕ} {result : ℤ} {l : List Chunk}

/-- The runs of the loop that come to an end. -/
inductive FwriteRun : (ℕ → ℕ) → ℕ → ℤ → List Chunk → Prop
  | done (r : ℕ → ℕ) : FwriteRun r 0 0 []
  | fails {r : ℕ → ℕ} {len : ℕ} : len ≠ 0 → intOf (r 0) < 0 →
      FwriteRun r len (intOf (r 0)) [⟨0, r 0⟩]
  | goesOn {r : ℕ → ℕ} {len : ℕ} {result : ℤ} {l : List Chunk} : len ≠ 0 → ¬ intOf (r 0) < 0 →
      FwriteRun (fun k => r (k + 1)) (len - (intOf (r 0)).toNat) result l →
      FwriteRun r len result (⟨0, r 0⟩ :: l)

theorem fwriteRun_of_loop (h : fwriteLoop fuel r len = some (result, l)) :
    FwriteRun r len result l := by
  induction fuel generalizing r len l with
  | zero => cases h
  | succ fuel ih =>
    rw [fwriteLoop] at h
    split_ifs at h with hlen hneg
    · cases h
      rw [hlen]
      exact .done r
    · cases h
      exact .fails hlen hneg
    · obtain ⟨⟨result', l'⟩, hrest, hout⟩ := Option.map_eq_some_iff.mp h
      cases hout
      exact .goesOn hlen hneg (ih hrest)

theorem FwriteRun.start_eq (h : FwriteRun r len result l) : ∀ x ∈ l, x.start = 0 := by
  induction h with
  | done r => exact fun x hx => absurd hx List.not_mem_nil
  | fails hlen hneg =>
    intro x hx
    rw [List.mem_singleton.mp hx]
  | goesOn hlen hneg hrest ih => exact List.forall_mem_cons.mpr ⟨rfl, ih⟩

theorem fwriteLoop_neg (hr : Possible r len) (hk : 2 ^ 31 ≤ r k % 2 ^ 32) :
    ∃ result l, fwriteLoop (k + 1) r len = some (result, l) ∧ result < 0 := by
  induction k generalizing r len with
  | zero =>
    have hle := hr.le 0
    have hlen : len ≠ 0 := by
      have := Nat.mod_le (r 0) (2 ^ 32)
      omega
    have hneg := (intOf_neg_iff (r 0)).mpr hk
    exact ⟨intOf (r 0), [⟨0, r 0⟩], by rw [fwriteLoop, if_neg hlen, if_pos hneg], hneg⟩
  | succ k ih =>
    have hle := hr.le (k + 1)
    have hlen : len ≠ 0 := by
      have := Nat.mod_le (r (k + 1)) (2 ^ 32)
      omega
    rw [fwriteLoop, if_neg hlen]
    by_cases hneg : intOf (r 0) < 0
    · exact ⟨intOf (r 0), [⟨0, r 0⟩], if_pos hneg, hneg⟩
    · rw [if_neg hneg, toNat_intOf hneg]
      obtain ⟨result, l, hloop, hresult⟩ := ih hr.tail hk
      exact ⟨result, ⟨0, r 0⟩ :: l, by rw [hloop, Option.map_some], hresult⟩

/-- Everything is written by one call, and nothing by those before it. -/
theorem fwriteLoop_whole (hlen : len < 2 ^ 31) (hk : r k = len) (hzero : ∀ j < k, r j = 0) :
    ∃ l, fwriteLoop (k + 2) r len = some (0, l) ∧ Covers 0 len l := by
  by_cases hempty : len = 0
  · exact ⟨[], by rw [fwriteLoop, if_pos hempty], covers_nil_iff.mpr hempty⟩
  induction k generalizing r with
  | zero =>
    have hnonneg : ¬ intOf (r 0) < 0 := by
      rw [intOf_neg_iff]
      omega
    have hrest : len - (intOf (r 0)).toNat = 0 := by
      rw [toNat_intOf hnonneg]
      omega
    refine ⟨[⟨0, r 0⟩], ?_, ?_⟩
    · rw [fwriteLoop, if_neg hempty, if_neg hnonneg, hrest]
      rfl
    · rw [covers_cons_iff (by rw [hk]; exact hempty)]
      exact ⟨rfl, Nat.le_of_eq hk, covers_nil_iff.mpr (by rw [hk, Nat.sub_self])⟩
  | succ k ih =>
    have hfirst : r 0 = 0 := hzero 0 (Nat.succ_pos k)
    obtain ⟨l, hloop, hcovers⟩ := ih hk fun j hj => hzero (j + 1) (by omega)
    refine ⟨⟨0, r 0⟩ :: l, ?_, (covers_cons_zero hfirst).mpr hcovers⟩
    have hint : intOf (r 0) = 0 := by rw [hfirst]; rfl
    rw [fwriteLoop, if_neg hempty, hint, if_neg (Int.lt_irrefl 0), Int.toNat_zero, Nat.sub_zero,
      hloop, Option.map_some]

theorem FwriteRun.eq_zero {i : ℕ} (h : FwriteRun r len result l) (hresult : ¬ result < 0)
    (hcovers : Covers i 0 l) : len = 0 := by
  induction h with
  | done r => rfl
  | fails hlen hneg => exact absurd hneg hresult
  | @goesOn r len result l hlen hneg hrest ih =>
    by_cases hfirst : r 0 = 0
    · have hrun := ih hresult ((covers_cons_zero (x := ⟨0, r 0⟩) hfirst).mp hcovers)
      rw [hfirst] at hrun
      exact hrun
    · have hle := ((covers_cons_iff (x := ⟨0, r 0⟩) hfirst).mp hcovers).2.1
      dsimp only at hle
      omega

/-- When nothing is ever written, the loop has no end. -/
theorem fwriteLoop_stuck (hlen : len ≠ 0) : fwriteLoop fuel (fun _ => 0) len = none := by
  induction fuel with
  | zero => rfl
  | succ fuel ih =>
    have hint : intOf 0 = 0 := rfl
    rw [fwriteLoop, if_neg hlen, hint, if_neg (Int.lt_irrefl 0), Int.toNat_zero, Nat.sub_zero, ih,
      Option.map_none]

theorem FwriteRun.exists_neg (h : FwriteRun r len result l) (hresult : result < 0) :
    ∃ k, 2 ^ 31 ≤ r k % 2 ^ 32 := by
  induction h with
  | done r => exact absurd hresult (Int.lt_irrefl 0)
  | fails hlen hneg => exact ⟨0, (intOf_neg_iff _).mp hneg⟩
  | goesOn hlen hneg hrest ih =>
    obtain ⟨k, hk⟩ := ih hresult
    exact ⟨k + 1, hk⟩

/-- **If each byte is written once and in order**, one call has written all of them. -/
theorem FwriteRun.whole (h : FwriteRun r len result l) (hresult : ¬ result < 0)
    (hcovers : Covers 0 len l) (hlen : len ≠ 0) :
    len < 2 ^ 31 ∧ ∃ k, r k = len ∧ ∀ j < k, r j = 0 := by
  induction h with
  | done r => exact absurd rfl hlen
  | fails _ hneg => exact absurd hneg hresult
  | @goesOn r len result l _ hneg hrest ih =>
    by_cases hfirst : r 0 = 0
    · have hint : len - (intOf (r 0)).toNat = len := by rw [hfirst]; rfl
      rw [hint] at ih
      obtain ⟨hlt, k, hk, hzero⟩ := ih hresult ((covers_cons_zero hfirst).mp hcovers) hlen
      refine ⟨hlt, k + 1, hk, fun j hj => ?_⟩
      cases j with
      | zero => exact hfirst
      | succ j => exact hzero j (by omega)
    · obtain ⟨-, hle, hcovers'⟩ := (covers_cons_iff hfirst).mp hcovers
      -- what follows starts at 0 again, so that it has to be empty
      have hplace : 0 + r 0 ≠ 0 := by omega
      have hnone := hcovers'.eq_zero_of_start hrest.start_eq hplace
      rw [hnone] at hcovers'
      have hend := hrest.eq_zero hresult hcovers'
      rw [toNat_intOf hneg] at hend
      rw [intOf_neg_iff] at hneg
      dsimp only at hle hnone
      exact ⟨by omega, 0, by omega, fun j hj => absurd hj (Nat.not_lt_zero j)⟩

end Loop

namespace FileBufferedWriter

variable {w w' : FileBufferedWriter} {r : ℕ → ℕ} {p : List UInt8}

/-- What is in the file, when the bytes have been written once and in order. -/
theorem process_file_eq {fuel : ℕ} {result : ℤ} {pieces : List Chunk} {file : List UInt8}
    (hw : w.mpFile = some file) (h : w.process r fuel p = some (result, pieces, w'))
    (hcovers : Covers 0 p.length pieces) : w'.mpFile = some (file ++ p) := by
  rw [process, hw] at h
  obtain ⟨⟨result', l⟩, -, hout⟩ := Option.map_eq_some_iff.mp h
  cases hout
  exact congrArg (fun x => some (file ++ x)) hcovers.bytes_self

/-- **When the handler writes the bytes or fails**: the file is not open, there is nothing to write,
one call writes everything and those before it nothing, or a result is negative as an `int`. -/
theorem process_writes_iff (hr : Possible r p.length) : w.Writes r p ↔
    w.mpFile = none ∨ p = [] ∨ (∃ k, 2 ^ 31 ≤ r k % 2 ^ 32) ∨
      p.length < 2 ^ 31 ∧ ∃ k, r k = p.length ∧ ∀ j < k, r j = 0 := by
  constructor
  · rintro ⟨fuel, result, pieces, w', h, hend⟩
    rw [process] at h
    split at h
    · exact .inl ‹_›
    · obtain ⟨⟨result', l⟩, hloop, hout⟩ := Option.map_eq_some_iff.mp h
      cases hout
      have hrun := fwriteRun_of_loop hloop
      rcases hend with ⟨rfl, hcovers⟩ | hneg
      · by_cases hempty : p.length = 0
        · exact .inr (.inl (List.length_eq_zero_iff.mp hempty))
        · exact .inr (.inr (.inr (hrun.whole (Int.lt_irrefl 0) hcovers hempty)))
      · exact .inr (.inr (.inl (hrun.exists_neg hneg)))
  · intro h
    unfold Writes process
    cases hw : w.mpFile with
    | none => exact ⟨0, -1, [], w, rfl, .inr (by decide)⟩
    | some file =>
      rcases h with h | rfl | ⟨k, hk⟩ | ⟨hlen, k, hk, hzero⟩
      · cases hw.symm.trans h
      · exact ⟨1, 0, [], _, rfl, .inl ⟨rfl, rfl⟩⟩
      · obtain ⟨result, l, hloop, hneg⟩ := fwriteLoop_neg hr hk
        exact ⟨k + 1, result, l, _, by dsimp only; rw [hloop, Option.map_some], .inr hneg⟩
      · obtain ⟨l, hloop, hcovers⟩ := fwriteLoop_whole hlen hk hzero
        exact ⟨k + 2, 0, l, _, by dsimp only; rw [hloop, Option.map_some], .inl ⟨rfl, hcovers⟩⟩

/-- Two bytes that `fwrite` takes one by one: the first is written twice. When nothing can be
written, the handler never comes to its end. -/
theorem process_repeats :
    (Possible (fun k => if k < 2 then 1 else 0) 2 ∧
      ¬ Writes ⟨some []⟩ (fun k => if k < 2 then 1 else 0) [1, 2]) ∧
    (Possible (fun _ => 0) 2 ∧ ∀ fuel, process ⟨some []⟩ (fun _ => 0) fuel [1, 2] = none) := by
  refine ⟨⟨fun k => ?_, ?_⟩, fun k => Nat.zero_le _, fun fuel => ?_⟩
  · match k with
    | 0 => decide
    | 1 => decide
    | k + 2 => exact Nat.zero_le _
  · rintro ⟨fuel, result, pieces, w', h, hend⟩
    match fuel with
    | 0 | 1 | 2 => cases h
    | fuel + 3 =>
      have hout : process ⟨some []⟩ (fun k => if k < 2 then 1 else 0) (fuel + 3) [1, 2] =
        some (0, [⟨0, 1⟩, ⟨0, 1⟩], ⟨some [1, 1]⟩) := rfl
      cases hout.symm.trans h
      revert hend
      decide
  · show (fwriteLoop fuel (fun _ => 0) 2).map _ = none
    rw [fwriteLoop_stuck (by decide), Option.map_none]

/-- Two bytes that are written at once, at the second try. -/
theorem process_writes_second :
    Writes ⟨some []⟩ (fun k => if k = 1 then 2 else 0) [1, 2] := by
  have hr : Possible (fun k => if k = 1 then 2 else 0) 2 := fun k => by
    match k with
    | 0 => decide
    | 1 => decide
    | k + 2 => exact Nat.zero_le _
  exact (process_writes_iff hr).mpr (.inr (.inr (.inr ⟨by decide, 1, rfl, by decide⟩)))

end FileBufferedWriter

end AutoRec
