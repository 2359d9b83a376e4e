import Mathlib.Data.List.Basic
import Mathlib.Data.List.Induction
import Mathlib.Tactic.Common

/-!
# Buffers

Lists that are written over in place, and strings that end with a terminator.

* `overwrite`: from a place on; `overwrite_append`: behind what has been written.
* `copy`: the checked copy from one buffer to another; `copy_append`, `copy_replicate`.
* `writeAll`: messages, each written over the ones before; `getElem?_writeAll`.
* `cString`: up to the terminator; `cString_eq_some_iff`.
* `strAt`: the string at a place; `strAt_append`. `copyFront`: it is copied to the front of its own
  buffer, one after the other; `copyFront_append`.
* **`cString_overwrite_iff`**: a string written without its terminator is read back if and only if
  the buffer has had a terminator behind it.
-/

namespace Buffer

variable {α : Type*}

/-! ## Writing -/

/-- `src` is written over `buf` from the place `i` on. What does not fit makes the list longer. -/
def overwrite (buf : List α) (i : ℕ) (src : List α) : List α :=
  buf.take i ++ src ++ buf.drop (i + src.length)

/-- An access outside of a buffer. -/
inductive Access
  | read
  | write
deriving DecidableEq

/-- The copy of `n` elements of `src`, from the place `j` on, to the place `i` of `buf`. -/
def copy (buf : List α) (i : ℕ) (src : List α) (j n : ℕ) : Except Access (List α) :=
  if src.length < j + n then .error .read
  else if buf.length < i + n then .error .write
  else .ok (overwrite buf i ((src.drop j).take n))

section Writing

variable {buf src a b : List α} {i j n : ℕ}

theorem overwrite_zero (buf src : List α) : overwrite buf 0 src = src ++ buf.drop src.length := by
  rw [overwrite, List.take_zero, List.nil_append, Nat.zero_add]

theorem overwrite_append (a b src : List α) :
    overwrite (a ++ b) a.length src = a ++ src ++ b.drop src.length := by
  rw [overwrite, List.take_left, List.drop_length_add_append]

theorem getElem?_overwrite_zero {k : ℕ} :
    (overwrite buf 0 src)[k]? = if k < src.length then src[k]? else buf[k]? := by
  rw [overwrite_zero]
  split_ifs with hlt
  · rw [List.getElem?_append_left hlt]
  · rw [List.getElem?_append_right (Nat.not_lt.mp hlt), List.getElem?_drop]
    congr 1
    omega

theorem length_overwrite (h : i + src.length ≤ buf.length) :
    (overwrite buf i src).length = buf.length := by
  rw [overwrite, List.length_append, List.length_append, List.length_take, List.length_drop]
  omega

theorem copy_of_short (h : src.length < j + n) : copy buf i src j n = .error .read := if_pos h

/-- **A copy behind what has been written.** -/
theorem copy_append (hi : i = a.length) (hread : j + n ≤ src.length) (hwrite : n ≤ b.length) :
    copy (a ++ b) i src j n = .ok (a ++ (src.drop j).take n ++ b.drop n) := by
  have hfits : ¬ (a ++ b).length < i + n := by
    rw [List.length_append]
    omega
  have hlen : ((src.drop j).take n).length = n := by
    rw [List.length_take, List.length_drop]
    omega
  rw [copy, if_neg (Nat.not_lt.mpr hread), if_neg hfits, hi, overwrite_append, hlen]

/-- **A copy into what is still filled** with one value. -/
theorem copy_replicate {z : α} {k : ℕ} (hi : i = a.length) (hread : j + n ≤ src.length)
    (hwrite : n ≤ k) : copy (a ++ List.replicate k z) i src j n =
      .ok (a ++ (src.drop j).take n ++ List.replicate (k - n) z) := by
  have hfits : n ≤ (List.replicate k z).length := by
    rw [List.length_replicate]
    exact hwrite
  rw [copy_append hi hread hfits, List.drop_replicate]

end Writing

/-! ## Messages, one over the other -/

/-- Each of the messages has been written over what the ones before have left. -/
def writeAll (l : List (List α)) : List α := l.foldl (fun buf src => overwrite buf 0 src) []

section Messages

variable {l : List (List α)} {src : List α}

theorem writeAll_concat (l : List (List α)) (src : List α) :
    writeAll (l ++ [src]) = overwrite (writeAll l) 0 src := by
  rw [writeAll, List.foldl_append]
  rfl

/-- **What is left at a place** has been written by the last message that was long enough. -/
theorem getElem?_writeAll (l : List (List α)) (k : ℕ) :
    (writeAll l)[k]? = (l.filter fun src => k < src.length).getLast?.bind fun src => src[k]? := by
  induction l using List.reverseRecOn with
  | nil => rfl
  | append_singleton l src ih =>
    rw [writeAll_concat, getElem?_overwrite_zero, List.filter_append]
    by_cases hlt : k < src.length
    · rw [if_pos hlt, List.filter_cons_of_pos (by simpa using hlt), List.filter_nil,
        List.getLast?_concat]
      rfl
    · rw [if_neg hlt, List.filter_cons_of_neg (by simpa using hlt), List.filter_nil,
        List.append_nil, ih]

end Messages

/-! ## Strings -/

section Strings

variable [DecidableEq α] {z : α} {buf s rest : List α}

/-- The string at the beginning of a buffer. `none`: there is no terminator `z` in the buffer. -/
def cString (z : α) (buf : List α) : Option (List α) :=
  if z ∈ buf then some (buf.takeWhile (· ≠ z)) else none

theorem cString_append_cons (h : z ∉ s) : cString z (s ++ z :: rest) = some s := by
  have hmem : z ∈ s ++ z :: rest := List.mem_append_right _ List.mem_cons_self
  have hpos : ∀ a ∈ s, decide (a ≠ z) = true := by
    intro a ha
    rw [decide_eq_true_eq]
    rintro rfl
    exact h ha
  rw [cString, if_pos hmem, List.takeWhile_append_of_pos hpos,
    List.takeWhile_cons_of_neg (by simp), List.append_nil]

theorem cString_eq_some_iff : cString z buf = some s ↔ z ∉ s ∧ ∃ rest, buf = s ++ z :: rest := by
  constructor
  · intro h
    by_cases hmem : z ∈ buf
    · obtain ⟨t, rest, rfl, ht⟩ := List.eq_append_cons_of_mem hmem
      rw [cString_append_cons ht] at h
      obtain rfl := Option.some.inj h
      exact ⟨ht, rest, rfl⟩
    · rw [cString, if_neg hmem] at h
      cases h
  · rintro ⟨hz, rest, rfl⟩
    exact cString_append_cons hz

/-- **A string is written without its terminator.** It is read back if and only if the buffer has
had one behind it. -/
theorem cString_overwrite_iff (h : z ∉ s) :
    cString z (overwrite buf 0 s) = some s ↔ buf[s.length]? = some z := by
  rw [overwrite_zero, cString_eq_some_iff]
  constructor
  · rintro ⟨-, rest, hrest⟩
    have hdrop := List.append_cancel_left hrest
    rw [← List.head?_drop, hdrop, List.head?_cons]
  · intro hz
    obtain ⟨hlt, hget⟩ := List.getElem?_eq_some_iff.mp hz
    refine ⟨h, buf.drop (s.length + 1), ?_⟩
    rw [List.drop_eq_getElem_cons hlt, hget]

/-- The string at a place. Without a terminator it ends with the buffer. -/
def strAt (z : α) (buf : List α) (i : ℕ) : List α := (buf.drop i).takeWhile (· ≠ z)

theorem strAt_append (front : List α) (h : z ∉ s) :
    strAt z (front ++ (s ++ z :: rest)) front.length = s := by
  have hpos : ∀ a ∈ s, decide (a ≠ z) = true := by
    intro a ha
    rw [decide_eq_true_eq]
    rintro rfl
    exact h ha
  rw [strAt, List.drop_left, List.takeWhile_append_of_pos hpos,
    List.takeWhile_cons_of_neg (by simp), List.append_nil]

/-- The string at the place `j` is copied to the front, from its element `i` on, and the buffer is
filled with terminators behind it, up to `n` elements more. -/
def copyFront (z : α) (j : ℕ) : ℕ → ℕ → List α → List α
  | 0, _, buf => buf
  | n + 1, i, buf =>
    match buf[j + i]? with
    | none => overwrite buf i (.replicate (n + 1) z)
    | some b =>
      if b = z then overwrite buf i (.replicate (n + 1) z)
      else copyFront z j n (i + 1) (buf.set i b)

/-- **Nothing is written over before it has been read.** -/
theorem copyFront_append {front : List α} {n : ℕ} (written : List α) (hfront : front ≠ [])
    (h : z ∉ s) (hn : (front ++ (s ++ z :: rest)).length = n) :
    copyFront z front.length n written.length (written ++ (front ++ (s ++ z :: rest))) =
      written ++ (s ++ List.replicate (n - s.length) z) := by
  induction s generalizing front n written with
  | nil =>
    obtain ⟨n, rfl⟩ : ∃ k, n = k + 1 := ⟨front.length + rest.length, by simp at hn; omega⟩
    have hget : (written ++ (front ++ ([] ++ z :: rest)))[front.length + written.length]? =
        some z := by
      rw [List.getElem?_append_right (by omega), List.getElem?_append_right (by omega)]
      simp
    rw [copyFront, hget]
    simp only [if_true]
    rw [overwrite_append, List.length_replicate, ← hn, List.drop_length, List.append_nil]
    simp
  | cons b s ih =>
    obtain ⟨q, front, rfl⟩ := List.exists_cons_of_ne_nil hfront
    obtain ⟨n, rfl⟩ : ∃ k, n = k + 1 :=
      ⟨front.length + (s.length + 1 + (rest.length + 1)), by simp at hn; omega⟩
    have hget : (written ++ (q :: front ++ (b :: s ++ z :: rest)))[
        (q :: front).length + written.length]? = some b := by
      rw [List.getElem?_append_right (by omega), List.getElem?_append_right (by omega)]
      simp
    have hbz : b ≠ z := by
      rintro rfl
      exact h List.mem_cons_self
    have hset : (written ++ (q :: front ++ (b :: s ++ z :: rest))).set written.length b =
        (written ++ [b]) ++ ((front ++ [b]) ++ (s ++ z :: rest)) := by
      rw [List.set_append_right _ _ (Nat.le_refl _), Nat.sub_self]
      simp
    have hlen : (q :: front).length = (front ++ [b]).length := by simp
    have hwritten : written.length + 1 = (written ++ [b]).length := by simp
    have hn' : (front ++ [b] ++ (s ++ z :: rest)).length = n := by
      simp at hn ⊢
      omega
    rw [copyFront, hget]
    simp only [if_neg hbz]
    rw [hset, hlen, hwritten, ih (written ++ [b]) (by simp) (fun hz => h (List.mem_cons_of_mem b hz))
      hn', List.length_cons, Nat.add_sub_add_right, List.append_assoc]
    rfl

end Strings

end Buffer
