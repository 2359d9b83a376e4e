import AutoRec.Lib.Buffer
import AutoRec.Lib.Delimited
import Mathlib.Data.List.DropRight

/-!
# Strings in a buffer

The functions of `common/utils.cpp` that take a line apart in place, and those of the standard library
that they use. A string is a place in a buffer.

* `strlen`, `strstr`, and the copy of a string to the front of its buffer: `strncpy`, of which
  nothing is known if the two overlap, and `strncpyForward`, one byte after the other.
* `deleteHeadSp`, `deleteTailSp`; `delete_sp`: together they leave the trimmed string.
* `strtokRImpl`, with `Strtok.cut`; `strtokRImpl_line`, `strtokRImpl_rest`, `strtokRImpl_nil`: what
  it does where a line, a rest, or nothing is left.
-/

namespace AutoRec

namespace Strings

open Buffer Delimited

/-! ## The standard library -/

/-- `strlen`. -/
def strlen (buf : List UInt8) (p : ℕ) : ℕ := (strAt 0 buf p).length

/-- `strstr`, with the place that is found. -/
def strstr (buf : List UInt8) (p : ℕ) (delim : List UInt8) : Option ℕ :=
  (firstAt delim (strAt 0 buf p)).map (p + ·)

/-- `strncpy` of the string at `p` to the front of its buffer, for `n` bytes. All of these are
written, and the string must not be one of them. -/
def strncpy (n : ℕ) (buf : List UInt8) (p : ℕ) : Option (List UInt8) :=
  if p < n then none else some (copyFront 0 p n 0 buf)

/-- The same where it is known that the bytes are copied from the first one on. -/
def strncpyForward (n : ℕ) (buf : List UInt8) (p : ℕ) : Option (List UInt8) :=
  some (copyFront 0 p n 0 buf)

/-! ## Spaces -/

/-- The turns of the loop of `delete_head_sp`. -/
def deleteHeadLoop : ℕ → List UInt8 → ℕ → List UInt8
  | 0, buf, _ => buf
  | n + 1, buf, p =>
    if buf[p]? = some 0x20 then deleteHeadLoop n (overwrite buf p ((strAt 0 buf p).tail ++ [0])) p
    else buf

/-- `delete_head_sp`. -/
def deleteHeadSp (buf : List UInt8) (p : ℕ) : List UInt8 := deleteHeadLoop (strlen buf p) buf p

/-- The turns of the loop of `delete_tail_sp`. -/
def deleteTailLoop : ℕ → List UInt8 → ℕ → List UInt8
  | 0, buf, _ => buf
  | n + 1, buf, p =>
    if buf[p + n]? = some 0x20 then deleteTailLoop n (buf.set (p + n) 0) p else buf

/-- `delete_tail_sp`. -/
def deleteTailSp (buf : List UInt8) (p : ℕ) : List UInt8 := deleteTailLoop (strlen buf p) buf p

/-- A text without the spaces at its ends. -/
def trim (s : List UInt8) : List UInt8 := (s.dropWhile (· = 0x20)).rdropWhile (· = 0x20)

section Spaces

variable {s : List UInt8}

theorem deleteHeadLoop_append (h : 0 ∉ s) (front behind : List UInt8) :
    ∃ k, (s.dropWhile (· = 0x20)).length + k = s.length ∧
      deleteHeadLoop s.length (front ++ (s ++ 0 :: behind)) front.length =
        front ++ (s.dropWhile (· = 0x20) ++ (.replicate k 0 ++ 0 :: behind)) := by
  induction s generalizing behind with
  | nil => exact ⟨0, rfl, rfl⟩
  | cons b s ih =>
    have hget : (front ++ (b :: s ++ 0 :: behind))[front.length]? = some b := by
      rw [List.getElem?_append_right (Nat.le_refl _), Nat.sub_self]
      rfl
    have hs : 0 ∉ s := fun hz => h (List.mem_cons_of_mem b hz)
    rw [List.length_cons, deleteHeadLoop, hget, strAt_append front h]
    by_cases hb : b = 0x20
    · -- the rest of the string is moved to the place of the space
      have hmove : overwrite (front ++ (b :: s ++ 0 :: behind)) front.length
          ((b :: s).tail ++ [0]) = front ++ (s ++ 0 :: 0 :: behind) := by
        rw [overwrite_append]
        simp
      obtain ⟨k, hk, hloop⟩ := ih hs (0 :: behind)
      rw [if_pos (congrArg some hb), hmove, hloop, List.dropWhile_cons_of_pos (by simpa using hb)]
      refine ⟨k + 1, by omega, ?_⟩
      rw [List.replicate_succ', List.append_assoc, List.singleton_append]
    · rw [if_neg fun h' => hb (Option.some.inj h'), List.dropWhile_cons_of_neg (by simpa using hb)]
      exact ⟨0, rfl, rfl⟩

theorem deleteTailLoop_append (front s behind : List UInt8) :
    ∃ k, (s.rdropWhile (· = 0x20)).length + k = s.length ∧
      deleteTailLoop s.length (front ++ (s ++ behind)) front.length =
        front ++ (s.rdropWhile (· = 0x20) ++ (.replicate k 0 ++ behind)) := by
  induction s using List.reverseRecOn generalizing behind with
  | nil => exact ⟨0, rfl, rfl⟩
  | append_singleton s b ih =>
    have hget : (front ++ (s ++ [b] ++ behind))[front.length + s.length]? = some b := by
      rw [List.getElem?_append_right (by omega), Nat.add_sub_cancel_left, List.append_assoc,
        List.getElem?_append_right (Nat.le_refl _), Nat.sub_self]
      rfl
    rw [List.length_append, List.length_singleton, deleteTailLoop, hget]
    by_cases hb : b = 0x20
    · have hset : (front ++ (s ++ [b] ++ behind)).set (front.length + s.length) 0 =
          front ++ (s ++ 0 :: behind) := by
        rw [List.set_append_right _ _ (by omega), Nat.add_sub_cancel_left, List.append_assoc,
          List.set_append_right _ _ (Nat.le_refl _), Nat.sub_self]
        rfl
      obtain ⟨k, hk, hloop⟩ := ih (0 :: behind)
      rw [if_pos (congrArg some hb), hset, hloop,
        List.rdropWhile_concat_pos _ _ _ (by simpa using hb)]
      refine ⟨k + 1, by omega, ?_⟩
      rw [List.replicate_succ', List.append_assoc, List.singleton_append]
    · rw [if_neg fun h' => hb (Option.some.inj h'),
        List.rdropWhile_concat_neg _ _ _ (by simpa using hb)]
      exact ⟨0, by simp, rfl⟩

theorem strlen_append (front : List UInt8) {behind : List UInt8} (h : 0 ∉ s) :
    strlen (front ++ (s ++ 0 :: behind)) front.length = s.length :=
  congrArg List.length (strAt_append front h)

theorem replicate_append_cons (k : ℕ) (b : UInt8) (l : List UInt8) :
    List.replicate k b ++ b :: l = b :: (List.replicate k b ++ l) := by
  induction k with
  | zero => rfl
  | succ k ih => rw [List.replicate_succ, List.cons_append, ih, List.cons_append]

/-- **Both together** leave the trimmed string, and terminators instead of the rest of it. -/
theorem delete_sp (h : 0 ∉ s) (front behind : List UInt8) : ∃ k, (trim s).length + k = s.length ∧
    deleteTailSp (deleteHeadSp (front ++ (s ++ 0 :: behind)) front.length) front.length =
      front ++ (trim s ++ (.replicate k 0 ++ 0 :: behind)) := by
  obtain ⟨k, hk, hhead⟩ := deleteHeadLoop_append h front behind
  have hzero : 0 ∉ s.dropWhile (· = 0x20) := fun hz => h ((List.dropWhile_suffix _).subset hz)
  obtain ⟨k', hk', htail⟩ :=
    deleteTailLoop_append front (s.dropWhile (· = 0x20)) (.replicate k 0 ++ 0 :: behind)
  refine ⟨k' + k, ?_, ?_⟩
  · rw [trim]
    omega
  · rw [deleteHeadSp, strlen_append front h, hhead, replicate_append_cons, deleteTailSp,
      strlen_append front hzero, ← replicate_append_cons, htail, trim, List.replicate_add,
      List.append_assoc]

theorem zero_notMem_trim (h : 0 ∉ s) : 0 ∉ trim s :=
  fun hz => h ((List.dropWhile_suffix _).subset ((List.rdropWhile_prefix _ _).subset hz))

end Spaces

/-! ## `strtok_r_impl` -/

/-- What `strtok_r_impl` works on, besides the string and the delimiter. -/
structure Strtok where
  buf : List UInt8
  saveptr : ℕ
  isTailDelim : Bool
deriving DecidableEq, Repr

namespace Strtok

variable (x : Strtok) (delim : List UInt8)

/-- The delimiter at `f` is written over, and what is behind it is kept for the next call. -/
def cut (f : ℕ) : Strtok where
  buf := overwrite x.buf f (.replicate delim.length 0)
  saveptr := f + delim.length
  isTailDelim := x.isTailDelim || strlen x.buf f == delim.length

/-- `strtok_r_impl` with a string. -/
def first (str : ℕ) : Option ℕ × Strtok :=
  match strstr x.buf str delim with
  | none => (none, x)
  | some f => (some str, x.cut delim f)

/-- `strtok_r_impl` without one. -/
def next : Option ℕ × Strtok :=
  match strstr x.buf x.saveptr delim with
  | none =>
    if 0 < strlen x.buf x.saveptr then
      (some x.saveptr, { x with saveptr := x.saveptr + strlen x.buf x.saveptr })
    else (none, x)
  | some f => (some x.saveptr, x.cut delim f)

end Strtok

/-- `strtok_r_impl`. -/
def strtokRImpl (str : Option ℕ) (delim : List UInt8) (x : Strtok) : Option ℕ × Strtok :=
  match str with
  | some str => x.first delim str
  | none => x.next delim

section Tokens

variable {delim front l u r behind : List UInt8} {x : Strtok}

/-- **A line is next.** -/
theorem next_line (hdelim : delim ≠ []) (hl : IsLine delim l) (hzero : 0 ∉ l ++ delim ++ u)
    (hbuf : x.buf = front ++ (l ++ delim ++ u ++ 0 :: behind)) (hptr : x.saveptr = front.length) :
    x.next delim = (some front.length,
      { buf := front ++ (l ++ (.replicate delim.length 0 ++ (u ++ 0 :: behind)))
        saveptr := front.length + l.length + delim.length
        isTailDelim := x.isTailDelim || u.isEmpty }) := by
  have hfound : strstr x.buf x.saveptr delim = some (front.length + l.length) := by
    rw [strstr, hbuf, hptr, strAt_append front hzero, firstAt_of_isLine hl hdelim]
    rfl
  have hbuf' : x.buf = (front ++ l) ++ (delim ++ u ++ 0 :: behind) := by
    rw [hbuf]
    simp
  have hzero' : 0 ∉ delim ++ u := fun hz => hzero (by
    rw [List.append_assoc]
    exact List.mem_append_right l hz)
  have hwritten : overwrite x.buf (front.length + l.length) (.replicate delim.length 0) =
      front ++ (l ++ (.replicate delim.length 0 ++ (u ++ 0 :: behind))) := by
    rw [hbuf', ← List.length_append, overwrite_append]
    simp
  have htail : (strlen x.buf (front.length + l.length) == delim.length) = u.isEmpty := by
    rw [hbuf', ← List.length_append, strlen_append _ hzero', List.length_append]
    rcases u with _ | ⟨b, u⟩
    · simp
    · simp
  rw [Strtok.next, hfound]
  simp only [Strtok.cut, hwritten, htail, hptr]

/-- **A rest without a delimiter is next.** -/
theorem next_rest (hr : ¬ delim <:+: r) (hne : r ≠ []) (hzero : 0 ∉ r)
    (hbuf : x.buf = front ++ (r ++ 0 :: behind)) (hptr : x.saveptr = front.length) :
    x.next delim = (some front.length, { x with saveptr := front.length + r.length }) := by
  have hnone : strstr x.buf x.saveptr delim = none := by
    rw [strstr, hbuf, hptr, strAt_append front hzero, firstAt_eq_none_iff.mpr hr]
    rfl
  have hlen : strlen x.buf x.saveptr = r.length := by rw [hbuf, hptr, strlen_append front hzero]
  rw [Strtok.next, hnone, hlen]
  simp only [if_pos (List.length_pos_of_ne_nil hne), hptr]

/-- **Nothing is left.** -/
theorem next_nil (hdelim : delim ≠ []) (h : strAt 0 x.buf x.saveptr = []) :
    x.next delim = (none, x) := by
  have hnone : strstr x.buf x.saveptr delim = none := by
    rw [strstr, h, firstAt, if_neg hdelim]
    rfl
  rw [Strtok.next, hnone, strlen, h]
  rfl

/-- With a string in which there is a delimiter, it is as if it had been left by the last call. -/
theorem first_eq_next {p : ℕ} (h : strstr x.buf p delim ≠ none) :
    x.first delim p = Strtok.next { x with saveptr := p } delim := by
  obtain ⟨f, hf⟩ := Option.ne_none_iff_exists'.mp h
  rw [Strtok.first, Strtok.next, hf]
  rfl

end Tokens

end Strings

end AutoRec
