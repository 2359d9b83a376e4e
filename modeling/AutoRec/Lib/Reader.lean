import Mathlib.Data.List.Basic
import Mathlib.Tactic.Common

/-!
# Readers of a bounded part of memory

A reader goes forward through a part of memory. It can read behind the end of that part, or write
behind the end of the array that it copies to, and then there is no result.

* `Fault`, `Reader`: with `byte`, `copy`, `sized`, `times`, `skip`, `left`.
* `bind_eq_ok_iff`, `byte_eq_ok_iff`, `copy_eq_ok_iff`, `sized_eq_ok_iff`: a reader that has a
  result has read what the part begins with.
* `Bounded`: there is a result, and it is accepted only where nothing is left; `Checked`: the second
  of these, for readers that end with `whenDone`.
-/

/-- What goes wrong. -/
inductive Fault
  | read
  | write
deriving DecidableEq, Repr

/-- A reader: its result and what is left of the part, or a fault. -/
structure Reader (β α : Type) where
  run : List β → Except Fault (α × List β)

namespace Reader

variable {α β γ : Type}

/-- Nothing is read. -/
def pure (a : α) : Reader β α := ⟨fun s => .ok (a, s)⟩

/-- One reader after the other. -/
def bind (r : Reader β α) (f : α → Reader β γ) : Reader β γ where
  run s :=
    match r.run s with
    | .error e => .error e
    | .ok (a, s') => (f a).run s'

instance : Monad (Reader β) where
  pure := pure
  bind := bind

/-- The next byte. -/
def byte : Reader β β where
  run
    | [] => .error .read
    | b :: s => .ok (b, s)

/-- `n` bytes are copied to an array of size `size`. -/
def copy (n size : ℕ) : Reader β (List β) where
  run s :=
    if size < n then .error .write
    else if s.length < n then .error .read
    else .ok (s.take n, s.drop n)

/-- The pointer goes on by `n` bytes, and nothing is read. -/
def skip (n : ℕ) : Reader β Unit := ⟨fun s => .ok ((), s.drop n)⟩

/-- How many bytes are left. -/
def left : Reader β ℕ := ⟨fun s => .ok (s.length, s)⟩

section Rules

variable {r : Reader β α} {f : α → Reader β γ} {s s' : List β} {a : α} {c : γ} {n size : ℕ}

theorem pure_eq_ok_iff {b : α} :
    (Pure.pure a : Reader β α).run s = .ok (b, s') ↔ a = b ∧ s = s' := by
  show Except.ok (a, s) = _ ↔ _
  rw [Except.ok.injEq, Prod.mk.injEq]

theorem run_bind : (r >>= f).run s =
    match r.run s with
    | .error e => .error e
    | .ok (a, s') => (f a).run s' := rfl

theorem run_copy : (copy n size).run s =
    if size < n then .error .write
    else if s.length < n then .error .read
    else .ok (s.take n, s.drop n) := rfl

theorem bind_ok (h : r.run s = .ok (a, s')) : (r >>= f).run s = (f a).run s' := by
  rw [run_bind, h]

theorem bind_eq_ok_iff : (r >>= f).run s = .ok (c, s') ↔
    ∃ a t, r.run s = .ok (a, t) ∧ (f a).run t = .ok (c, s') := by
  constructor
  · intro h
    rw [run_bind] at h
    cases hr : r.run s with
    | error e =>
      rw [hr] at h
      cases h
    | ok x =>
      rw [hr] at h
      exact ⟨x.1, x.2, rfl, h⟩
  · rintro ⟨a, t, hr, hf⟩
    rw [bind_ok hr, hf]

theorem byte_eq_ok_iff {b : β} : byte.run s = .ok (b, s') ↔ s = b :: s' := by
  cases s with
  | nil => simp [byte]
  | cons x t => simp [byte]

theorem copy_eq_ok_iff {l : List β} : (copy n size).run s = .ok (l, s') ↔
    n ≤ size ∧ l.length = n ∧ s = l ++ s' := by
  rw [run_copy]
  constructor
  · intro h
    split_ifs at h with hsize hlen
    cases h
    refine ⟨by omega, ?_, (List.take_append_drop n s).symm⟩
    rw [List.length_take]
    omega
  · rintro ⟨hsize, rfl, rfl⟩
    rw [if_neg (by omega), if_neg (by rw [List.length_append]; omega), List.take_left,
      List.drop_left]

theorem byte_bind_eq_ok_iff {f : β → Reader β γ} : (byte >>= f).run s = .ok (c, s') ↔
    ∃ b t, s = b :: t ∧ (f b).run t = .ok (c, s') := by
  simp only [bind_eq_ok_iff, byte_eq_ok_iff]

theorem copy_bind_eq_ok_iff {f : List β → Reader β γ} : (copy n size >>= f).run s = .ok (c, s') ↔
    ∃ l t, (n ≤ size ∧ l.length = n ∧ s = l ++ t) ∧ (f l).run t = .ok (c, s') := by
  simp only [bind_eq_ok_iff, copy_eq_ok_iff]

theorem left_bind_eq_ok_iff {f : ℕ → Reader β γ} : (left >>= f).run s = .ok (c, s') ↔
    (f s.length).run s = .ok (c, s') := Iff.rfl

theorem skip_bind_eq_ok_iff {f : Unit → Reader β γ} : (skip n >>= f).run s = .ok (c, s') ↔
    (f ()).run (s.drop n) = .ok (c, s') := Iff.rfl

end Rules

/-! ## Bytes behind their number -/

/-- A byte with a length, and so many bytes. -/
def sized (size : ℕ) : Reader UInt8 (List UInt8) := do
  let n ← byte
  copy n.toNat size

/-- A list behind its length. -/
def sizedBytes (l : List UInt8) : List UInt8 := UInt8.ofNat l.length :: l

theorem sized_eq_ok_iff {s s' l : List UInt8} : (sized 255).run s = .ok (l, s') ↔
    l.length < 256 ∧ s = sizedBytes l ++ s' := by
  simp only [sized, byte_bind_eq_ok_iff, copy_eq_ok_iff]
  constructor
  · rintro ⟨n, t, rfl, -, hlen, rfl⟩
    have hn := n.toNat_lt
    refine ⟨by omega, ?_⟩
    rw [sizedBytes, hlen, UInt8.ofNat_toNat]
    rfl
  · rintro ⟨hlen, rfl⟩
    have hn : (UInt8.ofNat l.length).toNat = l.length := by
      rw [UInt8.toNat_ofNat']
      exact Nat.mod_eq_of_lt hlen
    exact ⟨UInt8.ofNat l.length, l ++ s', rfl, by omega, hn.symm, rfl⟩

theorem sized_bind_eq_ok_iff {γ : Type} {f : List UInt8 → Reader UInt8 γ} {c : γ}
    {s s' : List UInt8} : (sized 255 >>= f).run s = .ok (c, s') ↔
      ∃ l t, (l.length < 256 ∧ s = sizedBytes l ++ t) ∧ (f l).run t = .ok (c, s') := by
  simp only [bind_eq_ok_iff, sized_eq_ok_iff]

/-! ## Several parts -/

/-- `n` times the same. -/
def times (r : Reader β α) : ℕ → Reader β (List α)
  | 0 => return []
  | n + 1 => do
    let a ← r
    let l ← times r n
    return a :: l

theorem times_eq_ok_iff {r : Reader β α} {W : α → Prop} {bytes : α → List β}
    (hr : ∀ {s a s'}, r.run s = .ok (a, s') ↔ W a ∧ s = bytes a ++ s') {n : ℕ} {s s' : List β}
    {l : List α} : (times r n).run s = .ok (l, s') ↔
      l.length = n ∧ (∀ a ∈ l, W a) ∧ s = l.flatMap bytes ++ s' := by
  induction n generalizing s s' l with
  | zero =>
    rw [times, pure_eq_ok_iff, List.length_eq_zero_iff]
    constructor
    · rintro ⟨rfl, rfl⟩
      exact ⟨rfl, fun a ha => absurd ha List.not_mem_nil, rfl⟩
    · rintro ⟨rfl, -, rfl⟩
      exact ⟨rfl, rfl⟩
  | succ n ih =>
    simp only [times, bind_eq_ok_iff, hr, ih, pure_eq_ok_iff]
    constructor
    · rintro ⟨a, t, ⟨ha, rfl⟩, l', u, ⟨rfl, hl', rfl⟩, rfl, rfl⟩
      refine ⟨rfl, List.forall_mem_cons.mpr ⟨ha, hl'⟩, ?_⟩
      rw [List.flatMap_cons, List.append_assoc]
    · rintro ⟨hlen, hall, rfl⟩
      obtain ⟨a, l', rfl⟩ := List.exists_cons_of_length_eq_add_one hlen
      obtain ⟨ha, hl'⟩ := List.forall_mem_cons.mp hall
      rw [List.flatMap_cons, List.append_assoc]
      exact ⟨a, _, ⟨ha, rfl⟩, l', s', ⟨Nat.succ.inj hlen, hl', rfl⟩, rfl, rfl⟩

/-! ## Bounded readers -/

/-- What the reader returns is accepted only if it has read everything. -/
def Checked (r : Reader β (Option α)) : Prop :=
  ∀ s v s', r.run s = .ok (v, s') → v.isSome = true → s' = []

/-- The reader reads and writes where it may, and what it returns is accepted only if it has read
everything. -/
def Bounded (r : Reader β (Option α)) (s : List β) : Prop :=
  ∃ v s', r.run s = .ok (v, s') ∧ (v.isSome = true → s' = [])

/-- The check in the end: the result is accepted if nothing is left. -/
def whenDone (v : α) : Reader β (Option α) := do
  let n ← left
  return if n = 0 then some v else none

theorem whenDone_eq_ok_iff {a : α} {v : Option α} {s s' : List β} :
    (whenDone a).run s = .ok (v, s') ↔ s = s' ∧ v = if s = [] then some a else none := by
  rw [whenDone, left_bind_eq_ok_iff, pure_eq_ok_iff, eq_comm (a := v), and_comm]
  simp only [List.length_eq_zero_iff]

theorem checked_whenDone (a : α) : Checked (whenDone a : Reader β (Option α)) := by
  intro s v s' h hv
  obtain ⟨rfl, rfl⟩ := whenDone_eq_ok_iff.mp h
  by_cases hs : s = []
  · exact hs
  · rw [if_neg hs] at hv
    cases hv

theorem checked_pure_none : Checked (Pure.pure none : Reader β (Option α)) := by
  intro s v s' h hv
  obtain ⟨rfl, rfl⟩ := pure_eq_ok_iff.mp h
  cases hv

/-- Only the last reader has to check. -/
theorem Checked.bind {r : Reader β α} {f : α → Reader β (Option γ)} (h : ∀ a, Checked (f a)) :
    Checked (r >>= f) := by
  intro s v s' hrun hv
  obtain ⟨a, t, -, hf⟩ := bind_eq_ok_iff.mp hrun
  exact h a t v s' hf hv

/-- A reader that checks has only to read and write where it may. -/
theorem Checked.bounded_iff {r : Reader β (Option α)} (h : Checked r) (s : List β) :
    Bounded r s ↔ ∃ v s', r.run s = .ok (v, s') :=
  ⟨fun ⟨v, s', hrun, _⟩ => ⟨v, s', hrun⟩, fun ⟨v, s', hrun⟩ => ⟨v, s', hrun, h s v s' hrun⟩⟩

end Reader
