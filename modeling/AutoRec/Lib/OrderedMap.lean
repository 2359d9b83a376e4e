import Mathlib.Data.List.Sort
import Mathlib.Order.Defs.LinearOrder
import Mathlib.Tactic.Common

/-!
# Ordered maps

A map whose keys are told apart by a comparison only, as a list of its entries in their order. Two
keys of which none is less than the other are one key to the map.

* `IsComparator`, `SameKey`: the comparison, and keys that it does not tell apart. `of_rank`: the order
  of a number.
* `OrderedMap`, `find?`, `insert`, `erase`; an entry that is there already is not replaced.
* **`find?_insert`**, **`find?_erase`**: what is found after them.
* `entries_erase`: the entry at a place goes.
-/

/-- A strict weak order, as a function. -/
class IsComparator {κ : Type*} (lt : κ → κ → Bool) : Prop where
  irrefl : ∀ a, lt a a = false
  trans : ∀ {a b c}, lt a b = true → lt b c = true → lt a c = true
  trans_not : ∀ {a b c}, lt a b = false → lt b c = false → lt a c = false

namespace IsComparator

variable {κ : Type*} (lt : κ → κ → Bool)

/-- The comparison does not tell the keys apart. -/
def SameKey (a b : κ) : Prop := lt a b = false ∧ lt b a = false

instance (a b : κ) : Decidable (SameKey lt a b) :=
  inferInstanceAs (Decidable (lt a b = false ∧ lt b a = false))

variable {lt} {a b c : κ}

theorem SameKey.symm (h : SameKey lt a b) : SameKey lt b a := ⟨h.2, h.1⟩

variable [IsComparator lt]

theorem SameKey.refl (a : κ) : SameKey lt a a := ⟨irrefl a, irrefl a⟩

theorem SameKey.trans (h : SameKey lt a b) (h' : SameKey lt b c) : SameKey lt a c :=
  ⟨trans_not h.1 h'.1, trans_not h'.2 h.2⟩

theorem asymm (h : lt a b = true) : lt b a = false := by
  rw [← Bool.not_eq_true]
  intro h'
  exact Bool.false_ne_true ((irrefl a).symm.trans (IsComparator.trans h h'))

omit [IsComparator lt] in
theorem of_rank {ι : Type*} [LinearOrder ι] {f : κ → ι} (hf : ∀ a b, lt a b = true ↔ f a < f b) :
    IsComparator lt := by
  have hnot : ∀ a b, lt a b = false ↔ f b ≤ f a := by
    intro a b
    rw [← Bool.not_eq_true, hf, not_lt]
  refine ⟨fun a => (hnot a a).mpr le_rfl, fun h h' => ?_, fun h h' => ?_⟩
  · exact (hf _ _).mpr (lt_trans ((hf _ _).mp h) ((hf _ _).mp h'))
  · exact (hnot _ _).mpr (le_trans ((hnot _ _).mp h') ((hnot _ _).mp h))

omit [IsComparator lt] in
theorem sameKey_iff_of_rank {ι : Type*} [LinearOrder ι] {f : κ → ι}
    (hf : ∀ a b, lt a b = true ↔ f a < f b) : SameKey lt a b ↔ f a = f b := by
  rw [SameKey, ← Bool.not_eq_true, ← Bool.not_eq_true, hf, hf, not_lt, not_lt]
  exact ⟨fun h => le_antisymm h.2 h.1, fun h => ⟨le_of_eq h.symm, le_of_eq h⟩⟩

end IsComparator

open IsComparator

/-- A map. -/
structure OrderedMap {κ : Type*} (lt : κ → κ → Bool) (α : Type*) where
  entries : List (κ × α)
  sorted : entries.Pairwise fun x y => lt x.1 y.1 = true
deriving DecidableEq

namespace OrderedMap

variable {κ α : Type*} {lt : κ → κ → Bool}

/-- The map without entries. -/
def empty : OrderedMap lt α := ⟨[], .nil⟩

/-- The entry of a key. -/
def find? (m : OrderedMap lt α) (k : κ) : Option (κ × α) :=
  m.entries.find? fun x => decide (SameKey lt x.1 k)

/-- An entry goes in at its place, if there is none for its key. -/
def insertEntry (lt : κ → κ → Bool) (e : κ × α) : List (κ × α) → List (κ × α)
  | [] => [e]
  | x :: l => if lt e.1 x.1 then e :: x :: l else if lt x.1 e.1 then x :: insertEntry lt e l else x :: l

/-- `erase`. -/
def erase (m : OrderedMap lt α) (k : κ) : OrderedMap lt α :=
  ⟨m.entries.filter fun x => !decide (SameKey lt x.1 k), m.sorted.filter _⟩

theorem mem_erase_iff {m : OrderedMap lt α} {k : κ} {x : κ × α} :
    x ∈ (m.erase k).entries ↔ x ∈ m.entries ∧ ¬ SameKey lt x.1 k := by
  simp [erase]

theorem find?_eq_none_iff {m : OrderedMap lt α} {k : κ} :
    m.find? k = none ↔ ∀ x ∈ m.entries, ¬ SameKey lt x.1 k := by
  rw [find?, List.find?_eq_none]
  simp only [decide_eq_true_eq]

theorem eq_of_mem {m : OrderedMap lt α} {x y : κ × α} (hx : x ∈ m.entries) (hy : y ∈ m.entries)
    (h : SameKey lt x.1 y.1) : x = y := by
  obtain ⟨i, hi, rfl⟩ := List.mem_iff_getElem.mp hx
  obtain ⟨j, hj, rfl⟩ := List.mem_iff_getElem.mp hy
  have hlt := List.pairwise_iff_getElem.mp m.sorted
  rcases Nat.lt_trichotomy i j with hij | rfl | hij
  · exact absurd ((hlt i j hi hj hij).symm.trans h.1) Bool.true_eq_false.mp
  · rfl
  · exact absurd ((hlt j i hj hi hij).symm.trans h.2) Bool.true_eq_false.mp

section Operations

variable [IsComparator lt]

theorem mem_insertEntry_iff {e x : κ × α} {l : List (κ × α)}
    (h : l.Pairwise fun x y => lt x.1 y.1 = true) :
    x ∈ insertEntry lt e l ↔ x ∈ l ∨ x = e ∧ ∀ y ∈ l, ¬ SameKey lt y.1 e.1 := by
  induction l with
  | nil => simp [insertEntry]
  | cons z l ih =>
    obtain ⟨hz, hl⟩ := List.pairwise_cons.mp h
    unfold insertEntry
    split_ifs with he hze
    · -- the entries behind are not less, and so they are behind `e`, too
      have hnew : ∀ y ∈ z :: l, ¬ SameKey lt y.1 e.1 := by
        intro y hy hsame
        have hey : lt e.1 y.1 = true := by
          rcases List.mem_cons.mp hy with rfl | hy
          · exact he
          · exact IsComparator.trans he (hz y hy)
        exact Bool.false_ne_true (hsame.2.symm.trans hey)
      rw [List.mem_cons, or_comm]
      exact or_congr_right ⟨fun hx => ⟨hx, hnew⟩, And.left⟩
    · have hnew : ¬ SameKey lt z.1 e.1 := fun hsame =>
        Bool.false_ne_true (hsame.1.symm.trans hze)
      rw [List.mem_cons, ih hl, List.mem_cons, or_assoc, List.forall_mem_cons]
      exact or_congr_right (or_congr_right (and_congr_right fun _ =>
        ⟨fun hall => ⟨hnew, hall⟩, And.right⟩))
    · have hthere : SameKey lt z.1 e.1 := ⟨Bool.eq_false_iff.mpr hze, Bool.eq_false_iff.mpr he⟩
      refine ⟨.inl, fun hx => hx.resolve_right fun hnew => ?_⟩
      exact hnew.2 z List.mem_cons_self hthere

theorem sorted_insertEntry {e : κ × α} {l : List (κ × α)}
    (h : l.Pairwise fun x y => lt x.1 y.1 = true) :
    (insertEntry lt e l).Pairwise fun x y => lt x.1 y.1 = true := by
  induction l with
  | nil => exact List.pairwise_singleton _ _
  | cons z l ih =>
    obtain ⟨hz, hl⟩ := List.pairwise_cons.mp h
    unfold insertEntry
    split_ifs with he hze
    · refine List.pairwise_cons.mpr ⟨fun y hy => ?_, h⟩
      rcases List.mem_cons.mp hy with rfl | hy
      · exact he
      · exact IsComparator.trans he (hz y hy)
    · refine List.pairwise_cons.mpr ⟨fun y hy => ?_, ih hl⟩
      rcases (mem_insertEntry_iff hl).mp hy with hy | ⟨rfl, -⟩
      · exact hz y hy
      · exact hze
    · exact h

theorem ext_of_mem {m m' : OrderedMap lt α} (h : ∀ x, x ∈ m.entries ↔ x ∈ m'.entries) : m = m' := by
  have : Std.Irrefl fun x y : κ × α => lt x.1 y.1 = true :=
    ⟨fun x hx => Bool.false_ne_true ((IsComparator.irrefl x.1).symm.trans hx)⟩
  have : Std.Antisymm fun x y : κ × α => lt x.1 y.1 = true :=
    ⟨fun x y hxy hyx => absurd ((IsComparator.asymm hxy).symm.trans hyx) Bool.false_ne_true⟩
  obtain ⟨l, hl⟩ := m
  obtain ⟨l', hl'⟩ := m'
  obtain rfl : l = l' := hl.eq_of_mem_iff hl' fun {x} => h x
  rfl

/-- `insert`: nothing happens if the key is there. -/
def insert (m : OrderedMap lt α) (k : κ) (v : α) : OrderedMap lt α :=
  ⟨insertEntry lt (k, v) m.entries, sorted_insertEntry m.sorted⟩

variable {m : OrderedMap lt α} {k k' : κ} {v : α} {x : κ × α}

theorem mem_insert_iff : x ∈ (m.insert k v).entries ↔
    x ∈ m.entries ∨ x = (k, v) ∧ ∀ y ∈ m.entries, ¬ SameKey lt y.1 k := mem_insertEntry_iff m.sorted

/-- **What is found**: the entry with the key. -/
theorem find?_eq_some_iff : m.find? k = some x ↔ x ∈ m.entries ∧ SameKey lt x.1 k := by
  have hsound : ∀ {y}, m.find? k = some y → y ∈ m.entries ∧ SameKey lt y.1 k := by
    intro y hy
    have hkey := List.find?_some (p := fun x : κ × α => decide (SameKey lt x.1 k)) hy
    exact ⟨List.mem_of_find?_eq_some hy, of_decide_eq_true hkey⟩
  refine ⟨hsound, fun ⟨hx, hk⟩ => ?_⟩
  cases hfind : m.find? k with
  | none => exact absurd hk (find?_eq_none_iff.mp hfind x hx)
  | some y =>
    obtain ⟨hy, hyk⟩ := hsound hfind
    rw [eq_of_mem hy hx (hyk.trans hk.symm)]

theorem find?_congr (h : SameKey lt k k') : m.find? k = m.find? k' := by
  refine Option.ext fun x => ?_
  rw [find?_eq_some_iff, find?_eq_some_iff]
  exact and_congr_right fun _ => ⟨fun hx => hx.trans h, fun hx => hx.trans h.symm⟩

/-- **`insert`** adds an entry for a key that has none, and keeps the entry of a key that has one. -/
theorem find?_insert : (m.insert k v).find? k' =
    if SameKey lt k k' then (m.find? k').or (some (k, v)) else m.find? k' := by
  split_ifs with hk
  · cases hfind : m.find? k' with
    | none =>
      refine find?_eq_some_iff.mpr ⟨mem_insert_iff.mpr (.inr ⟨rfl, fun y hy hyk => ?_⟩), hk⟩
      exact find?_eq_none_iff.mp hfind y hy (hyk.trans hk)
    | some x =>
      obtain ⟨hx, hxk⟩ := find?_eq_some_iff.mp hfind
      exact find?_eq_some_iff.mpr ⟨mem_insert_iff.mpr (.inl hx), hxk⟩
  · refine Option.ext fun x => ?_
    rw [find?_eq_some_iff, find?_eq_some_iff, mem_insert_iff]
    refine and_congr_left fun hxk => ⟨fun hx => hx.resolve_right ?_, .inl⟩
    rintro ⟨rfl, -⟩
    exact hk hxk

/-- **`erase`** takes away the entry of the key. -/
theorem find?_erase : (m.erase k).find? k' = if SameKey lt k k' then none else m.find? k' := by
  split_ifs with hk
  · refine find?_eq_none_iff.mpr fun x hx hx' => ?_
    exact (mem_erase_iff.mp hx).2 (hx'.trans hk.symm)
  · refine Option.ext fun x => ?_
    rw [find?_eq_some_iff, find?_eq_some_iff, mem_erase_iff, and_assoc]
    exact and_congr_right fun _ => ⟨And.right, fun hx => ⟨fun hx' => hk (hx'.symm.trans hx), hx⟩⟩

theorem entries_erase (front : List (κ × α)) {behind : List (κ × α)}
    (h : m.entries = front ++ x :: behind) :
    (m.erase x.1).entries = front ++ behind := by
  have hsorted := m.sorted
  rw [h, List.pairwise_append, List.pairwise_cons] at hsorted
  obtain ⟨-, ⟨hbehind, -⟩, hfront⟩ := hsorted
  have hkeep : ∀ l : List (κ × α), (∀ y ∈ l, ¬ SameKey lt y.1 x.1) →
      (l.filter fun y => !decide (SameKey lt y.1 x.1)) = l := by
    intro l hl
    refine List.filter_eq_self.mpr fun y hy => ?_
    rw [decide_eq_false (hl y hy)]
    rfl
  change (m.entries.filter fun y => !decide (SameKey lt y.1 x.1)) = front ++ behind
  rw [h, List.filter_append, List.filter_cons_of_neg, hkeep, hkeep]
  · exact fun y hy hsame => Bool.false_ne_true (hsame.2.symm.trans (hbehind y hy))
  · exact fun y hy hsame =>
      Bool.false_ne_true (hsame.1.symm.trans (hfront y hy x List.mem_cons_self))
  · rw [decide_eq_true (SameKey.refl x.1)]
    exact Bool.false_ne_true

end Operations

end OrderedMap
