import Mathlib.Data.Fin.Basic
import Mathlib.Data.List.FinRange
import Mathlib.Tactic.Common

/-!
# Tables of slots

A table is an array of `n` slots, of which the used ones are kept at the front by copying slots
one place down (when an entry goes) or up (to make room for an entry).

* `shiftDown`, `shiftUp`: the two copying loops; `shiftDown_getElem`, `shiftUp_getElem`: what they
  leave in each slot.
* `removeAt`, `insertAt`: an entry taken out, with a blank in the last slot; an entry put in.
* `sweep`: every entry that satisfies a test is taken out, from the last slot to the first.
* `firstFrom`: the first slot from a given one on that satisfies a test.
* `All`, `Any`: every slot, or some slot, satisfies a property.
* `Packed`: the slots that satisfy a test come first.
* `DistinctOn`: no two slots that satisfy a test have the same key.
* `SortedOn`: the slots that satisfy a test have their keys in order.
-/

namespace Slots

variable {α κ : Type*} {n : ℕ}

/-- The number of a slot is never out of range. -/
instance instGetElemSlot : GetElem (Vector α n) (Fin n) α fun _ _ => True where
  getElem v k _ := getElem v k.1 k.isLt

@[simp, grind =] theorem getElem_slot (v : Vector α n) (k : Fin n) :
    v[k] = getElem v k.1 k.isLt := rfl

/-! ## The copying loops -/

/-- `v[j] = v[j + 1]`. -/
def copyDown (v : Vector α n) (j : ℕ) : Vector α n :=
  if h : j + 1 < n then v.set j v[j + 1] else v

/-- `v[j] = v[j - 1]`. -/
def copyUp (v : Vector α n) (j : ℕ) : Vector α n :=
  if h : j < n then v.set j v[j - 1] else v

/-- `for (j = i; j < n - 1; ++ j) v[j] = v[j + 1]`. -/
def shiftDown (v : Vector α n) (i : ℕ) : Vector α n :=
  (List.range' i (n - 1 - i)).foldl copyDown v

/-- `for (j = n - 1; j > i; -- j) v[j] = v[j - 1]`. -/
def shiftUp (v : Vector α n) (i : ℕ) : Vector α n :=
  (List.range' (i + 1) (n - 1 - i)).reverse.foldl copyUp v

theorem copyDown_getElem (v : Vector α n) (j k : ℕ) (hk : k < n) :
    (copyDown v j)[k] = if h : k = j ∧ k + 1 < n then v[k + 1] else v[k] := by
  unfold copyDown
  grind

theorem copyUp_getElem (v : Vector α n) (j k : ℕ) (hk : k < n) :
    (copyUp v j)[k] = if k = j then v[k - 1] else v[k] := by
  unfold copyUp
  grind

theorem foldl_copyDown_getElem (i m : ℕ) (v : Vector α n) (k : ℕ) (hk : k < n) :
    ((List.range' i m).foldl copyDown v)[k] =
      if h : i ≤ k ∧ k < i + m ∧ k + 1 < n then v[k + 1] else v[k] := by
  induction m generalizing i v with
  | zero =>
    rw [dif_neg (by omega)]
    rfl
  | succ m ih =>
    -- the slots above the one just written are still the old ones
    rw [List.range'_succ, List.foldl_cons, ih]
    simp only [copyDown_getElem]
    split_ifs <;> first | rfl | (exfalso; omega)

/-- **Closing a gap**: from slot `i` on, each slot takes over the one above it. -/
theorem shiftDown_getElem (v : Vector α n) (i k : ℕ) (hk : k < n) :
    (shiftDown v i)[k] = if h : i ≤ k ∧ k + 1 < n then v[k + 1] else v[k] := by
  rw [shiftDown, foldl_copyDown_getElem]
  split_ifs <;> first | rfl | (exfalso; omega)

theorem foldl_copyUp_getElem (i m : ℕ) (v : Vector α n) (k : ℕ) (hk : k < n) :
    ((List.range' (i + 1) m).reverse.foldl copyUp v)[k] =
      if i < k ∧ k ≤ i + m then v[k - 1] else v[k] := by
  induction m generalizing v with
  | zero =>
    rw [if_neg (by omega)]
    rfl
  | succ m ih =>
    -- the slots below the one just written are still the old ones
    rw [List.range'_concat, List.reverse_append, List.reverse_singleton, List.singleton_append,
      List.foldl_cons, ih]
    simp only [copyUp_getElem]
    split_ifs <;> first | rfl | (exfalso; omega)

/-- **Opening a gap**: above slot `i`, each slot takes over the one below it. -/
theorem shiftUp_getElem (v : Vector α n) (i k : ℕ) (hk : k < n) :
    (shiftUp v i)[k] = if i < k then v[k - 1] else v[k] := by
  rw [shiftUp, foldl_copyUp_getElem]
  split_ifs <;> first | rfl | (exfalso; omega)

/-! ## Taking an entry out and putting one in -/

/-- The entry in slot `i` goes; the last slot becomes the blank `z`. -/
def removeAt (v : Vector α n) (i : ℕ) (z : α) : Vector α n :=
  (shiftDown v i).setIfInBounds (n - 1) z

/-- The entry `x` comes into slot `i`. -/
def insertAt (v : Vector α n) (i : ℕ) (x : α) : Vector α n :=
  (shiftUp v i).setIfInBounds i x

theorem removeAt_getElem (v : Vector α n) (i : ℕ) (z : α) (k : ℕ) (hk : k < n) :
    (removeAt v i z)[k] =
      if k + 1 = n then z else if h : i ≤ k ∧ k + 1 < n then v[k + 1] else v[k] := by
  rw [removeAt, Vector.getElem_setIfInBounds, shiftDown_getElem]
  split_ifs <;> first | rfl | (exfalso; omega)

theorem insertAt_getElem (v : Vector α n) (i : ℕ) (x : α) (k : ℕ) (hk : k < n) :
    (insertAt v i x)[k] = if k = i then x else if i < k then v[k - 1] else v[k] := by
  rw [insertAt, Vector.getElem_setIfInBounds, shiftUp_getElem]
  split_ifs <;> first | rfl | (exfalso; omega)

theorem removeAt_below (v : Vector α n) (z : α) {i k : ℕ} (hi : i < n) (hk : k < i) :
    (removeAt v i z)[k] = v[k] := by
  rw [removeAt_getElem, if_neg (by omega), dif_neg (by omega)]

theorem insertAt_below (v : Vector α n) (x : α) {i k : ℕ} (hi : i < n) (hk : k < i) :
    (insertAt v i x)[k] = v[k] := by
  rw [insertAt_getElem, if_neg (by omega), if_neg (by omega)]

/-- What is in the slot that goes does not matter. -/
theorem removeAt_set_self (v : Vector α n) (i : ℕ) (hi : i < n) (x z : α) :
    removeAt (v.set i x) i z = removeAt v i z := by
  ext k hk
  simp only [removeAt_getElem, Vector.getElem_set]
  split_ifs <;> first | rfl | (exfalso; omega)

/-! ## Searching -/

/-- The first slot from `i` on whose entry satisfies `p`. -/
def firstFrom (p : α → Bool) (v : Vector α n) (i : ℕ) : Option (Fin n) :=
  (List.finRange n).find? fun k => decide (i ≤ k) && p v[k]

variable {p : α → Bool} {v : Vector α n}

theorem firstFrom_some {i : ℕ} {k : Fin n} (h : firstFrom p v i = some k) :
    i ≤ k ∧ p v[k] = true ∧ ∀ j (_ : j < k), i ≤ j → p v[j] = false := by
  rw [firstFrom, List.find?_eq_some_iff_getElem] at h
  obtain ⟨hp, m, hm, hk, hlt⟩ := h
  rw [Bool.and_eq_true, decide_eq_true_eq] at hp
  have hmk : (k : ℕ) = m := by rw [← hk]; simp
  refine ⟨hp.1, hp.2, fun j hj hij => ?_⟩
  simpa [hij] using hlt j (hmk ▸ hj)

theorem firstFrom_none {i : ℕ} (h : firstFrom p v i = none) :
    ∀ j (hj : j < n), i ≤ j → p v[j] = false := by
  intro j hj hij
  have := List.find?_eq_none.mp h ⟨j, hj⟩ (List.mem_finRange _)
  simpa [hij] using this

theorem firstFrom_eq_none_iff {i : ℕ} :
    firstFrom p v i = none ↔ ∀ j (hj : j < n), i ≤ j → p v[j] = false := by
  refine ⟨firstFrom_none, fun h => ?_⟩
  rcases hf : firstFrom p v i with _ | k
  · rfl
  · obtain ⟨hik, hpk, -⟩ := firstFrom_some hf
    have := h k k.2 hik
    simp_all

theorem firstFrom_isSome_iff {i : ℕ} :
    (firstFrom p v i).isSome = true ↔ ∃ j, ∃ hj : j < n, i ≤ j ∧ p v[j] = true := by
  rw [Option.isSome_iff_ne_none, ne_eq, firstFrom_eq_none_iff]
  push Not
  simp only [Bool.not_eq_false]

/-! ## A property of every slot -/

/-- Every slot satisfies `P`. -/
def All (P : α → Prop) (v : Vector α n) : Prop := ∀ k (hk : k < n), P v[k]

variable {P : α → Prop}

theorem All.removeAt (h : All P v) {i : ℕ} {z : α} (hz : P z) : All P (removeAt v i z) := by
  intro k hk
  rw [removeAt_getElem]
  split_ifs
  exacts [hz, h _ _, h _ _]

theorem All.insertAt (h : All P v) {i : ℕ} {x : α} (hx : P x) : All P (insertAt v i x) := by
  intro k hk
  rw [insertAt_getElem]
  split_ifs
  exacts [hx, h _ _, h _ _]

theorem All.set (h : All P v) {i : ℕ} {hi : i < n} {x : α} (hx : P x) : All P (v.set i x) := by
  intro k hk
  rw [Vector.getElem_set]
  split_ifs
  exacts [hx, h _ _]

/-! ## A property of some slot -/

/-- Some slot satisfies `P`. -/
def Any (P : α → Prop) (v : Vector α n) : Prop := ∃ k, ∃ hk : k < n, P v[k]

theorem Any.removeAt (h : Any P v) {i : ℕ} (hi : i < n) (hne : ¬ P v[i]) {z : α} :
    Any P (removeAt v i z) := by
  obtain ⟨k, hk, hP⟩ := h
  rcases Nat.lt_trichotomy k i with hlt | rfl | hgt
  · refine ⟨k, hk, ?_⟩
    rw [removeAt_below v z hi hlt]
    exact hP
  · exact absurd hP hne
  · -- the slot has moved down
    refine ⟨k - 1, by omega, ?_⟩
    have hk1 : k - 1 + 1 = k := by omega
    rw [removeAt_getElem, if_neg (by omega), dif_pos ⟨by omega, by omega⟩]
    simp only [hk1]
    exact hP

theorem Any.insertAt (h : Any P v) {i : ℕ} {x : α} (hlast : ∀ hn : n - 1 < n, ¬ P v[n - 1]) :
    Any P (insertAt v i x) := by
  obtain ⟨k, hk, hP⟩ := h
  have hkn : k + 1 < n := by
    by_contra hge
    have hkn : k = n - 1 := by omega
    subst hkn
    exact hlast hk hP
  by_cases hki : k < i
  · refine ⟨k, hk, ?_⟩
    rw [insertAt_getElem, if_neg (by omega), if_neg (by omega)]
    exact hP
  · refine ⟨k + 1, hkn, ?_⟩
    rw [insertAt_getElem, if_neg (by omega), if_pos (by omega)]
    exact hP

theorem Any.set (h : Any P v) {i : ℕ} {hi : i < n} {x : α} (hx : P v[i] → P x) :
    Any P (v.set i x) := by
  obtain ⟨k, hk, hP⟩ := h
  refine ⟨k, hk, ?_⟩
  rw [Vector.getElem_set]
  split_ifs with hik
  · subst hik
    exact hx hP
  · exact hP

/-! ## Used slots first -/

/-- The slots that satisfy `p` come before those that do not. -/
def Packed (p : α → Bool) (v : Vector α n) : Prop :=
  ∀ i j (hij : i < j) (hj : j < n), p v[j] = true → p v[i] = true

theorem Packed.free_of_le (h : Packed p v) {i j : ℕ} (hij : i ≤ j) (hj : j < n)
    (hi : p v[i] = false) : p v[j] = false := by
  rcases Nat.eq_or_lt_of_le hij with rfl | hlt
  · exact hi
  · by_contra hu
    rw [h i j hlt hj (by simpa using hu)] at hi
    cases hi

theorem Packed.removeAt (h : Packed p v) {i : ℕ} {z : α} (hz : p z = false) :
    Packed p (removeAt v i z) := by
  intro a b hab hb
  simp only [removeAt_getElem]
  intro hpb
  split_ifs at hpb ⊢ with h₁ h₂ h₃ h₄
  all_goals first
    | (exfalso; omega)
    | (rw [hz] at hpb; cases hpb)
    | exact h _ _ (by omega) _ hpb

/-- An entry that satisfies `p` comes in at a place with no gap below it. -/
theorem Packed.insertAt (h : Packed p v) {i : ℕ} {x : α} (hx : p x = true)
    (hi : ∀ j (hj : j < n), j < i → p v[j] = true) : Packed p (insertAt v i x) := by
  intro a b hab hb
  simp only [insertAt_getElem]
  intro hpb
  split_ifs at hpb ⊢ with h₁ h₂ h₃ h₄ h₅ h₆ h₇ h₈
  all_goals first
    | (exfalso; omega)
    | exact hx
    | exact hi _ _ (by omega)
    | exact h _ _ (by omega) _ hpb

theorem Packed.congr (h : Packed p v) {w : Vector α n} (hw : ∀ k (hk : k < n), p w[k] = p v[k]) :
    Packed p w := by
  intro i j hij hj
  rw [hw, hw]
  exact h i j hij hj

theorem Packed.set (h : Packed p v) {i : Fin n} (hi : firstFrom (fun a => !p a) v 0 = some i) {x : α}
    (hx : p x = true) : Packed p (v.set i x) := by
  obtain ⟨-, hi, hlt⟩ := firstFrom_some hi
  intro a b hab hb
  simp only [Vector.getElem_set]
  intro hpb
  split_ifs at hpb ⊢ with h₁ h₂
  · exact hx
  · exact hx
  · simpa using hlt ⟨a, by omega⟩ (by simp [Fin.lt_def]; omega) (Nat.zero_le _)
  · exact h a b hab hb hpb

/-! ## Distinct keys -/

/-- No two slots that satisfy `p` have the same key. -/
def DistinctOn (p : α → Bool) (key : α → κ) (v : Vector α n) : Prop :=
  ∀ i j (_ : i < j) (_ : j < n), p v[i] = true → p v[j] = true → key v[i] ≠ key v[j]

variable {key : α → κ}

theorem DistinctOn.eq (h : DistinctOn p key v) {i j : ℕ} (hi : i < n) (hj : j < n)
    (hpi : p v[i] = true) (hpj : p v[j] = true) (hk : key v[i] = key v[j]) : i = j := by
  rcases lt_trichotomy i j with hij | hij | hij
  · exact absurd hk (h i j hij hj hpi hpj)
  · exact hij
  · exact absurd hk.symm (h j i hij hi hpj hpi)

theorem DistinctOn.removeAt (h : DistinctOn p key v) {i : ℕ} {z : α} (hz : p z = false) :
    DistinctOn p key (removeAt v i z) := by
  intro a b hab hb
  simp only [removeAt_getElem]
  intro hpa hpb
  split_ifs at hpa hpb ⊢
  all_goals first
    | (exfalso; omega)
    | (rw [hz] at hpb; cases hpb)
    | exact h _ _ (by omega) _ hpa hpb

theorem DistinctOn.insertAt (h : DistinctOn p key v) {i : ℕ} {x : α}
    (hx : ∀ j (hj : j < n), p v[j] = true → key v[j] ≠ key x) :
    DistinctOn p key (insertAt v i x) := by
  intro a b hab hb
  simp only [insertAt_getElem]
  intro hpa hpb
  split_ifs at hpa hpb ⊢
  all_goals first
    | (exfalso; omega)
    | exact (hx _ _ hpb).symm
    | exact hx _ _ hpa
    | exact h _ _ (by omega) _ hpa hpb

theorem DistinctOn.congr (h : DistinctOn p key v) {w : Vector α n}
    (hp : ∀ k (hk : k < n), p w[k] = p v[k]) (hkey : ∀ k (hk : k < n), key w[k] = key v[k]) :
    DistinctOn p key w := by
  intro i j hij hj
  rw [hp, hp, hkey, hkey]
  exact h i j hij hj

theorem DistinctOn.set (h : DistinctOn p key v) {i : ℕ} {hi : i < n} {x : α}
    (hx : ∀ j (hj : j < n), p v[j] = true → key v[j] ≠ key x) : DistinctOn p key (v.set i x) := by
  intro a b hab hb
  simp only [Vector.getElem_set]
  intro hpa hpb
  split_ifs at hpa hpb ⊢
  · omega
  · exact (hx _ _ hpb).symm
  · exact hx _ _ hpa
  · exact h a b hab hb hpa hpb

theorem DistinctOn.removeAt_gone (h : DistinctOn p key v) {i : ℕ} (hi : i < n) {z : α}
    (hpi : p v[i] = true) (hz : p z = false) (k : ℕ) (hk : k < n)
    (hpk : p (Slots.removeAt v i z)[k] = true) : key (Slots.removeAt v i z)[k] ≠ key v[i] := by
  simp only [removeAt_getElem] at hpk ⊢
  split_ifs at hpk ⊢ with h₁ h₂
  · rw [hz] at hpk; cases hpk
  · intro he
    have := h.eq h₂.2 hi hpk hpi he
    omega
  · intro he
    have := h.eq hk hi hpk hpi he
    omega

/-! ## Ordered keys -/

/-- The slots that satisfy `p` have their keys in order. -/
def SortedOn [Preorder κ] (p : α → Bool) (key : α → κ) (v : Vector α n) : Prop :=
  ∀ i j (_ : i < j) (_ : j < n), p v[i] = true → p v[j] = true → key v[i] ≤ key v[j]

section SortedOn

variable [Preorder κ]

theorem SortedOn.removeAt (h : SortedOn p key v) {i : ℕ} {z : α} (hz : p z = false) :
    SortedOn p key (removeAt v i z) := by
  intro a b hab hb
  simp only [removeAt_getElem]
  intro hpa hpb
  split_ifs at hpa hpb ⊢
  all_goals first
    | (exfalso; omega)
    | (rw [hz] at hpb; cases hpb)
    | exact h _ _ (by omega) _ hpa hpb

/-- An entry comes in between the entries that are not above it and those that are not below it. -/
theorem SortedOn.insertAt (h : SortedOn p key v) {i : ℕ} {x : α}
    (hlt : ∀ j (hj : j < n), j < i → p v[j] = true → key v[j] ≤ key x)
    (hge : ∀ j (hj : j < n), i ≤ j → p v[j] = true → key x ≤ key v[j]) :
    SortedOn p key (insertAt v i x) := by
  intro a b hab hb
  simp only [insertAt_getElem]
  intro hpa hpb
  split_ifs at hpa hpb ⊢
  all_goals first
    | (exfalso; omega)
    | exact hge _ _ (by omega) hpb
    | exact hlt _ _ (by omega) hpa
    | exact h _ _ (by omega) _ hpa hpb

theorem SortedOn.set (h : SortedOn p key v) {i : ℕ} {hi : i < n} {x : α}
    (hlt : ∀ j (hj : j < n), j < i → p v[j] = true → key v[j] ≤ key x)
    (hgt : ∀ j (hj : j < n), i < j → p v[j] = true → key x ≤ key v[j]) :
    SortedOn p key (v.set i x) := by
  intro a b hab hb
  simp only [Vector.getElem_set]
  intro hpa hpb
  split_ifs at hpa hpb ⊢
  · omega
  · exact hgt _ _ (by omega) hpb
  · exact hlt _ _ (by omega) hpa
  · exact h a b hab hb hpa hpb

theorem SortedOn.congr (h : SortedOn p key v) {w : Vector α n}
    (hp : ∀ k (hk : k < n), p w[k] = p v[k]) (hkey : ∀ k (hk : k < n), key w[k] = key v[k]) :
    SortedOn p key w := by
  intro i j hij hj
  rw [hp, hp, hkey, hkey]
  exact h i j hij hj

end SortedOn

/-! ## Taking out every entry that satisfies a test -/

/-- One turn of `sweep`. -/
def sweepAt (p : α → Bool) (z : α) (v : Vector α n) (i : Fin n) : Vector α n :=
  if p v[i] then Slots.removeAt v i z else v

/-- Every entry that satisfies `p` goes, from the last slot to the first. -/
def sweep (p : α → Bool) (z : α) (v : Vector α n) : Vector α n :=
  (List.finRange n).reverse.foldl (sweepAt p z) v

variable {z : α}

/-- What one turn keeps, the sweep keeps. -/
theorem sweep_induction (I : Vector α n → Prop)
    (hstep : ∀ v (i : Fin n), p v[i] = true → I v → I (Slots.removeAt v i z)) (hv : I v) :
    I (sweep p z v) := by
  unfold sweep
  generalize (List.finRange n).reverse = l
  induction l generalizing v with
  | nil => exact hv
  | cons i l ih =>
    refine ih ?_
    unfold sweepAt
    split_ifs with hp
    · exact hstep v i hp hv
    · exact hv

theorem All.sweep {P : α → Prop} (h : All P v) (hz : P z) : All P (sweep p z v) :=
  sweep_induction (All P) (fun _ _ _ hw => hw.removeAt hz) h

theorem Packed.sweep {q : α → Bool} (h : Packed q v) (hz : q z = false) :
    Packed q (Slots.sweep p z v) :=
  sweep_induction (Packed q) (fun _ _ _ hw => hw.removeAt hz) h

theorem DistinctOn.sweep {q : α → Bool} (h : DistinctOn q key v) (hz : q z = false) :
    DistinctOn q key (Slots.sweep p z v) :=
  sweep_induction (DistinctOn q key) (fun _ _ _ hw => hw.removeAt hz) h

theorem SortedOn.sweep [Preorder κ] {q : α → Bool} (h : SortedOn q key v) (hz : q z = false) :
    SortedOn q key (Slots.sweep p z v) :=
  sweep_induction (SortedOn q key) (fun _ _ _ hw => hw.removeAt hz) h

theorem Any.sweep {P : α → Prop} (h : Any (fun a => P a ∧ p a = false) v) :
    Any P (Slots.sweep p z v) := by
  have hall : Any (fun a => P a ∧ p a = false) (Slots.sweep p z v) := by
    apply sweep_induction (Any fun a => P a ∧ p a = false)
    · intro w i hi hw
      have hpi : p w[(i : ℕ)] = true := hi
      refine hw.removeAt i.2 fun hP => ?_
      rw [hpi] at hP
      cases hP.2
    · exact h
  obtain ⟨k, hk, hP, -⟩ := hall
  exact ⟨k, hk, hP⟩

theorem sweep_mem (k : ℕ) (hk : k < n) :
    (sweep p z v)[k] = z ∨ ∃ j, ∃ hj : j < n, (sweep p z v)[k] = v[j] := by
  refine sweep_induction (p := p) (z := z) (v := v)
    (fun w => ∀ k (hk : k < n), w[k] = z ∨ ∃ j, ∃ hj : j < n, w[k] = v[j]) ?_ ?_ k hk
  · intro w i _ hw k hk
    rw [removeAt_getElem]
    split_ifs
    · exact .inl rfl
    · exact hw _ _
    · exact hw _ _
  · exact fun k hk => .inr ⟨k, hk, rfl⟩

theorem sweep_below {i : ℕ} (hi : ∀ j (hj : j < n), j ≤ i → p v[j] = false) (k : ℕ) (hk : k < n)
    (hki : k ≤ i) : (sweep p z v)[k] = v[k] := by
  refine sweep_induction (p := p) (z := z) (v := v)
    (fun w => ∀ k (hk : k < n), k ≤ i → w[k] = v[k]) ?_ ?_ k hk hki
  · intro w a ha hw k hk hki
    have hai : i < a := by
      by_contra hle
      rw [not_lt] at hle
      have hwa := hw a a.2 hle
      have hva := hi a a.2 hle
      rw [← hwa] at hva
      exact absurd ha (by simp_all)
    rw [removeAt_getElem, if_neg (by omega), dif_neg (by omega)]
    exact hw k hk hki
  · exact fun k hk _ => rfl

/-- `w` is `v` after the turns of the slots from `m` on: those are done, the others untouched. -/
def SweptFrom (p : α → Bool) (v w : Vector α n) (m : ℕ) : Prop :=
  ∀ k (hk : k < n), (m ≤ k → p w[k] = false) ∧ (k < m → w[k] = v[k])

theorem SweptFrom.turn {w : Vector α n} {m : ℕ} (hz : p z = false) (hm : m < n)
    (h : SweptFrom p v w (m + 1)) : SweptFrom p v (sweepAt p z w ⟨m, hm⟩) m := by
  intro k hk
  unfold sweepAt
  split_ifs with hp
  · simp only [removeAt_getElem]
    refine ⟨fun hmk => ?_, fun hkm => ?_⟩
    · split_ifs with h₁ h₂
      · exact hz
      · exact (h _ h₂.2).1 (by omega)
      · exact absurd ⟨hmk, by omega⟩ h₂
    · rw [if_neg (by omega), dif_neg (by omega)]
      exact (h k hk).2 (by omega)
  · refine ⟨fun hmk => ?_, fun hkm => (h k hk).2 (by omega)⟩
    rcases Nat.eq_or_lt_of_le hmk with rfl | hlt
    · simpa using hp
    · exact (h k hk).1 hlt

theorem sweptFrom_drop (hz : p z = false) (m : ℕ) (hm : m ≤ n) :
    SweptFrom p v (((List.finRange n).drop m).reverse.foldl (sweepAt p z) v) m := by
  induction hd : n - m generalizing m with
  | zero =>
    have hnil : (List.finRange n).drop m = [] := by
      rw [List.drop_eq_nil_iff, List.length_finRange]
      omega
    rw [hnil]
    exact fun k hk => ⟨fun h => absurd h (by omega), fun _ => rfl⟩
  | succ d ih =>
    have hlt : m < n := by omega
    have hcons : (List.finRange n).drop m = ⟨m, hlt⟩ :: (List.finRange n).drop (m + 1) := by
      rw [List.drop_eq_getElem_cons (by simpa using hlt)]
      simp
    rw [hcons, List.reverse_cons, List.foldl_append]
    exact (ih (m + 1) (by omega) (by omega)).turn hz hlt

/-- **No entry that satisfies the test is left.** -/
theorem sweep_not (hz : p z = false) (k : ℕ) (hk : k < n) : p (sweep p z v)[k] = false :=
  ((sweptFrom_drop hz 0 (Nat.zero_le _)) k hk).1 (Nat.zero_le _)

end Slots
