import Mathlib.Data.List.Induction
import Mathlib.Data.List.TakeWhile
import Mathlib.Order.Lattice
import Mathlib.Tactic.Common

/-!
# Stable sorts

A stable sort sorts short runs by insertion and merges neighbouring parts. Which parts are merged is
its plan. It only ever asks of two elements whether the later one comes before the earlier one, so
that the test need not be an order: it is enough that it agrees with one on the pairs of the input
that stand in this way.

* `insertLast`, `insertionSort`, `mergeParts`, `Plan`, `stableSort`.
* `StablySorted`: in the order of the keys, equal keys in the order of the input.
* `Agrees`: the test is that of the keys, for a later and an earlier element.
* **`stablySorted_stableSort`**: such a sort sorts stably, whatever its plan.
-/

namespace StableSort

variable {α κ : Type*} (comp : α → α → Bool)

/-! ## The sort -/

/-- The element behind a sorted run moves to its place: to the front if it comes before the first
element, else from the back as far as it comes before the others. -/
def insertLast (run : List α) (x : α) : List α :=
  match run with
  | [] => [x]
  | first :: rest =>
    if comp x first then x :: first :: rest
    else
      ((first :: rest).reverse.dropWhile (comp x)).reverse ++
        x :: ((first :: rest).reverse.takeWhile (comp x)).reverse

/-- A run is sorted by insertion. -/
def insertionSort (l : List α) : List α := l.foldl (insertLast comp) []

/-- Two sorted parts are merged; an element of the second goes first only if it comes before the one
of the first. -/
def mergeParts (l₁ l₂ : List α) : List α := List.merge l₁ l₂ fun a b => !comp b a

/-- What is sorted as a run, and what is sorted in two parts, the first one of `n` elements. -/
inductive Plan
  | run
  | parts (n : ℕ) (first second : Plan)

/-- `std::stable_sort`. -/
def stableSort : Plan → List α → List α
  | .run, l => insertionSort comp l
  | .parts n p q, l => mergeParts comp (stableSort p (l.take n)) (stableSort q (l.drop n))

/-! ## What is sorted stably -/

/-- `l'` is `l` in the order of the keys, equal keys in their order. -/
structure StablySorted [DecidableEq κ] [LE κ] (key : α → κ) (l l' : List α) : Prop where
  sorted : l'.Pairwise fun a b => key a ≤ key b
  same : ∀ k, l'.filter (fun a => key a = k) = l.filter fun a => key a = k

variable [LinearOrder κ] {key : α → κ} {comp} {l l' l₁ l₂ l₁' l₂' : List α}

theorem StablySorted.mem (h : StablySorted key l l') {a : α} : a ∈ l' ↔ a ∈ l := by
  have hk : ∀ l : List α, a ∈ l.filter (fun b => key b = key a) ↔ a ∈ l := fun l => by
    simp [List.mem_filter]
  rw [← hk l', h.same, hk]

theorem StablySorted.perm (h : StablySorted key l l') : l'.Perm l := by
  classical
  rw [List.perm_iff_count]
  intro a
  have hk : ∀ l : List α, (l.filter fun b => key b = key a).count a = l.count a := fun l => by
    rw [List.count_filter]
    simp
  rw [← hk l', h.same, hk]

/-- A list that is sorted by a part of the key is sorted by the whole. -/
theorem StablySorted.trans {κ' : Type*} [LinearOrder κ'] {key' : α → κ'} {l'' : List α}
    (h : StablySorted key l l') (h' : StablySorted key' l' l'') (part : κ' → κ)
    (hpart : ∀ a, key a = part (key' a)) : StablySorted key' l l'' := by
  refine ⟨h'.sorted, fun k => ?_⟩
  -- the elements with the key are among those with its part
  have hk : ∀ l : List α, l.filter (fun a => key' a = k) =
      (l.filter fun a => key a = part k).filter fun a => key' a = k := fun l => by
    rw [List.filter_filter]
    apply List.filter_congr
    intro a _
    by_cases ha : key' a = k
    · simp [ha, hpart]
    · simp [ha]
  rw [h'.same, hk l', h.same, ← hk]

/-- The test is that of the keys, where `b` is behind `a`. -/
def Agrees (key : α → κ) (comp : α → α → Bool) (a b : α) : Prop :=
  comp b a = decide (key b < key a)

/-! ## Insertion -/

/-- What is behind the place of a new element comes behind it, and the rest does not. -/
theorem insertLast_eq (hsorted : l'.Pairwise fun a b => key a ≤ key b) {x : α}
    (hx : ∀ a ∈ l', Agrees key comp a x) :
    ∃ m₁ m₂, l' = m₁ ++ m₂ ∧ insertLast comp l' x = m₁ ++ x :: m₂ ∧
      (∀ a ∈ m₁, key a ≤ key x) ∧ ∀ a ∈ m₂, key x < key a := by
  unfold StableSort.insertLast
  rcases l' with _ | ⟨first, rest⟩
  · exact ⟨[], [], rfl, rfl, by simp, by simp⟩
  dsimp only
  split_ifs with hfirst
  · have hlt : key x < key first := by
      rw [hx first List.mem_cons_self] at hfirst
      exact of_decide_eq_true hfirst
    refine ⟨[], first :: rest, rfl, rfl, by simp, fun a ha => ?_⟩
    rcases List.mem_cons.mp ha with rfl | ha
    · exact hlt
    · exact hlt.trans_le ((List.pairwise_cons.mp hsorted).1 a ha)
  · generalize hl : first :: rest = l at hsorted hx ⊢
    have happend : l = (l.reverse.dropWhile (comp x)).reverse ++
        (l.reverse.takeWhile (comp x)).reverse := by
      rw [← List.reverse_append, List.takeWhile_append_dropWhile, List.reverse_reverse]
    refine ⟨_, _, happend, rfl, fun a ha => ?_, fun a ha => ?_⟩
    · -- the last element that stays in front does not come behind the new one
      rw [List.mem_reverse] at ha
      rcases hd : l.reverse.dropWhile (comp x) with _ | ⟨b, m⟩
      · rw [hd] at ha
        exact absurd ha List.not_mem_nil
      · have hb : comp x b = false := by
          have hhead := List.head?_dropWhile_not (comp x) l.reverse
          rw [hd] at hhead
          simpa using hhead
        have hbl : b ∈ l := by
          rw [← List.mem_reverse]
          apply List.dropWhile_subset (comp x)
          rw [hd]
          exact List.mem_cons_self
        have hbx : key b ≤ key x := by
          rw [hx b hbl] at hb
          exact not_lt.mp (of_decide_eq_false hb)
        rw [hd] at ha
        rcases List.mem_cons.mp ha with rfl | ha
        · exact hbx
        · have hs := hsorted
          rw [happend, hd, List.pairwise_append, List.pairwise_reverse,
            List.pairwise_cons] at hs
          exact (hs.1.1 a ha).trans hbx
    · rw [List.mem_reverse] at ha
      have hal : a ∈ l := by
        rw [← List.mem_reverse]
        exact List.takeWhile_subset _ ha
      have hcomp := List.mem_takeWhile_imp ha
      rw [hx a hal] at hcomp
      exact of_decide_eq_true hcomp

theorem StablySorted.insertLast (h : StablySorted key l l') {x : α}
    (hx : ∀ a ∈ l, Agrees key comp a x) :
    StablySorted key (l ++ [x]) (insertLast comp l' x) := by
  obtain ⟨m₁, m₂, hm, heq, hle, hlt⟩ :=
    insertLast_eq h.sorted fun a ha => hx a (h.mem.mp ha)
  rw [heq]
  have hsorted := h.sorted
  rw [hm, List.pairwise_append] at hsorted
  obtain ⟨h₁, h₂, h₁₂⟩ := hsorted
  refine ⟨?_, fun k => ?_⟩
  · rw [List.pairwise_append, List.pairwise_cons]
    refine ⟨h₁, ⟨fun b hb => (hlt b hb).le, h₂⟩, fun a ha b hb => ?_⟩
    rcases List.mem_cons.mp hb with rfl | hb
    · exact hle a ha
    · exact h₁₂ a ha b hb
  · have hsame := h.same k
    rw [hm, List.filter_append] at hsame
    rw [List.filter_append, List.filter_append, ← hsame]
    by_cases hk : key x = k
    · -- no element with the same key is behind the new one
      have hnil : m₂.filter (fun a => key a = k) = [] := by
        rw [List.filter_eq_nil_iff]
        intro a ha
        simpa using (hk ▸ hlt a ha).ne'
      simp [hk, hnil]
    · simp [hk]

/-! ## Merging -/

theorem mergeParts_eq (h : ∀ a ∈ l₁, ∀ b ∈ l₂, Agrees key comp a b) :
    mergeParts comp l₁ l₂ = List.merge l₁ l₂ fun a b => decide (key a ≤ key b) := by
  unfold mergeParts
  induction l₁ generalizing l₂ with
  | nil => rw [List.nil_merge, List.nil_merge]
  | cons a l₁ ih₁ =>
    induction l₂ with
    | nil => rw [List.merge_right, List.merge_right]
    | cons b l₂ ih₂ =>
      have htest : (!comp b a) = decide (key a ≤ key b) := by
        rw [h a List.mem_cons_self b List.mem_cons_self, ← decide_not]
        simp only [not_lt]
      have hleft := @ih₁ (b :: l₂) fun a' ha' => h a' (List.mem_cons_of_mem a ha')
      have hright := ih₂ fun a' ha' b' hb' => h a' ha' b' (List.mem_cons_of_mem b hb')
      rw [List.cons_merge_cons, List.cons_merge_cons, htest, hleft, hright]

theorem filter_merge (h₁ : l₁.Pairwise fun a b => key a ≤ key b) (k : κ) :
    (List.merge l₁ l₂ fun a b => decide (key a ≤ key b)).filter (fun a => key a = k) =
      l₁.filter (fun a => key a = k) ++ l₂.filter fun a => key a = k := by
  induction l₁ generalizing l₂ with
  | nil => rw [List.nil_merge, List.filter_nil, List.nil_append]
  | cons a l₁ ih₁ =>
    induction l₂ with
    | nil => rw [List.merge_right, List.filter_nil, List.append_nil]
    | cons b l₂ ih₂ =>
      obtain ⟨ha, hl₁⟩ := List.pairwise_cons.mp h₁
      by_cases hab : key a ≤ key b
      · rw [List.cons_merge_cons_pos _ _ _ (decide_eq_true hab), List.filter_cons, ih₁ hl₁]
        split_ifs with hk
        · rw [List.filter_cons_of_pos (p := fun a => key a = k) hk, List.cons_append]
        · rw [List.filter_cons_of_neg (p := fun a => key a = k) hk]
      · rw [List.cons_merge_cons_neg _ _ _ (by simpa using hab), List.filter_cons, ih₂]
        split_ifs with hk
        · -- the first part has no element with the key of `b`
          have hnil : (a :: l₁).filter (fun a => key a = k) = [] := by
            rw [List.filter_eq_nil_iff]
            have hka : k < key a := of_decide_eq_true hk ▸ not_le.mp hab
            intro c hc
            rcases List.mem_cons.mp hc with rfl | hc
            · simpa using hka.ne'
            · simpa using (hka.trans_le (ha c hc)).ne'
          rw [hnil, List.filter_cons_of_pos (p := fun a => key a = k) hk]
          rfl
        · rw [List.filter_cons_of_neg (p := fun a => key a = k) (a := b) hk]

theorem StablySorted.mergeParts (h₁ : StablySorted key l₁ l₁') (h₂ : StablySorted key l₂ l₂')
    (h : ∀ a ∈ l₁, ∀ b ∈ l₂, Agrees key comp a b) :
    StablySorted key (l₁ ++ l₂) (mergeParts comp l₁' l₂') := by
  rw [mergeParts_eq fun a ha b hb => h a (h₁.mem.mp ha) b (h₂.mem.mp hb)]
  refine ⟨?_, fun k => ?_⟩
  · have htrans : ∀ a b c : α, decide (key a ≤ key b) = true → decide (key b ≤ key c) = true →
        decide (key a ≤ key c) = true := fun a b c hab hbc =>
      decide_eq_true ((of_decide_eq_true hab).trans (of_decide_eq_true hbc))
    have htotal : ∀ a b : α, (decide (key a ≤ key b) || decide (key b ≤ key a)) = true :=
      fun a b => by simpa using le_total (key a) (key b)
    have hmerge := List.pairwise_merge htrans htotal l₁' l₂'
      (h₁.sorted.imp fun hab => decide_eq_true hab) (h₂.sorted.imp fun hab => decide_eq_true hab)
    exact hmerge.imp fun hab => of_decide_eq_true hab
  · rw [filter_merge h₁.sorted, h₁.same, h₂.same, List.filter_append]

/-! ## The sort -/

theorem stablySorted_insertionSort (h : l.Pairwise (Agrees key comp)) :
    StablySorted key l (insertionSort comp l) := by
  unfold insertionSort
  induction l using List.reverseRecOn with
  | nil => exact ⟨List.Pairwise.nil, fun _ => rfl⟩
  | append_singleton l x ih =>
    obtain ⟨hl, -, hx⟩ := List.pairwise_append.mp h
    rw [List.foldl_append]
    exact (ih hl).insertLast fun a ha => hx a ha x (List.mem_singleton_self x)

/-- **Whatever the plan**, the sort is stable by the keys with which the test agrees. -/
theorem stablySorted_stableSort (p : Plan) (h : l.Pairwise (Agrees key comp)) :
    StablySorted key l (stableSort comp p l) := by
  induction p generalizing l with
  | run => exact stablySorted_insertionSort h
  | parts n p q ihp ihq =>
    have hparts := h
    rw [← List.take_append_drop n l, List.pairwise_append] at hparts
    obtain ⟨htake, hdrop, hboth⟩ := hparts
    have hmerge := (ihp htake).mergeParts (ihq hdrop) hboth
    rwa [List.take_append_drop] at hmerge

end StableSort
