import Mathlib.Tactic.Common

/-!
# Runs of a partial step function

`next s i` is the state after the step `i` in the state `s`, if the step can be taken there.

* `Reach next ok s₀`: the states reached from `s₀` by steps that all meet `ok`.
* `exec`, `execOk`: a list of steps run one after the other; `reach_of_execOk`,
  `reach_of_execOk_append`, `exists_of_execOk`: it leads to states reached.
* `Run`: the steps of a list lead from one state to another one, and all meet `ok`;
  `Run.countdown`: a bound that the steps of one kind lower is lowered by their number.
* `Reach.inv`: what holds at `s₀` and is kept by every step that meets `ok` holds in every state
  reached.
* `Reach.inv₂`: an invariant proved with the help of another one.
-/

namespace Machine

variable {σ ι : Type*} (next : σ → ι → Option σ)

/-- The states reached from `s₀` by steps that all meet `ok`. -/
inductive Reach (ok : σ → ι → Prop) (s₀ : σ) : σ → Prop
  | refl : Reach ok s₀ s₀
  | tail {s t : σ} {i : ι} : Reach ok s₀ s → ok s i → next s i = some t → Reach ok s₀ t

/-- The steps `l` lead from one state to another one, and all meet `ok`. -/
inductive Run (ok : σ → ι → Prop) : List ι → σ → σ → Prop
  | nil (s : σ) : Run ok [] s s
  | cons {i : ι} {l : List ι} {s t u : σ} : ok s i → next s i = some t → Run ok l t u →
      Run ok (i :: l) s u

/-- No condition on the steps. -/
def anyStep : σ → ι → Prop := fun _ _ => True

/-- The state after the steps `l`, if they can all be taken. -/
def exec : σ → List ι → Option σ
  | s, [] => some s
  | s, i :: l =>
    match next s i with
    | some t => exec t l
    | none => none

/-- The steps `l` can all be taken and each meets `ok`. -/
def execOk (ok : σ → ι → Prop) [∀ s i, Decidable (ok s i)] : σ → List ι → Bool
  | _, [] => true
  | s, i :: l =>
    match next s i with
    | some t => decide (ok s i) && execOk ok t l
    | none => false

variable {next} {ok ok' : σ → ι → Prop} {s₀ s t : σ}

theorem Reach.mono (h : Reach next ok s₀ s) (hok : ∀ s i, ok s i → ok' s i) :
    Reach next ok' s₀ s := by
  induction h with
  | refl => exact .refl
  | tail _ ho hn ih => exact .tail ih (hok _ _ ho) hn

theorem Reach.any (h : Reach next ok s₀ s) : Reach next anyStep s₀ s :=
  h.mono fun _ _ _ => trivial

theorem Reach.trans (h : Reach next ok s₀ s) (h' : Reach next ok s t) : Reach next ok s₀ t := by
  induction h' with
  | refl => exact h
  | tail _ ho hn ih => exact .tail ih ho hn

/-- **The invariant rule.** -/
theorem Reach.inv (I : σ → Prop) (h₀ : I s₀)
    (hstep : ∀ s i t, I s → ok s i → next s i = some t → I t) (h : Reach next ok s₀ s) : I s := by
  induction h with
  | refl => exact h₀
  | tail _ ho hn ih => exact hstep _ _ _ ih ho hn

/-- The invariant rule, in the states where another invariant is already known. -/
theorem Reach.inv₂ (J I : σ → Prop) (hJ : ∀ s, Reach next ok s₀ s → J s) (h₀ : I s₀)
    (hstep : ∀ s i t, J s → J t → I s → ok s i → next s i = some t → I t)
    (h : Reach next ok s₀ s) : I s := by
  induction h with
  | refl => exact h₀
  | tail hr ho hn ih => exact hstep _ _ _ (hJ _ hr) (hJ _ (.tail hr ho hn)) ih ho hn

/-- The steps of a list are a fold that may fail. -/
theorem exec_eq_foldlM (l : List ι) (s : σ) : exec next s l = l.foldlM next s := by
  induction l generalizing s with
  | nil => rfl
  | cons i l ih =>
    rw [exec, List.foldlM_cons]
    cases next s i with
    | none => rfl
    | some t => exact ih t

theorem reach_of_exec {l : List ι} (h : exec next s l = some t) : Reach next anyStep s t := by
  induction l generalizing s with
  | nil =>
    rw [exec, Option.some.injEq] at h
    exact h ▸ .refl
  | cons i l ih =>
    rw [exec] at h
    split at h
    · rename_i u hu
      exact (Reach.tail .refl trivial hu).trans (ih h)
    · cases h

theorem Run.reach {l : List ι} (h : Run next ok l s t) : Reach next ok s t := by
  induction h with
  | nil => exact .refl
  | cons ho hn _ ih => exact (Reach.tail .refl ho hn).trans ih

/-- **The countdown rule**: `I` holds with a bound, every step keeps it, and the steps that meet `p`
lower the bound. -/
theorem Run.countdown {l : List ι} (p : ι → Bool) (I : ℕ → σ → Prop)
    (hkeep : ∀ n s i t, I n s → p i = false → ok s i → next s i = some t → I n t)
    (hlower : ∀ n s i t, I n s → p i = true → ok s i → next s i = some t → I (n - 1) t)
    (h : Run next ok l s t) {n : ℕ} (hs : I n s) : I (n - l.countP p) t := by
  induction h generalizing n with
  | nil => exact hs
  | cons ho hn _ ih =>
    rcases hp : p _ with _ | _
    · rw [List.countP_cons_of_neg (Bool.eq_false_iff.mp hp)]
      exact ih (hkeep _ _ _ _ hs hp ho hn)
    · rw [List.countP_cons_of_pos hp, Nat.add_comm, ← Nat.sub_sub]
      exact ih (hlower _ _ _ _ hs hp ho hn)

theorem run_of_execOk [∀ s i, Decidable (ok s i)] {l : List ι} (ho : execOk next ok s l = true)
    (h : exec next s l = some t) : Run next ok l s t := by
  induction l generalizing s with
  | nil =>
    rw [exec, Option.some.injEq] at h
    exact h ▸ .nil s
  | cons i l ih =>
    rw [exec] at h
    rw [execOk] at ho
    split at h
    · rename_i u hu
      rw [hu] at ho
      simp only [Bool.and_eq_true, decide_eq_true_eq] at ho
      exact .cons ho.1 hu (ih ho.2 h)
    · cases h

/-- A list of steps that all meet `ok` leads to a state reached under `ok`. -/
theorem reach_of_execOk [∀ s i, Decidable (ok s i)] {l : List ι} (ho : execOk next ok s l = true)
    (h : exec next s l = some t) : Reach next ok s t :=
  (run_of_execOk ho h).reach

/-- A run that is checked in one evaluation: its steps can all be taken and meet `ok`, and `f` of the
last state is `v`. -/
theorem exists_of_execOk [∀ s i, Decidable (ok s i)] {β : Type*} {f : σ → β} {v : β} {l : List ι}
    (h : execOk next ok s l = true ∧ (exec next s l).map f = some v) :
    ∃ t, exec next s l = some t ∧ Reach next ok s t ∧ f t = v := by
  obtain ⟨ho, hv⟩ := h
  obtain ⟨t, ht, hf⟩ := Option.map_eq_some_iff.mp hv
  exact ⟨t, ht, reach_of_execOk ho ht, hf⟩

/-- If all steps of a list meet `ok`, the first ones lead to a state reached under `ok`. -/
theorem reach_of_execOk_append [∀ s i, Decidable (ok s i)] {l l' : List ι}
    (ho : execOk next ok s (l ++ l') = true) :
    ∃ t, exec next s l = some t ∧ Reach next ok s t := by
  induction l generalizing s with
  | nil => exact ⟨s, rfl, .refl⟩
  | cons i l ih =>
    rw [List.cons_append, execOk] at ho
    rw [exec]
    split at ho
    · rename_i u hu
      simp only [Bool.and_eq_true, decide_eq_true_eq] at ho
      obtain ⟨t, ht, hreach⟩ := ih ho.2
      exact ⟨t, ht, (Reach.tail .refl ho.1 hu).trans hreach⟩
    · cases ho

end Machine
