import Mathlib.Algebra.GroupWithZero.Nat
import Mathlib.Tactic.Common

/-!
# The tuners

* `groupMax`, `Group`: each tuner has one module of each kind, its group (`group.h`).
* `resizeTunerHalAllocates`: the settings have at most as many tuners (`settings.h`).
-/

namespace AutoRec

/-- `group::GROUP_MAX`. -/
abbrev groupMax : ℕ := 4

/-- A tuner, and the recording slot that belongs to it. -/
abbrev Group : Type := Fin groupMax

instance instNeZeroGroupMax : NeZero groupMax := ⟨by decide⟩

/-- `resize_tuner_hal_allocates`, with which `settings::load` ends. -/
def resizeTunerHalAllocates (tunerHalAllocates : List String) : List String :=
  if groupMax < tunerHalAllocates.length then tunerHalAllocates.take groupMax else tunerHalAllocates

theorem length_resizeTunerHalAllocates (l : List String) :
    (resizeTunerHalAllocates l).length = min l.length groupMax := by
  rw [resizeTunerHalAllocates]
  by_cases hlt : groupMax < l.length
  · rw [if_pos hlt, List.length_take, Nat.min_comm]
  · rw [if_neg hlt, Nat.min_eq_left (by omega)]

end AutoRec
