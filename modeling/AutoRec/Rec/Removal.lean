import AutoRec.Rec.Insertion

/-!
# What `remove_reserve` takes out

The index comes from the command line; `remove_reserve` compares it with `RESERVE_NUM_MAX` only.

* `Denotes`: the index is that of a used entry.
* `Gains`, `setResult_gains`: `set_result` keeps the last twenty results.
* `RemovesByIndex`: the removal succeeds for such an index only, and takes out that entry.
* **`removesByIndex_iff`**, `not_removesByIndex`: it does so for the indices of used entries and for
  those above the table; a free slot is removed as well.
-/

namespace AutoRec

open Slots

/-- The used entries of `results_`, in their order. -/
def usedResults (v : Vector Reserve resultNumMax) : List Reserve := entries Reserve.isUsed v

/-- **One more result**: the oldest goes if twenty are stored, all the others are kept. -/
def Gains (v : Vector Reserve resultNumMax) (e : Reserve) (w : Vector Reserve resultNumMax) :
    Prop :=
  if (usedResults v).length = resultNumMax then usedResults w = (usedResults v).tail ++ [e]
  else ∃ l₁ l₂, usedResults v = l₁ ++ l₂ ∧ usedResults w = l₁ ++ e :: l₂

namespace RecManager

variable (m : RecManager)

/-- The index denotes a used entry. -/
def Denotes (index : ℤ) : Prop :=
  0 ≤ index ∧ ∃ h : index.toNat < reserveNumMax, m.reserves[index.toNat].isUsed = true

/-- The entry of the index has gone, and it is a result if that has been asked for. -/
def Removed (index : ℤ) (isApplyResult : Bool) (m' : RecManager) : Prop :=
  usedReserves m'.reserves = (usedReserves m.reserves).eraseIdx index.toNat ∧
    if isApplyResult then
      ∃ e ∈ (usedReserves m.reserves)[index.toNat]?,
        Gains m.results (e.mark .removed) m'.results
    else m'.results = m.results

/-- **Removal by index**: `remove_reserve` stays within the table; it returns true if and only if
the index denotes a used entry, then exactly this entry has gone; if it returns false, the tables
are as they were. -/
def RemovesByIndex (index : ℤ) (isApplyResult : Bool) : Prop :=
  ∃ r ∈ m.removeReserve index false isApplyResult,
    (r.1 = true ↔ m.Denotes index) ∧
      (r.1 = true → m.Removed index isApplyResult r.2) ∧
      (r.1 = false → r.2.reserves = m.reserves ∧ r.2.results = m.results)

variable {m}

/-- **`set_result`** keeps the last twenty results. -/
theorem setResult_gains {e : Reserve} (he : e.isUsed = true) :
    Gains m.results e (m.setResult e).results := by
  unfold Gains
  rcases hf : firstFrom (fun r => !r.isUsed) m.results 0 with _ | i
  · have hall : ∀ k (hk : k < resultNumMax), m.results[k].isUsed = true := fun k hk => by
      simpa using firstFrom_none hf k hk (Nat.zero_le k)
    have hset : (m.setResult e).results = removeAt m.results 0 e := by
      simp only [setResult, hf]
      ext1 k hk
      rw [removeAt, Vector.getElem_set, Vector.getElem_setIfInBounds]
    have hfull : (usedResults m.results).length = resultNumMax := length_entries_eq_iff.mpr hall
    have htail : (m.results.toList.drop 1).filter Reserve.isUsed = m.results.toList.tail := by
      rw [List.filter_eq_self.mpr fun x hx => ?_, List.drop_one]
      obtain ⟨k, hk, rfl⟩ :=
        Vector.mem_iff_getElem.mp (Vector.mem_toList_iff.mp (List.mem_of_mem_drop hx))
      exact hall k hk
    rw [if_pos hfull, hset, usedResults, entries_removeAt_append (by decide) he, htail,
      usedResults, entries_eq_toList hall]
    rfl
  · obtain ⟨-, hfree, -⟩ := firstFrom_some hf
    have hfi : m.results[(i : ℕ)].isUsed = false := by simpa using hfree
    have hset : (m.setResult e).results = m.results.set i e i.isLt := by
      simp only [setResult, hf]
    have hfull : (usedResults m.results).length ≠ resultNumMax := by
      intro h
      rw [length_entries_eq_iff.mp h i i.2] at hfi
      cases hfi
    rw [if_neg hfull, hset]
    exact ⟨_, _, entries_eq_append m.results i, entries_set i.2 he hfi⟩

theorem getElem?_usedReserves (hp : Packed Reserve.isUsed m.reserves) {i : ℕ}
    (hi : i < reserveNumMax) (hu : m.reserves[i].isUsed = true) :
    (usedReserves m.reserves)[i]? = some m.reserves[i] := by
  have hlen : (m.reserves.toList.take i).length = i := by simp; omega
  have hdrop : m.reserves.toList.drop i = m.reserves[i] :: m.reserves.toList.drop (i + 1) := by
    rw [List.drop_eq_getElem_cons (by simpa using hi), Vector.getElem_toList]
  rw [usedReserves, entries_eq_append m.reserves i, hp.filter_take hi hu, hdrop,
    List.filter_cons_of_pos hu, List.getElem?_append_right (by omega), hlen, Nat.sub_self]
  rfl

theorem removeReserve_of_lt {i : ℕ} (hi : i < reserveNumMax) (c p : Bool) :
    m.removeReserve i c p = some (true, m.removeReserveAt ⟨i, hi⟩ c p) := by
  have hnot : ¬ (i : ℤ) ≥ reserveNumMax := by omega
  have hin : 0 ≤ (i : ℤ) ∧ (i : ℤ).toNat < reserveNumMax := ⟨by omega, by simpa using hi⟩
  rw [removeReserve, if_neg hnot, dif_pos hin]
  rfl

theorem removeReserveAt_results (i : Fin reserveNumMax) (p : Bool) :
    (m.removeReserveAt i false p).results =
      if p then (m.setResult (m.reserves[i].mark .removed)).results else m.results := by
  unfold removeReserveAt
  cases p
  · rfl
  · have hi : (m.updReserve i (·.mark .removed)).reserves[i] = m.reserves[i].mark .removed := by
      simp only [getElem_slot, updReserve_reserves, Vector.getElem_set_self]
    simp only [if_true, hi]
    unfold removeSlot setResult
    simp only [updReserve, Bool.false_eq_true, if_false]
    split <;> rfl

/-- **A used entry is removed.** -/
theorem removed_of_denotes (hp : Packed Reserve.isUsed m.reserves) {i : ℕ} (hi : i < reserveNumMax)
    (hu : m.reserves[i].isUsed = true) (p : Bool) :
    m.Removed i p (m.removeReserveAt ⟨i, hi⟩ false p) := by
  have hv := (m.removeReserveAt_spec ⟨i, hi⟩ false p (.inl hu)).1
  refine ⟨?_, ?_⟩
  · rw [hv, Int.toNat_natCast]
    exact hp.entries_removeAt hi hu rfl
  · rw [removeReserveAt_results, Int.toNat_natCast]
    cases p
    · rfl
    · exact ⟨_, getElem?_usedReserves hp hi hu, setResult_gains hu⟩

/-- **What is removed by index**: as it should be, exactly for the indices of used entries and for
those that are too large. -/
theorem removesByIndex_iff (m : RecManager) (hp : Packed Reserve.isUsed m.reserves) (index : ℤ)
    (isApplyResult : Bool) :
    m.RemovesByIndex index isApplyResult ↔ m.Denotes index ∨ reserveNumMax ≤ index := by
  rcases Int.lt_or_le index 0 with hneg | hpos
  · -- an access in front of the table
    have hnone : m.removeReserve index false isApplyResult = none := by
      rw [removeReserve, if_neg (by omega), dif_neg (by omega)]
    constructor
    · rintro ⟨r, hr, -⟩
      rw [hnone] at hr
      cases hr
    · rintro (h | h)
      · exact absurd h.1 (by omega)
      · omega
  obtain ⟨i, rfl⟩ := Int.eq_ofNat_of_zero_le hpos
  by_cases hi : i < reserveNumMax
  · have hr := removeReserve_of_lt (m := m) hi false isApplyResult
    constructor
    · rintro ⟨r, hrm, hiff, -⟩
      rw [hr] at hrm
      cases hrm
      exact .inl (hiff.mp rfl)
    · rintro (h | h)
      · obtain ⟨-, _, hu⟩ := id h
        refine ⟨_, hr, ⟨fun _ => h, fun _ => rfl⟩, fun _ => ?_, fun hf => ?_⟩
        · exact removed_of_denotes hp hi hu isApplyResult
        · cases hf
      · omega
  · have hr : m.removeReserve i false isApplyResult = some (false, m) := by
      rw [removeReserve, if_pos (by omega)]
    refine ⟨fun _ => .inr (by omega), fun _ => ⟨_, hr, ⟨fun hf => ?_, ?_⟩, fun hf => ?_, ?_⟩⟩
    · cases hf
    · rintro ⟨-, hlt, -⟩
      exact absurd hlt hi
    · cases hf
    · exact fun _ => ⟨rfl, rfl⟩

/-- The second of two reserves is removed. -/
theorem removesByIndex_iff_twoReserves :
    twoReserves.reserves[1].isUsed = true ∧ twoReserves.RemovesByIndex 1 true := by
  have hI : OrderInv twoReserves.reserves := (OrderInv.initial.addReserve _ _).addReserve _ _
  have hu : twoReserves.reserves[1].isUsed = true := by decide
  exact ⟨hu, (removesByIndex_iff twoReserves hI.packed 1 true).mpr
    (.inl ⟨by decide, by decide, hu⟩)⟩

/-- **A free slot is removed as well**: index 0 of an empty table. -/
theorem not_removesByIndex :
    ¬ ∀ (m : RecManager) (index : ℤ) (isApplyResult : Bool), Packed Reserve.isUsed m.reserves →
      m.RemovesByIndex index isApplyResult := by
  intro h
  obtain ⟨r, hr, hiff, -⟩ := h (.initial .oneTuner) 0 true OrderInv.initial.packed
  have hm : (RecManager.initial .oneTuner).removeReserve 0 false true = some (true, _) :=
    removeReserve_of_lt (i := 0) (by decide) false true
  rw [Option.mem_def.mp hr] at hm
  have hr1 : r.1 = true := by
    cases hm
    rfl
  obtain ⟨-, _, hu⟩ := hiff.mp hr1
  have hz : (RecManager.initial .oneTuner).reserves = .replicate _ Reserve.clear := rfl
  simp [hz] at hu

end RecManager

end AutoRec
