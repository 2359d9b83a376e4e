import AutoRec.Rec.FollowUp

/-!
# Repeated reserves

A daily or weekly reserve is to be followed by its successor when it leaves `reserves_`. The
successor goes through `add_reserve` while the old reserve is still in the table or already in
`recordings_`, so that its key is refused.

* `Leaves`: the three ways out; `Renewed`: exactly one successor is there afterwards.
* `leaves_gone`: no reserve with the key is left.
* `not_renewed`: a repeated reserve is never renewed.
-/

namespace AutoRec

open Slots

variable {settings : Settings}

/-- `r'` repeats `r`, one day or one week later. -/
def IsSuccessor (r r' : Reserve) : Prop :=
  r'.isUsed = true ∧ r'.key = r.key ∧ r'.repeatability = r.repeatability ∧
    match r.repeatability with
    | .daily => r'.startTime = r.startTime.addDay 1 ∧ r'.endTime = r.endTime.addDay 1
    | .weekly => r'.startTime = r.startTime.addDay 7 ∧ r'.endTime = r.endTime.addDay 7
    | .none | .auto => False

/-- **Exactly one successor** of `r` is in the table. -/
def Renewed (r : Reserve) (v : Vector Reserve reserveNumMax) : Prop :=
  ∃! k : Fin reserveNumMax, IsSuccessor r v[k]

/-- A reserve leaves `reserves_`, and the manager afterwards. -/
inductive Leaves (m : RecManager) : Reserve → RecManager → Prop
  | picked (g : Group) (i : Fin reserveNumMax) : m.reqStartRecordingReserve = some i →
      Leaves m m.reserves[i] (m.pickReqStartRecordingReserve g).2
  | passed (now : ℤ) (i : Fin reserveNumMax) :
      RecManager.IsExpired (Etime.setCurrentTime now) m.reserves i →
      Leaves m m.reserves[i] (m.checkReserves now)
  | removed (index : ℤ) (i : Fin reserveNumMax) (isApplyResult b : Bool) (m' : RecManager) :
      index = i → m.reserves[i].isUsed = true →
      m.removeReserve index true isApplyResult = some (b, m') → Leaves m m.reserves[i] m'

theorem checkReserves_gone {m : RecManager} (hI : ReservesInv m.reserves) {now : ℤ}
    {i : Fin reserveNumMax}
    (hi : RecManager.IsExpired (Etime.setCurrentTime now) m.reserves i) (k : ℕ)
    (hk : k < reserveNumMax) (hu : (m.checkReserves now).reserves[k].isUsed = true) :
    (m.checkReserves now).reserves[k].key ≠ m.reserves[i].key := by
  rw [RecManager.checkReserves_reserves] at hu ⊢
  have hz : RecManager.isFlagged .endErrorAlreadyPassed Reserve.clear = false := rfl
  have hflag := sweep_not (v := RecManager.checkedTable (Etime.setCurrentTime now) m.reserves) hz k hk
  rcases sweep_mem (p := RecManager.isFlagged .endErrorAlreadyPassed) (z := Reserve.clear)
    (v := RecManager.checkedTable (Etime.setCurrentTime now) m.reserves) k hk with hc | ⟨j, hj, hc⟩
  · rw [hc] at hu
    cases hu
  · -- the entry was in slot `j` before; if it had the key, `j` would be the slot marked as passed
    rw [hc] at hu hflag ⊢
    intro hkey
    rw [RecManager.checkedTable_isUsed] at hu
    rw [RecManager.checkedTable_key] at hkey
    obtain rfl : j = i := hI.distinct.eq hj i.2 hu hi.1 hkey
    have hpassed : (m.reserves[(i : ℕ)].isUsed &&
        RecManager.isPassed (Etime.setCurrentTime now) m.reserves[(i : ℕ)]) = true :=
      Bool.and_eq_true_iff.mpr ⟨hu, hi.2.1⟩
    rw [RecManager.checkedTable, Vector.getElem_ofFn, if_pos hi.2.2, RecManager.checkedReserve,
      getElem_slot, if_pos hpassed, RecManager.isFlagged, Reserve.mark_isUsed, hu,
      Reserve.mark_state, Flag.has_or] at hflag
    simp only [Bool.true_and, Bool.or_eq_false_iff] at hflag
    exact absurd hflag.2 (by decide)

/-- **What leaves is gone**: no reserve with its key is in the table afterwards. -/
theorem leaves_gone {m m' : RecManager} {r : Reserve} (hI : ReservesInv m.reserves)
    (h : Leaves m r m') (k : ℕ) (hk : k < reserveNumMax) (hu : m'.reserves[k].isUsed = true) :
    m'.reserves[k].key ≠ r.key := by
  cases h with
  | picked g i hi =>
    obtain ⟨-, hp, -⟩ := firstFrom_some hi
    have hui : m.reserves[(i : ℕ)].isUsed = true := (Bool.and_eq_true_iff.mp hp).1
    simp only [m.pick_eq g hi] at hu ⊢
    exact hI.distinct.removeAt_gone i.2 hui rfl k hk hu
  | passed now i hi => exact checkReserves_gone hI hi k hk hu
  | removed index i p b m' hn hui hm =>
    subst hn
    have hlt : ¬ ((i : ℕ) : ℤ) ≥ reserveNumMax := by
      have := i.2
      omega
    have hm' : m.removeReserveAt i true p = m' := by
      rw [RecManager.removeReserve, if_neg hlt, dif_pos ⟨by omega, by simp⟩] at hm
      cases hm
      rfl
    subst hm'
    simp only [(m.removeReserveAt_spec i true p (.inl hui)).1] at hu ⊢
    exact hI.distinct.removeAt_gone i.2 hui rfl k hk hu

/-- **A repeated reserve is never renewed.** -/
theorem not_renewed {s : Table}
    (h : Machine.Reach Table.next Machine.anyStep (Table.initial settings) s) {r : Reserve}
    {m' : RecManager} (hl : Leaves s.mgr r m') : ¬ Renewed r m'.reserves := by
  rintro ⟨k, ⟨hu, hkey, -⟩, -⟩
  exact leaves_gone (Table.reach_reservesInv h) hl k k.2 hu hkey

/-- A daily reserve, added by hand. -/
def dailyRun : List TableOp :=
  [.add (.manual ⟨⟨1, 2, 3, 0⟩, ⟨100, 0⟩, ⟨200, 0⟩, .daily⟩ true none)]

theorem dailyRun_removed :
    (Machine.exec Table.next (Table.initial .oneTuner) dailyRun).bind (fun s =>
      (s.mgr.removeReserve 0 true false).map fun r =>
        (s.mgr.reserves[0].isUsed, s.mgr.reserves[0].repeatability,
          r.2.reserves.toList.any Reserve.isUsed)) = some (true, .daily, false) := by
  decide

theorem dailyRun_leaves : ∃ s r m',
    Machine.Reach Table.next Machine.anyStep (Table.initial .oneTuner) s ∧
      r.repeatability = .daily ∧ Leaves s.mgr r m' ∧ m'.reserves.toList.any Reserve.isUsed = false := by
  obtain ⟨s, hs, hr⟩ := Option.bind_eq_some_iff.mp dailyRun_removed
  obtain ⟨⟨b, m'⟩, hm, hv⟩ := Option.map_eq_some_iff.mp hr
  simp only [Prod.mk.injEq] at hv
  obtain ⟨hu, hd, hany⟩ := hv
  exact ⟨s, _, m', Machine.reach_of_exec hs, hd, .removed 0 0 false b m' rfl hu hm, hany⟩

theorem not_renewed_dailyRun : ∃ s r m', r.repeatability = .daily ∧ Leaves (Table.mgr s) r m' ∧
    ¬ Renewed r m'.reserves := by
  obtain ⟨s, r, m', hs, hd, hl, -⟩ := dailyRun_leaves
  exact ⟨s, r, m', hd, hl, not_renewed hs hl⟩

/-- **Not every repeated reserve is renewed**: after `dailyRun`, the removal leaves an empty table.
-/
theorem not_forall_renewed :
    ¬ ∀ settings s r m', Machine.Reach Table.next Machine.anyStep (Table.initial settings) s →
      r.repeatability = .daily ∨ r.repeatability = .weekly → Leaves s.mgr r m' →
      Renewed r m'.reserves := by
  intro h
  obtain ⟨s, r, m', hs, hd, hl, hany⟩ := dailyRun_leaves
  obtain ⟨k, ⟨hu, -⟩, -⟩ := h _ s r m' hs (.inl hd) hl
  rw [List.any_eq_false] at hany
  exact hany _ (Vector.mem_toList_iff.mpr (Vector.getElem_mem k.2)) hu

end AutoRec
