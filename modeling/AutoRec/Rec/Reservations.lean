import AutoRec.Rec.Manager

/-!
# What the functions on the reservations do

One lemma for each function of `Rec/Manager`, so that no later proof unfolds them.

* `Placed`, `addReserve_spec`: an accepted reserve is put in front of the first later one, or into
  the first free slot; a refused one changes nothing.
* `checkRepeatability_eq_self`: no successor is put in while the key is reserved or being recorded.
* `isExpired`, `checkReservesLoop_getElem`: what the check of the reservations marks.
* `refreshReserves_reserves`, `removeReserveAt_reserves`, `pick_reserves`: what goes.
-/

namespace AutoRec

open Slots

namespace RecManager

variable (m : RecManager)

/-! ## The other tables stay -/

@[simp] theorem updReserve_reserves (i : Fin reserveNumMax) (f : Reserve → Reserve) :
    (m.updReserve i f).reserves = m.reserves.set i (f m.reserves[i]) i.isLt := rfl

@[simp] theorem updReserve_recordings (i : Fin reserveNumMax) (f : Reserve → Reserve) :
    (m.updReserve i f).recordings = m.recordings := rfl

@[simp] theorem updReserve_recInstances (i : Fin reserveNumMax) (f : Reserve → Reserve) :
    (m.updReserve i f).recInstances = m.recInstances := rfl

@[simp] theorem updReserve_settings (i : Fin reserveNumMax) (f : Reserve → Reserve) :
    (m.updReserve i f).settings = m.settings := rfl

@[simp] theorem removeSlot_reserves (i : ℕ) :
    (m.removeSlot i).reserves = removeAt m.reserves i Reserve.clear := rfl

@[simp] theorem removeSlot_recordings (i : ℕ) : (m.removeSlot i).recordings = m.recordings := rfl

@[simp] theorem removeSlot_recInstances (i : ℕ) :
    (m.removeSlot i).recInstances = m.recInstances := rfl

@[simp] theorem removeSlot_settings (i : ℕ) : (m.removeSlot i).settings = m.settings := rfl

@[simp] theorem setResult_reserves (r : Reserve) : (m.setResult r).reserves = m.reserves := by
  unfold setResult
  split <;> rfl

@[simp] theorem setResult_recordings (r : Reserve) : (m.setResult r).recordings = m.recordings := by
  unfold setResult
  split <;> rfl

@[simp] theorem setResult_recInstances (r : Reserve) :
    (m.setResult r).recInstances = m.recInstances := by
  unfold setResult
  split <;> rfl

@[simp] theorem setResult_settings (r : Reserve) : (m.setResult r).settings = m.settings := by
  unfold setResult
  split <;> rfl

/-! ## Searching -/

theorem isDuplicateReserve_iff {r : Reserve} : m.isDuplicateReserve r = true ↔
    ∃ j, ∃ hj : j < reserveNumMax, m.reserves[j].isUsed = true ∧ m.reserves[j].key = r.key := by
  rw [isDuplicateReserve, firstFrom_isSome_iff]
  simp only [Nat.zero_le, true_and, Bool.and_eq_true, Reserve.opEq_iff]

theorem isNowRecordingReserve_iff {r : Reserve} : m.isNowRecordingReserve r = true ↔
    ∃ g, ∃ hg : g < groupMax, m.recordings[g].isUsed = true ∧ m.recordings[g].key = r.key := by
  rw [isNowRecordingReserve, firstFrom_isSome_iff]
  simp only [Nat.zero_le, true_and, Bool.and_eq_true, Reserve.opEq_iff]

/-! ## `add_reserve` -/

/-- What `add_reserve` checks before it touches the table. -/
def addAccepted (a : SetArgs) (isRescheduled : Bool) : Bool :=
  match a.startTime, a.endTime with
  | some startTime, some endTime =>
    !startTime.ge endTime && m.isExistEmptyReserve &&
      !m.isDuplicateReserve (Reserve.clear.set a) &&
      (isRescheduled || !m.isNowRecordingReserve (Reserve.clear.set a))
  | _, _ => false

end RecManager

/-- The entry `add_reserve` writes over the slot `r`. -/
def SetArgs.entry (a : SetArgs) (isRescheduled : Bool) (r : Reserve) : Reserve :=
  if isRescheduled then (r.set a).mark .rescheduled else r.set a

section Entry

variable (a : SetArgs) (b : Bool) (r : Reserve)

@[simp] theorem entry_key : (a.entry b r).key = a.key := by
  unfold SetArgs.entry
  split <;> rfl

@[simp] theorem entry_isUsed : (a.entry b r).isUsed = true := by
  unfold SetArgs.entry
  split <;> rfl

@[simp] theorem entry_repeatability : (a.entry b r).repeatability = a.repeatability := by
  unfold SetArgs.entry
  split <;> rfl

@[simp] theorem entry_startTime : (a.entry b r).startTime = a.startTime.getD r.startTime := by
  unfold SetArgs.entry
  split <;> rfl

theorem entry_not_terminal : Flag.has (a.entry b r).state ReserveState.terminal = false := by
  unfold SetArgs.entry
  split
  · simp only [Reserve.mark, Flag.has_or, Reserve.set_state, Flag.zero_has, Bool.false_or]
    rfl
  · simp

end Entry

/-- The table after a reserve has been put in. -/
inductive Placed (v : Vector Reserve reserveNumMax) (a : SetArgs) (b : Bool) (s : Etime) :
    Vector Reserve reserveNumMax → Prop
  | before (i : Fin reserveNumMax) : firstFrom (fun r => r.startTime.gt s) v 0 = some i →
      Placed v a b s (insertAt v i (a.entry b Reserve.clear))
  | last (i : Fin reserveNumMax) : firstFrom (fun r => r.startTime.gt s) v 0 = none →
      firstFrom (fun r => !r.isUsed) v 0 = some i → Placed v a b s (v.set i (a.entry b v[i]) i.isLt)

namespace RecManager

variable (m : RecManager)

theorem addReserve_of_refused {a : SetArgs} {b : Bool} (h : m.addAccepted a b = false) :
    m.addReserve a b = (false, m) := by
  unfold addAccepted at h
  unfold addReserve
  split
  · rename_i s e hs he
    rw [hs, he] at h
    simp only at h
    split_ifs <;> simp_all
  · rfl

theorem addReserve_of_accepted {a : SetArgs} {b : Bool} (h : m.addAccepted a b = true) :
    ∃ s v, a.startTime = some s ∧ Placed m.reserves a b s v ∧
      m.addReserve a b = (true, { m with reserves := v }) := by
  unfold addAccepted at h
  unfold addReserve
  split
  · rename_i s e hs he
    rw [hs, he] at h
    simp only [Bool.and_eq_true, Bool.or_eq_true, Bool.not_eq_true'] at h
    obtain ⟨⟨⟨hge, hempty⟩, hdup⟩, hrec⟩ := h
    have hnow : (!b && m.isNowRecordingReserve (Reserve.clear.set a)) = false := by
      rcases hrec with rfl | hrec
      · rfl
      · simp [hrec]
    simp only [hge, hempty, hdup, hnow, Bool.not_true, Bool.false_eq_true, if_false]
    unfold searchAscendingOrderReserve
    rcases hl : m.firstLater s with _ | i
    · obtain ⟨i, hi⟩ := Option.isSome_iff_exists.mp hempty
      rw [hi]
      exact ⟨s, _, hs, .last i hl hi, rfl⟩
    · refine ⟨s, _, hs, .before i hl, ?_⟩
      simp only [updReserve, Prod.mk.injEq, true_and, RecManager.mk.injEq, and_true]
      ext1 k hk
      simp only [insertAt, SetArgs.entry]
      grind
  · rename_i hn
    exfalso
    split at h
    · exact hn _ _ ‹_› ‹_›
    · cases h

/-- An accepted reserve has a key that is not reserved yet. -/
theorem addAccepted_fresh {a : SetArgs} {b : Bool} (h : m.addAccepted a b = true) (j : ℕ)
    (hj : j < reserveNumMax) (hu : m.reserves[j].isUsed = true) : m.reserves[j].key ≠ a.key := by
  intro hk
  have hdup : m.isDuplicateReserve (Reserve.clear.set a) = true :=
    m.isDuplicateReserve_iff.mpr ⟨j, hj, hu, by simpa using hk⟩
  unfold addAccepted at h
  split at h <;> simp_all

/-- A key that is being recorded is accepted from the rescheduling only. -/
theorem addAccepted_not_recording {a : SetArgs} (h : m.addAccepted a false = true) (g : ℕ)
    (hg : g < groupMax) (hu : m.recordings[g].isUsed = true) : m.recordings[g].key ≠ a.key := by
  intro hk
  have hrec : m.isNowRecordingReserve (Reserve.clear.set a) = true :=
    m.isNowRecordingReserve_iff.mpr ⟨g, hg, hu, by simpa using hk⟩
  unfold addAccepted at h
  split at h <;> simp_all

theorem addReserve_frame (a : SetArgs) (b : Bool) :
    (m.addReserve a b).2.recordings = m.recordings ∧
      (m.addReserve a b).2.recInstances = m.recInstances ∧
      (m.addReserve a b).2.settings = m.settings := by
  rcases hacc : m.addAccepted a b with _ | _
  · rw [m.addReserve_of_refused hacc]
    exact ⟨rfl, rfl, rfl⟩
  · obtain ⟨_, _, -, -, he⟩ := m.addReserve_of_accepted hacc
    rw [he]
    exact ⟨rfl, rfl, rfl⟩

/-! ## `check_repeatability` -/

theorem checkRepeatability_cases (r : Reserve) : m.checkRepeatability r = m ∨
    ∃ a, a.key = r.key ∧ m.addAccepted a false = true ∧
      m.checkRepeatability r = (m.addReserve a false).2 := by
  unfold checkRepeatability
  split
  · exact .inl rfl
  · rename_i shift hs
    generalize ha : SetArgs.mk r.transportStreamId r.originalNetworkId r.serviceId r.eventId
      (some (shift r.startTime)) (some (shift r.endTime)) (some r.titleName) (some r.serviceName)
      r.isEventType r.repeatability = a
    rcases hacc : m.addAccepted a false with _ | _
    · exact .inl (by rw [m.addReserve_of_refused hacc])
    · exact .inr ⟨a, by rw [← ha]; rfl, hacc, rfl⟩

/-- **No successor is put in** while the key is in the table or being recorded. -/
theorem checkRepeatability_eq_self {r : Reserve}
    (h : (∃ j, ∃ hj : j < reserveNumMax, m.reserves[j].isUsed = true ∧ m.reserves[j].key = r.key) ∨
      ∃ g, ∃ hg : g < groupMax, m.recordings[g].isUsed = true ∧ m.recordings[g].key = r.key) :
    m.checkRepeatability r = m := by
  rcases m.checkRepeatability_cases r with hs | ⟨a, ha, hacc, -⟩
  · exact hs
  · exfalso
    rcases h with ⟨j, hj, hu, hk⟩ | ⟨g, hg, hu, hk⟩
    · exact m.addAccepted_fresh hacc j hj hu (hk.trans ha.symm)
    · exact m.addAccepted_not_recording hacc g hg hu (hk.trans ha.symm)

/-! ## `check_reserves` -/

/-- The loop of `check_reserves` is left at such a reserve. -/
def isDue (cur : Etime) (r : Reserve) : Bool :=
  r.isUsed && !isPassed cur r && isInRange cur r

/-- What the loop of `check_reserves` makes of a reserve that it gets to. -/
def checkedReserve (cur : Etime) (r : Reserve) : Reserve :=
  if r.isUsed && isPassed cur r then r.mark .endErrorAlreadyPassed
  else if isDue cur r then
    (if (r.startTime.addSec 10).le cur then r.mark .startTimePassed else r).mark .reqStartRecording
  else r

/-- A passed reserve is still in the table when its successor is tried, so that there is none. -/
theorem checkRepeatability_passed {i : Fin reserveNumMax} {m' : RecManager}
    (hu : m.reserves[i].isUsed = true)
    (hm : m'.reserves = m.reserves.set i (m.reserves[i].mark .endErrorAlreadyPassed) i.isLt) :
    m'.checkRepeatability m'.reserves[i] = m' := by
  refine m'.checkRepeatability_eq_self (.inl ⟨i, i.2, ?_, rfl⟩)
  rw [hm, Vector.getElem_set_self, Reserve.mark_isUsed]
  exact hu

variable {m} {cur : Etime} {i : Fin reserveNumMax} {l : List (Fin reserveNumMax)}

theorem checkReservesLoop_cons (hd : isDue cur m.reserves[i] = false) :
    ∃ m', checkReservesLoop cur (i :: l) m = checkReservesLoop cur l m' ∧
      m'.reserves = m.reserves.set i (checkedReserve cur m.reserves[i]) i.isLt ∧
      m'.recordings = m.recordings ∧ m'.recInstances = m.recInstances ∧
      m'.settings = m.settings := by
  have hset : m.reserves = m.reserves.set i m.reserves[i] i.isLt := (Vector.set_getElem_self i.2).symm
  rcases hu : m.reserves[i].isUsed with _ | _
  · refine ⟨m, by rw [checkReservesLoop, hu]; rfl, ?_, rfl, rfl, rfl⟩
    rwa [checkedReserve, hu, Bool.false_and, if_neg Bool.false_ne_true, hd,
      if_neg Bool.false_ne_true]
  · rcases hp : isPassed cur m.reserves[i] with _ | _
    · have hr : isInRange cur m.reserves[i] = false := by
        rwa [isDue, hu, hp, Bool.not_false, Bool.true_and, Bool.true_and] at hd
      refine ⟨m, by rw [checkReservesLoop, hu, hp, hr]; rfl, ?_, rfl, rfl, rfl⟩
      rwa [checkedReserve, hp, Bool.and_false, if_neg Bool.false_ne_true, hd,
        if_neg Bool.false_ne_true]
    · have hc : checkedReserve cur m.reserves[i] = m.reserves[i].mark .endErrorAlreadyPassed := by
        rw [checkedReserve, hu, hp, Bool.and_self, if_pos rfl]
      refine ⟨(m.updReserve i (·.mark .endErrorAlreadyPassed)).setResult
        (m.updReserve i (·.mark .endErrorAlreadyPassed)).reserves[i], ?_, ?_, ?_, ?_, ?_⟩
      · rw [checkReservesLoop, hu, hp]
        simp only [Bool.not_true, Bool.false_eq_true, if_false, if_true]
        rw [m.checkRepeatability_passed hu (by simp)]
      · rw [setResult_reserves, updReserve_reserves, hc]
      all_goals simp

theorem checkReservesLoop_cons_due (hd : isDue cur m.reserves[i] = true) :
    checkReservesLoop cur (i :: l) m = m.updReserve i (checkedReserve cur) := by
  have ⟨⟨hu, hp⟩, hr⟩ : (m.reserves[i].isUsed = true ∧ isPassed cur m.reserves[i] = false) ∧
      isInRange cur m.reserves[i] = true := by simpa [isDue] using hd
  rw [checkReservesLoop, hu, hp, hr]
  simp only [Bool.not_true, Bool.false_eq_true, if_false, if_true, updReserve]
  rw [checkedReserve, hp, Bool.and_false, if_neg Bool.false_ne_true, hd, if_pos rfl]

variable (cur l m)

theorem checkReservesLoop_frame : (checkReservesLoop cur l m).recordings = m.recordings ∧
    (checkReservesLoop cur l m).recInstances = m.recInstances ∧
    (checkReservesLoop cur l m).settings = m.settings := by
  induction l generalizing m with
  | nil => exact ⟨rfl, rfl, rfl⟩
  | cons i l ih =>
    rcases hd : isDue cur m.reserves[i] with _ | _
    · obtain ⟨m', he, -, h₁, h₂, h₃⟩ := checkReservesLoop_cons (l := l) hd
      rw [he, ← h₁, ← h₂, ← h₃]
      exact ih m'
    · rw [checkReservesLoop_cons_due hd]
      exact ⟨rfl, rfl, rfl⟩

/-- **What the loop of `check_reserves` leaves in each slot.** -/
theorem checkReservesLoop_getElem (hl : l.Pairwise (· < ·)) (k : Fin reserveNumMax) :
    (checkReservesLoop cur l m).reserves[k] =
      if k ∈ l ∧ ∀ j ∈ l, j < k → isDue cur m.reserves[j] = false
      then checkedReserve cur m.reserves[k] else m.reserves[k] := by
  induction l generalizing m with
  | nil => simp [checkReservesLoop]
  | cons i l ih =>
    obtain ⟨hi, hl⟩ := List.pairwise_cons.mp hl
    have hself : ∀ j ∈ i :: l, ¬ j < i := fun j hj => by
      rcases List.mem_cons.mp hj with rfl | hj
      · exact lt_irrefl _
      · exact not_lt_of_gt (hi j hj)
    rcases hd : isDue cur m.reserves[i] with _ | _
    · obtain ⟨m', he, hv, -⟩ := checkReservesLoop_cons (l := l) hd
      have hne : ∀ j : Fin reserveNumMax, j ≠ i → m'.reserves[j] = m.reserves[j] := fun j hj => by
        simp [hv, Fin.val_ne_of_ne hj.symm]
      rw [he, ih m' hl]
      rcases eq_or_ne k i with rfl | hk
      · rw [if_neg (fun h => absurd (hi k h.1) (lt_irrefl _)),
          if_pos ⟨List.mem_cons_self, fun j hj hjk => absurd hjk (hself j hj)⟩]
        simp [hv]
      · rw [hne k hk]
        congr 1
        simp only [List.mem_cons, hk, false_or, forall_eq_or_imp, hd, implies_true, true_and]
        rw [eq_iff_iff, and_congr_right_iff]
        exact fun _ => forall₂_congr fun j hj => by rw [hne j (hi j hj).ne']
    · rw [checkReservesLoop_cons_due hd]
      rcases eq_or_ne k i with rfl | hk
      · rw [if_pos ⟨List.mem_cons_self, fun j hj hjk => absurd hjk (hself j hj)⟩]
        simp
      · rw [if_neg]
        · simp [Fin.val_ne_of_ne hk.symm]
        · rintro ⟨hk', h⟩
          have hlt := hi k ((List.mem_cons.mp hk').resolve_left hk)
          rw [h i List.mem_cons_self hlt] at hd
          cases hd

/-- The table after the loop of `check_reserves`. -/
def checkedTable (cur : Etime) (v : Vector Reserve reserveNumMax) : Vector Reserve reserveNumMax :=
  .ofFn fun k => if ∀ j < k, isDue cur v[j] = false then checkedReserve cur v[k] else v[k]

theorem checkReservesLoop_reserves :
    (checkReservesLoop cur (List.finRange _) m).reserves = checkedTable cur m.reserves := by
  ext1 k hk
  have h := checkReservesLoop_getElem m cur (List.finRange _) (List.pairwise_lt_finRange _) ⟨k, hk⟩
  simp only [List.mem_finRange, true_and, forall_const] at h
  rw [checkedTable, Vector.getElem_ofFn]
  exact h

/-- Slot `k` is taken out by `check_reserves`: its reserve has passed, and the loop gets there. -/
def IsExpired (cur : Etime) (v : Vector Reserve reserveNumMax) (k : Fin reserveNumMax) : Prop :=
  v[k].isUsed = true ∧ isPassed cur v[k] = true ∧ ∀ j < k, isDue cur v[j] = false

instance (v : Vector Reserve reserveNumMax) (k : Fin reserveNumMax) :
    Decidable (IsExpired cur v k) := by unfold IsExpired; infer_instance

section Checked

variable (r : Reserve) (v : Vector Reserve reserveNumMax) (k : ℕ) (hk : k < reserveNumMax)

theorem checkedReserve_key : (checkedReserve cur r).key = r.key := by
  unfold checkedReserve
  split_ifs <;> rfl

theorem checkedReserve_isUsed : (checkedReserve cur r).isUsed = r.isUsed := by
  unfold checkedReserve
  split_ifs <;> rfl

theorem checkedReserve_startTime : (checkedReserve cur r).startTime = r.startTime := by
  unfold checkedReserve
  split_ifs <;> rfl

theorem checkedReserve_repeatability :
    (checkedReserve cur r).repeatability = r.repeatability := by
  unfold checkedReserve
  split_ifs <;> rfl

theorem checkedTable_cases :
    (checkedTable cur v)[k] = v[k] ∨ (checkedTable cur v)[k] = checkedReserve cur v[k] := by
  rw [checkedTable, Vector.getElem_ofFn]
  split_ifs
  exacts [.inr rfl, .inl rfl]

@[simp] theorem checkedTable_key : (checkedTable cur v)[k].key = v[k].key := by
  rcases checkedTable_cases cur v k hk with h | h <;> rw [h]
  exact checkedReserve_key cur _

@[simp] theorem checkedTable_isUsed : (checkedTable cur v)[k].isUsed = v[k].isUsed := by
  rcases checkedTable_cases cur v k hk with h | h <;> rw [h]
  exact checkedReserve_isUsed cur _

@[simp] theorem checkedTable_startTime : (checkedTable cur v)[k].startTime = v[k].startTime := by
  rcases checkedTable_cases cur v k hk with h | h <;> rw [h]
  exact checkedReserve_startTime cur _

@[simp] theorem checkedTable_repeatability :
    (checkedTable cur v)[k].repeatability = v[k].repeatability := by
  rcases checkedTable_cases cur v k hk with h | h <;> rw [h]
  exact checkedReserve_repeatability cur _

end Checked

/-! ## `refresh_reserves` -/

/-- The entries that `refresh_reserves` takes out. -/
def isFlagged (state : ReserveState) (r : Reserve) : Bool := r.isUsed && Flag.has r.state state

theorem refreshReserves_eq (state : ReserveState) : m.refreshReserves state =
    { m with reserves := sweep (isFlagged state) Reserve.clear m.reserves } := by
  unfold refreshReserves sweep
  generalize (List.finRange reserveNumMax).reverse = l
  induction l generalizing m with
  | nil => rfl
  | cons i l ih =>
    rw [List.foldl_cons, List.foldl_cons, ih]
    unfold refreshSlot sweepAt isFlagged removeSlot
    split_ifs <;> rfl

theorem checkedReserve_state {r : Reserve} (h : Flag.has r.state ReserveState.terminal = false) :
    isFlagged .endErrorAlreadyPassed (checkedReserve cur r) = true ∨
      Flag.has (checkedReserve cur r).state ReserveState.terminal = false := by
  unfold checkedReserve isFlagged
  split_ifs with hp hd hs
  · left
    have hu : r.isUsed = true := (Bool.and_eq_true_iff.mp hp).1
    simp only [Reserve.mark_isUsed, Reserve.mark_state, Flag.has_or, hu, Bool.true_and]
    exact Bool.or_eq_true_iff.mpr (.inr rfl)
  · right
    simp only [Reserve.mark_state, Flag.has_or, h, Bool.false_or]
    rfl
  · right
    simp only [Reserve.mark_state, Flag.has_or, h, Bool.false_or]
    rfl
  · exact .inr h

/-- **`check_reserves`** marks, then takes out what has passed. -/
theorem checkReserves_reserves (now : ℤ) : (m.checkReserves now).reserves =
    sweep (isFlagged .endErrorAlreadyPassed) Reserve.clear
      (checkedTable (Etime.setCurrentTime now) m.reserves) := by
  unfold checkReserves
  simp only [refreshReserves_eq, checkReservesLoop_reserves]

theorem checkReserves_frame (now : ℤ) : (m.checkReserves now).recordings = m.recordings ∧
    (m.checkReserves now).recInstances = m.recInstances ∧
    (m.checkReserves now).settings = m.settings := by
  unfold checkReserves
  simp only [refreshReserves_eq]
  exact checkReservesLoop_frame m _ _

/-! ## Taking one reserve out -/

/-- The reserve as `pick_req_start_recording_reserve` puts it into `recordings_[g]`. -/
def picked (g : Group) (r : Reserve) : Reserve :=
  { r.unmark .reqStartRecording with groupId := UInt8.ofNat g }

/-- **What is picked** moves from the table to the recordings; it gets no successor, since it is
being recorded. -/
theorem pick_eq (g : Group) (h : m.reqStartRecordingReserve = some i) :
    m.pickReqStartRecordingReserve g =
      (true, (m.updRecording g fun _ => picked g m.reserves[i]).removeSlot i) := by
  have hu : m.reserves[i].isUsed = true := by
    obtain ⟨-, hp, -⟩ := firstFrom_some h
    exact (Bool.and_eq_true_iff.mp hp).1
  rw [pickReqStartRecordingReserve, h]
  dsimp only
  rw [checkRepeatability_eq_self]
  · rfl
  · right
    refine ⟨g, g.2, ?_, rfl⟩
    rw [removeSlot_recordings, updRecording, Vector.getElem_set_self]
    exact hu

/-- `remove_reserve` tries the successor before the reserve has gone: there is none. -/
theorem removeReserveAt_spec (i : Fin reserveNumMax) (c p : Bool)
    (h : m.reserves[i].isUsed = true ∨ m.reserves[i].repeatability = .none) :
    (m.removeReserveAt i c p).reserves = removeAt m.reserves i Reserve.clear ∧
      (m.removeReserveAt i c p).recordings = m.recordings ∧
      (m.removeReserveAt i c p).recInstances = m.recInstances ∧
      (m.removeReserveAt i c p).settings = m.settings := by
  have hself : ∀ m' : RecManager,
      m'.reserves = m.reserves.set i (m.reserves[i].mark .removed) i.isLt →
      m'.checkRepeatability m'.reserves[i] = m' := by
    intro m' hm
    have hi : m'.reserves[i] = m.reserves[i].mark .removed := by
      simp only [getElem_slot, hm, Vector.getElem_set_self]
    rcases h with hu | hr
    · refine m'.checkRepeatability_eq_self (.inl ⟨i, i.2, ?_, rfl⟩)
      change m'.reserves[i].isUsed = true
      rw [hi]
      exact hu
    · rw [checkRepeatability, hi, Reserve.mark_repeatability, hr, nextPeriod]
  unfold removeReserveAt
  dsimp only
  rcases p with _ | _ <;> rcases c with _ | _
  · simp [removeAt_set_self]
  · rw [if_pos rfl, if_neg Bool.false_ne_true, hself _ rfl]
    simp [removeAt_set_self]
  · simp [removeAt_set_self]
  · rw [if_pos rfl, if_pos rfl, hself _ (by simp)]
    simp [removeAt_set_self]

end RecManager

end AutoRec
