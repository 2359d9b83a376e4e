import AutoRec.Rec.FollowUp

/-!
# The order of the start times

`search_ascending_order_reserve` puts a reserve in front of the first slot that starts later, and
`check_reserves` looks for the first reserve whose time it is. The follow-up of the programme guide
rewrites start times where they stand.

* `StartsSorted`: the property; `OrderInv`: with the used slots in front and the free ones at the
  epoch.
* `KeepsOrder`: the start time that the follow-up writes is one of a reserve, and stays between
  those of its neighbours.
* `startsSorted_follow_iff`: what it is for one write.
* `startsSorted_of_keepsOrder`, `not_startsSorted`: every such run, and one run that is not.
-/

namespace AutoRec

open Slots

/-- **The used entries are sorted by their start times.** -/
def StartsSorted (v : Vector Reserve reserveNumMax) : Prop :=
  SortedOn Reserve.isUsed Reserve.startTime v

/-- The used slots come first and are sorted, and a free slot starts at the epoch. -/
structure OrderInv (v : Vector Reserve reserveNumMax) : Prop where
  packed : Packed Reserve.isUsed v
  free : All (fun r => r.isUsed = true ∨ r.startTime = Etime.clear) v
  sorted : StartsSorted v

/-- A start time for slot `i` that is between those of the others. -/
def FitsBetween (v : Vector Reserve reserveNumMax) (i : Fin reserveNumMax) (st : Etime) : Prop :=
  ∀ j : Fin reserveNumMax, v[j].isUsed = true →
    (j < i → v[j].startTime.le st = true) ∧ (i < j → st.le v[j].startTime = true)

instance (v : Vector Reserve reserveNumMax) (i : Fin reserveNumMax) (st : Etime) :
    Decidable (FitsBetween v i st) := by
  unfold FitsBetween
  infer_instance

namespace OrderInv

variable {v w : Vector Reserve reserveNumMax}

theorem initial : OrderInv (.replicate _ Reserve.clear) where
  packed := fun i j _ _ hj => by simp at hj
  free := fun k hk => by simp
  sorted := fun i j _ _ hi => by simp at hi

theorem removeAt (h : OrderInv v) (i : ℕ) : OrderInv (removeAt v i Reserve.clear) where
  packed := h.packed.removeAt rfl
  free := h.free.removeAt (.inr rfl)
  sorted := h.sorted.removeAt rfl

theorem sweep (h : OrderInv v) (p : Reserve → Bool) :
    OrderInv (Slots.sweep p Reserve.clear v) where
  packed := h.packed.sweep rfl
  free := h.free.sweep (.inr rfl)
  sorted := h.sorted.sweep rfl

theorem checked (h : OrderInv v) (cur : Etime) : OrderInv (RecManager.checkedTable cur v) where
  packed := h.packed.congr (by simp)
  free := fun k hk => by simpa using h.free k hk
  sorted := h.sorted.congr (by simp) (by simp)

/-- The slots in front of the first one that starts after `st` are used, whether that one is used
itself or the first free one. -/
theorem used_of_lt (h : OrderInv v) {st : Etime} {i : Fin reserveNumMax}
    (hi : firstFrom (fun r => r.startTime.gt st) v 0 = some i) (j : ℕ) (hj : j < reserveNumMax)
    (hji : j < i) : v[j].isUsed = true := by
  obtain ⟨-, hp, hbefore⟩ := firstFrom_some hi
  rcases h.free i i.2 with hu | hclear
  · exact h.packed j i hji i.2 hu
  · apply (h.free j hj).resolve_right
    intro hjclear
    have hnot := hbefore ⟨j, hj⟩ hji (Nat.zero_le _)
    rw [getElem_slot] at hnot hp
    rw [hjclear, ← hclear, hp] at hnot
    cases hnot

theorem placed {a : SetArgs} {b : Bool} {st : Etime} (h : OrderInv v) (hst : a.startTime = some st)
    (hw : Placed v a b st w) : OrderInv w := by
  have hentry : ∀ r, (a.entry b r).startTime = st := by simp [hst]
  cases hw with
  | before i hi =>
    obtain ⟨-, hp, hbefore⟩ := firstFrom_some hi
    have hlater : st < v[(i : ℕ)].startTime := Etime.gt_iff.mp hp
    refine ⟨h.packed.insertAt (by simp) (h.used_of_lt hi), h.free.insertAt (.inl (by simp)),
      h.sorted.insertAt ?_ ?_⟩
    · intro j hj hji _
      have hnot := hbefore ⟨j, hj⟩ hji (Nat.zero_le _)
      rw [hentry]
      exact not_lt.mp fun hgt => by simp [Etime.gt_iff.mpr hgt] at hnot
    · intro j hj hij hu
      rw [hentry]
      rcases Nat.eq_or_lt_of_le hij with rfl | hlt
      · exact hlater.le
      · -- the slots behind it are used only if it is used
        have hui : v[(i : ℕ)].isUsed = true := h.packed i j hlt hj hu
        exact hlater.le.trans (h.sorted i j hlt hj hui hu)
  | last i hl hi =>
    obtain ⟨-, hfree, -⟩ := firstFrom_some hi
    refine ⟨h.packed.set hi (by simp), h.free.set (.inl (by simp)), h.sorted.set ?_ ?_⟩
    · intro j hj _ _
      have hnot := firstFrom_none hl j hj (Nat.zero_le _)
      rw [hentry]
      exact not_lt.mp fun hgt => by simp [Etime.gt_iff.mpr hgt] at hnot
    · intro j hj hij hu
      have hui : v[(i : ℕ)].isUsed = true := h.packed i j hij hj hu
      simp [hui] at hfree

/-- **One write of the follow-up** keeps the order if and only if the new start time is between
those of the other reserves. -/
theorem startsSorted_follow_iff (h : StartsSorted v) {i : Fin reserveNumMax} (e : EpgEvent)
    (hu : v[i].isUsed = true) :
    StartsSorted (v.set i (v[i].follow e) i.isLt) ↔ FitsBetween v i e.startTime := by
  have hself : (v.set i (v[i].follow e) i.isLt)[(i : ℕ)] = v[i].follow e := Vector.getElem_set_self ..
  have hne : ∀ j (hj : j < reserveNumMax), (i : ℕ) ≠ j → (v.set i (v[i].follow e) i.isLt)[j] = v[j] :=
    fun j hj hij => Vector.getElem_set_ne i.2 hj hij
  constructor
  · intro hs j huj
    refine ⟨fun hji => ?_, fun hij => ?_⟩
    · have hle := hs j i hji i.2
      rw [hself, hne j j.2 (by omega)] at hle
      exact Etime.le_iff.mpr (hle huj hu)
    · have hle := hs i j hij j.2
      rw [hself, hne j j.2 (by omega)] at hle
      exact Etime.le_iff.mpr (hle hu huj)
  · intro hfit
    apply h.set
    · intro j hj hji huj
      exact Etime.le_iff.mp ((hfit ⟨j, hj⟩ huj).1 hji)
    · intro j hj hij huj
      exact Etime.le_iff.mp ((hfit ⟨j, hj⟩ huj).2 hij)

theorem follow (h : OrderInv v) {i : Fin reserveNumMax} {e : EpgEvent}
    (hi : e.startTime ≠ v[i].startTime → v[i].isUsed = true ∧ FitsBetween v i e.startTime) :
    OrderInv (v.set i (v[i].follow e) i.isLt) := by
  have hused : ∀ k (hk : k < reserveNumMax),
      (v.set i (v[i].follow e) i.isLt)[k].isUsed = v[k].isUsed := by
    intro k hk
    rw [Vector.getElem_set]
    split_ifs with hik
    · subst hik
      rfl
    · rfl
  refine ⟨h.packed.congr hused, h.free.set ?_, ?_⟩
  · by_cases heq : e.startTime = v[i].startTime
    · exact (h.free i i.2).imp id fun hclear => heq.trans hclear
    · exact .inl (hi heq).1
  · by_cases heq : e.startTime = v[i].startTime
    · apply h.sorted.congr hused
      intro k hk
      rw [Vector.getElem_set]
      split_ifs with hik
      · subst hik
        exact heq
      · rfl
    · obtain ⟨hu, hfit⟩ := hi heq
      exact (startsSorted_follow_iff h.sorted e hu).mpr hfit

end OrderInv

namespace Table

variable {s t : Table} {op : TableOp} {settings : Settings}

/-- A start time that the follow-up changes is one of a used slot, and stays between those of the
other used slots. -/
def KeepsOrder (s : Table) (op : TableOp) : Prop :=
  match op, s.followUp with
  | .event (some e), .event i _ =>
    e.startTime ≠ s.mgr.reserves[i].startTime →
      s.mgr.reserves[i].isUsed = true ∧ FitsBetween s.mgr.reserves i e.startTime
  | _, _ => True

instance : (s : Table) → DecidablePred (KeepsOrder s)
  | ⟨_, .event _ _, _⟩, .event (some _) => inferInstanceAs (Decidable (_ → _ ∧ _))
  | ⟨_, .paused, _⟩, .event (some _) | ⟨_, .scheduleState, _⟩, .event (some _)
  | _, .event none | _, .add _ | _, .removeReserve .. | _, .removeReserveByIndex ..
  | _, .checkReserves _ | _, .refreshReserves _ | _, .pick _ | _, .timeout | _, .scheduleState _
  | _, .other .. => inferInstanceAs (Decidable True)

/-- **One step** keeps the order. -/
theorem next_orderInv (hI : ReservesInv s.mgr.reserves) (hO : OrderInv s.mgr.reserves)
    (hok : KeepsOrder s op) (h : next s op = some t) : OrderInv t.mgr.reserves := by
  have he := next_effect hI h
  revert he
  generalize t.mgr.reserves = w
  intro he
  cases he with
  | added hr hacc hst hw => exact hO.placed hst hw
  | removed | removedByIndex | picked => exact hO.removeAt _
  | checked => exact (hO.checked _).sweep _
  | refreshed => exact hO.sweep _
  | followed hf =>
    dsimp only [KeepsOrder] at hok
    rw [hf] at hok
    exact hO.follow hok
  | refused | missing | outOfTable | notPicked | timeout | scheduleState | noEvent | other => exact hO

/-- **The used entries stay sorted** in every run in which the follow-up writes no start time past a
neighbour. -/
theorem startsSorted_of_keepsOrder (h : Machine.Reach next KeepsOrder (initial settings) s) :
    StartsSorted s.mgr.reserves :=
  (h.inv₂ (fun s => ReservesInv s.mgr.reserves) (fun s => OrderInv s.mgr.reserves)
    (fun _ hr => reach_reservesInv hr) OrderInv.initial
    fun _ _ _ hI _ hO hok hn => next_orderInv hI hO hok hn).sorted

/-- Event 7 is due and event 8 is reserved behind it; event 7 starts ten seconds later, and is
picked. -/
def laterRun : List TableOp :=
  [exampleAdd (exampleEvent 8 200 300), exampleAdd (exampleEvent 7 100 200), .checkReserves 100,
    .timeout, .scheduleState true, .event (some (exampleEvent 7 110 210)), .pick 0]

theorem laterRun_slots :
    Machine.execOk next KeepsOrder (initial .oneTuner) laterRun = true ∧
      (Machine.exec next (initial .oneTuner) laterRun).map
        (fun s => (s.mgr.reserves[0].eventId, s.writes.length)) = some (8, 1) := by
  decide +kernel

theorem startsSorted_of_keepsOrder_laterRun : ∃ s,
    Machine.Reach next KeepsOrder (initial .oneTuner) s ∧ s.writes.length = 1 ∧
      StartsSorted s.mgr.reserves := by
  obtain ⟨s, -, hr, hl⟩ := Machine.exists_of_execOk laterRun_slots
  exact ⟨s, hr, (Prod.mk.inj hl).2, startsSorted_of_keepsOrder hr⟩

/-- Event 7 is due and event 8 is reserved behind it; event 7 is put off behind event 8. -/
def putOffRun : List TableOp :=
  [exampleAdd (exampleEvent 7 100 200), exampleAdd (exampleEvent 8 200 300), .checkReserves 100,
    .timeout, .scheduleState true, .event (some (exampleEvent 7 250 350))]

theorem putOffRun_slots :
    (Machine.exec next (initial .oneTuner) putOffRun).map
      (fun s => (s.mgr.reserves[0].isUsed, s.mgr.reserves[1].isUsed,
        s.mgr.reserves[0].startTime.le s.mgr.reserves[1].startTime)) = some (true, true, false) := by
  decide +kernel

/-- **Not every run keeps the used entries sorted**: after `putOffRun` slot 0 starts after slot 1.
-/
theorem not_startsSorted :
    ¬ ∀ settings s, Machine.Reach next Machine.anyStep (initial settings) s →
      StartsSorted s.mgr.reserves := by
  intro h
  obtain ⟨s, hs, hv⟩ := Option.map_eq_some_iff.mp putOffRun_slots
  obtain ⟨h₀, h₁₂⟩ := Prod.mk.inj hv
  obtain ⟨h₁, hle⟩ := Prod.mk.inj h₁₂
  have hsorted := h _ s (Machine.reach_of_exec hs) 0 1 (by decide) (by decide) h₀ h₁
  rw [← Etime.le_iff, hle] at hsorted
  cases hsorted

end Table

end AutoRec
