import AutoRec.Rec.FollowUp

/-!
# The order of the slots

The used slots of `reserves_` are in front and no key is reserved twice. The sorted insertion relies
on a free slot not starting later than anything; the follow-up of the programme guide can write a
start time into a slot that has become free.

* `WellPacked`: the property; `PackedInv`: with the start times of the free slots.
* `StartsOk`: reserves start at the epoch or later; `HitsReserve`: an event is written to a reserve.
* `wellPacked_of_hitsReserve`, `not_wellPacked`: every such run, and one run that is not.
-/

namespace AutoRec

open Slots

/-- **The used slots come first**, there are at most `RESERVE_NUM_MAX` of them, and no two have the
same key. -/
structure WellPacked (v : Vector Reserve reserveNumMax) : Prop where
  packed : Packed Reserve.isUsed v
  count_le : v.toList.countP Reserve.isUsed ≤ reserveNumMax
  distinct : DistinctOn Reserve.isUsed Reserve.key v

/-- The used slots come first, and a free slot does not start after the epoch. -/
structure PackedInv (v : Vector Reserve reserveNumMax) : Prop where
  packed : Packed Reserve.isUsed v
  free : All (fun r => r.isUsed = true ∨ r.startTime ≤ Etime.clear) v

namespace PackedInv

variable {v w : Vector Reserve reserveNumMax}

theorem initial : PackedInv (.replicate _ Reserve.clear) where
  packed := fun i j _ _ hj => by simp at hj
  free := fun k hk => by simp

theorem removeAt (h : PackedInv v) (i : ℕ) : PackedInv (removeAt v i Reserve.clear) where
  packed := h.packed.removeAt rfl
  free := h.free.removeAt (.inr le_rfl)

theorem sweep (h : PackedInv v) (p : Reserve → Bool) :
    PackedInv (Slots.sweep p Reserve.clear v) where
  packed := h.packed.sweep rfl
  free := h.free.sweep (.inr le_rfl)

theorem checked (h : PackedInv v) (cur : Etime) : PackedInv (RecManager.checkedTable cur v) where
  packed := h.packed.congr (by simp)
  free := fun k hk => by simpa using h.free k hk

theorem placed {a : SetArgs} {b : Bool} {st : Etime} (h : PackedInv v) (hst : Etime.clear ≤ st)
    (hw : Placed v a b st w) : PackedInv w := by
  cases hw with
  | before i hi =>
    obtain ⟨-, hp, -⟩ := firstFrom_some hi
    have hlt : Etime.clear < v[(i : ℕ)].startTime := hst.trans_lt (Etime.gt_iff.mp hp)
    have hu : v[(i : ℕ)].isUsed = true := (h.free i i.2).resolve_right (not_le_of_gt hlt)
    exact ⟨h.packed.insertAt (by simp) fun j hj hji => h.packed j i hji i.2 hu,
      h.free.insertAt (.inl (by simp))⟩
  | last i hl hi => exact ⟨h.packed.set hi (by simp), h.free.set (.inl (by simp))⟩

theorem follow (h : PackedInv v) {i : Fin reserveNumMax} {e : EpgEvent}
    (hi : v[i].isUsed = true ∨ e.startTime ≤ Etime.clear) :
    PackedInv (v.set i (v[i].follow e) i.isLt) where
  packed := by
    refine h.packed.congr fun k hk => ?_
    rw [Vector.getElem_set]
    split_ifs with hik
    · subst hik
      rfl
    · rfl
  free := h.free.set hi

end PackedInv

namespace Table

variable {s t : Table} {op : TableOp} {settings : Settings}

/-- Reserves that are added and events of the guide start at the epoch or later. -/
def StartsOk (s : Table) (op : TableOp) : Prop :=
  match op with
  | .add r => ∀ c ∈ r.call s.mgr.settings, ∀ st ∈ c.1.startTime, Etime.clear.le st = true
  | .event (some e) => Etime.clear.le e.startTime = true
  | _ => True

/-- An event is written to a reserve; only an event at the epoch may go into a free slot. -/
def HitsReserve (s : Table) (op : TableOp) : Prop :=
  match op, s.followUp with
  | .event (some e), .event i _ =>
    s.mgr.reserves[i].isUsed = true ∨ e.startTime.le Etime.clear = true
  | _, _ => True

instance (s : Table) : DecidablePred (StartsOk s)
  | .add r => inferInstanceAs (Decidable (∀ c ∈ r.call s.mgr.settings, _))
  | .event (some _) => inferInstanceAs (Decidable (_ = _))
  | .event none | .removeReserve .. | .removeReserveByIndex .. | .checkReserves _
  | .refreshReserves _ | .pick _ | .timeout | .scheduleState _ | .other .. =>
    inferInstanceAs (Decidable True)

instance : (s : Table) → DecidablePred (HitsReserve s)
  | ⟨_, .event _ _, _⟩, .event (some _) => inferInstanceAs (Decidable (_ ∨ _))
  | ⟨_, .paused, _⟩, .event (some _) | ⟨_, .scheduleState, _⟩, .event (some _)
  | _, .event none | _, .add _ | _, .removeReserve .. | _, .removeReserveByIndex ..
  | _, .checkReserves _ | _, .refreshReserves _ | _, .pick _ | _, .timeout | _, .scheduleState _
  | _, .other .. => inferInstanceAs (Decidable True)

/-- **One step** keeps the used slots in front. -/
theorem next_packedInv (hI : ReservesInv s.mgr.reserves) (hP : PackedInv s.mgr.reserves)
    (hst : StartsOk s op) (hhit : HitsReserve s op) (h : next s op = some t) :
    PackedInv t.mgr.reserves := by
  have he := next_effect hI h
  revert he
  generalize t.mgr.reserves = w
  intro he
  cases he with
  | added hr hacc hs hw => exact hP.placed (Etime.le_iff.mp (hst _ hr _ hs)) hw
  | removed | removedByIndex | picked => exact hP.removeAt _
  | checked => exact (hP.checked _).sweep _
  | refreshed => exact hP.sweep _
  | followed hf =>
    dsimp only [HitsReserve] at hhit
    rw [hf] at hhit
    exact hP.follow (hhit.imp_right Etime.le_iff.mp)
  | refused | missing | outOfTable | notPicked | timeout | scheduleState | noEvent | other => exact hP

/-- **The used slots stay in front** in every run in which events are written to reserves only. -/
theorem wellPacked_of_hitsReserve
    (h : Machine.Reach next (fun s op => StartsOk s op ∧ HitsReserve s op) (initial settings) s) :
    WellPacked s.mgr.reserves := by
  have hI := reach_reservesInv h
  have hP : PackedInv s.mgr.reserves :=
    h.inv₂ (fun s => ReservesInv s.mgr.reserves) (fun s => PackedInv s.mgr.reserves)
      (fun _ hr => reach_reservesInv hr) PackedInv.initial
      fun _ _ _ hI _ hP hok hn => next_packedInv hI hP hok.1 hok.2 hn
  refine ⟨hP.packed, ?_, hI.distinct⟩
  exact (List.countP_le_length).trans_eq Vector.length_toList

/-- The run of `followRun` writes to a reserve. -/
theorem wellPacked_of_hitsReserve_followRun : ∃ s,
    Machine.Reach next (fun s op => StartsOk s op ∧ HitsReserve s op) (initial .oneTuner) s ∧
      s.writes.length = 1 ∧ WellPacked s.mgr.reserves := by
  have hrun : Machine.execOk next (fun s op => StartsOk s op ∧ HitsReserve s op)
        (initial .oneTuner) followRun = true ∧
      (Machine.exec next (initial .oneTuner) followRun).map (fun s => s.writes.length) =
        some 1 := by
    decide +kernel
  obtain ⟨s, -, hr, hl⟩ := Machine.exists_of_execOk hrun
  exact ⟨s, hr, hl, wellPacked_of_hitsReserve hr⟩

/-- Event 7 is due, and event 6 is reserved in front of it. While event 7 is waited for, both
reserves are removed; its new start time goes into the free slot 1, and event 9 is put in front of
it. -/
def strayRun : List TableOp :=
  [exampleAdd (exampleEvent 7 100 200), .checkReserves 100, exampleAdd (exampleEvent 6 50 300),
    .timeout, .scheduleState true, .removeReserve ⟨1, 2, 3, 7⟩ false false,
    .removeReserve ⟨1, 2, 3, 6⟩ false false, .event (some (exampleEvent 7 300 400)),
    exampleAdd (exampleEvent 9 200 250)]

theorem strayRun_slots :
    Machine.execOk next StartsOk (initial .oneTuner) strayRun = true ∧
      (Machine.exec next (initial .oneTuner) strayRun).map
        (fun s => (s.mgr.reserves[0].isUsed, s.mgr.reserves[1].isUsed)) = some (false, true) := by
  decide +kernel

/-- **Not every run keeps the used slots in front**: after `strayRun` slot 0 is free and slot 1 is
used. -/
theorem not_wellPacked :
    ¬ ∀ settings s, Machine.Reach next StartsOk (initial settings) s → WellPacked s.mgr.reserves := by
  intro h
  obtain ⟨s, -, hr, hv⟩ := Machine.exists_of_execOk strayRun_slots
  obtain ⟨h₀, h₁⟩ := Prod.mk.inj hv
  have hp := (h _ s hr).packed
  have := hp 0 1 (by decide) (by decide) h₁
  rw [h₀] at this
  cases this

end Table

end AutoRec
