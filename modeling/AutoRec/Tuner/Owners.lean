import AutoRec.Tuner.Closing

/-!
# Who has a tuner after a step

* `owner_of_step`: a module has a tuner only if it had it before, or `open` has just replied it.
* `owner_onClose`: a `close` takes a tuner that is not tuned from its owner.
-/

namespace AutoRec

open Machine

namespace TunerService

variable {s t : TunerService} {op : TunerOp}

/-- The service has an entry for each tuner. -/
structure Sized (s : TunerService) : Prop where
  length_eq : s.resourceAllocates.length = s.tunerResourceMax
  max_le : s.tunerResourceMax ≤ 255

theorem sized_moduleUp (tunerHalAllocates : List String) : (moduleUp tunerHalAllocates).Sized := by
  have hlen := length_resizeTunerHalAllocates tunerHalAllocates
  refine ⟨List.length_replicate, ?_⟩
  simp only [moduleUp, hlen, groupMax]
  omega

theorem Sized.updResource (h : s.Sized) (i : ℕ) (f : Resource → Resource) :
    (s.updResource i f).Sized :=
  ⟨by rw [TunerService.updResource, List.length_modify, h.length_eq], h.max_le⟩

theorem owner_clear (i j : ℕ) :
    (s.updResource j fun _ => .clear).owner i = if j = i then none else s.owner i := by
  rw [owner, updResource, List.getElem?_modify]
  by_cases hj : j = i
  · rw [if_pos hj]
    cases s.resourceAllocates[i]? <;> simp [hj, Resource.clear]
  · simp [hj, owner]

/-- `allocate_round_robin` gives `m` the tuner that it replies, and no other one. -/
theorem allocateLoop_owner {m : ModuleId} {initId : ℕ} {t : TunerService} {id : ℕ} :
    ∀ {fuel n : ℕ} {s : TunerService},
      allocateLoop m initId fuel n s = some (id, t) → s.Sized →
        t.Sized ∧ ∀ i m', t.owner i = some m' →
          s.owner i = some m' ∨ id = i ∧ i ≠ 0xff ∧ m' = m
  | 0, _, _, h, _ => by cases h
  | fuel + 1, n, s, h, hs => by
    rw [allocateLoop] at h
    split at h
    · cases h
      exact ⟨hs, fun i m' ho => .inl ho⟩
    · dsimp only at h
      split at h
      · cases h
      · rename_i r hr
        split at h
        · cases h
          have hsize := hs.updResource s.nextAllocateTunerId fun r =>
            r.allocate s.nextAllocateTunerId m
          refine ⟨⟨hsize.length_eq, hsize.max_le⟩, fun i m' ho => ?_⟩
          by_cases hi : s.nextAllocateTunerId = i
          · subst hi
            obtain ⟨r', hr', hne, rfl⟩ := owner_eq_some.mp ho
            simp only [setNext, updResource, List.getElem?_modify, hr] at hr'
            cases hr'
            exact .inr ⟨rfl, hne, rfl⟩
          · left
            simpa [owner, setNext, updResource, hi] using ho
        · exact allocateLoop_owner (s := s.setNext) h ⟨hs.length_eq, hs.max_le⟩

theorem Sized.step (hs : s.Sized) (h : step s op = some t) : t.Sized := by
  cases tunerStep hs.max_le h with
  | opened hl hopen =>
    obtain ⟨r, halloc, heq⟩ := Option.map_eq_some_iff.mp hopen
    cases heq
    exact (allocateLoop_owner halloc hs).1
  | closed hl =>
    rw [onClose, release]
    split_ifs
    · exact hs
    · exact hs.updResource _ _
    · exact hs
  | kept => exact ⟨hs.length_eq, hs.max_le⟩
  | tuned l rs b =>
    have hupd := hs.updResource l.tunerId fun r => { r with isNowTuned := b }
    exact ⟨hupd.length_eq, hupd.max_le⟩

/-- **A module has a tuner** only if it had it before, or `open` has just replied it. -/
theorem owner_of_step (hs : s.Sized) (h : step s op = some t) {i : ℕ} {m : ModuleId}
    (ho : t.owner i = some m) :
    s.owner i = some m ∨
      ∃ caller, op = .openReq caller ∧ callerOf caller = m ∧
        (s.onOpen m).map Prod.fst = some (some i) := by
  cases tunerStep hs.max_le h with
  | opened hl hopen =>
    obtain ⟨⟨id, u⟩, halloc, heq⟩ := Option.map_eq_some_iff.mp hopen
    cases heq
    rcases (allocateLoop_owner halloc hs).2 i m ho with ho | ⟨rfl, hne, rfl⟩
    · exact .inl ho
    · refine .inr ⟨_, rfl, rfl, ?_⟩
      rw [hopen, Option.map_some, if_pos hne]
  | @closed caller tunerId hl =>
    left
    rw [onClose, release] at ho
    split_ifs at ho
    · exact ho
    · rw [owner_clear] at ho
      split_ifs at ho
      exact ho
    · exact ho
  | kept => exact .inl ho
  | tuned l rs b hopn hc hl =>
    left
    have hupd := owner_updResource (s := s) (f := fun r => { r with isNowTuned := b })
      (j := l.tunerId) i (fun _ => rfl) fun _ => rfl
    exact hupd.symm.trans ho

/-- The entry of the tuner says that it is tuned. -/
def isTuned (s : TunerService) (i : ℕ) : Bool := s.resourceAllocates[i]?.any Resource.isNowTuned

theorem owner_onClose (hs : s.Sized) {i : ℕ} (ht : s.isTuned i = false) :
    (s.onClose i).2.owner i = none := by
  rw [onClose, release]
  split_ifs with hi htuned
  · exact absurd htuned (by rw [← isTuned, ht]; exact Bool.false_ne_true)
  · rw [owner_clear, if_pos rfl]
  · rw [owner, List.getElem?_eq_none (by rw [hs.length_eq]; omega)]
    rfl

end TunerService

end AutoRec
