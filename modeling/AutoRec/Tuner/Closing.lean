import AutoRec.Tuner.Allocation

/-!
# Whose tuner is closed

`release` does not look at who has the tuner, as `pre_check` does for `tune` and `tune_stop`.

* `owner`: the module that a tuner has been given to.
* `KeepsOwner`: a step takes a tuner from its owner only with a `close` by the owner.
* `OwnCloses`: no tuner is closed by another module, unless it is tuned.
* `keepsOwner_iff`: the one if and only if the other.
* **`keepsOwner_reach`**: in every run, and what it is for the owner.
-/

namespace AutoRec

open Machine

namespace TunerService

variable {s t : TunerService} {op : TunerOp}

/-- The module that the tuner `i` has been given to. -/
def owner (s : TunerService) (i : ℕ) : Option ModuleId :=
  s.resourceAllocates[i]?.bind fun r => if r.tunerId = 0xff then none else some r.moduleId

/-- A `close` of the tuner `i` by `m`. -/
def ClosedBy (m : ModuleId) (i : ℕ) (op : TunerOp) : Prop :=
  ∃ caller, op = .closeReq caller i ∧ callerOf caller = m

/-- A tuner is taken from its owner `m` only with a `close` by `m`; a `close` by another module
fails and leaves it as it is, and a `tune` or `tune_stop` by another module changes nothing. -/
def KeepsOwner (s : TunerService) (op : TunerOp) (t : TunerService) : Prop :=
  ∀ i m, s.owner i = some m →
    (t.owner i ≠ some m → ClosedBy m i op) ∧
    ∀ caller, callerOf caller ≠ m →
      (op = .closeReq caller i →
        (s.onClose i).1 = false ∧ t.resourceAllocates[i]? = s.resourceAllocates[i]?) ∧
      (op = .tune caller i ∨ op = .tuneStop caller i → t = s)

/-- A tuner that is closed by another module than its owner is tuned. -/
def OwnCloses (s : TunerService) (op : TunerOp) : Prop :=
  ∀ caller i m, op = .closeReq caller i → s.owner i = some m → callerOf caller ≠ m →
    ∃ r, s.resourceAllocates[i]? = some r ∧ r.isNowTuned

theorem owner_eq_some {i : ℕ} {m : ModuleId} :
    s.owner i = some m ↔
      ∃ r, s.resourceAllocates[i]? = some r ∧ r.tunerId ≠ 0xff ∧ r.moduleId = m := by
  simp only [owner, Option.bind_eq_some_iff]
  constructor
  · rintro ⟨r, hr, h⟩
    split at h
    · cases h
    · exact ⟨r, hr, ‹_›, Option.some.inj h⟩
  · rintro ⟨r, hr, hne, rfl⟩
    exact ⟨r, hr, if_neg hne⟩

theorem preCheck_other {i : ℕ} {m m' : ModuleId} (ho : s.owner i = some m) (hm : m' ≠ m)
    (isReqTune : Bool) : s.preCheck i m' isReqTune = false := by
  obtain ⟨r, hr, -, rfl⟩ := owner_eq_some.mp ho
  simp [preCheck, hr, hm.symm]

theorem owner_updResource {f : Resource → Resource} {j : ℕ} (i : ℕ)
    (hid : ∀ r, (f r).tunerId = r.tunerId) (hm : ∀ r, (f r).moduleId = r.moduleId) :
    (s.updResource j f).owner i = s.owner i := by
  simp only [owner, updResource, List.getElem?_modify]
  cases s.resourceAllocates[i]? with
  | none => rfl
  | some r =>
    by_cases hj : j = i
    · simp [hj, hid, hm]
    · simp [hj]

theorem owner_giveTo {i id : ℕ} {m m' : ModuleId} (hfree : s.isFree id) (ho : s.owner i = some m) :
    (s.giveTo m' id).owner i = some m := by
  obtain ⟨r, hr, hne, rfl⟩ := owner_eq_some.mp ho
  obtain ⟨r', hr', hff⟩ := hfree
  have hi : id ≠ i := by
    rintro rfl
    rw [hr, Option.some.injEq] at hr'
    exact hne (hr' ▸ hff)
  exact owner_eq_some.mpr ⟨r, by simpa [giveTo, hi] using hr, hne, rfl⟩

theorem owner_step (hI : s.TunerInv) (hs : step s op = some t) {i : ℕ} {m : ModuleId}
    (ho : s.owner i = some m) (hop : ∀ caller, op ≠ .closeReq caller i) : t.owner i = some m := by
  cases tunerStep hI.max_le hs with
  | opened hl hopen =>
    rcases onOpen_inv hI.alloc hI.max_le hopen with ⟨-, rfl⟩ | ⟨id, -, ⟨k, -, -, hfree, -⟩, rfl⟩
    · exact ho
    · exact owner_giveTo hfree ho
  | closed hl =>
    rename_i caller tunerId
    have hne : tunerId ≠ i := by
      rintro rfl
      exact hop caller rfl
    have hget : (s.onClose tunerId).2.resourceAllocates[i]? = s.resourceAllocates[i]? := by
      rw [onClose, release]
      split
      · split
        · rfl
        · simp [updResource, hne]
      · rfl
    rwa [owner, hget]
  | kept l rs hopn hc hlock => exact ho
  | tuned l rs b hopn hc hl =>
    have hupd := owner_updResource (s := s) (f := fun r => { r with isNowTuned := b })
      (j := l.tunerId) i (fun _ => rfl) fun _ => rfl
    exact hupd.trans ho

theorem release_owned (hI : s.TunerInv) {i : ℕ} {r : Resource}
    (hr : s.resourceAllocates[i]? = some r) :
    s.release i = if r.isNowTuned then (false, s) else (true, s.updResource i fun _ => .clear) := by
  obtain ⟨hi, -⟩ := List.getElem?_eq_some_iff.mp hr
  rw [release, if_pos (hI.alloc.length_eq ▸ hi), hr, Option.any_some]

theorem step_closeReq {caller i : ℕ} (hs : step s (.closeReq caller i) = some t) :
    t = (s.onClose i).2 := by
  rw [step.eq_def] at hs
  cases hl : s.locked with
  | none =>
    rw [hl] at hs
    exact (Option.some.inj hs).symm
  | some l =>
    rw [hl] at hs
    cases l <;> cases hs

theorem step_other {caller i : ℕ} {m : ModuleId} (ho : s.owner i = some m)
    (hm : callerOf caller ≠ m) (hop : op = .tune caller i ∨ op = .tuneStop caller i)
    (hs : step s op = some t) : t = s := by
  have hfree : s.locked = none := by
    cases hl : s.locked with
    | none => rfl
    | some l =>
      rw [step.eq_def, hl] at hs
      rcases hop with rfl | rfl <;> cases l <;> cases hs
  rw [step.eq_def, hfree] at hs
  rcases hop with rfl | rfl
  · simp only [stepFree] at hs
    split at hs
    · cases hs
    · rw [Option.some.injEq, onTune, if_neg (by simp [preCheck_other ho hm])] at hs
      exact hs.symm
  · simp only [stepFree] at hs
    rw [Option.some.injEq, onTuneStop, if_neg (by simp [preCheck_other ho hm])] at hs
    exact hs.symm

/-- **A step keeps the owners if and only if no tuner that is not tuned is closed by another
module.** -/
theorem keepsOwner_iff (hI : s.TunerInv) (hs : step s op = some t) :
    KeepsOwner s op t ↔ OwnCloses s op := by
  constructor
  · rintro hkeep caller i m rfl ho hm
    obtain ⟨r, hr, -, -⟩ := owner_eq_some.mp ho
    refine ⟨r, hr, ?_⟩
    have hfail := (((hkeep i m ho).2 caller hm).1 rfl).1
    rw [onClose, release_owned hI hr] at hfail
    by_contra hnt
    rw [if_neg hnt] at hfail
    cases hfail
  · intro hown i m ho
    have hclose : ∀ caller, callerOf caller ≠ m → op = .closeReq caller i →
        (s.onClose i).1 = false ∧ t = s := by
      rintro caller hm rfl
      obtain ⟨r, hr, hnt⟩ := hown caller i m rfl ho hm
      have hrel := release_owned hI hr
      rw [if_pos hnt] at hrel
      rw [step_closeReq hs, onClose, hrel]
      exact ⟨rfl, rfl⟩
    refine ⟨?_, fun caller hm => ⟨fun hop => ?_, fun hop => step_other ho hm hop hs⟩⟩
    · intro hlost
      by_contra hnot
      apply hlost
      by_cases hop : ∃ caller, op = .closeReq caller i
      · obtain ⟨caller, hop⟩ := hop
        have hm : callerOf caller ≠ m := fun hm => hnot ⟨caller, hop, hm⟩
        rw [(hclose caller hm hop).2]
        exact ho
      · exact owner_step hI hs ho fun caller h => hop ⟨caller, h⟩
    · obtain ⟨hfail, rfl⟩ := hclose caller hm hop
      exact ⟨hfail, rfl⟩

/-- **In every run**: a step keeps the owners if and only if no tuner that is not tuned is closed by
another module, and without such steps a module has its tuner until it closes it. -/
theorem keepsOwner_reach {tunerHalAllocates : List String} (h : tunerHalAllocates ≠ [])
    (hr : Reach step anyStep (moduleUp tunerHalAllocates) s) :
    (∀ op t, step s op = some t → (KeepsOwner s op t ↔ OwnCloses s op)) ∧
      ∀ i m, s.owner i = some m → ∀ t,
        Reach step (fun s op => OwnCloses s op ∧ ¬ ClosedBy m i op) s t → t.owner i = some m := by
  refine ⟨fun op t hs => keepsOwner_iff (tunerInv_reach h hr) hs, ?_⟩
  intro i m ho t hrun
  have hreach : ∀ t, Reach step (fun s op => OwnCloses s op ∧ ¬ ClosedBy m i op) s t →
      t.TunerInv := fun t hrun => tunerInv_reach h (hr.trans hrun.any)
  apply hrun.inv₂ TunerInv (fun t => t.owner i = some m) hreach ho
  intro s op t hI _ ho hok hs
  by_contra hlost
  exact hok.2 ((((keepsOwner_iff hI hs).mpr hok.1) i m ho).1 hlost)

theorem keepsOwner_reach_twoRun :
    (∀ op t, step twoState op = some t → (KeepsOwner twoState op t ↔ OwnCloses twoState op)) ∧
      ∀ i m, twoState.owner i = some m → ∀ t,
        Reach step (fun s op => OwnCloses s op ∧ ¬ ClosedBy m i op) twoState t →
          t.owner i = some m :=
  keepsOwner_reach (by decide) (reach_of_exec exec_twoRun)

/-- The recording manager opens a tuner, and the viewing manager closes it before it is tuned. -/
theorem not_keepsOwner :
    ¬ ∀ s, Reach step anyStep (moduleUp twoTuners) s → ∀ op t, step s op = some t →
      KeepsOwner s op t := by
  intro h
  have hopen : exec step (moduleUp twoTuners) [.openReq 13] =
      some ((moduleUp twoTuners).giveTo .recManager 0) := by decide
  have hclose : step ((moduleUp twoTuners).giveTo .recManager 0) (.closeReq 17 0) =
      some ((moduleUp twoTuners).setNext) := by decide
  have hkeep := h _ (reach_of_exec hopen) _ _ hclose
  obtain ⟨caller, hop, hm⟩ := (hkeep 0 .recManager (by decide)).1 (by decide)
  cases hop
  exact absurd hm (by decide)

end TunerService

end AutoRec
