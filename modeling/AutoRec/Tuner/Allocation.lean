import AutoRec.Tuner.Service

/-!
# The allocation of tuners

* `AllocOk`: the entries of the tuners are sound.
* `allocateLoop_spec`: the loop of `allocate_round_robin` takes the first free tuner.
* `TunerStep`, `tunerStep`: what a step does.
* `TunerInv`: the invariant, `tunerInv_reach`: it holds in every state reached.
* **`opensFirst_reach`**: in every state reached the entries are sound, and `open` takes the first
  free tuner.
-/

namespace AutoRec

open Machine

namespace TunerService

/-- The entry `i` is free. -/
def isFree (s : TunerService) (i : ℕ) : Prop :=
  ∃ r, s.resourceAllocates[i]? = some r ∧ r.tunerId = 0xff

/-- The entries are sound. -/
structure AllocOk (s : TunerService) : Prop where
  length_eq : s.resourceAllocates.length = s.tunerResourceMax
  next_lt : s.nextAllocateTunerId < s.tunerResourceMax
  /-- An entry is free, or has its own index. -/
  slot : ∀ (i : ℕ) (r : Resource), s.resourceAllocates[i]? = some r → r.tunerId = 0xff ∨ r.tunerId = i
  tuned : ∀ r ∈ s.resourceAllocates, r.isNowTuned → r.tunerId ≠ 0xff

/-- `id` is the first free tuner, from the next one on. -/
def IsFirstFree (s : TunerService) (id : ℕ) : Prop :=
  ∃ k < s.tunerResourceMax, id = (s.nextAllocateTunerId + k) % s.tunerResourceMax ∧ s.isFree id ∧
    ∀ j < k, ¬ s.isFree ((s.nextAllocateTunerId + j) % s.tunerResourceMax)

/-- `s`, in which `m` has been given `id`. -/
def giveTo (s : TunerService) (m : ModuleId) (id : ℕ) : TunerService :=
  { s with
    resourceAllocates := s.resourceAllocates.set id ⟨id, m, getPriority m, false⟩
    nextAllocateTunerId := (id + 1) % s.tunerResourceMax }

/-- `open` by `m` succeeds if there is a free tuner, and then takes the first one. -/
def OpensFirst (s : TunerService) (m : ModuleId) : Prop :=
  ∃ r t, s.onOpen m = some (r, t) ∧ (r.isSome ↔ ∃ i, s.isFree i) ∧ (r = none → t = s) ∧
    ∀ id, r = some id → s.IsFirstFree id ∧ t = s.giveTo m id

/-! ## The loop -/

theorem setNext_eq {s : TunerService} (hlt : s.nextAllocateTunerId < s.tunerResourceMax)
    (hmax : s.tunerResourceMax ≤ 255) :
    s.setNext =
      { s with nextAllocateTunerId := (s.nextAllocateTunerId + 1) % s.tunerResourceMax } := by
  have h256 : (s.nextAllocateTunerId + 1) % 256 = s.nextAllocateTunerId + 1 :=
    Nat.mod_eq_of_lt (by omega)
  rw [setNext, h256]
  by_cases heq : s.nextAllocateTunerId + 1 = s.tunerResourceMax
  · rw [if_pos heq, heq, Nat.mod_self]
  · rw [if_neg heq, Nat.mod_eq_of_lt (by omega)]

theorem add_mod_ne {a n m : ℕ} (ha : a < m) (hn : n < m) (h0 : n ≠ 0) : (a + n) % m ≠ a := by
  by_cases hlt : a + n < m
  · rw [Nat.mod_eq_of_lt hlt]
    omega
  · rw [Nat.mod_eq_sub_mod (by omega), Nat.mod_eq_of_lt (by omega)]
    omega

theorem add_mod_add_one {a n m : ℕ} : ((a + n) % m + 1) % m = (a + (n + 1)) % m := by
  rw [Nat.mod_add_mod, Nat.add_assoc]

theorem exists_turn {a i m : ℕ} (ha : a < m) (hi : i < m) : ∃ k < m, (a + k) % m = i := by
  by_cases hle : a ≤ i
  · exact ⟨i - a, by omega, by rw [show a + (i - a) = i by omega, Nat.mod_eq_of_lt hi]⟩
  · refine ⟨i + m - a, by omega, ?_⟩
    rw [show a + (i + m - a) = i + m by omega, Nat.add_mod_right, Nat.mod_eq_of_lt hi]

/-- The state in the turn `n`. -/
def atTurn (s : TunerService) (n : ℕ) : TunerService :=
  { s with nextAllocateTunerId := (s.nextAllocateTunerId + n) % s.tunerResourceMax }

theorem atTurn_zero {s : TunerService} (hok : s.AllocOk) : s.atTurn 0 = s := by
  rw [atTurn, Nat.add_zero, Nat.mod_eq_of_lt hok.next_lt]

theorem atTurn_max {s : TunerService} (hok : s.AllocOk) : s.atTurn s.tunerResourceMax = s := by
  rw [atTurn, Nat.add_mod_right, Nat.mod_eq_of_lt hok.next_lt]

theorem setNext_atTurn {s : TunerService} (hok : s.AllocOk) (hmax : s.tunerResourceMax ≤ 255)
    (n : ℕ) : (s.atTurn n).setNext = s.atTurn (n + 1) := by
  have hpos : 0 < s.tunerResourceMax := Nat.zero_lt_of_lt hok.next_lt
  have h := setNext_eq (s := s.atTurn n) (Nat.mod_lt _ hpos) hmax
  rw [h]
  simp only [atTurn, add_mod_add_one]

theorem setNext_updResource {s : TunerService} (hok : s.AllocOk) (hmax : s.tunerResourceMax ≤ 255)
    {n id : ℕ} (hid : id = (s.nextAllocateTunerId + n) % s.tunerResourceMax) {r : Resource}
    (m : ModuleId) (hr : s.resourceAllocates[id]? = some r) (hfree : r.tunerId = 0xff) :
    ((s.atTurn n).updResource id fun r => r.allocate id m).setNext = s.giveTo m id := by
  have hlt : (s.nextAllocateTunerId + n) % s.tunerResourceMax < s.tunerResourceMax :=
    Nat.mod_lt _ (Nat.zero_lt_of_lt hok.next_lt)
  have hnt : r.isNowTuned = false := by
    by_contra h
    exact hok.tuned r (List.mem_of_getElem? hr) (by simpa using h) hfree
  have hset : (s.resourceAllocates.modify id fun r => r.allocate id m) =
      s.resourceAllocates.set id ⟨id, m, getPriority m, false⟩ := by
    apply List.ext_getElem?
    intro j
    rw [List.getElem?_modify, List.getElem?_set]
    by_cases hj : id = j
    · subst hj
      obtain ⟨hi, hget⟩ := List.getElem?_eq_some_iff.mp hr
      simp [hi, hget, Resource.allocate, hnt]
    · simp [hj]
  have hupd := setNext_eq (s := (s.atTurn n).updResource id fun r => r.allocate id m) hlt hmax
  rw [hupd]
  simp only [updResource, atTurn, giveTo, hset, ← hid]

/-- **The loop takes the first free tuner**: in its turn `n`, without one in the turns before. -/
theorem allocateLoop_spec {s : TunerService} (hok : s.AllocOk) (hmax : s.tunerResourceMax ≤ 255)
    (m : ModuleId) :
    ∀ (fuel n : ℕ), n ≤ s.tunerResourceMax → s.tunerResourceMax < fuel + n →
      (∀ j < n, ¬ s.isFree ((s.nextAllocateTunerId + j) % s.tunerResourceMax)) →
      (allocateLoop m s.nextAllocateTunerId fuel n (s.atTurn n) = some (0xff, s) ∧
        ∀ j < s.tunerResourceMax,
          ¬ s.isFree ((s.nextAllocateTunerId + j) % s.tunerResourceMax)) ∨
      ∃ id, s.IsFirstFree id ∧
        allocateLoop m s.nextAllocateTunerId fuel n (s.atTurn n) = some (id, s.giveTo m id) := by
  intro fuel
  induction fuel with
  | zero =>
    intro n hle hfuel
    omega
  | succ fuel ih =>
    intro n hle hfuel hbefore
    have hpos : 0 < s.tunerResourceMax := Nat.zero_lt_of_lt hok.next_lt
    rw [allocateLoop]
    by_cases hend : n = s.tunerResourceMax
    · -- all have been looked at
      subst hend
      left
      refine ⟨?_, hbefore⟩
      rw [atTurn_max hok, if_pos ⟨rfl, by omega⟩]
    · have hturn : ¬ (s.nextAllocateTunerId = (s.atTurn n).nextAllocateTunerId ∧ n ≠ 0) := by
        rintro ⟨heq, h0⟩
        exact add_mod_ne hok.next_lt (by omega) h0 heq.symm
      have hlt : (s.nextAllocateTunerId + n) % s.tunerResourceMax < s.resourceAllocates.length := by
        rw [hok.length_eq]
        exact Nat.mod_lt _ hpos
      obtain ⟨r, hr⟩ : ∃ r, s.resourceAllocates[(s.nextAllocateTunerId + n) %
          s.tunerResourceMax]? = some r := ⟨_, List.getElem?_eq_getElem hlt⟩
      have hr' : (s.atTurn n).resourceAllocates[(s.atTurn n).nextAllocateTunerId]? = some r := hr
      rw [if_neg hturn]
      simp only [hr']
      by_cases hfree : r.tunerId = 0xff
      · right
        refine ⟨_, ⟨n, by omega, rfl, ⟨r, hr, hfree⟩, hbefore⟩, ?_⟩
        rw [if_pos hfree]
        exact congrArg some (Prod.ext rfl (setNext_updResource hok hmax rfl m hr hfree))
      · rw [if_neg hfree, setNext_atTurn hok hmax]
        apply ih (n + 1) (by omega) (by omega)
        intro j hj
        by_cases hjn : j = n
        · subst hjn
          rintro ⟨r', hr'', hfree'⟩
          rw [hr] at hr''
          exact hfree (Option.some.inj hr'' ▸ hfree')
        · exact hbefore j (by omega)

/-- **`open` takes the first free tuner.** -/
theorem opensFirst {s : TunerService} (hok : s.AllocOk) (hmax : s.tunerResourceMax ≤ 255)
    (m : ModuleId) : s.OpensFirst m := by
  have hloop := allocateLoop_spec hok hmax m (s.tunerResourceMax + 1) 0 (by omega) (by omega)
    (by omega)
  rw [atTurn_zero hok] at hloop
  rcases hloop with ⟨hnone, hall⟩ | ⟨id, hfirst, hsome⟩
  · refine ⟨none, s, ?_, ?_, fun _ => rfl, by simp⟩
    · rw [onOpen, allocateRoundRobin, hnone]
      rfl
    · have hno : ¬ ∃ i, s.isFree i := by
        rintro ⟨i, r, hr, hfree⟩
        obtain ⟨hi, -⟩ := List.getElem?_eq_some_iff.mp hr
        obtain ⟨k, hk, heq⟩ := exists_turn hok.next_lt (hok.length_eq ▸ hi)
        exact hall k hk ⟨r, heq ▸ hr, hfree⟩
      simp [hno]
  · have hid : id ≠ 0xff := by
      obtain ⟨k, hk, heq, -⟩ := hfirst
      have := Nat.mod_lt (s.nextAllocateTunerId + k) (Nat.zero_lt_of_lt hok.next_lt)
      omega
    refine ⟨some id, s.giveTo m id, ?_, ?_, by simp, ?_⟩
    · rw [onOpen, allocateRoundRobin, hsome, Option.map_some, if_pos hid]
    · obtain ⟨k, hk, heq, hfree, -⟩ := hfirst
      simp only [Option.isSome_some, true_iff]
      exact ⟨id, hfree⟩
    · intro id' h
      cases h
      exact ⟨hfirst, rfl⟩

end TunerService

/-! ## Steps -/

/-- The tuner that the lock is held for. -/
def Locked.tunerId : Locked → ℕ
  | .tune tunerId _ => tunerId
  | .psisi tunerId _ _ => tunerId
  | .giveUp tunerId _ => tunerId
  | .tuneStop tunerId => tunerId

namespace TunerService

/-- The entry `i` has been given to someone. -/
def isAllocated (s : TunerService) (i : ℕ) : Prop :=
  ∃ r, s.resourceAllocates[i]? = some r ∧ r.tunerId ≠ 0xff

/-- What a step does with the entries. -/
inductive TunerStep (s : TunerService) : TunerOp → TunerService → Prop
  | opened {caller : ℕ} {r : Option ℕ} {t : TunerService} :
      s.locked = none → s.onOpen (callerOf caller) = some (r, t) →
      TunerStep s (.openReq caller) t
  | closed {caller tunerId : ℕ} :
      s.locked = none → TunerStep s (.closeReq caller tunerId) (s.onClose tunerId).2
  /-- The entries are kept; who takes the lock, takes it for an allocated tuner. -/
  | kept {op : TunerOp} (l : Option Locked) (rs : List RetryRun) :
      (∀ caller, op ≠ .openReq caller) → (∀ caller tunerId, op ≠ .closeReq caller tunerId) →
      (∀ x ∈ l, s.isAllocated x.tunerId ∨ ∃ y ∈ s.locked, x.tunerId = y.tunerId) →
      TunerStep s op { s with locked := l, retries := rs }
  /-- The tuner of the lock is tuned now, or not any more. -/
  | tuned {op : TunerOp} (l : Locked) (rs : List RetryRun) (b : Bool) :
      (∀ caller, op ≠ .openReq caller) → (∀ caller tunerId, op ≠ .closeReq caller tunerId) →
      s.locked = some l →
      TunerStep s op
        { s.updResource l.tunerId (fun r => { r with isNowTuned := b }) with
          locked := none, retries := rs }

/-- What `pre_check` allows is allocated. -/
theorem isAllocated_of_preCheck {s : TunerService} (hmax : s.tunerResourceMax ≤ 255) {tunerId : ℕ}
    {m : ModuleId} {isReqTune : Bool} (h : s.preCheck tunerId m isReqTune = true) :
    s.isAllocated tunerId := by
  simp only [preCheck, Bool.and_eq_true, decide_eq_true_eq, Option.any_eq_true] at h
  obtain ⟨hlt, r, hr, ⟨hid, -⟩, -⟩ := h
  exact ⟨r, hr, by omega⟩

theorem replyTune_eq (s : TunerService) (retryIdx : Option ℕ) (ok : Bool) :
    ∃ rs, s.replyTune retryIdx ok = { s with retries := rs } := by
  cases retryIdx with
  | none => exact ⟨s.retries, rfl⟩
  | some k => exact ⟨_, rfl⟩

theorem TunerStep.onTune {s : TunerService} (hmax : s.tunerResourceMax ≤ 255)
    (hl : s.locked = none) {op : TunerOp} (ho : ∀ caller, op ≠ .openReq caller)
    (hc : ∀ caller tunerId, op ≠ .closeReq caller tunerId) (rs : List RetryRun) (tunerId : ℕ)
    (m : ModuleId) (retryIdx : Option ℕ) :
    TunerStep s op (({ s with retries := rs } : TunerService).onTune tunerId m retryIdx) := by
  rw [TunerService.onTune]
  by_cases hpre : ({ s with retries := rs } : TunerService).preCheck tunerId m true = true
  · rw [if_pos hpre]
    refine .kept (some (.tune tunerId retryIdx)) rs ho hc ?_
    intro x hx
    cases hx
    exact .inl (isAllocated_of_preCheck (s := s) hmax hpre)
  · rw [if_neg hpre]
    obtain ⟨rs', hrs⟩ := replyTune_eq { s with retries := rs } retryIdx false
    rw [hrs, show s = { s with locked := none } by rw [← hl]]
    exact .kept none rs' ho hc (by simp)

theorem tunerStep_free {s t : TunerService} {op : TunerOp} (hmax : s.tunerResourceMax ≤ 255)
    (hl : s.locked = none) (hs : s.stepFree op = some t) : TunerStep s op t := by
  cases op with
  | openReq caller =>
    rw [stepFree, Option.map_eq_some_iff] at hs
    obtain ⟨⟨r, u⟩, hopen, rfl⟩ := hs
    exact .opened hl hopen
  | closeReq caller tunerId =>
    rw [stepFree, Option.some.injEq] at hs
    subst hs
    exact .closed hl
  | tune caller tunerId =>
    rw [stepFree] at hs
    by_cases hself : callerOf caller = .tunerService
    · rw [if_pos hself] at hs
      cases hs
    · rw [if_neg hself, Option.some.injEq] at hs
      subst hs
      exact .onTune hmax hl (by simp) (by simp) s.retries tunerId _ none
  | tuneWithRetry caller tunerId =>
    rw [stepFree] at hs
    by_cases hself : callerOf caller = .tunerService
    · rw [if_pos hself] at hs
      cases hs
    · rw [if_neg hself, Option.some.injEq, onTuneWithRetry] at hs
      have hkept : ∀ rs, TunerStep s (.tuneWithRetry caller tunerId)
          { s with locked := none, retries := rs } := fun rs =>
        .kept none rs (by simp) (by simp) (by simp)
      rw [← hl] at hkept
      split at hs
      · exact hs ▸ hkept _
      · exact hs ▸ hkept s.retries
  | tuneStop caller tunerId =>
    rw [stepFree, Option.some.injEq, onTuneStop] at hs
    by_cases hpre : s.preCheck tunerId (callerOf caller) false = true
    · rw [if_pos hpre] at hs
      subst hs
      refine .kept (some (.tuneStop tunerId)) s.retries (by simp) (by simp) ?_
      intro x hx
      cases hx
      exact .inl (isAllocated_of_preCheck hmax hpre)
    · rw [if_neg hpre] at hs
      subst hs
      have hkept : TunerStep s (.tuneStop caller tunerId)
          { s with locked := none, retries := s.retries } :=
        .kept none s.retries (by simp) (by simp) (by simp)
      rwa [← hl] at hkept
  | retryTune k =>
    rw [stepFree] at hs
    split at hs
    · rw [Option.some.injEq] at hs
      subst hs
      exact .onTune hmax hl (by simp) (by simp) _ _ _ _
    · cases hs
  | retryReply k =>
    rw [stepFree] at hs
    split at hs
    · rw [Option.some.injEq] at hs
      subst hs
      have hkept : ∀ rs, TunerStep s (.retryReply k) { s with locked := none, retries := rs } :=
        fun rs => .kept none rs (by simp) (by simp) (by simp)
      rw [← hl] at hkept
      exact hkept _
    · cases hs
  | tuneReply ok => cases hs
  | psisiState ready => cases hs
  | tuneStopReply ok => cases hs

theorem tunerStep_locked {s t : TunerService} {op : TunerOp} {l : Locked}
    (hl : s.locked = some l) (hs : step s op = some t) : TunerStep s op t := by
  rw [step.eq_def, hl] at hs
  have hkeep : ∀ (l' : Option Locked) (rs : List RetryRun),
      (∀ x ∈ l', x.tunerId = l.tunerId) → (∀ caller, op ≠ .openReq caller) →
      (∀ caller tunerId, op ≠ .closeReq caller tunerId) →
      TunerStep s op { s with locked := l', retries := rs } := by
    intro l' rs hid ho hc
    exact .kept l' rs ho hc fun x hx => .inr ⟨l, hl, hid x hx⟩
  cases l with
  | tune tunerId retryIdx =>
    cases op with
    | tuneReply ok =>
      rw [Option.some.injEq, onTuneReply] at hs
      split at hs
      · exact hs ▸ hkeep _ s.retries (by simp [Locked.tunerId]) (by simp) (by simp)
      · obtain ⟨rs, hrs⟩ := replyTune_eq { s with locked := none } retryIdx false
        rw [hrs] at hs
        exact hs ▸ hkeep none rs (by simp) (by simp) (by simp)
    | _ => cases hs
  | psisi tunerId retry retryIdx =>
    cases op with
    | psisiState ready =>
      rw [Option.some.injEq, onPsisiState] at hs
      split at hs
      · obtain ⟨rs, hrs⟩ := replyTune_eq (({ s with locked := none } : TunerService).updResource
          tunerId fun r => { r with isNowTuned := true }) retryIdx true
        rw [hrs] at hs
        exact hs ▸ TunerStep.tuned (.psisi tunerId retry retryIdx) rs true (by simp) (by simp) hl
      · split at hs
        · exact hs ▸ hkeep _ s.retries (by simp [Locked.tunerId]) (by simp) (by simp)
        · exact hs ▸ hkeep _ s.retries (by simp [Locked.tunerId]) (by simp) (by simp)
    | _ => cases hs
  | giveUp tunerId retryIdx =>
    cases op with
    | tuneStopReply ok =>
      obtain ⟨rs, hrs⟩ := replyTune_eq { s with locked := none } retryIdx false
      simp only [Option.some.injEq] at hs
      rw [hrs] at hs
      exact hs ▸ hkeep none rs (by simp) (by simp) (by simp)
    | _ => cases hs
  | tuneStop tunerId =>
    cases op with
    | tuneStopReply ok =>
      simp only [Option.some.injEq, onTuneStopReply] at hs
      split at hs
      · exact hs ▸ TunerStep.tuned (.tuneStop tunerId) s.retries false (by simp) (by simp) hl
      · exact hs ▸ hkeep none s.retries (by simp) (by simp) (by simp)
    | _ => cases hs

/-- **What a step does.** -/
theorem tunerStep {s t : TunerService} {op : TunerOp} (hmax : s.tunerResourceMax ≤ 255)
    (hs : step s op = some t) : TunerStep s op t := by
  cases hl : s.locked with
  | none =>
    rw [step.eq_def, hl] at hs
    exact tunerStep_free hmax hl hs
  | some l => exact tunerStep_locked hl hs

/-! ## The invariant -/

/-- **The invariant**: the entries are sound, and the lock is held for an allocated tuner. -/
structure TunerInv (s : TunerService) : Prop where
  alloc : s.AllocOk
  max_le : s.tunerResourceMax ≤ 255
  locked : ∀ l ∈ s.locked, s.isAllocated l.tunerId

theorem tunerInv_moduleUp {tunerHalAllocates : List String} (h : tunerHalAllocates ≠ []) :
    (moduleUp tunerHalAllocates).TunerInv := by
  have hlen := length_resizeTunerHalAllocates tunerHalAllocates
  have hpos : 0 < tunerHalAllocates.length := List.length_pos_iff.mpr h
  have h4 : groupMax = 4 := rfl
  refine ⟨⟨?_, ?_, ?_, ?_⟩, ?_, ?_⟩
  · simp [moduleUp]
  · simp only [moduleUp, hlen]
    omega
  · intro i r hr
    simp only [moduleUp, List.getElem?_replicate] at hr
    split at hr
    · cases hr
      exact .inl rfl
    · cases hr
  · intro r hr
    rw [List.eq_of_mem_replicate hr]
    simp [Resource.clear]
  · simp only [moduleUp, hlen]
    omega
  · simp [moduleUp]

theorem AllocOk.giveTo {s : TunerService} (hok : s.AllocOk) (m : ModuleId) {id : ℕ}
    (hid : id < s.tunerResourceMax) : (s.giveTo m id).AllocOk := by
  refine ⟨?_, Nat.mod_lt _ (Nat.zero_lt_of_lt hid), ?_, ?_⟩
  · simp [TunerService.giveTo, hok.length_eq]
  · intro i r hr
    simp only [TunerService.giveTo, List.getElem?_set] at hr
    by_cases hi : id = i
    · rw [if_pos hi, hok.length_eq, if_pos hid] at hr
      cases hr
      exact .inr hi
    · rw [if_neg hi] at hr
      exact hok.slot i r hr
  · intro r hr
    rcases List.mem_or_eq_of_mem_set hr with hr | rfl
    · exact hok.tuned r hr
    · simp

theorem AllocOk.updResource {s : TunerService} (hok : s.AllocOk) {id : ℕ} {f : Resource → Resource}
    (hid : ∀ r, s.resourceAllocates[id]? = some r → (f r).tunerId = 0xff ∨ (f r).tunerId = id)
    (htuned : ∀ r, s.resourceAllocates[id]? = some r → (f r).isNowTuned → (f r).tunerId ≠ 0xff) :
    (s.updResource id f).AllocOk := by
  have hcase : ∀ (i : ℕ) (r : Resource), (s.resourceAllocates.modify id f)[i]? = some r →
      s.resourceAllocates[i]? = some r ∨
        ∃ r', i = id ∧ s.resourceAllocates[id]? = some r' ∧ r = f r' := by
    intro i r hr
    rw [List.getElem?_modify] at hr
    by_cases hi : id = i
    · subst hi
      simp only [if_true, Option.map_eq_map, Option.map_eq_some_iff] at hr
      obtain ⟨r', hr', rfl⟩ := hr
      exact .inr ⟨r', rfl, hr', rfl⟩
    · simp only [if_neg hi, Option.map_eq_map, Option.map_id_fun', id_eq] at hr
      exact .inl hr
  refine ⟨?_, hok.next_lt, ?_, ?_⟩
  · simp [TunerService.updResource, hok.length_eq]
  · intro i r hr
    rcases hcase i r hr with hr | ⟨r', rfl, hr', rfl⟩
    · exact hok.slot i r hr
    · exact hid r' hr'
  · intro r hr
    obtain ⟨i, hi⟩ := List.getElem?_of_mem hr
    rcases hcase i r hi with hr | ⟨r', rfl, hr', rfl⟩
    · exact hok.tuned r (List.mem_of_getElem? hr)
    · exact htuned r' hr'

theorem onOpen_inv {s t : TunerService} {m : ModuleId} {r : Option ℕ} (hok : s.AllocOk)
    (hmax : s.tunerResourceMax ≤ 255) (hopen : s.onOpen m = some (r, t)) :
    (r = none ∧ t = s) ∨ ∃ id, r = some id ∧ s.IsFirstFree id ∧ t = s.giveTo m id := by
  obtain ⟨r', t', hopen', -, hnone, hsome⟩ := opensFirst hok hmax m
  rw [hopen, Option.some.injEq, Prod.mk.injEq] at hopen'
  obtain ⟨rfl, rfl⟩ := hopen'
  cases r with
  | none => exact .inl ⟨rfl, hnone rfl⟩
  | some id =>
    obtain ⟨hfirst, ht⟩ := hsome id rfl
    exact .inr ⟨id, rfl, hfirst, ht⟩

/-- **A step keeps the invariant.** -/
theorem TunerInv.step {s t : TunerService} {op : TunerOp} (hI : s.TunerInv)
    (hs : TunerService.step s op = some t) : t.TunerInv := by
  cases tunerStep hI.max_le hs with
  | opened hl hopen =>
    rcases onOpen_inv hI.alloc hI.max_le hopen with ⟨-, rfl⟩ | ⟨id, -, ⟨k, -, hid, -⟩, rfl⟩
    · exact hI
    · have hlt : id < s.tunerResourceMax :=
        hid ▸ Nat.mod_lt _ (Nat.zero_lt_of_lt hI.alloc.next_lt)
      exact ⟨hI.alloc.giveTo _ hlt, hI.max_le, by simp [giveTo, hl]⟩
  | closed hl =>
    rename_i caller tunerId
    rw [onClose, release]
    split
    · split
      · exact hI
      · refine ⟨hI.alloc.updResource (fun _ _ => .inl rfl) (fun _ _ h => by cases h), hI.max_le, ?_⟩
        simp [updResource, hl]
    · exact hI
  | kept l rs ho hc hlock =>
    refine ⟨⟨hI.alloc.length_eq, hI.alloc.next_lt, hI.alloc.slot, hI.alloc.tuned⟩, hI.max_le, ?_⟩
    intro x hx
    rcases hlock x hx with h | ⟨y, hy, heq⟩
    · exact h
    · exact heq ▸ hI.locked y hy
  | tuned l rs b ho hc hl =>
    obtain ⟨r, hr, hne⟩ := hI.locked l hl
    have hok : (s.updResource l.tunerId fun r => { r with isNowTuned := b }).AllocOk := by
      apply hI.alloc.updResource
      · intro r' hr'
        exact hI.alloc.slot l.tunerId r' hr'
      · intro r' hr' _
        rw [hr, Option.some.injEq] at hr'
        exact hr' ▸ hne
    exact ⟨⟨hok.length_eq, hok.next_lt, hok.slot, hok.tuned⟩, hI.max_le, by simp⟩

/-- **The invariant holds in every state reached.** -/
theorem tunerInv_reach {tunerHalAllocates : List String} (h : tunerHalAllocates ≠ [])
    {s : TunerService}
    (hr : Reach TunerService.step anyStep (moduleUp tunerHalAllocates) s) : s.TunerInv :=
  hr.inv TunerInv (tunerInv_moduleUp h) fun _ _ _ hI _ hs => hI.step hs

/-- **In every state reached the entries are sound, and `open` takes the first free tuner.** -/
theorem opensFirst_reach {tunerHalAllocates : List String} (h : tunerHalAllocates ≠ [])
    {s : TunerService}
    (hr : Reach TunerService.step anyStep (moduleUp tunerHalAllocates) s) :
    s.AllocOk ∧ ∀ m, s.OpensFirst m := by
  have hI := tunerInv_reach h hr
  exact ⟨hI.alloc, opensFirst hI.alloc hI.max_le⟩

/-- Two tuners. -/
def twoTuners : List String := ["tuner0", "tuner1"]

/-- The recording manager opens a tuner and tunes it, the viewing manager opens the other one and
closes it before the first is tuned. -/
def twoRun : List TunerOp :=
  [.openReq 13, .openReq 17, .tuneWithRetry 13 0, .closeReq 17 1, .retryTune 0, .tuneReply true,
    .psisiState false, .psisiState true, .retryReply 0]

/-- The state after `twoRun`. -/
def twoState : TunerService where
  tunerResourceMax := 2
  resourceAllocates := [⟨0, .recManager, .recording, true⟩, .clear]
  nextAllocateTunerId := 0
  locked := none
  retries := [⟨0, .recManager, 3, .ended⟩]

theorem exec_twoRun : exec TunerService.step (moduleUp twoTuners) twoRun = some twoState := by
  decide

theorem opensFirst_reach_twoRun : twoState.AllocOk ∧ ∀ m, twoState.OpensFirst m :=
  opensFirst_reach (by decide) (reach_of_exec exec_twoRun)

end TunerService

end AutoRec
