import AutoRec.EventSchedule.Listed

/-!
# Batches are closed

A batch is opened by a reserve with `S_FLG` and closed by one with `E_FLG`, which may be deleted
because it is too late.

* `Closed`: behind every reserve that only opens a batch there is one that closes it; so it is with
  the batches and the retries that are put in (`closed_addReserves_batch`,
  `closed_addReserves_markRetries`).
* `Manager.ClosesBatch`: the last reserve with `E_FLG` is not lost while a batch is open, and the
  reserves that are retried are in the order of their failures.
* `Manager.Closing`: the invariant, and **`Manager.Closing.step`**.
-/

namespace AutoRec

namespace EventSchedule

/-! ## Reserves that close a batch -/

/-- Some reserve closes a batch. -/
def HasEnd (l : List Reserve) : Prop := ∃ r ∈ l, r.isEnd = true

instance instDecidableHasEnd (l : List Reserve) : Decidable (HasEnd l) :=
  inferInstanceAs (Decidable (∃ r ∈ l, r.isEnd = true))

/-- **Every batch is closed**: a reserve that only opens one has another behind it that closes it. -/
def Closed (l : List Reserve) : Prop :=
  ∀ r ∈ l, r.isStart = true → r.isEnd = false → ∃ e, e.isEnd = true ∧ [r, e].Sublist l

section Closed

variable {r : Reserve} {l l' new : List Reserve}

theorem HasEnd.mono (h : HasEnd l) (hsub : l.Sublist l') : HasEnd l' := by
  obtain ⟨r, hr, he⟩ := h
  exact ⟨r, hsub.mem hr, he⟩

theorem hasEnd_cons_iff : HasEnd (r :: l) ↔ r.isEnd = true ∨ HasEnd l := by
  simp [HasEnd]

theorem closed_nil : Closed [] := fun _ h => absurd h List.not_mem_nil

theorem Closed.hasEnd_tail (h : Closed (r :: l)) (hs : r.isStart = true) :
    r.isEnd = true ∨ HasEnd l := by
  rcases he : r.isEnd with _ | _
  · obtain ⟨e, hend, hsub⟩ := h r List.mem_cons_self hs he
    have hmem : e ∈ l := List.singleton_sublist.mp (List.cons_sublist_cons.mp hsub)
    exact .inr ⟨e, hmem, hend⟩
  · exact .inl rfl

theorem Closed.tail (h : Closed (r :: l)) (hr : r ∉ l) : Closed l := by
  intro s hs hstart hnot
  obtain ⟨e, hend, hsub⟩ := h s (List.mem_cons_of_mem r hs) hstart hnot
  rcases List.sublist_cons_iff.mp hsub with hsub | ⟨_, heq, -⟩
  · exact ⟨e, hend, hsub⟩
  · obtain rfl : s = r := (List.cons.inj heq).1
    exact absurd hs hr

theorem Closed.addReserves (h : Closed l) (ho : Ordered l) (htyped : ∀ r ∈ new, r.isInit = false)
    (hnew : ∀ r ∈ new, r.isStart = true → r.isEnd = false →
      ∃ e, e.isEnd = true ∧ [r, e].Sublist (addReserves new l)) :
    Closed (addReserves new l) := by
  intro r hr hstart hnot
  rcases mem_addReserves.mp hr with hr | hr
  · exact hnew r hr hstart hnot
  · obtain ⟨e, hend, hsub⟩ := h r hr hstart hnot
    exact ⟨e, hend, hsub.trans (sublist_addReserves ho htyped)⟩

end Closed

/-! ## The reserves of a batch -/

namespace Manager

theorem lt_addMin_one (t : Etime) : t < t.addMin 1 := by
  refine Etime.lt_def.mpr (.inl ?_)
  simp only [Etime.addMin]
  omega

theorem exists_isEnd_batch {chNum : ℕ} {channels : List ServiceKey} {i : ℕ} {t : Etime}
    (hlen : i + channels.length = chNum) (hne : channels ≠ []) :
    ∃ e ∈ batch chNum channels i t, e.isEnd = true ∧ t ≤ e.startTime ∧
      (channels.length ≠ 1 → t < e.startTime) := by
  induction channels generalizing i t with
  | nil => exact absurd rfl hne
  | cons key channels ih =>
    by_cases hnil : channels = []
    · refine ⟨_, List.mem_cons_self, ?_, le_refl t, ?_⟩
      · simp only [hnil, List.length_cons, List.length_nil] at hlen
        exact (batchType_flags i chNum).2.1.trans (decide_eq_true (by omega))
      · simp [hnil]
    · have hlen' : i + 1 + channels.length = chNum := by
        rw [List.length_cons] at hlen
        omega
      obtain ⟨e, he, hisEnd, hle, -⟩ := ih (t := t.addMin 1) hlen' hnil
      have hlt : t < e.startTime := lt_of_lt_of_le (lt_addMin_one t) hle
      exact ⟨e, List.mem_cons_of_mem _ he, hisEnd, hlt.le, fun _ => hlt⟩

/-- A batch is put in closed. -/
theorem closed_addReserves_batch {l : List Reserve} (h : Closed l) (ho : Ordered l)
    (channels : List ServiceKey) (t : Etime) :
    Closed (addReserves (batch channels.length channels 0 t) l) := by
  have htyped : ∀ r ∈ batch channels.length channels 0 t, r.isInit = false := fun r hr =>
    (of_mem_batch hr).2.1
  refine h.addReserves ho htyped fun r hr hstart hnot => ?_
  obtain ⟨-, htime, hend⟩ := (of_mem_batch hr).2.2.2 hstart
  rw [hnot] at hend
  have hone : channels.length ≠ 1 := fun h => absurd hend.symm (by simp [h])
  have hne : channels ≠ [] := by
    rintro rfl
    exact absurd hr List.not_mem_nil
  obtain ⟨e, he, hisEnd, -, hlt⟩ := exists_isEnd_batch (t := t) (Nat.zero_add _) hne
  refine ⟨e, hisEnd, pair_sublist_of_lt (ho.addReserves htyped).sorted ?_ ?_ ?_⟩
  · exact mem_addReserves.mpr (.inl hr)
  · exact mem_addReserves.mpr (.inl he)
  · rw [htime]
    exact hlt hone

end Manager

/-! ## The reserves that are retried -/

/-- The reserve `r` fails after `r₀`, or at the same time, and the last reserve of a batch that is made
of it is not there yet. -/
def FailsAfter (reserves : List Reserve) (r₀ r : Reserve) : Prop :=
  r₀.startTime < r.startTime ∨ r₀.startTime = r.startTime ∧ r.retryEnd ∉ reserves

instance instDecidableFailsAfter (l : List Reserve) (r₀ r : Reserve) :
    Decidable (FailsAfter l r₀ r) :=
  inferInstanceAs (Decidable (_ ∨ _ ∧ ¬ _))

theorem FailsAfter.imp {l l' : List Reserve} {r₀ r : Reserve} (h : FailsAfter l r₀ r)
    (himp : r.retryEnd ∈ l' → r.retryEnd ∈ l) : FailsAfter l' r₀ r := by
  rcases h with hlt | ⟨heq, hnot⟩
  · exact .inl hlt
  · exact .inr ⟨heq, fun hmem => hnot (himp hmem)⟩

theorem FailsAfter.of_subset {l l' : List Reserve} {r₀ r : Reserve} (h : FailsAfter l r₀ r)
    (hsub : l' ⊆ l) : FailsAfter l' r₀ r :=
  h.imp fun hmem => hsub hmem

theorem FailsAfter.addReserves {l new : List Reserve} {r₀ r : Reserve} (h : FailsAfter l r₀ r)
    (hnew : ∀ s ∈ new, s.type ≠ .normal ||| .eFlg ||| .nFlg) :
    FailsAfter (addReserves new l) r₀ r := by
  apply h.imp
  intro hmem
  exact (mem_addReserves.mp hmem).resolve_left fun hin => hnew _ hin rfl

theorem FailsAfter.addReserve {l : List Reserve} {r₀ r s : Reserve} (h : FailsAfter l r₀ r)
    (hs : s.type ≠ .normal ||| .eFlg ||| .nFlg) : FailsAfter (addReserve s l) r₀ r := by
  apply h.imp
  intro hmem
  exact (mem_addReserve.mp hmem).resolve_left fun heq => hs (heq ▸ rfl)

/-- The last of several reserves that are retried stands behind the first one. -/
theorem pair_sublist_closeRetries {s : Reserve} {rs l : List Reserve} (hne : rs ≠ [])
    (ho : Ordered l) (hs : s ∈ l) (hrs : ∀ r ∈ rs, r.type = .normal)
    (hafter : ∀ r ∈ rs, FailsAfter l s r) :
    ∃ e, e.isEnd = true ∧ [s, e].Sublist (addReserves (closeRetries rs) l) := by
  induction rs using closeRetries.induct generalizing l with
  | case1 => exact absurd rfl hne
  | case2 r =>
    obtain ⟨hinit, -, hend, -⟩ := retryEnd_flags r
    refine ⟨r.retryEnd, hend, ?_⟩
    show [s, r.retryEnd].Sublist (addReserve r.retryEnd l)
    rcases hafter r List.mem_cons_self with hlt | ⟨heq, hnot⟩
    · refine pair_sublist_of_lt (ho.addReserve hinit).sorted ?_ ?_ hlt
      · exact mem_addReserve.mpr (.inr hs)
      · exact mem_addReserve.mpr (.inl rfl)
    · exact pair_sublist_addReserve hs hnot heq.le
  | case3 r r' l' ih =>
    have htype := hrs r List.mem_cons_self
    apply ih (List.cons_ne_nil r' l') (ho.addReserve (normal_flags htype).1)
      (mem_addReserve.mpr (.inr hs))
    · exact fun q hq => hrs q (List.mem_cons_of_mem r hq)
    · intro q hq
      refine (hafter q (List.mem_cons_of_mem r hq)).addReserve ?_
      rw [htype]
      decide

theorem closed_addReserves_markRetries {rs l : List Reserve} (h : Closed l) (ho : Ordered l)
    (hrs : ∀ r ∈ rs, r.type = .normal)
    (hafter : ∀ r₀ rs', rs = r₀ :: rs' → ∀ r ∈ rs', FailsAfter l r₀ r) :
    Closed (addReserves (markRetries rs) l) := by
  refine h.addReserves ho (fun r hr => (of_mem_markRetries hrs r hr).1) fun r hr hstart hnot => ?_
  rcases rs with _ | ⟨r₀, _ | ⟨r₁, rs⟩⟩
  · exact absurd hr List.not_mem_nil
  · -- one reserve opens the batch and closes it
    rw [List.mem_singleton.mp hr, (retryOne_flags r₀).2.2] at hnot
    cases hnot
  · have htail : ∀ r ∈ r₁ :: rs, r.type = .normal := fun r hr => hrs r (List.mem_cons_of_mem r₀ hr)
    rcases List.mem_cons.mp hr with rfl | hr
    · apply pair_sublist_closeRetries (List.cons_ne_nil r₁ rs)
        (ho.addReserve (retryStart_flags r₀).1) (mem_addReserve.mpr (.inl rfl)) htail
      intro r hr
      refine (hafter r₀ _ rfl r hr).addReserve ?_
      show ReserveType.normal ||| .sFlg ||| .nFlg ≠ .normal ||| .eFlg ||| .nFlg
      decide
    · rw [(of_mem_closeRetries htail r hr).2.2] at hstart
      cases hstart

/-! ## The invariant -/

namespace Manager

/-- **What keeps a batch from staying open.** -/
structure Closing (m : Manager) : Prop extends m.Listed where
  closed : Closed m.reserves
  order : ∀ r₀ l, m.retryReserves = r₀ :: l → ∀ r ∈ l, FailsAfter m.reserves r₀ r
  busy : m.state = .busy → m.executingReserve.isEnd = true ∨ HasEnd m.reserves
  started : m.executingReserve.isStart = true →
    m.executingReserve.isEnd = true ∨ HasEnd m.reserves
  last : m.executingReserve.isEnd = true → m.state = .busy ∨ m.executingReserve.isStart = true →
    m.executingReserve.isValid = true ∨ HasEnd m.reserves

/-- The reserve that the check of the reserves looks at, if it is the last one with `E_FLG`. -/
def lastEnd (m : Manager) : Option Reserve :=
  if m.settings.isEnable && !m.executingReserve.isValid && !m.reserves.tail.any Reserve.isEnd then
    m.reserves.head?.filter Reserve.isEnd
  else none

/-- While a batch is open, the last reserve with `E_FLG` is not late, and if it is executed, none of
its ids is zero. -/
def KeepsEnd (m : Manager) (now : ℤ) (r : Reserve) : Prop :=
  (m.state = .busy ∨ m.executingReserve.isStart = true →
      Etime.setCurrentTime now < r.startTime.addHour 1) ∧
    (r.startTime ≤ Etime.setCurrentTime now →
      Etime.setCurrentTime now < r.startTime.addHour 1 →
      m.state = .busy ∨ r.isStart = true → r.isValid = true)

instance instDecidableKeepsEnd (m : Manager) (now : ℤ) (r : Reserve) :
    Decidable (m.KeepsEnd now r) :=
  inferInstanceAs (Decidable ((_ → _) ∧ (_ → _ → _ → _)))

/-- **The condition on a step.** The last reserve with `E_FLG` closes the batch that is open, and no
reserve fails before the first one that is to be retried. -/
def ClosesBatch (m : Manager) : Op → Prop
  | .checkLoop _ now => ∀ r ∈ m.lastEnd, m.KeepsEnd now r
  | .exec k _ now => ∀ x ∈ m.execs[k]?, ∀ r₀ ∈ m.retryReserves.head?,
      FailsAfter m.reserves r₀ (m.retryReserve x.reserve.key now)
  | _ => True

instance instDecidableClosesBatch (m : Manager) (op : Op) : Decidable (m.ClosesBatch op) :=
  match op with
  | .checkLoop _ now => inferInstanceAs (Decidable (∀ r ∈ m.lastEnd, m.KeepsEnd now r))
  | .exec k _ now =>
    inferInstanceAs (Decidable (∀ x ∈ m.execs[k]?, ∀ r₀ ∈ m.retryReserves.head?,
      FailsAfter m.reserves r₀ (m.retryReserve x.reserve.key now)))
  | .cacheSchedule _ | .addReserves _ _ | .force _ | .forceInfos _ _ _ | .forceTurn _ _ | .stop _
  | .stopTurn _ | .parserNotice _ | .dumpSchedule _ => inferInstanceAs (Decidable True)

variable {m m' : Manager}

theorem closing_initial (settings : Settings) (container : Container) (today : Etime) :
    (initial settings container today).Closing where
  toListed := listed_initial settings container today
  closed := closed_nil
  order _ _ h := absurd h.symm (List.cons_ne_nil _ _)
  busy h := by cases h
  started h := absurd (Reserve.clear_flags.1.symm.trans h) Bool.false_ne_true
  last h := absurd (Reserve.clear_flags.2.1.symm.trans h) Bool.false_ne_true

/-- The invariant reads four fields only. -/
theorem Closing.of_eq (h : m.Closing) (hstate : m'.state = m.state)
    (hreserves : m'.reserves = m.reserves) (hretry : m'.retryReserves = m.retryReserves)
    (hexec : m'.executingReserve = m.executingReserve) : m'.Closing where
  ordered := hreserves ▸ h.ordered
  retries := hretry ▸ h.retries
  closed := hreserves ▸ h.closed
  order := by
    rw [hretry, hreserves]
    exact h.order
  busy := by
    rw [hstate, hreserves, hexec]
    exact h.busy
  started := by
    rw [hreserves, hexec]
    exact h.started
  last := by
    rw [hstate, hreserves, hexec]
    exact h.last

theorem Closing.addReserves {new : List Reserve} (h : m.Closing)
    (htyped : ∀ r ∈ new, r.isInit = false ∧ r.type ≠ .normal ||| .eFlg ||| .nFlg)
    (hclosed : Closed (addReserves new m.reserves)) :
    { m with reserves := EventSchedule.addReserves new m.reserves }.Closing := by
  have hinit := fun r hr => (htyped r hr).1
  have hmono : HasEnd m.reserves → HasEnd (EventSchedule.addReserves new m.reserves) := fun he =>
    he.mono (sublist_addReserves h.ordered hinit)
  exact
    { ordered := h.ordered.addReserves hinit
      retries := h.retries
      closed := hclosed
      order := fun r₀ l hl r hr =>
        (h.order r₀ l hl r hr).addReserves fun s hs => (htyped s hs).2
      busy := fun hb => (h.busy hb).imp id hmono
      started := fun hs => (h.started hs).imp id hmono
      last := fun he hb => (h.last he hb).imp id hmono }

theorem Closing.addReserve {r : Reserve} (h : m.Closing) (hinit : r.isInit = false)
    (hend : r.isEnd = true) (htype : r.type ≠ .normal ||| .eFlg ||| .nFlg) :
    { m with reserves := EventSchedule.addReserve r m.reserves }.Closing := by
  have htyped : ∀ s ∈ [r], s.isInit = false ∧ s.type ≠ .normal ||| .eFlg ||| .nFlg := by
    intro s hs
    rw [List.mem_singleton.mp hs]
    exact ⟨hinit, htype⟩
  refine h.addReserves htyped (h.closed.addReserves h.ordered (fun s hs => (htyped s hs).1) ?_)
  intro s hs _ hnot
  rw [List.mem_singleton.mp hs, hend] at hnot
  cases hnot

/-! ## The steps -/

theorem Closing.doExit (h : m.Closing) : m.doExit.Closing := by
  have hstart : ¬ Reserve.clear.isStart = true := by simp [Reserve.clear_flags.1]
  have hend : ¬ Reserve.clear.isEnd = true := by simp [Reserve.clear_flags.2.1]
  have hlisted := h.toListed.doExit
  unfold Manager.doExit at hlisted ⊢
  split
  · rename_i hexec
    rw [if_pos hexec] at hlisted
    exact
      { toListed := hlisted
        closed := closed_addReserves_markRetries h.closed h.ordered h.retries h.order
        order := fun _ _ hl => absurd hl.symm (List.cons_ne_nil _ _)
        busy := fun hb => by cases hb
        started := fun hs => absurd hs hstart
        last := fun he => absurd he hend }
  · rename_i hnot
    exact
      { toListed := ⟨h.ordered, h.retries⟩
        closed := h.closed
        order := h.order
        busy := fun hb => .inr ((h.busy hb).resolve_left hnot)
        started := fun hs => absurd hs hstart
        last := fun he => absurd he hend }

theorem Closing.pushRetry {key : ServiceKey} {now : ℤ} (h : m.Closing)
    (hafter : ∀ r₀ ∈ m.retryReserves.head?, FailsAfter m.reserves r₀ (m.retryReserve key now)) :
    (m.pushRetry key now).Closing := by
  have hlisted := h.toListed.pushRetry key now
  unfold Manager.pushRetry at hlisted ⊢
  split
  · rename_i hretried
    rw [if_pos hretried] at hlisted
    refine { h with toListed := hlisted, order := fun r₀ l hl r hr => ?_ }
    rcases hold : m.retryReserves with _ | ⟨r₁, l₁⟩
    · -- the first one
      simp only [hold, List.nil_append, List.cons.injEq] at hl
      rw [← hl.2] at hr
      exact absurd hr List.not_mem_nil
    · simp only [hold, List.cons_append, List.cons.injEq] at hl
      obtain ⟨rfl, rfl⟩ := hl
      rcases List.mem_append.mp hr with hr | hr
      · exact h.order r₁ l₁ hold r hr
      · rw [List.mem_singleton.mp hr]
        exact hafter r₁ (by rw [hold]; rfl)
  · exact h

theorem Closing.exec {k : ℕ} {x : ExecRun} {now : ℤ} (h : m.Closing)
    (hafter : ∀ r₀ ∈ m.retryReserves.head?,
      FailsAfter m.reserves r₀ (m.retryReserve x.reserve.key now))
    (heff : ExecEffect m k x now m') : m'.Closing := by
  cases heff with
  | going => exact h.of_eq rfl rfl rfl rfl
  | opened hs =>
    exact
      { ordered := h.ordered
        retries := fun _ hr => absurd hr List.not_mem_nil
        closed := h.closed
        order := fun _ _ hl => absurd hl.symm (List.cons_ne_nil _ _)
        busy := fun _ => h.started hs
        started := h.started
        last := fun he _ => h.last he (.inr hs) }
  | @exit c =>
    have hc : { m with container := c }.Closing := h.of_eq rfl rfl rfl rfl
    exact hc.doExit.of_eq rfl rfl rfl rfl
  | @error c =>
    have hc : { m with container := c }.Closing := h.of_eq rfl rfl rfl rfl
    exact (hc.pushRetry hafter).doExit.of_eq rfl rfl rfl rfl

theorem mem_lastEnd {r : Reserve} {l : List Reserve} (henable : m.settings.isEnable = true)
    (hvalid : m.executingReserve.isValid = false) (hl : m.reserves = r :: l) (hend : r.isEnd = true)
    (hnot : ¬ HasEnd l) : r ∈ m.lastEnd := by
  have hany : l.any Reserve.isEnd = false := by
    rw [Bool.eq_false_iff, ne_eq, List.any_eq_true]
    exact hnot
  rw [lastEnd, henable, hvalid, hl, List.tail_cons, hany, List.head?_cons]
  simp [Option.filter, hend]

theorem Closing.check2execute {now : ℤ} (h : m.Closing) (henable : m.settings.isEnable = true)
    (hlast : ∀ r ∈ m.lastEnd, m.KeepsEnd now r) : (m.check2execute now).Closing := by
  rcases check2execute_cases h.ordered now with heq | ⟨hvalid, r, l, hl, htaken⟩
  · rw [heq]
    exact h
  · have ho : Ordered (r :: l) := hl ▸ h.ordered
    have hclosed : Closed (r :: l) := hl ▸ h.closed
    have htail : Closed l := hclosed.tail (List.nodup_cons.mp ho.nodup).1
    have horder : ∀ r₀ l', m.retryReserves = r₀ :: l' → ∀ s ∈ l', FailsAfter l r₀ s := by
      intro r₀ l' hl' s hs
      refine (h.order r₀ l' hl' s hs).of_subset ?_
      rw [hl]
      exact List.subset_cons_self r l
    have hkeeps : r.isEnd = true → ¬ HasEnd l → m.KeepsEnd now r := fun hend hnot =>
      hlast r (mem_lastEnd henable hvalid hl hend hnot)
    have hhas : HasEnd m.reserves → r.isEnd = true ∨ HasEnd l := by
      rw [hl]
      exact hasEnd_cons_iff.mp
    rcases htaken with ⟨hlate, heq⟩ | ⟨hsoon, hdue, heq⟩
    · -- the reserve is deleted: the last one that closes a batch is not, while one is open
      have hstays : m.state = .busy ∨ m.executingReserve.isStart = true →
          HasEnd m.reserves → HasEnd l := by
        intro hopen hend
        by_contra hnot
        have hkeep := (hkeeps ((hhas hend).resolve_right hnot) hnot).1 hopen
        exact absurd hlate (not_le.mpr hkeep)
      rw [heq]
      exact
        { ordered := ho.tail
          retries := h.retries
          closed := htail
          order := horder
          busy := fun hb => (h.busy hb).imp id (hstays (.inl hb))
          started := fun hs => (h.started hs).imp id (hstays (.inr hs))
          last := fun he hb => (h.last he hb).imp id (hstays hb) }
    · -- the reserve is executed
      rw [heq]
      exact
        { ordered := ho.tail
          retries := h.retries
          closed := htail
          order := horder
          busy := by
            intro hb
            rcases h.busy hb with hend | hend
            · -- what was executed had an id that is zero
              have hnot : ¬ m.executingReserve.isValid = true := by simp [hvalid]
              exact hhas ((h.last hend (.inl hb)).resolve_left hnot)
            · exact hhas hend
          started := fun hs => hclosed.hasEnd_tail hs
          last := by
            intro hend hopen
            by_cases hnot : HasEnd l
            · exact .inr hnot
            · exact .inl ((hkeeps hend hnot).2 hdue hsoon hopen) }

/-- **The invariant is kept.** -/
theorem Closing.step {op : Op} (h : m.Closing) (hok : m.ClosesBatch op)
    (hstep : m.step op = some m') : m'.Closing := by
  cases step_effect hstep with
  | idle => exact h.of_eq rfl rfl rfl rfl
  | @checked today now adds day henable =>
    have hday : { m with adds := adds, scheduleCacheNextDay := day }.Closing :=
      h.of_eq rfl rfl rfl rfl
    exact hday.check2execute henable hok
  | @added k channels adds baseTime =>
    have hclosed := closed_addReserves_batch h.closed h.ordered (channels.getD []) baseTime
    refine (h.addReserves (fun r hr => ?_) hclosed).of_eq rfl rfl rfl rfl
    have ⟨hretried, hinit, _⟩ := of_mem_batch hr
    refine ⟨hinit, fun htype => ?_⟩
    rw [Reserve.isRetried, htype] at hretried
    exact absurd hretried (by decide)
  | exec hx heff => exact h.exec (hok _ hx) heff
  | @forced j now info l g f _ =>
    obtain ⟨hinit, -, hend, htype⟩ := tmpReserve_flags info now
    exact (h.addReserve hinit hend htype).of_eq rfl rfl rfl rfl

end Manager

end EventSchedule

end AutoRec
