import AutoRec.EventSchedule.Batches

/-!
# The way back from `busy`

* `Manager.Running`: while a reserve is executed there is an `on_exec_cache_schedule` at work.
* `Manager.Ends`: an execution at work can come to its end, `ends_of_live`; so can one pending reserve
  after the other, until one of them closes the batch (`exists_ready_of_hasEnd`).
* **`busy_reach`**: while the manager is busy, a valid reserve is executed or one with `E_FLG` is
  pending, and there is a way back to `ready`.
* `not_busy_late`: a run after which a batch cannot be closed, because its last reserve has been
  deleted.
-/

namespace AutoRec

namespace EventSchedule

namespace Manager

variable {m m' : Manager} {k : ℕ} {x : ExecRun} {now : ℤ}

/-! ## Executions at work -/

/-- What is at work while a reserve is executed, or while the manager is busy. -/
structure Running (m : Manager) : Prop where
  live : m.executingReserve = .clear ∨ ∃ x ∈ m.execs, x.phase ≠ .ended
  enabled : m.execs ≠ [] ∨ m.state = .busy → m.settings.isEnable = true

theorem Running.of_eq (h : m.Running) (hexec : m'.executingReserve = m.executingReserve)
    (hexecs : m'.execs = m.execs) (hstate : m'.state = m.state)
    (hsettings : m'.settings = m.settings) : m'.Running where
  live := by
    rw [hexec, hexecs]
    exact h.live
  enabled := by
    rw [hexecs, hstate, hsettings]
    exact h.enabled

theorem Running.exec (h : m.Running) (hx : m.execs[k]? = some x) (heff : ExecEffect m k x now m') :
    m'.Running := by
  have hlt : k < m.execs.length := (List.getElem?_eq_some_iff.mp hx).1
  have henabled : m.settings.isEnable = true := by
    refine h.enabled (.inl fun hnil => ?_)
    rw [hnil] at hlt
    exact absurd hlt (Nat.not_lt_zero k)
  cases heff with
  | going hrun => exact ⟨.inr ⟨_, List.mem_set hlt _, hrun.phase_ne⟩, fun _ => henabled⟩
  | opened _ hrun => exact ⟨.inr ⟨_, List.mem_set hlt _, hrun.phase_ne⟩, fun _ => henabled⟩
  | exit => exact ⟨.inl doExit_executingReserve, fun _ => by simpa [setExec] using henabled⟩
  | @error c =>
    obtain ⟨l, hl⟩ := pushRetry_eq { m with container := c } x.reserve.key now
    refine ⟨.inl doExit_executingReserve, fun _ => ?_⟩
    rw [doError, hl]
    simpa [setExec] using henabled

theorem Running.check2execute (h : m.Running) (hlisted : m.Listed)
    (henable : m.settings.isEnable = true) : (m.check2execute now).Running := by
  rcases check2execute_cases hlisted.ordered now with
    heq | ⟨-, r, l, -, ⟨-, heq⟩ | ⟨-, -, heq⟩⟩
  · rw [heq]
    exact h
  · rw [heq]
    exact h.of_eq rfl rfl rfl rfl
  · rw [heq]
    refine ⟨.inr ⟨.send r, List.mem_append_right _ List.mem_cons_self, ?_⟩, fun _ => henable⟩
    exact ExecPhase.noConfusion

theorem Running.step {op : Op} (h : m.Running) (hlisted : m.Listed)
    (hstep : m.step op = some m') : m'.Running := by
  cases step_effect hstep with
  | idle => exact h.of_eq rfl rfl rfl rfl
  | @checked today now adds day henable =>
    have hday : { m with adds := adds, scheduleCacheNextDay := day }.Running :=
      h.of_eq rfl rfl rfl rfl
    exact hday.check2execute ⟨hlisted.ordered, hlisted.retries⟩ henable
  | added => exact h.of_eq rfl rfl rfl rfl
  | exec hx heff => exact h.exec hx heff
  | forced => exact h.of_eq rfl rfl rfl rfl

/-! ## The end of an execution -/

/-- The execution of the reserve can come to its end. -/
def Ends (m : Manager) : Prop :=
  ∃ m', Machine.Reach step Machine.anyStep m m' ∧ m'.executingReserve = .clear ∧
    m'.settings = m.settings ∧ (m.executingReserve.isEnd = true → m'.state = .ready) ∧
    (¬ m.executingReserve.isEnd = true → m'.reserves = m.reserves)

theorem ends_exit {op : Op} {c : Container}
    (h : m.step op = some ({ m with container := c }.doExit.setExec k x)) : m.Ends := by
  refine ⟨_, .tail .refl trivial h, doExit_executingReserve, doExit_settings, fun hend => ?_,
    fun hnot => ?_⟩
  · exact doExit_state_of_isEnd (m := { m with container := c }) hend
  · exact doExit_reserves_of_not_isEnd (m := { m with container := c }) hnot

theorem ends_error {op : Op} {c : Container}
    (h : m.step op = some ({ m with container := c }.doError k x now)) : m.Ends := by
  obtain ⟨l, hl⟩ := pushRetry_eq { m with container := c } x.reserve.key now
  rw [doError, hl] at h
  refine ⟨_, .tail .refl trivial h, doExit_executingReserve, doExit_settings, fun hend => ?_,
    fun hnot => ?_⟩
  · exact doExit_state_of_isEnd (m := { m with container := c, retryReserves := l }) hend
  · exact doExit_reserves_of_not_isEnd
      (m := { m with container := c, retryReserves := l }) hnot

theorem Ends.before {op : Op} (h : m'.Ends) (hstep : m.step op = some m')
    (hexec : m'.executingReserve = m.executingReserve) (hsettings : m'.settings = m.settings)
    (hreserves : m'.reserves = m.reserves) : m.Ends := by
  obtain ⟨m₁, hreach, hclear, hset, hready, hsame⟩ := h
  rw [hexec] at hready hsame
  exact ⟨m₁, (Machine.Reach.tail .refl trivial hstep).trans hreach, hclear, hset.trans hsettings,
    hready, fun hnot => (hsame hnot).trans hreserves⟩

theorem step_exec (hx : m.execs[k]? = some x) (label : ExecLabel) (now : ℤ) :
    m.step (.exec k label now) = m.execStep k x label now := by
  show (m.execs[k]?.bind fun x => m.execStep k x label now) = _
  rw [hx, Option.bind_some]

theorem getElem?_setExec (hx : m.execs[k]? = some x) (y : ExecRun) :
    (m.setExec k y).execs[k]? = some y :=
  List.getElem?_set_self (List.getElem?_eq_some_iff.mp hx).1

theorem ends_of_doError (hx : m.execs[k]? = some x) {label : ExecLabel}
    (h : m.execStep k x label now = some (m.doError k x now)) : m.Ends :=
  ends_error (c := m.container) ((step_exec hx label now).trans h)

theorem ends_of_request (hx : m.execs[k]? = some x)
    (hphase : x.phase = .opening ∨ x.phase = .physicalCh ∨ x.phase = .tuning ∨
      x.phase = .serviceInfos ∨ x.phase = .enabling) : m.Ends := by
  rcases hphase with h | h | h | h | h
  · have hfails : m.execStep k x (.opened none) 0 = some (m.doError k x 0) := by
      simp only [execStep, h]
      rfl
    exact ends_of_doError hx hfails
  · have hfails : m.execStep k x (.physicalCh false) 0 = some (m.doError k x 0) := by
      simp only [execStep, h]
      rfl
    exact ends_of_doError hx hfails
  · have hfails : m.execStep k x (.tuned false) 0 = some (m.doError k x 0) := by
      simp only [execStep, h]
      rfl
    exact ends_of_doError hx hfails
  · have hfails : m.execStep k x (.serviceInfos none) 0 = some (m.doError k x 0) := by
      simp only [execStep, h]
      rfl
    exact ends_of_doError hx hfails
  · have hfails : m.execStep k x (.enabled false) 0 = some (m.doError k x 0) := by
      simp only [execStep, h]
      rfl
    exact ends_of_doError hx hfails

theorem ends_of_disabling {i : ℕ} (hx : m.execs[k]? = some x) (h : x.phase = .disabling i) :
    m.Ends := by
  have hstep : m.step (.exec k (.disabled true fun _ => []) 0) =
      some (m.execCache k x (fun _ => []) 0) := by
    simp only [step_exec hx, execStep, h]
    rfl
  unfold execCache at hstep
  dsimp only at hstep
  split at hstep
  · exact ends_error hstep
  · exact ends_exit hstep

theorem ends_of_polling (hx : m.execs[k]? = some x) (h : x.phase = .polling) : m.Ends := by
  have hlt : m.lastUpdateEITSched.addSec 10 <
      Etime.setCurrentTime (m.lastUpdateEITSched.tvSec + 11) := by
    refine Etime.lt_def.mpr (.inl ?_)
    simp only [Etime.addSec, Etime.setCurrentTime]
    omega
  have hstep : m.step (.exec k .wake (m.lastUpdateEITSched.tvSec + 11)) =
      some (m.setExec k { x with phase := .disabling 0 }) := by
    simp only [step_exec hx, execStep, h]
    exact congrArg some (if_pos (Etime.gt_iff.mpr hlt))
  exact (ends_of_disabling (getElem?_setExec hx _) rfl).before hstep rfl rfl rfl

theorem ends_of_streamName (hx : m.execs[k]? = some x) (h : x.phase = .streamName) : m.Ends := by
  have hstep : m.step (.exec k .streamName 0) = some (m.execStreamName k x) := by
    simp only [step_exec hx, execStep, h]
  unfold execStreamName at hstep
  split at hstep
  · exact (ends_of_request (getElem?_setExec hx _) (.inr (.inr (.inr (.inl rfl))))).before hstep
      rfl rfl rfl
  · exact (ends_of_request (getElem?_setExec hx _) (.inl rfl)).before hstep rfl rfl rfl

/-- **An execution at work can come to its end.** -/
theorem ends_of_live (hx : m.execs[k]? = some x) (hlive : x.phase ≠ .ended) : m.Ends := by
  rcases hphase : x.phase with _ | _ | _ | _ | _ | _ | _ | _ | i | _
  · have hstep : m.step (.exec k .start 0) = some (m.execStart k x) := by
      simp only [step_exec hx, execStep, hphase]
    unfold execStart at hstep
    dsimp only at hstep
    split at hstep
    · have hx' : ({ m with state := .busy, retryReserves := [] } : Manager).execs[k]? = some x := hx
      exact (ends_of_streamName (getElem?_setExec hx' _) rfl).before hstep rfl rfl rfl
    · exact (ends_of_streamName (getElem?_setExec hx _) rfl).before hstep rfl rfl rfl
  · exact ends_of_streamName hx hphase
  · exact ends_of_request hx (.inl hphase)
  · exact ends_of_request hx (.inr (.inl hphase))
  · exact ends_of_request hx (.inr (.inr (.inl hphase)))
  · exact ends_of_request hx (.inr (.inr (.inr (.inl hphase))))
  · exact ends_of_request hx (.inr (.inr (.inr (.inr hphase))))
  · exact ends_of_polling hx hphase
  · exact ends_of_disabling hx hphase
  · exact absurd hphase hlive

/-! ## One pending reserve after the other -/

theorem step_checkLoop_head {r : Reserve} {l : List Reserve} (ho : Ordered m.reserves)
    (hl : m.reserves = r :: l) (henable : m.settings.isEnable = true)
    (hvalid : ¬ m.executingReserve.isValid = true) :
    m.step (.checkLoop (m.scheduleCacheNextDay.addDay 1) (r.startTime.tvSec + 1)) =
      some (m.take ⟨r, true, l⟩) := by
  have hday : m.checkDay (m.scheduleCacheNextDay.addDay 1) = m := by
    refine if_neg fun heq => ?_
    have hsec := congrArg Etime.tvSec heq
    simp only [Etime.addDay] at hsec
    omega
  have hsoon : ¬ r.startTime.addHour 1 ≤ Etime.setCurrentTime (r.startTime.tvSec + 1) := by
    refine not_le.mpr (Etime.lt_def.mpr (.inl ?_))
    simp only [Etime.addHour, Etime.setCurrentTime]
    omega
  have hdue : r.startTime ≤ Etime.setCurrentTime (r.startTime.tvSec + 1) := by
    refine (Etime.lt_def.mpr (.inl ?_)).le
    simp only [Etime.setCurrentTime]
    omega
  show some (m.onCheckLoop _ _) = _
  rw [hl] at ho
  rw [onCheckLoop, if_pos henable, hday, Manager.check2execute, if_neg hvalid, hl,
    takeDue_eq_head ho.sorted (ho.typed r List.mem_cons_self), if_neg hsoon, if_pos hdue]
  rfl

/-- A pending reserve with `E_FLG` can be executed. -/
theorem exists_ready_of_hasEnd {l : List Reserve} (hl : m.reserves = l) (ho : Ordered l)
    (hend : HasEnd l) (henable : m.settings.isEnable = true)
    (hvalid : ¬ m.executingReserve.isValid = true) :
    ∃ m', Machine.Reach step Machine.anyStep m m' ∧ m'.state = .ready := by
  induction l generalizing m with
  | nil =>
    obtain ⟨r, hr, -⟩ := hend
    exact absurd hr List.not_mem_nil
  | cons r l ih =>
    have hstep := step_checkLoop_head (hl ▸ ho) hl henable hvalid
    have hlive : (m.take ⟨r, true, l⟩).execs[m.execs.length]? = some (.send r) :=
      List.getElem?_concat_length
    obtain ⟨m₁, hreach, hclear, hsettings, hready, hsame⟩ :=
      ends_of_live hlive ExecPhase.noConfusion
    have hreach₁ := (Machine.Reach.tail .refl trivial hstep).trans hreach
    by_cases hr : r.isEnd = true
    · exact ⟨m₁, hreach₁, hready hr⟩
    · have hend' : HasEnd l := (hasEnd_cons_iff.mp hend).resolve_left hr
      have hvalid₁ : ¬ m₁.executingReserve.isValid = true := by
        rw [hclear]
        decide
      have henable₁ : m₁.settings.isEnable = true := by
        rw [hsettings]
        exact henable
      obtain ⟨m₂, hreach₂, hstate⟩ := ih (hsame hr) ho.tail hend' henable₁ hvalid₁
      exact ⟨m₂, hreach₁.trans hreach₂, hstate⟩

/-- From `busy` there is a way to `ready`. -/
theorem exists_ready (hclosing : m.Closing) (hrunning : m.Running) (hbusy : m.state = .busy) :
    ∃ m', Machine.Reach step Machine.anyStep m m' ∧ m'.state = .ready := by
  have henable := hrunning.enabled (.inr hbusy)
  rcases hrunning.live with hclear | ⟨x, hx, hlive⟩
  · have hflags := Reserve.clear_flags.2.1
    have hend : HasEnd m.reserves := by
      refine (hclosing.busy hbusy).resolve_left ?_
      rw [hclear, hflags]
      exact Bool.false_ne_true
    refine exists_ready_of_hasEnd rfl hclosing.ordered hend henable ?_
    rw [hclear]
    decide
  · obtain ⟨k, hk⟩ := List.mem_iff_getElem?.mp hx
    obtain ⟨m₁, hreach, hclear, hsettings, hready, hsame⟩ := ends_of_live hk hlive
    by_cases hend : m.executingReserve.isEnd = true
    · exact ⟨m₁, hreach, hready hend⟩
    · have hpending := (hclosing.busy hbusy).resolve_left hend
      have hvalid₁ : ¬ m₁.executingReserve.isValid = true := by
        rw [hclear]
        decide
      have henable₁ : m₁.settings.isEnable = true := by
        rw [hsettings]
        exact henable
      obtain ⟨m₂, hreach₂, hstate⟩ :=
        exists_ready_of_hasEnd (hsame hend) hclosing.ordered hpending henable₁ hvalid₁
      exact ⟨m₂, hreach.trans hreach₂, hstate⟩

end Manager

/-! ## Runs -/

/-- **While the manager is busy, a valid reserve is executed or one with `E_FLG` is pending, and
there is a way back to `ready`**, in every run in which the last reserve with `E_FLG` is not lost
while a batch is open, and the reserves that are retried have failed one after the other. -/
theorem busy_reach (settings : Settings) (container : Container) (today : Etime) {m : Manager}
    (h : Machine.Reach Manager.step Manager.ClosesBatch (.initial settings container today) m)
    (hbusy : m.state = .busy) :
    (m.executingReserve.isValid = true ∨ ∃ r ∈ m.reserves, r.isEnd = true) ∧
      ∃ m', Machine.Reach Manager.step Machine.anyStep m m' ∧ m'.state = .ready := by
  have hclosing : ∀ m, Machine.Reach Manager.step Manager.ClosesBatch
      (.initial settings container today) m → m.Closing := fun _ h =>
    h.inv Manager.Closing (Manager.closing_initial settings container today)
      fun _ _ _ hm hok hstep => hm.step hok hstep
  have hrunning : m.Running := by
    apply h.inv₂ Manager.Closing Manager.Running hclosing
    · exact ⟨.inl rfl, fun h => h.elim (fun hne => absurd rfl hne) fun hb => by cases hb⟩
    · exact fun _ _ _ hm _ hr _ hstep => hr.step hm.toListed hstep
  refine ⟨?_, Manager.exists_ready (hclosing m h) hrunning hbusy⟩
  rcases (hclosing m h).busy hbusy with hend | hend
  · exact (hclosing m h).last hend (.inl hbusy)
  · exact .inr hend

/-- Two tuners; the tables of a channel are waited for 70 minutes. -/
def settingsExample : Settings := ⟨true, 1, 15, 0, 70, 90, 2⟩

/-- The manager with no schedule, on the first day of 1970. -/
def managerExample : Manager := .initial settingsExample ⟨[], 0⟩ ⟨86400, 0⟩

/-- The first services of two channels. -/
def servicesExample : List ServiceKey := [⟨1, 4, 101⟩, ⟨2, 4, 102⟩]

/-- A batch of two channels is put in, and the first one is begun with. -/
def batchBegin : List Op :=
  [.cacheSchedule 0, .addReserves 0 (some servicesExample), .checkLoop .clear 5, .exec 0 .start 6,
    .exec 0 .streamName 6]

/-- Both channels fail, and are put in again. -/
def batchFails : List Op :=
  batchBegin ++ ([.exec 0 (.opened none) 7, .checkLoop .clear 65, .exec 1 .start 65,
    .exec 1 .streamName 65, .exec 1 (.opened none) 66, .checkLoop .clear 5410,
    .exec 2 .start 5410] : List Op)

/-- The manager is busy with the first channel for the second time; the other one closes the batch. -/
theorem busy_reach_retry : ∃ m,
    Machine.exec Manager.step managerExample batchFails = some m ∧ m.state = .busy ∧
      (m.executingReserve.isValid = true ∨ ∃ r ∈ m.reserves, r.isEnd = true) ∧
      ∃ m', Machine.Reach Manager.step Machine.anyStep m m' ∧ m'.state = .ready := by
  have hrun : Machine.execOk Manager.step Manager.ClosesBatch managerExample batchFails = true ∧
      (Machine.exec Manager.step managerExample batchFails).map Manager.state = some .busy := by
    decide
  obtain ⟨m, hm, hreach, hbusy⟩ := Machine.exists_of_execOk hrun
  exact ⟨m, hm, hbusy, busy_reach settingsExample ⟨[], 0⟩ ⟨86400, 0⟩ hreach hbusy⟩

/-- Sections come in for 70 minutes, and the second channel is more than one hour late. -/
def batchLate : List Op :=
  batchBegin ++ ([.exec 0 (.opened (some 0)) 7, .exec 0 (.physicalCh true) 7,
    .exec 0 (.tuned true) 8, .exec 0 (.serviceInfos (some [⟨1, 4, 101⟩])) 8,
    .exec 0 (.enabled true) 8, .parserNotice 4210, .exec 0 .wake 4213,
    .exec 0 (.disabled true fun _ => []) 4213, .checkLoop .clear 4220] : List Op)

/-- The manager stays busy: the reserve with `E_FLG` has been deleted. -/
theorem not_busy_late : ∃ m,
    Machine.exec Manager.step managerExample batchLate = some m ∧ m.state = .busy ∧
      m.executingReserve.isValid = false ∧ ∀ r ∈ m.reserves, r.isEnd = false := by
  have hrun : (Machine.exec Manager.step managerExample batchLate).map
      (fun m => (m.state, m.executingReserve.isValid, m.reserves)) = some (.busy, false, []) := by
    decide
  obtain ⟨m, hm, hstate⟩ := Option.map_eq_some_iff.mp hrun
  simp only [Prod.mk.injEq] at hstate
  obtain ⟨hbusy, hvalid, hnil⟩ := hstate
  refine ⟨m, hm, hbusy, hvalid, ?_⟩
  rw [hnil]
  exact fun _ h => absurd h List.not_mem_nil

end EventSchedule

end AutoRec
