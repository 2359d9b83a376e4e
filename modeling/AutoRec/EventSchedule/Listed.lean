import AutoRec.EventSchedule.Manager

/-!
# The list of the reserves

* `batchType_flags`, `of_mem_batch`: the flags of the reserves of a batch.
* `Manager.Listed`: the reserves are in order, and those that are to be retried are `NORMAL`.
  **`Manager.Listed.step`**: so it is after every step.
-/

namespace AutoRec

namespace EventSchedule

namespace Manager

/-! ## The reserves of a batch -/

theorem batchType_flags (i chNum : ℕ) :
    Flag.has (batchType i chNum) ReserveType.sFlg = decide (i = 0) ∧
      Flag.has (batchType i chNum) ReserveType.eFlg = decide (i + 1 = chNum) ∧
      Flag.has (batchType i chNum) ReserveType.rFlg = true ∧
      ReserveType.isInit (batchType i chNum) = false ∧
      ReserveType.isForce (batchType i chNum) = false := by
  by_cases hi : i = 0
  · by_cases hlast : i + 1 = chNum
    · simp only [batchType, if_pos hi, if_pos hlast, decide_eq_true hi, decide_eq_true hlast]
      decide
    · simp only [batchType, if_pos hi, if_neg hlast, decide_eq_true hi, decide_eq_false hlast]
      decide
  · by_cases hlast : i + 1 = chNum
    · simp only [batchType, if_neg hi, if_pos hlast, decide_eq_false hi, decide_eq_true hlast]
      decide
    · simp only [batchType, if_neg hi, if_neg hlast, decide_eq_false hi, decide_eq_false hlast]
      decide

theorem of_mem_batch {r : Reserve} {chNum : ℕ} {channels : List ServiceKey} {i : ℕ} {t : Etime}
    (h : r ∈ batch chNum channels i t) :
    r.isRetried = true ∧ r.isInit = false ∧ r.isForce = false ∧
      (r.isStart = true → i = 0 ∧ r.startTime = t ∧ r.isEnd = decide (1 = chNum)) := by
  induction channels generalizing i t with
  | nil => exact absurd h List.not_mem_nil
  | cons key channels ih =>
    rcases List.mem_cons.mp h with rfl | h
    · have ⟨hstart, hend, hretried, hinit, hforce⟩ := batchType_flags i chNum
      refine ⟨hretried, hinit, hforce, fun hs => ?_⟩
      obtain rfl : i = 0 := of_decide_eq_true (hstart.symm.trans hs)
      exact ⟨rfl, rfl, hend⟩
    · have ⟨hretried, hinit, hforce, hstart⟩ := ih h
      refine ⟨hretried, hinit, hforce, fun hs => ?_⟩
      exact absurd (hstart hs).1 (Nat.succ_ne_zero i)

theorem tmpReserve_flags (info : ServiceKey) (now : ℤ) :
    (tmpReserve info now).isInit = false ∧ (tmpReserve info now).isForce = true ∧
      (tmpReserve info now).isEnd = true ∧
      (tmpReserve info now).type ≠ .normal ||| .eFlg ||| .nFlg :=
  (by decide : ReserveType.isInit (.force ||| .sFlg ||| .eFlg) = false ∧
    ReserveType.isForce (.force ||| .sFlg ||| .eFlg) = true ∧
      Flag.has (ReserveType.force ||| .sFlg ||| .eFlg) ReserveType.eFlg = true ∧
        (ReserveType.force ||| .sFlg ||| .eFlg) ≠ .normal ||| .eFlg ||| .nFlg)

/-! ## The lists -/

/-- The reserves are in order, and those that are to be retried are `NORMAL`. -/
structure Listed (m : Manager) : Prop where
  ordered : Ordered m.reserves
  retries : ∀ r ∈ m.retryReserves, r.type = .normal

variable {m m' : Manager}

theorem listed_initial (settings : Settings) (container : Container) (today : Etime) :
    (initial settings container today).Listed :=
  ⟨ordered_nil, fun _ h => absurd h List.not_mem_nil⟩

theorem Listed.doExit (h : m.Listed) : m.doExit.Listed := by
  unfold Manager.doExit
  split
  · refine ⟨h.ordered.addReserves fun r hr => ?_, fun _ hr => absurd hr List.not_mem_nil⟩
    exact (of_mem_markRetries h.retries r hr).1
  · exact ⟨h.ordered, h.retries⟩

theorem Listed.pushRetry (h : m.Listed) (key : ServiceKey) (now : ℤ) :
    (m.pushRetry key now).Listed := by
  unfold Manager.pushRetry
  split
  · refine ⟨h.ordered, fun r hr => ?_⟩
    rcases List.mem_append.mp hr with hr | hr
    · exact h.retries r hr
    · rw [List.mem_singleton.mp hr]
      rfl
  · exact h

theorem Listed.check2execute {now : ℤ} (h : m.Listed) : (m.check2execute now).Listed := by
  rcases check2execute_cases h.ordered now with heq | ⟨-, r, l, hl, ⟨-, heq⟩ | ⟨-, -, heq⟩⟩
  · rw [heq]
    exact h
  · rw [heq]
    exact ⟨(hl ▸ h.ordered : Ordered (r :: l)).tail, h.retries⟩
  · rw [heq]
    exact ⟨(hl ▸ h.ordered : Ordered (r :: l)).tail, h.retries⟩

/-- **The lists stay so.** -/
theorem Listed.step {op : Op} (h : m.Listed) (hstep : m.step op = some m') : m'.Listed := by
  cases step_effect hstep with
  | idle => exact ⟨h.ordered, h.retries⟩
  | @checked today now adds day _ =>
    have hday : { m with adds := adds, scheduleCacheNextDay := day }.Listed :=
      ⟨h.ordered, h.retries⟩
    exact hday.check2execute
  | added => exact ⟨h.ordered.addReserves fun r hr => (of_mem_batch hr).2.1, h.retries⟩
  | @exec k label now x m' hx heff =>
    cases heff with
    | going => exact ⟨h.ordered, h.retries⟩
    | opened => exact ⟨h.ordered, fun _ hr => absurd hr List.not_mem_nil⟩
    | @exit c =>
      have hc : { m with container := c }.Listed := ⟨h.ordered, h.retries⟩
      exact ⟨hc.doExit.ordered, hc.doExit.retries⟩
    | @error c =>
      have hc : { m with container := c }.Listed := ⟨h.ordered, h.retries⟩
      have hpush := (hc.pushRetry x.reserve.key now).doExit
      exact ⟨hpush.ordered, hpush.retries⟩
  | forced => exact ⟨h.ordered.addReserve (tmpReserve_flags _ _).1, h.retries⟩

end Manager

end EventSchedule

end AutoRec
