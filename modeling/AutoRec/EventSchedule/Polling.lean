import AutoRec.EventSchedule.BatchRuns

/-!
# The end of the polling

`on_exec_cache_schedule` polls every five seconds until `last_update_EIT_sched_` is more than ten
seconds old. That time is set by `on_parser_notice`, for whatever service is being parsed; it is not
set when the parsing is enabled.

* `Polling`: the manager after the parsing has been enabled for an execution, with what has been
  notified and at which times the polling was complete.
* `CompletesLate`: it is complete ten seconds after the enabling and the last notice, or later.
* `NotStale`: the condition on a poll.
* **`completesLate_reach`**; `not_completesLate`: the time that an earlier service has left.
-/

namespace AutoRec

namespace EventSchedule

/-- What the clock reads in a step, if it is read. -/
def Op.now? : Op → Option ℤ
  | .checkLoop _ now | .cacheSchedule now | .exec _ _ now | .forceInfos _ _ now
  | .parserNotice now => some now
  | .addReserves _ _ | .force _ | .forceTurn _ _ | .stop _ | .stopTurn _ | .dumpSchedule _ => none

/-- The test of the loop that waits for the tables: no update for about ten seconds. -/
def Manager.isComplete (m : Manager) (now : ℤ) : Bool :=
  (Etime.setCurrentTime now).gt (m.lastUpdateEITSched.addSec 10)

/-- The manager after the parsing has been enabled for an execution, at `enabledAt`; `lastNotice` is
the last notice since then. The polling was complete at the times in `completed`, each with the last
notice before it. -/
structure Polling where
  m : Manager
  now : ℤ
  enabledAt : ℤ
  lastNotice : Option ℤ
  completed : List (ℤ × Option ℤ)

namespace Polling

/-- Execution `k` goes on behind `enable_parse_eit_sched`. -/
def enabled (m : Manager) (k : ℕ) (x : ExecRun) (now : ℤ) : Polling :=
  ⟨m.execEnabled k x true now, now, now, none, []⟩

/-- The last notice after a step. -/
def noticed (last : Option ℤ) : Op → Option ℤ
  | .parserNotice now => some now
  | _ => last

variable (k : ℕ) (s : Polling)

/-- The polling of execution `k` is complete in this step. -/
def completes : Op → List (ℤ × Option ℤ)
  | .exec j .wake now => if j = k && s.m.isComplete now then [(now, s.lastNotice)] else []
  | _ => []

/-- A step of the manager; the clock does not go back. -/
def step (op : Op) : Option Polling :=
  if ∃ now ∈ op.now?, now < s.now then none
  else (s.m.step op).map fun m' =>
    { s with
      m := m'
      now := op.now?.getD s.now
      lastNotice := noticed s.lastNotice op
      completed := s.completed ++ s.completes k op }

/-- **The polling is complete** only when ten seconds have passed since the parsing was enabled and
since the last notice received after that. -/
def CompletesLate : Prop :=
  ∀ e ∈ s.completed, s.enabledAt + 10 ≤ e.1 ∧ ∀ n ∈ e.2, n + 10 ≤ e.1

/-- **The condition on a poll** in the first ten seconds: a notice has been received, or
`last_update_EIT_sched_` is no more than ten seconds old. -/
def NotStale (op : Op) : Prop :=
  ∀ now, op = .exec k .wake now → now < s.enabledAt + 10 →
    s.lastNotice.isSome = true ∨
      Etime.setCurrentTime now ≤ s.m.lastUpdateEITSched.addSec 10

instance instDecidableNotStale (op : Op) : Decidable (s.NotStale k op) :=
  match op with
  | .exec j .wake now =>
    decidable_of_iff (j = k → now < s.enabledAt + 10 → s.lastNotice.isSome = true ∨
        Etime.setCurrentTime now ≤ s.m.lastUpdateEITSched.addSec 10)
      ⟨fun h _ he => by cases he; exact h rfl, fun h hj => h now (by rw [hj])⟩
  | .checkLoop .. | .cacheSchedule _ | .addReserves .. | .force _ | .forceInfos .. | .forceTurn ..
  | .stop _ | .stopTurn _ | .parserNotice _ | .dumpSchedule _ | .exec _ .start _
  | .exec _ .streamName _ | .exec _ (.opened _) _ | .exec _ (.physicalCh _) _
  | .exec _ (.tuned _) _ | .exec _ (.serviceInfos _) _ | .exec _ (.enabled _) _
  | .exec _ (.disabled _ _) _ => .isTrue fun _ he => by cases he

end Polling

/-! ## What sets the time of the last update -/

namespace Manager

variable {m m' : Manager} {k : ℕ} {x : ExecRun} {now : ℤ}

/-- The polling that is complete is left, and is not marked as timed out. -/
theorem execWake_of_isComplete (h : m.isComplete now = true) :
    m.execWake k x now = m.setExec k { x with phase := .disabling 0 } := by
  unfold isComplete at h
  simp only [execWake, h, if_true]

@[simp] theorem doExit_lastUpdateEITSched :
    m.doExit.lastUpdateEITSched = m.lastUpdateEITSched := by
  unfold doExit
  split <;> rfl

@[simp] theorem doError_lastUpdateEITSched :
    (m.doError k x now).lastUpdateEITSched = m.lastUpdateEITSched := by
  obtain ⟨l, hl⟩ := m.pushRetry_eq x.reserve.key now
  show (m.pushRetry x.reserve.key now).doExit.lastUpdateEITSched = m.lastUpdateEITSched
  rw [doExit_lastUpdateEITSched, hl]

/-- **Only a notice sets it.** -/
theorem step_lastUpdateEITSched {op : Op} (h : m.step op = some m')
    (hop : ∀ now, op ≠ .parserNotice now) : m'.lastUpdateEITSched = m.lastUpdateEITSched := by
  cases op with
  | checkLoop today now =>
    obtain rfl := Option.some.inj h
    obtain ⟨adds, day, hday⟩ := m.checkDay_eq today
    rw [onCheckLoop, hday]
    split
    · obtain ⟨reserves, r, execs, heq⟩ :=
        check2execute_eq { m with adds := adds, scheduleCacheNextDay := day } now
      rw [heq]
    · rfl
  | cacheSchedule now | dumpSchedule key =>
    obtain rfl := Option.some.inj h
    rfl
  | addReserves k channels =>
    obtain ⟨baseTime, -, rfl⟩ := Option.map_eq_some_iff.mp h
    rfl
  | exec k label now =>
    obtain ⟨x, hx, hlabel⟩ := Option.bind_eq_some_iff.mp h
    cases execStep_effect hlabel with
    | going | opened => rfl
    | exit => exact doExit_lastUpdateEITSched
    | error => exact doError_lastUpdateEITSched
  | force groupId =>
    obtain rfl := Option.some.inj h
    unfold onForce
    split <;> rfl
  | forceInfos j infos now =>
    rcases onForceInfos_cases h with ⟨-, rfl⟩ | ⟨info, l, g, f, rfl, hj, rfl⟩
    · rfl
    · rfl
  | forceTurn j b =>
    rcases onForceTurn_cases h with rfl | rfl
    · rfl
    · rfl
  | stop b =>
    obtain rfl := Option.some.inj h
    obtain ⟨n, i, heq⟩ := m.onStop_eq b
    rw [heq]
  | stopTurn b =>
    obtain ⟨n, i, rfl⟩ := onStopTurn_eq h
    rfl
  | parserNotice now => exact absurd rfl (hop now)

end Manager

/-! ## Runs -/

namespace Polling

variable {k : ℕ} {s t : Polling} {op : Op}

/-- The last notice is what `last_update_EIT_sched_` says, and it came after the enabling. -/
structure Tracks (s : Polling) : Prop where
  started : s.enabledAt ≤ s.now
  last : ∀ n ∈ s.lastNotice, s.enabledAt ≤ n ∧
    s.m.lastUpdateEITSched = Etime.setCurrentTime n
  late : s.CompletesLate

theorem isComplete_iff {m : Manager} {now : ℤ} : m.isComplete now = true ↔
    m.lastUpdateEITSched.addSec 10 < Etime.setCurrentTime now := Etime.gt_iff

/-- What is complete in a step under the condition is late enough. -/
theorem Tracks.completes (h : s.Tracks) (hok : s.NotStale k op) :
    ∀ e ∈ s.completes k op, s.enabledAt + 10 ≤ e.1 ∧ ∀ n ∈ e.2, n + 10 ≤ e.1 := by
  unfold Polling.completes
  split
  · rename_i j now
    split_ifs with hj
    · obtain ⟨hjk, hcomplete⟩ := Bool.and_eq_true_iff.mp hj
      obtain rfl := of_decide_eq_true hjk
      have hlt := isComplete_iff.mp hcomplete
      intro e he
      obtain rfl := List.mem_singleton.mp he
      rcases hn : s.lastNotice with _ | n
      · refine ⟨?_, by simp⟩
        by_contra hearly
        rcases hok now rfl (not_le.mp hearly) with hsome | hle
        · rw [hn] at hsome
          cases hsome
        · exact absurd hle (not_le.mpr hlt)
      · obtain ⟨hstart, hlast⟩ := h.last n hn
        have hn10 : n + 10 < now := by
          rw [hlast, Etime.lt_def] at hlt
          simpa [Etime.addSec, Etime.setCurrentTime] using hlt
        refine ⟨by show s.enabledAt + 10 ≤ now; omega, ?_⟩
        rintro _ ⟨⟩
        show n + 10 ≤ now
        omega
    · simp
  · simp

/-- **One step** under the condition. -/
theorem Tracks.step (h : s.Tracks) (hok : s.NotStale k op) (hstep : s.step k op = some t) :
    t.Tracks := by
  unfold Polling.step at hstep
  split_ifs at hstep with hclock
  obtain ⟨m', hm, rfl⟩ := Option.map_eq_some_iff.mp hstep
  push Not at hclock
  have hstart := h.started
  refine ⟨?_, ?_, ?_⟩
  · show s.enabledAt ≤ op.now?.getD s.now
    rcases hnow : op.now? with _ | now
    · exact hstart
    · exact hstart.trans (hclock now hnow)
  · by_cases hop : ∃ now, op = .parserNotice now
    · obtain ⟨now, rfl⟩ := hop
      obtain rfl := Option.some.inj hm
      rintro _ ⟨⟩
      exact ⟨hstart.trans (hclock now rfl), rfl⟩
    · have hlast := Manager.step_lastUpdateEITSched hm fun now he => hop ⟨now, he⟩
      have hsame : noticed s.lastNotice op = s.lastNotice := by
        unfold noticed
        split
        · exact absurd ⟨_, rfl⟩ hop
        · rfl
      show ∀ n ∈ noticed s.lastNotice op, _ ∧ m'.lastUpdateEITSched = _
      rw [hsame, hlast]
      exact h.last
  · intro e he
    rcases List.mem_append.mp he with he | he
    · exact h.late e he
    · exact h.completes hok e he

/-- **The polling is complete only after ten quiet seconds**, in every run in which no poll finds a
time that is left from before the enabling and more than ten seconds old. -/
theorem completesLate_reach {m : Manager} {x : ExecRun} {now : ℤ}
    (h : Machine.Reach (Polling.step k) (fun s op => s.NotStale k op) (.enabled m k x now) s) :
    s.CompletesLate := by
  have htracks : s.Tracks := by
    apply h.inv Tracks
    · exact ⟨le_rfl, by simp [enabled], by simp [enabled, CompletesLate]⟩
    · exact fun _ _ _ hs hok hstep => hs.step hok hstep
  exact htracks.late

/-- A channel is to be cached, up to `enable_parse_eit_sched`. -/
def untilEnabling : List Op :=
  [.cacheSchedule 0, .addReserves 0 (some [⟨1, 4, 101⟩]), .checkLoop .clear 5, .exec 0 .start 6,
    .exec 0 .streamName 6, .exec 0 (.opened (some 0)) 7, .exec 0 (.physicalCh true) 7,
    .exec 0 (.tuned true) 8, .exec 0 (.serviceInfos (some [⟨1, 4, 101⟩])) 8]

/-- The execution that waits for the reply. -/
def enablingExample : ExecRun :=
  ⟨⟨⟨1, 4, 101⟩, ⟨0, 0⟩, 0x0f01⟩, false, 0, some 0, [⟨1, 4, 101⟩], false, .enabling⟩

/-- The manager in which it waits. -/
def enablingManager : Manager :=
  (Machine.exec Manager.step managerExample untilEnabling).getD managerExample

theorem untilEnabling_exec :
    Machine.exec Manager.step managerExample untilEnabling = some enablingManager ∧
      enablingManager.execs[0]? = some enablingExample := by
  decide

/-- A notice comes one second after the enabling: the polling is complete at the third poll. -/
def noticedRun : List Op := [.parserNotice 9, .exec 0 .wake 13, .exec 0 .wake 18, .exec 0 .wake 23]

theorem completesLate_reach_noticed : ∃ s,
    Machine.exec (Polling.step 0) (.enabled enablingManager 0 enablingExample 8) noticedRun =
        some s ∧
      s.completed = [(23, some 9)] ∧ s.CompletesLate := by
  have hrun : Machine.execOk (Polling.step 0) (fun s op => s.NotStale 0 op)
        (.enabled enablingManager 0 enablingExample 8) noticedRun = true ∧
      (Machine.exec (Polling.step 0) (.enabled enablingManager 0 enablingExample 8)
        noticedRun).map Polling.completed = some [(23, some 9)] := by
    decide
  obtain ⟨s, hs, hreach, hcompleted⟩ := Machine.exists_of_execOk hrun
  exact ⟨s, hs, hcompleted, completesLate_reach hreach⟩

/-- **No notice yet**: the first poll, five seconds after the enabling, finds the time that the
constructor has left. -/
theorem not_completesLate : ¬ ∀ m k x now s,
    Machine.Reach Manager.step Machine.anyStep managerExample m → m.execs[k]? = some x →
      x.phase = .enabling →
      Machine.Reach (Polling.step k) Machine.anyStep (.enabled m k x now) s →
      s.CompletesLate := by
  intro h
  have hrun : (Machine.exec (Polling.step 0) (.enabled enablingManager 0 enablingExample 8)
      [.exec 0 .wake 13]).map Polling.completed = some [(13, none)] := by
    decide
  obtain ⟨s, hs, hcompleted⟩ := Option.map_eq_some_iff.mp hrun
  have hlate := h enablingManager 0 enablingExample 8 s
    (Machine.reach_of_exec untilEnabling_exec.1) untilEnabling_exec.2 rfl
    (Machine.reach_of_exec hs) (13, none) (by rw [hcompleted]; exact List.mem_singleton_self _)
  have hat : s.enabledAt = 8 := by
    obtain rfl := Option.some.inj hs
    rfl
  rw [hat] at hlate
  exact absurd hlate.1 (by decide)

end Polling

end EventSchedule

end AutoRec
