import AutoRec.EventSchedule.Listed

/-!
# Forced executions

An `on_cache_schedule_force_current_service` hands the tuner of its message to the execution of its
reserve in `force_cache_group_id_`, which every other such request writes, too.

* `Forced`: the manager, with a record of which request has made a reserve, and for which request an
  execution works.
* `Forced.OwnTuner`: while a forced reserve has still to find its tuner there, nobody writes another
  one; and no two executions are at work at once.
* **`forced_reach`**: every forced reserve is executed with the tuner of the request that has made
  it.
* `not_forced`: two requests, and the second reserve is executed with the tuner `0xff`.
-/

namespace AutoRec

namespace EventSchedule

/-- The manager; `owners` are the forced reserves that have been made, with the tuners of the
requests, the last one first; `started` has for each `on_exec_cache_schedule` the tuner of the request
that has made its reserve, if it is a forced one. -/
structure Forced where
  m : Manager
  owners : List (Reserve × UInt8)
  started : List (Option UInt8)

namespace Forced

variable (s : Forced)

/-- The reserve that a step makes for a request. -/
def created : Op → List (Reserve × UInt8)
  | .forceInfos j (some (info :: _)) now =>
    if Manager.tmpReserve info now ∈ s.m.reserves then []
    else s.m.forces[j]?.toList.map fun f => (Manager.tmpReserve info now, f.groupId)
  | _ => []

/-- The record after a step. -/
def after (op : Op) (m' : Manager) : Forced where
  m := m'
  owners := s.created op ++ s.owners
  started := s.started ++
    (m'.execs.drop s.m.execs.length).map fun x => s.owners.lookup x.reserve

/-- A step. -/
def step (s : Forced) (op : Op) : Option Forced := (s.m.step op).map (s.after op)

/-- Whoever has still to find its tuner has to find `groupId`. -/
def AllNeed (groupId : UInt8) : Prop :=
  (∀ r ∈ s.m.reserves, r.isForce = true → s.owners.lookup r = some groupId) ∧
    ∀ k < s.m.execs.length, ∀ x ∈ s.m.execs[k]?, x.reserve.isForce = true →
      x.phase.isEarly = true → s.started[k]? = some (some groupId)

instance instDecidableAllNeed (groupId : UInt8) : Decidable (s.AllNeed groupId) :=
  inferInstanceAs (Decidable (_ ∧ _))

/-- The loop of the request `j` goes on. -/
def waits (j : ℕ) (isShutdownRequested : Bool) : Bool :=
  match s.m.forces[j]? with
  | some ⟨_, .waiting r⟩ =>
    !isShutdownRequested &&
      (decide (r ∈ s.m.reserves) ||
        (s.m.executingReserve == r && s.m.executingReserve.isValid))
  | _ => true

/-- **The condition on a step.** -/
def OwnTuner : Op → Prop
  | .checkLoop _ now => ∀ r ∈ s.m.reserves.head?, r.startTime ≤ Etime.setCurrentTime now →
      Etime.setCurrentTime now < r.startTime.addHour 1 →
      s.m.executingReserve.isValid = true ∨ ∀ x ∈ s.m.execs, x.phase = .ended
  | .force groupId =>
    s.AllNeed (if groupId.toNat ≥ s.m.settings.tunerResourceMax then 0xff else groupId)
  | .forceInfos j (some (info :: _)) now => Manager.tmpReserve info now ∈ s.m.reserves ∨
      ∀ f ∈ s.m.forces[j]?, s.m.forceCacheGroupId = f.groupId
  | .forceInfos _ _ _ => s.AllNeed 0xff
  | .forceTurn j isShutdownRequested => s.waits j isShutdownRequested = true ∨ s.AllNeed 0xff
  | _ => True

instance instDecidableOwnTuner (op : Op) : Decidable (s.OwnTuner op) :=
  match op with
  | .checkLoop _ now =>
    inferInstanceAs (Decidable (∀ r ∈ s.m.reserves.head?, r.startTime ≤ Etime.setCurrentTime now →
      Etime.setCurrentTime now < r.startTime.addHour 1 →
      s.m.executingReserve.isValid = true ∨ ∀ x ∈ s.m.execs, x.phase = .ended))
  | .force groupId =>
    inferInstanceAs (Decidable (s.AllNeed
      (if groupId.toNat ≥ s.m.settings.tunerResourceMax then 0xff else groupId)))
  | .forceInfos j (some (info :: _)) now =>
    inferInstanceAs (Decidable (Manager.tmpReserve info now ∈ s.m.reserves ∨
      ∀ f ∈ s.m.forces[j]?, s.m.forceCacheGroupId = f.groupId))
  | .forceInfos _ (some []) _ | .forceInfos _ none _ =>
    inferInstanceAs (Decidable (s.AllNeed 0xff))
  | .forceTurn j b => inferInstanceAs (Decidable (s.waits j b = true ∨ s.AllNeed 0xff))
  | .cacheSchedule _ | .addReserves _ _ | .exec _ _ _ | .stop _ | .stopTurn _ | .parserNotice _
  | .dumpSchedule _ => inferInstanceAs (Decidable True)

variable {s} {s' : Forced} {m' : Manager} {op : Op}

/-! ## What is written to `force_cache_group_id_` -/

@[simp] theorem doExit_forceCacheGroupId (m : Manager) :
    m.doExit.forceCacheGroupId = m.forceCacheGroupId := by
  unfold Manager.doExit
  split <;> rfl

theorem execEffect_forceCacheGroupId {m : Manager} {k : ℕ} {x : ExecRun} {now : ℤ}
    (h : Manager.ExecEffect m k x now m') : m'.forceCacheGroupId = m.forceCacheGroupId := by
  cases h with
  | going | opened => rfl
  | @exit c => exact doExit_forceCacheGroupId { m with container := c }
  | @error c =>
    refine (doExit_forceCacheGroupId _).trans ?_
    unfold Manager.pushRetry
    split <;> rfl

/-- **What is written is what is needed.** -/
theorem AllNeed.written (h : s.AllNeed s.m.forceCacheGroupId) (hok : s.OwnTuner op)
    (hstep : s.m.step op = some m') : s.AllNeed m'.forceCacheGroupId := by
  cases op with
  | checkLoop today now =>
    obtain rfl := Option.some.inj hstep
    obtain ⟨adds, day, hday⟩ := s.m.checkDay_eq today
    unfold Manager.onCheckLoop
    split
    · obtain ⟨reserves, r, execs, heq⟩ := (s.m.checkDay today).check2execute_eq now
      rw [heq, hday]
      exact h
    · rw [hday]
      exact h
  | force groupId =>
    obtain rfl := Option.some.inj hstep
    have hok : s.AllNeed (if groupId.toNat ≥ s.m.settings.tunerResourceMax then 0xff else groupId) :=
      hok
    unfold Manager.onForce
    split at hok
    · rename_i hge
      rw [if_pos hge]
      exact hok
    · rename_i hlt
      rw [if_neg hlt]
      exact hok
  | forceInfos j infos now =>
    rcases Manager.onForceInfos_cases hstep with ⟨hinfos, rfl⟩ | ⟨info, l, g, f, rfl, -, rfl⟩
    · rcases infos with _ | _ | ⟨info, l⟩
      · exact hok
      · exact hok
      · exact absurd rfl (hinfos info l)
    · exact h
  | forceTurn j b =>
    have hcases : s.waits j b = true ∨ s.AllNeed 0xff := hok
    have hstep : s.m.onForceTurn j b = some m' := hstep
    rcases hcases with hwaits | hneed
    · -- the loop goes on
      unfold waits at hwaits
      unfold Manager.onForceTurn at hstep
      split at hstep
      · rename_i g r hj
        rw [hj] at hwaits
        simp only [Bool.and_eq_true, Bool.not_eq_true', Bool.or_eq_true, decide_eq_true_eq,
          beq_iff_eq] at hwaits
        rw [hwaits.1, if_neg Bool.false_ne_true] at hstep
        split_ifs at hstep with hmem hexec
        · cases hstep
          exact h
        · cases hstep
          exact h
        · exact absurd (hwaits.2.resolve_left hmem) hexec
      · cases hstep
    · rcases Manager.onForceTurn_cases hstep with rfl | rfl
      · exact h
      · exact hneed
  | exec k label now =>
    obtain ⟨x, hx, hlabel⟩ := Option.bind_eq_some_iff.mp hstep
    rw [execEffect_forceCacheGroupId (Manager.execStep_effect hlabel)]
    exact h
  | addReserves k channels =>
    obtain ⟨baseTime, -, rfl⟩ := Option.map_eq_some_iff.mp hstep
    exact h
  | stop b =>
    obtain rfl := Option.some.inj hstep
    obtain ⟨n, i, heq⟩ := s.m.onStop_eq b
    rw [heq]
    exact h
  | stopTurn b =>
    obtain ⟨n, i, rfl⟩ := Manager.onStopTurn_eq hstep
    exact h
  | cacheSchedule | parserNotice | dumpSchedule =>
    obtain rfl := Option.some.inj hstep
    exact h

/-! ## The invariant -/

/-- What is known of an execution: `k` is its number. -/
structure RunOk (s : Forced) (k : ℕ) (x : ExecRun) : Prop where
  own : x.reserve.isForce = true → ∀ g, x.workGroupId = some g → s.started[k]? = some (some g)
  isForce : x.phase ≠ .sent → x.phase ≠ .ended → x.isForce = x.reserve.isForce
  normal : x.phase.isNormal = true → x.isForce = false

/-- **What the tuners of the forced executions hang on.** -/
structure Owned (s : Forced) : Prop where
  listed : s.m.Listed
  length : s.started.length = s.m.execs.length
  need : s.AllNeed s.m.forceCacheGroupId
  alone : ∀ (k : ℕ) (x : ExecRun), s.m.execs[k]? = some x → x.phase ≠ .ended →
    s.m.executingReserve = x.reserve ∧
      ∀ (k' : ℕ) (x' : ExecRun), s.m.execs[k']? = some x' → x'.phase ≠ .ended → k' = k
  runs : ∀ (k : ℕ) (x : ExecRun), s.m.execs[k]? = some x → s.RunOk k x

theorem owned_initial (settings : Settings) (container : Container) (today : Etime) :
    Owned ⟨.initial settings container today, [], []⟩ where
  listed := Manager.listed_initial settings container today
  length := rfl
  need := ⟨fun _ h => absurd h List.not_mem_nil, fun _ h => absurd h (Nat.not_lt_zero _)⟩
  alone _ _ h := by cases h
  runs _ _ h := by cases h

theorem lookup_created {r : Reserve} (h : r ∈ s.m.reserves) :
    (s.created op ++ s.owners).lookup r = s.owners.lookup r := by
  unfold created
  split
  · rename_i j info l now
    split
    · rfl
    · rename_i hnot
      rcases s.m.forces[j]? with _ | f
      · rfl
      · have hne : (r == Manager.tmpReserve info now) = false := by
          rw [beq_eq_false_iff_ne]
          rintro rfl
          exact hnot h
        simp only [Option.toList_some, List.map_cons, List.map_nil, List.cons_append,
          List.nil_append, List.lookup_cons, hne]
  · rfl

theorem started_after (hlen : m'.execs.length = s.m.execs.length) :
    (s.after op m').started = s.started := by
  show s.started ++ _ = s.started
  rw [← hlen, List.drop_length, List.map_nil, List.append_nil]

theorem Owned.of_execs_eq (h : s.Owned) (hlisted : m'.Listed) (hexecs : m'.execs = s.m.execs)
    (hexec : m'.executingReserve = s.m.executingReserve)
    (hneed : s.AllNeed m'.forceCacheGroupId)
    (hreserves : ∀ r ∈ m'.reserves, r.isForce = true → r ∈ s.m.reserves ∨
      (s.created op ++ s.owners).lookup r = some m'.forceCacheGroupId) :
    (s.after op m').Owned := by
  have hstarted : (s.after op m').started = s.started := started_after (by rw [hexecs])
  have hexecs' : (s.after op m').m.execs = s.m.execs := hexecs
  refine ⟨hlisted, ?_, ⟨?_, ?_⟩, ?_, ?_⟩
  · rw [hstarted, hexecs', h.length]
  · intro r hr hforce
    rcases hreserves r hr hforce with hmem | hlook
    · exact (lookup_created hmem).trans (hneed.1 r hmem hforce)
    · exact hlook
  · rw [hstarted, hexecs']
    exact hneed.2
  · rw [hexecs']
    intro k x hx hlive
    have ⟨heq, hothers⟩ := h.alone k x hx hlive
    exact ⟨hexec.trans heq, hothers⟩
  · rw [hexecs']
    intro k x hx
    have hrun := h.runs k x hx
    refine ⟨?_, hrun.isForce, hrun.normal⟩
    rw [hstarted]
    exact hrun.own

/-! ## The steps -/

theorem RunOk.runStep {k : ℕ} {x x' : ExecRun} (h : s.RunOk k x)
    (hexec : s.m.executingReserve = x.reserve)
    (hneed : x.reserve.isForce = true → x.phase.isEarly = true →
      s.started[k]? = some (some s.m.forceCacheGroupId))
    (hstep : Manager.RunStep s.m x x') :
    x'.reserve = x.reserve ∧ s.RunOk k x' ∧ (x'.phase.isEarly = true → x.phase.isEarly = true) := by
  cases hstep with
  | start hphase =>
    refine ⟨rfl, ⟨h.own, fun _ _ => congrArg Reserve.isForce hexec, fun hn => by cases hn⟩, ?_⟩
    exact fun _ => by rw [hphase]; rfl
  | forced hphase hforce =>
    have heq : x.isForce = x.reserve.isForce :=
      h.isForce (by rw [hphase]; exact ExecPhase.noConfusion)
        (by rw [hphase]; exact ExecPhase.noConfusion)
    refine ⟨rfl, ⟨?_, fun _ _ => heq, fun hn => by cases hn⟩, fun he => by cases he⟩
    intro hx g hg
    obtain rfl := Option.some.inj hg
    exact hneed hx (by rw [hphase]; rfl)
  | opening hphase hforce =>
    have heq : x.isForce = x.reserve.isForce :=
      h.isForce (by rw [hphase]; exact ExecPhase.noConfusion)
        (by rw [hphase]; exact ExecPhase.noConfusion)
    exact ⟨rfl, ⟨h.own, fun _ _ => heq, fun _ => hforce⟩, fun he => by cases he⟩
  | @normal g p hphase hp =>
    have hearly : p.isEarly = false := by cases p <;> first | rfl | cases hp
    have hne : x.phase ≠ .sent ∧ x.phase ≠ .ended := by
      constructor
      all_goals
        intro heq
        rw [heq] at hphase
        cases hphase
    refine ⟨rfl, ⟨h.own, fun _ _ => h.isForce hne.1 hne.2, fun _ => h.normal hphase⟩, ?_⟩
    exact fun he => absurd (hearly.symm.trans he) Bool.false_ne_true
  | tuned hphase =>
    have hnormal : x.isForce = false := h.normal (by rw [hphase]; rfl)
    have heq : x.isForce = x.reserve.isForce :=
      h.isForce (by rw [hphase]; exact ExecPhase.noConfusion)
        (by rw [hphase]; exact ExecPhase.noConfusion)
    refine ⟨rfl, ⟨?_, fun _ _ => heq, fun hn => by cases hn⟩, fun he => by cases he⟩
    intro hx
    rw [← heq, hnormal] at hx
    cases hx
  | @later infos b p hearly hended hp hn _ =>
    have hsent : x.phase ≠ .sent := by
      intro heq
      rw [heq] at hearly
      cases hearly
    refine ⟨rfl, ⟨h.own, fun _ _ => h.isForce hsent hended, fun hp' => ?_⟩, fun he => ?_⟩
    · exact absurd (hn.symm.trans hp') Bool.false_ne_true
    · exact absurd (hp.symm.trans he) Bool.false_ne_true

theorem Owned.set_exec {k : ℕ} {x : ExecRun} (x' : ExecRun) (h : s.Owned)
    (hlisted : m'.Listed) (hx : s.m.execs[k]? = some x) (hlive : x.phase ≠ .ended)
    (hexecs : m'.execs = s.m.execs.set k x')
    (hforce : m'.forceCacheGroupId = s.m.forceCacheGroupId)
    (hreserves : ∀ r ∈ m'.reserves, r.isForce = true → r ∈ s.m.reserves)
    (hreserve : x'.reserve = x.reserve) (hrun : s.RunOk k x')
    (hearly : x'.phase.isEarly = true → x.phase.isEarly = true)
    (hexec : x'.phase = .ended ∨ m'.executingReserve = s.m.executingReserve) :
    (s.after op m').Owned := by
  have hlt : k < s.m.execs.length := (List.getElem?_eq_some_iff.mp hx).1
  have hlen : m'.execs.length = s.m.execs.length := by rw [hexecs, List.length_set]
  have hstarted : (s.after op m').started = s.started := started_after hlen
  have hget : ∀ (k' : ℕ) (y : ExecRun), m'.execs[k']? = some y →
      k' = k ∧ y = x' ∨ k' ≠ k ∧ s.m.execs[k']? = some y := by
    intro k' y hy
    rw [hexecs] at hy
    by_cases hk : k' = k
    · subst hk
      rw [List.getElem?_set_self hlt] at hy
      exact .inl ⟨rfl, (Option.some.inj hy).symm⟩
    · rw [List.getElem?_set_ne (Ne.symm hk)] at hy
      exact .inr ⟨hk, hy⟩
  have ⟨heq, hothers⟩ := h.alone k x hx hlive
  refine ⟨hlisted, ?_, ⟨?_, ?_⟩, ?_, ?_⟩
  · rw [hstarted, h.length]
    exact hlen.symm
  · intro r hr hisForce
    have hmem := hreserves r hr hisForce
    show (s.created op ++ s.owners).lookup r = some m'.forceCacheGroupId
    rw [lookup_created hmem, hforce]
    exact h.need.1 r hmem hisForce
  · intro k' hk' y hy hisForce hisEarly
    rw [hstarted]
    show _ = some (some m'.forceCacheGroupId)
    rw [hforce]
    rcases hget k' y hy with ⟨rfl, rfl⟩ | ⟨-, hold⟩
    · exact h.need.2 k' hlt x hx (hreserve ▸ hisForce) (hearly hisEarly)
    · exact h.need.2 k' (List.getElem?_eq_some_iff.mp hold).1 y hold hisForce hisEarly
  · -- only this one can be at work
    have honly : ∀ (k' : ℕ) (y : ExecRun), m'.execs[k']? = some y → y.phase ≠ .ended →
        k' = k ∧ y = x' := by
      intro k' y hy hlive'
      rcases hget k' y hy with hsame | ⟨hne, hold⟩
      · exact hsame
      · exact absurd (hothers k' y hold hlive') hne
    intro k' y hy hlive'
    obtain ⟨rfl, rfl⟩ := honly k' y hy hlive'
    refine ⟨?_, fun k'' z hz hlive'' => (honly k'' z hz hlive'').1⟩
    show m'.executingReserve = y.reserve
    rw [hexec.resolve_left hlive', heq, hreserve]
  · intro k' y hy
    have hold : s.RunOk k' y := by
      rcases hget k' y hy with ⟨rfl, rfl⟩ | ⟨-, hold⟩
      · exact hrun
      · exact h.runs k' y hold
    refine ⟨?_, hold.isForce, hold.normal⟩
    rw [hstarted]
    exact hold.own

theorem mem_doExit {m : Manager} (hlisted : m.Listed) {r : Reserve} (h : r ∈ m.doExit.reserves)
    (hforce : r.isForce = true) : r ∈ m.reserves := by
  unfold Manager.doExit at h
  split at h
  · rcases mem_addReserves.mp h with hr | hr
    · have hnot := (of_mem_markRetries hlisted.retries r hr).2
      exact absurd (hnot.symm.trans hforce) Bool.false_ne_true
    · exact hr
  · exact h

theorem Owned.exec {k : ℕ} {x : ExecRun} {now : ℤ} (h : s.Owned) (hlisted : m'.Listed)
    (hx : s.m.execs[k]? = some x) (heff : Manager.ExecEffect s.m k x now m') :
    (s.after op m').Owned := by
  have hlt : k < s.m.execs.length := (List.getElem?_eq_some_iff.mp hx).1
  have hforce := execEffect_forceCacheGroupId heff
  have hneed := h.need.2 k hlt x hx
  have hrun := h.runs k x hx
  have hended : s.RunOk k { x with phase := .ended } :=
    ⟨hrun.own, fun _ hne => absurd rfl hne, fun hn => by cases hn⟩
  cases heff with
  | going hstep =>
    have hlive : x.phase ≠ .ended := hstep.live
    have ⟨hreserve, hrun', hearly⟩ :=
      hrun.runStep (h.alone k x hx hlive).1 hneed hstep
    exact h.set_exec _ hlisted hx hlive rfl hforce (fun _ hr _ => hr) hreserve hrun' hearly (.inr rfl)
  | opened _ hstep =>
    have hlive : x.phase ≠ .ended := hstep.live
    have ⟨hreserve, hrun', hearly⟩ :=
      hrun.runStep (h.alone k x hx hlive).1 hneed hstep
    exact h.set_exec _ hlisted hx hlive rfl hforce (fun _ hr _ => hr) hreserve hrun' hearly (.inr rfl)
  | @exit c hlive =>
    have hc : { s.m with container := c }.Listed := ⟨h.listed.ordered, h.listed.retries⟩
    refine h.set_exec { x with phase := .ended } hlisted hx hlive ?_ hforce ?_ rfl hended ?_
      (.inl rfl)
    · rw [Manager.setExec_execs, Manager.doExit_execs]
    · exact fun r hr hf => mem_doExit hc hr hf
    · exact fun he => by cases he
  | @error c hlive =>
    have hc : { s.m with container := c }.Listed := ⟨h.listed.ordered, h.listed.retries⟩
    obtain ⟨l, hl⟩ := Manager.pushRetry_eq { s.m with container := c } x.reserve.key now
    have hpush := hc.pushRetry x.reserve.key now
    rw [hl] at hpush
    refine h.set_exec { x with phase := .ended } hlisted hx hlive ?_ hforce ?_ rfl hended ?_
      (.inl rfl)
    · rw [Manager.doError, hl, Manager.setExec_execs, Manager.doExit_execs]
    · intro r hr hf
      rw [Manager.doError, hl] at hr
      exact mem_doExit hpush hr hf
    · exact fun he => by cases he

theorem Owned.check2execute {now : ℤ} {today : Etime} (h : s.Owned)
    (hok : s.OwnTuner (.checkLoop today now)) (hlisted : (s.m.check2execute now).Listed) :
    (s.after (.checkLoop today now) (s.m.check2execute now)).Owned := by
  rcases Manager.check2execute_cases h.listed.ordered now with
    heq | ⟨hvalid, r, l, hl, ⟨-, heq⟩ | ⟨hsoon, hdue, heq⟩⟩
  · rw [heq]
    exact h.of_execs_eq h.listed rfl rfl h.need fun r hr _ => .inl hr
  · rw [heq] at hlisted ⊢
    refine h.of_execs_eq hlisted rfl rfl h.need fun s hs _ => .inl ?_
    rw [hl]
    exact List.mem_cons_of_mem r hs
  · -- nothing else is at work
    have hended : ∀ x ∈ s.m.execs, x.phase = .ended := by
      have hhead : r ∈ s.m.reserves.head? := by rw [hl]; rfl
      refine (hok r hhead hdue hsoon).resolve_left ?_
      rw [hvalid]
      exact Bool.false_ne_true
    have hmem : r ∈ s.m.reserves := by rw [hl]; exact List.mem_cons_self
    rw [heq] at hlisted ⊢
    have hstarted : (s.after (.checkLoop today now) (s.m.take ⟨r, true, l⟩)).started =
        s.started ++ [s.owners.lookup r] := by
      show s.started ++ ((s.m.execs ++ [ExecRun.send r]).drop s.m.execs.length).map _ = _
      rw [List.drop_left]
      rfl
    have hget : ∀ (k : ℕ) (x : ExecRun), (s.m.execs ++ [ExecRun.send r])[k]? = some x →
        s.m.execs[k]? = some x ∨ k = s.m.execs.length ∧ x = .send r := by
      intro k x hx
      rcases Nat.lt_trichotomy k s.m.execs.length with hlt | heq | hgt
      · rw [List.getElem?_append_left hlt] at hx
        exact .inl hx
      · subst heq
        rw [List.getElem?_concat_length] at hx
        exact .inr ⟨rfl, (Option.some.inj hx).symm⟩
      · rw [List.getElem?_eq_none (by simp; omega)] at hx
        cases hx
    have hold : ∀ k < s.m.execs.length, (s.started ++ [s.owners.lookup r])[k]? = s.started[k]? :=
      fun k hk => List.getElem?_append_left (h.length ▸ hk)
    refine ⟨hlisted, ?_, ⟨?_, ?_⟩, ?_, ?_⟩
    · rw [hstarted]
      show (s.started ++ [s.owners.lookup r]).length = (s.m.execs ++ [ExecRun.send r]).length
      rw [List.length_append, List.length_append, h.length]
      rfl
    · intro q hq hforce
      have hq' : q ∈ s.m.reserves := by rw [hl]; exact List.mem_cons_of_mem r hq
      exact h.need.1 q hq' hforce
    · intro k _ x hx hforce hearly
      rw [hstarted]
      rcases hget k x hx with hx | ⟨rfl, rfl⟩
      · have hlt := (List.getElem?_eq_some_iff.mp hx).1
        rw [hold k hlt]
        exact h.need.2 k hlt x hx hforce hearly
      · rw [← h.length, List.getElem?_concat_length]
        exact congrArg some (h.need.1 r hmem hforce)
    · intro k x hx hlive
      have honly : ∀ (k : ℕ) (x : ExecRun), (s.m.execs ++ [ExecRun.send r])[k]? = some x →
          x.phase ≠ .ended → k = s.m.execs.length ∧ x = .send r := by
        intro k x hx hlive
        rcases hget k x hx with hx | hx
        · exact absurd (hended x (List.mem_of_getElem? hx)) hlive
        · exact hx
      obtain ⟨rfl, rfl⟩ := honly k x hx hlive
      exact ⟨rfl, fun k' x' hx' hlive' => (honly k' x' hx' hlive').1⟩
    · intro k x hx
      rcases hget k x hx with hx | ⟨rfl, rfl⟩
      · have hrun := h.runs k x hx
        refine ⟨fun hf g hg => ?_, hrun.isForce, hrun.normal⟩
        rw [hstarted, hold k (List.getElem?_eq_some_iff.mp hx).1]
        exact hrun.own hf g hg
      · exact ⟨fun _ _ hg => (by cases hg), fun hn => absurd rfl hn, fun hn => by cases hn⟩

theorem OwnTuner.of_eq {m : Manager} {today : Etime} {now : ℤ}
    (h : s.OwnTuner (.checkLoop today now)) (hreserves : m.reserves = s.m.reserves)
    (hexec : m.executingReserve = s.m.executingReserve) (hexecs : m.execs = s.m.execs) :
    ({ s with m := m } : Forced).OwnTuner (.checkLoop today now) := by
  show ∀ r ∈ m.reserves.head?, _ → _ → m.executingReserve.isValid = true ∨
    ∀ x ∈ m.execs, x.phase = .ended
  rw [hreserves, hexec, hexecs]
  exact h

/-- **The invariant is kept.** -/
theorem Owned.step (h : s.Owned) (hok : s.OwnTuner op) (hstep : s.step op = some s') :
    s'.Owned := by
  obtain ⟨m', hm', rfl⟩ := Option.map_eq_some_iff.mp hstep
  have hlisted := h.listed.step hm'
  have hneed := h.need.written hok hm'
  cases Manager.step_effect hm' with
  | idle => exact h.of_execs_eq hlisted rfl rfl hneed fun r hr _ => .inl hr
  | @checked today now adds day henable =>
    have hday : ({ s with m := { s.m with adds := adds, scheduleCacheNextDay := day } } :
        Forced).Owned :=
      ⟨⟨h.listed.ordered, h.listed.retries⟩, h.length, h.need, h.alone, fun k x hx =>
        ⟨(h.runs k x hx).own, (h.runs k x hx).isForce, (h.runs k x hx).normal⟩⟩
    exact hday.check2execute (hok.of_eq rfl rfl rfl) hlisted
  | added =>
    refine h.of_execs_eq hlisted rfl rfl hneed fun r hr hforce => ?_
    rcases mem_addReserves.mp hr with hr | hr
    · exact absurd ((Manager.of_mem_batch hr).2.2.1.symm.trans hforce) Bool.false_ne_true
    · exact .inl hr
  | exec hx heff => exact h.exec hlisted hx heff
  | @forced j now info l g f hj =>
    refine h.of_execs_eq hlisted rfl rfl hneed fun r hr _ => ?_
    rcases mem_addReserve.mp hr with rfl | hr
    · by_cases hmem : Manager.tmpReserve info now ∈ s.m.reserves
      · exact .inl hmem
      · -- the request still finds its own tuner
        have hown : s.m.forceCacheGroupId = g :=
          (Or.resolve_left hok hmem) _ hj
        refine .inr ?_
        simp only [created, if_neg hmem, hj, Option.toList_some, List.map_cons, List.map_nil,
          List.cons_append, List.nil_append, List.lookup_cons_self, hown]
    · exact .inl hr

end Forced

/-! ## Runs -/

/-- **Every forced reserve is executed with the tuner of the request that has made it**, in every
run in which, while a forced reserve has still to find its tuner, nobody writes another one, and in
which no reserve is executed while an execution is at work. -/
theorem forced_reach (settings : Settings) (container : Container) (today : Etime) {s : Forced}
    (h : Machine.Reach Forced.step Forced.OwnTuner
      ⟨.initial settings container today, [], []⟩ s)
    {k : ℕ} {x : ExecRun} {g : UInt8} (hx : s.m.execs[k]? = some x)
    (hforce : x.reserve.isForce = true) (hg : x.workGroupId = some g) :
    s.started[k]? = some (some g) := by
  have howned : s.Owned := by
    apply h.inv Forced.Owned
    · exact Forced.owned_initial settings container today
    · exact fun _ _ _ hs hok hstep => hs.step hok hstep
  exact (howned.runs k x hx).own hforce g hg

/-- The manager with two tuners and no schedule. -/
def forcedExample : Forced := ⟨.initial ⟨true, 1, 15, 0, 3, 90, 2⟩ ⟨[], 0⟩ ⟨86400, 0⟩, [], []⟩

/-- The channel of the tuner 1 is cached. -/
def forceOne : List Op :=
  [.force 1, .forceInfos 0 (some [⟨2, 4, 102⟩]) 100, .checkLoop .clear 105, .exec 0 .start 105,
    .exec 0 .streamName 105, .forceTurn 0 false]

/-- The first execution uses the tuner 1. -/
theorem forced_reach_one : ∃ s x,
    Machine.exec Forced.step forcedExample forceOne = some s ∧ s.m.execs[0]? = some x ∧
      x.reserve.isForce = true ∧ x.workGroupId = some 1 ∧ s.started[0]? = some (some 1) := by
  have hrun : Machine.execOk Forced.step Forced.OwnTuner forcedExample forceOne = true ∧
      (Machine.exec Forced.step forcedExample forceOne).map
        (fun s => s.m.execs.map fun x => (x.reserve.isForce, x.workGroupId)) =
          some [(true, some 1)] := by
    decide
  obtain ⟨s, hs, hreach, hexecs⟩ := Machine.exists_of_execOk hrun
  obtain ⟨x, hx, hx'⟩ := List.map_eq_singleton_iff.mp hexecs
  have hget : s.m.execs[0]? = some x := by rw [hx]; rfl
  obtain ⟨hforce, hgroup⟩ := Prod.mk.inj hx'
  exact ⟨s, x, hs, hget, hforce, hgroup,
    forced_reach ⟨true, 1, 15, 0, 3, 90, 2⟩ ⟨[], 0⟩ ⟨86400, 0⟩ hreach hget hforce hgroup⟩

/-- The channels of both tuners are cached, one after the other. -/
def forceBoth : List Op :=
  [.force 0, .forceInfos 0 (some [⟨1, 4, 101⟩]) 100, .force 1,
    .forceInfos 1 (some [⟨2, 4, 102⟩]) 101, .checkLoop .clear 105, .exec 0 .start 105,
    .exec 0 .streamName 105, .exec 0 (.serviceInfos none) 105, .forceTurn 0 false,
    .checkLoop .clear 115, .exec 1 .start 115, .exec 1 .streamName 115]

/-- The reserve of the first request is executed with the tuner of the second one, and then the one
of the second request with a tuner that does not exist. -/
theorem not_forced : ∃ s,
    Machine.exec Forced.step forcedExample forceBoth = some s ∧
      s.m.execs.map (fun x => (x.reserve.isForce, x.workGroupId)) =
        [(true, some 1), (true, some 0xff)] ∧
      s.started = [some 0, some 1] ∧
      ¬ ∀ (k : ℕ) (x : ExecRun) (g : UInt8), s.m.execs[k]? = some x → x.reserve.isForce = true →
        x.workGroupId = some g → s.started[k]? = some (some g) := by
  have hrun : (Machine.exec Forced.step forcedExample forceBoth).map
      (fun s => (s.m.execs.map (fun x => (x.reserve.isForce, x.workGroupId)), s.started)) =
        some ([(true, some 1), (true, some 0xff)], [some 0, some 1]) := by
    decide
  obtain ⟨s, hs, hpair⟩ := Option.map_eq_some_iff.mp hrun
  obtain ⟨hexecs, hstarted⟩ := Prod.mk.inj hpair
  refine ⟨s, hs, hexecs, hstarted, fun hall => ?_⟩
  obtain ⟨x, l, hx, hx', -⟩ := List.map_eq_cons_iff.mp hexecs
  obtain ⟨hforce, hgroup⟩ := Prod.mk.inj hx'
  have hget : s.m.execs[0]? = some x := by rw [hx]; rfl
  have howner := hall 0 x 1 hget hforce hgroup
  rw [hstarted] at howner
  exact absurd howner (by decide)

end EventSchedule

end AutoRec
