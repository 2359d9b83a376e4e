import AutoRec.Psisi.Manager

/-!
# When the psisi manager is ready

* `Happening`, `Watched`: the manager with a record of what has happened.
* `SetRightly`: the sequence that has set the state last has not been overtaken by another tuning, and
  has waited for all three tables.
* `Watched.Keeps`, `Watched.Keeps.step`: what the steps keep.
* **`setRightly_reach`**: the state is set rightly, in every run in which no sequence that has been
  overtaken finds the tables complete; `not_setRightly`: one that does.
-/

namespace AutoRec

/-- The three flags. -/
inductive CompFlag
  | eitH
  | nit
  | sdt
deriving DecidableEq, Repr

/-- The flag of this name. -/
def PsisiManager.flag (m : PsisiManager) : CompFlag → SectionCompFlag
  | .eitH => m.eitHCompFlag
  | .nit => m.nitCompFlag
  | .sdt => m.sdtCompFlag

/-- What can happen. -/
inductive Happening
  /-- `tuning_begin`, `tuning_error_stop` or `tune_stop`. -/
  | untuned
  /-- The `tuning_success` that starts the sequence `id`. -/
  | success (id : ℕ)
  /-- The sequence `id` clears the parsers and the flags. -/
  | cleared (id : ℕ)
  | completed (flag : CompFlag)
  /-- The sequence `id` sets `tuner_is_tuned_` and `state_`. -/
  | set (id : ℕ)
deriving DecidableEq, Repr

/-- The flags that have become completed between `m` and `m'`. -/
def completions (m m' : PsisiManager) : List Happening :=
  ([.eitH, .nit, .sdt].filter fun f =>
    m.flag f ≠ .completed && m'.flag f == .completed).map .completed

/-- What happens in a step from `m` to `m'`. -/
def happenings (m m' : PsisiManager) : PsisiOp → List Happening
  | .parserNotice _ => completions m m'
  | .receiveNotify .tuningSuccess => [.success m.started]
  | .receiveNotify _ => [.untuned]
  | .stabilization id _ =>
    if m.stabilizations.lookup id = some .waiting then [.cleared id]
    else if m.isCompleted then [.set id]
    else []
  | _ => []

/-- **The state has been set rightly**, the last time by the sequence `id`: nothing but a success has
been heard of the tuner since the success that has started it, and between its clear and the end of
its loop all three flags have become completed. -/
def SetRightly (log : List Happening) : Prop :=
  ∃ id l₁ l₂ l₃ l₄,
    log = l₁ ++ Happening.success id ::
        (l₂ ++ Happening.cleared id :: (l₃ ++ Happening.set id :: l₄)) ∧
      (Happening.untuned ∉ l₂ ++ l₃ ++ l₄) ∧ (∀ f, .completed f ∈ l₃) ∧ ∀ i, .set i ∉ l₄

theorem SetRightly.append {log l : List Happening} (h : SetRightly log) (hl : .untuned ∉ l)
    (hset : ∀ i, .set i ∉ l) : SetRightly (log ++ l) := by
  obtain ⟨id, l₁, l₂, l₃, l₄, rfl, huntuned, hcompleted, hlast⟩ := h
  refine ⟨id, l₁, l₂, l₃, l₄ ++ l, by simp, ?_, hcompleted, fun i hi => ?_⟩
  · simp only [List.mem_append, not_or] at huntuned ⊢
    exact ⟨huntuned.1, huntuned.2, hl⟩
  · rcases List.mem_append.mp hi with hi | hi
    · exact hlast i hi
    · exact hset i hi

/-- Something else than a success has been heard of the tuner since the sequence `id` was started. -/
def overtaken (id : ℕ) : List Happening → Bool
  | [] => false
  | e :: l => if e = .success id then decide (.untuned ∈ l) else overtaken id l

/-- **The manager, with what has happened.** -/
structure Watched where
  m : PsisiManager
  log : List Happening

namespace Watched

/-- A step, with what happens in it. -/
def step (E : Conversions) (w : Watched) (op : PsisiOp) : Option Watched :=
  (w.m.step E op).map fun m => ⟨m, w.log ++ happenings w.m m op⟩

/-- **The condition on a step**: a sequence that finds the tables complete has not been overtaken. -/
def NotOvertaken (w : Watched) : PsisiOp → Prop
  | .stabilization id _ =>
    w.m.stabilizations.lookup id ≠ some .waiting → w.m.isCompleted = true →
      overtaken id w.log = false
  | _ => True

instance instDecidableNotOvertaken (w : Watched) : DecidablePred w.NotOvertaken
  | .stabilization _ _ => inferInstanceAs (Decidable (_ → _ → _))
  | .parserNotice _ | .receiveNotify _ | .checkPat _ | .checkFollow _ | .enableParseEitSched
  | .disableParseEitSched | .clearSched | .dumpCaches _ => inferInstanceAs (Decidable True)

/-! ## What the steps keep -/

variable {E : Conversions} {w w' : Watched} {m m' : PsisiManager} {log : List Happening}

/-- What is known of a sequence. -/
def Tracks (m : PsisiManager) (log : List Happening) (id : ℕ) : Stabilization → Prop
  | .waiting => ∃ l₁ l₂, log = l₁ ++ Happening.success id :: l₂
  | .polling _ =>
    ∃ l₁ l₂ l₃, log = l₁ ++ Happening.success id :: (l₂ ++ Happening.cleared id :: l₃) ∧
      ∀ f, m.flag f = .completed → .completed f ∈ l₃

/-- What the steps keep. -/
structure Keeps (w : Watched) : Prop where
  tracks : ∀ p ∈ w.m.stabilizations, Tracks w.m w.log p.1 p.2
  rightly : w.m.state = .ready ∨ w.m.tunerIsTuned = true → SetRightly w.log

theorem Tracks.append {id : ℕ} {x : Stabilization} {l : List Happening} (h : Tracks m log id x)
    (hflag : ∀ f, m'.flag f = .completed → m.flag f = .completed ∨ .completed f ∈ l) :
    Tracks m' (log ++ l) id x := by
  cases x with
  | waiting =>
    obtain ⟨l₁, l₂, rfl⟩ := h
    exact ⟨l₁, l₂ ++ l, by simp⟩
  | polling i =>
    obtain ⟨l₁, l₂, l₃, rfl, hf⟩ := h
    refine ⟨l₁, l₂, l₃ ++ l, by simp, fun f hm' => ?_⟩
    rcases hflag f hm' with hm | hl
    · exact List.mem_append_left _ (hf f hm)
    · exact List.mem_append_right _ hl

theorem completed_mem_completions {f : CompFlag} (h : m'.flag f = .completed) :
    m.flag f = .completed ∨ .completed f ∈ completions m m' := by
  by_cases hm : m.flag f = .completed
  · exact .inl hm
  · right
    refine List.mem_map_of_mem (List.mem_filter.mpr ⟨?_, by simp [hm, h]⟩)
    cases f <;> simp

theorem mem_setStabilization {id : ℕ} {next : Option Stabilization} {p : ℕ × Stabilization}
    (hp : p ∈ (m.setStabilization id next).stabilizations) :
    p ∈ m.stabilizations ∨ ∃ x ∈ next, p = (id, x) := by
  obtain ⟨q, hq, hp⟩ := List.mem_flatMap.mp hp
  split at hp
  · obtain ⟨x, hx, rfl⟩ := List.mem_map.mp hp
    exact .inr ⟨x, Option.mem_toList.mp hx, rfl⟩
  · obtain rfl := List.mem_singleton.mp hp
    exact .inl hq

theorem mem_of_lookup {id : ℕ} {x : Stabilization} {l : List (ℕ × Stabilization)}
    (h : l.lookup id = some x) : (id, x) ∈ l := by
  induction l with
  | nil => cases h
  | cons p l ih =>
    obtain ⟨i, y⟩ := p
    rw [List.lookup_cons] at h
    split at h
    · rename_i hi
      rw [← Option.some.inj h, beq_iff_eq.mp hi]
      exact List.mem_cons_self
    · exact List.mem_cons_of_mem _ (ih h)

/-- What a notice leaves alone. -/
structure SameStage (m m' : PsisiManager) : Prop where
  stabilizations : m'.stabilizations = m.stabilizations
  state : m'.state = m.state
  tuned : m'.tunerIsTuned = m.tunerIsTuned

theorem sameStage_parse {n : ParserNotice} (hm : m.parse E n = some m') : SameStage m m' := by
  unfold PsisiManager.parse at hm
  split at hm
  · obtain ⟨r, s, -, ⟨-, latest, -, rfl⟩ | ⟨-, rfl⟩⟩ := PsisiManager.onPat_cases hm
    · exact ⟨rfl, rfl, rfl⟩
    · exact ⟨rfl, rfl, rfl⟩
  · obtain rfl | ⟨map, rfl | rfl⟩ := PsisiManager.onPmt_cases hm
    all_goals exact ⟨rfl, rfl, rfl⟩
  · obtain ⟨p, -, rfl⟩ := Option.map_eq_some_iff.mp hm
    exact ⟨rfl, rfl, rfl⟩
  · obtain ⟨p, -, rfl⟩ := Option.map_eq_some_iff.mp hm
    exact ⟨rfl, rfl, rfl⟩
  · obtain ⟨r, s, -, rfl⟩ := PsisiManager.onNit_cases hm
    exact ⟨rfl, rfl, rfl⟩
  · obtain ⟨r, s, -, ⟨-, rfl⟩ | ⟨-, rfl⟩⟩ := PsisiManager.onSdt_cases hm
    · exact ⟨rfl, rfl, rfl⟩
    · exact ⟨rfl, rfl, rfl⟩
  · obtain ⟨r, s, s', -, ⟨-, rfl⟩ | ⟨-, rfl⟩⟩ := PsisiManager.onEit_cases hm
    · exact ⟨rfl, rfl, rfl⟩
    · exact ⟨rfl, rfl, rfl⟩

theorem Keeps.same {l : List Happening} (h : w.Keeps) (hm : SameStage w.m m')
    (hflag : ∀ f, m'.flag f = .completed → w.m.flag f = .completed ∨ .completed f ∈ l)
    (hl : .untuned ∉ l) (hset : ∀ i, .set i ∉ l) : Keeps ⟨m', w.log ++ l⟩ where
  tracks p hp := (h.tracks p (hm.stabilizations ▸ hp)).append hflag
  rightly hr := by
    have hr' : w.m.state = .ready ∨ w.m.tunerIsTuned = true := by
      rw [← hm.state, ← hm.tuned]
      exact hr
    exact (h.rightly hr').append hl hset

/-- A sequence that has not been overtaken is as it should be. -/
theorem untuned_not_mem {id : ℕ} {l₁ l₂ : List Happening}
    (h : overtaken id (l₁ ++ Happening.success id :: l₂) = false) : .untuned ∉ l₂ := by
  induction l₁ with
  | nil => simpa [overtaken] using h
  | cons e l₁ ih =>
    rw [List.cons_append, overtaken] at h
    by_cases he : e = .success id
    · rw [if_pos he, decide_eq_false_iff_not, List.mem_append, not_or] at h
      exact fun hmem => h.2 (List.mem_cons_of_mem _ hmem)
    · rw [if_neg he] at h
      exact ih h

theorem flag_completed (h : m.isCompleted = true) (f : CompFlag) : m.flag f = .completed := by
  rw [PsisiManager.isCompleted, Bool.and_eq_true, Bool.and_eq_true, beq_iff_eq, beq_iff_eq,
    beq_iff_eq] at h
  cases f with
  | eitH => exact h.1.1
  | nit => exact h.1.2
  | sdt => exact h.2

/-- **The end of a wait.** -/
theorem Keeps.stabilization {id : ℕ} {down : Bool} (h : w.Keeps)
    (hop : w.NotOvertaken (.stabilization id down))
    (hm : w.m.onStabilizationAfterTuning id down = some m') :
    Keeps ⟨m', w.log ++ happenings w.m m' (.stabilization id down)⟩ := by
  obtain ⟨hid, rfl⟩ | ⟨i, hid, rfl⟩ := PsisiManager.onStabilization_cases hm
  · have htracks := h.tracks _ (mem_of_lookup hid)
    have hclear : ∀ f, ¬ (w.m.clearParsers.flag f = .completed) := by
      intro f hf
      cases f <;> cases hf
    simp only [happenings, if_pos hid]
    refine ⟨fun p hp => ?_, fun hr => (h.rightly hr).append (by simp) (by simp)⟩
    rcases mem_setStabilization hp with hp | ⟨x, hx, rfl⟩
    · exact (h.tracks p hp).append fun f hf => absurd hf (hclear f)
    · obtain ⟨l₁, l₂, hlog⟩ := htracks
      cases down with
      | true => cases hx
      | false =>
        obtain rfl := Option.some.inj hx
        exact ⟨l₁, l₂, [], by simp [hlog], fun f hf => absurd hf (hclear f)⟩
  · have hne : w.m.stabilizations.lookup id ≠ some .waiting := by simp [hid]
    have htracks := h.tracks _ (mem_of_lookup hid)
    obtain ⟨l₁, l₂, l₃, hlog, hflags⟩ := htracks
    simp only [happenings, if_neg hne]
    unfold PsisiManager.pollStabilization
    by_cases hc : w.m.isCompleted = true
    · rw [if_pos hc, if_pos hc]
      have hok := hop hne hc
      rw [hlog] at hok
      have huntuned := untuned_not_mem hok
      refine ⟨fun p hp => ?_, fun _ => ?_⟩
      · rcases mem_setStabilization hp with hp | ⟨x, hx, -⟩
        · exact (h.tracks p hp).append fun f hf => .inl hf
        · cases hx
      · refine ⟨id, l₁, l₂, l₃, [], by simp [hlog], ?_, fun f => hflags f (flag_completed hc f), by simp⟩
        simp only [List.mem_append, List.mem_cons, not_or] at huntuned
        simp [huntuned.1, huntuned.2.2]
    · rw [if_neg hc, if_neg hc, List.append_nil]
      have hpoll : ∀ next : Option Stabilization, (∀ x ∈ next, x = .polling (i + 1)) →
          Keeps ⟨w.m.setStabilization id next, w.log⟩ := by
        intro next hnext
        refine ⟨fun p hp => ?_, h.rightly⟩
        rcases mem_setStabilization hp with hp | ⟨x, hx, rfl⟩
        · exact h.tracks p hp
        · obtain rfl := hnext x hx
          exact ⟨l₁, l₂, l₃, hlog, hflags⟩
      split
      · exact hpoll _ (by simp)
      · exact hpoll _ (by simp)

/-- **A step.** -/
theorem Keeps.step {op : PsisiOp} (h : w.Keeps) (hop : w.NotOvertaken op)
    (hw : Watched.step E w op = some w') : w'.Keeps := by
  obtain ⟨m', hm, rfl⟩ := Option.map_eq_some_iff.mp hw
  cases op with
  | parserNotice n =>
    have hsame : SameStage w.m m' := by
      have hparse := sameStage_parse (m := w.m.checkAsyncDelete) hm
      exact ⟨hparse.stabilizations, hparse.state, hparse.tuned⟩
    exact h.same hsame (fun f => completed_mem_completions) (by simp [happenings, completions])
      (by simp [happenings, completions])
  | receiveNotify state =>
    obtain rfl := Option.some.inj hm
    cases state with
    | tuningSuccess =>
      refine ⟨fun p hp => ?_, fun hr => (h.rightly hr).append (by simp [happenings])
        (by simp [happenings])⟩
      rcases List.mem_append.mp hp with hp | hp
      · exact (h.tracks p hp).append fun f hf => .inl hf
      · obtain rfl := List.mem_singleton.mp hp
        exact ⟨w.log, [], rfl⟩
    | tuningBegin | tuningErrorStop | tuneStop =>
      refine ⟨fun p hp => (h.tracks p hp).append fun f hf => .inl hf, ?_⟩
      rintro (hr | hr) <;> cases hr
  | stabilization id down => exact h.stabilization hop hm
  | checkPat now =>
    obtain rfl := Option.some.inj hm
    have hsame : SameStage w.m (w.m.checkPat now) := by
      unfold PsisiManager.checkPat
      split <;> exact ⟨rfl, rfl, rfl⟩
    have hflag : ∀ f, (w.m.checkPat now).flag f = w.m.flag f := by
      unfold PsisiManager.checkPat
      split <;> exact fun f => rfl
    exact h.same hsame (fun f hf => .inl (hflag f ▸ hf)) (by simp [happenings])
      (by simp [happenings])
  | checkFollow now =>
    obtain rfl := Option.some.inj hm
    have hsame : SameStage w.m (w.m.checkFollow E now) := by
      unfold PsisiManager.checkFollow
      dsimp only
      split <;> exact ⟨rfl, rfl, rfl⟩
    have hflag : ∀ f, (w.m.checkFollow E now).flag f = w.m.flag f := by
      unfold PsisiManager.checkFollow
      dsimp only
      split <;> exact fun f => by cases f <;> rfl
    exact h.same hsame (fun f hf => .inl (hflag f ▸ hf)) (by simp [happenings])
      (by simp [happenings])
  | enableParseEitSched | disableParseEitSched | clearSched =>
    obtain rfl := Option.some.inj hm
    exact h.same ⟨rfl, rfl, rfl⟩ (fun f hf => .inl (by cases f <;> exact hf))
      (by simp [happenings]) (by simp [happenings])
  | dumpCaches cache =>
    obtain rfl := PsisiManager.onDumpCaches_eq hm
    exact h.same ⟨rfl, rfl, rfl⟩ (fun f hf => .inl hf) (by simp [happenings]) (by simp [happenings])

end Watched

/-- **The state is set rightly**, in every run in which no sequence that has been overtaken finds the
tables complete. -/
theorem setRightly_reach (E : Conversions) {w : Watched}
    (h : Machine.Reach (Watched.step E) Watched.NotOvertaken ⟨.init, []⟩ w)
    (hready : w.m.state = .ready ∨ w.m.tunerIsTuned = true) : SetRightly w.log := by
  have hkeeps : w.Keeps := by
    apply h.inv Watched.Keeps
    · exact ⟨fun _ hp => absurd hp List.not_mem_nil, by simp [PsisiManager.init]⟩
    · exact fun _ _ _ hw hop hstep => hw.step hop hstep
  exact hkeeps.rightly hready

/-- All three tables, twice. -/
def tablesTwice : List PsisiOp :=
  [noticeOf .eitHPf (true, 0 :: eitPresent) eitPresent_size,
    noticeOf .nit (true, 0 :: nitFirst) nitFirst_size,
    noticeOf .sdt (true, 0 :: sdtFirst) sdtFirst_size,
    noticeOf .eitHPf (true, 0 :: eitPresent) eitPresent_size,
    noticeOf .nit (true, 0 :: nitFirst) nitFirst_size,
    noticeOf .sdt (true, 0 :: sdtFirst) sdtFirst_size]

/-- A tuning that succeeds. -/
def tuneRun : List PsisiOp :=
  .receiveNotify .tuningSuccess :: .stabilization 0 false ::
    (tablesTwice ++ [PsisiOp.stabilization 0 false])

/-- The manager is ready, and the state is set rightly. -/
theorem setRightly_reach_tune : ∃ w,
    Machine.exec (Watched.step conversionsOfDate) ⟨.init, []⟩ tuneRun = some w ∧
      w.m.state = .ready ∧ w.m.tunerIsTuned = true ∧ SetRightly w.log := by
  have hrun : Machine.execOk (Watched.step conversionsOfDate) Watched.NotOvertaken ⟨.init, []⟩
        tuneRun = true ∧
      (Machine.exec (Watched.step conversionsOfDate) ⟨.init, []⟩ tuneRun).map
        (fun w => (w.m.state, w.m.tunerIsTuned)) = some (.ready, true) := by
    decide +kernel
  obtain ⟨w, hw, hreach, hstate⟩ := Machine.exists_of_execOk hrun
  obtain ⟨hready, htuned⟩ := Prod.mk.inj hstate
  exact ⟨w, hw, hready, htuned, setRightly_reach conversionsOfDate hreach (.inl hready)⟩

/-- Another tuning begins before the last section comes in again. -/
def overtakenRun : List PsisiOp :=
  .receiveNotify .tuningSuccess :: .stabilization 0 false ::
    (tablesTwice.take 5 ++ [PsisiOp.receiveNotify .tuningBegin,
      noticeOf .sdt (true, 0 :: sdtFirst) sdtFirst_size, .stabilization 0 false])

theorem SetRightly.exists_success {log : List Happening} (h : SetRightly log) :
    ∃ id l₁ l₂, log = l₁ ++ Happening.success id :: l₂ ∧ .untuned ∉ l₂ := by
  obtain ⟨id, l₁, l₂, l₃, l₄, rfl, huntuned, -, -⟩ := h
  refine ⟨id, l₁, _, rfl, ?_⟩
  simp only [List.mem_append, List.mem_cons, not_or] at huntuned ⊢
  simp [huntuned]

/-- The sequence of the first tuning says that the manager is ready, while the second one goes on. -/
theorem not_setRightly : ∃ w,
    Machine.exec (Watched.step conversionsOfDate) ⟨.init, []⟩ overtakenRun = some w ∧
      w.m.state = .ready ∧ w.m.tunerIsTuned = true ∧ ¬ SetRightly w.log := by
  have hrun : (Machine.exec (Watched.step conversionsOfDate) ⟨.init, []⟩ overtakenRun).map
      (fun w => (w.m.state, w.m.tunerIsTuned, w.log)) = some (.ready, true,
        [.success 0, .cleared 0, .completed .eitH, .completed .nit, .untuned, .completed .sdt,
          .set 0]) := by
    decide +kernel
  obtain ⟨w, hw, hstate⟩ := Option.map_eq_some_iff.mp hrun
  obtain ⟨hready, hrest⟩ := Prod.mk.inj hstate
  obtain ⟨htuned, hlog⟩ := Prod.mk.inj hrest
  refine ⟨w, hw, hready, htuned, fun h => ?_⟩
  obtain ⟨id, l₁, l₂, hsplit, huntuned⟩ := h.exists_success
  rw [hlog] at hsplit
  cases l₁ with
  | nil =>
    obtain ⟨-, rfl⟩ := List.cons.inj hsplit
    simp at huntuned
  | cons e l₁ =>
    rw [List.cons_append] at hsplit
    have hmem : Happening.success id ∈ l₁ ++ Happening.success id :: l₂ := by simp
    rw [← (List.cons.inj hsplit).2] at hmem
    simp at hmem

end AutoRec
