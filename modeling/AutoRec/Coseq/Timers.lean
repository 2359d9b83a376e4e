import AutoRec.Coseq.Fibers
import AutoRec.Coseq.Requests

/-!
# Waiting for a time

* `nanos`, `nanos_tsAddMs`, `tsLt_iff`: the times, in nanoseconds.
* `visit`: the loop over the fibers comes to one of them, and the clock that it has looked at.
* `Sleeps`, `sleeps_of_move`: a fiber that waits for a time; it waits until a visit that is not before.
* **`wait_timeout_sleeps`**: no sequence goes on before its time, and one goes on at the first visit
  then, if no other one has locked the module.
* `nearest`, **`nearest_due`**: what the loop waits for when it has no events.
-/

namespace AutoRec

namespace Coseq

open Machine

/-! ## The times -/

/-- The nanoseconds of a time. -/
def nanos (t : Timespec) : ℕ := t.sec * 1000000000 + t.nsec

theorem nanos_tsAddMs (t : Timespec) (ms : UInt32) :
    nanos (tsAddMs t ms) = nanos t + ms.toNat * 1000000 := by
  have hms := Nat.div_add_mod ms.toNat 1000
  unfold tsAddMs nanos
  split <;> simp only <;> omega

theorem tsLt_iff (a b : Timespec) : tsLt a b = true ↔ nanos a < nanos b := by
  have ha := a.nsec_lt
  have hb := b.nsec_lt
  simp only [tsLt, nanos, Bool.or_eq_true, Bool.and_eq_true, beq_iff_eq, decide_eq_true_eq]
  omega

theorem tsLt_eq_false_iff (a b : Timespec) : tsLt a b = false ↔ nanos b ≤ nanos a := by
  rw [← not_lt, ← tsLt_iff, Bool.not_eq_true]

/-! ## A fiber that waits for a time -/

/-- The loop over the fibers comes to the fiber, with this clock. -/
def ModuleState.visit (m : ModuleState) (p : ℕ) : Op → Option Timespec
  | .timer =>
    match m.phase with
    | .timers now (q :: _) => if q = p then some now else none
    | _ => none
  | _ => none

/-- If the step is a visit of the fiber, then before a time in nanoseconds. -/
def Early (p n : ℕ) (m : ModuleState) (op : Op) : Prop :=
  ∀ now ∈ m.visit p op, nanos now < n

instance (p n : ℕ) (m : ModuleState) (op : Op) : Decidable (Early p n m op) :=
  inferInstanceAs (Decidable (∀ now ∈ m.visit p op, nanos now < n))

/-- The fiber waits for a time, and for nothing else. -/
structure Fiber.Waits (n : ℕ) (f : Fiber) : Prop where
  waitingTimer : f.waitingTimer = true
  waitingReply : f.waitingReply = false
  waitingAny : f.waitingAny = false
  done : f.done = false
  deadline : nanos f.deadline = n

/-- The fiber sleeps until a time. -/
def Sleeps (p n : ℕ) (m : ModuleState) : Prop := ∃ f, m.heap p = some f ∧ f.Waits n

variable {m t : ModuleState} {p q n : ℕ} {f : Fiber} {op : Op}

theorem call_heap (c : Call) (hne : q ≠ p) : (m.call p f c).heap q = m.heap q := by
  cases c with
  | request | requestAsync | waitTimeout | exit => exact Function.update_of_ne hne _ _
  | waitReply =>
    simp only [ModuleState.call, ModuleState.waitReply]
    split_ifs
    · rfl
    · split <;> exact Function.update_of_ne hne _ _
  | reply result msg =>
    simp only [ModuleState.call, ModuleState.reply]
    split <;> rfl
  | regNotify category clientId =>
    simp only [ModuleState.call, ModuleState.regNotify]
    split <;> rfl
  | send | unregNotify | notify | lock | unlock => rfl

/-- A visit before the time finds the fiber not due. -/
theorem isDue_of_early {now : Timespec} {left : List ℕ} (hf : f.Waits n) (hv : Visited m now p left)
    (hearly : Early p n m .timer) : m.isDue now p f = false := by
  have hvisit : m.visit p .timer = some now := by
    simp only [ModuleState.visit, hv.phase, if_true]
  have hlt : tsLt now f.deadline = true := by
    rw [tsLt_iff, hf.deadline]
    exact hearly now hvisit
  simp only [ModuleState.isDue, hlt, Bool.not_true, Bool.and_false, Bool.false_and]

/-- **A fiber sleeps until a visit that is not before its time.** -/
theorem sleeps_of_move (hshape : Shape m) (hs : Sleeps p n m) (hearly : Early p n m op)
    (ht : Move m op t) : Sleeps p n t := by
  obtain ⟨f, hp, hf⟩ := hs
  -- the other fibers may change
  have hother : ∀ {q : ℕ} {g : Fiber}, t.heap = Function.update m.heap q (some g) → p ≠ q →
      Sleeps p n t := fun hheap hne => ⟨f, by rw [hheap, Function.update_of_ne hne, hp], hf⟩
  cases ht with
  | arrive | take | visited | dangling | skip | defer | ignore | lost => exact ⟨f, hp, hf⟩
  | timeout now q left g hv hq hdue hreply =>
    refine hother rfl fun heq => ?_
    subst heq
    obtain rfl : g = f := by simpa [hp] using hq.symm
    simp [hf.waitingReply] at hreply
  | wake now q left g hv hq hdue hreply =>
    refine hother rfl fun heq => ?_
    subst heq
    obtain rfl : g = f := by simpa [hp] using hq.symm
    simp [isDue_of_early hf hv hearly] at hdue
  | start x rest g hn hg hlock =>
    exact hother rfl (hshape.lt p (hshape.mem hp)).ne
  | answer x rest hn reqId i r msg q g hr hq hwait =>
    refine hother rfl fun heq => ?_
    subst heq
    obtain rfl : g = f := by simpa [hp] using hq.symm
    simp [hf.waitingReply, hf.waitingAny] at hwait
  | queue x rest hn reqId i r msg q g hr hq hany hwait =>
    by_cases heq : p = q
    · -- a reply of an earlier request waits until the fiber asks for it
      subst heq
      obtain rfl : g = f := by simpa [hp] using hq.symm
      exact ⟨_, Function.update_self _ _ _,
        ⟨hf.waitingTimer, hf.waitingReply, hf.waitingAny, hf.done, hf.deadline⟩⟩
    · exact hother rfl heq
  | reap hcurrent hphase hbatch =>
    have hdone : m.isDone p = false := by simp [ModuleState.isDone, hp, hf.done]
    exact ⟨f, by rw [ModuleState.reapDone_heap, hdone]; exact hp, hf⟩
  | call q g c hcurrent hq =>
    have hne : p ≠ q := by
      rintro rfl
      obtain ⟨g', hg', hruns⟩ := hshape.running p hcurrent
      obtain rfl : g' = f := by simpa [hp] using hg'.symm
      exact absurd hf.waitingTimer (by simp [hruns.waitingTimer])
    exact ⟨f, by rw [call_heap c hne, hp], hf⟩

/-- A visit at its time lets the fiber go on, if no other one has locked the module. -/
theorem step_of_due {now : Timespec} {left : List ℕ} (hs : Sleeps p n m) (hv : Visited m now p left)
    (hdue : n ≤ nanos now) (hlock : m.lockedBy.all (· == p) = true) :
    ∃ t, m.step .timer = some t ∧ t.current = some p := by
  obtain ⟨f, hp, hf⟩ := hs
  have hlt : tsLt now f.deadline = false := by
    rw [tsLt_eq_false_iff, hf.deadline]
    exact hdue
  have hdue : m.isDue now p f = true := by
    simp only [ModuleState.isDue, hf.waitingTimer, hlt, hlock, Bool.not_false, Bool.and_self]
  set s : ModuleState := { m with phase := .timers now left } with hs
  have hstep : m.step .timer = some (s.timerOne now p) := by
    simp only [ModuleState.step, hv.current, if_true, ModuleState.timer, hv.phase, hs]
  have hone : s.timerOne now p = s.resume p f := by
    have hp' : s.heap p = some f := hp
    have hdue' : s.isDue now p f = true := hdue
    simp only [ModuleState.timerOne, hp', hdue', if_true, hf.waitingReply, Bool.false_eq_true,
      if_false]
  exact ⟨s.resume p f, by rw [hstep, hone], rfl⟩

/-- **A sequence that waits for a time does not go on before**, whatever is handled meanwhile; the
loop keeps visiting it, and the first visit then lets it go on, if no other one has locked the
module. -/
theorem wait_timeout_sleeps {idx nrSeq : ℕ} {recvNotify : Bool} {now : Timespec} {msec : UInt32}
    (hm : Reach ModuleState.step anyStep (.initial idx nrSeq recvNotify) m)
    (hrun : m.running = some (p, f))
    (ht : Reach ModuleState.step (Early p (nanos now + msec.toNat * 1000000))
      (m.call p f (.waitTimeout now msec)) t) :
    t.current ≠ some p ∧ p ∈ t.fibers ∧ ∀ now' left, Visited t now' p left →
      nanos now + msec.toNat * 1000000 ≤ nanos now' → t.lockedBy.all (· == p) = true →
        ∃ u, t.step .timer = some u ∧ u.current = some p := by
  obtain ⟨hcurrent, hp⟩ := ModuleState.running_eq_some.mp hrun
  have hcall : m.step (.call (.waitTimeout now msec)) = some (m.call p f (.waitTimeout now msec)) := by
    rw [ModuleState.step, hrun]
    rfl
  have hreach : ∀ s, Reach ModuleState.step (Early p (nanos now + msec.toNat * 1000000))
      (m.call p f (.waitTimeout now msec)) s → Shape s :=
    fun s hs => shape_of_reach ((hm.tail trivial hcall).trans hs.any)
  have hsleeps : Sleeps p (nanos now + msec.toNat * 1000000) t := by
    refine ht.inv₂ Shape (Sleeps p _) hreach ⟨_, Function.update_self _ _ _, ?_⟩
      fun s op t hshape _ hs ho hst => sleeps_of_move hshape hs ho (ModuleState.move_of_step hst)
    obtain ⟨g, hg, hruns⟩ := (shape_of_reach hm).running p hcurrent
    obtain rfl : g = f := by simpa [hp] using hg.symm
    exact ⟨rfl, hruns.waitingReply, hruns.waitingAny, hruns.done, nanos_tsAddMs now msec⟩
  obtain ⟨g, hg, hwaits⟩ := hsleeps
  refine ⟨fun hcur => ?_, (hreach t ht).mem hg, fun now' left hv => step_of_due ⟨g, hg, hwaits⟩ hv⟩
  obtain ⟨g', hg', hruns⟩ := (hreach t ht).running p hcur
  obtain rfl : g' = g := by simpa [hg] using hg'.symm
  simpa [hruns.waitingTimer] using hwaits.waitingTimer

/-- A sequence waits for two seconds. -/
def pausing : List Op := [
  .arrive (.start 0 1 none []), .take .zero, .timer, .handle]

/-- The loop goes round before. -/
def meantime : List Op := [.reap, .take ⟨1, 999999999, by decide⟩, .timer, .timer, .reap,
  .take ⟨2, 500000000, by decide⟩]

theorem wait_timeout_sleeps_pausing : ∃ t : ModuleState, t.current ≠ some 0 ∧ 0 ∈ t.fibers ∧
    ∀ now' left, Visited t now' 0 left →
      nanos ⟨0, 500000000, by decide⟩ + (2000 : UInt32).toNat * 1000000 ≤ nanos now' →
        t.lockedBy.all (· == 0) = true → ∃ u, t.step .timer = some u ∧ u.current = some 0 := by
  obtain ⟨m, hm⟩ := Option.isSome_iff_exists.mp
    (show (exec ModuleState.step (.initial 0 1 true) pausing).isSome = true by decide)
  have hlater : (exec ModuleState.step (.initial 0 1 true) pausing).map (fun m =>
      m.running.map fun r => (r.1, execOk ModuleState.step
        (Early 0 (nanos ⟨0, 500000000, by decide⟩ + (2000 : UInt32).toNat * 1000000))
        (m.call r.1 r.2 (.waitTimeout ⟨0, 500000000, by decide⟩ 2000)) meantime,
        (exec ModuleState.step
          (m.call r.1 r.2 (.waitTimeout ⟨0, 500000000, by decide⟩ 2000)) meantime).isSome)) =
      some (some (0, true, true)) := by
    decide
  rw [hm, Option.map_some, Option.some.injEq] at hlater
  obtain ⟨r, hrun, hstate⟩ := Option.map_eq_some_iff.mp hlater
  simp only [Prod.mk.injEq] at hstate
  obtain ⟨hfirst, hok, hsome⟩ := hstate
  obtain ⟨t, ht⟩ := Option.isSome_iff_exists.mp hsome
  have hrun : m.running = some (0, r.2) := by rw [hrun, ← hfirst]
  rw [hfirst] at hok ht
  exact ⟨t, wait_timeout_sleeps (reach_of_exec hm) hrun (reach_of_execOk hok ht)⟩

/-! ## What the loop waits for -/

/-- The loop over the fibers that looks for the nearest deadline, for one of them. -/
def ModuleState.nearer (m : ModuleState) (nearest : Option Timespec) (p : ℕ) : Option Timespec :=
  match m.heap p with
  | none => nearest
  | some f =>
    if f.waitingTimer && m.lockedBy.all (· == p) then
      match nearest with
      | none => some f.deadline
      | some d => if tsLt f.deadline d then some f.deadline else some d
    else nearest

/-- The nearest deadline, which the loop waits for when nothing has arrived. -/
def ModuleState.nearest (m : ModuleState) : Option Timespec := m.fibers.foldl m.nearer none

/-- The fiber may go on. -/
def ModuleState.IsDueAt (m : ModuleState) (now : Timespec) (p : ℕ) : Prop :=
  ∃ f, m.heap p = some f ∧ m.isDue now p f = true

theorem nearer_due {now : Timespec} (d : Option Timespec) :
    (∃ d', m.nearer d p = some d' ∧ nanos d' ≤ nanos now) ↔
      (∃ d', d = some d' ∧ nanos d' ≤ nanos now) ∨ m.IsDueAt now p := by
  unfold ModuleState.nearer
  cases hp : m.heap p with
  | none => simp [ModuleState.IsDueAt, hp]
  | some f =>
    have hdue : m.IsDueAt now p ↔ (f.waitingTimer && m.lockedBy.all (· == p)) = true ∧
        nanos f.deadline ≤ nanos now := by
      simp only [ModuleState.IsDueAt, hp, ModuleState.isDue, Option.some.injEq, exists_eq_left',
        Bool.and_eq_true, Bool.not_eq_true', tsLt_eq_false_iff, and_assoc]
      exact and_congr_right fun _ => and_comm
    rw [hdue]
    simp only
    split_ifs with hwakes
    · cases d with
      | none => simp [hwakes]
      | some d =>
        simp only [Option.some.injEq, exists_eq_left', hwakes, true_and]
        split_ifs with hlt
        · rw [tsLt_iff] at hlt
          simp only [Option.some.injEq, exists_eq_left']
          omega
        · rw [Bool.not_eq_true, tsLt_eq_false_iff] at hlt
          simp only [Option.some.injEq, exists_eq_left']
          omega
    · rw [iff_self_or]
      exact fun h => absurd h.1 hwakes

/-- **The loop waits until some fiber may go on**, and no longer. -/
theorem nearest_due (m : ModuleState) (now : Timespec) :
    (∃ d, m.nearest = some d ∧ nanos d ≤ nanos now) ↔ ∃ p ∈ m.fibers, m.IsDueAt now p := by
  have hfold : ∀ (l : List ℕ) (d : Option Timespec),
      (∃ d', l.foldl m.nearer d = some d' ∧ nanos d' ≤ nanos now) ↔
        (∃ d', d = some d' ∧ nanos d' ≤ nanos now) ∨ ∃ p ∈ l, m.IsDueAt now p := by
    intro l
    induction l with
    | nil => simp
    | cons p l ih =>
      intro d
      rw [List.foldl_cons, ih, nearer_due, or_assoc, List.exists_mem_cons_iff]
  rw [ModuleState.nearest, hfold]
  simp

end Coseq

end AutoRec
