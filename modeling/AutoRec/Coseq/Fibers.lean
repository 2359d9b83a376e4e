import AutoRec.Coseq.Moves

/-!
# The fibers of a module

* `Shape`, `shape_of_reach`: what the loop keeps of its fibers.
-/

namespace AutoRec

namespace Coseq

open Machine

/-- The fiber waits for nothing, and is not done. -/
structure Fiber.Runs (f : Fiber) : Prop where
  waitingReply : f.waitingReply = false
  waitingTimer : f.waitingTimer = false
  waitingAny : f.waitingAny = false
  done : f.done = false

/-- The flags of a fiber fit together. -/
structure Fiber.Fits (f : Fiber) : Prop where
  waitingAny : f.waitingAny = true → f.waitingReply = false ∧ f.waitingTimer = false ∧ f.rq = []
  done : f.done = true → f.waitingReply = false ∧ f.waitingTimer = false ∧ f.waitingAny = false

/-- **What the loop keeps of its fibers.** -/
structure Shape (m : ModuleState) : Prop where
  alive : ∀ p, p ∈ m.fibers ↔ (m.heap p).isSome
  lt : ∀ p ∈ m.fibers, p < m.nextFiber
  running : ∀ p, m.current = some p → ∃ f, m.heap p = some f ∧ f.Runs
  fits : ∀ p f, m.heap p = some f → f.Fits
  left : ∀ now l, m.phase = .timers now l → ∀ p ∈ l, p ∈ m.fibers
  lockedBy : ∀ p, m.lockedBy = some p → p ∈ m.fibers

variable {m t : ModuleState} {p : ℕ} {f : Fiber} {e : Event} {c : Call} {op : Op}

theorem Fiber.Runs.fits (hf : f.Runs) : f.Fits :=
  ⟨fun h => by simp [hf.waitingAny] at h, fun h => by simp [hf.done] at h⟩

theorem Fiber.runs_resumed (hf : f.done = false) : f.resumed.Runs := ⟨rfl, rfl, rfl, hf⟩

theorem Fiber.runs_init {seqIdx : UInt8} {replyTo : Option ℕ} {reqId : UInt32} {msg : List UInt8}
    {r : CoseqResult} {i j : UInt8} : (Fiber.init e seqIdx replyTo reqId msg r i j).Runs :=
  ⟨rfl, rfl, rfl, rfl⟩

theorem exists_of_fiberOf (hf : m.fiberOf e = some f) :
    ∃ seqIdx replyTo reqId msg r i j, f = .init e seqIdx replyTo reqId msg r i j := by
  cases e with
  | start seqIdx reqId requester msg =>
    simp only [ModuleState.fiberOf, Option.ite_none_left_eq_some, Option.some.injEq] at hf
    exact ⟨_, _, _, _, _, _, _, hf.2.symm⟩
  | reply reqId i r msg => cases hf
  | notify i category clientId msg =>
    simp only [ModuleState.fiberOf, Option.ite_none_right_eq_some, Option.some.injEq] at hf
    exact ⟨_, _, _, _, _, _, _, hf.2.symm⟩

theorem runs_of_fiberOf (hf : m.fiberOf e = some f) : f.Runs := by
  obtain ⟨_, _, _, _, _, _, _, rfl⟩ := exists_of_fiberOf hf
  exact Fiber.runs_init

theorem Fiber.Fits.done_of_waitingReply (hf : f.Fits) (h : f.waitingReply = true) :
    f.done = false := by
  by_contra hd
  simp [(hf.done (by simpa using hd)).1] at h

theorem Fiber.Fits.done_of_waitingAny (hf : f.Fits) (h : f.waitingAny = true) : f.done = false := by
  by_contra hd
  simp [(hf.done (by simpa using hd)).2.2] at h

theorem Fiber.Fits.done_of_isDue {now : Timespec} (hf : f.Fits) (h : m.isDue now p f = true) :
    f.done = false := by
  by_contra hd
  simp [ModuleState.isDue, (hf.done (by simpa using hd)).2.1] at h

/-- A fiber goes on only when it has the lock, if anyone has. -/
theorem eq_of_isDue {now : Timespec} {q : ℕ} (h : m.isDue now p f = true) (hq : m.lockedBy = some q) :
    p = q := by
  simp only [ModuleState.isDue, hq, Option.all_some, Bool.and_eq_true, beq_iff_eq] at h
  exact h.2.symm

/-! ## The parts of a step -/

theorem shape_initial (idx nrSeq : ℕ) (recvNotify : Bool) : Shape (.initial idx nrSeq recvNotify) :=
  ⟨by simp [ModuleState.initial], by simp [ModuleState.initial], by simp [ModuleState.initial],
    by simp [ModuleState.initial], by simp [ModuleState.initial], by simp [ModuleState.initial]⟩

namespace Shape

theorem of_eq (h : Shape m) (hheap : t.heap = m.heap) (hfibers : t.fibers = m.fibers)
    (hnext : t.nextFiber = m.nextFiber) (hcurrent : t.current = m.current)
    (hphase : t.phase = m.phase) (hlock : t.lockedBy = m.lockedBy) : Shape t := by
  refine ⟨?_, ?_, ?_, ?_, ?_, ?_⟩
  · rw [hfibers, hheap]
    exact h.alive
  · rw [hfibers, hnext]
    exact h.lt
  · rw [hcurrent, hheap]
    exact h.running
  · rw [hheap]
    exact h.fits
  · rw [hphase, hfibers]
    exact h.left
  · rw [hlock, hfibers]
    exact h.lockedBy

theorem mem (h : Shape m) (hp : m.heap p = some f) : p ∈ m.fibers :=
  (h.alive p).mpr (by rw [hp]; rfl)

theorem setFiber (h : Shape m) (hp : p ∈ m.fibers) (hf : f.Fits)
    (hcurrent : m.current = some p → f.Runs) : Shape (m.setFiber p f) := by
  refine ⟨fun q => ?_, h.lt, fun q hq => ?_, fun q g hg => ?_, h.left, h.lockedBy⟩
  · rw [ModuleState.setFiber_heap, ModuleState.setFiber_fibers, Function.update_apply]
    split_ifs with heq
    · simpa [heq] using hp
    · exact h.alive q
  · rw [ModuleState.setFiber_heap, Function.update_apply]
    split_ifs with heq
    · exact ⟨f, rfl, hcurrent (heq ▸ hq)⟩
    · exact h.running q hq
  · rw [ModuleState.setFiber_heap, Function.update_apply] at hg
    split_ifs at hg with heq
    · cases hg
      exact hf
    · exact h.fits q g hg

theorem resume (h : Shape m) (hp : p ∈ m.fibers) (hf : f.done = false) : Shape (m.resume p f) := by
  have hruns := Fiber.runs_resumed hf
  have hset := h.setFiber hp hruns.fits fun _ => hruns
  refine ⟨hset.alive, hset.lt, fun q hq => ?_, hset.fits, hset.left, hset.lockedBy⟩
  cases hq
  exact ⟨f.resumed, by simp, hruns⟩

theorem stop (h : Shape m) (hp : p ∈ m.fibers) (hf : f.Fits) :
    Shape { m.setFiber p f with current := none } := by
  have hnone : Shape { m with current := none } :=
    ⟨h.alive, h.lt, fun _ hq => by simp at hq, h.fits, h.left, h.lockedBy⟩
  exact (hnone.setFiber (p := p) (f := f) hp hf fun hq => by simp at hq).of_eq rfl rfl rfl rfl rfl rfl

theorem newFiber (h : Shape m) (hf : f.Runs) : Shape (m.newFiber e f) := by
  have hresumed := Fiber.runs_resumed hf.done
  refine ⟨fun q => ?_, fun q hq => ?_, fun q hq => ?_, fun q g hg => ?_, fun now l hl q hq => ?_,
    fun q hq => ?_⟩
  · rw [ModuleState.newFiber_heap, ModuleState.newFiber_fibers, ModuleState.resume_heap,
      ModuleState.setFiber_heap, Function.update_apply, List.mem_cons]
    split_ifs with heq
    · simp [heq]
    · rw [or_iff_right heq]
      exact h.alive q
  · rcases List.mem_cons.mp hq with rfl | hq
    · exact Nat.lt_succ_self _
    · exact Nat.lt_succ_of_lt (h.lt q hq)
  · cases hq
    exact ⟨f.resumed, by simp, hresumed⟩
  · rw [ModuleState.newFiber_heap, ModuleState.resume_heap, ModuleState.setFiber_heap,
      Function.update_apply] at hg
    split_ifs at hg
    · cases hg
      exact hresumed.fits
    · exact h.fits q g hg
  · exact List.mem_cons_of_mem _ (h.left now l hl q hq)
  · exact List.mem_cons_of_mem _ (h.lockedBy q hq)

/-! ## The steps -/

theorem visit {now : Timespec} {left : List ℕ} (h : Shape m) (hv : Visited m now p left) :
    Shape { m with phase := .timers now left } := by
  refine ⟨h.alive, h.lt, h.running, h.fits, fun now' l hl q hq => ?_, h.lockedBy⟩
  cases hl
  exact h.left _ _ hv.phase q (List.mem_cons_of_mem _ hq)

theorem reapDone (h : Shape m) (hcurrent : m.current = none) : Shape m.reapDone := by
  refine ⟨fun q => ?_, fun q hq => h.lt q (List.mem_of_mem_filter hq), fun q hq => ?_,
    fun q g hg => ?_, by simp, fun q hq => ?_⟩
  · rw [ModuleState.reapDone_fibers, ModuleState.reapDone_heap, List.mem_filter, h.alive]
    cases m.isDone q <;> simp
  · rw [ModuleState.reapDone_current, hcurrent] at hq
    cases hq
  · rw [ModuleState.reapDone_heap] at hg
    split_ifs at hg
    exact h.fits q g hg
  · rw [ModuleState.reapDone_lockedBy, Option.filter_eq_some_iff] at hq
    rw [ModuleState.reapDone_fibers, List.mem_filter]
    exact ⟨h.lockedBy q hq.1, hq.2⟩

theorem call (h : Shape m) (hp : m.heap p = some f)
    (hf : f.Runs) (c : Call) : Shape (m.call p f c) := by
  have hmem := h.mem hp
  cases c with
  | request dest seqIdx msg timeout =>
    have hpost : Shape ((m.pendingAdd m.nextReqId p).postStart p dest seqIdx msg) :=
      h.of_eq rfl rfl rfl rfl rfl rfl
    refine hpost.stop hmem ⟨fun ha => ?_, fun hd => ?_⟩
    · cases timeout <;> simp [hf.waitingAny] at ha
    · cases timeout <;> simp [hf.done] at hd
  | requestAsync dest seqIdx msg =>
    have hpost : Shape ((m.pendingAdd m.nextReqId p).postStart p dest seqIdx msg) :=
      h.of_eq rfl rfl rfl rfl rfl rfl
    have hruns : ({ f with asyncOutstanding := f.asyncOutstanding + 1 } : Fiber).Runs :=
      ⟨hf.waitingReply, hf.waitingTimer, hf.waitingAny, hf.done⟩
    exact hpost.setFiber hmem hruns.fits fun _ => hruns
  | waitReply =>
    show Shape (m.waitReply p f)
    unfold ModuleState.waitReply
    split_ifs
    · exact h
    · split
      · rename_i hrq
        refine h.stop hmem ⟨fun _ => ⟨hf.waitingReply, hf.waitingTimer, hrq⟩, fun hd => ?_⟩
        simp [hf.done] at hd
      · rename_i rr rq hrq
        have hruns : (f.dequeued rr rq).Runs :=
          ⟨hf.waitingReply, hf.waitingTimer, hf.waitingAny, hf.done⟩
        exact (h.setFiber hmem hruns.fits fun _ => hruns).of_eq rfl rfl rfl rfl rfl rfl
  | send dest seqIdx msg => exact h.of_eq rfl rfl rfl rfl rfl rfl
  | reply result msg =>
    show Shape (m.reply p f result msg)
    unfold ModuleState.reply
    split
    · exact h
    · exact h.of_eq rfl rfl rfl rfl rfl rfl
  | waitTimeout now msec =>
    refine h.stop hmem ⟨fun ha => ?_, fun hd => ?_⟩
    · simp [hf.waitingAny] at ha
    · simp [hf.done] at hd
  | regNotify category clientId =>
    show Shape (m.regNotify p f category clientId)
    unfold ModuleState.regNotify
    split
    · exact h
    · exact h.of_eq rfl rfl rfl rfl rfl rfl
  | unregNotify category clientId => exact h.of_eq rfl rfl rfl rfl rfl rfl
  | notify category msg => exact h.of_eq rfl rfl rfl rfl rfl rfl
  | lock =>
    refine ⟨h.alive, h.lt, h.running, h.fits, h.left, fun q hq => ?_⟩
    cases hq
    exact hmem
  | unlock =>
    refine ⟨h.alive, h.lt, h.running, h.fits, h.left, fun q hq => ?_⟩
    simp only [ModuleState.call, ModuleState.unlock] at hq
    split_ifs at hq
    exact h.lockedBy q hq
  | exit =>
    exact h.stop hmem ⟨fun ha => by simp [hf.waitingAny] at ha,
      fun _ => ⟨hf.waitingReply, hf.waitingTimer, hf.waitingAny⟩⟩

theorem move (h : Shape m) (ht : Move m op t) : Shape t := by
  cases ht with
  | arrive e => exact h.of_eq rfl rfl rfl rfl rfl rfl
  | take now hcurrent hphase =>
    refine ⟨h.alive, h.lt, h.running, h.fits, fun now' l hl q hq => ?_, h.lockedBy⟩
    cases hl
    exact hq
  | visited now hcurrent hphase =>
    exact ⟨h.alive, h.lt, h.running, h.fits, by simp, h.lockedBy⟩
  | dangling now p left hv hp =>
    exact (h.visit hv).of_eq rfl rfl rfl rfl rfl rfl
  | skip now p left f hv hp hdue => exact h.visit hv
  | timeout now p left f hv hp hdue hreply =>
    refine Shape.resume ?_ (h.mem hp) ((h.fits p f hp).done_of_waitingReply hreply)
    exact (h.visit hv).of_eq rfl rfl rfl rfl rfl rfl
  | wake now p left f hv hp hdue hreply =>
    exact (h.visit hv).resume (h.mem hp) ((h.fits p f hp).done_of_isDue hdue)
  | defer x rest hn hdefer => exact h.of_eq rfl rfl rfl rfl rfl rfl
  | ignore x rest hn hnone hreply hdefer => exact h.of_eq rfl rfl rfl rfl rfl rfl
  | start x rest f hn hf hlock =>
    refine Shape.newFiber ?_ (runs_of_fiberOf hf)
    exact h.of_eq rfl rfl rfl rfl rfl rfl
  | lost x rest hn reqId i r msg p hr hp => exact h.of_eq rfl rfl rfl rfl rfl rfl
  | answer x rest hn reqId i r msg p f hr hp hwait =>
    have hdone : f.done = false := by
      rcases hwait with hreply | hany
      · exact (h.fits p f hp).done_of_waitingReply hreply.1
      · exact (h.fits p f hp).done_of_waitingAny hany
    have hresume : Shape ((({ m with box := m.box.handleNext } : ModuleState).pendingTake reqId).resume p
        { f with src := f.src.set msg r (threadIdxOf i) f.seqIdx 0 reqId }) := by
      refine Shape.resume ?_ (h.mem hp) hdone
      exact h.of_eq rfl rfl rfl rfl rfl rfl
    exact hresume.of_eq rfl rfl rfl rfl rfl rfl
  | queue x rest hn reqId i r msg p f hr hp hany hwait =>
    refine Shape.setFiber ?_ (h.mem hp) ⟨fun ha => ?_, (h.fits p f hp).done⟩ fun hq => ?_
    · exact h.of_eq rfl rfl rfl rfl rfl rfl
    · simp [hany] at ha
    · have hq : m.current = some p := hq
      simp [hn.current] at hq
  | reap hcurrent hphase hbatch => exact h.reapDone hcurrent
  | call p f c hcurrent hp =>
    obtain ⟨g, hg, hruns⟩ := h.running p hcurrent
    obtain rfl : g = f := by simpa [hp] using hg.symm
    exact h.call hp hruns c

end Shape

/-- **The fibers of every state reached.** -/
theorem shape_of_reach {ok : ModuleState → Op → Prop} {idx nrSeq : ℕ} {recvNotify : Bool}
    (h : Reach ModuleState.step ok (.initial idx nrSeq recvNotify) m) : Shape m :=
  h.inv Shape (shape_initial ..) fun _ _ _ hs _ ht => hs.move (ModuleState.move_of_step ht)

end Coseq

end AutoRec
