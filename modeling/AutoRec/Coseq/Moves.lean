import AutoRec.Coseq.Module

/-!
# What a step of a module does

* `fiberOf`: the sequence that an event starts.
* `Move`, `move_of_step`: the steps, with what is known when one is taken and the state behind it.
-/

namespace AutoRec

namespace Coseq

variable {m t : ModuleState} {op : Op} {p : ℕ} {f : Fiber} {e : Event}

namespace ModuleState

theorem running_eq_some : m.running = some (p, f) ↔ m.current = some p ∧ m.heap p = some f := by
  unfold running
  cases m.current with
  | none => simp
  | some q =>
    simp only [Option.bind_some, Option.map_eq_some_iff, Prod.mk.injEq, Option.some.injEq]
    constructor
    · rintro ⟨g, hg, rfl, rfl⟩
      exact ⟨rfl, hg⟩
    · rintro ⟨rfl, hg⟩
      exact ⟨f, hg, rfl, rfl⟩

end ModuleState

/-- The fiber that an event starts. -/
def ModuleState.fiberOf (m : ModuleState) (e : Event) : Option Fiber :=
  match e with
  | .start seqIdx reqId requester msg =>
    if m.nrSeq ≤ seqIdx.toNat then none
    else some (.init e seqIdx requester reqId msg .ignore (threadIdxOf requester) 0)
  | .notify requester _ clientId msg =>
    if m.recvNotify then some (.init e 0 none 0 msg .success (threadIdxOf requester) clientId)
    else none
  | .reply .. => none

/-- The next event, when the loop handles one. -/
structure Next (m : ModuleState) (x : Letter Event) (rest : List (Letter Event)) : Prop where
  current : m.current = none
  phase : m.phase = .events
  batch : m.box.batch = x :: rest

/-- A reply that is handled, and the fiber that has asked. -/
structure Replied (m : ModuleState) (x : Letter Event) (reqId : UInt32) (requester : ℕ)
    (result : CoseqResult) (msg : List UInt8) (p : ℕ) : Prop where
  event : x.body = .reply reqId requester result msg
  peek : m.pendingPeek reqId = some p
  holder : ∀ q, m.lockedBy = some q → p = q

/-- The fiber that the loop over the fibers has come to. -/
structure Visited (m : ModuleState) (now : Timespec) (p : ℕ) (left : List ℕ) : Prop where
  current : m.current = none
  phase : m.phase = .timers now (p :: left)

/-- **What a step does.** -/
inductive Move (m : ModuleState) : Op → ModuleState → Prop
  | arrive (e : Event) : Move m (.arrive e) { m with box := m.box.post e }
  | take (now : Timespec) (hcurrent : m.current = none) (hphase : m.phase = .top) :
    Move m (.take now) (m.take now)
  | visited (now : Timespec) (hcurrent : m.current = none) (hphase : m.phase = .timers now []) :
    Move m .timer { m with phase := .events }
  | dangling (now : Timespec) (p : ℕ) (left : List ℕ) (h : Visited m now p left)
    (hp : m.heap p = none) : Move m .timer { m with phase := .timers now left, fault := true }
  | skip (now : Timespec) (p : ℕ) (left : List ℕ) (f : Fiber) (h : Visited m now p left)
    (hp : m.heap p = some f) (hdue : m.isDue now p f = false) :
    Move m .timer { m with phase := .timers now left }
  | timeout (now : Timespec) (p : ℕ) (left : List ℕ) (f : Fiber) (h : Visited m now p left)
    (hp : m.heap p = some f) (hdue : m.isDue now p f = true) (hreply : f.waitingReply = true) :
    Move m .timer <|
      { m.pendingTake f.waitReqId with
        phase := .timers now left
        timedOut := m.timedOut ++ [(p, f.waitReqId)] }.resume p
          { f with src := f.src.set [] .requestTimeout 0 f.seqIdx 0 f.waitReqId }
  | wake (now : Timespec) (p : ℕ) (left : List ℕ) (f : Fiber) (h : Visited m now p left)
    (hp : m.heap p = some f) (hdue : m.isDue now p f = true) (hreply : f.waitingReply = false) :
    Move m .timer ({ m with phase := .timers now left }.resume p f)
  | defer (x : Letter Event) (rest : List (Letter Event)) (h : Next m x rest)
    (hdefer : m.defers x.body = true) : Move m .handle { m with box := m.box.deferNext }
  | ignore (x : Letter Event) (rest : List (Letter Event)) (h : Next m x rest)
    (hnone : m.fiberOf x.body = none)
    (hreply : ∀ reqId i r msg, x.body = .reply reqId i r msg → m.pendingPeek reqId = none)
    (hdefer : m.defers x.body = false) : Move m .handle { m with box := m.box.handleNext }
  | start (x : Letter Event) (rest : List (Letter Event)) (f : Fiber) (h : Next m x rest)
    (hf : m.fiberOf x.body = some f) (hlock : m.lockedBy = none ∨ x.body.isNotify = true) :
    Move m .handle ({ m with box := m.box.handleNext }.newFiber x.body f)
  | lost (x : Letter Event) (rest : List (Letter Event)) (h : Next m x rest) (reqId : UInt32)
    (i : ℕ) (r : CoseqResult) (msg : List UInt8) (p : ℕ) (hr : Replied m x reqId i r msg p)
    (hp : m.heap p = none) : Move m .handle { m with box := m.box.handleNext, fault := true }
  | answer (x : Letter Event) (rest : List (Letter Event)) (h : Next m x rest) (reqId : UInt32)
    (i : ℕ) (r : CoseqResult) (msg : List UInt8) (p : ℕ) (f : Fiber)
    (hr : Replied m x reqId i r msg p) (hp : m.heap p = some f)
    (hwait : (f.waitingReply = true ∧ f.waitReqId = reqId) ∨ f.waitingAny = true) :
    Move m .handle <|
      ({ m with box := m.box.handleNext }.pendingTake reqId).resumeWith p
        { f with src := f.src.set msg r (threadIdxOf i) f.seqIdx 0 reqId }
  | queue (x : Letter Event) (rest : List (Letter Event)) (h : Next m x rest) (reqId : UInt32)
    (i : ℕ) (r : CoseqResult) (msg : List UInt8) (p : ℕ) (f : Fiber)
    (hr : Replied m x reqId i r msg p) (hp : m.heap p = some f) (hany : f.waitingAny = false)
    (hwait : f.waitingReply = true → f.waitReqId ≠ reqId) :
    Move m .handle <|
      ({ m with box := m.box.handleNext }.pendingTake reqId).setFiber p
        { f with rq := f.rq ++ [ReplyRec.mk reqId r msg] }
  | reap (hcurrent : m.current = none) (hphase : m.phase = .events) (hbatch : m.box.batch = []) :
    Move m .reap m.reapDone
  | call (p : ℕ) (f : Fiber) (c : Call) (hcurrent : m.current = some p) (hp : m.heap p = some f) :
    Move m (.call c) (m.call p f c)

namespace ModuleState

theorem dispatch_of_fiberOf (hf : m.fiberOf e = some f) : m.dispatch e = m.newFiber e f := by
  cases e with
  | start seqIdx reqId requester msg =>
    simp only [fiberOf, Option.ite_none_left_eq_some, Option.some.injEq] at hf
    simp only [dispatch, if_neg hf.1, hf.2]
  | reply reqId i r msg => cases hf
  | notify i category clientId msg =>
    simp only [fiberOf, Option.ite_none_right_eq_some, Option.some.injEq] at hf
    simp only [dispatch, if_pos hf.1, hf.2]

theorem move_handle (hcurrent : m.current = none) (hphase : m.phase = .events)
    (ht : m.handle = some t) : Move m .handle t := by
  unfold handle at ht
  split at ht
  · cases ht
  rename_i x rest hbatch
  have hnext : Next m x rest := ⟨hcurrent, hphase, hbatch⟩
  split_ifs at ht with hdefer
  · cases ht
    exact .defer x rest hnext hdefer
  have hhandled : m.defers x.body = false := by simpa using hdefer
  cases ht
  cases hf : m.fiberOf x.body with
  | some f =>
    have hf' : { m with box := m.box.handleNext }.fiberOf x.body = some f := hf
    rw [dispatch_of_fiberOf hf']
    refine .start x rest f hnext hf ?_
    cases hbody : x.body with
    | start seqIdx reqId requester msg =>
      left
      simpa [defers, isForHolder, Event.isNotify, hbody] using hdefer
    | reply reqId i r msg =>
      rw [hbody] at hf
      cases hf
    | notify i category clientId msg => exact .inr rfl
  | none =>
    cases hbody : x.body with
    | start seqIdx reqId requester msg =>
      rw [hbody] at hf
      have hinvalid : m.nrSeq ≤ seqIdx.toNat := by
        by_contra hvalid
        simp [fiberOf, hvalid] at hf
      simp only [dispatch, if_pos hinvalid]
      refine .ignore x rest hnext (by rw [hbody, hf]) (fun reqId i r msg h => ?_) hhandled
      rw [hbody] at h
      cases h
    | notify i category clientId msg =>
      rw [hbody] at hf
      have hnot : ¬ m.recvNotify = true := by
        intro hrecv
        simp [fiberOf, hrecv] at hf
      simp only [dispatch, if_neg hnot]
      refine .ignore x rest hnext (by rw [hbody, hf]) (fun reqId i r msg h => ?_) hhandled
      rw [hbody] at h
      cases h
    | reply reqId i r msg =>
      show Move m .handle ({ m with box := m.box.handleNext }.handleReply reqId i r msg)
      have hpeek : { m with box := m.box.handleNext }.pendingPeek reqId = m.pendingPeek reqId := rfl
      unfold handleReply
      rw [hpeek]
      split
      · rename_i hnone
        refine .ignore x rest hnext hf (fun reqId' i' r' msg' h => ?_) hhandled
        rw [hbody] at h
        cases h
        exact hnone
      · rename_i p hp
        have hreplied : Replied m x reqId i r msg p := by
          refine ⟨hbody, hp, fun q hq => ?_⟩
          simpa [defers, hbody, Event.isNotify, isForHolder, hq, hp] using hdefer
        split
        · rename_i hfree
          exact .lost x rest hnext reqId i r msg p hreplied hfree
        · rename_i f hf
          split_ifs with hwait
          · refine .answer x rest hnext reqId i r msg p f hreplied hf ?_
            simpa using hwait
          · have hwait' := hwait
            simp only [Bool.or_eq_true, Bool.and_eq_true, beq_iff_eq, not_or, not_and,
              Bool.not_eq_true] at hwait'
            exact .queue x rest hnext reqId i r msg p f hreplied hf hwait'.2 hwait'.1

theorem move_timer (hcurrent : m.current = none) (ht : m.timer = some t) : Move m .timer t := by
  unfold timer at ht
  split at ht
  · rename_i now hphase
    cases ht
    exact .visited now hcurrent hphase
  · rename_i now p left hphase
    have hvisited : Visited m now p left := ⟨hcurrent, hphase⟩
    cases ht
    unfold timerOne
    split
    · rename_i hfree
      exact .dangling now p left hvisited hfree
    · rename_i f hf
      have hf : m.heap p = some f := hf
      split_ifs with hdue hreply
      · exact .timeout now p left f hvisited hf hdue hreply
      · exact .wake now p left f hvisited hf hdue (by simpa using hreply)
      · have hdue : ¬ m.isDue now p f = true := hdue
        exact .skip now p left f hvisited hf (by simpa using hdue)
  · cases ht

/-- **What a step does.** -/
theorem move_of_step (ht : m.step op = some t) : Move m op t := by
  cases op with
  | arrive e =>
    cases ht
    exact .arrive e
  | take now =>
    simp only [step] at ht
    split at ht
    · rename_i hcurrent hphase
      cases ht
      exact .take now hcurrent hphase
    · cases ht
  | timer =>
    simp only [step, Option.ite_none_right_eq_some] at ht
    exact move_timer ht.1 ht.2
  | handle =>
    simp only [step] at ht
    split at ht
    · rename_i hcurrent hphase
      exact move_handle hcurrent hphase ht
    · cases ht
  | reap =>
    simp only [step] at ht
    split at ht
    · rename_i hcurrent hphase
      simp only [Option.ite_none_right_eq_some, List.isEmpty_iff, Option.some.injEq] at ht
      exact ht.2 ▸ .reap hcurrent hphase ht.1
    · cases ht
  | call c =>
    simp only [step, Option.map_eq_some_iff] at ht
    obtain ⟨⟨p, f⟩, hrun, rfl⟩ := ht
    obtain ⟨hcurrent, hp⟩ := running_eq_some.mp hrun
    exact .call p f c hcurrent hp

end ModuleState

theorem call_loop (p : ℕ) (f : Fiber) (c : Call) :
    (m.call p f c).phase = m.phase ∧ (m.call p f c).box = m.box := by
  cases c with
  | waitReply =>
    simp only [ModuleState.call, ModuleState.waitReply]
    split_ifs
    · exact ⟨rfl, rfl⟩
    · split <;> exact ⟨rfl, rfl⟩
  | reply result msg =>
    simp only [ModuleState.call, ModuleState.reply]
    split <;> exact ⟨rfl, rfl⟩
  | regNotify category clientId =>
    simp only [ModuleState.call, ModuleState.regNotify]
    split <;> exact ⟨rfl, rfl⟩
  | request | requestAsync | send | waitTimeout | unregNotify | notify | lock | unlock | exit =>
    exact ⟨rfl, rfl⟩

theorem call_sent (p : ℕ) (f : Fiber) (c : Call) :
    ((m.call p f c).idx = m.idx ∧ (m.call p f c).recvNotify = m.recvNotify) ∧
      m.sent <+: (m.call p f c).sent := by
  cases c with
  | waitReply =>
    simp only [ModuleState.call, ModuleState.waitReply]
    split_ifs
    · exact ⟨⟨rfl, rfl⟩, List.prefix_rfl⟩
    · split <;> exact ⟨⟨rfl, rfl⟩, List.prefix_rfl⟩
  | reply result msg =>
    simp only [ModuleState.call, ModuleState.reply]
    split
    · exact ⟨⟨rfl, rfl⟩, List.prefix_rfl⟩
    · exact ⟨⟨rfl, rfl⟩, List.prefix_append _ _⟩
  | regNotify category clientId =>
    simp only [ModuleState.call, ModuleState.regNotify]
    split <;> exact ⟨⟨rfl, rfl⟩, List.prefix_rfl⟩
  | request | requestAsync | send | notify => exact ⟨⟨rfl, rfl⟩, List.prefix_append _ _⟩
  | waitTimeout | unregNotify | lock | unlock | exit => exact ⟨⟨rfl, rfl⟩, List.prefix_rfl⟩

theorem sent_of_move (ht : Move m op t) :
    (t.idx = m.idx ∧ t.recvNotify = m.recvNotify) ∧ m.sent <+: t.sent := by
  cases ht with
  | call p f c hcurrent hp => exact call_sent p f c
  | _ => exact ⟨⟨rfl, rfl⟩, List.prefix_rfl⟩

theorem call_started (p : ℕ) (f : Fiber) (c : Call) : (m.call p f c).started = m.started := by
  cases c with
  | waitReply =>
    simp only [ModuleState.call, ModuleState.waitReply]
    split_ifs
    · rfl
    · split <;> rfl
  | reply result msg =>
    simp only [ModuleState.call, ModuleState.reply]
    split <;> rfl
  | regNotify category clientId =>
    simp only [ModuleState.call, ModuleState.regNotify]
    split <;> rfl
  | request | requestAsync | send | waitTimeout | unregNotify | notify | lock | unlock | exit => rfl

theorem started_of_move (ht : Move m op t) : m.started ⊆ t.started := by
  cases ht with
  | start x rest f hn hf hlock => exact List.subset_append_left _ _
  | call p f c hcurrent hp => rw [call_started]; exact List.Subset.refl _
  | _ => exact List.Subset.refl _

end Coseq

end AutoRec
