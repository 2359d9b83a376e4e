import AutoRec.Coseq.Requests

/-!
# Collecting replies

A sequence that has asked without waiting collects the replies later, by `coseq_wait_reply` or
`coseq_gather`, until `NULL` says that there are no more. A sequence that ends before leaves its
number in the list of those that await a reply, where a reply would find a fiber that has been freed.

* `Collects`: a sequence ends only when it has collected its replies.
* **`collected`**: `NULL` comes exactly when each reply has been given to the sequence, and a sequence
  is given replies to its own requests only, each once.
* **`no_use_after_free`**: then no fiber is used that has been freed; `use_after_free_without`: else
  one can be.
-/

namespace AutoRec

namespace Coseq

open Machine

/-- A sequence ends only when it has collected its replies. -/
def Collects (m : ModuleState) : Op → Prop
  | .call .exit => m.running.all (fun r => r.2.nothingToWait) = true
  | _ => True

instance (m : ModuleState) (op : Op) : Decidable (Collects m op) := by
  unfold Collects
  split <;> infer_instance

variable {m t : ModuleState} {p : ℕ} {f : Fiber} {op : Op} {idx nrSeq : ℕ} {recvNotify : Bool}

/-- What is left for a running fiber to wait for. -/
theorem Accounts.nothingToWait_iff (h : Accounts m) (hp : m.heap p = some f) (hf : f.Runs) :
    f.nothingToWait = true ↔ m.awaited p = [] ∧ f.rq = [] := by
  have hout := h.outstanding p f hp
  rw [hf.waitingReply, if_neg Bool.false_ne_true, Int.add_zero] at hout
  rw [Fiber.nothingToWait, Bool.and_eq_true, beq_iff_eq, List.isEmpty_iff, hout]
  constructor
  · rintro ⟨hlen, hrq⟩
    rw [hrq, List.length_nil] at hlen
    exact ⟨List.length_eq_zero_iff.mp (by omega), hrq⟩
  · rintro ⟨hnone, hrq⟩
    rw [hnone, hrq]
    exact ⟨rfl, rfl⟩

/-- A fiber of which nothing is awaited or queued has been answered all its requests. -/
theorem Accounts.answered_iff (h : Accounts m) (hp : m.heap p = some f) (hmem : p ∈ m.fibers) :
    m.awaited p = [] ∧ f.rq = [] ↔
      ∀ reqId ∈ m.askedBy p, reqId ∈ m.answered p ∨ reqId ∈ m.expired p := by
  have htally : ∀ reqId, (m.awaited p).count reqId + (f.rq.map ReplyRec.reqId).count reqId +
      (m.answered p).count reqId + (m.expired p).count reqId = (m.askedBy p).count reqId := by
    intro reqId
    rw [← ModuleState.queued_of_heap hp]
    exact h.eq p hmem reqId
  constructor
  · rintro ⟨hnone, hrq⟩ reqId hasked
    have heq := htally reqId
    have hpos := List.count_pos_iff.mpr hasked
    rw [hnone, hrq, List.map_nil, List.count_nil] at heq
    by_contra hnot
    rw [not_or, ← List.count_eq_zero, ← List.count_eq_zero] at hnot
    omega
  · intro hall
    -- a request that is awaited or queued is not answered as well
    have hplace : ∀ reqId, (m.awaited p).count reqId + (f.rq.map ReplyRec.reqId).count reqId = 0 := by
      intro reqId
      by_contra hpos
      have heq := htally reqId
      have hone : (m.askedBy p).count reqId ≤ 1 := h.count_askedBy
      have hasked : reqId ∈ m.askedBy p := List.count_pos_iff.mp (by omega)
      rcases hall reqId hasked with hmem | hmem
      · have := List.count_pos_iff.mpr hmem
        omega
      · have := List.count_pos_iff.mpr hmem
        omega
    refine ⟨?_, ?_⟩
    · refine List.eq_nil_iff_forall_not_mem.mpr fun reqId hmem => ?_
      have := List.count_pos_iff.mpr hmem
      have := hplace reqId
      omega
    · refine List.eq_nil_iff_forall_not_mem.mpr fun rr hmem => ?_
      have := List.count_pos_iff.mpr (List.mem_map_of_mem (f := ReplyRec.reqId) hmem)
      have := hplace rr.reqId
      omega

/-- **The replies that a sequence collects.** -/
theorem collected (h : Reach ModuleState.step (fun s i => Numbered s i ∧ Collects s i)
      (.initial idx nrSeq recvNotify) m) :
    (∀ p, (m.answered p ++ m.expired p).Nodup ∧ m.answered p ++ m.expired p ⊆ m.askedBy p) ∧
      ∀ p f, m.running = some (p, f) → (f.nothingToWait = true ↔
        ∀ reqId ∈ m.askedBy p, reqId ∈ m.answered p ∨ reqId ∈ m.expired p) := by
  have hacc := accounts_of_reach (fun _ _ ho => ho.1) h
  have hshape := shape_of_reach h
  refine ⟨fun p => ⟨List.nodup_iff_count_le_one.mpr fun reqId => ?_, fun reqId hmem => ?_⟩,
    fun p f hrun => ?_⟩
  · have hle := hacc.le p reqId
    have hone : (m.askedBy p).count reqId ≤ 1 := hacc.count_askedBy
    rw [ModuleState.tally] at hle
    rw [List.count_append]
    omega
  · have hle := hacc.le p reqId
    have hpos := List.count_pos_iff.mpr hmem
    rw [ModuleState.tally] at hle
    rw [List.count_append] at hpos
    exact List.count_pos_iff.mp (by omega)
  · obtain ⟨hcurrent, hp⟩ := ModuleState.running_eq_some.mp hrun
    obtain ⟨g, hg, hruns⟩ := hshape.running p hcurrent
    obtain rfl : g = f := by simpa [hp] using hg.symm
    rw [hacc.nothingToWait_iff hp hruns, hacc.answered_iff hp (hshape.mem hp)]

/-- A sequence asks without waiting, collects the reply, and goes on. -/
def gathering : List Op := [
  .arrive (.start 0 1 none []), .take .zero, .timer, .handle,
  .call (.requestAsync 1 0 [5]), .call .waitReply, .reap, .arrive (.reply 1 1 .success [6]),
  .take .zero, .timer, .timer, .handle]

theorem collected_gathering : ∃ m : ModuleState, m.answered 0 = [1] ∧
    (∀ p, (m.answered p ++ m.expired p).Nodup ∧ m.answered p ++ m.expired p ⊆ m.askedBy p) ∧
      ∀ p f, m.running = some (p, f) → (f.nothingToWait = true ↔
        ∀ reqId ∈ m.askedBy p, reqId ∈ m.answered p ∨ reqId ∈ m.expired p) := by
  have hrun : execOk ModuleState.step (fun s i => Numbered s i ∧ Collects s i) (.initial 0 1 false)
      gathering = true := by decide
  obtain ⟨m, hm⟩ := Option.isSome_iff_exists.mp
    (show (exec ModuleState.step (.initial 0 1 false) gathering).isSome = true by decide)
  have hanswered : ((exec ModuleState.step (.initial 0 1 false) gathering).map fun m =>
      m.answered 0) = some [1] := by decide
  rw [hm, Option.map_some, Option.some.injEq] at hanswered
  exact ⟨m, hanswered, collected (reach_of_execOk hrun hm)⟩

/-! ## Sequences that end -/

/-- No fiber has been used after it was freed, nor will be for the replies that are awaited. -/
structure Safe (m : ModuleState) : Prop where
  fault : m.fault = false
  pending : ∀ q ∈ m.pending, ∃ f, m.heap q.2 = some f ∧ f.done = false

namespace Safe

theorem of_eq (h : Safe m) (hfault : t.fault = m.fault) (hpending : t.pending = m.pending)
    (hheap : t.heap = m.heap) : Safe t := by
  refine ⟨hfault.trans h.fault, ?_⟩
  rw [hpending, hheap]
  exact h.pending

theorem change (h : Safe m) {g : Fiber} (hfault : t.fault = m.fault)
    (hheap : t.heap = Function.update m.heap p (some g)) (hg : g.done = false)
    (hpending : ∀ q ∈ t.pending, q ∈ m.pending ∨ q.2 = p) : Safe t := by
  refine ⟨hfault.trans h.fault, fun q hq => ?_⟩
  rw [hheap, Function.update_apply]
  split_ifs with heq
  · exact ⟨g, rfl, hg⟩
  · exact h.pending q ((hpending q hq).resolve_right heq)

theorem mem_of_take {reqId : UInt32} {q : UInt32 × ℕ} (hq : q ∈ (m.pendingTake reqId).pending) :
    q ∈ m.pending := List.mem_of_mem_eraseP hq

theorem heap_of_peek (h : Safe m) {reqId : UInt32} (hpeek : m.pendingPeek reqId = some p) :
    ∃ f, m.heap p = some f ∧ f.done = false := by
  obtain ⟨x, hx, rfl⟩ := Option.map_eq_some_iff.mp hpeek
  exact h.pending x (List.mem_of_find?_eq_some hx)

theorem reapDone (h : Safe m) : Safe m.reapDone := by
  refine ⟨h.fault, fun q hq => ?_⟩
  obtain ⟨f, hf, hdone⟩ := h.pending q hq
  refine ⟨f, ?_, hdone⟩
  rw [ModuleState.reapDone_heap, if_neg]
  · exact hf
  · rw [ModuleState.isDone, hf, Option.any_some, hdone]
    exact Bool.false_ne_true

theorem call (h : Safe m) (hacc : Accounts m) (hp : m.heap p = some f) (hf : f.Runs) (c : Call)
    (hexit : c = .exit → f.nothingToWait = true) : Safe (m.call p f c) := by
  cases c with
  | request dest seqIdx msg timeout =>
    refine h.change rfl rfl ?_ fun q hq => ?_
    · cases timeout <;> exact hf.done
    · exact (List.mem_cons.mp hq).elim (fun heq => .inr (heq ▸ rfl)) .inl
  | requestAsync dest seqIdx msg =>
    refine h.change rfl rfl hf.done fun q hq => ?_
    exact (List.mem_cons.mp hq).elim (fun heq => .inr (heq ▸ rfl)) .inl
  | waitReply =>
    show Safe (m.waitReply p f)
    unfold ModuleState.waitReply
    split_ifs
    · exact h
    split
    · exact h.change rfl rfl hf.done fun q hq => .inl hq
    · exact h.change rfl rfl hf.done fun q hq => .inl hq
  | send dest seqIdx msg => exact h.of_eq rfl rfl rfl
  | reply result msg =>
    show Safe (m.reply p f result msg)
    unfold ModuleState.reply
    split
    · exact h
    · exact h.of_eq rfl rfl rfl
  | waitTimeout now msec => exact h.change rfl rfl hf.done fun q hq => .inl hq
  | regNotify category clientId =>
    show Safe (m.regNotify p f category clientId)
    unfold ModuleState.regNotify
    split
    · exact h
    · exact h.of_eq rfl rfl rfl
  | unregNotify category clientId => exact h.of_eq rfl rfl rfl
  | notify category msg => exact h.of_eq rfl rfl rfl
  | lock => exact h.of_eq rfl rfl rfl
  | unlock => exact h.of_eq rfl rfl rfl
  | exit =>
    -- a fiber that has collected its replies awaits none
    have hnone := ((hacc.nothingToWait_iff hp hf).mp (hexit rfl)).1
    refine ⟨h.fault, fun q hq => ?_⟩
    have hne : q.2 ≠ p := by
      rintro rfl
      have hmem : q.1 ∈ m.awaited q.2 := ModuleState.mem_awaited.mpr hq
      rw [hnone] at hmem
      cases hmem
    obtain ⟨g, hg, hdone⟩ := h.pending q hq
    refine ⟨g, ?_, hdone⟩
    show (m.setFiber p _).heap q.2 = some g
    rw [ModuleState.setFiber_heap, Function.update_of_ne hne, hg]

theorem move (h : Safe m) (hshape : Shape m) (hacc : Accounts m) (hcollects : Collects m op)
    (ht : Move m op t) : Safe t := by
  cases ht with
  | arrive e => exact h.of_eq rfl rfl rfl
  | take now hcurrent hphase => exact h.of_eq rfl rfl rfl
  | visited now hcurrent hphase => exact h.of_eq rfl rfl rfl
  | dangling now p left hv hp =>
    have hmem := hshape.left _ _ hv.phase p List.mem_cons_self
    rw [hshape.alive, hp] at hmem
    cases hmem
  | skip now p left f hv hp hdue => exact h.of_eq rfl rfl rfl
  | timeout now p left f hv hp hdue hreply =>
    refine h.change rfl rfl ?_ fun q hq => .inl (mem_of_take hq)
    exact (hshape.fits p f hp).done_of_waitingReply hreply
  | wake now p left f hv hp hdue hreply =>
    refine h.change rfl rfl ?_ fun q hq => .inl hq
    exact (hshape.fits p f hp).done_of_isDue hdue
  | defer x rest hn hdefer => exact h.of_eq rfl rfl rfl
  | ignore x rest hn hnone hreply hdefer => exact h.of_eq rfl rfl rfl
  | start x rest f hn hf hlock =>
    refine h.change rfl rfl (runs_of_fiberOf hf).done fun q hq => .inl hq
  | lost x rest hn reqId i r msg p hr hp =>
    obtain ⟨f, hf, -⟩ := h.heap_of_peek hr.peek
    rw [hp] at hf
    cases hf
  | answer x rest hn reqId i r msg p f hr hp hwait =>
    obtain ⟨g, hg, hdone⟩ := h.heap_of_peek hr.peek
    obtain rfl : g = f := by simpa [hp] using hg.symm
    exact h.change rfl rfl hdone fun q hq => .inl (mem_of_take hq)
  | queue x rest hn reqId i r msg p f hr hp hany hwait =>
    obtain ⟨g, hg, hdone⟩ := h.heap_of_peek hr.peek
    obtain rfl : g = f := by simpa [hp] using hg.symm
    exact h.change rfl rfl hdone fun q hq => .inl (mem_of_take hq)
  | reap hcurrent hphase hbatch => exact h.reapDone
  | call p f c hcurrent hp =>
    obtain ⟨g, hg, hruns⟩ := hshape.running p hcurrent
    obtain rfl : g = f := by simpa [hp] using hg.symm
    refine h.call hacc hp hruns c fun hexit => ?_
    subst hexit
    have hrun := ModuleState.running_eq_some.mpr ⟨hcurrent, hp⟩
    rw [Collects, hrun, Option.all_some] at hcollects
    exact hcollects

end Safe

/-- **No fiber is used after it was freed**, when every sequence has collected its replies before it
ends. -/
theorem no_use_after_free
    (h : Reach ModuleState.step (fun s i => Numbered s i ∧ Collects s i)
      (.initial idx nrSeq recvNotify) m) : m.fault = false := by
  refine (h.inv₂ (fun s => Shape s ∧ Accounts s) Safe (fun s hs => ?_) ⟨rfl, ?_⟩ ?_).fault
  · exact ⟨shape_of_reach hs, accounts_of_reach (fun _ _ ho => ho.1) hs⟩
  · exact fun q hq => by simp [ModuleState.initial] at hq
  · exact fun _ _ _ hJ _ hs ho ht => hs.move hJ.1 hJ.2 ho.2 (ModuleState.move_of_step ht)

theorem no_use_after_free_gathering : ∃ m : ModuleState, m.fibers = [] ∧ m.answered 0 = [1] ∧
    m.fault = false := by
  have hrun : execOk ModuleState.step (fun s i => Numbered s i ∧ Collects s i) (.initial 0 1 false)
      (gathering ++ [.call .exit, .reap]) = true := by decide
  obtain ⟨m, hm⟩ := Option.isSome_iff_exists.mp
    (show (exec ModuleState.step (.initial 0 1 false) (gathering ++ [.call .exit, .reap])).isSome =
      true by decide)
  have hstate : ((exec ModuleState.step (.initial 0 1 false)
      (gathering ++ [.call .exit, .reap])).map fun m => (m.fibers, m.answered 0)) =
        some ([], [1]) := by decide
  rw [hm, Option.map_some, Option.some.injEq, Prod.mk.injEq] at hstate
  exact ⟨m, hstate.1, hstate.2, no_use_after_free (reach_of_execOk hrun hm)⟩

/-- **A reply to a sequence that has ended finds a fiber that has been freed.** -/
theorem use_after_free_without : ∃ m : ModuleState,
    Reach ModuleState.step Numbered (.initial 0 1 false) m ∧ m.fault = true := by
  have hrun : execOk ModuleState.step Numbered (.initial 0 1 false) [
      .arrive (.start 0 1 none []), .take .zero, .timer, .handle,
      .call (.requestAsync 1 0 [5]), .call .exit, .reap, .arrive (.reply 1 1 .success [6]),
      .take .zero, .timer, .handle] = true := by decide
  obtain ⟨m, hm⟩ := Option.isSome_iff_exists.mp
    (show (exec ModuleState.step (.initial 0 1 false) [
      .arrive (.start 0 1 none []), .take .zero, .timer, .handle,
      .call (.requestAsync 1 0 [5]), .call .exit, .reap, .arrive (.reply 1 1 .success [6]),
      .take .zero, .timer, .handle]).isSome = true by decide)
  refine ⟨m, reach_of_execOk hrun hm, ?_⟩
  have hfault : ((exec ModuleState.step (.initial 0 1 false) [
      .arrive (.start 0 1 none []), .take .zero, .timer, .handle,
      .call (.requestAsync 1 0 [5]), .call .exit, .reap, .arrive (.reply 1 1 .success [6]),
      .take .zero, .timer, .handle]).map fun m => m.fault) = some true := by decide
  rwa [hm, Option.map_some, Option.some.injEq] at hfault

end Coseq

end AutoRec
