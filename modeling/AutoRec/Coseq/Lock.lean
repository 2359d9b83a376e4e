import AutoRec.Coseq.Gather

/-!
# The lock of a module

`coseq_lock` takes the module whoever holds it. When no sequence takes it from another one, the module
belongs to the holder from then on until it unlocks it, or has returned. Meanwhile no other sequence
runs, save the handler of a notification up to its first wait.

* `LocksFree`: no sequence takes the lock of another one.
* `Releases`: how the lock is released.
* `Excludes`: who runs; `IsFor`: what is handled.
* **`lock_excludes`**.
-/

namespace AutoRec

namespace Coseq

open Machine

/-- No sequence takes the lock of another one. -/
def LocksFree (m : ModuleState) : Op → Prop
  | .call .lock => m.lockedBy = none ∨ m.lockedBy = m.current
  | _ => True

instance (m : ModuleState) (op : Op) : Decidable (LocksFree m op) := by
  unfold LocksFree
  split <;> infer_instance

/-- While the module is locked, only the holder runs, or the handler of a notification that has not
waited yet. -/
def Excludes (m : ModuleState) : Prop :=
  ∀ h p f, m.lockedBy = some h → m.running = some (p, f) →
    p = h ∨ (f.origin.isNotify = true ∧ f.fresh = true)

/-- The holder unlocks the module, or is taken away as it has returned. -/
def Releases (h : ℕ) (m : ModuleState) : Op → Prop
  | .call .unlock => m.current = some h
  | .reap => m.isDone h = true
  | _ => False

instance (h : ℕ) (m : ModuleState) (op : Op) : Decidable (Releases h m op) := by
  unfold Releases
  split <;> infer_instance

/-- An event that is handled while a fiber holds the lock. -/
def IsFor (h : ℕ) (m : ModuleState) (e : Event) : Prop :=
  e.isNotify = true ∨ ∃ reqId i r msg, e = .reply reqId i r msg ∧ (h, reqId) ∈ m.asked

variable {m t : ModuleState} {p : ℕ} {f : Fiber} {op : Op} {idx nrSeq : ℕ} {recvNotify : Bool}

theorem excludes_of_current (h : m.current = none) : Excludes m := by
  rintro q p f - hrun
  rw [(ModuleState.running_eq_some.mp hrun).1] at h
  cases h

theorem excludes_of_update (hcurrent : t.current = some p)
    (hheap : t.heap = Function.update m.heap p (some f))
    (h : ∀ q, t.lockedBy = some q → p = q ∨ (f.origin.isNotify = true ∧ f.fresh = true)) :
    Excludes t := by
  rintro q p' f' hq hrun
  obtain ⟨hcurrent', hp'⟩ := ModuleState.running_eq_some.mp hrun
  obtain rfl : p = p' := by simpa [hcurrent] using hcurrent'
  rw [hheap, Function.update_self] at hp'
  cases hp'
  exact h q hq

namespace Excludes

theorem of_eq (h : Excludes m) (hcurrent : t.current = m.current) (hheap : t.heap = m.heap)
    (hlock : ∀ q, t.lockedBy = some q → m.lockedBy = some q) : Excludes t := by
  rintro q p f hq hrun
  refine h q p f (hlock q hq) ?_
  rw [ModuleState.running_eq_some] at hrun ⊢
  rw [← hcurrent, ← hheap]
  exact hrun

theorem call (h : Excludes m) (hcurrent : m.current = some p) (hp : m.heap p = some f) (c : Call) :
    Excludes (m.call p f c) := by
  have hrun := ModuleState.running_eq_some.mpr ⟨hcurrent, hp⟩
  cases c with
  | request dest seqIdx msg timeout => exact excludes_of_current rfl
  | requestAsync dest seqIdx msg =>
    exact excludes_of_update hcurrent rfl fun q hq => h q p f hq hrun
  | waitReply =>
    show Excludes (m.waitReply p f)
    unfold ModuleState.waitReply
    split_ifs
    · exact h
    split
    · exact excludes_of_current rfl
    · exact excludes_of_update hcurrent rfl fun q hq => h q p f hq hrun
  | send dest seqIdx msg => exact h.of_eq rfl rfl fun _ hq => hq
  | reply result msg =>
    show Excludes (m.reply p f result msg)
    unfold ModuleState.reply
    split
    · exact h
    · exact h.of_eq rfl rfl fun _ hq => hq
  | waitTimeout now msec => exact excludes_of_current rfl
  | regNotify category clientId =>
    show Excludes (m.regNotify p f category clientId)
    unfold ModuleState.regNotify
    split
    · exact h
    · exact h.of_eq rfl rfl fun _ hq => hq
  | unregNotify category clientId => exact h.of_eq rfl rfl fun _ hq => hq
  | notify category msg => exact h.of_eq rfl rfl fun _ hq => hq
  | lock =>
    rintro q p' f' hq hrun'
    have hcurrent' : m.current = some p' := (ModuleState.running_eq_some.mp hrun').1
    have hq : some p = some q := hq
    obtain rfl : p = p' := by simpa [hcurrent] using hcurrent'
    exact .inl (by simpa using hq)
  | unlock =>
    refine h.of_eq rfl rfl fun q hq => ?_
    simp only [ModuleState.call, ModuleState.unlock] at hq
    split_ifs at hq
    exact hq
  | exit => exact excludes_of_current rfl

theorem move (h : Excludes m) (ht : Move m op t) : Excludes t := by
  cases ht with
  | arrive e => exact h.of_eq rfl rfl fun _ hq => hq
  | take now hcurrent hphase => exact excludes_of_current hcurrent
  | visited now hcurrent hphase => exact excludes_of_current hcurrent
  | dangling now p left hv hp => exact excludes_of_current hv.current
  | skip now p left f hv hp hdue => exact excludes_of_current hv.current
  | timeout now p left f hv hp hdue hreply =>
    exact excludes_of_update rfl rfl fun q hq => .inl (eq_of_isDue hdue hq)
  | wake now p left f hv hp hdue hreply =>
    exact excludes_of_update rfl rfl fun q hq => .inl (eq_of_isDue hdue hq)
  | defer x rest hn hdefer => exact excludes_of_current hn.current
  | ignore x rest hn hnone hreply hdefer => exact excludes_of_current hn.current
  | start x rest f hn hf hlock =>
    refine excludes_of_update rfl rfl fun q hq => .inr ?_
    have hnotify : x.body.isNotify = true :=
      hlock.resolve_left fun hnone => by simp [hnone] at hq
    obtain ⟨_, _, _, _, _, _, _, rfl⟩ := exists_of_fiberOf hf
    exact ⟨hnotify, rfl⟩
  | lost x rest hn reqId i r msg p hr hp => exact excludes_of_current hn.current
  | answer x rest hn reqId i r msg p f hr hp hwait =>
    exact excludes_of_update rfl rfl fun q hq => .inl (hr.holder q hq)
  | queue x rest hn reqId i r msg p f hr hp hany hwait => exact excludes_of_current hn.current
  | reap hcurrent hphase hbatch => exact excludes_of_current hcurrent
  | call p f c hcurrent hp => exact h.call hcurrent hp c

end Excludes

theorem lockedBy_of_move {h : ℕ} (hlock : m.lockedBy = some h) (hfree : LocksFree m op)
    (hkeep : ¬ Releases h m op) (ht : Move m op t) : t.lockedBy = some h := by
  cases ht with
  | reap hcurrent hphase hbatch =>
    have hdone : m.isDone h = false := by
      by_contra hd
      exact hkeep (show m.isDone h = true by simpa using hd)
    rw [ModuleState.reapDone_lockedBy, hlock]
    simp [hdone]
  | call p f c hcurrent hp =>
    cases c with
    | lock =>
      rcases hfree with hnone | hown
      · rw [hlock] at hnone
        cases hnone
      · exact hcurrent.symm.trans (hown.symm.trans hlock)
    | unlock =>
      have hne : h ≠ p := fun heq => hkeep (heq ▸ hcurrent)
      show (if m.lockedBy = some p then none else m.lockedBy) = some h
      rw [if_neg (by rw [hlock]; simpa using hne), hlock]
    | waitReply =>
      simp only [ModuleState.call, ModuleState.waitReply]
      split_ifs
      · exact hlock
      · split <;> exact hlock
    | reply result msg =>
      simp only [ModuleState.call, ModuleState.reply]
      split <;> exact hlock
    | regNotify category clientId =>
      simp only [ModuleState.call, ModuleState.regNotify]
      split <;> exact hlock
    | request | requestAsync | send | waitTimeout | unregNotify | notify | exit => exact hlock
  | _ => exact hlock

theorem call_asked (p : ℕ) (f : Fiber) (c : Call) : m.asked ⊆ (m.call p f c).asked := by
  cases c with
  | request | requestAsync => exact List.subset_append_left _ _
  | waitReply =>
    simp only [ModuleState.call, ModuleState.waitReply]
    split_ifs
    · exact List.Subset.refl _
    · split <;> exact List.Subset.refl _
  | reply result msg =>
    simp only [ModuleState.call, ModuleState.reply]
    split <;> exact List.Subset.refl _
  | regNotify category clientId =>
    simp only [ModuleState.call, ModuleState.regNotify]
    split <;> exact List.Subset.refl _
  | send | waitTimeout | unregNotify | notify | lock | unlock | exit => exact List.Subset.refl _

theorem handled_of_move {h : ℕ} (hlock : m.lockedBy = some h) (hacc : Accounts m)
    (ht : Move m op t) : m.asked ⊆ t.asked ∧ ∃ l : List (Letter Event),
      t.box.handled = m.box.handled ++ l ∧ ∀ x ∈ l, IsFor h m x.body := by
  have hnone : ∃ l : List (Letter Event), m.box.handled = m.box.handled ++ l ∧
      ∀ x ∈ l, IsFor h m x.body := ⟨[], (List.append_nil _).symm, by simp⟩
  -- an event that is handled is not deferred
  have hhandled : ∀ x rest, Next m x rest → IsFor h m x.body → ∃ l : List (Letter Event),
      m.box.handleNext.handled = m.box.handled ++ l ∧ ∀ x ∈ l, IsFor h m x.body := by
    intro x rest hn hx
    exact ⟨[x], Mailbox.handleNext_handled hn.batch, by simpa using hx⟩
  have hreply : ∀ x reqId i r msg p, Replied m x reqId i r msg p → IsFor h m x.body := by
    intro x reqId i r msg p hr
    obtain rfl := hr.holder h hlock
    exact .inr ⟨reqId, i, r, msg, hr.event, hacc.mem_asked (Accounts.mem_of_peek hr.peek)⟩
  cases ht with
  | take now hcurrent hphase =>
    refine ⟨List.Subset.refl _, ?_⟩
    rw [ModuleState.take_box, Mailbox.take_handled]
    exact hnone
  | ignore x rest hn hf hpeek hdefer =>
    refine ⟨List.Subset.refl _, hhandled x rest hn (.inl ?_)⟩
    by_contra hnotify
    -- it would be a reply for the holder, and found
    cases hbody : x.body with
    | reply reqId i r msg =>
      simp [ModuleState.defers, ModuleState.isForHolder, Event.isNotify, hbody, hlock,
        hpeek reqId i r msg hbody] at hdefer
    | start | notify =>
      simp [ModuleState.defers, ModuleState.isForHolder, hbody, hlock, Event.isNotify]
        at hdefer hnotify
  | start x rest f hn hf hunlocked =>
    refine ⟨List.Subset.refl _, hhandled x rest hn (.inl ?_)⟩
    exact hunlocked.resolve_left fun hfree => by simp [hfree] at hlock
  | lost x rest hn reqId i r msg p hr hp =>
    exact ⟨List.Subset.refl _, hhandled x rest hn (hreply x reqId i r msg p hr)⟩
  | answer x rest hn reqId i r msg p f hr hp hwait =>
    exact ⟨List.Subset.refl _, hhandled x rest hn (hreply x reqId i r msg p hr)⟩
  | queue x rest hn reqId i r msg p f hr hp hany hwait =>
    exact ⟨List.Subset.refl _, hhandled x rest hn (hreply x reqId i r msg p hr)⟩
  | call p f c hcurrent hp =>
    rw [(call_loop (m := m) p f c).2]
    exact ⟨call_asked p f c, hnone⟩
  | _ => exact ⟨List.Subset.refl _, hnone⟩

/-- **A lock keeps all others out.** From the lock to its release, only the holder runs, or the
handler of a notification up to its first wait; and what is handled are notifications, and replies to
the holder. -/
theorem lock_excludes {h : ℕ}
    (hm : Reach ModuleState.step (fun s i => Numbered s i ∧ Collects s i)
      (.initial idx nrSeq recvNotify) m)
    (hlock : m.lockedBy = some h)
    (ht : Reach ModuleState.step
      (fun s i => (Numbered s i ∧ Collects s i) ∧ LocksFree s i ∧ ¬ Releases h s i) m t) :
    t.lockedBy = some h ∧ Excludes t ∧ ∃ l : List (Letter Event),
      t.box.handled = m.box.handled ++ l ∧ ∀ x ∈ l, IsFor h t x.body := by
  have hexcludes : ∀ s, Reach ModuleState.step (fun s i => Numbered s i ∧ Collects s i)
      (.initial idx nrSeq recvNotify) s → Excludes s := fun s hs => hs.inv Excludes (excludes_of_current rfl)
    fun _ _ _ hs _ ht => hs.move (ModuleState.move_of_step ht)
  induction ht with
  | refl => exact ⟨hlock, hexcludes _ hm, [], (List.append_nil _).symm, by simp⟩
  | @tail s t op hs ho hstep ih =>
    have hmove := ModuleState.move_of_step hstep
    have hreach := hm.trans (hs.mono fun _ _ ho => ho.1)
    obtain ⟨hlocked, -, l, hl, hfor⟩ := ih
    obtain ⟨hasked, l', hl', hfor'⟩ :=
      handled_of_move hlocked (accounts_of_reach (fun _ _ ho => ho.1) hreach) hmove
    refine ⟨lockedBy_of_move hlocked ho.2.1 ho.2.2 hmove, hexcludes _ (.tail hreach ho.1 hstep),
      l ++ l', by rw [hl', hl, List.append_assoc], fun x hx => ?_⟩
    have hgrows : IsFor h s x.body := (List.mem_append.mp hx).elim (hfor x) (hfor' x)
    rcases hgrows with hnotify | ⟨reqId, i, r, msg, hbody, hmem⟩
    · exact .inl hnotify
    · exact .inr ⟨reqId, i, r, msg, hbody, hasked hmem⟩

/-- A sequence locks the module, and a handler runs while it waits. -/
def locking : List Op := [
  .arrive (.start 0 1 none []), .take .zero, .timer, .handle, .call .lock]

/-- A request comes, and a notification, while it waits. -/
def meanwhile : List Op := [
  .call (.request 1 0 [] none), .reap, .arrive (.start 0 2 none []), .arrive (.notify 1 0 0 []),
  .take .zero, .timer, .timer, .handle, .handle]

theorem lock_excludes_locking : ∃ m t : ModuleState, t.box.deferred.length = 1 ∧
    t.running.isSome = true ∧ t.lockedBy = some 0 ∧ Excludes t ∧
    ∃ l : List (Letter Event), t.box.handled = m.box.handled ++ l ∧ ∀ x ∈ l, IsFor 0 t x.body := by
  have hrun : execOk ModuleState.step (fun s i => Numbered s i ∧ Collects s i) (.initial 0 1 true)
      locking = true := by decide
  obtain ⟨m, hm⟩ := Option.isSome_iff_exists.mp
    (show (exec ModuleState.step (.initial 0 1 true) locking).isSome = true by decide)
  -- what the run from there on needs, and where it leads
  have hlater : (exec ModuleState.step (.initial 0 1 true) locking).map (fun m =>
      (m.lockedBy, execOk ModuleState.step
        (fun s i => (Numbered s i ∧ Collects s i) ∧ LocksFree s i ∧ ¬ Releases 0 s i) m meanwhile,
        (exec ModuleState.step m meanwhile).map fun t =>
          (t.box.deferred.length, t.running.isSome))) = some (some 0, true, some (1, true)) := by
    decide
  rw [hm, Option.map_some, Option.some.injEq, Prod.mk.injEq, Prod.mk.injEq] at hlater
  obtain ⟨hlock, hok, ht⟩ := hlater
  obtain ⟨t, ht, hstate⟩ := Option.map_eq_some_iff.mp ht
  obtain ⟨hdeferred, hrunning⟩ := Prod.mk.inj hstate
  exact ⟨m, t, hdeferred, hrunning,
    lock_excludes (reach_of_execOk hrun hm) hlock (reach_of_execOk hok ht)⟩

end Coseq

end AutoRec
