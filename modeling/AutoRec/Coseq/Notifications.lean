import AutoRec.Coseq.Replies

/-!
# Notifications across modules

A module registers at another one by a request; the sequence for it takes a number from the instance.
All that are registered for a category are then sent each notification of it, with their number.

* **`notifications_in_order`**: the handlers that a module has started for the notifications of another
  one, and what lies in its inbox, are what that has sent, in order.
* `ClientsNumbered`: the numbers of the listeners, of 8 bits, have not come round.
* `Listeners`, `listeners_of_reach`: no two listeners have the same number.
* **`notification_identified`**: a handler can tell by the number alone which of its registrations a
  notification is for.
-/

namespace AutoRec

namespace Coseq

open Machine

variable {s t : System} {nrModule : ℕ} {nrSeq : ℕ → ℕ} {recvNotify : ℕ → Bool} {i j k p g : ℕ}
  {ok : System → SysOp → Prop}

/-! ## The order -/

/-- The event is a notification of a module. -/
def isNotifyOf (i : ℕ) (e : Event) : Bool := e.isNotify && e.sender == some i

theorem defers_isNotifyOf (m : ModuleState) (e : Event) (h : m.defers e = true) :
    isNotifyOf i e = false := by
  simp only [ModuleState.defers, Bool.and_eq_true, Bool.not_eq_true'] at h
  rw [isNotifyOf, h.1.2, Bool.false_and]

/-- **Notifications are handled once each, in the order in which they have been sent.** -/
theorem notifications_in_order
    (h : Reach System.step ok (.initial nrModule nrSeq recvNotify) s) (hi : i < nrModule)
    (hj : j < nrModule) (hrecv : recvNotify j = true) :
    (((s.modules i).sent.filter fun x => x.dest == j).map Sent.event).filter Event.isNotify =
      (s.modules j).startedEvents.filter (isNotifyOf i) ++
        (((s.modules j).box.batch ++ (s.modules j).box.inbox).map Letter.body).filter
          (isNotifyOf i) := by
  have hany : Reach System.step (Locally anyStep) (.initial nrModule nrSeq recvNotify) s :=
    h.mono fun _ op _ => by cases op <;> trivial
  have hreach := module_of_reach hany (fun _ _ => trivial) j
  have horder := inOrder_of_reach (p := isNotifyOf i) defers_isNotifyOf hreach
  have hnr := nrModule_of_reach h
  -- a handler is started for each one
  have hstarted : (s.modules j).startedEvents.filter (isNotifyOf i) =
      (s.modules j).handledEvents.filter (isNotifyOf i) := by
    rw [(traced_of_reach hreach).starts, List.filter_filter]
    refine List.filter_congr fun e _ => ?_
    cases e with
    | notify k category clientId msg =>
      simp [ModuleState.fiberOf, recvNotify_of_reach hreach, hrecv]
    | start | reply => rfl
  rw [hstarted]
  have harrived := horder.eq
  rw [List.map_append, List.filter_append] at harrived
  rw [← (channel_of_reach h).module i j (hnr ▸ hi) (hnr ▸ hj), List.filter_filter]
  exact harrived

/-- The module 1 registers at the module 0, which then notifies it. -/
def notifying : List SysOp := [
  .requestAsync 1 0 [],
  .module 1 (.take .zero), .module 1 .timer, .module 1 .handle,
  .module 1 (.call (.request 0 0 [] none)),
  .module 0 (.take .zero), .module 0 .timer, .module 0 .handle,
  .module 0 (.call (.regNotify 3 0)), .module 0 (.call (.notify 3 [9])), .module 0 (.call .exit),
  .module 1 .reap, .module 1 (.take .zero), .module 1 .timer, .module 1 .timer,
  .module 1 .handle]

theorem notifications_in_order_notifying : ∃ s : System,
    (s.modules 1).startedEvents.length = 2 ∧
    (((s.modules 0).sent.filter fun x => x.dest == 1).map Sent.event).filter Event.isNotify =
      (s.modules 1).startedEvents.filter (isNotifyOf 0) ++
        (((s.modules 1).box.batch ++ (s.modules 1).box.inbox).map Letter.body).filter
          (isNotifyOf 0) := by
  obtain ⟨s, hs⟩ := Option.isSome_iff_exists.mp
    (show (exec System.step (.initial 2 (fun _ => 1) fun _ => true) notifying).isSome = true by decide)
  have hlen : ((exec System.step (.initial 2 (fun _ => 1) fun _ => true) notifying).map fun s =>
      (s.modules 1).startedEvents.length) = some 2 := by decide
  rw [hs, Option.map_some, Option.some.injEq] at hlen
  exact ⟨s, hlen, notifications_in_order (reach_of_exec hs) (by decide) (by decide) rfl⟩

/-! ## The numbers -/

/-- The numbers of the listeners have not come round. -/
def ClientsNumbered (s : System) : SysOp → Prop
  | .module i op => (s.modules i).registers op = true → s.nextClientId ≠ 0xff
  | _ => True

instance (s : System) (op : SysOp) : Decidable (ClientsNumbered s op) :=
  match op with
  | .module i op => inferInstanceAs
      (Decidable ((s.modules i).registers op = true → s.nextClientId ≠ 0xff))
  | .requestSync .. | .wakeUp _ | .requestAsync .. => isTrue trivial

/-- **No two listeners have the same number.** -/
structure Listeners (s : System) : Prop where
  lt : ∀ k, ∀ q ∈ (s.modules k).registered, q.2.clientId.toNat < s.nextClientId.toNat
  unique : ∀ k k' q q', q ∈ (s.modules k).registered → q' ∈ (s.modules k').registered →
    q.2.clientId = q'.2.clientId → k = k' ∧ q = q'

section Registering

variable {m m' : ModuleState} {op : Op}

theorem registered_of_move (ht : Move m op m') :
    (m.registers op = false ∧ m'.registered = m.registered) ∨
      (m.registers op = true ∧ ∃ p category listener clientId,
        op = .call (.regNotify category clientId) ∧
          m'.registered = m.registered ++ [(p, ⟨category, listener, clientId⟩)]) := by
  cases ht with
  | call p f c hcurrent hp =>
    cases c with
    | regNotify category clientId =>
      have hrun := ModuleState.running_eq_some.mpr ⟨hcurrent, hp⟩
      simp only [ModuleState.registers, hrun, Option.any_some, ModuleState.call,
        ModuleState.regNotify]
      cases hto : f.replyTo with
      | none => exact .inl ⟨rfl, rfl⟩
      | some l => exact .inr ⟨rfl, p, category, l, clientId, rfl, rfl⟩
    | waitReply =>
      refine .inl ⟨rfl, ?_⟩
      simp only [ModuleState.call, ModuleState.waitReply]
      split_ifs
      · rfl
      · split <;> rfl
    | reply result msg =>
      refine .inl ⟨rfl, ?_⟩
      simp only [ModuleState.call, ModuleState.reply]
      split <;> rfl
    | request | requestAsync | send | waitTimeout | unregNotify | notify | lock | unlock | exit =>
      exact .inl ⟨rfl, rfl⟩
  | _ => exact .inl ⟨rfl, rfl⟩

end Registering

namespace Listeners

theorem of_eq (h : Listeners s) (hregistered : ∀ k, (t.modules k).registered = (s.modules k).registered)
    (hnext : t.nextClientId = s.nextClientId) : Listeners t := by
  refine ⟨fun k => ?_, fun k k' q q' hq hq' => ?_⟩
  · rw [hregistered, hnext]
    exact h.lt k
  · rw [hregistered] at hq hq'
    exact h.unique k k' q q' hq hq'

theorem post {e : Event} (h : Listeners s) : Listeners (s.post i e) := by
  refine h.of_eq (fun k => ?_) System.post_nextClientId
  rw [System.post_modules]
  split_ifs <;> rfl

theorem postAll {l : List Sent} (h : Listeners s) : Listeners (s.postAll l) := by
  induction l generalizing s with
  | nil => exact h
  | cons x l ih => exact ih h.post

theorem advance {op : Op} {m : ModuleState} (h : Listeners s) (ht : Move (s.modules i) op m)
    (hallows : s.allows op = true) (hnum : ClientsNumbered s (.module i op)) :
    Listeners (s.advance i op m) := by
  have hmodules : ∀ k, (s.advance i op m).modules k = if k = i then m else s.modules k := fun k =>
    Function.update_apply ..
  rcases registered_of_move ht with ⟨hnot, hsame⟩ | ⟨hreg, p, category, listener, clientId, rfl, hnew⟩
  · refine h.of_eq (fun k => ?_) ?_
    · rw [hmodules]
      split_ifs with heq
      · rw [hsame, heq]
      · rfl
    · show (if (s.modules i).registers op = true then _ else s.nextClientId) = _
      rw [hnot, if_neg Bool.false_ne_true]
  · -- the number is the next one of the instance
    have hne := hnum hreg
    have hid : clientId = s.nextClientId := by
      have hid : clientId = s.clientId := by simpa [System.allows] using hallows
      rw [hid, System.clientId, if_neg hne]
    have hnext : (s.advance i (.call (.regNotify category clientId)) m).nextClientId.toNat =
        s.nextClientId.toNat + 1 := by
      show (if (s.modules i).registers _ = true then s.clientId + 1 else _).toNat = _
      have hlt : s.nextClientId.toNat < 255 := by
        have hlt := s.nextClientId.toNat_lt
        have hne' : s.nextClientId.toNat ≠ 255 := fun heq => hne (UInt8.toNat_inj.mp heq)
        omega
      rw [if_pos hreg, System.clientId, if_neg hne, UInt8.toNat_add]
      exact Nat.mod_eq_of_lt (by simp; omega)
    have hold : ∀ k q, q ∈ ((s.advance i (.call (.regNotify category clientId)) m).modules k).registered →
        q ∈ (s.modules k).registered ∨ (k = i ∧ q = (p, ⟨category, listener, clientId⟩)) := by
      intro k q hq
      rw [hmodules] at hq
      split_ifs at hq with heq
      · rw [hnew, List.mem_append, List.mem_singleton] at hq
        exact hq.imp (fun hq => heq ▸ hq) fun hq => ⟨heq, hq⟩
      · exact .inl hq
    -- and no listener has it yet
    have hfree : ∀ k, ∀ q ∈ (s.modules k).registered, q.2.clientId ≠ clientId := by
      intro k q hq heq
      have hlt := h.lt k q hq
      rw [heq, hid] at hlt
      exact lt_irrefl _ hlt
    refine ⟨fun k q hq => ?_, fun k k' q q' hq hq' heq => ?_⟩
    · rw [hnext]
      rcases hold k q hq with hq | ⟨-, rfl⟩
      · exact Nat.lt_succ_of_lt (h.lt k q hq)
      · rw [hid]
        exact Nat.lt_succ_self _
    · rcases hold k q hq with hmem | ⟨rfl, rfl⟩ <;> rcases hold k' q' hq' with hmem' | ⟨rfl, rfl⟩
      · exact h.unique k k' q q' hmem hmem' heq
      · exact absurd heq (hfree k q hmem)
      · exact absurd heq.symm (hfree k' q' hmem')
      · exact ⟨rfl, rfl⟩

end Listeners

theorem listeners_of_reach
    (h : Reach System.step ClientsNumbered (.initial nrModule nrSeq recvNotify) s) :
    Listeners s := by
  refine h.inv Listeners ⟨fun k q hq => ?_, fun k k' q q' hq => ?_⟩ fun s op t hs ho ht => ?_
  · simp [System.initial, ModuleState.initial] at hq
  · simp [System.initial, ModuleState.initial] at hq
  · cases op with
    | module i op =>
      obtain ⟨-, hallows, m, hm, rfl⟩ := System.stepModule_eq_some.mp ht
      exact (hs.advance (ModuleState.move_of_step hm) hallows ho).postAll
    | requestSync thread dest seqIdx msg =>
      cases ht
      exact Listeners.post (hs.of_eq (fun _ => rfl) rfl)
    | wakeUp thread =>
      simp only [System.step, System.wakeUp] at ht
      split at ht
      · cases ht
      · split_ifs at ht <;> cases ht <;> exact hs.of_eq (fun _ => rfl) rfl
    | requestAsync dest seqIdx msg =>
      cases ht
      exact Listeners.post (hs.of_eq (fun _ => rfl) rfl)

/-- **A notification is for the one listener that has its number**: the module has registered it, for
the category, at the module that has sent the notification. -/
theorem notification_identified
    (h : Reach System.step ClientsNumbered (.initial nrModule nrSeq recvNotify) s)
    (hj : j < nrModule) {category clientId : UInt8} {msg : List UInt8}
    (hp : (p, .notify i category clientId msg) ∈ (s.modules j).started) :
    (∃ g, (⟨g, j, .notify i category clientId msg⟩ : Sent) ∈ (s.modules i).sent) ∧
      (∃ g reqId, (g, ⟨category, j, clientId⟩) ∈ (s.modules i).registered ∧
        (s.modules i).HasStarted g j reqId) ∧
      ∀ k q, q ∈ (s.modules k).registered → q.2.clientId = clientId →
        k = i ∧ q.2 = ⟨category, j, clientId⟩ := by
  obtain ⟨-, q, hsent⟩ := sent_of_started h hj hp rfl
  obtain ⟨htraced, -⟩ := traced_module h i
  obtain ⟨-, g, hg⟩ := htraced.sent _ hsent
  obtain ⟨reqId, hstarted⟩ := htraced.registered _ hg
  refine ⟨⟨q, hsent⟩, ⟨g, reqId, hg, hstarted⟩, fun k q' hq' hid => ?_⟩
  obtain ⟨rfl, rfl⟩ := (listeners_of_reach h).unique k i q' _ hq' hg hid
  exact ⟨rfl, rfl⟩

theorem notification_identified_notifying : ∃ (s : System) (p : ℕ), (p, .notify 0 3 0 [9]) ∈ (s.modules 1).started ∧
    (∃ g, (⟨g, 1, .notify 0 3 0 [9]⟩ : Sent) ∈ (s.modules 0).sent) ∧
      (∃ g reqId, (g, ⟨3, 1, 0⟩) ∈ (s.modules 0).registered ∧ (s.modules 0).HasStarted g 1 reqId) ∧
      ∀ k q, q ∈ (s.modules k).registered → q.2.clientId = 0 → k = 0 ∧ q.2 = ⟨3, 1, 0⟩ := by
  have hrun : execOk System.step ClientsNumbered (.initial 2 (fun _ => 1) fun _ => true) notifying =
      true := by decide
  obtain ⟨s, hs⟩ := Option.isSome_iff_exists.mp
    (show (exec System.step (.initial 2 (fun _ => 1) fun _ => true) notifying).isSome = true by decide)
  have hstarted : ((exec System.step (.initial 2 (fun _ => 1) fun _ => true) notifying).map fun s =>
      (s.modules 1).started) =
        some [(0, .start 0 1 none []), (1, .notify 0 3 0 [9])] := by decide
  rw [hs, Option.map_some, Option.some.injEq] at hstarted
  have hmem : (1, .notify 0 3 0 [9]) ∈ (s.modules 1).started := by simp [hstarted]
  exact ⟨s, 1, hmem, notification_identified (reach_of_execOk hrun hs) (by decide) hmem⟩

end Coseq

end AutoRec
