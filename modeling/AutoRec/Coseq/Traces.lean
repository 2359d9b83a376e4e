import AutoRec.Coseq.Requests

/-!
# What a module has sent, and why

* `Fiber.IsOf`: a sequence replies to the event that it was started for.
* `Traced`, `traced_of_reach`: what has been started has been handled; a reply has been sent by the
  sequence that the request has started; a sequence has been given what was in a reply handled;
  notifications go to listeners that have registered.
* **`events_kept`**: no event is lost, or handled twice.
* `inOrder_of_reach`: events that are never deferred are handled in the order of their arrival.
-/

namespace AutoRec

namespace Coseq

open Machine

/-- The fiber has been started for its event, and replies to it. -/
def Fiber.IsOf (f : Fiber) : Prop :=
  match f.origin with
  | .start _ reqId requester _ => f.replyTo = requester ∧ f.replyReqId = reqId
  | .reply .. => False
  | .notify .. => f.replyTo = none ∧ f.replyReqId = 0

namespace ModuleState

variable (m : ModuleState)

/-- The events that have been handled. -/
def handledEvents : List Event := m.box.handled.map Letter.body

/-- The events for which a sequence has been started. -/
def startedEvents : List Event := m.started.map Prod.snd

/-- A reply has been handled. -/
def HasReply (reqId : UInt32) (r : CoseqResult) (msg : List UInt8) : Prop :=
  ∃ i, .reply reqId i r msg ∈ m.handledEvents

/-- A fiber has been started for a request of a module. -/
def HasStarted (p i : ℕ) (reqId : UInt32) : Prop :=
  ∃ seqIdx msg, (p, Event.start seqIdx reqId (some i) msg) ∈ m.started

/-- What an event that has been posted goes back to. -/
def IsCaused (s : Sent) : Prop :=
  match s.event with
  | .start _ _ requester _ => requester = some m.idx
  | .reply reqId i _ _ => i = m.idx ∧ m.HasStarted s.fiber s.dest reqId
  | .notify i category clientId _ =>
    i = m.idx ∧ ∃ q, (q, NotifyClient.mk category s.dest clientId) ∈ m.registered

end ModuleState

/-- **What a module has sent, and why.** -/
structure Traced (m : ModuleState) : Prop where
  sound : m.box.Sound
  starts : m.startedEvents = m.handledEvents.filter fun e => (m.fiberOf e).isSome
  numbers : m.started.map Prod.fst = List.range m.nextFiber
  origin : ∀ p f, m.heap p = some f → (p, f.origin) ∈ m.started ∧ f.IsOf
  sent : ∀ s ∈ m.sent, m.IsCaused s
  asked : ∀ q ∈ m.asked, ∃ dest seqIdx msg,
    ⟨q.1, dest, .start seqIdx q.2 (some m.idx) msg⟩ ∈ m.sent
  returned : ∀ q ∈ m.returned, m.HasReply q.2.reqId q.2.result q.2.msg
  queued : ∀ p f, m.heap p = some f → ∀ rr ∈ f.rq, m.HasReply rr.reqId rr.result rr.msg
  clients : ∀ nc ∈ m.notifyClients, ∃ q, (q, nc) ∈ m.registered
  registered : ∀ q ∈ m.registered, ∃ reqId, m.HasStarted q.1 q.2.listenerModule reqId

variable {m t : ModuleState} {p : ℕ} {f g : Fiber} {e : Event} {op : Op}

theorem Source.msg_set (s : Source) (msg : List UInt8) (r : CoseqResult)
    (threadIdx seqIdx clientId : UInt8) (reqId : UInt32) :
    (s.set msg r threadIdx seqIdx clientId reqId).msg = msg := by
  show (Buffer.overwrite s.srcBuf 0 msg).take msg.length = msg
  rw [Buffer.overwrite_zero, List.take_left]

theorem Fiber.IsOf.of_eq (h : f.IsOf) (horigin : g.origin = f.origin) (hto : g.replyTo = f.replyTo)
    (hid : g.replyReqId = f.replyReqId) : g.IsOf := by
  unfold Fiber.IsOf at h ⊢
  rw [horigin, hto, hid]
  exact h

theorem isOf_of_fiberOf (hf : m.fiberOf e = some f) : f.origin = e ∧ f.IsOf := by
  cases e with
  | start seqIdx reqId requester msg =>
    simp only [ModuleState.fiberOf, Option.ite_none_left_eq_some, Option.some.injEq] at hf
    rw [← hf.2]
    exact ⟨rfl, rfl, rfl⟩
  | reply reqId i r msg => cases hf
  | notify i category clientId msg =>
    simp only [ModuleState.fiberOf, Option.ite_none_right_eq_some, Option.some.injEq] at hf
    rw [← hf.2]
    exact ⟨rfl, rfl, rfl⟩

namespace Traced

theorem starts_sublist (h : Traced m) : m.startedEvents.Sublist m.handledEvents :=
  h.starts ▸ List.filter_sublist

/-- A fiber replies to a module only when that has requested it. -/
theorem hasStarted (h : Traced m) (hp : m.heap p = some f) {i : ℕ} (hto : f.replyTo = some i) :
    m.HasStarted p i f.replyReqId := by
  obtain ⟨hmem, hof⟩ := h.origin p f hp
  unfold Fiber.IsOf at hof
  cases horigin : f.origin with
  | start seqIdx reqId requester msg =>
    rw [horigin] at hmem hof
    obtain ⟨hrequester, hid⟩ := hof
    refine ⟨seqIdx, msg, ?_⟩
    rw [hid, ← hto, hrequester]
    exact hmem
  | reply reqId i r msg =>
    rw [horigin] at hof
    exact hof.elim
  | notify i category clientId msg =>
    rw [horigin] at hof
    simp [hto] at hof

end Traced

/-! ## What grows -/

theorem ModuleState.HasReply.mono {reqId : UInt32} {r : CoseqResult} {msg : List UInt8}
    (h : m.HasReply reqId r msg) (ht : m.handledEvents ⊆ t.handledEvents) :
    t.HasReply reqId r msg := h.imp fun _ hi => ht hi

theorem ModuleState.HasStarted.mono {i : ℕ} {reqId : UInt32} (h : m.HasStarted p i reqId)
    (ht : m.started ⊆ t.started) : t.HasStarted p i reqId := by
  obtain ⟨seqIdx, msg, hmem⟩ := h
  exact ⟨seqIdx, msg, ht hmem⟩

theorem ModuleState.IsCaused.mono {s : Sent} (h : m.IsCaused s) (hidx : t.idx = m.idx)
    (hstarted : m.started ⊆ t.started) (hregistered : m.registered ⊆ t.registered) :
    t.IsCaused s := by
  unfold ModuleState.IsCaused at h ⊢
  rw [hidx]
  split
  · rename_i hevent
    rw [hevent] at h
    exact h
  · rename_i hevent
    rw [hevent] at h
    exact ⟨h.1, h.2.mono hstarted⟩
  · rename_i hevent
    rw [hevent] at h
    exact ⟨h.1, h.2.imp fun _ hq => hregistered hq⟩

/-- A fiber that was there before, with nothing in its queue but what has been handled. -/
def Like (m t : ModuleState) (p : ℕ) (f : Fiber) : Prop :=
  ∃ g, m.heap p = some g ∧ f.origin = g.origin ∧ f.replyTo = g.replyTo ∧
    f.replyReqId = g.replyReqId ∧ ∀ rr ∈ f.rq, rr ∈ g.rq ∨ t.HasReply rr.reqId rr.result rr.msg

theorem like_refl (hp : m.heap p = some f) : Like m t p f :=
  ⟨f, hp, rfl, rfl, rfl, fun _ hrr => .inl hrr⟩

theorem like_same (hheap : t.heap = m.heap) (q : ℕ) (g : Fiber) (hg : t.heap q = some g) :
    Like m t q g := like_refl (hheap ▸ hg)

theorem like_update (hheap : t.heap = Function.update m.heap p (some f)) (hf : Like m t p f)
    (q : ℕ) (g : Fiber) (hg : t.heap q = some g) : Like m t q g := by
  rw [hheap, Function.update_apply] at hg
  split_ifs at hg with heq
  · cases hg
    exact heq ▸ hf
  · exact like_refl hg

namespace Traced

theorem fiber (h : Traced m) (hhandled : m.handledEvents ⊆ t.handledEvents)
    (hstarted : m.started ⊆ t.started) (hlike : Like m t p f) :
    ((p, f.origin) ∈ t.started ∧ f.IsOf) ∧ ∀ rr ∈ f.rq, t.HasReply rr.reqId rr.result rr.msg := by
  obtain ⟨g, hg, horigin, hto, hid, hrq⟩ := hlike
  obtain ⟨hmem, hof⟩ := h.origin p g hg
  refine ⟨⟨horigin ▸ hstarted hmem, hof.of_eq horigin hto hid⟩, fun rr hrr => ?_⟩
  exact (hrq rr hrr).elim (fun hold => (h.queued p g hg rr hold).mono hhandled) id

theorem loop (h : Traced m) (hidx : t.idx = m.idx) (hfiberOf : t.fiberOf = m.fiberOf)
    (hsound : t.box.Sound)
    (hhandled : ∃ l, t.handledEvents = m.handledEvents ++ l ∧ ∀ e ∈ l, m.fiberOf e = none) (hstarted : t.started = m.started)
    (hnext : t.nextFiber = m.nextFiber) (hsent : t.sent = m.sent) (hasked : t.asked = m.asked)
    (hclients : t.notifyClients = m.notifyClients) (hregistered : t.registered = m.registered)
    (hreturned : ∀ q ∈ t.returned, q ∈ m.returned ∨ t.HasReply q.2.reqId q.2.result q.2.msg)
    (hheap : ∀ q g, t.heap q = some g → Like m t q g) : Traced t := by
  obtain ⟨l, hl, hnone⟩ := hhandled
  have hsubset : m.handledEvents ⊆ t.handledEvents := hl ▸ List.subset_append_left _ _
  have hstartedSubset : m.started ⊆ t.started := hstarted ▸ List.Subset.refl _
  have hfiber := fun q g hg => h.fiber hsubset hstartedSubset (hheap q g hg)
  refine ⟨hsound, ?_, ?_, fun q g hg => (hfiber q g hg).1, fun s hs => ?_, ?_, fun q hq => ?_,
    fun q g hg => (hfiber q g hg).2, ?_, fun q hq => ?_⟩
  · have hempty : l.filter (fun e => (m.fiberOf e).isSome) = [] :=
      List.filter_eq_nil_iff.mpr fun e he => by simp [hnone e he]
    rw [ModuleState.startedEvents, hstarted, hl, hfiberOf, List.filter_append, hempty,
      List.append_nil]
    exact h.starts
  · rw [hstarted, hnext]
    exact h.numbers
  · exact (h.sent s (hsent ▸ hs)).mono hidx hstartedSubset (hregistered ▸ List.Subset.refl _)
  · rw [hasked, hsent, hidx]
    exact h.asked
  · exact (hreturned q hq).elim (fun hold => (h.returned q hold).mono hsubset) id
  · rw [hclients, hregistered]
    exact h.clients
  · obtain ⟨reqId, hreq⟩ := h.registered q (hregistered ▸ hq)
    exact ⟨reqId, hreq.mono hstartedSubset⟩

theorem calls (h : Traced m) (hidx : t.idx = m.idx) (hfiberOf : t.fiberOf = m.fiberOf)
    (hbox : t.box = m.box)
    (hstarted : t.started = m.started) (hnext : t.nextFiber = m.nextFiber)
    (hsent : ∃ l, t.sent = m.sent ++ l ∧ ∀ s ∈ l, t.IsCaused s)
    (hasked : ∀ q ∈ t.asked, q ∈ m.asked ∨
      ∃ dest seqIdx msg, ⟨q.1, dest, .start seqIdx q.2 (some t.idx) msg⟩ ∈ t.sent)
    (hregistered : m.registered ⊆ t.registered)
    (hnew : ∀ q ∈ t.registered, q ∈ m.registered ∨ ∃ reqId, m.HasStarted q.1 q.2.listenerModule reqId)
    (hclients : ∀ nc ∈ t.notifyClients, nc ∈ m.notifyClients ∨ ∃ q, (q, nc) ∈ t.registered)
    (hreturned : ∀ q ∈ t.returned, q ∈ m.returned ∨ t.HasReply q.2.reqId q.2.result q.2.msg)
    (hheap : ∀ q g, t.heap q = some g → Like m t q g) : Traced t := by
  obtain ⟨l, hl, hcaused⟩ := hsent
  have hevents : t.handledEvents = m.handledEvents := by
    rw [ModuleState.handledEvents, hbox, ModuleState.handledEvents]
  have hsubset : m.handledEvents ⊆ t.handledEvents := hevents ▸ List.Subset.refl _
  have hstartedSubset : m.started ⊆ t.started := hstarted ▸ List.Subset.refl _
  have hfiber := fun q g hg => h.fiber hsubset hstartedSubset (hheap q g hg)
  refine ⟨hbox ▸ h.sound, ?_, ?_, fun q g hg => (hfiber q g hg).1, fun s hs => ?_, fun q hq => ?_,
    fun q hq => ?_, fun q g hg => (hfiber q g hg).2, fun nc hnc => ?_, fun q hq => ?_⟩
  · rw [hevents, hfiberOf, ModuleState.startedEvents, hstarted]
    exact h.starts
  · rw [hstarted, hnext]
    exact h.numbers
  · rw [hl, List.mem_append] at hs
    exact hs.elim (fun hold => (h.sent s hold).mono hidx hstartedSubset hregistered) (hcaused s)
  · rcases hasked q hq with hold | hnew
    · obtain ⟨dest, seqIdx, msg, hmem⟩ := h.asked q hold
      refine ⟨dest, seqIdx, msg, ?_⟩
      rw [hidx, hl]
      exact List.mem_append_left _ hmem
    · exact hnew
  · exact (hreturned q hq).elim (fun hold => (h.returned q hold).mono hsubset) id
  · rcases hclients nc hnc with hold | hnew
    · exact (h.clients nc hold).imp fun _ hq => hregistered hq
    · exact hnew
  · obtain ⟨reqId, hreq⟩ := (hnew q hq).elim (h.registered q) id
    exact ⟨reqId, hreq.mono hstartedSubset⟩

/-! ## The steps -/

theorem caused_start {q dest : ℕ} {seqIdx : UInt8} {reqId : UInt32} {msg : List UInt8} :
    ∀ s ∈ [(⟨q, dest, .start seqIdx reqId (some m.idx) msg⟩ : Sent)], m.IsCaused s := by
  intro s hs
  obtain rfl := List.mem_singleton.mp hs
  exact rfl

theorem call (h : Traced m) (hp : m.heap p = some f) (c : Call) : Traced (m.call p f c) := by
  cases c with
  | request dest seqIdx msg timeout =>
    refine h.calls rfl rfl rfl rfl rfl ⟨_, rfl, caused_start⟩ (fun q hq => ?_) (List.Subset.refl _)
      (fun q hq => .inl hq) (fun nc hnc => .inl hnc) (fun q hq => .inl hq) ?_
    · refine (List.mem_append.mp hq).imp_right fun hq => ?_
      obtain rfl := List.mem_singleton.mp hq
      exact ⟨dest, seqIdx, msg, List.mem_append_right _ (List.mem_singleton_self _)⟩
    · refine like_update rfl ?_
      cases timeout <;> exact ⟨f, hp, rfl, rfl, rfl, fun rr hrr => .inl hrr⟩
  | requestAsync dest seqIdx msg =>
    refine h.calls rfl rfl rfl rfl rfl ⟨_, rfl, caused_start⟩ (fun q hq => ?_) (List.Subset.refl _)
      (fun q hq => .inl hq) (fun nc hnc => .inl hnc) (fun q hq => .inl hq)
      (like_update rfl ⟨f, hp, rfl, rfl, rfl, fun rr hrr => .inl hrr⟩)
    refine (List.mem_append.mp hq).imp_right fun hq => ?_
    obtain rfl := List.mem_singleton.mp hq
    exact ⟨dest, seqIdx, msg, List.mem_append_right _ (List.mem_singleton_self _)⟩
  | waitReply =>
    show Traced (m.waitReply p f)
    unfold ModuleState.waitReply
    split_ifs
    · exact h
    split
    · exact h.calls rfl rfl rfl rfl rfl ⟨[], (List.append_nil _).symm, by simp⟩ (fun q hq => .inl hq)
        (List.Subset.refl _) (fun q hq => .inl hq) (fun nc hnc => .inl hnc) (fun q hq => .inl hq)
        (like_update rfl ⟨f, hp, rfl, rfl, rfl, fun rr hrr => .inl hrr⟩)
    · rename_i rr rq hrq
      refine h.calls rfl rfl rfl rfl rfl ⟨[], (List.append_nil _).symm, by simp⟩ (fun q hq => .inl hq)
        (List.Subset.refl _) (fun q hq => .inl hq) (fun nc hnc => .inl hnc) (fun q hq => ?_)
        (like_update rfl ⟨f, hp, rfl, rfl, rfl, fun rr' hrr' => .inl ?_⟩)
      · refine (List.mem_append.mp hq).imp_right fun hq => ?_
        obtain rfl := List.mem_singleton.mp hq
        rw [Fiber.dequeued, Source.msg_set]
        exact h.queued p f hp rr (hrq ▸ List.mem_cons_self)
      · rw [hrq]
        exact List.mem_cons_of_mem _ hrr'
  | send dest seqIdx msg =>
    exact h.calls rfl rfl rfl rfl rfl ⟨_, rfl, caused_start⟩ (fun q hq => .inl hq) (List.Subset.refl _)
      (fun q hq => .inl hq) (fun nc hnc => .inl hnc) (fun q hq => .inl hq) (like_same rfl)
  | reply result msg =>
    show Traced (m.reply p f result msg)
    unfold ModuleState.reply
    split
    · exact h
    · rename_i i hto
      refine h.calls rfl rfl rfl rfl rfl ⟨_, rfl, fun s hs => ?_⟩ (fun q hq => .inl hq)
        (List.Subset.refl _) (fun q hq => .inl hq) (fun nc hnc => .inl hnc) (fun q hq => .inl hq) (like_same rfl)
      obtain rfl := List.mem_singleton.mp hs
      exact ⟨rfl, h.hasStarted hp hto⟩
  | waitTimeout now msec =>
    exact h.calls rfl rfl rfl rfl rfl ⟨[], (List.append_nil _).symm, by simp⟩ (fun q hq => .inl hq)
      (List.Subset.refl _) (fun q hq => .inl hq) (fun nc hnc => .inl hnc) (fun q hq => .inl hq)
      (like_update rfl ⟨f, hp, rfl, rfl, rfl, fun rr hrr => .inl hrr⟩)
  | regNotify category clientId =>
    show Traced (m.regNotify p f category clientId)
    unfold ModuleState.regNotify
    split
    · exact h
    · rename_i i hto
      refine h.calls rfl rfl rfl rfl rfl ⟨[], (List.append_nil _).symm, by simp⟩ (fun q hq => .inl hq)
        (List.subset_append_left _ _) (fun q hq => ?_) (fun nc hnc => ?_) (fun q hq => .inl hq) (like_same rfl)
      · refine (List.mem_append.mp hq).imp_right fun hq => ?_
        obtain rfl := List.mem_singleton.mp hq
        exact ⟨_, h.hasStarted hp hto⟩
      · rcases List.mem_cons.mp hnc with rfl | hnc
        · exact .inr ⟨p, List.mem_append_right _ (List.mem_singleton_self _)⟩
        · exact .inl hnc
  | unregNotify category clientId =>
    exact h.calls rfl rfl rfl rfl rfl ⟨[], (List.append_nil _).symm, by simp⟩ (fun q hq => .inl hq)
      (List.Subset.refl _) (fun q hq => .inl hq) (fun nc hnc => .inl (List.mem_of_mem_eraseP hnc))
      (fun q hq => .inl hq) (like_same rfl)
  | notify category msg =>
    refine h.calls rfl rfl rfl rfl rfl ⟨_, rfl, fun s hs => ?_⟩ (fun q hq => .inl hq)
      (List.Subset.refl _) (fun q hq => .inl hq) (fun nc hnc => .inl hnc) (fun q hq => .inl hq) (like_same rfl)
    obtain ⟨nc, hnc, rfl⟩ := List.mem_map.mp hs
    obtain ⟨hmem, hcategory⟩ := List.mem_filter.mp hnc
    obtain rfl : nc.category = category := by simpa using hcategory
    exact ⟨rfl, h.clients nc hmem⟩
  | lock =>
    exact h.calls rfl rfl rfl rfl rfl ⟨[], (List.append_nil _).symm, by simp⟩ (fun q hq => .inl hq)
      (List.Subset.refl _) (fun q hq => .inl hq) (fun nc hnc => .inl hnc) (fun q hq => .inl hq) (like_same rfl)
  | unlock =>
    exact h.calls rfl rfl rfl rfl rfl ⟨[], (List.append_nil _).symm, by simp⟩ (fun q hq => .inl hq)
      (List.Subset.refl _) (fun q hq => .inl hq) (fun nc hnc => .inl hnc) (fun q hq => .inl hq) (like_same rfl)
  | exit =>
    exact h.calls rfl rfl rfl rfl rfl ⟨[], (List.append_nil _).symm, by simp⟩ (fun q hq => .inl hq)
      (List.Subset.refl _) (fun q hq => .inl hq) (fun nc hnc => .inl hnc) (fun q hq => .inl hq)
      (like_update rfl ⟨f, hp, rfl, rfl, rfl, fun rr hrr => .inl hrr⟩)

theorem handled_next {x : Letter Event} {rest : List (Letter Event)} (hn : Next m x rest)
    (hbox : t.box = m.box.handleNext) : t.handledEvents = m.handledEvents ++ [x.body] := by
  rw [ModuleState.handledEvents, hbox, Mailbox.handleNext_handled hn.batch, List.map_append]
  rfl

theorem start (h : Traced m) {x : Letter Event} {rest : List (Letter Event)} (hn : Next m x rest)
    (hf : m.fiberOf x.body = some f) :
    Traced ({ m with box := m.box.handleNext }.newFiber x.body f) := by
  obtain ⟨horigin, hof⟩ := isOf_of_fiberOf hf
  have hrq : f.rq = [] := by
    obtain ⟨_, _, _, _, _, _, _, rfl⟩ := exists_of_fiberOf hf
    rfl
  set t := ({ m with box := m.box.handleNext } : ModuleState).newFiber x.body f with ht
  have hevents : t.handledEvents = m.handledEvents ++ [x.body] := handled_next hn rfl
  have hstarted : t.started = m.started ++ [(m.nextFiber, x.body)] := rfl
  have hsubset : m.handledEvents ⊆ t.handledEvents := hevents ▸ List.subset_append_left _ _
  have hstartedSubset : m.started ⊆ t.started := hstarted ▸ List.subset_append_left _ _
  have hheap : t.heap = Function.update m.heap m.nextFiber (some f.resumed) := rfl
  refine ⟨h.sound.handleNext hn.batch, ?_, ?_, fun q g hg => ?_, fun s hs => ?_, h.asked,
    fun q hq => (h.returned q hq).mono hsubset, fun q g hg => ?_, h.clients, fun q hq => ?_⟩
  · have hone : [x.body].filter (fun e => (t.fiberOf e).isSome) = [x.body] := by
      have hf' : t.fiberOf x.body = some f := hf
      simp [hf']
    rw [hevents, ModuleState.startedEvents, hstarted, List.map_append, List.filter_append, hone]
    exact congrArg (· ++ [x.body]) h.starts
  · rw [hstarted, List.map_append, h.numbers]
    exact List.range_succ.symm
  · rw [hheap, Function.update_apply] at hg
    split_ifs at hg with heq
    · cases hg
      refine ⟨?_, hof.of_eq rfl rfl rfl⟩
      rw [hstarted, heq]
      exact List.mem_append_right _ (List.mem_singleton.mpr (congrArg (Prod.mk _) horigin))
    · obtain ⟨hmem, hg⟩ := h.origin q g hg
      exact ⟨hstartedSubset hmem, hg⟩
  · exact (h.sent s hs).mono rfl hstartedSubset (List.Subset.refl _)
  · rw [hheap, Function.update_apply] at hg
    split_ifs at hg with heq
    · cases hg
      intro rr hrr
      have hrr : rr ∈ f.rq := hrr
      rw [hrq] at hrr
      cases hrr
    · exact fun rr hrr => (h.queued q g hg rr hrr).mono hsubset
  · obtain ⟨reqId, hreq⟩ := h.registered q hq
    exact ⟨reqId, hreq.mono hstartedSubset⟩

theorem move (h : Traced m) (hbatch : m.phase = .top → m.box.batch = []) (ht : Move m op t) :
    Traced t := by
  have hsame : ∃ l, m.handledEvents = m.handledEvents ++ l ∧ ∀ e ∈ l, m.fiberOf e = none :=
    ⟨[], (List.append_nil _).symm, by simp⟩
  have hnext : ∀ {s : ModuleState} {x : Letter Event} {rest : List (Letter Event)}, Next m x rest →
      s.box = m.box.handleNext → m.fiberOf x.body = none →
      ∃ l, s.handledEvents = m.handledEvents ++ l ∧ ∀ e ∈ l, m.fiberOf e = none :=
    fun hn hbox hnone => ⟨_, handled_next hn hbox, by simpa using hnone⟩
  cases ht with
  | arrive e =>
    exact h.loop rfl rfl (h.sound.post e) hsame rfl rfl rfl rfl rfl rfl (fun q hq => .inl hq) (like_same rfl)
  | take now hcurrent hphase =>
    refine h.loop rfl rfl (h.sound.take (hbatch hphase) _) ?_ rfl rfl rfl rfl rfl rfl
      (fun q hq => .inl hq) (like_same rfl)
    refine ⟨[], ?_, by simp⟩
    rw [ModuleState.handledEvents, ModuleState.take_box, Mailbox.take_handled, List.append_nil]
    rfl
  | visited now hcurrent hphase =>
    exact h.loop rfl rfl h.sound hsame rfl rfl rfl rfl rfl rfl (fun q hq => .inl hq) (like_same rfl)
  | dangling now p left hv hp =>
    exact h.loop rfl rfl h.sound hsame rfl rfl rfl rfl rfl rfl (fun q hq => .inl hq) (like_same rfl)
  | skip now p left f hv hp hdue =>
    exact h.loop rfl rfl h.sound hsame rfl rfl rfl rfl rfl rfl (fun q hq => .inl hq) (like_same rfl)
  | timeout now p left f hv hp hdue hreply =>
    exact h.loop rfl rfl h.sound hsame rfl rfl rfl rfl rfl rfl (fun q hq => .inl hq)
      (like_update rfl ⟨f, hp, rfl, rfl, rfl, fun rr hrr => .inl hrr⟩)
  | wake now p left f hv hp hdue hreply =>
    exact h.loop rfl rfl h.sound hsame rfl rfl rfl rfl rfl rfl (fun q hq => .inl hq)
      (like_update rfl ⟨f, hp, rfl, rfl, rfl, fun rr hrr => .inl hrr⟩)
  | defer x rest hn hdefer =>
    exact h.loop rfl rfl h.sound.deferNext hsame rfl rfl rfl rfl rfl rfl (fun q hq => .inl hq) (like_same rfl)
  | ignore x rest hn hnone hreply hdefer =>
    exact h.loop rfl rfl (h.sound.handleNext hn.batch) (hnext hn rfl hnone) rfl rfl rfl rfl rfl rfl
      (fun q hq => .inl hq) (like_same rfl)
  | start x rest f hn hf hlock => exact h.start hn hf
  | lost x rest hn reqId i r msg p hr hp =>
    exact h.loop rfl rfl (h.sound.handleNext hn.batch) (hnext hn rfl (hr.event ▸ rfl)) rfl rfl rfl rfl
      rfl rfl
      (fun q hq => .inl hq) (like_same rfl)
  | answer x rest hn reqId i r msg p f hr hp hwait =>
    refine h.loop rfl rfl (h.sound.handleNext hn.batch) (hnext hn rfl (hr.event ▸ rfl)) rfl rfl rfl rfl
      rfl rfl
      (fun q hq => ?_) (like_update rfl ⟨f, hp, rfl, rfl, rfl, fun rr hrr => .inl hrr⟩)
    refine (List.mem_append.mp hq).imp_right fun hq => ⟨i, ?_⟩
    obtain rfl := List.mem_singleton.mp hq
    rw [Source.msg_set, handled_next hn rfl, hr.event]
    exact List.mem_append_right _ (List.mem_singleton_self _)
  | queue x rest hn reqId i r msg p f hr hp hany hwait =>
    refine h.loop rfl rfl (h.sound.handleNext hn.batch) (hnext hn rfl (hr.event ▸ rfl)) rfl rfl rfl rfl
      rfl rfl
      (fun q hq => .inl hq) (like_update rfl ⟨f, hp, rfl, rfl, rfl, fun rr hrr => ?_⟩)
    refine (List.mem_append.mp hrr).imp_right fun hrr => ⟨i, ?_⟩
    obtain rfl := List.mem_singleton.mp hrr
    rw [handled_next hn rfl, hr.event]
    exact List.mem_append_right _ (List.mem_singleton_self _)
  | reap hcurrent hphase hbatch =>
    refine h.loop rfl rfl h.sound hsame rfl rfl rfl rfl rfl rfl (fun q hq => .inl hq) fun q g hg => ?_
    rw [ModuleState.reapDone_heap] at hg
    split_ifs at hg
    exact like_refl hg
  | call p f c hcurrent hp => exact h.call hp c

end Traced

/-- The loop takes events when it has gone through those before. -/
theorem batch_of_top {ok : ModuleState → Op → Prop} {idx nrSeq : ℕ} {recvNotify : Bool}
    (h : Reach ModuleState.step ok (.initial idx nrSeq recvNotify) m) :
    m.phase = .top → m.box.batch = [] := by
  refine h.inv (fun s => s.phase = .top → s.box.batch = []) (fun _ => rfl) fun s op t hs _ ht => ?_
  have hmove := ModuleState.move_of_step ht
  cases hmove with
  | arrive e => exact hs
  | reap hcurrent hphase hbatch => exact fun _ => hbatch
  | call p f c hcurrent hp =>
    obtain ⟨hphase, hbox⟩ := call_loop (m := s) p f c
    rw [hphase, hbox]
    exact hs
  | take => exact fun hphase => by simp at hphase
  | visited | dangling | skip | timeout | wake =>
    exact fun hphase => by simp [ModuleState.resume] at hphase
  | defer x rest hn | ignore x rest hn | start x rest f hn | lost x rest hn | answer x rest hn
  | queue x rest hn =>
    exact fun hphase => by
      have hphase : s.phase = .top := hphase
      rw [hn.phase] at hphase
      cases hphase

theorem traced_initial (idx nrSeq : ℕ) (recvNotify : Bool) :
    Traced (.initial idx nrSeq recvNotify) :=
  ⟨Mailbox.sound_empty, rfl, rfl, by simp [ModuleState.initial], by simp [ModuleState.initial],
    by simp [ModuleState.initial], by simp [ModuleState.initial], by simp [ModuleState.initial],
    by simp [ModuleState.initial], by simp [ModuleState.initial]⟩

/-- **What a module has sent, and why**, in every state reached. -/
theorem traced_of_reach {ok : ModuleState → Op → Prop} {idx nrSeq : ℕ} {recvNotify : Bool}
    (h : Reach ModuleState.step ok (.initial idx nrSeq recvNotify) m) : Traced m :=
  h.inv₂ (fun s => s.phase = .top → s.box.batch = []) Traced (fun _ hs => batch_of_top hs)
    (traced_initial ..) fun _ _ _ hbatch _ hs _ ht => hs.move hbatch (ModuleState.move_of_step ht)

/-- **Events that are never deferred are handled in the order of their arrival**. -/
theorem inOrder_of_reach {ok : ModuleState → Op → Prop} {idx nrSeq : ℕ} {recvNotify : Bool}
    {p : Event → Bool} (hp : ∀ s e, ModuleState.defers s e = true → p e = false)
    (h : Reach ModuleState.step ok (.initial idx nrSeq recvNotify) m) : m.box.InOrder p := by
  refine h.inv₂ (fun s => s.phase = .top → s.box.batch = []) (fun s => s.box.InOrder p)
    (fun _ hs => batch_of_top hs) Mailbox.inOrder_empty fun s op t hbatch _ hs _ ht => ?_
  have hmove := ModuleState.move_of_step ht
  cases hmove with
  | arrive e => exact hs.post e
  | take now hcurrent hphase => exact hs.take (hbatch hphase) _
  | defer x rest hn hdefer => exact hs.deferNext hn.batch (hp s x.body hdefer)
  | ignore x rest hn | start x rest f hn | lost x rest hn | answer x rest hn | queue x rest hn =>
    exact hs.handleNext hn.batch
  | visited | dangling | skip | timeout | wake | reap => exact hs
  | call p f c hcurrent hp =>
    rw [(call_loop (m := s) p f c).2]
    exact hs

/-- **No event is lost, or handled twice.** A sequence has been started for each event that starts
one, and what overtakes an event finds it deferred. -/
theorem events_kept {idx nrSeq : ℕ} {recvNotify : Bool}
    (h : Reach ModuleState.step anyStep (.initial idx nrSeq recvNotify) m) :
    (m.handledEvents ++ m.box.waiting.map Letter.body).Perm m.box.arrived ∧
      m.startedEvents = m.handledEvents.filter (fun e => (m.fiberOf e).isSome) ∧
      ∀ x rest, m.box.batch = x :: rest → ∀ n < x.arrival,
        n ∈ m.box.handled.map Letter.arrival ∨ n ∈ m.box.deferred.map Letter.arrival := by
  have htraced := traced_of_reach h
  exact ⟨htraced.sound.perm_arrived, htraced.starts,
    fun x rest hbatch n hn => htraced.sound.overtaken hbatch hn⟩

/-- A notification overtakes a request, as the module is locked. -/
def overtaking : List Op := [
  .arrive (.start 0 1 none []), .take .zero, .timer, .handle, .call .lock,
  .call (.request 1 0 [] none), .arrive (.start 0 2 none []), .reap, .take .zero, .timer,
  .timer, .handle, .arrive (.notify 1 0 0 []), .reap, .take .zero, .timer, .timer]

theorem events_kept_overtaking : ∃ m : ModuleState, m.box.batch.map Letter.arrival = [2] ∧
    m.box.handled.map Letter.arrival = [0] ∧
    (m.handledEvents ++ m.box.waiting.map Letter.body).Perm m.box.arrived ∧
      m.startedEvents = m.handledEvents.filter (fun e => (m.fiberOf e).isSome) ∧
      ∀ x rest, m.box.batch = x :: rest → ∀ n < x.arrival,
        n ∈ m.box.handled.map Letter.arrival ∨ n ∈ m.box.deferred.map Letter.arrival := by
  have hrun : (exec ModuleState.step (.initial 0 1 true) overtaking).map (fun m =>
      (m.box.batch.map Letter.arrival, m.box.handled.map Letter.arrival)) = some ([2], [0]) := by
    decide
  obtain ⟨m, hm, hstate⟩ := Option.map_eq_some_iff.mp hrun
  obtain ⟨hbatch, hhandled⟩ := Prod.mk.inj hstate
  exact ⟨m, hbatch, hhandled, events_kept (reach_of_exec hm)⟩

end Coseq

end AutoRec
