import AutoRec.Coseq.Fibers
import Mathlib.Data.List.Nodup

/-!
# The requests of a sequence

Each request that a sequence has made is in one place: its reply is awaited, lies in the queue of the
sequence, or has been given to it, or its time has run out.

* `awaited`, `queued`, `answered`, `expired`, `askedBy`: the places, and all requests.
* `Numbered`: the numbers of the requests, of 32 bits, have not come round to 0.
* `Accounts`, `accounts_of_reach`.
-/

namespace AutoRec

namespace Coseq

open Machine

/-- The number of a request. -/
def Event.startId : Event → Option UInt32
  | .start _ reqId _ _ => some reqId
  | _ => none

namespace ModuleState

variable (m : ModuleState) (p : ℕ)

/-- The requests of a fiber of which the reply is awaited. -/
def awaited : List UInt32 := (m.pending.filter fun q => q.2 == p).map Prod.fst

/-- The requests of which the reply lies in the queue of the fiber. -/
def queued : List UInt32 := ((m.heap p).elim [] Fiber.rq).map ReplyRec.reqId

/-- The requests of which the fiber has been given the reply. -/
def answered : List UInt32 := (m.returned.filter fun q => q.1 == p).map fun q => q.2.reqId

/-- The requests of the fiber of which the time has run out. -/
def expired : List UInt32 := (m.timedOut.filter fun q => q.1 == p).map Prod.snd

/-- The requests of the fiber. -/
def askedBy : List UInt32 := (m.asked.filter fun q => q.1 == p).map Prod.snd

/-- In how many places a request of a fiber is. -/
def tally (reqId : UInt32) : ℕ :=
  (m.awaited p).count reqId + (m.queued p).count reqId + (m.answered p).count reqId +
    (m.expired p).count reqId

/-- The numbers of the requests that have been posted. -/
def startIds : List UInt32 := m.sent.filterMap fun s => s.event.startId

end ModuleState

/-- The call takes a number. -/
def Call.asks : Call → Bool
  | .request .. | .requestAsync .. | .send .. => true
  | _ => false

/-- The numbers of the requests have not run out. -/
def Numbered (m : ModuleState) : Op → Prop
  | .call c => c.asks = true → m.nextReqId ≠ 0
  | _ => True

instance (m : ModuleState) (op : Op) : Decidable (Numbered m op) :=
  match op with
  | .call c => inferInstanceAs (Decidable (c.asks = true → m.nextReqId ≠ 0))
  | .arrive _ | .take _ | .timer | .handle | .reap => isTrue trivial

/-- **The requests are accounted for.** -/
structure Accounts (m : ModuleState) : Prop where
  le : ∀ p reqId, m.tally p reqId ≤ (m.askedBy p).count reqId
  eq : ∀ p ∈ m.fibers, ∀ reqId, m.tally p reqId = (m.askedBy p).count reqId
  lt : ∀ q ∈ m.asked, q.1 < m.nextFiber
  asked : (m.asked.map Prod.snd).Sublist m.startIds
  nodup : m.startIds.Nodup
  fresh : m.nextReqId ≠ 0 → ∀ reqId ∈ m.startIds, reqId.toNat < m.nextReqId.toNat
  waiting : ∀ p f, m.heap p = some f → f.waitingReply = true → f.waitReqId ∈ m.awaited p
  outstanding : ∀ p f, m.heap p = some f →
    f.asyncOutstanding + (if f.waitingReply then 1 else 0) = (m.awaited p).length + f.rq.length

variable {m t : ModuleState} {p q : ℕ} {f : Fiber} {op : Op} {reqId r : UInt32}

namespace ModuleState

/-! ## The places -/

theorem mem_awaited : reqId ∈ m.awaited p ↔ (reqId, p) ∈ m.pending := by
  simp [awaited]

theorem mem_askedBy : reqId ∈ m.askedBy p ↔ (p, reqId) ∈ m.asked := by
  simp [askedBy]

theorem queued_of_heap (hp : m.heap p = some f) : m.queued p = f.rq.map ReplyRec.reqId := by
  rw [queued, hp]
  rfl

theorem awaited_pendingAdd :
    (m.pendingAdd reqId p).awaited q = if q = p then reqId :: m.awaited q else m.awaited q := by
  simp only [awaited, pendingAdd_pending, List.filter_cons, beq_iff_eq, @eq_comm _ p]
  split_ifs <;> rfl

theorem askedBy_pendingAdd :
    (m.pendingAdd reqId p).askedBy q = if q = p then m.askedBy q ++ [reqId] else m.askedBy q := by
  simp only [askedBy, pendingAdd_asked, List.filter_append, List.map_append, List.filter_cons,
    List.filter_nil, beq_iff_eq, @eq_comm _ p]
  split_ifs <;> simp

theorem awaited_pendingTake (hpeek : m.pendingPeek reqId = some p) :
    (m.awaited p).Perm (reqId :: (m.pendingTake reqId).awaited p) ∧
      ∀ q, q ≠ p → (m.pendingTake reqId).awaited q = m.awaited q := by
  obtain ⟨x, hx, rfl⟩ := Option.map_eq_some_iff.mp hpeek
  obtain ⟨hid, front, behind, hpending, hfront⟩ := List.find?_eq_some_iff_append.mp hx
  have hx1 : x.1 = reqId := by simpa using hid
  have htake : m.pending.eraseP (fun q => q.1 == reqId) = front ++ behind := by
    rw [hpending, List.eraseP_append_right _ (fun y hy => by simpa using hfront y hy)]
    simp [hx1]
  constructor
  · simp only [awaited, pendingTake_pending, htake]
    rw [hpending]
    simp [hx1, List.perm_middle]
  · intro q hq
    simp only [awaited, pendingTake_pending, htake]
    rw [hpending]
    simp [Ne.symm hq]

theorem answered_append {s : Source} (hl : t.returned = m.returned ++ [(p, s)])
    (hs : s.reqId = reqId) :
    t.answered q = if q = p then m.answered q ++ [reqId] else m.answered q := by
  simp only [answered, hl, List.filter_append, List.map_append, List.filter_cons, List.filter_nil,
    beq_iff_eq, @eq_comm _ p, ← hs]
  split_ifs <;> simp

theorem expired_append (hl : t.timedOut = m.timedOut ++ [(p, reqId)]) :
    t.expired q = if q = p then m.expired q ++ [reqId] else m.expired q := by
  simp only [expired, hl, List.filter_append, List.map_append, List.filter_cons, List.filter_nil,
    beq_iff_eq, @eq_comm _ p]
  split_ifs <;> simp

theorem startIds_append {l : List Sent} (hsent : t.sent = m.sent ++ l) :
    t.startIds = m.startIds ++ l.filterMap fun s => s.event.startId := by
  rw [startIds, hsent, List.filterMap_append]
  rfl

theorem startIds_postStart {dest : ℕ} {seqIdx : UInt8} {msg : List UInt8} :
    (m.postStart p dest seqIdx msg).startIds = m.startIds ++ [m.nextReqId] :=
  startIds_append (m := m) (postStart_sent ..)

theorem startIds_reply {result : CoseqResult} {msg : List UInt8} :
    (m.reply p f result msg).startIds = m.startIds := by
  unfold reply
  split
  · rfl
  · rw [startIds_append (m := m) rfl]
    exact List.append_nil _

theorem startIds_notify {category : UInt8} {msg : List UInt8} :
    (m.notify p category msg).startIds = m.startIds := by
  rw [startIds_append (m := m) rfl, List.filterMap_map]
  refine (congrArg (m.startIds ++ ·) ?_).trans (List.append_nil _)
  exact List.filterMap_eq_nil_iff.mpr fun _ _ => rfl

end ModuleState

/-! ## The accounts -/

theorem toNat_succ_of_ne {n : UInt32} (hne : n + 1 ≠ 0) : (n + 1).toNat = n.toNat + 1 := by
  have hne' : (n + 1).toNat ≠ 0 := fun h0 => hne (UInt32.toNat_inj.mp h0)
  have hlt := n.toNat_lt
  have hone : (1 : UInt32).toNat = 1 := rfl
  rw [UInt32.toNat_add] at hne' ⊢
  omega

theorem accounts_initial (idx nrSeq : ℕ) (recvNotify : Bool) :
    Accounts (.initial idx nrSeq recvNotify) := by
  refine ⟨fun p r => ?_, fun p hp => ?_, fun q hq => ?_, ?_, ?_, fun _ r hr => ?_, fun p f hp => ?_,
    fun p f hp => ?_⟩
  · exact le_refl _
  · simp [ModuleState.initial] at hp
  · simp [ModuleState.initial] at hq
  · exact .refl _
  · exact .nil
  · simp [ModuleState.initial, ModuleState.startIds] at hr
  · simp [ModuleState.initial] at hp
  · simp [ModuleState.initial] at hp

namespace Accounts

theorem of_eq (h : Accounts m) (hheap : t.heap = m.heap) (hfibers : t.fibers = m.fibers)
    (hnext : t.nextFiber = m.nextFiber) (hpending : t.pending = m.pending) (hasked : t.asked = m.asked)
    (hreturned : t.returned = m.returned) (htimedOut : t.timedOut = m.timedOut)
    (hstart : t.startIds = m.startIds) (hid : t.nextReqId = m.nextReqId) : Accounts t := by
  have hawaited : t.awaited = m.awaited := by
    funext p
    rw [ModuleState.awaited, hpending, ModuleState.awaited]
  have haskedBy : t.askedBy = m.askedBy := by
    funext p
    rw [ModuleState.askedBy, hasked, ModuleState.askedBy]
  have htally : t.tally = m.tally := by
    funext p r
    simp only [ModuleState.tally, ModuleState.queued, ModuleState.answered, ModuleState.expired,
      hawaited, hheap, hreturned, htimedOut]
  refine ⟨?_, ?_, ?_, ?_, ?_, ?_, ?_, ?_⟩
  · rw [htally, haskedBy]
    exact h.le
  · rw [hfibers, htally, haskedBy]
    exact h.eq
  · rw [hasked, hnext]
    exact h.lt
  · rw [hasked, hstart]
    exact h.asked
  · rw [hstart]
    exact h.nodup
  · rw [hid, hstart]
    exact h.fresh
  · rw [hheap, hawaited]
    exact h.waiting
  · rw [hheap, hawaited]
    exact h.outstanding

theorem askedBy_eq_nil (h : Accounts m) (hp : m.nextFiber ≤ p) : m.askedBy p = [] := by
  rw [List.eq_nil_iff_forall_not_mem]
  intro r hr
  exact absurd (h.lt _ (ModuleState.mem_askedBy.mp hr)) (by simpa using hp)

theorem awaited_eq_nil (h : Accounts m) (hp : m.nextFiber ≤ p) : m.awaited p = [] := by
  rw [List.eq_nil_iff_forall_not_mem]
  intro r hr
  have hle := h.le p r
  rw [h.askedBy_eq_nil hp, List.count_nil, ModuleState.tally] at hle
  have := List.count_pos_iff.mpr hr
  omega

theorem mem_asked (h : Accounts m) (hr : reqId ∈ m.awaited p) : (p, reqId) ∈ m.asked := by
  have hle := h.le p reqId
  have hpos := List.count_pos_iff.mpr hr
  rw [ModuleState.tally] at hle
  exact ModuleState.mem_askedBy.mp (List.count_pos_iff.mp (by omega))

theorem nodup_asked (h : Accounts m) : (m.asked.map Prod.snd).Nodup := h.nodup.sublist h.asked

theorem asked_unique (h : Accounts m) (hp : (p, reqId) ∈ m.asked) (hq : (q, reqId) ∈ m.asked) :
    p = q := by
  have heq := List.inj_on_of_nodup_map h.nodup_asked hp hq rfl
  exact congrArg Prod.fst heq

theorem count_askedBy (h : Accounts m) : (m.askedBy p).count reqId ≤ 1 :=
  List.nodup_iff_count_le_one.mp ((h.nodup_asked).sublist (List.filter_sublist.map _)) _

theorem peek_of_awaited (h : Accounts m) (hr : reqId ∈ m.awaited p) :
    m.pendingPeek reqId = some p := by
  have hmem := ModuleState.mem_awaited.mp hr
  cases hfind : m.pending.find? fun q => q.1 == reqId with
  | none =>
    rw [List.find?_eq_none] at hfind
    exact absurd (hfind _ hmem) (by simp)
  | some x =>
    have hx : x.1 = reqId := by simpa using List.find?_some hfind
    have hxmem : (reqId, x.2) ∈ m.pending := by
      rw [← hx]
      exact List.mem_of_find?_eq_some hfind
    have hown := h.mem_asked (ModuleState.mem_awaited.mpr hxmem)
    rw [ModuleState.pendingPeek, hfind, Option.map_some,
      h.asked_unique hown (h.mem_asked hr)]

theorem mem_of_peek (hpeek : m.pendingPeek reqId = some p) : reqId ∈ m.awaited p :=
  (ModuleState.awaited_pendingTake hpeek).1.symm.subset List.mem_cons_self

/-! ## The parts of a step -/

theorem change (h : Accounts m) {g : Fiber} (hheap : t.heap = Function.update m.heap p (some g))
    (hfibers : t.fibers = m.fibers) (hnext : t.nextFiber = m.nextFiber) (hasked : t.asked = m.asked)
    (hstart : t.startIds = m.startIds) (hid : t.nextReqId = m.nextReqId)
    (hother : ∀ q, q ≠ p → t.awaited q = m.awaited q) (htally : ∀ q r, t.tally q r = m.tally q r)
    (hwaiting : g.waitingReply = true → g.waitReqId ∈ t.awaited p)
    (hout : g.asyncOutstanding + (if g.waitingReply then 1 else 0) =
      (t.awaited p).length + g.rq.length) : Accounts t := by
  have haskedBy : t.askedBy = m.askedBy := by
    funext p
    rw [ModuleState.askedBy, hasked, ModuleState.askedBy]
  refine ⟨fun q r => ?_, fun q hq r => ?_, ?_, ?_, ?_, ?_, fun q g' hg => ?_, fun q g' hg => ?_⟩
  · rw [htally, haskedBy]
    exact h.le q r
  · rw [htally, haskedBy]
    exact h.eq q (hfibers ▸ hq) r
  · rw [hasked, hnext]
    exact h.lt
  · rw [hasked, hstart]
    exact h.asked
  · rw [hstart]
    exact h.nodup
  · rw [hid, hstart]
    exact h.fresh
  · rw [hheap, Function.update_apply] at hg
    split_ifs at hg with heq
    · cases hg
      exact heq ▸ hwaiting
    · rw [hother q heq]
      exact h.waiting q g' hg
  · rw [hheap, Function.update_apply] at hg
    split_ifs at hg with heq
    · cases hg
      exact heq ▸ hout
    · rw [hother q heq]
      exact h.outstanding q g' hg

theorem keep (h : Accounts m) {g : Fiber} (hp : m.heap p = some f)
    (hheap : t.heap = Function.update m.heap p (some g)) (hfibers : t.fibers = m.fibers)
    (hnext : t.nextFiber = m.nextFiber) (hpending : t.pending = m.pending)
    (hasked : t.asked = m.asked) (hreturned : t.returned = m.returned)
    (htimedOut : t.timedOut = m.timedOut) (hstart : t.startIds = m.startIds)
    (hid : t.nextReqId = m.nextReqId) (hrq : g.rq = f.rq) (hreply : g.waitingReply = f.waitingReply)
    (hwait : g.waitReqId = f.waitReqId) (hout : g.asyncOutstanding = f.asyncOutstanding) :
    Accounts t := by
  have hawaited : t.awaited = m.awaited := by
    funext p
    rw [ModuleState.awaited, hpending, ModuleState.awaited]
  refine h.change hheap hfibers hnext hasked hstart hid (fun q _ => by rw [hawaited]) (fun q r => ?_)
    (fun hg => ?_) ?_
  · have hqueued : t.queued q = m.queued q := by
      unfold ModuleState.queued
      rw [hheap, Function.update_apply]
      split_ifs with heq
      · rw [heq, hp, Option.elim_some, Option.elim_some, hrq]
      · rfl
    simp only [ModuleState.tally, ModuleState.answered, ModuleState.expired, hawaited, hqueued,
      hreturned, htimedOut]
  · rw [hawaited, hwait]
    exact h.waiting p f hp (hreply ▸ hg)
  · rw [hawaited, hout, hreply, hrq]
    exact h.outstanding p f hp

/-- A reply is awaited no more. `rq` is what is in the queue of the fiber then, `l` and `l'` are the
requests that it has been answered, or that have expired, at this. -/
theorem settle (h : Accounts m) {g : Fiber} {l k : List UInt32} (hp : m.heap p = some f)
    (hpeek : m.pendingPeek reqId = some p) (hheap : t.heap = Function.update m.heap p (some g))
    (hfibers : t.fibers = m.fibers) (hnext : t.nextFiber = m.nextFiber)
    (hpending : t.pending = (m.pendingTake reqId).pending) (hasked : t.asked = m.asked)
    (hstart : t.startIds = m.startIds) (hid : t.nextReqId = m.nextReqId)
    (hanswered : ∀ q, t.answered q = if q = p then m.answered q ++ l else m.answered q)
    (hexpired : ∀ q, t.expired q = if q = p then m.expired q ++ k else m.expired q)
    (hplace : ∀ r, (f.rq.map ReplyRec.reqId).count r + [reqId].count r =
      (g.rq.map ReplyRec.reqId).count r + l.count r + k.count r)
    (hwaiting : g.waitingReply = true → f.waitingReply = true ∧ g.waitReqId = f.waitReqId ∧
      f.waitReqId ≠ reqId)
    (hout : g.asyncOutstanding + (if g.waitingReply then 1 else 0) - g.rq.length + 1 =
      f.asyncOutstanding + (if f.waitingReply then 1 else 0) - f.rq.length) : Accounts t := by
  obtain ⟨hperm, hother⟩ := ModuleState.awaited_pendingTake hpeek
  have hawaited : t.awaited = (m.pendingTake reqId).awaited := by
    funext q
    rw [ModuleState.awaited, hpending, ModuleState.awaited]
  rw [← hawaited] at hperm hother
  refine h.change hheap hfibers hnext hasked hstart hid hother (fun q r => ?_) (fun hg => ?_) ?_
  · unfold ModuleState.tally
    rw [hanswered q, hexpired q]
    by_cases heq : q = p
    · subst heq
      have hqueued : t.queued q = g.rq.map ReplyRec.reqId := by
        rw [ModuleState.queued, hheap, Function.update_self]
        rfl
      have hcount := hperm.count_eq r
      have hr := hplace r
      rw [List.count_cons] at hcount
      rw [List.count_singleton] at hr
      rw [if_pos rfl, if_pos rfl, hqueued, ModuleState.queued_of_heap hp, List.count_append,
        List.count_append]
      omega
    · have hqueued : t.queued q = m.queued q := by
        rw [ModuleState.queued, hheap, Function.update_of_ne heq, ModuleState.queued]
      rw [if_neg heq, if_neg heq, hqueued, hother q heq]
  · obtain ⟨hf, hwait, hne⟩ := hwaiting hg
    have hmem := hperm.subset (h.waiting p f hp hf)
    rw [hwait]
    exact (List.mem_cons.mp hmem).resolve_left hne
  · have hlen := hperm.length_eq
    have hf := h.outstanding p f hp
    rw [List.length_cons] at hlen
    omega

theorem number (h : Accounts m) (hnum : m.nextReqId ≠ 0) :
    (m.startIds ++ [m.nextReqId]).Nodup ∧ (m.nextReqId + 1 ≠ 0 →
      ∀ r ∈ m.startIds ++ [m.nextReqId], r.toNat < (m.nextReqId + 1).toNat) := by
  have hfresh := h.fresh hnum
  constructor
  · rw [List.nodup_append]
    refine ⟨h.nodup, List.nodup_singleton _, fun r hr r' hr' heq => ?_⟩
    obtain rfl := List.mem_singleton.mp hr'
    exact (hfresh r hr).ne (congrArg UInt32.toNat heq)
  · intro hne r hr
    rw [toNat_succ_of_ne hne]
    rcases List.mem_append.mp hr with hr | hr
    · exact Nat.lt_succ_of_lt (hfresh r hr)
    · exact List.mem_singleton.mp hr ▸ Nat.lt_succ_self _

theorem ask (h : Accounts m) {g : Fiber} (hshape : Shape m) (hp : m.heap p = some f)
    (hnum : m.nextReqId ≠ 0) (hheap : t.heap = Function.update m.heap p (some g))
    (hfibers : t.fibers = m.fibers) (hnext : t.nextFiber = m.nextFiber)
    (hpending : t.pending = (m.pendingAdd m.nextReqId p).pending)
    (hasked : t.asked = (m.pendingAdd m.nextReqId p).asked) (hreturned : t.returned = m.returned)
    (htimedOut : t.timedOut = m.timedOut) (hstart : t.startIds = m.startIds ++ [m.nextReqId])
    (hid : t.nextReqId = m.nextReqId + 1) (hrq : g.rq = f.rq) (hf : f.waitingReply = false)
    (hwaiting : g.waitingReply = true → g.waitReqId = m.nextReqId)
    (hout : g.asyncOutstanding + (if g.waitingReply then 1 else 0) = f.asyncOutstanding + 1) :
    Accounts t := by
  have hawaited : ∀ q, t.awaited q = if q = p then m.nextReqId :: m.awaited q else m.awaited q := by
    intro q
    rw [← ModuleState.awaited_pendingAdd, ModuleState.awaited, hpending, ModuleState.awaited]
  have haskedBy : ∀ q, t.askedBy q = if q = p then m.askedBy q ++ [m.nextReqId] else m.askedBy q := by
    intro q
    rw [← ModuleState.askedBy_pendingAdd, ModuleState.askedBy, hasked, ModuleState.askedBy]
  have hqueued : ∀ q, t.queued q = m.queued q := by
    intro q
    unfold ModuleState.queued
    rw [hheap, Function.update_apply]
    split_ifs with heq
    · rw [heq, hp, Option.elim_some, Option.elim_some, hrq]
    · rfl
  have htally : ∀ q r, t.tally q r = m.tally q r + if q = p then [m.nextReqId].count r else 0 := by
    intro q r
    simp only [ModuleState.tally, ModuleState.answered, ModuleState.expired, hawaited, hqueued,
      hreturned, htimedOut]
    split_ifs
    · rw [List.count_cons, List.count_singleton]
      omega
    · rfl
  have hcount : ∀ q r, (t.askedBy q).count r =
      (m.askedBy q).count r + if q = p then [m.nextReqId].count r else 0 := by
    intro q r
    rw [haskedBy]
    split_ifs
    · rw [List.count_append]
    · rfl
  refine ⟨fun q r => ?_, fun q hq r => ?_, fun x hx => ?_, ?_, ?_, ?_, fun q g' hg => ?_,
    fun q g' hg => ?_⟩
  · rw [htally, hcount]
    exact Nat.add_le_add_right (h.le q r) _
  · rw [htally, hcount, h.eq q (hfibers ▸ hq) r]
  · rw [hasked, ModuleState.pendingAdd_asked] at hx
    rw [hnext]
    rcases List.mem_append.mp hx with hx | hx
    · exact h.lt x hx
    · obtain rfl := List.mem_singleton.mp hx
      exact hshape.lt p (hshape.mem hp)
  · rw [hasked, hstart, ModuleState.pendingAdd_asked, List.map_append]
    exact h.asked.append (.refl _)
  · rw [hstart]
    exact (h.number hnum).1
  · rw [hid, hstart]
    exact (h.number hnum).2
  · rw [hheap, Function.update_apply] at hg
    by_cases heq : q = p
    · rw [if_pos heq] at hg
      cases hg
      intro hreply
      rw [hawaited, if_pos heq, hwaiting hreply]
      exact List.mem_cons_self
    · rw [if_neg heq] at hg
      rw [hawaited, if_neg heq]
      exact h.waiting q g' hg
  · rw [hheap, Function.update_apply] at hg
    by_cases heq : q = p
    · rw [if_pos heq] at hg
      cases hg
      have hold := h.outstanding p f hp
      rw [hf, if_neg Bool.false_ne_true] at hold
      rw [hawaited, if_pos heq, heq, List.length_cons, hrq, hout]
      push_cast
      omega
    · rw [if_neg heq] at hg
      rw [hawaited, if_neg heq]
      exact h.outstanding q g' hg

theorem newFiber (h : Accounts m) (hshape : Shape m) {e : Event} (hf : m.fiberOf e = some f) :
    Accounts (m.newFiber e f) := by
  have hrq : f.resumed.rq = [] := by
    obtain ⟨_, _, _, _, _, _, _, rfl⟩ := exists_of_fiberOf hf
    rfl
  have hout : f.resumed.asyncOutstanding = 0 := by
    obtain ⟨_, _, _, _, _, _, _, rfl⟩ := exists_of_fiberOf hf
    rfl
  have hnew := h.askedBy_eq_nil (le_refl m.nextFiber)
  have hfree : m.heap m.nextFiber = none := by
    rw [← Option.not_isSome_iff_eq_none, ← hshape.alive]
    exact fun hmem => (hshape.lt _ hmem).ne rfl
  have hheap : (m.newFiber e f).heap = Function.update m.heap m.nextFiber (some f.resumed) := rfl
  have hqueued : ∀ q, (m.newFiber e f).queued q = m.queued q := by
    intro q
    unfold ModuleState.queued
    rw [hheap, Function.update_apply]
    split_ifs with heq
    · rw [heq, hfree, Option.elim_some, hrq, Option.elim_none]
    · rfl
  have htally : ∀ q r, (m.newFiber e f).tally q r = m.tally q r := by
    intro q r
    rw [ModuleState.tally, hqueued]
    rfl
  refine ⟨fun q r => ?_, fun q hq r => ?_, fun x hx => Nat.lt_succ_of_lt (h.lt x hx), h.asked,
    h.nodup, h.fresh, fun q g hg hreply => ?_, fun q g hg => ?_⟩
  · rw [htally]
    exact h.le q r
  · rw [htally]
    rcases List.mem_cons.mp hq with rfl | hq
    · have hle := h.le m.nextFiber r
      show m.tally m.nextFiber r = (m.askedBy m.nextFiber).count r
      rw [hnew, List.count_nil] at hle ⊢
      omega
    · exact h.eq q hq r
  · rw [hheap, Function.update_apply] at hg
    split_ifs at hg
    · cases hg
      cases hreply
    · exact h.waiting q g hg hreply
  · rw [hheap, Function.update_apply] at hg
    show _ = ((m.awaited q).length : ℤ) + g.rq.length
    by_cases heq : q = m.nextFiber
    · rw [if_pos heq] at hg
      cases hg
      rw [hout, hrq, heq, h.awaited_eq_nil (le_refl _)]
      rfl
    · rw [if_neg heq] at hg
      exact h.outstanding q g hg

theorem reapDone (h : Accounts m) : Accounts m.reapDone := by
  have hqueued : ∀ q r, (m.reapDone.queued q).count r ≤ (m.queued q).count r := by
    intro q r
    unfold ModuleState.queued
    rw [ModuleState.reapDone_heap]
    split_ifs
    · exact Nat.zero_le _
    · exact le_refl _
  refine ⟨fun q r => ?_, fun q hq r => ?_, h.lt, h.asked, h.nodup, h.fresh, fun q g hg => ?_,
    fun q g hg => ?_⟩
  · have hle := h.le q r
    have hq := hqueued q r
    rw [ModuleState.tally] at hle ⊢
    exact le_trans (Nat.add_le_add_right (Nat.add_le_add_right (Nat.add_le_add_left hq _) _) _) hle
  · obtain ⟨hmem, hdone⟩ := List.mem_filter.mp hq
    have hsame : m.reapDone.queued q = m.queued q := by
      unfold ModuleState.queued
      rw [ModuleState.reapDone_heap, if_neg (by simpa using hdone)]
    rw [ModuleState.tally, hsame]
    exact h.eq q hmem r
  · rw [ModuleState.reapDone_heap] at hg
    split_ifs at hg
    exact h.waiting q g hg
  · rw [ModuleState.reapDone_heap] at hg
    by_cases hdone : m.isDone q = true
    · rw [if_pos hdone] at hg
      cases hg
    · rw [if_neg hdone] at hg
      exact h.outstanding q g hg

theorem tally_pop {g : Fiber} {rr : ReplyRec} {rq : List ReplyRec} {o : Source}
    (hp : m.heap p = some f)
    (hrq : f.rq = rr :: rq) (hheap : t.heap = Function.update m.heap p (some g)) (hg : g.rq = rq)
    (hpending : t.pending = m.pending) (htimedOut : t.timedOut = m.timedOut)
    (hsrc : o.reqId = rr.reqId) (hreturned : t.returned = m.returned ++ [(p, o)]) (q : ℕ)
    (r : UInt32) : t.tally q r = m.tally q r := by
  have hanswered := ModuleState.answered_append (q := q) hreturned hsrc
  simp only [ModuleState.tally, ModuleState.awaited, ModuleState.expired, hpending, htimedOut,
    hanswered]
  by_cases heq : q = p
  · subst heq
    have hqueued : t.queued q = rq.map ReplyRec.reqId := by
      rw [ModuleState.queued, hheap, Function.update_self, Option.elim_some, hg]
    rw [hqueued, ModuleState.queued_of_heap hp, hrq, if_pos rfl, List.count_append,
      List.count_singleton, List.map_cons, List.count_cons]
    omega
  · have hqueued : t.queued q = m.queued q := by
      rw [ModuleState.queued, hheap, Function.update_of_ne heq, ModuleState.queued]
    rw [hqueued, if_neg heq]

/-! ## The steps -/

theorem call (h : Accounts m) (hshape : Shape m) (hp : m.heap p = some f) (hf : f.Runs) (c : Call)
    (hnum : Numbered m (.call c)) : Accounts (m.call p f c) := by
  cases c with
  | request dest seqIdx msg timeout =>
    refine h.ask (g := _) hshape hp (hnum rfl) rfl rfl rfl rfl rfl rfl rfl
      ModuleState.startIds_postStart rfl ?_ hf.waitingReply (fun _ => ?_) ?_
    all_goals cases timeout <;> rfl
  | requestAsync dest seqIdx msg =>
    refine h.ask (g := _) hshape hp (hnum rfl) rfl rfl rfl rfl rfl rfl rfl
      ModuleState.startIds_postStart rfl rfl hf.waitingReply (fun hg => ?_) ?_
    · simp [hf.waitingReply] at hg
    · simp [hf.waitingReply]
  | waitReply =>
    show Accounts (m.waitReply p f)
    unfold ModuleState.waitReply
    split_ifs with hnull
    · exact h
    split
    · exact h.keep hp rfl rfl rfl rfl rfl rfl rfl rfl rfl rfl rfl rfl rfl
    · rename_i rr rq hrq
      have hout := h.outstanding p f hp
      rw [hf.waitingReply, if_neg Bool.false_ne_true, hrq, List.length_cons] at hout
      refine h.change rfl rfl rfl rfl rfl rfl (fun _ _ => rfl) (fun q r => ?_) (fun hg => ?_) ?_
      · have hpop := tally_pop (t := m.waitReply p f) (g := f.dequeued rr rq)
          (o := (f.dequeued rr rq).src) hp hrq
        simp only [ModuleState.waitReply, hnull, hrq] at hpop
        exact hpop rfl rfl rfl rfl rfl rfl q r
      · have hg : f.waitingReply = true := hg
        simp [hf.waitingReply] at hg
      · show f.asyncOutstanding - 1 + (if f.waitingReply then 1 else 0) = (m.awaited p).length + rq.length
        rw [hf.waitingReply, if_neg Bool.false_ne_true]
        push_cast at hout
        omega
  | send dest seqIdx msg =>
    refine ⟨h.le, h.eq, h.lt, ?_, ?_, ?_, h.waiting, h.outstanding⟩
    · show (m.asked.map Prod.snd).Sublist (m.postStart p dest seqIdx msg).startIds
      rw [ModuleState.startIds_postStart]
      exact h.asked.trans (List.sublist_append_left _ _)
    · show (m.postStart p dest seqIdx msg).startIds.Nodup
      rw [ModuleState.startIds_postStart]
      exact (h.number (hnum rfl)).1
    · show _ → ∀ r ∈ (m.postStart p dest seqIdx msg).startIds, _
      rw [ModuleState.startIds_postStart]
      exact (h.number (hnum rfl)).2
  | reply result msg =>
    refine h.of_eq ?_ ?_ ?_ ?_ ?_ ?_ ?_ ModuleState.startIds_reply ?_
    all_goals
      show _ = _
      simp only [ModuleState.call, ModuleState.reply]
      split <;> rfl
  | waitTimeout now msec => exact h.keep hp rfl rfl rfl rfl rfl rfl rfl rfl rfl rfl rfl rfl rfl
  | regNotify category clientId =>
    refine h.of_eq ?_ ?_ ?_ ?_ ?_ ?_ ?_ ?_ ?_
    all_goals
      simp only [ModuleState.call, ModuleState.regNotify]
      split <;> rfl
  | unregNotify category clientId => exact h.of_eq rfl rfl rfl rfl rfl rfl rfl rfl rfl
  | notify category msg => exact h.of_eq rfl rfl rfl rfl rfl rfl rfl ModuleState.startIds_notify rfl
  | lock => exact h.of_eq rfl rfl rfl rfl rfl rfl rfl rfl rfl
  | unlock => exact h.of_eq rfl rfl rfl rfl rfl rfl rfl rfl rfl
  | exit => exact h.keep hp rfl rfl rfl rfl rfl rfl rfl rfl rfl rfl rfl rfl rfl

theorem move (h : Accounts m) (hshape : Shape m) (hnum : Numbered m op) (ht : Move m op t) :
    Accounts t := by
  cases ht with
  | arrive e => exact h.of_eq rfl rfl rfl rfl rfl rfl rfl rfl rfl
  | take now hcurrent hphase => exact h.of_eq rfl rfl rfl rfl rfl rfl rfl rfl rfl
  | visited now hcurrent hphase => exact h.of_eq rfl rfl rfl rfl rfl rfl rfl rfl rfl
  | dangling now p left hv hp => exact h.of_eq rfl rfl rfl rfl rfl rfl rfl rfl rfl
  | skip now p left f hv hp hdue => exact h.of_eq rfl rfl rfl rfl rfl rfl rfl rfl rfl
  | timeout now p left f hv hp hdue hreply =>
    have hany : f.waitingAny = false := by
      by_contra ha
      simp [((hshape.fits p f hp).waitingAny (by simpa using ha)).1] at hreply
    refine h.settle (l := []) (k := [f.waitReqId]) hp (h.peek_of_awaited (h.waiting p f hp hreply))
      rfl rfl rfl rfl rfl rfl rfl (fun q => ?_) (fun q => ?_) (fun r => ?_) (fun hg => ?_) ?_
    · simp only [List.append_nil, ite_self]
      rfl
    · exact ModuleState.expired_append rfl
    · simp [Fiber.resumed]
    · cases hg
    · simp [Fiber.resumed, hany, hreply]
      omega
  | wake now p left f hv hp hdue hreply =>
    have hany : f.waitingAny = false := by
      by_contra ha
      simp [ModuleState.isDue, ((hshape.fits p f hp).waitingAny (by simpa using ha)).2.1] at hdue
    refine h.keep hp rfl rfl rfl rfl rfl rfl rfl rfl rfl rfl hreply.symm rfl ?_
    simp [Fiber.resumed, hany]
  | defer x rest hn hdefer => exact h.of_eq rfl rfl rfl rfl rfl rfl rfl rfl rfl
  | ignore x rest hn hnone hreply hdefer => exact h.of_eq rfl rfl rfl rfl rfl rfl rfl rfl rfl
  | start x rest f hn hf hlock =>
    have hbox : Accounts { m with box := m.box.handleNext } :=
      h.of_eq rfl rfl rfl rfl rfl rfl rfl rfl rfl
    refine hbox.newFiber (hshape.of_eq rfl rfl rfl rfl rfl rfl) hf
  | lost x rest hn reqId i r msg p hr hp => exact h.of_eq rfl rfl rfl rfl rfl rfl rfl rfl rfl
  | answer x rest hn reqId i r msg p f hr hp hwait =>
    refine h.settle (l := [reqId]) (k := []) hp hr.peek rfl rfl rfl rfl rfl rfl rfl (fun q => ?_)
      (fun q => ?_) (fun r => ?_) (fun hg => ?_) ?_
    · exact ModuleState.answered_append rfl rfl
    · simp only [List.append_nil, ite_self]
      rfl
    · simp [Fiber.resumed]
    · cases hg
    · rcases hwait with ⟨hreply, -⟩ | hany
      · have hany : f.waitingAny = false := by
          by_contra ha
          simp [((hshape.fits p f hp).waitingAny (by simpa using ha)).1] at hreply
        simp [Fiber.resumed, hany, hreply]
        omega
      · simp [Fiber.resumed, hany, ((hshape.fits p f hp).waitingAny hany).1]
        omega
  | queue x rest hn reqId i r msg p f hr hp hany hwait =>
    refine h.settle (l := []) (k := []) hp hr.peek rfl rfl rfl rfl rfl rfl rfl (fun q => ?_)
      (fun q => ?_) (fun r => ?_) (fun hg => ?_) ?_
    · simp only [List.append_nil, ite_self]
      rfl
    · simp only [List.append_nil, ite_self]
      rfl
    · simp
    · exact ⟨hg, rfl, hwait hg⟩
    · simp
      omega
  | reap hcurrent hphase hbatch => exact h.reapDone
  | call p f c hcurrent hp =>
    obtain ⟨g, hg, hruns⟩ := hshape.running p hcurrent
    obtain rfl : g = f := by simpa [hp] using hg.symm
    exact h.call hshape hp hruns c hnum

end Accounts

/-- **The requests of every state reached**, while their numbers do not come round. -/
theorem accounts_of_reach {ok : ModuleState → Op → Prop} (hok : ∀ s i, ok s i → Numbered s i)
    {idx nrSeq : ℕ} {recvNotify : Bool}
    (h : Reach ModuleState.step ok (.initial idx nrSeq recvNotify) m) : Accounts m :=
  h.inv₂ Shape Accounts (fun _ hs => shape_of_reach hs) (accounts_initial ..)
    fun _ _ _ hshape _ hs ho ht => hs.move hshape (hok _ _ ho) (ModuleState.move_of_step ht)

end Coseq

end AutoRec
