import AutoRec.Coseq.Replies

/-!
# Requests of other threads

There is one mailbox for all threads that call `request_sync`. A call makes it its own, and waits
without the mutex; a call of another thread meanwhile takes the mailbox away from it.

* `OneAtATime`: no thread calls `request_sync` while another one waits in it.
* `Mailed`, `mailed_of_reach`: the calls, the mailbox and the returns.
* **`request_sync_correlated`**: then each call returns what the sequence has replied that it has
  started.
* `mixed_without`: else a thread can be given the reply to another one.
-/

namespace AutoRec

namespace Coseq

open Machine

/-- No thread calls `request_sync` while another one waits in it, and the numbers of the requests have
not run out. -/
def OneAtATime (s : System) : SysOp → Prop
  | .requestSync .. => s.ext.waiting = [] ∧ s.ext.id ≠ 0
  | .requestAsync .. => s.ext.id ≠ 0
  | _ => True

instance (s : System) (op : SysOp) : Decidable (OneAtATime s op) :=
  match op with
  | .requestSync .. => inferInstanceAs (Decidable (s.ext.waiting = [] ∧ s.ext.id ≠ 0))
  | .requestAsync .. => inferInstanceAs (Decidable (s.ext.id ≠ 0))
  | .module .. | .wakeUp _ => isTrue trivial

namespace External

variable (x : External)

/-- The numbers of the requests that other threads have posted. -/
def startIds : List UInt32 := x.sent.filterMap fun q => q.2.startId

/-- The event of a call. -/
def eventOf (c : ExtCall) : Event := .start c.seqIdx c.reqId none c.msg

end External

/-- **The calls, the mailbox and the returns.** -/
structure Mailed (x : External) : Prop where
  nodup : x.startIds.Nodup
  fresh : x.id ≠ 0 → ∀ r ∈ x.startIds, r ≠ 0 ∧ r.toNat < x.id.toNat
  nonzero : ∀ r ∈ x.startIds, r ≠ 0
  called : ∀ c ∈ x.called, (c.dest, External.eventOf c) ∈ x.sent
  waiting : x.waiting = [] ∨ ∃ c ∈ x.called, x.waiting = [c] ∧ x.waitRid = c.reqId ∧
    (x.ready = true → ∃ r ∈ x.replied, r.reqId = c.reqId ∧ r.result = x.result ∧ r.msg = x.msg)
  returned : ∀ y ∈ x.returned, ∃ c ∈ x.called, c.thread = y.thread ∧ c.reqId = y.reqId ∧
    ∃ r ∈ x.replied, r.reqId = y.reqId ∧ r.result = y.result ∧ r.msg = y.msg
  perm : (x.returned.map ExtReturn.reqId ++ x.waiting.map ExtCall.reqId).Perm
    (x.called.map ExtCall.reqId)
  calledIds : (x.called.map ExtCall.reqId).Sublist x.startIds

variable {s t : System} {x : External} {nrModule : ℕ} {nrSeq : ℕ → ℕ} {recvNotify : ℕ → Bool}
  {i j k p g g' : ℕ}

namespace Mailed

theorem deliver (h : Mailed x) (r : ExtReply) : Mailed (x.deliver r) := by
  unfold External.deliver
  split_ifs with hid
  · refine ⟨h.nodup, h.fresh, h.nonzero, h.called, ?_, fun y hy => ?_, h.perm, h.calledIds⟩
    · rcases h.waiting with hnone | ⟨c, hc, hwaiting, hrid, -⟩
      · exact .inl hnone
      · exact .inr ⟨c, hc, hwaiting, hrid, fun _ =>
          ⟨r, List.mem_append_right _ (List.mem_singleton_self _), hid.trans hrid, rfl, rfl⟩⟩
    · obtain ⟨c, hc, hthread, hreq, r', hr', hrest⟩ := h.returned y hy
      exact ⟨c, hc, hthread, hreq, r', List.mem_append_left _ hr', hrest⟩
  · refine ⟨h.nodup, h.fresh, h.nonzero, h.called, ?_, fun y hy => ?_, h.perm, h.calledIds⟩
    · rcases h.waiting with hnone | ⟨c, hc, hwaiting, hrid, hready⟩
      · exact .inl hnone
      · refine .inr ⟨c, hc, hwaiting, hrid, fun hr => ?_⟩
        obtain ⟨r', hr', hrest⟩ := hready hr
        exact ⟨r', List.mem_append_left _ hr', hrest⟩
    · obtain ⟨c, hc, hthread, hreq, r', hr', hrest⟩ := h.returned y hy
      exact ⟨c, hc, hthread, hreq, r', List.mem_append_left _ hr', hrest⟩

theorem number (h : Mailed x) (hne : x.id ≠ 0) :
    (x.startIds ++ [x.id]).Nodup ∧ (x.id + 1 ≠ 0 → ∀ r ∈ x.startIds ++ [x.id],
      r ≠ 0 ∧ r.toNat < (x.id + 1).toNat) ∧ ∀ r ∈ x.startIds ++ [x.id], r ≠ 0 := by
  have hfresh := h.fresh hne
  refine ⟨?_, fun hne' r hr => ?_, fun r hr => ?_⟩
  · rw [List.nodup_append]
    refine ⟨h.nodup, List.nodup_singleton _, fun r hr r' hr' heq => ?_⟩
    obtain rfl := List.mem_singleton.mp hr'
    exact (hfresh r hr).2.ne (congrArg UInt32.toNat heq)
  · have hsucc := toNat_succ_of_ne hne'
    rw [hsucc]
    rcases List.mem_append.mp hr with hr | hr
    · exact ⟨(hfresh r hr).1, Nat.lt_succ_of_lt (hfresh r hr).2⟩
    · rw [List.mem_singleton.mp hr]
      exact ⟨hne, Nat.lt_succ_self _⟩
  · rcases List.mem_append.mp hr with hr | hr
    · exact h.nonzero r hr
    · rwa [List.mem_singleton.mp hr]

theorem post (h : Mailed x) (hne : x.id ≠ 0) {y : External} {q : ℕ × Event}
    (hq : q.2.startId = some x.id) (hsent : y.sent = x.sent ++ [q]) (hid : y.id = x.id + 1) :
    y.startIds = x.startIds ++ [x.id] ∧ y.startIds.Nodup ∧
      (y.id ≠ 0 → ∀ r ∈ y.startIds, r ≠ 0 ∧ r.toNat < y.id.toNat) ∧ ∀ r ∈ y.startIds, r ≠ 0 := by
  have heq : y.startIds = x.startIds ++ [x.id] := by
    rw [External.startIds, hsent, List.filterMap_append]
    simp only [List.filterMap_cons, hq, List.filterMap_nil]
    rfl
  rw [heq, hid]
  exact ⟨rfl, h.number hne⟩

theorem requestSync (h : Mailed s.ext) (thread dest : ℕ) (seqIdx : UInt8) (msg : List UInt8)
    (hone : s.ext.waiting = [] ∧ s.ext.id ≠ 0) : Mailed (s.requestSync thread dest seqIdx msg).ext := by
  unfold System.requestSync
  rw [System.post_ext]
  obtain ⟨hids, hnodup, hfresh, hnonzero⟩ := h.post hone.2
    (y := { s.ext with
      id := s.ext.id + 1
      waitRid := s.ext.id
      ready := false
      waiting := s.ext.waiting ++ [⟨thread, s.ext.id, dest, seqIdx, msg⟩]
      called := s.ext.called ++ [⟨thread, s.ext.id, dest, seqIdx, msg⟩]
      sent := s.ext.sent ++ [(dest, .start seqIdx s.ext.id none msg)] }) rfl rfl rfl
  refine ⟨hnodup, hfresh, hnonzero, fun c hc => ?_, .inr ?_, fun y hy => ?_, ?_, ?_⟩
  · rcases List.mem_append.mp hc with hc | hc
    · exact List.mem_append_left _ (h.called c hc)
    · rw [List.mem_singleton.mp hc]
      exact List.mem_append_right _ (List.mem_singleton_self _)
  · refine ⟨⟨thread, s.ext.id, dest, seqIdx, msg⟩,
      List.mem_append_right _ (List.mem_singleton_self _), ?_, rfl, fun hr => by cases hr⟩
    rw [hone.1]
    rfl
  · obtain ⟨c, hc, hrest⟩ := h.returned y hy
    exact ⟨c, List.mem_append_left _ hc, hrest⟩
  · simp only [List.map_append]
    rw [← List.append_assoc]
    exact h.perm.append (.refl _)
  · rw [hids, List.map_append]
    exact h.calledIds.append (.refl _)

theorem requestAsync (h : Mailed s.ext) (dest : ℕ) (seqIdx : UInt8) (msg : List UInt8)
    (hne : s.ext.id ≠ 0) : Mailed (s.requestAsync dest seqIdx msg).ext := by
  unfold System.requestAsync
  rw [System.post_ext]
  obtain ⟨hids, hnodup, hfresh, hnonzero⟩ := h.post hne
    (y := { s.ext with
      id := s.ext.id + 1
      sent := s.ext.sent ++ [(dest, .start seqIdx s.ext.id none msg)] }) rfl rfl rfl
  refine ⟨hnodup, hfresh, hnonzero, fun c hc => List.mem_append_left _ (h.called c hc), h.waiting,
    h.returned, h.perm, ?_⟩
  rw [hids]
  exact h.calledIds.trans (List.sublist_append_left _ _)

theorem wakeUp (h : Mailed s.ext) {thread : ℕ} (ht : s.wakeUp thread = some t) : Mailed t.ext := by
  unfold System.wakeUp at ht
  split at ht
  · cases ht
  · rename_i c hfind
    split_ifs at ht with hready
    · cases ht
      have hthread : c.thread = thread := by simpa using List.find?_some hfind
      have hmem := List.mem_of_find?_eq_some hfind
      rcases h.waiting with hnone | ⟨c', hc', hwaiting, hrid, hreply⟩
      · rw [hnone] at hmem
        cases hmem
      · rw [hwaiting, List.mem_singleton] at hmem
        subst hmem
        have hempty : s.ext.waiting.erase c = [] := by
          rw [hwaiting, List.erase_cons_head]
        obtain ⟨r, hr, hreq, hresult, hmsg⟩ := hreply hready
        refine ⟨h.nodup, h.fresh, h.nonzero, h.called, .inl hempty, fun y hy => ?_, ?_, h.calledIds⟩
        · rcases List.mem_append.mp hy with hy | hy
          · exact h.returned y hy
          · rw [List.mem_singleton.mp hy]
            exact ⟨c, hc', rfl, rfl, r, hr, hreq, hresult, hmsg⟩
        · have hperm := h.perm
          rw [hwaiting] at hperm
          simp only [hempty, List.map_append, List.map_cons, List.map_nil, List.append_nil] at hperm ⊢
          exact hperm
    · cases ht
      exact h

end Mailed

theorem mailed_of_reach
    (h : Reach System.step OneAtATime (.initial nrModule nrSeq recvNotify) s) : Mailed s.ext := by
  refine h.inv (fun s => Mailed s.ext) ?_ fun s op t hs ho ht => ?_
  · refine ⟨.nil, ?_, ?_, ?_, .inl rfl, ?_, .refl _, .refl _⟩ <;>
      simp [System.initial, External.startIds]
  · cases op with
    | module i op =>
      obtain ⟨-, -, m, -, rfl⟩ := System.stepModule_eq_some.mp ht
      rw [System.postAll_rest.1]
      show Mailed (((s.modules i).extReply op).elim s.ext s.ext.deliver)
      cases (s.modules i).extReply op with
      | none => exact hs
      | some r => exact hs.deliver r
    | requestSync thread dest seqIdx msg =>
      cases ht
      exact hs.requestSync thread dest seqIdx msg ho
    | wakeUp thread => exact hs.wakeUp ht
    | requestAsync dest seqIdx msg =>
      cases ht
      exact hs.requestAsync dest seqIdx msg ho

/-! ## The sequences that reply -/

/-- The replies to other threads come from sequences that they have requested. A handler of a
notification has no request; what it replies has the number 0. -/
def Replying (s : System) : Prop :=
  ∀ r ∈ s.ext.replied, r.module < s.nrModule ∧ (r.reqId = 0 ∨
    ∃ seqIdx msg, (r.fiber, Event.start seqIdx r.reqId none msg) ∈ (s.modules r.module).started)

theorem Replying.mono (h : Replying s) (hnr : t.nrModule = s.nrModule)
    (hreplied : t.ext.replied = s.ext.replied)
    (hstarted : ∀ k, (s.modules k).started ⊆ (t.modules k).started) : Replying t := by
  intro r hr
  rw [hreplied] at hr
  rw [hnr]
  obtain ⟨hlt, hsource⟩ := h r hr
  refine ⟨hlt, hsource.imp_right ?_⟩
  rintro ⟨seqIdx, msg, hmem⟩
  exact ⟨seqIdx, msg, hstarted _ hmem⟩

theorem started_post {dest : ℕ} {e : Event} (k : ℕ) :
    ((s.post dest e).modules k).started = (s.modules k).started := by
  rw [System.post_modules]
  split_ifs <;> rfl

theorem started_postAll {l : List Sent} (k : ℕ) :
    ((s.postAll l).modules k).started = (s.modules k).started := by
  induction l generalizing s with
  | nil => rfl
  | cons x l ih => exact (ih (s := s.post x.dest x.event)).trans (started_post k)

theorem source_of_extReply {m : ModuleState} (h : Traced m) {op : Op} {r : ExtReply}
    (hr : m.extReply op = some r) : r.module = m.idx ∧ (r.reqId = 0 ∨
      ∃ seqIdx msg, (r.fiber, Event.start seqIdx r.reqId none msg) ∈ m.started) := by
  unfold ModuleState.extReply at hr
  split at hr
  · obtain ⟨⟨p, f⟩, hrun, hif⟩ := Option.bind_eq_some_iff.mp hr
    simp only [Option.isNone_iff_eq_none, Option.ite_none_right_eq_some, Option.some.injEq] at hif
    obtain ⟨hto, rfl⟩ := hif
    obtain ⟨-, hp⟩ := ModuleState.running_eq_some.mp hrun
    obtain ⟨hmem, hof⟩ := h.origin p f hp
    refine ⟨rfl, ?_⟩
    unfold Fiber.IsOf at hof
    cases horigin : f.origin with
    | start seqIdx reqId requester msg =>
      rw [horigin] at hmem hof
      obtain ⟨hrequester, hid⟩ := hof
      refine .inr ⟨seqIdx, msg, ?_⟩
      show (p, Event.start seqIdx f.replyReqId none msg) ∈ m.started
      rw [hid, ← hto, hrequester]
      exact hmem
    | reply reqId i result msg =>
      rw [horigin] at hof
      exact hof.elim
    | notify i category clientId msg =>
      rw [horigin] at hof
      exact .inl hof.2
  · cases hr

theorem replying_of_reach {ok : System → SysOp → Prop}
    (h : Reach System.step ok (.initial nrModule nrSeq recvNotify) s) : Replying s := by
  have hany : Reach System.step (Locally anyStep) (.initial nrModule nrSeq recvNotify) s :=
    h.mono fun _ op _ => by cases op <;> trivial
  clear h
  induction hany with
  | refl =>
    intro r hr
    cases hr
  | @tail s t op hs ho ht ih =>
    cases op with
    | module i op =>
      obtain ⟨hi, hallows, m, hm, rfl⟩ := System.stepModule_eq_some.mp ht
      have hreach := module_of_reach hs (fun _ _ => trivial) i
      have hstarted : ∀ k, (s.modules k).started ⊆
          (((s.advance i op m).postAll (m.sent.drop (s.modules i).sent.length)).modules k).started := by
        intro k
        rw [started_postAll]
        show _ ⊆ (Function.update s.modules i m k).started
        rw [Function.update_apply]
        split_ifs with heq
        · rw [heq]
          exact started_of_move (ModuleState.move_of_step hm)
        · exact List.Subset.refl _
      obtain ⟨hext, hnr, -⟩ := System.postAll_rest (s := s.advance i op m)
        (l := m.sent.drop (s.modules i).sent.length)
      cases hreply : (s.modules i).extReply op with
      | none =>
        refine ih.mono hnr ?_ hstarted
        rw [hext]
        show (((s.modules i).extReply op).elim s.ext s.ext.deliver).replied = _
        rw [hreply, Option.elim_none]
      | some r =>
        have hreplied : ((s.advance i op m).postAll
            (m.sent.drop (s.modules i).sent.length)).ext.replied = s.ext.replied ++ [r] := by
          rw [hext]
          show (((s.modules i).extReply op).elim s.ext s.ext.deliver).replied = _
          rw [hreply, Option.elim_some, External.deliver]
          split_ifs <;> rfl
        obtain ⟨hmodule, hsource⟩ := source_of_extReply (traced_of_reach hreach) hreply
        rw [idx_of_reach hreach] at hmodule
        intro r' hr'
        rw [hreplied] at hr'
        rcases List.mem_append.mp hr' with hr' | hr'
        · obtain ⟨hlt, hsource'⟩ := ih r' hr'
          refine ⟨hnr ▸ hlt, hsource'.imp_right ?_⟩
          rintro ⟨seqIdx, msg, hmem⟩
          exact ⟨seqIdx, msg, hstarted _ hmem⟩
        · rw [List.mem_singleton.mp hr']
          refine ⟨hnr ▸ hmodule ▸ hi, hsource.imp_right ?_⟩
          rintro ⟨seqIdx, msg, hmem⟩
          rw [hmodule]
          exact ⟨seqIdx, msg, hstarted i hmem⟩
    | requestSync thread dest seqIdx msg =>
      cases ht
      exact ih.mono System.post_nrModule (by rw [System.requestSync, System.post_ext])
        fun k => by rw [System.requestSync, started_post]; exact List.Subset.refl _
    | wakeUp thread =>
      simp only [System.step, System.wakeUp] at ht
      split at ht
      · cases ht
      · split_ifs at ht <;> cases ht <;> exact ih.mono rfl rfl fun k => List.Subset.refl _
    | requestAsync dest seqIdx msg =>
      cases ht
      exact ih.mono System.post_nrModule (by rw [System.requestAsync, System.post_ext])
        fun k => by rw [System.requestAsync, started_post]; exact List.Subset.refl _

/-! ## The results -/

section Paths

variable {ok : System → SysOp → Prop} {e : Event}
  (h : Reach System.step ok (.initial nrModule nrSeq recvNotify) s)

include h

/-- What another thread has not posted starts no sequence for it. -/
theorem ext_sent_of_started (hj : j < nrModule) (hg : (g, e) ∈ (s.modules j).started)
    (he : e.sender = none) : (j, e) ∈ s.ext.sent := by
  have hhandled : e ∈ (s.modules j).handledEvents :=
    (traced_module h j).1.starts_sublist.subset (List.mem_map_of_mem (f := Prod.snd) hg)
  have hmem : e ∈ (s.arrived j).filter fun e => e.sender == none :=
    List.mem_filter.mpr ⟨arrived_of_handled h hhandled, by simpa using he⟩
  rw [(channel_of_reach h).ext j ((nrModule_of_reach h).symm ▸ hj)] at hmem
  obtain ⟨q, hq, rfl⟩ := List.mem_map.mp hmem
  obtain ⟨hsent, hdest⟩ := List.mem_filter.mp hq
  obtain rfl : q.1 = j := by simpa using hdest
  exact hsent

theorem count_started_le_ext (hj : j < nrModule) (he : e.sender = none) :
    (s.modules j).startedEvents.count e ≤ (s.ext.sent.map Prod.snd).count e := by
  rw [← nrModule_of_reach h] at hj
  have htraced := (traced_module h j).1
  calc (s.modules j).startedEvents.count e
      ≤ (s.modules j).handledEvents.count e := htraced.starts_sublist.count_le _
    _ ≤ (s.arrived j).count e := by
        have hperm := htraced.sound.perm_arrived.count_eq e
        rw [List.count_append] at hperm
        exact hperm ▸ Nat.le_add_right _ _
    _ = ((s.arrived j).filter fun e => e.sender == none).count e :=
        (List.count_filter (by simpa using he)).symm
    _ = ((s.ext.sent.filter fun x => x.1 == j).map Prod.snd).count e := by
        rw [(channel_of_reach h).ext j hj]
    _ ≤ (s.ext.sent.map Prod.snd).count e := (List.filter_sublist.map _).count_le _

end Paths

/-- **What `request_sync` returns is what the sequence has replied that it has started**, when no
thread calls it while another one waits in it; there is one such sequence, and one return. -/
theorem request_sync_correlated
    (h : Reach System.step OneAtATime (.initial nrModule nrSeq recvNotify) s) {y : ExtReturn}
    (hy : y ∈ s.ext.returned) :
    (∃ c ∈ s.ext.called, c.thread = y.thread ∧ c.reqId = y.reqId ∧
      ∃ g, (g, External.eventOf c) ∈ (s.modules c.dest).started ∧
        ⟨c.dest, g, y.reqId, y.result, y.msg⟩ ∈ s.ext.replied ∧
        ∀ k g' seqIdx msg, k < nrModule →
          (g', .start seqIdx y.reqId none msg) ∈ (s.modules k).started → k = c.dest ∧ g' = g) ∧
      (s.ext.returned.map ExtReturn.reqId).Nodup := by
  have hmailed := mailed_of_reach h
  constructor
  · obtain ⟨c, hc, hthread, hreq, r, hr, hid, hresult, hmsg⟩ := hmailed.returned y hy
    have hsent := hmailed.called c hc
    -- the numbers of the requests start with 1
    have hne : r.reqId ≠ 0 := by
      rw [hid, ← hreq]
      exact hmailed.nonzero _ (List.mem_filterMap.mpr ⟨_, hsent, rfl⟩)
    obtain ⟨hlt, hsource⟩ := replying_of_reach h r hr
    obtain ⟨seqIdx, msg, hstarted⟩ := hsource.resolve_left hne
    rw [nrModule_of_reach h] at hlt
    have hsent' := ext_sent_of_started h hlt hstarted rfl
    have heq := eq_of_filterMap_nodup (b := c.reqId) hmailed.nodup hsent hsent' rfl
      (congrArg some (hid.trans hreq.symm))
    simp only [Prod.mk.injEq] at heq
    obtain ⟨hdest, hevent⟩ := heq
    refine ⟨c, hc, hthread, hreq, r.fiber, ?_, ?_, fun k g' seqIdx' msg' hk hg' => ?_⟩
    · rw [hdest, hevent]
      exact hstarted
    · rw [hdest, ← hid, ← hresult, ← hmsg]
      exact hr
    · have hsent'' := ext_sent_of_started h hk hg' rfl
      have heq := eq_of_filterMap_nodup (b := c.reqId) hmailed.nodup hsent hsent'' rfl
        (congrArg some hreq.symm)
      simp only [Prod.mk.injEq] at heq
      obtain ⟨hdest', hevent'⟩ := heq
      refine ⟨hdest'.symm, ?_⟩
      rw [← hevent', ← hdest', hdest] at hg'
      rw [← hevent] at hstarted
      have hcount := count_started_le_ext h hlt (e := External.eventOf c) rfl
      have hle := count_map_le_count_filterMap (l := s.ext.sent) (g := Prod.snd)
        (k := Event.startId) (c := External.eventOf c) (b := c.reqId) rfl
      have hone := List.nodup_iff_count_le_one.mp hmailed.nodup c.reqId
      exact eq_of_count_map_le_one (hcount.trans (hle.trans hone)) hg' hstarted
  · have hcalled := hmailed.nodup.sublist hmailed.calledIds
    exact (List.nodup_append.mp (hmailed.perm.nodup_iff.mpr hcalled)).1

/-- A thread calls `request_sync`. -/
def syncCall : List SysOp := [
  .requestSync 5 0 0 [1],
  .module 0 (.take .zero), .module 0 .timer, .module 0 .handle,
  .module 0 (.call (.reply .success [9])), .module 0 (.call .exit),
  .wakeUp 5]

theorem request_sync_correlated_call : ∃ (s : System) (y : ExtReturn), y ∈ s.ext.returned ∧
    (∃ c ∈ s.ext.called, c.thread = y.thread ∧ c.reqId = y.reqId ∧
      ∃ g, (g, External.eventOf c) ∈ (s.modules c.dest).started ∧
        ⟨c.dest, g, y.reqId, y.result, y.msg⟩ ∈ s.ext.replied ∧
        ∀ k g' seqIdx msg, k < 1 →
          (g', .start seqIdx y.reqId none msg) ∈ (s.modules k).started → k = c.dest ∧ g' = g) ∧
      (s.ext.returned.map ExtReturn.reqId).Nodup := by
  have hrun : execOk System.step OneAtATime (.initial 1 (fun _ => 1) fun _ => false) syncCall =
      true := by decide
  obtain ⟨s, hs⟩ := Option.isSome_iff_exists.mp
    (show (exec System.step (.initial 1 (fun _ => 1) fun _ => false) syncCall).isSome = true by decide)
  have hreturned : ((exec System.step (.initial 1 (fun _ => 1) fun _ => false) syncCall).map fun s =>
      s.ext.returned) = some [⟨5, 1, .success, [9]⟩] := by decide
  rw [hs, Option.map_some, Option.some.injEq] at hreturned
  have hmem : ⟨5, 1, .success, [9]⟩ ∈ s.ext.returned := by simp [hreturned]
  exact ⟨s, _, hmem, request_sync_correlated (reach_of_execOk hrun hs) hmem⟩

/-- Two threads call `request_sync`, the second one before the first one has its reply. -/
def syncCalls : List SysOp := [
  .requestSync 1 0 0 [], .requestSync 2 0 0 [],
  .module 0 (.take .zero), .module 0 .timer,
  .module 0 .handle, .module 0 (.call (.reply .success [1])), .module 0 (.call .exit),
  .module 0 .handle, .module 0 (.call (.reply .success [2])), .module 0 (.call .exit),
  .wakeUp 1]

/-- **Calls of two threads at a time are mixed up**: the first thread is given the reply to the second
one, and its own reply is lost. -/
theorem mixed_without : ∃ s : System, Reach System.step anyStep (.initial 1 (fun _ => 1) fun _ => false) s ∧
    s.ext.returned = [⟨1, 1, .success, [2]⟩] ∧
    s.ext.replied = [⟨0, 0, 1, .success, [1]⟩, ⟨0, 1, 2, .success, [2]⟩] := by
  obtain ⟨s, hs⟩ := Option.isSome_iff_exists.mp
    (show (exec System.step (.initial 1 (fun _ => 1) fun _ => false) syncCalls).isSome = true by decide)
  have hext : ((exec System.step (.initial 1 (fun _ => 1) fun _ => false) syncCalls).map fun s =>
      (s.ext.returned, s.ext.replied)) = some ([⟨1, 1, .success, [2]⟩],
        [⟨0, 0, 1, .success, [1]⟩, ⟨0, 1, 2, .success, [2]⟩]) := by decide
  rw [hs, Option.map_some, Option.some.injEq, Prod.mk.injEq] at hext
  exact ⟨s, reach_of_exec hs, hext.1, hext.2⟩

end Coseq

end AutoRec
