import AutoRec.Coseq.Traces

/-!
# The modules of an instance

The modules of an instance run side by side, each with its own thread, and post events to each other.
Other threads request sequences, and wait for the reply if they want one; there is one mailbox for
the replies to all of them (`third_party/coseq/coseq/coseq.c`).

* `External`, `System`, `SysOp`, `step`: an instance; its steps are those of its modules and of the
  other threads, in any order.
* `Locally`, `local_of_reach`: each module runs by its own steps, and those of the events that arrive.
* **`channel_of_reach`**: what arrives at a module from another one is what that has sent, in order.
-/

namespace AutoRec

namespace Coseq

open Machine

/-! ## The model -/

/-- A sequence has replied to another thread. -/
structure ExtReply where
  module : ℕ
  fiber : ℕ
  reqId : UInt32
  result : CoseqResult
  msg : List UInt8
deriving DecidableEq

/-- A thread that calls `request_sync`, and what for. -/
structure ExtCall where
  thread : ℕ
  reqId : UInt32
  dest : ℕ
  seqIdx : UInt8
  msg : List UInt8
deriving DecidableEq

/-- What `request_sync` has returned to a thread. -/
structure ExtReturn where
  thread : ℕ
  reqId : UInt32
  result : CoseqResult
  msg : List UInt8
deriving DecidableEq

/-- The `ext_` fields of `coseq_ctx_private`, and the threads that wait at `ext_cv`. From `called` on
it is what has happened: the calls, what has been posted, the replies and the returns. -/
structure External where
  ready : Bool
  waitRid : UInt32
  result : CoseqResult
  msg : List UInt8
  id : UInt32
  waiting : List ExtCall
  called : List ExtCall
  sent : List (ℕ × Event)
  replied : List ExtReply
  returned : List ExtReturn

/-- `ext_deliver`. -/
def External.deliver (x : External) (r : ExtReply) : External :=
  if r.reqId = x.waitRid then
    { x with ready := true, result := r.result, msg := r.msg, replied := x.replied ++ [r] }
  else { x with replied := x.replied ++ [r] }

/-- `coseq_ctx_private`. -/
structure System where
  modules : ℕ → ModuleState
  nrModule : ℕ
  nextClientId : UInt8
  ext : External

/-- The steps: a module goes on, a thread calls `request_sync`, or comes back from its wait there, or
calls `request_async`. -/
inductive SysOp
  | module (i : ℕ) (op : Op)
  | requestSync (thread dest : ℕ) (seqIdx : UInt8) (msg : List UInt8)
  | wakeUp (thread : ℕ)
  | requestAsync (dest : ℕ) (seqIdx : UInt8) (msg : List UInt8)

namespace ModuleState

variable (m : ModuleState)

/-- The sequence that runs registers a listener. -/
def registers : Op → Bool
  | .call (.regNotify _ _) => m.running.any fun r => r.2.replyTo.isSome
  | _ => false

/-- The sequence that runs replies to another thread than that of a module. -/
def extReply : Op → Option ExtReply
  | .call (.reply result msg) => m.running.bind fun r =>
    if r.2.replyTo.isNone then some ⟨m.idx, r.1, r.2.replyReqId, result, msg⟩ else none
  | _ => none

end ModuleState

namespace System

/-- An instance behind `create_coseq` and `setup`. -/
def initial (nrModule : ℕ) (nrSeq : ℕ → ℕ) (recvNotify : ℕ → Bool) : System where
  modules := fun i => .initial i (nrSeq i) (recvNotify i)
  nrModule := nrModule
  nextClientId := 0
  ext := ⟨false, 0xffffffff, .ignore, [], 1, [], [], [], [], []⟩

variable (s : System)

/-- `post`. -/
def post (dest : ℕ) (e : Event) : System :=
  if dest < s.nrModule then
    { s with
      modules := Function.update s.modules dest
        { s.modules dest with box := (s.modules dest).box.post e } }
  else s

/-- Events are posted one after the other. -/
def postAll (l : List Sent) : System := l.foldl (fun s x => s.post x.dest x.event) s

/-- The number that `coseq_reg_notify` takes. -/
def clientId : UInt8 := if s.nextClientId = 0xff then 0 else s.nextClientId

/-- A step is one of a module itself. -/
def allows : Op → Bool
  | .arrive _ => false
  | .call (.regNotify _ clientId) => clientId == s.clientId
  | _ => true

/-- The state behind a step of a module, but for what it posts. -/
def advance (i : ℕ) (op : Op) (t : ModuleState) : System :=
  { s with
    modules := Function.update s.modules i t
    nextClientId := if (s.modules i).registers op then s.clientId + 1 else s.nextClientId
    ext := ((s.modules i).extReply op).elim s.ext s.ext.deliver }

/-- A module goes on. -/
def stepModule (i : ℕ) (op : Op) : Option System :=
  if i < s.nrModule && s.allows op then
    ((s.modules i).step op).map fun t =>
      (s.advance i op t).postAll (t.sent.drop (s.modules i).sent.length)
  else none

/-- `_request_sync`, up to its wait. -/
def requestSync (thread dest : ℕ) (seqIdx : UInt8) (msg : List UInt8) : System :=
  let call : ExtCall := ⟨thread, s.ext.id, dest, seqIdx, msg⟩
  let e : Event := .start seqIdx s.ext.id none msg
  let ext : External := { s.ext with
    id := s.ext.id + 1
    waitRid := s.ext.id
    ready := false
    waiting := s.ext.waiting ++ [call]
    called := s.ext.called ++ [call]
    sent := s.ext.sent ++ [(dest, e)] }
  { s with ext := ext : System }.post dest e

/-- `_request_sync`, from the end of its wait on. -/
def wakeUp (thread : ℕ) : Option System :=
  match s.ext.waiting.find? fun c => c.thread == thread with
  | none => none
  | some c =>
    if s.ext.ready then
      some { s with
        ext := { s.ext with
          waitRid := 0xffffffff
          msg := []
          waiting := s.ext.waiting.erase c
          returned := s.ext.returned ++ [⟨c.thread, c.reqId, s.ext.result, s.ext.msg⟩] } }
    else some s

/-- `_request_async`. -/
def requestAsync (dest : ℕ) (seqIdx : UInt8) (msg : List UInt8) : System :=
  let e : Event := .start seqIdx s.ext.id none msg
  let ext : External := { s.ext with id := s.ext.id + 1, sent := s.ext.sent ++ [(dest, e)] }
  { s with ext := ext : System }.post dest e

/-- The step relation. -/
def step : SysOp → Option System
  | .module i op => s.stepModule i op
  | .requestSync thread dest seqIdx msg => some (s.requestSync thread dest seqIdx msg)
  | .wakeUp thread => s.wakeUp thread
  | .requestAsync dest seqIdx msg => some (s.requestAsync dest seqIdx msg)

end System

/-- A step of a module meets a condition there. -/
def Locally (ok : ModuleState → Op → Prop) (s : System) : SysOp → Prop
  | .module i op => ok (s.modules i) op
  | _ => True

instance locallyDecidable (ok : ModuleState → Op → Prop) [∀ m op, Decidable (ok m op)] (s : System)
    (op : SysOp) : Decidable (Locally ok s op) :=
  match op with
  | .module i op => inferInstanceAs (Decidable (ok (s.modules i) op))
  | .requestSync .. | .wakeUp _ | .requestAsync .. => isTrue trivial

/-- Who has sent an event. -/
def Event.sender : Event → Option ℕ
  | .start _ _ requester _ => requester
  | .reply _ i _ _ => some i
  | .notify i _ _ _ => some i

variable {s t : System} {op : SysOp} {op' : Op} {i j : ℕ} {e : Event} {l : List Sent}
  {ok : ModuleState → Op → Prop} {ok' : System → SysOp → Prop} {nrModule : ℕ} {nrSeq : ℕ → ℕ} {recvNotify : ℕ → Bool}

/-! ## Posting -/

namespace System

/-- What has arrived at a module. -/
def arrived (s : System) (j : ℕ) : List Event := (s.modules j).box.arrived

theorem post_modules : (s.post i e).modules j =
    if i = j ∧ j < s.nrModule then { s.modules j with box := (s.modules j).box.post e }
    else s.modules j := by
  unfold post
  by_cases hi : i < s.nrModule
  · rw [if_pos hi]
    by_cases heq : i = j
    · subst heq
      simp [hi]
    · rw [if_neg (fun h => heq h.1)]
      exact Function.update_of_ne (Ne.symm heq) _ _
  · rw [if_neg hi, if_neg]
    rintro ⟨rfl, hj⟩
    exact hi hj

@[simp] theorem post_ext : (s.post i e).ext = s.ext := by
  unfold post
  split <;> rfl

@[simp] theorem post_nrModule : (s.post i e).nrModule = s.nrModule := by
  unfold post
  split <;> rfl

@[simp] theorem post_nextClientId : (s.post i e).nextClientId = s.nextClientId := by
  unfold post
  split <;> rfl

theorem postAll_cons (x : Sent) : s.postAll (x :: l) = (s.post x.dest x.event).postAll l := rfl

@[simp] theorem postAll_rest : (s.postAll l).ext = s.ext ∧ (s.postAll l).nrModule = s.nrModule ∧
    (s.postAll l).nextClientId = s.nextClientId := by
  induction l generalizing s with
  | nil => exact ⟨rfl, rfl, rfl⟩
  | cons x l ih =>
    rw [postAll_cons]
    obtain ⟨hext, hnr, hid⟩ := ih (s := s.post x.dest x.event)
    exact ⟨hext.trans post_ext, hnr.trans post_nrModule, hid.trans post_nextClientId⟩

/-- **What is posted arrives** at the modules that there are. -/
theorem postAll_modules (hj : j < s.nrModule) : (s.postAll l).modules j =
    { s.modules j with
      box := ((l.filter fun x => x.dest == j).map Sent.event).foldl Mailbox.post
        (s.modules j).box } := by
  induction l generalizing s with
  | nil => rfl
  | cons x l ih =>
    rw [postAll_cons, ih (s := s.post x.dest x.event) (by rwa [post_nrModule]), post_modules,
      List.filter_cons]
    by_cases heq : x.dest = j
    · rw [if_pos ⟨heq, hj⟩, if_pos (by simpa using heq)]
      rfl
    · rw [if_neg (fun h => heq h.1), if_neg (by simpa using heq)]

theorem stepModule_eq_some : s.stepModule i op' = some t ↔ i < s.nrModule ∧ s.allows op' = true ∧
    ∃ m, (s.modules i).step op' = some m ∧
      (s.advance i op' m).postAll (m.sent.drop (s.modules i).sent.length) = t := by
  simp only [stepModule, Option.ite_none_right_eq_some, Bool.and_eq_true, decide_eq_true_eq,
    Option.map_eq_some_iff, and_assoc]

end System

/-! ## The runs of the modules -/

/-- An instance runs, and each module runs. -/
structure Runs (ok : ModuleState → Op → Prop) (s₀ s : System) : Prop where
  modules : ∀ i, Reach ModuleState.step ok (s₀.modules i) (s.modules i)
  nrModule : s.nrModule = s₀.nrModule

section Local

variable {s₀ : System} (harrive : ∀ m e, ok m (.arrive e))

include harrive in
theorem Runs.post (h : Runs ok s₀ s) : Runs ok s₀ (s.post i e) := by
  refine ⟨fun j => ?_, System.post_nrModule.trans h.nrModule⟩
  rw [System.post_modules]
  split_ifs
  · exact (h.modules j).tail (harrive _ e) rfl
  · exact h.modules j

include harrive in
theorem Runs.postAll (h : Runs ok s₀ s) : Runs ok s₀ (s.postAll l) := by
  induction l generalizing s with
  | nil => exact h
  | cons x l ih => exact ih (h.post harrive)

theorem Runs.of_eq (h : Runs ok s₀ s) (hmodules : t.modules = s.modules)
    (hnr : t.nrModule = s.nrModule) : Runs ok s₀ t :=
  ⟨by rw [hmodules]; exact h.modules, hnr.trans h.nrModule⟩

include harrive in
/-- **Each module runs by its own steps**, and those of the events that arrive. -/
theorem runs_of_reach (h : Reach System.step (Locally ok) s₀ s) : Runs ok s₀ s := by
  refine h.inv (Runs ok s₀) ⟨fun _ => .refl, rfl⟩ fun s op t hs ho ht => ?_
  cases op with
  | module i op =>
    obtain ⟨hi, hallows, m, hm, rfl⟩ := System.stepModule_eq_some.mp ht
    refine Runs.postAll harrive ⟨fun j => ?_, hs.nrModule⟩
    show Reach _ _ _ (Function.update s.modules i m j)
    rw [Function.update_apply]
    split_ifs with heq
    · subst heq
      exact (hs.modules j).tail ho hm
    · exact hs.modules j
  | requestSync thread dest seqIdx msg =>
    cases ht
    exact Runs.post harrive (hs.of_eq rfl rfl)
  | wakeUp thread =>
    simp only [System.step, System.wakeUp] at ht
    split at ht
    · cases ht
    · split_ifs at ht <;> cases ht <;> exact hs.of_eq rfl rfl
  | requestAsync dest seqIdx msg =>
    cases ht
    exact Runs.post harrive (hs.of_eq rfl rfl)

end Local

theorem module_of_reach (h : Reach System.step (Locally ok) (.initial nrModule nrSeq recvNotify) s)
    (harrive : ∀ m e, ok m (.arrive e)) (i : ℕ) :
    Reach ModuleState.step ok (.initial i (nrSeq i) (recvNotify i)) (s.modules i) :=
  (runs_of_reach harrive h).modules i

theorem idx_of_reach {m : ModuleState} {nrSeq : ℕ} {recvNotify : Bool}
    (h : Reach ModuleState.step ok (.initial i nrSeq recvNotify) m) : m.idx = i :=
  h.inv (fun s => s.idx = i) rfl fun _ _ _ hs _ ht =>
    (sent_of_move (ModuleState.move_of_step ht)).1.1.trans hs

theorem recvNotify_of_reach {m : ModuleState} {nrSeq : ℕ} {recvNotify : Bool}
    (h : Reach ModuleState.step ok (.initial i nrSeq recvNotify) m) : m.recvNotify = recvNotify :=
  h.inv (fun s => s.recvNotify = recvNotify) rfl fun _ _ _ hs _ ht =>
    (sent_of_move (ModuleState.move_of_step ht)).1.2.trans hs

theorem sender_of_sent {m : ModuleState} (h : Traced m) (x : Sent) (hx : x ∈ m.sent) :
    x.event.sender = some m.idx := by
  have hcaused := h.sent x hx
  unfold ModuleState.IsCaused at hcaused
  unfold Event.sender
  split <;> rename_i hevent <;> rw [hevent] at hcaused
  · exact hcaused
  · exact congrArg some hcaused.1
  · exact congrArg some hcaused.1

/-! ## The channels -/

/-- **What arrives from a module is what it has sent**, and from other threads what they have. -/
structure Channels (s : System) : Prop where
  module : ∀ i j, i < s.nrModule → j < s.nrModule →
    (s.arrived j).filter (fun e => e.sender == some i) =
      ((s.modules i).sent.filter fun x => x.dest == j).map Sent.event
  ext : ∀ j, j < s.nrModule → (s.arrived j).filter (fun e => e.sender == none) =
    (s.ext.sent.filter fun x => x.1 == j).map Prod.snd
  sender : ∀ j, j < s.nrModule → ∀ e ∈ s.arrived j, ∀ i, e.sender = some i → i < s.nrModule

theorem channels_initial : Channels (.initial nrModule nrSeq recvNotify) :=
  ⟨fun _ _ _ _ => rfl, fun _ _ => rfl, fun j _ e he => by
    simp [System.arrived, System.initial, ModuleState.initial, Mailbox.empty] at he⟩

namespace Channels

theorem of_eq (h : Channels s) (hmodules : t.modules = s.modules) (hnr : t.nrModule = s.nrModule)
    (hsent : t.ext.sent = s.ext.sent) : Channels t := by
  have harrived : t.arrived = s.arrived := by
    funext j
    rw [System.arrived, hmodules, System.arrived]
  refine ⟨?_, ?_, ?_⟩
  · rw [harrived, hmodules, hnr]
    exact h.module
  · rw [harrived, hsent, hnr]
    exact h.ext
  · rw [harrived, hnr]
    exact h.sender

theorem request (h : Channels s) {dest : ℕ} (he : e.sender = none) {x : External}
    (hsent : x.sent = s.ext.sent ++ [(dest, e)]) : Channels (({ s with ext := x } : System).post dest e) := by
  have harrived : ∀ j, j < s.nrModule → (({ s with ext := x } : System).post dest e).arrived j =
      s.arrived j ++ if dest = j then [e] else [] := by
    intro j hj
    rw [System.arrived, System.post_modules]
    by_cases heq : dest = j
    · rw [if_pos ⟨heq, hj⟩, if_pos heq]
      rfl
    · rw [if_neg (fun h => heq h.1), if_neg heq, List.append_nil]
      rfl
  have hnr : (({ s with ext := x } : System).post dest e).nrModule = s.nrModule := System.post_nrModule
  have hmodules : ∀ i, ((({ s with ext := x } : System).post dest e).modules i).sent =
      (s.modules i).sent := by
    intro i
    rw [System.post_modules]
    split_ifs <;> rfl
  refine ⟨fun i j hi hj => ?_, fun j hj => ?_, fun j hj e' he' i hi => ?_⟩
  · rw [hnr] at hi hj
    rw [harrived j hj, hmodules, List.filter_append, h.module i j hi hj]
    split_ifs <;> simp [he]
  · rw [hnr] at hj
    rw [harrived j hj, System.post_ext, hsent, List.filter_append, List.filter_append, List.map_append,
      h.ext j hj]
    by_cases heq : dest = j <;> simp [heq, he]
  · rw [hnr] at hj ⊢
    rw [harrived j hj] at he'
    rcases List.mem_append.mp he' with he' | he'
    · exact h.sender j hj e' he' i hi
    · split_ifs at he'
      · rw [List.mem_singleton.mp he', he] at hi
        cases hi
      · cases he'

theorem advance (h : Channels s) {m : ModuleState} (hi : i < s.nrModule)
    (hsent : (s.modules i).sent <+: m.sent) (hbox : m.box.arrived = (s.modules i).box.arrived)
    (hsender : ∀ x ∈ m.sent, x.event.sender = some i) :
    Channels ((s.advance i op' m).postAll (m.sent.drop (s.modules i).sent.length)) := by
  obtain ⟨l, hl⟩ := hsent
  rw [← hl, List.drop_left]
  have hnew : ∀ x ∈ l, x.event.sender = some i := fun x hx =>
    hsender x (hl ▸ List.mem_append_right _ hx)
  obtain ⟨hext, hnr, -⟩ := System.postAll_rest (s := s.advance i op' m) (l := l)
  have hnr : ((s.advance i op' m).postAll l).nrModule = s.nrModule := hnr
  have harrived : ∀ j, j < s.nrModule → ((s.advance i op' m).postAll l).arrived j =
      s.arrived j ++ (l.filter fun x => x.dest == j).map Sent.event := by
    intro j hj
    rw [System.arrived, System.postAll_modules (s := s.advance i op' m) hj]
    refine (Mailbox.arrived_foldl_post _ _).trans ?_
    congr 1
    show (Function.update s.modules i m j).box.arrived = _
    rw [Function.update_apply]
    split_ifs with heq
    · rw [hbox, heq]
      rfl
    · rfl
  have hsentOf : ∀ k, k < s.nrModule → (((s.advance i op' m).postAll l).modules k).sent =
      (s.modules k).sent ++ if k = i then l else [] := by
    intro k hk
    rw [System.postAll_modules (s := s.advance i op' m) hk]
    show (Function.update s.modules i m k).sent = _
    rw [Function.update_apply]
    split_ifs with heq
    · rw [← hl, heq]
    · exact (List.append_nil _).symm
  have hfrom : ∀ (q : Option ℕ) (j : ℕ), ((l.filter fun x => x.dest == j).map Sent.event).filter
      (fun e => e.sender == q) = if q = some i then (l.filter fun x => x.dest == j).map Sent.event
        else [] := by
    intro q j
    split_ifs with hq
    · rw [List.filter_eq_self]
      intro e he
      obtain ⟨x, hx, rfl⟩ := List.mem_map.mp he
      rw [hnew x (List.mem_of_mem_filter hx), hq]
      exact beq_self_eq_true _
    · rw [List.filter_eq_nil_iff]
      intro e he
      obtain ⟨x, hx, rfl⟩ := List.mem_map.mp he
      rw [hnew x (List.mem_of_mem_filter hx)]
      simpa using Ne.symm hq
  refine ⟨fun k j hk hj => ?_, fun j hj => ?_, fun j hj e he k hk => ?_⟩
  · rw [hnr] at hk hj
    rw [harrived j hj, hsentOf k hk, List.filter_append, List.filter_append, List.map_append,
      h.module k j hk hj, hfrom]
    by_cases heq : k = i
    · rw [if_pos (congrArg some heq), if_pos heq]
    · rw [if_neg (fun h => heq (Option.some.inj h)), if_neg heq]
      rfl
  · rw [hnr] at hj
    rw [harrived j hj, List.filter_append, h.ext j hj, hfrom, if_neg (by simp), List.append_nil, hext]
    congr 2
    show s.ext.sent = (((s.modules i).extReply op').elim s.ext s.ext.deliver).sent
    cases (s.modules i).extReply op' with
    | none => rfl
    | some r =>
      show s.ext.sent = (s.ext.deliver r).sent
      unfold External.deliver
      split <;> rfl
  · rw [hnr] at hj ⊢
    rw [harrived j hj] at he
    rcases List.mem_append.mp he with he | he
    · exact h.sender j hj e he k hk
    · obtain ⟨x, hx, rfl⟩ := List.mem_map.mp he
      rw [hnew x (List.mem_of_mem_filter hx)] at hk
      cases hk
      exact hi

end Channels

/-- By a step of its own a module receives nothing. -/
theorem arrived_of_move {m m' : ModuleState} {op : Op} (ht : Move m op m')
    (harrive : s.allows op = true) : m'.box.arrived = m.box.arrived := by
  cases ht with
  | arrive e => cases harrive
  | take now hcurrent hphase => exact Mailbox.take_arrived _
  | call p f c hcurrent hp => rw [(call_loop p f c).2]
  | _ => rfl

/-- **What arrives at a module from another one is what that has sent**, in every state reached. -/
theorem channel_of_reach (h : Reach System.step ok' (.initial nrModule nrSeq recvNotify) s) :
    Channels s := by
  have hany : Reach System.step (Locally anyStep) (.initial nrModule nrSeq recvNotify) s :=
    h.mono fun _ op _ => by cases op <;> trivial
  clear h
  induction hany with
  | refl => exact channels_initial
  | @tail s t op hs ho ht ih =>
    cases op with
    | module i op =>
      obtain ⟨hi, hallows, m, hm, rfl⟩ := System.stepModule_eq_some.mp ht
      have hreach := module_of_reach hs (fun _ _ => trivial) i
      have hmove := ModuleState.move_of_step hm
      have hreach' := Reach.tail hreach trivial hm
      refine ih.advance hi (sent_of_move hmove).2 (arrived_of_move hmove hallows) fun x hx => ?_
      rw [sender_of_sent (traced_of_reach hreach') x hx, idx_of_reach hreach']
    | requestSync thread dest seqIdx msg =>
      cases ht
      exact ih.request rfl rfl
    | wakeUp thread =>
      simp only [System.step, System.wakeUp] at ht
      split at ht
      · cases ht
      · split_ifs at ht <;> cases ht <;> exact ih.of_eq rfl rfl rfl
    | requestAsync dest seqIdx msg =>
      cases ht
      exact ih.request rfl rfl

end Coseq

end AutoRec
