import AutoRec.Channel.Names
import AutoRec.Lib.Machine
import AutoRec.Lib.Mailbox
import Mathlib.Logic.Function.Basic
import Mathlib.Tactic.Simps.Basic

/-!
# A module of coseq

A module is a thread with its own scheduler (`third_party/coseq/coseq/coseq.c`). Other threads post
events to its inbox. Its loop takes the events, goes on with the sequences of which the time has come,
starts a sequence for each request and each notification, and gives replies to the sequences that
have asked. A sequence runs until it waits; what it calls meanwhile, and in which order, is open here.
Allocations succeed, `setup` and `teardown` are left out.

* `Timespec`, `Event`, `Fiber`, `ModuleState`: the data. A pointer to a fiber is a number that is
  never used again; `heap` is what it points to.
* `handleReply`, `dispatch`, `handle`, `take`, `timer`, `reapDone`: the loop, cut where other threads
  may come in between.
* `Call`, `call`: what a sequence calls.
* `Op`, `step`: the step relation of a module.
-/

namespace AutoRec

namespace Coseq

/-! ## Times -/

/-- `struct timespec`. -/
structure Timespec where
  sec : ℕ
  nsec : ℕ
  nsec_lt : nsec < 1000000000
deriving DecidableEq

/-- The time that a module starts from. -/
def Timespec.zero : Timespec := ⟨0, 0, by decide⟩

/-- `ts_add_ms`. -/
def tsAddMs (t : Timespec) (ms : UInt32) : Timespec :=
  if h : t.nsec + ms.toNat % 1000 * 1000000 ≥ 1000000000 then
    ⟨t.sec + ms.toNat / 1000 + 1, t.nsec + ms.toNat % 1000 * 1000000 - 1000000000, by
      have := t.nsec_lt
      omega⟩
  else ⟨t.sec + ms.toNat / 1000, t.nsec + ms.toNat % 1000 * 1000000, by omega⟩

/-- `ts_lt`. -/
def tsLt (a b : Timespec) : Bool := a.sec < b.sec || (a.sec == b.sec && a.nsec < b.nsec)

/-! ## The data -/

/-- `ev_t`. A requester that is no module, `EXTERNAL`, is `none`. -/
inductive Event
  | start (seqIdx : UInt8) (reqId : UInt32) (requester : Option ℕ) (msg : List UInt8)
  | reply (reqId : UInt32) (requester : ℕ) (result : CoseqResult) (msg : List UInt8)
  | notify (requester : ℕ) (category clientId : UInt8) (msg : List UInt8)
deriving DecidableEq

/-- The event is `EV_NOTIFY`. -/
def Event.isNotify : Event → Bool
  | .notify .. => true
  | _ => false

/-- `coseq_src_t`, with `src_buf`. -/
structure Source extends CoseqSource where
  threadIdx : UInt8
  seqIdx : UInt8
  clientId : UInt8
  reqId : UInt32

/-- The message that a sequence reads. -/
def Source.msg (s : Source) : List UInt8 := s.srcBuf.take s.size

/-- `(uint8_t)` of the index of a module, or of `EXTERNAL`. -/
def threadIdxOf : Option ℕ → UInt8
  | some i => UInt8.ofNat i
  | none => 255

/-- `set_src`. -/
def Source.set (s : Source) (msg : List UInt8) (r : CoseqResult) (threadIdx seqIdx clientId : UInt8)
    (reqId : UInt32) : Source :=
  ⟨s.toCoseqSource.setSrc msg r, threadIdx, seqIdx, clientId, reqId⟩

/-- `reply_rec_t`. -/
structure ReplyRec where
  reqId : UInt32
  result : CoseqResult
  msg : List UInt8
deriving DecidableEq

/-- `fiber_t`, with the event that it was started for, and whether it has not waited yet. -/
structure Fiber where
  seqIdx : UInt8
  replyTo : Option ℕ
  replyReqId : UInt32
  src : Source
  waitingReply : Bool
  waitReqId : UInt32
  waitingTimer : Bool
  deadline : Timespec
  waitingAny : Bool
  asyncOutstanding : ℤ
  rq : List ReplyRec
  done : Bool
  origin : Event
  fresh : Bool

/-- `notify_client_t`. -/
structure NotifyClient where
  category : UInt8
  listenerModule : ℕ
  clientId : UInt8
deriving DecidableEq

/-- Where the loop is: it is about to take events, goes through the fibers, or through the events. -/
inductive Phase
  | top
  | timers (now : Timespec) (left : List ℕ)
  | events

/-- An event that a fiber has posted to a module. -/
structure Sent where
  fiber : ℕ
  dest : ℕ
  event : Event
deriving DecidableEq

/-- `module_t`. From `nextFiber` on it is what has happened: the fibers that there have been, the
requests of which a reply is awaited, what has been posted, the fibers that have been started, the
replies that they have been given, the requests that have run out of time, the listeners that have
registered, and whether a fiber has been used after it was freed. -/
structure ModuleState where
  idx : ℕ
  nrSeq : ℕ
  recvNotify : Bool
  box : Mailbox Event
  heap : ℕ → Option Fiber
  fibers : List ℕ
  pending : List (UInt32 × ℕ)
  notifyClients : List NotifyClient
  nextReqId : UInt32
  current : Option ℕ
  lockedBy : Option ℕ
  phase : Phase
  nextFiber : ℕ
  asked : List (ℕ × UInt32)
  sent : List Sent
  started : List (ℕ × Event)
  returned : List (ℕ × Source)
  timedOut : List (ℕ × UInt32)
  registered : List (ℕ × NotifyClient)
  fault : Bool

/-- What a sequence calls. `now` is what the clock shows, `clientId` the number that the instance has
next. -/
inductive Call
  | request (dest : ℕ) (seqIdx : UInt8) (msg : List UInt8) (timeout : Option (Timespec × UInt32))
  | requestAsync (dest : ℕ) (seqIdx : UInt8) (msg : List UInt8)
  | waitReply
  | send (dest : ℕ) (seqIdx : UInt8) (msg : List UInt8)
  | reply (result : CoseqResult) (msg : List UInt8)
  | waitTimeout (now : Timespec) (msec : UInt32)
  | regNotify (category clientId : UInt8)
  | unregNotify (category clientId : UInt8)
  | notify (category : UInt8) (msg : List UInt8)
  | lock
  | unlock
  | exit

/-- The steps: another thread posts an event, the loop goes on, or the running sequence calls. -/
inductive Op
  | arrive (e : Event)
  | take (now : Timespec)
  | timer
  | handle
  | reap
  | call (c : Call)

namespace Fiber

/-- `resume`, of the fiber: nothing is awaited any more. `coseq_wait_reply` then counts the reply. -/
def resumed (f : Fiber) : Fiber :=
  { f with
    waitingTimer := false
    waitingReply := false
    waitingAny := false
    asyncOutstanding := if f.waitingAny then f.asyncOutstanding - 1 else f.asyncOutstanding }

/-- A fiber as `new_fiber` makes it. -/
def init (e : Event) (seqIdx : UInt8) (replyTo : Option ℕ) (replyReqId : UInt32) (msg : List UInt8)
    (r : CoseqResult) (threadIdx clientId : UInt8) : Fiber where
  seqIdx := seqIdx
  replyTo := replyTo
  replyReqId := replyReqId
  src := Source.set ⟨⟨[], 0, .ignore⟩, 0, 0, 0, 0⟩ msg r threadIdx seqIdx clientId replyReqId
  waitingReply := false
  waitReqId := 0
  waitingTimer := false
  deadline := .zero
  waitingAny := false
  asyncOutstanding := 0
  rq := []
  done := false
  origin := e
  fresh := true

/-- `coseq_wait_reply` has nothing to wait for, and returns `NULL`. -/
def nothingToWait (f : Fiber) : Bool := f.asyncOutstanding == 0 && f.rq.isEmpty

/-- The first reply of the queue has been taken. -/
def dequeued (f : Fiber) (rr : ReplyRec) (rq : List ReplyRec) : Fiber :=
  { f with
    rq := rq
    src := f.src.set rr.msg rr.result 0 f.seqIdx 0 rr.reqId
    asyncOutstanding := f.asyncOutstanding - 1 }

end Fiber

namespace ModuleState

/-- A module behind `setup`. -/
def initial (idx nrSeq : ℕ) (recvNotify : Bool) : ModuleState where
  idx := idx
  nrSeq := nrSeq
  recvNotify := recvNotify
  box := .empty
  heap := fun _ => none
  fibers := []
  pending := []
  notifyClients := []
  nextReqId := 1
  current := none
  lockedBy := none
  phase := .top
  nextFiber := 0
  asked := []
  sent := []
  started := []
  returned := []
  timedOut := []
  registered := []
  fault := false

variable (m : ModuleState)

/-! ## Fibers -/

/-- What a pointer points to. -/
@[simps]
def setFiber (p : ℕ) (f : Fiber) : ModuleState :=
  { m with heap := Function.update m.heap p (some f) }

/-- `resume`: the fiber runs. -/
@[simps]
def resume (p : ℕ) (f : Fiber) : ModuleState := { m.setFiber p f.resumed with current := some p }

/-- `resume` with a reply. -/
@[simps]
def resumeWith (p : ℕ) (f : Fiber) : ModuleState :=
  { m.resume p f with returned := m.returned ++ [(p, f.src)] }

/-- `swapcontext` to the loop: the fiber waits. -/
@[simps]
def yield (p : ℕ) (f : Fiber) : ModuleState :=
  { m.setFiber p { f with fresh := false } with current := none }

/-- `new_fiber` for an event, which then runs. -/
@[simps]
def newFiber (e : Event) (f : Fiber) : ModuleState :=
  { m.resume m.nextFiber f with
    fibers := m.nextFiber :: m.fibers
    nextFiber := m.nextFiber + 1
    started := m.started ++ [(m.nextFiber, e)] }

/-! ## Replies -/

/-- `pending_add`. -/
@[simps]
def pendingAdd (reqId : UInt32) (p : ℕ) : ModuleState :=
  { m with pending := (reqId, p) :: m.pending, asked := m.asked ++ [(p, reqId)] }

/-- `pending_peek`. -/
def pendingPeek (reqId : UInt32) : Option ℕ :=
  (m.pending.find? fun q => q.1 == reqId).map Prod.snd

/-- `pending_take`. -/
@[simps]
def pendingTake (reqId : UInt32) : ModuleState :=
  { m with pending := m.pending.eraseP fun q => q.1 == reqId }

/-- `handle_reply`. The first two branches of the source do the same. -/
def handleReply (reqId : UInt32) (requester : ℕ) (result : CoseqResult) (msg : List UInt8) :
    ModuleState :=
  match m.pendingPeek reqId with
  | none => m
  | some p =>
    match m.heap p with
    | none => { m with fault := true }
    | some f =>
      if (f.waitingReply && f.waitReqId == reqId) || f.waitingAny then
        (m.pendingTake reqId).resumeWith p
          { f with src := f.src.set msg result (threadIdxOf requester) f.seqIdx 0 reqId }
      else
        (m.pendingTake reqId).setFiber p { f with rq := f.rq ++ [⟨reqId, result, msg⟩] }

/-! ## The loop -/

/-- An event is handled. -/
def dispatch (e : Event) : ModuleState :=
  match e with
  | .start seqIdx reqId requester msg =>
    if m.nrSeq ≤ seqIdx.toNat then m
    else m.newFiber e (.init e seqIdx requester reqId msg .ignore (threadIdxOf requester) 0)
  | .reply reqId requester result msg => m.handleReply reqId requester result msg
  | .notify requester _ clientId msg =>
    if m.recvNotify then
      m.newFiber e (.init e 0 none 0 msg .success (threadIdxOf requester) clientId)
    else m

/-- The event is a reply for the fiber that has locked the module. -/
def isForHolder : Event → Bool
  | .reply reqId .. => m.pendingPeek reqId == m.lockedBy
  | _ => false

/-- The event is deferred, as the module is locked. -/
def defers (e : Event) : Bool := m.lockedBy.isSome && !e.isNotify && !m.isForHolder e

/-- The next event is handled, or deferred. -/
def handle : Option ModuleState :=
  match m.box.batch with
  | [] => none
  | x :: _ =>
    if m.defers x.body then some { m with box := m.box.deferNext }
    else some ({ m with box := m.box.handleNext }.dispatch x.body)

/-- The loop takes the events out of the inbox, and looks at the clock. -/
@[simps]
def take (now : Timespec) : ModuleState :=
  { m with box := m.box.take m.lockedBy.isNone, phase := .timers now m.fibers }

/-- The time of a fiber has come, and it may go on. -/
def isDue (now : Timespec) (p : ℕ) (f : Fiber) : Bool :=
  f.waitingTimer && !tsLt now f.deadline && m.lockedBy.all (· == p)

/-- The loop over the fibers, for one of them. -/
def timerOne (now : Timespec) (p : ℕ) : ModuleState :=
  match m.heap p with
  | none => { m with fault := true }
  | some f =>
    if m.isDue now p f then
      if f.waitingReply then
        { m.pendingTake f.waitReqId with timedOut := m.timedOut ++ [(p, f.waitReqId)] }.resume p
          { f with src := f.src.set [] .requestTimeout 0 f.seqIdx 0 f.waitReqId }
      else m.resume p f
    else m

/-- The loop over the fibers. -/
def timer : Option ModuleState :=
  match m.phase with
  | .timers _ [] => some { m with phase := .events }
  | .timers now (p :: left) => some ({ m with phase := .timers now left }.timerOne now p)
  | _ => none

/-- The fiber is done. -/
def isDone (p : ℕ) : Bool := (m.heap p).any fun f => f.done

/-- `reap_done`. -/
@[simps]
def reapDone : ModuleState :=
  { m with
    fibers := m.fibers.filter fun p => !m.isDone p
    heap := fun p => if m.isDone p then none else m.heap p
    lockedBy := m.lockedBy.filter fun p => !m.isDone p
    phase := .top }

/-! ## What a sequence calls -/

/-- `post` of `EV_START`, with the next number. -/
@[simps]
def postStart (p dest : ℕ) (seqIdx : UInt8) (msg : List UInt8) : ModuleState :=
  { m with
    nextReqId := m.nextReqId + 1
    sent := m.sent ++ [⟨p, dest, .start seqIdx m.nextReqId (some m.idx) msg⟩] }

/-- `request_common`. -/
def request (p : ℕ) (f : Fiber) (dest : ℕ) (seqIdx : UInt8) (msg : List UInt8)
    (timeout : Option (Timespec × UInt32)) : ModuleState :=
  let waiting : Fiber := { f with waitingReply := true, waitReqId := m.nextReqId }
  ((m.pendingAdd m.nextReqId p).postStart p dest seqIdx msg).yield p <|
    match timeout with
    | none => waiting
    | some (now, msec) => { waiting with waitingTimer := true, deadline := tsAddMs now msec }

/-- `coseq_request_async`. -/
def requestAsync (p : ℕ) (f : Fiber) (dest : ℕ) (seqIdx : UInt8) (msg : List UInt8) : ModuleState :=
  ((m.pendingAdd m.nextReqId p).postStart p dest seqIdx msg).setFiber p
    { f with asyncOutstanding := f.asyncOutstanding + 1 }

/-- `coseq_wait_reply`. -/
def waitReply (p : ℕ) (f : Fiber) : ModuleState :=
  if f.nothingToWait then m
  else
    match f.rq with
    | [] => m.yield p { f with waitingAny := true }
    | rr :: rq =>
      { m.setFiber p (f.dequeued rr rq) with
        returned := m.returned ++ [(p, (f.dequeued rr rq).src)] }

/-- `coseq_reply`. What goes to other threads than those of modules is not among the events. -/
def reply (p : ℕ) (f : Fiber) (result : CoseqResult) (msg : List UInt8) : ModuleState :=
  match f.replyTo with
  | none => m
  | some i => { m with sent := m.sent ++ [⟨p, i, .reply f.replyReqId m.idx result msg⟩] }

/-- `coseq_reg_notify`. -/
def regNotify (p : ℕ) (f : Fiber) (category clientId : UInt8) : ModuleState :=
  match f.replyTo with
  | none => m
  | some i =>
    { m with
      notifyClients := ⟨category, i, clientId⟩ :: m.notifyClients
      registered := m.registered ++ [(p, ⟨category, i, clientId⟩)] }

/-- `coseq_unreg_notify`. -/
def unregNotify (category clientId : UInt8) : ModuleState :=
  { m with
    notifyClients := m.notifyClients.eraseP fun nc =>
      nc.category == category && nc.clientId == clientId }

/-- `coseq_notify`. -/
def notify (p : ℕ) (category : UInt8) (msg : List UInt8) : ModuleState :=
  { m with
    sent := m.sent ++ (m.notifyClients.filter fun nc => nc.category == category).map fun nc =>
      ⟨p, nc.listenerModule, .notify m.idx category nc.clientId msg⟩ }

/-- `coseq_unlock`. -/
def unlock (p : ℕ) : ModuleState :=
  { m with lockedBy := if m.lockedBy = some p then none else m.lockedBy }

/-- The running sequence calls. -/
def call (p : ℕ) (f : Fiber) : Call → ModuleState
  | .request dest seqIdx msg timeout => m.request p f dest seqIdx msg timeout
  | .requestAsync dest seqIdx msg => m.requestAsync p f dest seqIdx msg
  | .waitReply => m.waitReply p f
  | .send dest seqIdx msg => m.postStart p dest seqIdx msg
  | .reply result msg => m.reply p f result msg
  | .waitTimeout now msec =>
    m.yield p { f with waitingTimer := true, deadline := tsAddMs now msec }
  | .regNotify category clientId => m.regNotify p f category clientId
  | .unregNotify category clientId => m.unregNotify category clientId
  | .notify category msg => m.notify p category msg
  | .lock => { m with lockedBy := some p }
  | .unlock => m.unlock p
  | .exit => { m.setFiber p { f with done := true } with current := none }

/-- The fiber that runs. -/
def running : Option (ℕ × Fiber) := m.current.bind fun p => (m.heap p).map (Prod.mk p)

/-- The step relation. -/
def step : Op → Option ModuleState
  | .arrive e => some { m with box := m.box.post e }
  | .take now =>
    match m.current, m.phase with
    | none, .top => some (m.take now)
    | _, _ => none
  | .timer => if m.current = none then m.timer else none
  | .handle =>
    match m.current, m.phase with
    | none, .events => m.handle
    | _, _ => none
  | .reap =>
    match m.current, m.phase with
    | none, .events => if m.box.batch.isEmpty then some m.reapDone else none
    | _, _ => none
  | .call c => m.running.map fun r => m.call r.1 r.2 c

end ModuleState

end Coseq

end AutoRec
