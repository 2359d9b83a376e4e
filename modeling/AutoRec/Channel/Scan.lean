import AutoRec.Channel.Table
import AutoRec.Lib.Machine

/-!
# The channel scan

`on_channel_scan` of `channel::manager` (`channel_manager/channel_manager.cpp`), on the thread of its
module (`third_party/coseq/coseq/coseq.c`). A sequence runs until it waits for a reply. The scan locks
the module: until it unlocks it, only the replies to its own requests are handled, and all other
events are deferred. Every event is one that another thread has posted, in any order and with any
reply. Dumps, the file that is saved, and the `tune_stop` and `close` sent at the end are left out.

* `Manager`, with `scanStart`, `scanResume`: the scan, up to its first request, and from a reply to
  the next request. `handle`, `step`: the loop of the thread.
* `Observation`: what has happened. `Registry`: what the lookups are to be answered from.
* `IsRight`, `FailsEmpty`: what is to hold of it, and when it does.
* `Inv`, `inv_of_reach`: the states of a run.
* **`scan_iff`**; `not_scan_always`: a scan that cannot open a tuner loses the table.
-/

namespace AutoRec

namespace ChannelManager

open OrderedMap Machine

/-! ## The model -/

/-- A reply to a request of the scan, with what there is in it for each of the requests. -/
structure Reply where
  result : CoseqResult
  groupId : UInt8
  network : NetworkInfo
  services : List EntryService
deriving DecidableEq

/-- A sequence is requested. -/
inductive Request
  | moduleUp (file : Option Table)
  | channelScan
  | lookup (q : Lookup)

/-- `ev_t`. -/
inductive Event
  | start (req : Request)
  | reply (reqId : UInt32) (r : Reply)

/-- The request that the scan waits for. The three requests `tune_stop` for a channel are one. -/
inductive ScanPhase
  | opening
  | tuning (ch : UInt16)
  | networkInfo (ch : UInt16)
  | serviceInfos (ch : UInt16) (info : NetworkInfo)
  | stopping (ch : UInt16)

/-- `fiber_t` of an `on_channel_scan` that waits for the reply with the number `reqId`. -/
structure ScanFiber where
  id : ℕ
  reqId : UInt32
  groupId : UInt8
  phase : ScanPhase

/-- What has happened: a lookup has been answered, a file loaded, or a scan has begun, has found
something on a channel or not, could not open a tuner, or has ended. -/
inductive Observation
  | answered (q : Lookup) (a : Answer)
  | loaded (file : Option Table)
  | began (before : Table)
  | heard (ch : UInt16) (found : Option Entry)
  | failed (after : Table)
  | ended (after : Table)
deriving DecidableEq

/-- `manager`, and its module. `batch` are the events that have been taken out of the inbox. A fiber
that is done is taken away at once. -/
structure Manager where
  channels : Table
  inbox : List Event
  batch : List Event
  deferred : List Event
  fibers : List ScanFiber
  lockedBy : Option ℕ
  nextReqId : UInt32
  nextFiber : ℕ
  log : List Observation

/-- The steps: another thread posts an event, the loop takes the events, and handles one. -/
inductive Op
  | post (e : Event)
  | take
  | handle

namespace Manager

/-- The module, with the table that it has. -/
def initial (t : Table) : Manager := ⟨t, [], [], [], [], none, 0, 0, []⟩

variable (m : Manager)

/-- `request`: the scan waits. -/
def wait (f : ScanFiber) (phase : ScanPhase) : Manager :=
  { m with
    fibers := { f with reqId := m.nextReqId, phase := phase } :: m.fibers
    nextReqId := m.nextReqId + 1 }

/-- What has been found on a channel. -/
def hear (ch : UInt16) (found : Option Entry) : Manager :=
  { m with log := m.log ++ [Observation.heard ch found] }

/-- `coseq_unlock`. -/
def unlock (f : ScanFiber) : Manager :=
  { m with lockedBy := if m.lockedBy = some f.id then none else m.lockedBy }

/-- `on_channel_scan`, up to its first request. -/
def scanStart : Manager :=
  let cleared : Manager := { m with
    lockedBy := some m.nextFiber
    channels := .empty
    nextFiber := m.nextFiber + 1
    log := m.log ++ [Observation.began m.channels] }
  cleared.wait ⟨m.nextFiber, 0, 0xff, .opening⟩ .opening

/-- `on_channel_scan`, from a reply on. -/
def scanResume (f : ScanFiber) (r : Reply) : Manager :=
  match f.phase with
  | .opening =>
    if r.result = .success then m.wait { f with groupId := r.groupId } (.tuning 13)
    else { m.unlock f with log := m.log ++ [Observation.failed m.channels] }
  | .tuning ch =>
    if r.result = .success then m.wait f (.networkInfo ch)
    else (m.hear ch none).wait f (.stopping ch)
  | .networkInfo ch =>
    if r.result = .success then m.wait f (.serviceInfos ch r.network)
    else (m.hear ch none).wait f (.stopping ch)
  | .serviceInfos ch info =>
    if r.result = .success ∧ r.services ≠ [] then
      let e := Entry.set ch info r.services
      ({ m with channels := addChannel m.channels ch e }.hear ch (some e)).wait f (.stopping ch)
    else (m.hear ch none).wait f (.stopping ch)
  | .stopping ch =>
    if ch + 1 ≤ 62 then m.wait f (.tuning (ch + 1))
    else { m.unlock f with log := m.log ++ [Observation.ended m.channels] }

/-- `pending_peek`. -/
def pendingPeek (reqId : UInt32) : Option ScanFiber := m.fibers.find? fun f => f.reqId == reqId

/-- The event is a reply for the fiber that has locked the module. -/
def isOwn (id : ℕ) : Event → Bool
  | .reply reqId _ => (m.pendingPeek reqId).any fun f => f.id == id
  | .start _ => false

/-- A sequence is started, or goes on with a reply. -/
def dispatch : Event → Manager
  | .start (.moduleUp file) =>
    { m with channels := file.getD m.channels, log := m.log ++ [Observation.loaded file] }
  | .start .channelScan => m.scanStart
  | .start (.lookup q) => { m with log := m.log ++ [Observation.answered q (q.answer m.channels)] }
  | .reply reqId r =>
    match m.pendingPeek reqId with
    | none => m
    | some f => { m with fibers := m.fibers.eraseP fun f => f.reqId == reqId }.scanResume f r

/-- An event is handled, or deferred. -/
def handle (e : Event) : Manager :=
  if m.lockedBy.any fun id => !m.isOwn id e then { m with deferred := m.deferred ++ [e] }
  else m.dispatch e

/-- The loop takes the events, those that have been deferred in front. -/
def take : Manager :=
  if m.lockedBy = none then { m with batch := m.deferred ++ m.inbox, inbox := [], deferred := [] }
  else { m with batch := m.inbox, inbox := [] }

/-- The step relation. -/
def step : Op → Option Manager
  | .post e => some { m with inbox := m.inbox ++ [e] }
  | .take => if m.batch.isEmpty then some m.take else none
  | .handle =>
    match m.batch with
    | [] => none
    | e :: batch => some ({ m with batch := batch }.handle e)

end Manager

/-! ## What is to hold -/

/-- The table that lookups are to be answered from, and of the last scan the table before it and what
has been found on the channels so far. -/
structure Registry where
  table : Table
  before : Table
  heard : List (UInt16 × Option Entry)

namespace Registry

/-- The registry after an observation. -/
def next (r : Registry) : Observation → Registry
  | .answered _ _ | .failed _ => r
  | .loaded file => { r with table := file.getD r.table }
  | .began before => { r with before := before, heard := [] }
  | .heard ch found => { r with heard := r.heard ++ [(ch, found)] }
  | .ended after => { r with table := after }

/-- The registry after what has happened. -/
def after (t : Table) (log : List Observation) : Registry := log.foldl next ⟨t, .empty, []⟩

end Registry

/-- The channels that are scanned before a channel. -/
def channelsBefore (ch : UInt16) : List UInt16 :=
  (List.range' 13 (ch.toNat - 13)).map UInt16.ofNat

/-- **An observation is right**: a lookup is answered from the registry, a scan that cannot open a
tuner leaves the table, and the table of a scan that has ended is that of all its channels. -/
def IsRight (r : Registry) : Observation → Prop
  | .answered q a => a = q.answer r.table
  | .began before => before = r.table
  | .failed after => after = r.before
  | .ended after => r.heard.map Prod.fst = channelsBefore 63 ∧ IsScanOf r.heard after
  | .loaded _ | .heard _ _ => True

/-- A scan that cannot open a tuner has not had a table before. -/
def FailsEmpty (r : Registry) : Observation → Prop
  | .failed _ => r.before = .empty
  | _ => True

/-- All that has happened meets `P`. -/
def Along (P : Registry → Observation → Prop) (t : Table) (log : List Observation) : Prop :=
  ∀ front x behind, log = front ++ x :: behind → P (.after t front) x

variable {P : Registry → Observation → Prop} {t : Table} {log : List Observation} {x : Observation}

theorem Registry.after_concat : Registry.after t (log ++ [x]) = (Registry.after t log).next x := by
  rw [Registry.after, List.foldl_append]
  rfl

theorem along_nil : Along P t [] := by
  rintro front x behind h
  simp at h

theorem along_concat : Along P t (log ++ [x]) ↔ Along P t log ∧ P (.after t log) x := by
  constructor
  · intro h
    refine ⟨fun front y behind hlog => h front y (behind ++ [x]) ?_, h log x [] rfl⟩
    rw [hlog, List.append_assoc, List.cons_append]
  · rintro ⟨h, hx⟩ front y behind hlog
    induction behind using List.reverseRecOn with
    | nil =>
      obtain ⟨rfl, hlast⟩ := List.append_inj' hlog rfl
      obtain rfl := List.singleton_inj.mp hlast
      exact hx
    | append_singleton behind b _ =>
      rw [← List.cons_append, ← List.append_assoc] at hlog
      exact h front y behind (List.append_inj' hlog rfl).1

/-! ## The channels -/

section Channels

variable {ch : UInt16} (hmin : 13 ≤ ch.toNat) (hmax : ch.toNat ≤ 62)

include hmax in
theorem toNat_succ : (ch + 1).toNat = ch.toNat + 1 := by
  rw [UInt16.toNat_add]
  exact Nat.mod_eq_of_lt (by simp; omega)

include hmin hmax in
theorem channelsBefore_succ : channelsBefore (ch + 1) = channelsBefore ch ++ [ch] := by
  obtain ⟨n, hn⟩ : ∃ n, ch.toNat = 13 + n := Nat.exists_eq_add_of_le hmin
  have hch : UInt16.ofNat (13 + n) = ch := by rw [← hn, UInt16.ofNat_toNat]
  rw [channelsBefore, channelsBefore, toNat_succ hmax, hn, Nat.add_sub_cancel_left, Nat.add_assoc,
    Nat.add_sub_cancel_left, List.range'_concat, List.map_append, Nat.one_mul, List.map_singleton,
    hch]

include hmax in
theorem notMem_channelsBefore : ch ∉ channelsBefore ch := by
  intro h
  obtain ⟨n, hn, heq⟩ := List.mem_map.mp h
  obtain ⟨hge, hlt⟩ := List.mem_range'_1.mp hn
  have hnat := congrArg UInt16.toNat heq
  rw [UInt16.toNat_ofNat'] at hnat
  omega

end Channels

/-! ## The states of a run -/

/-- What has been found, and is in the table, when a scan waits for a request. -/
def ScanPhase.Heard (heard : List (UInt16 × Option Entry)) : ScanPhase → Prop
  | .opening => heard = []
  | .tuning ch | .networkInfo ch | .serviceInfos ch _ =>
    13 ≤ ch.toNat ∧ ch.toNat ≤ 62 ∧ heard.map Prod.fst = channelsBefore ch
  | .stopping ch => 13 ≤ ch.toNat ∧ ch.toNat ≤ 62 ∧ heard.map Prod.fst = channelsBefore (ch + 1)

/-- A scan waits. -/
structure Scanning (t : Table) (m : Manager) (f : ScanFiber) : Prop where
  fibers : m.fibers = [f]
  heard : f.phase.Heard (Registry.after t m.log).heard
  channels : IsScanOf (Registry.after t m.log).heard m.channels
  before : Along FailsEmpty t m.log → (Registry.after t m.log).before = (Registry.after t m.log).table

/-- **The states of a run** that begins with the table `t`. -/
structure Inv (t : Table) (m : Manager) : Prop where
  idle : m.lockedBy = none →
    m.fibers = [] ∧ (Along FailsEmpty t m.log → m.channels = (Registry.after t m.log).table)
  scanning : ∀ id, m.lockedBy = some id → ∃ f, f.id = id ∧ Scanning t m f
  right : Along FailsEmpty t m.log → Along IsRight t m.log
  /-- Behind a scan that could not open a tuner there is nothing in the table. -/
  failed : Along (fun _ x => ∀ after, x = .failed after → after = .empty) t m.log

theorem inv_initial (t : Table) : Inv t (.initial t) :=
  ⟨fun _ => ⟨rfl, fun _ => rfl⟩, nofun, fun _ => along_nil, along_nil⟩

/-- A scan runs, and is about to wait or to end. -/
structure Running (t : Table) (m : Manager) (f : ScanFiber) : Prop where
  lockedBy : m.lockedBy = some f.id
  fibers : m.fibers = []
  channels : IsScanOf (Registry.after t m.log).heard m.channels
  before : Along FailsEmpty t m.log → (Registry.after t m.log).before = (Registry.after t m.log).table
  right : Along FailsEmpty t m.log → Along IsRight t m.log
  failed : Along (fun _ x => ∀ after, x = .failed after → after = .empty) t m.log

section Run

variable {m : Manager} {f : ScanFiber} {phase : ScanPhase} {ch : UInt16} {e : Entry} {r : Reply}

theorem right_concat (h : Along FailsEmpty t log → Along IsRight t log)
    (hx : Along FailsEmpty t log → FailsEmpty (.after t log) x → IsRight (.after t log) x) :
    Along FailsEmpty t (log ++ [x]) → Along IsRight t (log ++ [x]) := by
  intro hempty
  obtain ⟨hlog, hlast⟩ := along_concat.mp hempty
  exact along_concat.mpr ⟨h hlog, hx hlog hlast⟩

theorem Running.wait (h : Running t m f) (hphase : phase.Heard (Registry.after t m.log).heard) :
    Inv t (m.wait f phase) := by
  refine ⟨fun hlock => ?_, fun id hid => ?_, h.right, h.failed⟩
  · rw [Manager.wait, h.lockedBy] at hlock
    cases hlock
  · have hf : f.id = id := Option.some.inj (h.lockedBy.symm.trans hid)
    exact ⟨{ f with reqId := m.nextReqId, phase := phase }, hf, congrArg (_ :: ·) h.fibers, hphase,
      h.channels, h.before⟩

/-- **One channel more**, with a table that is the one of what has been found with it. -/
theorem Running.hear {found : Option Entry} {channels : Table} (h : Running t m f)
    (hscan : IsScanOf ((Registry.after t m.log).heard ++ [(ch, found)]) channels) :
    Running t (Manager.hear { m with channels := channels } ch found) f := by
  refine ⟨h.lockedBy, h.fibers, ?_, fun hempty => ?_, ?_, ?_⟩
  · rw [Manager.hear, Registry.after_concat]
    exact hscan
  · rw [Manager.hear, Registry.after_concat]
    exact h.before (along_concat.mp hempty).1
  · exact right_concat h.right fun _ _ => trivial
  · exact along_concat.mpr ⟨h.failed, nofun⟩

theorem Running.hear_none (h : Running t m f) (ch : UInt16) : Running t (m.hear ch none) f :=
  h.hear h.channels.skip

theorem Running.hear_some (h : Running t m f)
    (hch : ch ∉ (Registry.after t m.log).heard.map Prod.fst) :
    Running t (Manager.hear { m with channels := addChannel m.channels ch e } ch (some e)) f :=
  h.hear (h.channels.addChannel hch)

/-- **It cannot open a tuner**, and leaves the table empty. -/
theorem Running.fail (h : Running t m f) (hheard : (Registry.after t m.log).heard = []) :
    Inv t { m.unlock f with log := m.log ++ [Observation.failed m.channels] } := by
  have hchannels : m.channels = .empty := by
    have hscan := h.channels
    rw [hheard] at hscan
    exact hscan.unique isScanOf_nil
  refine ⟨fun _ => ⟨h.fibers, fun hempty => ?_⟩, fun id hid => ?_, ?_, ?_⟩
  · obtain ⟨hlog, hlast⟩ := along_concat.mp hempty
    rw [Registry.after_concat]
    exact hchannels.trans (hlast.symm.trans (h.before hlog))
  · rw [Manager.unlock, if_pos h.lockedBy] at hid
    cases hid
  · exact right_concat h.right fun _ hlast => hchannels.trans hlast.symm
  · refine along_concat.mpr ⟨h.failed, ?_⟩
    rintro after ⟨⟩
    exact hchannels

/-- **It ends**, and its table is the one from now on. -/
theorem Running.ends (h : Running t m f)
    (hheard : (Registry.after t m.log).heard.map Prod.fst = channelsBefore 63) :
    Inv t { m.unlock f with log := m.log ++ [Observation.ended m.channels] } := by
  refine ⟨fun _ => ⟨h.fibers, fun _ => ?_⟩, fun id hid => ?_, ?_, ?_⟩
  · rw [Registry.after_concat]
    rfl
  · rw [Manager.unlock, if_pos h.lockedBy] at hid
    cases hid
  · exact right_concat h.right fun _ _ => ⟨hheard, h.channels⟩
  · exact along_concat.mpr ⟨h.failed, nofun⟩

theorem heard_concat {heard : List (UInt16 × Option Entry)} (found : Option Entry)
    (h : (ScanPhase.tuning ch).Heard heard) :
    (ScanPhase.stopping ch).Heard (heard ++ [(ch, found)]) := by
  obtain ⟨hmin, hmax, hheard⟩ := h
  refine ⟨hmin, hmax, ?_⟩
  rw [List.map_append, hheard, channelsBefore_succ hmin hmax]
  rfl

theorem Running.skip (h : Running t m f)
    (hphase : (ScanPhase.tuning ch).Heard (Registry.after t m.log).heard) :
    Inv t ((m.hear ch none).wait f (.stopping ch)) := by
  refine (h.hear_none ch).wait ?_
  rw [Manager.hear, Registry.after_concat]
  exact heard_concat none hphase

/-- **From a reply on.** -/
theorem Running.scanResume (h : Running t m f)
    (hphase : f.phase.Heard (Registry.after t m.log).heard) : Inv t (m.scanResume f r) := by
  cases hp : f.phase with
  | opening =>
    rw [hp] at hphase
    simp only [Manager.scanResume, hp]
    split_ifs
    · have hopened : Running t m { f with groupId := r.groupId } :=
        ⟨h.lockedBy, h.fibers, h.channels, h.before, h.right, h.failed⟩
      refine hopened.wait ⟨by decide, by decide, ?_⟩
      rw [hphase]
      rfl
    · exact h.fail hphase
  | tuning ch =>
    rw [hp] at hphase
    simp only [Manager.scanResume, hp]
    split_ifs
    · exact h.wait hphase
    · exact h.skip hphase
  | networkInfo ch =>
    rw [hp] at hphase
    simp only [Manager.scanResume, hp]
    split_ifs
    · exact h.wait hphase
    · exact h.skip hphase
  | serviceInfos ch info =>
    rw [hp] at hphase
    simp only [Manager.scanResume, hp]
    split_ifs
    · have hch : ch ∉ (Registry.after t m.log).heard.map Prod.fst := by
        rw [hphase.2.2]
        exact notMem_channelsBefore hphase.2.1
      refine (h.hear_some hch).wait ?_
      rw [Manager.hear, Registry.after_concat]
      exact heard_concat _ hphase
    · exact h.skip hphase
  | stopping ch =>
    rw [hp] at hphase
    obtain ⟨hmin, hmax, hheard⟩ := hphase
    have hsucc := toNat_succ hmax
    simp only [Manager.scanResume, hp]
    split_ifs with hlast
    · have hle : (ch + 1).toNat ≤ 62 := UInt16.le_iff_toNat_le.mp hlast
      exact h.wait ⟨by omega, hle, hheard⟩
    · have hgt : ¬ (ch + 1).toNat ≤ 62 := fun hle => hlast (UInt16.le_iff_toNat_le.mpr hle)
      have hend : ch + 1 = 63 := UInt16.toNat_inj.mp (by rw [hsucc]; show _ = 63; omega)
      exact h.ends (hend ▸ hheard)

end Run

section Steps

variable {m m' : Manager} {op : Op}

theorem Inv.start (h : Inv t m) (hlock : m.lockedBy = none) (req : Request) :
    Inv t (m.dispatch (.start req)) := by
  obtain ⟨hfibers, hchannels⟩ := h.idle hlock
  cases req with
  | moduleUp file =>
    refine ⟨fun _ => ⟨hfibers, fun hempty => ?_⟩, fun id hid => ?_, ?_, ?_⟩
    · rw [Manager.dispatch, Registry.after_concat]
      exact congrArg file.getD (hchannels (along_concat.mp hempty).1)
    · cases hlock.symm.trans hid
    · exact right_concat h.right fun _ _ => trivial
    · exact along_concat.mpr ⟨h.failed, nofun⟩
  | channelScan =>
    have hafter : Registry.after t (m.log ++ [Observation.began m.channels]) =
        { Registry.after t m.log with before := m.channels, heard := [] } := Registry.after_concat
    refine ⟨nofun, fun id hid => ?_, ?_, ?_⟩
    · refine ⟨⟨m.nextFiber, m.nextReqId, 0xff, .opening⟩, Option.some.inj hid,
        congrArg (_ :: ·) hfibers, congrArg Registry.heard hafter, ?_, fun hempty => ?_⟩
      · change IsScanOf (Registry.after t (m.log ++ [Observation.began m.channels])).heard .empty
        rw [hafter]
        exact isScanOf_nil
      · change (Registry.after t (m.log ++ [Observation.began m.channels])).before =
          (Registry.after t (m.log ++ [Observation.began m.channels])).table
        rw [hafter]
        exact hchannels (along_concat.mp hempty).1
    · exact right_concat h.right fun hempty _ => hchannels hempty
    · exact along_concat.mpr ⟨h.failed, nofun⟩
  | lookup q =>
    refine ⟨fun _ => ⟨hfibers, fun hempty => ?_⟩, fun id hid => ?_, ?_, ?_⟩
    · rw [Manager.dispatch, Registry.after_concat]
      exact hchannels (along_concat.mp hempty).1
    · cases hlock.symm.trans hid
    · exact right_concat h.right fun hempty _ => congrArg q.answer (hchannels hempty)
    · exact along_concat.mpr ⟨h.failed, nofun⟩

theorem Scanning.reply {f : ScanFiber} {reqId : UInt32} {r : Reply} (hscan : Scanning t m f)
    (h : Inv t m) (hlock : m.lockedBy = some f.id) (hown : m.isOwn f.id (.reply reqId r) = true) :
    Inv t (m.dispatch (.reply reqId r)) := by
  have hreq : f.reqId = reqId := by
    by_contra hne
    have hnone : [f].find? (fun f => f.reqId == reqId) = none := by simp [hne]
    rw [Manager.isOwn, Manager.pendingPeek, hscan.fibers, hnone] at hown
    cases hown
  have hpeek : m.pendingPeek reqId = some f := by
    rw [Manager.pendingPeek, hscan.fibers]
    simp [hreq]
  have herase : [f].eraseP (fun f => f.reqId == reqId) = [] := by simp [hreq]
  have hrunning : Running t { m with fibers := [] } f :=
    ⟨hlock, rfl, hscan.channels, hscan.before, h.right, h.failed⟩
  simp only [Manager.dispatch, hpeek, hscan.fibers, herase]
  exact hrunning.scanResume hscan.heard

theorem Inv.queues (h : Inv t m) (inbox batch deferred : List Event) :
    Inv t { m with inbox := inbox, batch := batch, deferred := deferred } :=
  ⟨h.idle, fun id hid => (h.scanning id hid).imp fun _ hf =>
    ⟨hf.1, hf.2.fibers, hf.2.heard, hf.2.channels, hf.2.before⟩, h.right, h.failed⟩

/-- **An event is handled.** -/
theorem Inv.handle (h : Inv t m) (e : Event) : Inv t (m.handle e) := by
  cases hlock : m.lockedBy with
  | none =>
    have hdispatch : m.handle e = m.dispatch e := if_neg (by simp [hlock])
    rw [hdispatch]
    cases e with
    | start req => exact h.start hlock req
    | reply reqId r =>
      have hpeek : m.pendingPeek reqId = none := by
        rw [Manager.pendingPeek, (h.idle hlock).1]
        rfl
      rw [Manager.dispatch, hpeek]
      exact h
  | some id =>
    obtain ⟨f, rfl, hscan⟩ := h.scanning id hlock
    cases hown : m.isOwn f.id e with
    | false =>
      have hdefer : m.handle e = { m with deferred := m.deferred ++ [e] } :=
        if_pos (by simp [hlock, hown])
      rw [hdefer]
      exact h.queues m.inbox m.batch _
    | true =>
      have hdispatch : m.handle e = m.dispatch e := if_neg (by simp [hlock, hown])
      rw [hdispatch]
      cases e with
      | start req => cases hown
      | reply reqId r => exact hscan.reply h hlock hown

/-- **A step.** -/
theorem Inv.step (h : Inv t m) (hstep : m.step op = some m') : Inv t m' := by
  cases op with
  | post e =>
    obtain rfl := Option.some.inj hstep
    exact h.queues _ _ _
  | take =>
    unfold Manager.step at hstep
    split_ifs at hstep
    obtain rfl := Option.some.inj hstep
    unfold Manager.take
    split_ifs
    · exact h.queues _ _ _
    · exact h.queues _ _ _
  | handle =>
    unfold Manager.step at hstep
    cases hbatch : m.batch with
    | nil =>
      rw [hbatch] at hstep
      cases hstep
    | cons e batch =>
      rw [hbatch] at hstep
      obtain rfl := Option.some.inj hstep
      exact (h.queues m.inbox batch m.deferred).handle e

end Steps

/-- **Every state of a run.** -/
theorem inv_of_reach {m : Manager} (h : Reach Manager.step anyStep (.initial t) m) : Inv t m :=
  h.inv (Inv t) (inv_initial t) fun _ _ _ hinv _ hstep => hinv.step hstep

/-- **The channel scan**: in a run that begins with any table, every lookup is answered from the
complete table, and a scan that cannot open a tuner leaves it, if and only if each scan that could
not open a tuner found an empty table. -/
theorem scan_iff (t : Table) (m : Manager) (h : Reach Manager.step anyStep (.initial t) m) :
    Along IsRight t m.log ↔ Along FailsEmpty t m.log := by
  have hinv := inv_of_reach h
  refine ⟨fun hright front x behind hlog => ?_, hinv.right⟩
  cases x with
  | failed after =>
    have hafter : after = .empty := hinv.failed front _ behind hlog after rfl
    exact (hright front _ behind hlog).symm.trans hafter
  | answered q a | loaded file | began before | heard ch found | ended after => trivial

/-- The network of the examples. -/
def networkExample : NetworkInfo := ⟨1, 4, [0x41], 23, 1, [0x42]⟩

/-- A table with service 101 on channel 20. -/
def tableExample : Table :=
  ⟨[(20, Entry.set 20 networkExample [⟨101, 1, [0x43]⟩])], List.pairwise_singleton _ _⟩

/-- Where is service 101? -/
def lookupExample : Lookup := .physicalChannelByServiceId ⟨1, 4, 101⟩

/-- The request `n` of a scan is answered. -/
def replyOps (n : ℕ) (result : CoseqResult) : List Op :=
  [.post (.reply (.ofNat n) ⟨result, 0, networkExample, [⟨101, 1, [0x43]⟩]⟩), .take, .handle]

/-- A scan with nothing but channel 27; service 101 is looked up meanwhile. -/
def opsExample : List Op :=
  ([.post (.start .channelScan), .take, .handle,
      .post (.start (.lookup lookupExample))] : List Op) ++
    ([.take, .handle] : List Op) ++ replyOps 0 .success ++
    (List.range 28).flatMap (fun n => replyOps (1 + n) .error) ++
    (List.range 4).flatMap (fun n => replyOps (29 + n) .success) ++
    (List.range 70).flatMap (fun n => replyOps (33 + n) .error) ++ ([.take, .handle] : List Op)

/-- The lookup is answered from the new table. -/
theorem scan_iff_channel27 : ∃ m, exec Manager.step (.initial tableExample) opsExample = some m ∧
    m.log.getLast? = some (.answered lookupExample (.channel 27)) ∧
    (Along IsRight tableExample m.log ↔ Along FailsEmpty tableExample m.log) := by
  have hlast : ((exec Manager.step (.initial tableExample) opsExample).bind fun m =>
      m.log.getLast?) = some (.answered lookupExample (.channel 27)) := by
    decide +kernel
  obtain ⟨m, hm, hlast⟩ := Option.bind_eq_some_iff.mp hlast
  exact ⟨m, hm, hlast, scan_iff tableExample m (reach_of_exec hm)⟩

/-- **A scan that cannot open a tuner** loses the table. -/
theorem not_scan_always :
    ¬ ∀ t m, Reach Manager.step anyStep (.initial t) m → Along IsRight t m.log := by
  intro h
  have hm : exec Manager.step (.initial tableExample)
      ([.post (.start .channelScan), .take, .handle] ++ replyOps 0 .error) = some _ := rfl
  have hlost : OrderedMap.empty = tableExample :=
    h _ _ (reach_of_exec hm) [.began tableExample] (.failed .empty) [] rfl
  exact absurd (congrArg OrderedMap.entries hlost) (by decide)

end ChannelManager

end AutoRec
