import AutoRec.Lib.Buffer

/-!
# The names of the channels, sent between modules

The channel manager (`channel_manager/channel_manager.cpp`) replies with the characters of a name,
without the NUL. The reply comes to lie in the buffer of the sequence that has asked
(`third_party/coseq/coseq/coseq.c`), over what the messages before it have left there, and is read
from the buffer as a C string.

* `CoseqSource.setSrc`: the buffer of a sequence.
* `getServiceName`, `onGetServiceName` and the like: the names, and the replies.
* `ClientStep`, `sourceAfter`: what a sequence asks, and its buffer.
* `srcBuf_sourceAfter`: the buffer holds the messages, each written over the ones before.
* `NamesRight`: what is read; `Terminated`, `ClientStep.Meets`: what it takes.
* **`namesRight_iff`**.
-/

namespace AutoRec

open Buffer

/-! ## The buffer of a sequence -/

/-- `coseq::result`. -/
inductive CoseqResult
  | ignore
  | success
  | error
  | requestTimeout
  | sequenceTimeout
deriving DecidableEq

/-- `coseq_src_t`, with `src_buf`. -/
structure CoseqSource where
  srcBuf : List UInt8
  size : ℕ
  result : CoseqResult

/-- `set_src`. For a longer message the buffer grows; behind a shorter one it stays as it is. -/
def CoseqSource.setSrc (s : CoseqSource) (msg : List UInt8) (r : CoseqResult) : CoseqSource :=
  ⟨overwrite s.srcBuf 0 msg, msg.length, r⟩

/-- `new_fiber`: a sequence begins with the message of the request for it. -/
def CoseqSource.newFiber (msg : List UInt8) : CoseqSource :=
  CoseqSource.setSrc ⟨[], 0, .ignore⟩ msg .ignore

/-! ## The names -/

/-- `entry::service`. -/
structure ChannelService where
  serviceId : UInt16
  serviceName : List UInt8
deriving DecidableEq

/-- `entry`. `channels_` is the list of its entries, in the order of their keys. -/
structure ChannelEntry where
  transportStreamId : UInt16
  originalNetworkId : UInt16
  networkName : List UInt8
  tsName : List UInt8
  services : List ChannelService
deriving DecidableEq

/-- `service_id_param_t`. -/
structure ServiceIdParam where
  transportStreamId : UInt16
  originalNetworkId : UInt16
  serviceId : UInt16
deriving DecidableEq

/-- `c_str`, up to its first NUL. -/
def cStr (s : List UInt8) : List UInt8 := s.takeWhile (· ≠ 0)

/-- An entry is for the transport stream. -/
def ChannelEntry.isFor (e : ChannelEntry) (p : ServiceIdParam) : Bool :=
  e.transportStreamId == p.transportStreamId && e.originalNetworkId == p.originalNetworkId

section Names

variable (channels : List ChannelEntry) (p : ServiceIdParam)

/-- `get_original_network_name`. -/
def getOriginalNetworkName : Option (List UInt8) :=
  (channels.find? fun e => e.originalNetworkId == p.originalNetworkId).map fun e =>
    cStr e.networkName

/-- `get_transport_stream_name`. -/
def getTransportStreamName : Option (List UInt8) :=
  (channels.find? fun e => e.isFor p).map fun e => cStr e.tsName

/-- `get_service_name`. -/
def getServiceName : Option (List UInt8) :=
  channels.findSome? fun e =>
    if e.isFor p then
      (e.services.find? fun s => s.serviceId == p.serviceId).map fun s => cStr s.serviceName
    else none

/-- The reply with a name: `strlen` characters, if there are any. -/
def replyName (name : Option (List UInt8)) : CoseqResult × List UInt8 :=
  match name with
  | some s => if s.length > 0 then (.success, s) else (.error, [])
  | none => (.error, [])

/-- `on_get_original_network_name`. -/
def onGetOriginalNetworkName : CoseqResult × List UInt8 :=
  replyName (getOriginalNetworkName channels p)

/-- `on_get_transport_stream_name`. -/
def onGetTransportStreamName : CoseqResult × List UInt8 :=
  replyName (getTransportStreamName channels p)

/-- `on_get_service_name`. -/
def onGetServiceName : CoseqResult × List UInt8 := replyName (getServiceName channels p)

end Names

/-- The three requests for a name. -/
inductive NameRequest
  | originalNetworkName
  | transportStreamName
  | serviceName
deriving DecidableEq

namespace NameRequest

variable (q : NameRequest) (channels : List ChannelEntry) (p : ServiceIdParam)

/-- The name that is stored. -/
def stored : Option (List UInt8) :=
  match q with
  | originalNetworkName => getOriginalNetworkName channels p
  | transportStreamName => getTransportStreamName channels p
  | serviceName => getServiceName channels p

/-- The reply. -/
def reply : CoseqResult × List UInt8 :=
  match q with
  | originalNetworkName => onGetOriginalNetworkName channels p
  | transportStreamName => onGetTransportStreamName channels p
  | serviceName => onGetServiceName channels p

theorem reply_eq : q.reply channels p = replyName (q.stored channels p) := by
  cases q with
  | originalNetworkName => rfl
  | transportStreamName => rfl
  | serviceName => rfl

end NameRequest

/-! ## The sequences that ask -/

/-- How a reply is read: `on_add_reserve_event`, `on_start_viewing` and the others look at its
result, `on_exec_cache_schedule` does not. -/
inductive NameReader
  | checked
  | unchecked
deriving DecidableEq

/-- The reader takes the buffer for a string. -/
def NameReader.reads (r : NameReader) (s : CoseqSource) : Bool :=
  match r with
  | checked => s.result == .success
  | unchecked => true

/-- A request of a sequence: for a name, with the table at that time, or for something else, with
any reply. -/
inductive ClientStep
  | name (q : NameRequest) (channels : List ChannelEntry) (p : ServiceIdParam) (reader : NameReader)
  | other (r : CoseqResult) (msg : List UInt8)

/-- The reply to a request. -/
def ClientStep.reply : ClientStep → CoseqResult × List UInt8
  | name q channels p _ => q.reply channels p
  | other r msg => (r, msg)

/-- The buffer behind a request. -/
def ClientStep.next (s : CoseqSource) (a : ClientStep) : CoseqSource :=
  s.setSrc a.reply.2 a.reply.1

/-- The buffer of a sequence that begins with the message `start`, behind its requests. -/
def sourceAfter (start : List UInt8) (l : List ClientStep) : CoseqSource :=
  l.foldl ClientStep.next (.newFiber start)

/-- **The names are right**: what is read comes from a reply without an error, and is the name that
is stored. -/
def ClientStep.ReadsRight (s : CoseqSource) : ClientStep → Prop
  | name q channels p reader => reader.reads s = true →
      s.result = .success ∧ ∃ n ∈ q.stored channels p, cString 0 s.srcBuf = some n
  | other _ _ => True

/-- All that a sequence reads is right. -/
def NamesRight (start : List UInt8) (l : List ClientStep) : Prop :=
  ∀ l₁ a l₂, l = l₁ ++ a :: l₂ → a.ReadsRight (sourceAfter start (l₁ ++ [a]))

/-! ## What it takes -/

/-- Of the messages that are longer than `n`, the last one has a NUL at the place `n`. -/
def Terminated (messages : List (List UInt8)) (n : ℕ) : Prop :=
  ∃ msg, (messages.filter fun m => n < m.length).getLast? = some msg ∧ msg[n]? = some 0

/-- The messages of a sequence, with the one that it begins with. -/
def messagesOf (start : List UInt8) (l : List ClientStep) : List (List UInt8) :=
  start :: l.map fun a => a.reply.2

/-- Behind these messages: a name that is sent finds a NUL at its end, and if none is sent the
reader looks at the result. -/
def ClientStep.Meets (messages : List (List UInt8)) : ClientStep → Prop
  | name q channels p reader =>
      match q.stored channels p with
      | some n => if n.length > 0 then Terminated messages n.length else reader = .checked
      | none => reader = .checked
  | other _ _ => True

/-! ## The buffer -/

section Run

variable {start : List UInt8} {l : List ClientStep} {a : ClientStep} {s : CoseqSource}
  {q : NameRequest} {channels : List ChannelEntry} {p : ServiceIdParam} {reader : NameReader}
  {n : List UInt8}

theorem sourceAfter_concat (start : List UInt8) (l : List ClientStep) (a : ClientStep) :
    sourceAfter start (l ++ [a]) = (sourceAfter start l).setSrc a.reply.2 a.reply.1 := by
  rw [sourceAfter, List.foldl_append]
  rfl

/-- **The buffer** holds the messages, each written over the ones before. -/
theorem srcBuf_sourceAfter (start : List UInt8) (l : List ClientStep) :
    (sourceAfter start l).srcBuf = writeAll (messagesOf start l) := by
  induction l using List.reverseRecOn with
  | nil => rfl
  | append_singleton l a ih =>
    have hmessages : messagesOf start (l ++ [a]) = messagesOf start l ++ [a.reply.2] := by
      rw [messagesOf, List.map_append]
      rfl
    rw [sourceAfter_concat, hmessages, writeAll_concat, ← ih]
    rfl

theorem terminated_iff {k : ℕ} :
    (sourceAfter start l).srcBuf[k]? = some 0 ↔ Terminated (messagesOf start l) k := by
  rw [srcBuf_sourceAfter, getElem?_writeAll, Option.bind_eq_some_iff]
  rfl

theorem nul_notMem_cStr (t : List UInt8) : 0 ∉ cStr t := by
  intro h
  have hne := List.all_eq_true.mp List.all_takeWhile 0 h
  simp at hne

theorem nul_notMem_stored (h : q.stored channels p = some n) : 0 ∉ n := by
  cases q with
  | originalNetworkName =>
    obtain ⟨e, -, rfl⟩ := Option.map_eq_some_iff.mp h
    exact nul_notMem_cStr _
  | transportStreamName =>
    obtain ⟨e, -, rfl⟩ := Option.map_eq_some_iff.mp h
    exact nul_notMem_cStr _
  | serviceName =>
    obtain ⟨e, -, he⟩ := List.exists_of_findSome?_eq_some h
    split_ifs at he
    obtain ⟨t, -, rfl⟩ := Option.map_eq_some_iff.mp he
    exact nul_notMem_cStr _

/-- **A name that is sent** is read right if there is a NUL at its end. -/
theorem readsRight_of_sent (h : q.stored channels p = some n) (hn : 0 < n.length) :
    (ClientStep.name q channels p reader).ReadsRight
        (s.setSrc (q.reply channels p).2 (q.reply channels p).1) ↔
      s.srcBuf[n.length]? = some 0 := by
  have hreply : q.reply channels p = (.success, n) := by
    rw [q.reply_eq, h]
    exact if_pos hn
  rw [hreply, ← cString_overwrite_iff (nul_notMem_stored h)]
  have hreads : reader.reads (s.setSrc n .success) = true := by
    cases reader with
    | checked => rfl
    | unchecked => rfl
  constructor
  · intro hright
    obtain ⟨-, n', hn', hstring⟩ := hright hreads
    rw [h] at hn'
    obtain rfl := Option.some.inj hn'
    exact hstring
  · intro hstring _
    exact ⟨rfl, n, h, hstring⟩

/-- **An error** is read right if the reader looks at the result. -/
theorem readsRight_of_error (h : (q.reply channels p).1 = .error) :
    (ClientStep.name q channels p reader).ReadsRight
        (s.setSrc (q.reply channels p).2 (q.reply channels p).1) ↔ reader = .checked := by
  rw [h]
  cases reader with
  | checked => exact iff_of_true (fun hreads => by cases hreads) rfl
  | unchecked =>
    refine iff_of_false (fun hright => ?_) (by simp)
    obtain ⟨herror, -⟩ := hright rfl
    cases herror

/-- **One request.** -/
theorem readsRight_iff :
    a.ReadsRight (sourceAfter start (l ++ [a])) ↔ a.Meets (messagesOf start l) := by
  rw [sourceAfter_concat]
  cases a with
  | other r msg => exact Iff.rfl
  | name q channels p reader =>
    have herror : ∀ name, q.stored channels p = name → (∀ n ∈ name, ¬ n.length > 0) →
        (q.reply channels p).1 = .error := by
      rintro name rfl hempty
      rw [q.reply_eq]
      cases hstored : q.stored channels p with
      | none => rfl
      | some n => rw [replyName, if_neg (hempty n hstored)]
    rw [ClientStep.Meets]
    cases hstored : q.stored channels p with
    | none => exact readsRight_of_error (herror none hstored fun n hn => by cases hn)
    | some n =>
      dsimp only
      by_cases hn : n.length > 0
      · rw [if_pos hn, ← terminated_iff]
        exact readsRight_of_sent hstored hn
      · rw [if_neg hn]
        refine readsRight_of_error (herror (some n) hstored ?_)
        rintro n' hn'
        obtain rfl := Option.some.inj hn'
        exact hn

/-- **When the names are right**: each name that is sent finds a NUL at its end, which the last
longer message has left there, and each reader that gets an error looks at it. -/
theorem namesRight_iff (start : List UInt8) (l : List ClientStep) : NamesRight start l ↔
    ∀ l₁ a l₂, l = l₁ ++ a :: l₂ → a.Meets (messagesOf start l₁) := by
  constructor
  · intro h l₁ a l₂ hl
    exact readsRight_iff.mp (h l₁ a l₂ hl)
  · intro h l₁ a l₂ hl
    exact readsRight_iff.mpr (h l₁ a l₂ hl)

end Run

/-! ## A shorter name -/

/-- A transport stream with two services, `wxyz` and `ab`. -/
def twoNames : List ChannelEntry :=
  [{ transportStreamId := 1, originalNetworkId := 2, networkName := [110], tsName := [116]
     services := [⟨3, [119, 120, 121, 122]⟩, ⟨4, [97, 98]⟩] }]

/-- The names of the two services are asked for. -/
def askBoth : List ClientStep :=
  [.name .serviceName twoNames ⟨1, 2, 3⟩ .checked, .name .serviceName twoNames ⟨1, 2, 4⟩ .checked]

/-- The second name is read with the rest of the first one. -/
theorem not_namesRight :
    NameRequest.serviceName.stored twoNames ⟨1, 2, 4⟩ = some [97, 98] ∧
    (sourceAfter [0, 0, 0, 0, 0, 0] askBoth).result = .success ∧
    cString 0 (sourceAfter [0, 0, 0, 0, 0, 0] askBoth).srcBuf = some [97, 98, 121, 122] ∧
    ¬ NamesRight [0, 0, 0, 0, 0, 0] askBoth := by
  have hstored : NameRequest.serviceName.stored twoNames ⟨1, 2, 4⟩ = some [97, 98] := by decide
  have hread : cString 0 (sourceAfter [0, 0, 0, 0, 0, 0] askBoth).srcBuf =
      some [97, 98, 121, 122] := by decide
  refine ⟨hstored, by decide, hread, fun hright => ?_⟩
  have hlast := hright [.name .serviceName twoNames ⟨1, 2, 3⟩ .checked]
    (.name .serviceName twoNames ⟨1, 2, 4⟩ .checked) [] rfl
  obtain ⟨-, n, hn, hstring⟩ := hlast rfl
  rw [hstored] at hn
  obtain rfl := Option.some.inj hn
  cases Option.some.inj (hread.symm.trans hstring)

end AutoRec
