import AutoRec.Channel.Names
import AutoRec.Lib.OrderedMap

/-!
# The table of the channels

`channels_` of `channel::manager` (`channel_manager/channel_manager.cpp`), with the functions that look
something up in it. Dumps and the file it is saved to are left out.

* `Entry`, `Entry.set`, `Entry.eq`; `Table`, a map from the numbers of the channels.
* `Lookup`, `Lookup.answer`: the requests for something in the table, and the replies.
* `isDuplicateChannel`, `addChannel`: what a scan does with a channel that has been found.
* `IsScanOf`: a table is that of a scan, by what has been found on the channels. `IsScanOf.unique`;
  `IsScanOf.skip`, `IsScanOf.addChannel`: one more channel.
-/

namespace AutoRec

namespace ChannelManager

open IsComparator OrderedMap

/-! ## The table -/

/-- `entry::service`. -/
structure EntryService where
  serviceId : UInt16
  serviceType : UInt8
  serviceName : List UInt8
deriving DecidableEq

/-- `entry`. -/
structure Entry where
  physicalChannel : UInt16
  transportStreamId : UInt16
  originalNetworkId : UInt16
  networkName : List UInt8
  areaCode : UInt16
  remoteControlKeyId : UInt8
  tsName : List UInt8
  services : List EntryService
deriving DecidableEq

/-- `psisi_structs::network_info_t`. -/
structure NetworkInfo where
  transportStreamId : UInt16
  originalNetworkId : UInt16
  networkName : List UInt8
  areaCode : UInt16
  remoteControlKeyId : UInt8
  tsName : List UInt8
deriving DecidableEq

namespace Entry

/-- `entry::set`. -/
def set (ch : UInt16) (info : NetworkInfo) (services : List EntryService) : Entry where
  physicalChannel := ch
  transportStreamId := info.transportStreamId
  originalNetworkId := info.originalNetworkId
  networkName := info.networkName
  areaCode := info.areaCode
  remoteControlKeyId := info.remoteControlKeyId
  tsName := info.tsName
  services := services

/-- `operator ==`. -/
def eq (e obj : Entry) : Bool :=
  e.transportStreamId == obj.transportStreamId && e.originalNetworkId == obj.originalNetworkId

/-- What the names are taken from. -/
def channelEntry (e : Entry) : ChannelEntry where
  transportStreamId := e.transportStreamId
  originalNetworkId := e.originalNetworkId
  networkName := e.networkName
  tsName := e.tsName
  services := e.services.map fun s => ⟨s.serviceId, s.serviceName⟩

theorem eq_iff {e obj : Entry} : e.eq obj = true ↔
    e.transportStreamId = obj.transportStreamId ∧ e.originalNetworkId = obj.originalNetworkId := by
  rw [eq, Bool.and_eq_true, beq_iff_eq, beq_iff_eq]

end Entry

/-- The order of the channels. -/
def chLt (a b : UInt16) : Bool := decide (a < b)

theorem chLt_iff (a b : UInt16) : chLt a b = true ↔ a.toNat < b.toNat := by
  rw [chLt, decide_eq_true_eq, UInt16.lt_iff_toNat_lt]

instance instIsComparatorChLt : IsComparator chLt := of_rank chLt_iff

theorem sameKey_chLt_iff {a b : UInt16} : SameKey chLt a b ↔ a = b :=
  (sameKey_iff_of_rank chLt_iff).trans UInt16.toNat_inj

/-- `channels_`. -/
abbrev Table := OrderedMap chLt Entry

/-! ## Lookups -/

/-- `channel_t`; there is room for 10 services. -/
structure ChannelInfo where
  physicalChannel : UInt16
  transportStreamId : UInt16
  originalNetworkId : UInt16
  remoteControlKeyId : UInt8
  serviceIds : List UInt16
deriving DecidableEq

/-- A reply. -/
inductive Answer
  | error
  | channel (ch : UInt16)
  | serviceId (p : ServiceIdParam)
  | channels (l : List ChannelInfo)
  | name (s : List UInt8)
  /-- An element that a vector does not have is read. -/
  | undefined
deriving DecidableEq

/-- The requests for something in the table. -/
inductive Lookup
  | physicalChannelByServiceId (p : ServiceIdParam)
  | physicalChannelByRemoteControlKeyId (remoteControlKeyId : UInt8)
  | serviceIdByPhysicalChannel (ch : UInt16) (serviceIdx : ℤ)
  | channels (arrayMaxNum : ℤ)
  | name (q : NameRequest) (p : ServiceIdParam)
deriving DecidableEq

section Lookups

variable (t : Table)

/-- `get_physical_channel_by_service_id`. -/
def getPhysicalChannelByServiceId (p : ServiceIdParam) : UInt16 :=
  ((t.entries.find? fun x => x.2.channelEntry.isFor p &&
    x.2.services.any fun s => s.serviceId == p.serviceId).map Prod.fst).getD 0xffff

/-- `get_physical_channel_by_remote_control_key_id`. -/
def getPhysicalChannelByRemoteControlKeyId (remoteControlKeyId : UInt8) : UInt16 :=
  ((t.entries.find? fun x => x.2.remoteControlKeyId == remoteControlKeyId).map Prod.fst).getD 0xffff

/-- The reply with a channel; there is no channel `0xffff`. -/
def replyChannel (ch : UInt16) : Answer := if ch = 0xffff then .error else .channel ch

/-- `on_get_service_id_by_physical_channel`. -/
def onGetServiceIdByPhysicalChannel (ch : UInt16) (serviceIdx : ℤ) : Answer :=
  if ch < 13 ∨ 62 < ch then .error
  else
    match t.find? ch with
    | none => .error
    | some (_, e) =>
      if (e.services.length : ℤ) - 1 < serviceIdx then .error
      else
        match if serviceIdx < 0 then none else e.services[serviceIdx.toNat]? with
        | some s => .serviceId ⟨e.transportStreamId, e.originalNetworkId, s.serviceId⟩
        | none => .undefined

/-- `get_channels`: for every number but 0 there is room for one. -/
def getChannels (arrayMaxNum : ℤ) : List ChannelInfo :=
  (t.entries.take (max 1 arrayMaxNum.toNat)).map fun x =>
    ⟨x.2.physicalChannel, x.2.transportStreamId, x.2.originalNetworkId, x.2.remoteControlKeyId,
      x.2.services.map EntryService.serviceId⟩

/-- The reply to a request. -/
def Lookup.answer : Lookup → Answer
  | physicalChannelByServiceId p => replyChannel (getPhysicalChannelByServiceId t p)
  | physicalChannelByRemoteControlKeyId key =>
    replyChannel (getPhysicalChannelByRemoteControlKeyId t key)
  | serviceIdByPhysicalChannel ch serviceIdx => onGetServiceIdByPhysicalChannel t ch serviceIdx
  | channels arrayMaxNum => if arrayMaxNum = 0 then .error else .channels (getChannels t arrayMaxNum)
  | name q p =>
    match q.reply (t.entries.map fun x => x.2.channelEntry) p with
    | (.success, s) => .name s
    | _ => .error

/-- `is_duplicate_channel`. -/
def isDuplicateChannel (e : Entry) : Bool := t.entries.any fun x => x.2.eq e

/-- A channel that has been found. -/
def addChannel (ch : UInt16) (e : Entry) : Table :=
  if isDuplicateChannel t e then t else t.insert ch e

end Lookups

/-! ## The table of a scan -/

/-- **The table of a scan**, by what there is on each channel, in their order: a transport stream is
on the first channel that has it. -/
def IsScanOf (heard : List (UInt16 × Option Entry)) (t : Table) : Prop :=
  ∀ ch e, (ch, e) ∈ t.entries ↔ ∃ front behind, heard = front ++ (ch, some e) :: behind ∧
    ∀ ch' e', (ch', some e') ∈ front → e'.eq e = false

variable {heard : List (UInt16 × Option Entry)} {t t' : Table} {ch : UInt16} {e : Entry}

theorem isScanOf_nil : IsScanOf [] .empty := by
  intro ch e
  simp [OrderedMap.empty]

theorem IsScanOf.unique (h : IsScanOf heard t) (h' : IsScanOf heard t') : t = t' :=
  ext_of_mem fun x => (h x.1 x.2).trans (h' x.1 x.2).symm

theorem exists_append_iff {x last : UInt16 × Option Entry} {P : List (UInt16 × Option Entry) → Prop} :
    (∃ front behind, heard ++ [last] = front ++ x :: behind ∧ P front) ↔
      (∃ front behind, heard = front ++ x :: behind ∧ P front) ∨ last = x ∧ P heard := by
  constructor
  · rintro ⟨front, behind, heq, hP⟩
    induction behind using List.reverseRecOn with
    | nil =>
      obtain ⟨rfl, hlast⟩ := List.append_inj' heq rfl
      exact .inr ⟨List.singleton_inj.mp hlast, hP⟩
    | append_singleton behind b _ =>
      rw [← List.cons_append, ← List.append_assoc] at heq
      exact .inl ⟨front, behind, (List.append_inj' heq rfl).1, hP⟩
  · rintro (⟨front, behind, rfl, hP⟩ | ⟨rfl, hP⟩)
    · exact ⟨front, behind ++ [last], by simp, hP⟩
    · exact ⟨heard, [], rfl, hP⟩

theorem IsScanOf.skip (h : IsScanOf heard t) : IsScanOf (heard ++ [(ch, none)]) t := by
  intro ch' e'
  rw [h ch' e', exists_append_iff]
  exact (or_iff_left fun hlast => by simp at hlast).symm

/-- What is in the table has been found, and what has been found is in the table with the channel
that has it first. -/
theorem IsScanOf.isDuplicateChannel_iff (h : IsScanOf heard t) :
    isDuplicateChannel t e = true ↔ ∃ ch' e', (ch', some e') ∈ heard ∧ e'.eq e = true := by
  rw [isDuplicateChannel, List.any_eq_true]
  constructor
  · rintro ⟨⟨ch', e'⟩, hmem, heq⟩
    obtain ⟨front, behind, rfl, -⟩ := (h ch' e').mp hmem
    exact ⟨ch', e', by simp, heq⟩
  · rintro ⟨ch', e', hmem, heq⟩
    have hfind : (heard.find? fun x => x.2.any fun e' => e'.eq e).isSome = true :=
      List.find?_isSome.mpr ⟨(ch', some e'), hmem, heq⟩
    obtain ⟨⟨c, found⟩, hfirst⟩ := Option.isSome_iff_exists.mp hfind
    obtain ⟨hfound, front, behind, rfl, hfront⟩ := List.find?_eq_some_iff_append.mp hfirst
    rcases found with _ | e₁
    · cases hfound
    · have he₁ : e₁.eq e = true := hfound
      refine ⟨(c, e₁), (h c e₁).mpr ⟨front, behind, rfl, fun c' e₂ hmem₂ => ?_⟩, he₁⟩
      have hother : e₂.eq e ≠ true := by simpa using hfront (c', some e₂) hmem₂
      rw [← Bool.not_eq_true, Entry.eq_iff]
      intro hsame
      obtain ⟨hts, hnet⟩ := Entry.eq_iff.mp he₁
      exact hother (Entry.eq_iff.mpr ⟨hsame.1.trans hts, hsame.2.trans hnet⟩)

/-- **A channel that has been found.** -/
theorem IsScanOf.addChannel (h : IsScanOf heard t) (hch : ch ∉ heard.map Prod.fst) :
    IsScanOf (heard ++ [(ch, some e)]) (ChannelManager.addChannel t ch e) := by
  have hdup := h.isDuplicateChannel_iff (e := e)
  intro ch' e'
  rw [exists_append_iff, ← h ch' e', ChannelManager.addChannel]
  split_ifs with hd
  · refine (or_iff_left ?_).symm
    rintro ⟨hlast, hnew⟩
    obtain ⟨rfl, rfl⟩ : ch = ch' ∧ e = e' := by simpa using hlast
    obtain ⟨c, e₁, hmem, heq⟩ := hdup.mp hd
    exact Bool.false_ne_true ((hnew c e₁ hmem).symm.trans heq)
  · have hkey : ∀ y ∈ t.entries, ¬ SameKey chLt y.1 ch := by
      rintro ⟨c, e₁⟩ hy hsame
      obtain ⟨front, behind, rfl, -⟩ := (h c e₁).mp hy
      exact hch (sameKey_chLt_iff.mp hsame ▸ by simp)
    rw [mem_insert_iff]
    refine or_congr_right ⟨?_, ?_⟩
    · rintro ⟨hlast, -⟩
      obtain ⟨rfl, rfl⟩ := Prod.mk.injEq .. ▸ hlast
      refine ⟨rfl, fun c e₁ hmem => Bool.eq_false_iff.mpr fun heq => hd ?_⟩
      exact hdup.mpr ⟨c, e₁, hmem, heq⟩
    · rintro ⟨hlast, -⟩
      obtain ⟨rfl, rfl⟩ : ch = ch' ∧ e = e' := by simpa using hlast
      exact ⟨rfl, hkey⟩

end ChannelManager

end AutoRec
