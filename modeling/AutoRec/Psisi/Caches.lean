import AutoRec.Psisi.Descriptors

/-!
# The caches of the psisi manager

`program_infos_`, `service_infos_`, `event_pf_infos_` and `network_info_`
(`psisi_manager/psisi_manager.cpp`), without `_DUMMY_TUNER`. Logging is left out. The entries in use
are always the first ones of their array, so that an array is the list of these; a table is known by
its address.

* `ProgramInfo`, `ServiceInfo`, `EventPfInfo`, `NetworkInfo`: the entries.
* `cacheProgramInfos`, `cacheServiceInfos`, `cacheEventPfInfos`, `cacheNetworkInfo`: what is cached.
* `checkEventPfInfos`, `assignFollowEvent`, `checkFollowEvent`: what the time does to it.
-/

namespace AutoRec

/-- `PROGRAM_INFOS_MAX`. -/
abbrev programInfosMax : ℕ := 32

/-- `SERVICE_INFOS_MAX`. -/
abbrev serviceInfosMax : ℕ := 64

/-- `EVENT_PF_INFOS_MAX`. -/
abbrev eventPfInfosMax : ℕ := 32

/-- `TBLID_NIT_A`. -/
abbrev tblidNitA : UInt8 := 0x40

/-- `TBLID_SDT_A`. -/
abbrev tblidSdtA : UInt8 := 0x42

/-- `TBLID_EIT_PF_A`. -/
abbrev tblidEitPfA : UInt8 := 0x4e

/-! ## Programs -/

/-- `_program_info::_stream`. -/
structure ProgramStream where
  type : UInt8
  pid : UInt16
deriving DecidableEq, Repr

/-- `_program_info`. -/
structure ProgramInfo where
  tableId : UInt8
  transportStreamId : UInt16
  programNumber : UInt16
  programMapPID : UInt16
  pOrgTable : Option ℕ
  streams : List ProgramStream
deriving DecidableEq, Repr

/-- `program_map`: the parser for each PID. -/
abbrev ProgramMap := UInt16 → Option (SectionParser (TableStore ProgramMapTable))

/-- The streams of the last table of a PID. -/
def cachePmtStreams (map : ProgramMap) (pid : UInt16) : List ProgramStream :=
  match (map pid).bind fun pmt => pmt.ext.tables.getLast? with
  | some (_, t) => t.streams.map fun s => ⟨s.streamType, s.elementaryPID⟩
  | none => []

/-- `cache_program_infos`, behind `clear_program_infos`: the programs of the last table. -/
def cacheProgramInfos (pat : TableStore ProgramAssociationTable) (map : ProgramMap) :
    List ProgramInfo :=
  match pat.tables.getLast? with
  | none => []
  | some (a, t) => (t.programs.take programInfosMax).map fun p => {
      tableId := t.header.tableId
      transportStreamId := t.header.tableIdExtension
      programNumber := p.programNumber
      programMapPID := p.programMapPID
      pOrgTable := some a
      streams := cachePmtStreams map p.programMapPID }

/-! ## Events -/

/-- `event_pf_state`. -/
inductive EventPfState
  | init
  | present
  | follow
  | alreadyPassed
deriving DecidableEq, Repr

/-- `_event_pf_info`. -/
structure EventPfInfo where
  tableId : UInt8
  transportStreamId : UInt16
  originalNetworkId : UInt16
  serviceId : UInt16
  eventId : UInt16
  startTime : Etime
  endTime : Etime
  eventName : List UInt8
  state : EventPfState
  pOrgTable : Option ℕ
deriving DecidableEq, Repr

/-- `_event_pf_info::clear`. -/
def EventPfInfo.clear : EventPfInfo := ⟨0, 0, 0, 0, 0, .clear, .clear, [], .init, none⟩

/-! ## Services -/

/-- What identifies a service. -/
structure ServiceKey where
  tableId : UInt8
  transportStreamId : UInt16
  originalNetworkId : UInt16
  serviceId : UInt16
deriving DecidableEq, Repr

/-- `_service_info`; `event_follow_info` is `none` if it is not used. -/
structure ServiceInfo where
  key : ServiceKey
  serviceType : UInt8
  serviceName : List UInt8
  isTuneTarget : Bool
  eventFollowInfo : Option EventPfInfo
  lastUpdate : Etime
  pOrgTable : Option ℕ
deriving DecidableEq, Repr

namespace ServiceInfo

/-- `clear`. -/
def clear : ServiceInfo := ⟨⟨0, 0, 0, 0⟩, 0, [], false, none, .clear, none⟩

/-- `clear_at_tuning`. -/
def clearAtTuning (s : ServiceInfo) : ServiceInfo :=
  { s with isTuneTarget := false, eventFollowInfo := none }

end ServiceInfo

variable (E : Conversions)

/-- The descriptors of a service. -/
def ServiceInfo.readDescriptor (s : ServiceInfo) (d : Descriptor) : ServiceInfo :=
  if d.tag = 0x48 then
    match serviceDescriptor d.data with
    | some sd =>
      { s with serviceType := sd.serviceType, serviceName := (E.aribToString sd.serviceName).take 64 }
    | none => s
  else s

/-- The key of a service of a table. -/
def ServiceDescriptionTable.key (t : ServiceDescriptionTable) (svc : SdtService) : ServiceKey :=
  ⟨t.header.tableId, t.header.tableIdExtension, t.originalNetworkId, svc.serviceId⟩

/-- What `cache_service_infos` writes in an entry, for the service `svc` of the table `t` at `a`. -/
def ServiceInfo.write (isAtTuning : Bool) (now : ℤ) (a : ℕ) (t : ServiceDescriptionTable)
    (svc : SdtService) (s : ServiceInfo) : ServiceInfo :=
  let s := { s with isTuneTarget := isAtTuning || s.isTuneTarget, key := t.key svc }
  { svc.descriptors.foldl (readDescriptor E) s with
    pOrgTable := some a, lastUpdate := .setCurrentTime now }

/-- The first entry with the key is written; `find_service_info`. -/
def updateService (key : ServiceKey) (f : ServiceInfo → ServiceInfo) :
    List ServiceInfo → List ServiceInfo
  | [] => []
  | s :: l => if s.key = key then f s :: l else s :: updateService key f l

/-- The entry with the key is written, or an empty one; `none` if there is neither. -/
def writeService (key : ServiceKey) (f : ServiceInfo → ServiceInfo) (l : List ServiceInfo) :
    Option (List ServiceInfo) :=
  if l.any fun s => s.key == key then some (updateService key f l)
  else if l.length < serviceInfosMax then some (l ++ [f .clear])
  else none

/-- The services of the tables of the stream itself, with their tables. -/
def actualServices (sdt : TableStore ServiceDescriptionTable) :
    List (ℕ × ServiceDescriptionTable × SdtService) :=
  (sdt.tables.filter fun t => t.2.header.tableId = tblidSdtA).flatMap fun t =>
    t.2.services.map fun svc => (t.1, t.2, svc)

/-- `cache_service_infos`, service by service; it returns when there is no room. -/
def cacheServices (isAtTuning : Bool) (now : ℤ) :
    List (ℕ × ServiceDescriptionTable × SdtService) → List ServiceInfo → List ServiceInfo
  | [], l => l
  | (a, t, svc) :: rest, l =>
    match writeService (t.key svc) (ServiceInfo.write E isAtTuning now a t svc) l with
    | some l => cacheServices isAtTuning now rest l
    | none => l

/-- `cache_service_infos`. -/
def cacheServiceInfos (isAtTuning : Bool) (now : ℤ) (sdt : TableStore ServiceDescriptionTable)
    (l : List ServiceInfo) : List ServiceInfo :=
  cacheServices E isAtTuning now (actualServices sdt) l

/-! ## The events of the services -/

/-- The descriptors of an event. -/
def EventPfInfo.readDescriptor (i : EventPfInfo) (d : Descriptor) : EventPfInfo :=
  if d.tag = 0x4d then
    match shortEventDescriptor d.data with
    | some sd => { i with eventName := E.aribToString sd.eventName }
    | none => i
  else i

/-- What `cache_event_pf_infos` writes in an entry, for an event of a table. -/
def EventPfInfo.readEvent (i : EventPfInfo) (e : EitEvent) : EventPfInfo :=
  if e.eventId = 0 then i
  else
    let start : Etime := ⟨E.getEpochFromMjd e.startTime, 0⟩
    e.descriptors.foldl (readDescriptor E) { i with
      eventId := e.eventId
      startTime := start
      endTime := start.addSec (getSecFromBcd e.duration) }

/-- The entry for the table `t` at `a`, if it has an event. -/
def EventPfInfo.ofTable (a : ℕ) (t : EventInformationTable) : Option EventPfInfo :=
  let i := t.events.foldl (readEvent E) { EventPfInfo.clear with
    tableId := t.header.tableId
    transportStreamId := t.transportStreamId
    originalNetworkId := t.originalNetworkId
    serviceId := t.header.tableIdExtension }
  if i.eventId = 0 then none else some { i with pOrgTable := some a }

/-- `cache_event_pf_infos` of a service, table by table; it returns when there is no room. -/
def cacheEvents (key : ServiceKey) :
    List (ℕ × EventInformationTable) → List EventPfInfo → List EventPfInfo
  | [], l => l
  | (a, t) :: rest, l =>
    if ⟨t.header.tableId, t.transportStreamId, t.originalNetworkId, t.header.tableIdExtension⟩ ≠ key
    then cacheEvents key rest l
    else if eventPfInfosMax ≤ l.length then l
    else cacheEvents key rest (l ++ (EventPfInfo.ofTable E a t).toList)

/-- `cache_event_pf_infos`, behind `clear_event_pf_infos`: the events of the services that are tuned.
-/
def cacheEventPfInfos (eit : TableStore EventInformationTable) (services : List ServiceInfo) :
    List EventPfInfo :=
  (services.filter fun s => s.isTuneTarget).foldl
    (fun l s => cacheEvents E { s.key with tableId := tblidEitPfA } eit.tables l) []

/-- `check_event_pf_infos`, of an entry. -/
def EventPfInfo.check (now : ℤ) (i : EventPfInfo) : EventPfInfo :=
  let cur := Etime.setCurrentTime now
  if i.startTime.le cur && i.endTime.ge cur then { i with state := .present }
  else if i.startTime.gt cur then { i with state := .follow }
  else if i.endTime.lt cur then { i with state := .alreadyPassed }
  else i

/-- `check_event_pf_infos`. -/
def checkEventPfInfos (now : ℤ) (l : List EventPfInfo) : List EventPfInfo := l.map (.check now)

/-- `find_event_pf_info`. -/
def findEventPfInfo (key : ServiceKey) (state : EventPfState) (l : List EventPfInfo) :
    Option EventPfInfo :=
  l.find? fun i => i.state == state &&
    (⟨i.tableId, i.transportStreamId, i.originalNetworkId, i.serviceId⟩ : ServiceKey) == key

/-- `assign_follow_event_to_service_infos`, of an entry. -/
def ServiceInfo.assignFollowEvent (now : ℤ) (events : List EventPfInfo) (s : ServiceInfo) :
    ServiceInfo :=
  if s.isTuneTarget && s.eventFollowInfo.isNone then
    match findEventPfInfo { s.key with tableId := tblidEitPfA } .follow events with
    | some i =>
      { s with
        eventFollowInfo := some { EventPfInfo.clear with startTime := i.startTime, endTime := i.endTime }
        lastUpdate := .setCurrentTime now }
    | none => s
  else s

/-- The following event of an entry has begun. -/
def ServiceInfo.followBegun (now : ℤ) (s : ServiceInfo) : Bool :=
  s.isTuneTarget && s.eventFollowInfo.any fun i => i.startTime.le (.setCurrentTime now)

/-- It has begun more than 15 seconds ago. -/
def ServiceInfo.followLate (now : ℤ) (s : ServiceInfo) : Bool :=
  s.followBegun now &&
    s.eventFollowInfo.any fun i => (i.startTime.addSec 15).lt (.setCurrentTime now)

/-- `check_follow_event_at_service_infos`, of an entry. -/
def ServiceInfo.checkFollowEvent (now : ℤ) (s : ServiceInfo) : ServiceInfo :=
  if s.followBegun now then { s with eventFollowInfo := none } else s

/-! ## The network -/

/-- `_network_info`; its `p_org_table` is never set. -/
structure NetworkInfo where
  tableId : UInt8
  networkId : UInt16
  networkName : List UInt8
  transportStreamId : UInt16
  originalNetworkId : UInt16
  services : List ListedService
  areaCode : UInt16
  guardInterval : UInt8
  transmissionMode : UInt8
  remoteControlKeyId : UInt8
  tsName : List UInt8
deriving DecidableEq, Repr

namespace NetworkInfo

/-- `clear`. -/
def clear : NetworkInfo := ⟨0, 0, [], 0, 0, [], 0, 0, 0, 0, []⟩

/-- The descriptors of the network; a `network_name_descriptor` is always valid. -/
def readDescriptor (i : NetworkInfo) (d : Descriptor) : NetworkInfo :=
  if d.tag = 0x40 then { i with networkName := (E.aribToString d.data).take 64 } else i

/-- The descriptors of the stream. -/
def readStreamDescriptor (i : NetworkInfo) (d : Descriptor) : NetworkInfo :=
  if d.tag = 0x41 then
    match serviceListDescriptor d.data with
    | some services => { i with services := services.take 16 }
    | none => i
  else if d.tag = 0xfa then
    match terrestrialDeliverySystemDescriptor d.data with
    | some t =>
      { i with
        areaCode := t.areaCode
        guardInterval := t.guardInterval
        transmissionMode := t.transmissionMode }
    | none => i
  else if d.tag = 0xcd then
    match tsInformationDescriptor d.data with
    | some t =>
      { i with
        remoteControlKeyId := t.remoteControlKeyId
        tsName := (E.aribToString t.tsName).take 64 }
    | none => i
  else i

/-- What is read in a table: the network, and the first stream. -/
def ofTable (t : NetworkInformationTable) : NetworkInfo :=
  let i := t.descriptors.foldl (readDescriptor E) { clear with
    tableId := t.header.tableId
    networkId := t.header.tableIdExtension }
  match t.streams with
  | [] => i
  | s :: _ => s.descriptors.foldl (readStreamDescriptor E) { i with
      transportStreamId := s.transportStreamId
      originalNetworkId := s.originalNetworkId }

end NetworkInfo

/-- The tables of the stream itself. -/
def actualNits (nit : TableStore NetworkInformationTable) : List NetworkInformationTable :=
  (nit.tables.map Prod.snd).filter fun t => t.header.tableId = tblidNitA

/-- `cache_network_info`, behind `clear_network_info`: the first table of the stream itself. -/
def cacheNetworkInfo (nit : TableStore NetworkInformationTable) : Option NetworkInfo :=
  (actualNits nit).head?.map (NetworkInfo.ofTable E)

end AutoRec
