import AutoRec.Parser.Tables

/-!
# The classes of tables

The classes that are derived from `section_parser` (`parser/psisi`), as the psisi manager uses them.
Logging is left out, and so are the reserved bits of the tables, which are not read.

* `ProgramMapTable`, `ConditionalAccessTable`, `NetworkInformationTable`,
  `ServiceDescriptionTable`, `CommonDataTable`, and how they are parsed.
* `TableStore`: `tables_`, each table with its address.
* `TableClass`: what a class does with a section that is completed; `patClass`, `pmtClass`, ….
* `TableClass.Appends`: a table that is parsed is appended and its section is kept.
-/

namespace AutoRec

open Latest

/-- Two bytes as a number. -/
def uimsbf16 (b₀ b₁ : UInt8) : UInt16 := (b₀.toUInt16 <<< 8) ||| b₁.toUInt16

/-- The last 13 bits of two bytes. -/
def uimsbf13 (b₀ b₁ : UInt8) : UInt16 := ((b₀ &&& 0x1f).toUInt16 <<< 8) ||| b₁.toUInt16

/-- The last 12 bits of two bytes. -/
def uimsbf12 (b₀ b₁ : UInt8) : UInt16 := ((b₀ &&& 0x0f).toUInt16 <<< 8) ||| b₁.toUInt16

/-- A loop over parts of a table that have descriptors, with `n` bytes to go. The fixed part takes
`fix` bytes, and `head` reads it: the length of the descriptors, the part with them, and what is
behind it. -/
def parseParts {β : Type} (fix : ℕ)
    (head : List UInt8 → Option (UInt16 × (List Descriptor → β) × List UInt8)) :
    ℕ → ℤ → List UInt8 → Except ParseError (List β)
  | 0, _, _ => .error .outside
  | fuel + 1, n, p =>
    if n ≤ 0 then .ok []
    else
      match head p with
      | none => .error .outside
      | some (len, part, rest) =>
        match parseDescriptors (rest.length + 1) len.toNat rest with
        | .error e => .error e
        | .ok (descs, rest) =>
          if n - (fix + len.toNat) < 0 then .error .invalid
          else
            match parseParts fix head fuel (n - (fix + len.toNat)) rest with
            | .error e => .error e
            | .ok parts => .ok (part descs :: parts)

/-! ## Program map -/

/-- `program_map_table::table::stream`. -/
structure PmtStream where
  streamType : UInt8
  elementaryPID : UInt16
  esInfoLength : UInt16
  descriptors : List Descriptor
deriving DecidableEq, Repr

/-- `program_map_table::table`. -/
structure ProgramMapTable where
  header : SectionHeader
  pcrPID : UInt16
  programInfoLength : UInt16
  descriptors : List Descriptor
  streams : List PmtStream
deriving DecidableEq

/-- The `PMT_STREAM_FIX_LEN` bytes of a stream. -/
def PmtStream.head : List UInt8 → Option (UInt16 × (List Descriptor → PmtStream) × List UInt8)
  | b₀ :: b₁ :: b₂ :: b₃ :: b₄ :: rest =>
    some (uimsbf12 b₃ b₄, fun descs => ⟨b₀, uimsbf13 b₁ b₂, uimsbf12 b₃ b₄, descs⟩, rest)
  | _ => none

/-- `program_map_table::parse`, of the header and the data part of a section. -/
def ProgramMapTable.parse (header : SectionHeader) : List UInt8 → Except ParseError ProgramMapTable
  | b₀ :: b₁ :: b₂ :: b₃ :: p =>
    let len := uimsbf12 b₂ b₃
    match parseDescriptors (p.length + 1) len.toNat p with
    | .error e => .error e
    | .ok (descs, p) =>
      -- `SECTION_HEADER_FIX_LEN`, `SECTION_CRC32_LEN` and `PMT_FIX_LEN`
      let streamLen : ℤ := header.sectionLength.toNat - len.toNat - 5 - 4 - 4
      if streamLen ≤ 5 then .error .invalid
      else
        match parseParts 5 PmtStream.head (p.length + 1) streamLen p with
        | .error e => .error e
        | .ok streams => .ok ⟨header, uimsbf13 b₀ b₁, len, descs, streams⟩
  | _ => .error .outside

/-! ## Conditional access -/

/-- `conditional_access_table::table`. -/
structure ConditionalAccessTable where
  header : SectionHeader
  descriptors : List Descriptor
deriving DecidableEq

/-- `conditional_access_table::parse`. -/
def ConditionalAccessTable.parse (header : SectionHeader) (p : List UInt8) :
    Except ParseError ConditionalAccessTable :=
  match parseDescriptors (p.length + 1) (header.sectionLength.toNat - 5 - 4) p with
  | .error e => .error e
  | .ok (descs, _) => .ok ⟨header, descs⟩

/-! ## Network information -/

/-- `network_information_table::table::stream`. -/
structure NitStream where
  transportStreamId : UInt16
  originalNetworkId : UInt16
  transportDescriptorsLength : UInt16
  descriptors : List Descriptor
deriving DecidableEq, Repr

/-- `network_information_table::table`. -/
structure NetworkInformationTable where
  header : SectionHeader
  networkDescriptorsLength : UInt16
  descriptors : List Descriptor
  transportStreamLoopLength : UInt16
  streams : List NitStream
deriving DecidableEq

/-- The `NIT_STREAM_FIX_LEN` bytes of a stream. -/
def NitStream.head : List UInt8 → Option (UInt16 × (List Descriptor → NitStream) × List UInt8)
  | b₀ :: b₁ :: b₂ :: b₃ :: b₄ :: b₅ :: rest =>
    some (uimsbf12 b₄ b₅,
      fun descs => ⟨uimsbf16 b₀ b₁, uimsbf16 b₂ b₃, uimsbf12 b₄ b₅, descs⟩, rest)
  | _ => none

/-- `network_information_table::parse`. -/
def NetworkInformationTable.parse (header : SectionHeader) :
    List UInt8 → Except ParseError NetworkInformationTable
  | b₀ :: b₁ :: p =>
    let len := uimsbf12 b₀ b₁
    match parseDescriptors (p.length + 1) len.toNat p with
    | .error e => .error e
    | .ok (descs, c₀ :: c₁ :: p) =>
      let loopLen := uimsbf12 c₀ c₁
      -- `SECTION_HEADER_FIX_LEN`, `SECTION_CRC32_LEN`, `NIT_FIX_LEN` and `NIT_FIX2_LEN`
      let streamLen : ℤ := header.sectionLength.toNat - 5 - 4 - 2 - len.toNat - 2
      if streamLen ≤ 6 then .error .invalid
      else if streamLen ≠ loopLen.toNat then .error .invalid
      else
        match parseParts 6 NitStream.head (p.length + 1) streamLen p with
        | .error e => .error e
        | .ok streams => .ok ⟨header, len, descs, loopLen, streams⟩
    | .ok _ => .error .outside
  | _ => .error .outside

/-! ## Service description -/

/-- `service_description_table::table::service`. -/
structure SdtService where
  serviceId : UInt16
  eitUserDefinedFlags : UInt8
  eitScheduleFlag : UInt8
  eitPresentFollowingFlag : UInt8
  runningStatus : UInt8
  freeCAMode : UInt8
  descriptorsLoopLength : UInt16
  descriptors : List Descriptor
deriving DecidableEq, Repr

/-- `service_description_table::table`. -/
structure ServiceDescriptionTable where
  header : SectionHeader
  originalNetworkId : UInt16
  services : List SdtService
deriving DecidableEq

/-- The `SDT_SERVICE_FIX_LEN` bytes of a service. -/
def SdtService.head : List UInt8 → Option (UInt16 × (List Descriptor → SdtService) × List UInt8)
  | b₀ :: b₁ :: b₂ :: b₃ :: b₄ :: rest =>
    some (uimsbf12 b₃ b₄, fun descs => {
      serviceId := uimsbf16 b₀ b₁
      eitUserDefinedFlags := (b₂ >>> 2) &&& 0x07
      eitScheduleFlag := (b₂ >>> 1) &&& 0x01
      eitPresentFollowingFlag := b₂ &&& 0x01
      runningStatus := (b₃ >>> 5) &&& 0x07
      freeCAMode := (b₃ >>> 4) &&& 0x01
      descriptorsLoopLength := uimsbf12 b₃ b₄
      descriptors := descs }, rest)
  | _ => none

/-- `service_description_table::parse`. -/
def ServiceDescriptionTable.parse (header : SectionHeader) :
    List UInt8 → Except ParseError ServiceDescriptionTable
  | b₀ :: b₁ :: _ :: p =>
    -- `SECTION_HEADER_FIX_LEN`, `SECTION_CRC32_LEN` and `SDT_FIX_LEN`
    let serviceLen : ℤ := header.sectionLength.toNat - 5 - 4 - 3
    if serviceLen ≤ 5 then .error .invalid
    else
      match parseParts 5 SdtService.head (p.length + 1) serviceLen p with
      | .error e => .error e
      | .ok services => .ok ⟨header, uimsbf16 b₀ b₁, services⟩
  | _ => .error .outside

/-! ## Common data -/

/-- `common_data_table::table::data`. -/
structure CdtData where
  logoType : UInt8
  logoId : UInt16
  logoVersion : UInt16
  dataSize : UInt16
  dataByte : List UInt8
deriving DecidableEq, Repr

/-- `common_data_table::table`; it has data only if `data_type` is 1. -/
structure CommonDataTable where
  header : SectionHeader
  originalNetworkId : UInt16
  dataType : UInt8
  descriptorsLoopLength : UInt16
  descriptors : List Descriptor
  data : Option CdtData
deriving DecidableEq

/-- The data of a logo, with `dataLen` bytes to go. -/
def CdtData.parse (dataLen : ℤ) (p : List UInt8) : Except ParseError CdtData :=
  if dataLen ≤ 7 then .error .invalid
  else
    match p with
    | b₀ :: b₁ :: b₂ :: b₃ :: b₄ :: b₅ :: b₆ :: rest =>
      let size := uimsbf16 b₅ b₆
      if dataLen ≠ 7 + size.toNat then .error .invalid
      else if rest.length < size.toNat then .error .outside
      else
        .ok {
          logoType := b₀
          logoId := ((b₁ &&& 0x01).toUInt16 <<< 8) ||| b₂.toUInt16
          logoVersion := uimsbf12 b₃ b₄
          dataSize := size
          dataByte := rest.take size.toNat }
    | _ => .error .outside

/-- `common_data_table::parse`. -/
def CommonDataTable.parse (header : SectionHeader) :
    List UInt8 → Except ParseError CommonDataTable
  | b₀ :: b₁ :: b₂ :: b₃ :: b₄ :: p =>
    let len := uimsbf12 b₃ b₄
    match parseDescriptors (p.length + 1) len.toNat p with
    | .error e => .error e
    | .ok (descs, p) =>
      if b₂ ≠ 0x01 then .ok ⟨header, uimsbf16 b₀ b₁, b₂, len, descs, none⟩
      else
        -- `SECTION_HEADER_FIX_LEN`, `SECTION_CRC32_LEN` and `CDT_FIX_LEN`
        match CdtData.parse (header.sectionLength.toNat - 5 - 4 - 5 - len.toNat) p with
        | .error e => .error e
        | .ok data => .ok ⟨header, uimsbf16 b₀ b₁, b₂, len, descs, some data⟩
  | _ => .error .outside

/-! ## The tables of a parser -/

/-- `tables_`: the tables with their addresses. `next` is the address that the next `new table` gives.
`crashed` says that a null pointer has been read through: the program has ended there, and what comes
behind is no state of it. -/
structure TableStore (α : Type) where
  tables : List (ℕ × α)
  next : ℕ
  crashed : Bool
deriving DecidableEq

namespace TableStore

variable {α : Type}

/-- No tables. -/
def empty : TableStore α := ⟨[], 0, false⟩

/-- `new table`. -/
def alloc (e : TableStore α) : TableStore α := { e with next := e.next + 1 }

/-- `append_table`. -/
def appendTable (t : ℕ × α) (e : TableStore α) : TableStore α :=
  { e with tables := e.tables ++ [t] }

/-- `release_tables`. -/
def releaseTables (e : TableStore α) : TableStore α := { e with tables := [] }

/-- `parse` has failed. -/
def fail (err : ParseError) (e : TableStore α) : TableStore α :=
  { e with crashed := e.crashed || decide (err = .nullPointer) }

@[simp]
theorem tables_fail (err : ParseError) (e : TableStore α) : (e.fail err).tables = e.tables := rfl

@[simp]
theorem next_fail (err : ParseError) (e : TableStore α) : (e.fail err).next = e.next := rfl

end TableStore

/-- What a derived class does: which sections it takes, how they are parsed, and what becomes of a
table that is parsed: whether its section is detached, and the tables behind it. -/
structure TableClass (α : Type) where
  started : SectionHeader → Bool
  parse : SectionHeader → List UInt8 → Except ParseError α
  accept : ℕ × α → TableStore α → Bool × TableStore α

namespace TableClass

variable {α : Type} (C : TableClass α)

/-- `parse`, of the header and the place of the data part as they have been found. -/
def parseAt (header : SectionHeader) (data : Option ℤ) (bytes : List UInt8) : Except ParseError α :=
  match data with
  | some k => if 0 ≤ k then C.parse header (bytes.drop k.toNat) else .error .outside
  | none => throughNull (C.parse header [])

/-- `parse`, of a section; `memory` is what lies behind it, for a pointer that runs past its end. -/
def parseCall (c : Call) (memory : List UInt8) : Except ParseError α :=
  C.parseAt c.info.sectHdr (c.info.data.within c.info.raw) (c.bytes ++ memory)

/-- `on_section_started` and `on_section_completed`. `behind n` lies in memory behind the section for
which the `n`-th table is made. A section that is not parsed is detached. -/
def hooks (behind : ℕ → List UInt8) : Hooks (TableStore α) where
  started := fun e x _ => (C.started x.sectHdr, e)
  completed := fun e x bytes =>
    match C.parseCall ⟨x, bytes⟩ (behind e.next) with
    | .ok new => C.accept (e.next, new) e.alloc
    | .error err => (true, e.alloc.fail err)

/-- A table that is parsed becomes the last one. -/
def Appends : Prop := ∀ t e, ∃ l, C.accept t e = (false, { e with tables := l ++ [t] })

theorem keepsState (behind : ℕ → List UInt8) (e : TableStore α) (x : SectionInfo) (b : List UInt8) :
    ((C.hooks behind).started e x b).2 = e := rfl

end TableClass

/-- The classes that release no table. -/
def appendOnly {α : Type} (parse : SectionHeader → List UInt8 → Except ParseError α) :
    TableClass α where
  started _ := true
  parse := parse
  accept t e := (false, e.appendTable t)

theorem appends_appendOnly {α : Type} (parse : SectionHeader → List UInt8 → Except ParseError α) :
    (appendOnly parse).Appends := fun _ _ => ⟨_, rfl⟩

namespace TableKind

variable {α κ : Type} [DecidableEq κ] (K : TableKind α κ)

/-- The kind, for tables with their addresses. -/
def addressed : TableKind (ℕ × α) κ where
  started := K.started
  parse h b := (K.parse h b).map (Prod.mk 0)
  key t := K.key t.2
  version t := K.version t.2

/-- `refresh_sub_tables`, with as many turns as it takes. -/
def refresh (t : ℕ × α) (e : TableStore α) : TableStore α :=
  { e with tables := K.addressed.refreshSubTables t (e.tables.length + 1) e.tables }

theorem tables_refresh (t : ℕ × α) (e : TableStore α) : (K.refresh t e).tables =
    e.tables.filter fun x => !isOld K.addressed.key K.addressed.version t x :=
  K.addressed.refreshSubTables_eq _ (Nat.lt_succ_self _)

theorem refreshSubTablesByVersionNumber_refresh (t : ℕ × α) (e : TableStore α) :
    (K.addressed.refreshSubTablesByVersionNumber t (K.refresh t e).tables).1 = false := by
  have hnone : (K.refresh t e).tables.any (isOld K.addressed.key K.addressed.version t) = false := by
    rw [tables_refresh, List.any_eq_false]
    intro x hx
    simpa using (List.mem_filter.mp hx).2
  rw [refreshSubTablesByVersionNumber, hnone]
  rfl

/-- The classes that release the older versions. -/
def refreshing : TableClass α where
  started := K.started
  parse := K.parse
  accept t e := (false, (K.refresh t e).appendTable t)

theorem appends_refreshing : K.refreshing.Appends := fun _ _ => ⟨_, rfl⟩

end TableKind

/-- `program_association_table`. -/
def patClass : TableClass ProgramAssociationTable := programAssociationTable.refreshing

/-- `program_map_table`. -/
def pmtClass : TableClass ProgramMapTable := appendOnly ProgramMapTable.parse

/-- `conditional_access_table`. -/
def catClass : TableClass ConditionalAccessTable := appendOnly ConditionalAccessTable.parse

/-- `network_information_table`. -/
def nitClass : TableClass NetworkInformationTable := appendOnly NetworkInformationTable.parse

/-- `service_description_table`. -/
def sdtClass : TableClass ServiceDescriptionTable := appendOnly ServiceDescriptionTable.parse

/-- `common_data_table`. -/
def cdtClass : TableClass CommonDataTable := appendOnly CommonDataTable.parse

/-- `event_information_table`. -/
def eitClass : TableClass EventInformationTable := eventInformationTable.refreshing

end AutoRec
