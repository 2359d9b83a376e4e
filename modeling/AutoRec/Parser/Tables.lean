import AutoRec.Lib.Latest
import AutoRec.Parser.SectionParser

/-!
# Tables

`event_information_table` and `program_association_table` (`parser/psisi`), which are derived from
`section_parser`: a section that is completed is parsed, the tables of an older version are
released, and the table is appended. Logging is left out.

* `Descriptor`, `EventInformationTable`, `ProgramAssociationTable`, and how they are parsed. A
  pointer that is read from is what is left of the section; behind the section nothing is read.
* `TableKind`: what the two classes do not share; `eventInformationTable`,
  `programAssociationTable`.
* `refreshSubTables`, `TableKind.hooks`: what they do.
-/

namespace AutoRec

open Latest

/-- Why a section is not parsed: the function returns `false`, or it reads behind the section, or
through a null pointer, which ends the program. -/
inductive ParseError
  | invalid
  | outside
  | nullPointer
deriving DecidableEq, Repr

/-- What a function does that is given the null pointer in place of bytes: `r` is what it does
without any byte, and it ends the program as soon as it reads one. -/
def throughNull {α : Type} : Except ParseError α → Except ParseError α
  | .error .outside => .error .nullPointer
  | r => r

theorem throughNull_eq_ok_iff {α : Type} {r : Except ParseError α} {a : α} :
    throughNull r = .ok a ↔ r = .ok a := by
  rcases r with (_ | _ | _) | _ <;> simp [throughNull]

/-! ## Descriptors -/

/-- `descriptor`, with the bytes of `data` that are set. -/
structure Descriptor where
  tag : UInt8
  length : UInt8
  data : List UInt8
deriving DecidableEq, Repr

/-- `descriptor::parse`, with what is behind it. -/
def Descriptor.parse : List UInt8 → Except ParseError (Descriptor × List UInt8)
  | tag :: len :: rest =>
    if len = 0 then .error .invalid
    else if rest.length < len.toNat then .error .outside
    else .ok (⟨tag, len, rest.take len.toNat⟩, rest.drop len.toNat)
  | _ => .error .outside

/-- The loop over the descriptors of an event, with `n` bytes to go; each takes at least three. -/
def parseDescriptors :
    ℕ → ℤ → List UInt8 → Except ParseError (List Descriptor × List UInt8)
  | 0, _, _ => .error .outside
  | fuel + 1, n, p =>
    if n ≤ 0 then .ok ([], p)
    else
      match Descriptor.parse p with
      | .error e => .error e
      | .ok (desc, rest) =>
        match parseDescriptors fuel (n - (2 + desc.length.toNat)) rest with
        | .error e => .error e
        | .ok (descs, rest) => .ok (desc :: descs, rest)

/-! ## Event information -/

/-- `event_information_table::table::event`, with the bytes of `start_time` that are set. -/
structure EitEvent where
  eventId : UInt16
  startTime : List UInt8
  duration : List UInt8
  runningStatus : UInt8
  freeCAMode : UInt8
  descriptorsLoopLength : UInt16
  descriptors : List Descriptor
deriving DecidableEq, Repr

/-- `event_information_table::table`. -/
structure EventInformationTable where
  header : SectionHeader
  transportStreamId : UInt16
  originalNetworkId : UInt16
  segmentLastSectionNumber : UInt8
  lastTableId : UInt8
  events : List EitEvent
deriving DecidableEq

/-- The loop over the events, with `eventLen` bytes to go; each takes at least `EIT_EVENT_FIX_LEN`.
-/
def parseEvents : ℕ → ℤ → List UInt8 → Except ParseError (List EitEvent)
  | 0, _, _ => .error .outside
  | fuel + 1, eventLen, p =>
    if eventLen ≤ 0 then .ok []
    else
      match p with
      | i₀ :: i₁ :: s₀ :: s₁ :: s₂ :: s₃ :: s₄ :: d₀ :: d₁ :: d₂ :: b₁₀ :: b₁₁ :: rest =>
        let len := ((b₁₀ &&& 0x0f).toUInt16 <<< 8) ||| b₁₁.toUInt16
        match parseDescriptors (rest.length + 1) len.toNat rest with
        | .error e => .error e
        | .ok (descs, rest) =>
          if eventLen - (12 + len.toNat) < 0 then .error .invalid
          else
            match parseEvents fuel (eventLen - (12 + len.toNat)) rest with
            | .error e => .error e
            | .ok events =>
              .ok ({
                eventId := (i₀.toUInt16 <<< 8) ||| i₁.toUInt16
                startTime := [s₀, s₁, s₂, s₃, s₄]
                duration := [d₀, d₁, d₂]
                runningStatus := (b₁₀ >>> 5) &&& 0x07
                freeCAMode := (b₁₀ >>> 4) &&& 0x01
                descriptorsLoopLength := len
                descriptors := descs } :: events)
      | _ => .error .outside

/-- `event_information_table::parse`, of the header and the data part of a section. -/
def EventInformationTable.parse (header : SectionHeader) :
    List UInt8 → Except ParseError EventInformationTable
  | t₀ :: t₁ :: n₀ :: n₁ :: segmentLast :: lastTable :: p =>
    -- `SECTION_HEADER_FIX_LEN`, `SECTION_CRC32_LEN` and `EIT_FIX_LEN`
    let eventLen : ℤ := header.sectionLength.toNat - 5 - 4 - 6
    if ¬ (eventLen = 0 ∨ eventLen = 12) ∧ eventLen < 12 then .error .invalid
    else
      match parseEvents (p.length + 1) eventLen p with
      | .error e => .error e
      | .ok events =>
        .ok {
          header := header
          transportStreamId := (t₀.toUInt16 <<< 8) ||| t₁.toUInt16
          originalNetworkId := (n₀.toUInt16 <<< 8) ||| n₁.toUInt16
          segmentLastSectionNumber := segmentLast
          lastTableId := lastTable
          events := events }
  | _ => .error .outside

/-! ## Program association -/

/-- `program_association_table::table::program`. -/
structure PatProgram where
  programNumber : UInt16
  programMapPID : UInt16
deriving DecidableEq, Repr

/-- `program_association_table::table`. -/
structure ProgramAssociationTable where
  header : SectionHeader
  programs : List PatProgram
deriving DecidableEq

/-- `get_data_part_len`. -/
def SectionHeader.dataPartLen (header : SectionHeader) : UInt16 :=
  if header.sectionSyntaxIndicator = 0 then header.sectionLength - 4 else header.sectionLength - 5 - 4

/-- The loop over the programs, with `n` bytes to go. -/
def parsePrograms : ℕ → ℤ → List UInt8 → Except ParseError (List PatProgram)
  | 0, _, _ => .error .outside
  | fuel + 1, n, p =>
    if n ≤ 0 then .ok []
    else
      match p with
      | b₀ :: b₁ :: b₂ :: b₃ :: rest =>
        if n - 4 < 0 then .error .invalid
        else
          match parsePrograms fuel (n - 4) rest with
          | .error e => .error e
          | .ok programs =>
            .ok ({
              programNumber := (b₀.toUInt16 <<< 8) ||| b₁.toUInt16
              programMapPID := ((b₂ &&& 0x1f).toUInt16 <<< 8) ||| b₃.toUInt16 } :: programs)
      | _ => .error .outside

/-- `program_association_table::parse`, of the header and the data part of a section. -/
def ProgramAssociationTable.parse (header : SectionHeader) (data : List UInt8) :
    Except ParseError ProgramAssociationTable :=
  let n := header.dataPartLen.toNat
  if n < 4 then .error .invalid
  else if n % 4 ≠ 0 then .error .invalid
  else
    match parsePrograms (data.length + 1) n data with
    | .error e => .error e
    | .ok programs => .ok ⟨header, programs⟩

/-! ## The two classes -/

/-- What a class of tables `α` has of its own: which sections it takes, how they are parsed, what
identifies a sub-table, and the version. -/
structure TableKind (α κ : Type) where
  started : SectionHeader → Bool
  parse : SectionHeader → List UInt8 → Except ParseError α
  key : α → κ
  version : α → UInt8

/-- What identifies a sub-table of events. -/
structure EitKey where
  tableId : UInt8
  tableIdExtension : UInt16
  transportStreamId : UInt16
  originalNetworkId : UInt16
  sectionNumber : UInt8
deriving DecidableEq, Repr

/-- What identifies a sub-table of programs. -/
structure PatKey where
  tableId : UInt8
  tableIdExtension : UInt16
  sectionNumber : UInt8
deriving DecidableEq, Repr

/-- `event_information_table`: the present and the following event only. -/
def eventInformationTable : TableKind EventInformationTable EitKey where
  started h := decide (h.tableId = 0x4e ∨ h.tableId = 0x4f)
  parse := EventInformationTable.parse
  key t := ⟨t.header.tableId, t.header.tableIdExtension, t.transportStreamId, t.originalNetworkId,
    t.header.sectionNumber⟩
  version t := t.header.versionNumber

/-- `program_association_table`. -/
def programAssociationTable : TableKind ProgramAssociationTable PatKey where
  started _ := true
  parse := ProgramAssociationTable.parse
  key t := ⟨t.header.tableId, t.header.tableIdExtension, t.header.sectionNumber⟩
  version t := t.header.versionNumber

namespace TableKind

variable {α κ : Type} [DecidableEq κ] (K : TableKind α κ)

/-- `refresh_sub_tables_by_version_number`, with the tables. -/
def refreshSubTablesByVersionNumber (new : α) (tables : List α) : Bool × List α :=
  if tables.any (isOld K.key K.version new) then
    (true, tables.eraseP (isOld K.key K.version new))
  else (false, tables)

/-- `refresh_sub_tables`, in a number of turns. -/
def refreshSubTables (new : α) : ℕ → List α → List α
  | 0, tables => tables
  | fuel + 1, tables =>
    match K.refreshSubTablesByVersionNumber new tables with
    | (true, tables) => refreshSubTables new fuel tables
    | (false, tables) => tables

/-- `parse`, of a section with its header and its data part where they have been found. -/
def parseInfo (x : SectionInfo) (bytes : List UInt8) : Except ParseError α :=
  match x.data.within x.raw with
  | some k => if 0 ≤ k then K.parse x.sectHdr (bytes.drop k.toNat) else .error .outside
  | none => throughNull (K.parse x.sectHdr [])

/-- `on_section_started` and `on_section_completed`; the state is `tables_`. A section that is not
parsed is detached; that the program ends when a null pointer is read through is noted by
`TableClass.hooks` only. -/
def hooks : Hooks (List α) where
  started := fun tables x _ => (K.started x.sectHdr, tables)
  completed := fun tables x bytes =>
    match K.parseInfo x bytes with
    | .ok new => (false, K.refreshSubTables new (tables.length + 1) tables ++ [new])
    | .error _ => (true, tables)

/-- Each turn releases one table, so that the turns suffice. -/
theorem refreshSubTables_eq (new : α) {fuel : ℕ} {tables : List α} (h : tables.length < fuel) :
    K.refreshSubTables new fuel tables =
      tables.filter fun t => !isOld K.key K.version new t := by
  induction fuel generalizing tables with
  | zero => omega
  | succ fuel ih =>
    rw [refreshSubTables, refreshSubTablesByVersionNumber]
    by_cases hany : tables.any (isOld K.key K.version new) = true
    · obtain ⟨x, hx, hold⟩ := List.any_eq_true.mp hany
      obtain ⟨y, l, l', hl, hy, rfl, herase⟩ := List.exists_of_eraseP hx hold
      simp only [hany, if_true]
      rw [herase, ih]
      · simp [hy]
      · simp only [List.length_append, List.length_cons] at h ⊢
        omega
    · simp only [Bool.not_eq_true] at hany
      rw [hany]
      simp only [Bool.false_eq_true, if_false]
      rw [eq_comm, List.filter_eq_self]
      intro x hx
      have := List.any_eq_false.mp hany x hx
      simpa using this

/-- **A section that is parsed** replaces the older versions. -/
theorem hooks_completed {x : SectionInfo} {bytes : List UInt8} {new : α}
    (h : K.parseInfo x bytes = .ok new) (tables : List α) :
    K.hooks.completed tables x bytes = (false, replaceOld K.key K.version new tables) := by
  simp only [hooks, h]
  rw [K.refreshSubTables_eq new (Nat.lt_succ_self _)]
  rfl

end TableKind

end AutoRec
