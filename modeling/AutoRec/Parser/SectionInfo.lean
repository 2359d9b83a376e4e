import AutoRec.Lib.Arena
import AutoRec.Parser.Crc
import Mathlib.Data.Int.Notation

/-!
# Sections

`section_info` (`parser/section_parser.h`): a section, as a piece of the pool of its parser. Logging
is left out, and so are the reserved bits of the header, which are not read.

* `SectionHeader`, `parseHeader`: the header and how it is read.
* `SectionInfo`: a section in the pool. Its places in the pool are counted from `pool_`.
* `Sect`: what a section is, wherever it lies; `SectionInfo.view`.
-/

namespace AutoRec

open Arena

/-- `SECTION_HEADER_LEN`. -/
abbrev sectionHeaderLen : ℕ := 8

/-- `SECTION_SHORT_HEADER_LEN`. -/
abbrev sectionShortHeaderLen : ℕ := 3

/-- `EN_SECTION_STATE`. -/
inductive SectionState
  | init
  | receiving
  | received
  | complete
deriving DecidableEq, Repr

/-- `EN_SECTION_TYPE`. -/
inductive SectionType
  | psisi
  | dsmcc
deriving DecidableEq, Repr

/-- `ST_SECTION_HEADER`. -/
structure SectionHeader where
  tableId : UInt8
  sectionSyntaxIndicator : UInt8
  privateIndicator : UInt8
  sectionLength : UInt16
  tableIdExtension : UInt16
  versionNumber : UInt8
  currentNextIndicator : UInt8
  sectionNumber : UInt8
  lastSectionNumber : UInt8
deriving DecidableEq

namespace SectionHeader

/-- `memset (&sect_hdr_, 0x00, …)` -/
def zero : SectionHeader := ⟨0, 0, 0, 0, 0, 0, 0, 0, 0⟩

/-- `section_length + SECTION_SHORT_HEADER_LEN`: the length of the whole section. -/
def totalLen (h : SectionHeader) : ℕ := h.sectionLength.toNat + sectionShortHeaderLen

/-- The first three bytes. -/
def readShort (out : SectionHeader) (b₀ b₁ b₂ : UInt8) : SectionHeader :=
  { out with
    tableId := b₀
    sectionSyntaxIndicator := (b₁ >>> 7) &&& 0x01
    privateIndicator := (b₁ >>> 6) &&& 0x01
    sectionLength := ((b₁.toUInt16 <<< 8) ||| b₂.toUInt16) &&& 0x0fff }

/-- The other five bytes of a long header. -/
def readLong (out : SectionHeader) (b₃ b₄ b₅ b₆ b₇ : UInt8) : SectionHeader :=
  { out with
    tableIdExtension := (b₃.toUInt16 <<< 8) ||| b₄.toUInt16
    versionNumber := (b₅ >>> 1) &&& 0x1f
    currentNextIndicator := b₅ &&& 0x01
    sectionNumber := b₆
    lastSectionNumber := b₇ }

end SectionHeader

/-- `parse_header`: the header, as far as it could be read, and where the data part begins; `none`
is the null pointer. -/
def parseHeader (out : SectionHeader) (start : List UInt8) (type : SectionType) :
    SectionHeader × Option ℕ :=
  match start with
  | b₀ :: b₁ :: b₂ :: rest =>
    let h := out.readShort b₀ b₁ b₂
    if type = .psisi ∧ h.sectionSyntaxIndicator = 0 then (h, some sectionShortHeaderLen)
    else
      match rest with
      | b₃ :: b₄ :: b₅ :: b₆ :: b₇ :: _ => (h.readLong b₃ b₄ b₅ b₆ b₇, some sectionHeaderLen)
      | _ => (h, none)
  | _ => (out, none)

/-- A pointer: a place counted from `pool_`, or from the null pointer. -/
inductive Ptr
  | ofPool (i : ℤ)
  | ofNull (i : ℤ)
deriving DecidableEq

/-- `p -= n` -/
def Ptr.sub (n : ℕ) : Ptr → Ptr
  | .ofPool i => .ofPool (i - n)
  | .ofNull i => .ofNull (i - n)

/-- `section_info`. Its address is the number of the `new` it comes from. -/
structure SectionInfo where
  addr : ℕ
  sectHdr : SectionHeader
  raw : ℕ
  data : Ptr
  tail : ℕ
  state : SectionState
  type : SectionType
deriving DecidableEq

namespace SectionInfo

/-- The constructor, for the bytes from `raw` up to `raw + size`. The header is read by the default
of `parse_header`. -/
def mk' (addr : ℕ) (pool : List UInt8) (raw size : ℕ) (type : SectionType) : SectionInfo where
  addr := addr
  sectHdr := (parseHeader .zero (slice pool raw (raw + size)) .psisi).1
  raw := raw
  data :=
    match (parseHeader .zero (slice pool raw (raw + size)) .psisi).2 with
    | some k => .ofPool (raw + k)
    | none => .ofNull 0
  tail := raw + size
  state := .init
  type := type

variable (x : SectionInfo)

/-- The length of the section, by its header. -/
def totalLen : ℕ := x.sectHdr.totalLen

/-- `is_receive_all`. -/
def isReceiveAll : Bool := x.totalLen ≤ x.tail - x.raw

/-- What `truncate` cuts off. -/
def surplus : ℕ := x.tail - x.raw - x.totalLen

/-- The state is `INIT` or `RECEIVING`. -/
def isOpen : Bool := x.state == .init || x.state == .receiving

/-- All places move down by `n`. -/
def shift (n : ℕ) : SectionInfo :=
  { x with raw := x.raw - n, data := x.data.sub n, tail := x.tail - n }

/-- The bytes of the section. -/
def bytes (pool : List UInt8) : List UInt8 := slice pool x.raw x.tail

/-- `check_crc32`. -/
def checkCrc32 (pool : List UInt8) : Bool := crc32 (slice pool x.raw (x.raw + x.totalLen)) == 0

/-- `operator ==`. -/
def opEq (pool : List UInt8) (y : SectionInfo) : Bool :=
  x.tail - x.raw == y.tail - y.raw && x.bytes pool == y.bytes pool

end SectionInfo

/-! ## A section wherever it lies -/

/-- A section: its header as it was read, the place of its data part in it, its bytes, its state. -/
structure Sect where
  hdr : SectionHeader
  data : Option ℤ
  bytes : List UInt8
  state : SectionState

/-- The place of a pointer in the section that begins at `raw`. -/
def Ptr.within (raw : ℕ) : Ptr → Option ℤ
  | .ofPool i => some (i - raw)
  | .ofNull _ => none

/-- The section in the pool. -/
def SectionInfo.view (pool : List UInt8) (x : SectionInfo) : Sect :=
  ⟨x.sectHdr, x.data.within x.raw, x.bytes pool, x.state⟩

end AutoRec
