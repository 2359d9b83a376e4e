import AutoRec.Lib.Reader
import AutoRec.Parser.Bounds
import AutoRec.Parser.Numbers

/-!
# DSM-CC messages

`dsmcc::parse_dii` and `dsmcc::parse_ddb` (`parser/dsmcc/dsmcc.cpp`). The lengths and the number of
modules come from the section, and the only check is that of the total length in the end. The
constructor of a `section_info` reads the header before it takes the type over, so that the address
of the data part is three bytes behind the start if the syntax indicator is not set.

* `DsmccHeader`, `Dii`, `Ddb`, and how they are parsed; their `bytes`.
* `DsmccHeader.parse_eq_ok_iff`, `DiiModule.parse_eq_ok_iff`: what is read are these bytes.
* `DsmccMessage.ReadsInside`, `DsmccMessage.Fits`.
* **`dsmcc_inside_iff`**: the bytes read lie in the data part if and only if the message does.
-/

namespace AutoRec

open Reader

/-! ## Numbers -/

/-- A number of two bytes. -/
def readU16 : Reader UInt8 UInt16 := do
  let b₀ ← byte
  let b₁ ← byte
  return uimsbf16 b₀ b₁

/-- A number of four bytes. -/
def readU32 : Reader UInt8 UInt32 := do
  let b₀ ← byte
  let b₁ ← byte
  let b₂ ← byte
  let b₃ ← byte
  return uimsbf32 b₀ b₁ b₂ b₃

/-! ## Messages -/

/-- `dsmcc_message_header`, or `dsmcc_download_data_header` with its `download_id` as the
transaction. The adaptation header is its type and its data. -/
structure DsmccHeader where
  protocolDiscriminator : UInt8
  dsmccType : UInt8
  messageId : UInt16
  transactionId : UInt32
  reserved : UInt8
  adaptationLength : UInt8
  messageLength : UInt16
  adaptationHeader : List UInt8
deriving DecidableEq, Repr

/-- The adaptation header, of `n` bytes. -/
def readAdaptationHeader (n : ℕ) : Reader UInt8 (List UInt8) :=
  if n = 0 then return []
  else do
    let adaptationType ← byte
    let adaptationDataByte ← copy (n - 1) 0xff
    return adaptationType :: adaptationDataByte

/-- The header of a message. -/
def DsmccHeader.parse : Reader UInt8 DsmccHeader := do
  let protocolDiscriminator ← byte
  let dsmccType ← byte
  let messageId ← readU16
  let transactionId ← readU32
  let reserved ← byte
  let adaptationLength ← byte
  let messageLength ← readU16
  let adaptationHeader ← readAdaptationHeader adaptationLength.toNat
  return ⟨protocolDiscriminator, dsmccType, messageId, transactionId, reserved, adaptationLength,
    messageLength, adaptationHeader⟩

/-- `download_info_indication::module`. -/
structure DiiModule where
  moduleId : UInt16
  moduleSize : UInt32
  moduleVersion : UInt8
  moduleInfoByte : List UInt8
deriving DecidableEq, Repr

/-- One turn of the loop over the modules. -/
def DiiModule.parse : Reader UInt8 DiiModule := do
  let moduleId ← readU16
  let moduleSize ← readU32
  let moduleVersion ← byte
  let moduleInfoByte ← sized 0xff
  return ⟨moduleId, moduleSize, moduleVersion, moduleInfoByte⟩

/-- `download_info_indication`. -/
structure Dii where
  messageHeader : DsmccHeader
  downloadId : UInt32
  blockSize : UInt16
  windowSize : UInt8
  ackPeriod : UInt8
  tcDownloadWindow : UInt32
  tcDownloadScenario : UInt32
  modules : List DiiModule
  privateDataByte : List UInt8
deriving DecidableEq, Repr

/-- `download_data_block`. -/
structure Ddb where
  downloadDataHeader : DsmccHeader
  moduleId : UInt16
  moduleVersion : UInt8
  reserved : UInt8
  blockNumber : UInt16
  blockDataByte : List UInt8
deriving DecidableEq, Repr

/-- The length check: the place that has been reached in the `size` bytes of the data part against
`get_data_part_len`. -/
def lengthCheck {α : Type} (size : ℕ) (dataPartLen : UInt16) (v : α) : Reader UInt8 (Option α) := do
  let n ← left
  return if size - n = dataPartLen.toNat then some v else none

/-- `parse_dii`. The compatibility descriptor is passed over; without a length it is taken for four
bytes. -/
def Dii.parse (size : ℕ) (dataPartLen : UInt16) : Reader UInt8 (Option Dii) := do
  let messageHeader ← DsmccHeader.parse
  let downloadId ← readU32
  let blockSize ← readU16
  let windowSize ← byte
  let ackPeriod ← byte
  let tcDownloadWindow ← readU32
  let tcDownloadScenario ← readU32
  let compatibilityDescriptorLength ← readU16
  skip (if 0 < compatibilityDescriptorLength.toNat then compatibilityDescriptorLength.toNat else 2)
  let numberOfModules ← readU16
  let modules ← times DiiModule.parse numberOfModules.toNat
  let privateDataLength ← readU16
  let privateDataByte ← copy privateDataLength.toNat 0xffff
  lengthCheck size dataPartLen ⟨messageHeader, downloadId, blockSize, windowSize, ackPeriod,
    tcDownloadWindow, tcDownloadScenario, modules, privateDataByte⟩

/-- `m_blockDataByteLen`, with `DDB_FIX_LEN`. -/
def DsmccHeader.blockDataByteLen (h : DsmccHeader) : ℤ :=
  h.messageLength.toNat - h.adaptationLength.toNat - 6

/-- `parse_ddb`. -/
def Ddb.parse (size : ℕ) (dataPartLen : UInt16) : Reader UInt8 (Option Ddb) := do
  let downloadDataHeader ← DsmccHeader.parse
  let moduleId ← readU16
  let moduleVersion ← byte
  let reserved ← byte
  let blockNumber ← readU16
  if downloadDataHeader.blockDataByteLen < 0 then return none
  else
    let blockDataByte ← copy downloadDataHeader.blockDataByteLen.toNat 0xffff
    lengthCheck size dataPartLen
      ⟨downloadDataHeader, moduleId, moduleVersion, reserved, blockNumber, blockDataByte⟩

/-! ## Bytes -/

/-- The bytes of a header. -/
def DsmccHeader.bytes (h : DsmccHeader) : List UInt8 :=
  h.protocolDiscriminator :: h.dsmccType :: (bytesOf 2 h.messageId.toNat ++
    (bytesOf 4 h.transactionId.toNat ++ (h.reserved :: h.adaptationLength ::
      (bytesOf 2 h.messageLength.toNat ++ h.adaptationHeader))))

/-- The adaptation header has the length that is given. -/
def DsmccHeader.WellFormed (h : DsmccHeader) : Prop :=
  h.adaptationHeader.length = h.adaptationLength.toNat

/-- The bytes of a module. -/
def DiiModule.bytes (x : DiiModule) : List UInt8 :=
  bytesOf 2 x.moduleId.toNat ++ (bytesOf 4 x.moduleSize.toNat ++
    (x.moduleVersion :: sizedBytes x.moduleInfoByte))

/-- The length of the information fits in its byte. -/
def DiiModule.WellFormed (x : DiiModule) : Prop := x.moduleInfoByte.length < 256

/-- The bytes of a compatibility descriptor: its length and what follows. -/
def IsCompatibilityDescriptor (l : List UInt8) : Prop :=
  ∃ (n : UInt16) (rest : List UInt8), l = bytesOf 2 n.toNat ++ rest ∧
    rest.length = if 0 < n.toNat then n.toNat else 2

/-- The bytes of a DII, with a compatibility descriptor. -/
def Dii.bytes (d : Dii) (compatibilityDescriptor : List UInt8) : List UInt8 :=
  d.messageHeader.bytes ++ (bytesOf 4 d.downloadId.toNat ++ (bytesOf 2 d.blockSize.toNat ++
    (d.windowSize :: d.ackPeriod :: (bytesOf 4 d.tcDownloadWindow.toNat ++
      (bytesOf 4 d.tcDownloadScenario.toNat ++ (compatibilityDescriptor ++
        (bytesOf 2 d.modules.length ++ (d.modules.flatMap DiiModule.bytes ++
          (bytesOf 2 d.privateDataByte.length ++ d.privateDataByte)))))))))

/-- The lengths of a DII are those of its parts, and its numbers fit in their bytes. -/
structure Dii.WellFormed (d : Dii) : Prop where
  messageHeader : d.messageHeader.WellFormed
  modules : ∀ x ∈ d.modules, x.WellFormed
  numberOfModules : d.modules.length < 65536
  privateDataLength : d.privateDataByte.length < 65536

/-- The bytes of a DDB in front of the block. -/
def Ddb.head (d : Ddb) : List UInt8 :=
  d.downloadDataHeader.bytes ++ (bytesOf 2 d.moduleId.toNat ++ (d.moduleVersion :: d.reserved ::
    bytesOf 2 d.blockNumber.toNat))

/-! ## What is read -/

section Rules

variable {γ : Type} {s s' : List UInt8} {c : γ}

theorem readU16_eq_ok_iff {n : UInt16} :
    readU16.run s = .ok (n, s') ↔ s = bytesOf 2 n.toNat ++ s' := by
  simp only [readU16, byte_bind_eq_ok_iff, pure_eq_ok_iff]
  constructor
  · rintro ⟨b₀, _, rfl, b₁, _, rfl, rfl, rfl⟩
    rw [bytesOf_uimsbf16]
    rfl
  · rintro rfl
    rw [bytesOf_two]
    refine ⟨_, _, rfl, _, s', rfl, ?_, rfl⟩
    rw [← UInt16.toNat_inj, toNat_uimsbf16, ← (bytesOf_two_eq_iff n.toNat_lt).mp (bytesOf_two _)]

theorem readU32_eq_ok_iff {n : UInt32} :
    readU32.run s = .ok (n, s') ↔ s = bytesOf 4 n.toNat ++ s' := by
  simp only [readU32, byte_bind_eq_ok_iff, pure_eq_ok_iff]
  constructor
  · rintro ⟨b₀, _, rfl, b₁, _, rfl, b₂, _, rfl, b₃, _, rfl, rfl, rfl⟩
    have hbytes := (bytesOf_four_eq_iff (uimsbf32 b₀ b₁ b₂ b₃).toNat_lt).mpr
      (toNat_uimsbf32 b₀ b₁ b₂ b₃)
    rw [hbytes]
    rfl
  · rintro rfl
    rw [bytesOf_four]
    refine ⟨_, _, rfl, _, _, rfl, _, _, rfl, _, s', rfl, ?_, rfl⟩
    rw [← UInt32.toNat_inj, toNat_uimsbf32,
      ← (bytesOf_four_eq_iff n.toNat_lt).mp (bytesOf_four _)]

theorem readU16_bind_eq_ok_iff {f : UInt16 → Reader UInt8 γ} :
    (readU16 >>= f).run s = .ok (c, s') ↔
      ∃ n t, s = bytesOf 2 n.toNat ++ t ∧ (f n).run t = .ok (c, s') := by
  simp only [bind_eq_ok_iff, readU16_eq_ok_iff]

theorem readU32_bind_eq_ok_iff {f : UInt32 → Reader UInt8 γ} :
    (readU32 >>= f).run s = .ok (c, s') ↔
      ∃ n t, s = bytesOf 4 n.toNat ++ t ∧ (f n).run t = .ok (c, s') := by
  simp only [bind_eq_ok_iff, readU32_eq_ok_iff]

theorem readAdaptationHeader_eq_ok_iff {n : ℕ} (hn : n < 256) {l : List UInt8} :
    (readAdaptationHeader n).run s = .ok (l, s') ↔ l.length = n ∧ s = l ++ s' := by
  unfold readAdaptationHeader
  split_ifs with h
  · rw [pure_eq_ok_iff, h, List.length_eq_zero_iff, eq_comm (a := [])]
    constructor
    · rintro ⟨rfl, rfl⟩
      exact ⟨rfl, rfl⟩
    · rintro ⟨rfl, rfl⟩
      exact ⟨rfl, rfl⟩
  · simp only [byte_bind_eq_ok_iff, copy_bind_eq_ok_iff, pure_eq_ok_iff]
    constructor
    · rintro ⟨b, _, rfl, rest, _, ⟨-, hrest, rfl⟩, rfl, rfl⟩
      exact ⟨by rw [List.length_cons]; omega, rfl⟩
    · rintro ⟨hlen, rfl⟩
      obtain ⟨b, rest, rfl⟩ := List.exists_cons_of_ne_nil (l := l) (by
        rintro rfl
        exact h hlen.symm)
      rw [List.length_cons] at hlen
      exact ⟨b, _, rfl, rest, s', ⟨by omega, by omega, rfl⟩, rfl, rfl⟩

/-- **A header** is read from its bytes. -/
theorem DsmccHeader.parse_eq_ok_iff {h : DsmccHeader} :
    parse.run s = .ok (h, s') ↔ h.WellFormed ∧ s = h.bytes ++ s' := by
  simp only [parse, byte_bind_eq_ok_iff, readU16_bind_eq_ok_iff, readU32_bind_eq_ok_iff,
    bind_eq_ok_iff (r := readAdaptationHeader _),
    readAdaptationHeader_eq_ok_iff (UInt8.toNat_lt _), pure_eq_ok_iff]
  constructor
  · rintro ⟨pd, _, rfl, ty, _, rfl, mid, _, rfl, tid, _, rfl, res, _, rfl, al, _, rfl, ml, _, rfl,
      l, _, ⟨hl, rfl⟩, rfl, rfl⟩
    exact ⟨hl, by simp only [bytes, List.cons_append, List.append_assoc]⟩
  · rintro ⟨hl, rfl⟩
    simp only [bytes, List.cons_append, List.append_assoc]
    exact ⟨_, _, rfl, _, _, rfl, _, _, rfl, _, _, rfl, _, _, rfl, _, _, rfl, _, _, rfl,
      _, s', ⟨hl, rfl⟩, rfl, rfl⟩

/-- **A module** is read from its bytes. -/
theorem DiiModule.parse_eq_ok_iff {x : DiiModule} :
    parse.run s = .ok (x, s') ↔ x.WellFormed ∧ s = x.bytes ++ s' := by
  simp only [parse, byte_bind_eq_ok_iff, readU16_bind_eq_ok_iff, readU32_bind_eq_ok_iff,
    sized_bind_eq_ok_iff, pure_eq_ok_iff]
  constructor
  · rintro ⟨mid, _, rfl, size, _, rfl, ver, _, rfl, info, _, ⟨hinfo, rfl⟩, rfl, rfl⟩
    exact ⟨hinfo, by simp only [bytes, List.cons_append, List.append_assoc]⟩
  · rintro ⟨hinfo, rfl⟩
    simp only [bytes, List.cons_append, List.append_assoc]
    exact ⟨_, _, rfl, _, _, rfl, _, _, rfl, _, s', ⟨hinfo, rfl⟩, rfl, rfl⟩

theorem lengthCheck_eq_ok_iff {α : Type} {size : ℕ} {dataPartLen : UInt16} {a : α} {v : Option α} :
    (lengthCheck size dataPartLen a).run s = .ok (v, s') ↔
      s = s' ∧ v = if size - s.length = dataPartLen.toNat then some a else none := by
  rw [lengthCheck, left_bind_eq_ok_iff, pure_eq_ok_iff, eq_comm (a := v), and_comm]

end Rules

/-! ## Sections -/

/-- A message in a section: `table_id` 0x3b or 0x3c. -/
inductive DsmccMessage
  | dii
  | ddb

/-- A section that is complete and has a correct CRC. Its header has been read whole, from its first
packet. -/
structure DsmccSection (z : List UInt8) : Prop where
  length : z.length = (sectionHeader z).totalLen
  crc : crc32 z = 0

/-- `get_data_part_len`. -/
def dsmccDataPartLen (header : SectionHeader) : UInt16 := header.sectionLength - 5 - 4

/-- What begins at `get_data_part_addr` and lies in the data part. If the address is not behind the
long header, what is read first does not. -/
def dsmccBytes (z : List UInt8) : List UInt8 :=
  if (parseHeader .zero z .psisi).2 = some sectionHeaderLen then dataPart z else []

namespace DsmccMessage

/-- Only bytes of the data part are read, nothing is written behind an array, and the message is
accepted only if its fields fill the data part. -/
def ReadsInside (z : List UInt8) : DsmccMessage → Prop
  | dii => Bounded (Dii.parse (dsmccBytes z).length (dsmccDataPartLen (sectionHeader z)))
      (dsmccBytes z)
  | ddb => Bounded (Ddb.parse (dsmccBytes z).length (dsmccDataPartLen (sectionHeader z)))
      (dsmccBytes z)

/-- The fields lie in the data part, as their lengths say. A block of negative length is not read. -/
def Fits (data : List UInt8) : DsmccMessage → Prop
  | dii => ∃ (d : Dii) (compatibilityDescriptor : List UInt8), d.WellFormed ∧
      IsCompatibilityDescriptor compatibilityDescriptor ∧ d.bytes compatibilityDescriptor <+: data
  | ddb => ∃ d : Ddb, d.downloadDataHeader.WellFormed ∧
      (d.downloadDataHeader.blockDataByteLen < 0 ∧ d.head <+: data ∨
        d.downloadDataHeader.blockDataByteLen = d.blockDataByte.length ∧
          d.head ++ d.blockDataByte <+: data)

end DsmccMessage

section Runs

variable {size : ℕ} {dataPartLen : UInt16} {s s' : List UInt8}

/-- The compatibility descriptor is passed over; the number behind it shows that it is there. -/
theorem compatibilityDescriptor_iff {P : UInt16 → List UInt8 → Prop} :
    (∃ (n : UInt16) (t : List UInt8), s = bytesOf 2 n.toNat ++ t ∧ ∃ (m : UInt16) (u : List UInt8),
      t.drop (if 0 < n.toNat then n.toNat else 2) = bytesOf 2 m.toNat ++ u ∧ P m u) ↔
    ∃ l, IsCompatibilityDescriptor l ∧ ∃ (m : UInt16) (u : List UInt8),
      s = l ++ (bytesOf 2 m.toNat ++ u) ∧ P m u := by
  constructor
  · rintro ⟨n, t, rfl, m, u, hdrop, hP⟩
    have hlen := congrArg List.length hdrop
    rw [List.length_drop, List.length_append, bytesOf_two, List.length_cons] at hlen
    refine ⟨bytesOf 2 n.toNat ++ t.take (if 0 < n.toNat then n.toNat else 2),
      ⟨n, _, rfl, ?_⟩, m, u, ?_, hP⟩
    · rw [List.length_take]
      omega
    · rw [← hdrop, List.append_assoc, List.take_append_drop]
  · rintro ⟨_, ⟨n, rest, rfl, hrest⟩, m, u, rfl, hP⟩
    refine ⟨n, _, List.append_assoc .., m, u, ?_, hP⟩
    rw [← hrest, List.drop_left]

theorem Dii.parse_eq_ok_iff {v : Option Dii} : (parse size dataPartLen).run s = .ok (v, s') ↔
    ∃ (d : Dii) (l : List UInt8), d.WellFormed ∧ IsCompatibilityDescriptor l ∧
      s = d.bytes l ++ s' ∧ v = if size - s'.length = dataPartLen.toNat then some d else none := by
  simp only [parse, bind_eq_ok_iff (r := DsmccHeader.parse), DsmccHeader.parse_eq_ok_iff,
    byte_bind_eq_ok_iff, readU16_bind_eq_ok_iff, readU32_bind_eq_ok_iff, skip_bind_eq_ok_iff,
    compatibilityDescriptor_iff, bind_eq_ok_iff (r := times _ _),
    times_eq_ok_iff DiiModule.parse_eq_ok_iff, copy_bind_eq_ok_iff, lengthCheck_eq_ok_iff]
  constructor
  · rintro ⟨h, _, ⟨hh, rfl⟩, di, _, rfl, bs, _, rfl, ws, _, rfl, ap, _, rfl, tw, _, rfl,
      ts, _, rfl, l, hl, m, _, rfl, mods, _, ⟨hmods, hall, rfl⟩, n, _, rfl, priv, _,
      ⟨-, hpriv, rfl⟩, rfl, rfl⟩
    refine ⟨⟨h, di, bs, ws, ap, tw, ts, mods, priv⟩, l,
      ⟨hh, hall, hmods ▸ m.toNat_lt, hpriv ▸ n.toNat_lt⟩, hl, ?_, rfl⟩
    simp only [bytes, hmods, hpriv, List.cons_append, List.append_assoc]
  · rintro ⟨d, l, ⟨hh, hall, hmods, hpriv⟩, hl, rfl, rfl⟩
    have hm : (UInt16.ofNat d.modules.length).toNat = d.modules.length := by
      rw [UInt16.toNat_ofNat']
      exact Nat.mod_eq_of_lt hmods
    have hn : (UInt16.ofNat d.privateDataByte.length).toNat = d.privateDataByte.length := by
      rw [UInt16.toNat_ofNat']
      exact Nat.mod_eq_of_lt hpriv
    simp only [bytes, List.cons_append, List.append_assoc]
    refine ⟨d.messageHeader, _, ⟨hh, rfl⟩, _, _, rfl, _, _, rfl, _, _, rfl, _, _, rfl, _, _, rfl,
      _, _, rfl, l, hl, UInt16.ofNat d.modules.length, _, by rw [hm], d.modules, _,
      ⟨hm.symm, hall, rfl⟩, UInt16.ofNat d.privateDataByte.length, _, by rw [hn],
      d.privateDataByte, s', ⟨by omega, hn.symm, rfl⟩, rfl, rfl⟩

theorem Ddb.parse_eq_ok_iff {v : Option Ddb} : (parse size dataPartLen).run s = .ok (v, s') ↔
    ∃ d : Ddb, d.downloadDataHeader.WellFormed ∧
      (d.downloadDataHeader.blockDataByteLen < 0 ∧ s = d.head ++ s' ∧ v = none ∨
        d.downloadDataHeader.blockDataByteLen = d.blockDataByte.length ∧
          s = d.head ++ d.blockDataByte ++ s' ∧
          v = if size - s'.length = dataPartLen.toNat then some d else none) := by
  simp only [parse, bind_eq_ok_iff (r := DsmccHeader.parse), DsmccHeader.parse_eq_ok_iff,
    byte_bind_eq_ok_iff, readU16_bind_eq_ok_iff]
  constructor
  · rintro ⟨h, _, ⟨hh, rfl⟩, mid, _, rfl, ver, _, rfl, res, _, rfl, bn, t, rfl, hrun⟩
    split_ifs at hrun with hneg
    · obtain ⟨rfl, rfl⟩ := pure_eq_ok_iff.mp hrun
      refine ⟨⟨h, mid, ver, res, bn, []⟩, hh, .inl ⟨hneg, ?_, rfl⟩⟩
      simp only [head, List.cons_append, List.append_assoc]
    · simp only [copy_bind_eq_ok_iff, lengthCheck_eq_ok_iff] at hrun
      obtain ⟨block, _, ⟨-, hblock, rfl⟩, rfl, rfl⟩ := hrun
      refine ⟨⟨h, mid, ver, res, bn, block⟩, hh, .inr ⟨?_, ?_, rfl⟩⟩
      · dsimp only
        omega
      · simp only [head, List.cons_append, List.append_assoc]
  · rintro ⟨d, hh, ⟨hneg, rfl, rfl⟩ | ⟨hlen, rfl, rfl⟩⟩
    · simp only [head, List.cons_append, List.append_assoc]
      refine ⟨_, _, ⟨hh, rfl⟩, _, _, rfl, _, _, rfl, _, _, rfl, d.blockNumber, s', rfl, ?_⟩
      rw [if_pos hneg]
      rfl
    · simp only [head, List.cons_append, List.append_assoc]
      refine ⟨_, _, ⟨hh, rfl⟩, _, _, rfl, _, _, rfl, _, _, rfl, d.blockNumber, _, rfl, ?_⟩
      have hmsg := d.downloadDataHeader.messageLength.toNat_lt
      have hle : d.blockDataByte.length ≤ 0xffff := by
        rw [DsmccHeader.blockDataByteLen] at hlen
        omega
      rw [if_neg (by omega), copy_bind_eq_ok_iff]
      exact ⟨d.blockDataByte, s', ⟨by omega, by omega, rfl⟩, lengthCheck_eq_ok_iff.mpr ⟨rfl, rfl⟩⟩

theorem eq_nil_of_lengthCheck {α : Type} {l : List UInt8} {d : α} (hsize : size = dataPartLen.toNat)
    (hs : size = (l ++ s').length) (h : (if size - s'.length = dataPartLen.toNat then some d
      else none).isSome = true) (hl : l ≠ []) : s' = [] := by
  split_ifs at h with hcheck
  · rw [List.length_append] at hs
    have := List.length_pos_iff.mpr hl
    exact List.length_eq_zero_iff.mp (by omega)
  · cases h

end Runs

theorem dsmccBytes_eq (z : List UInt8) : dsmccBytes z =
    if (sectionHeader z).sectionSyntaxIndicator = 1 then dataPart z else [] := by
  have hbit : ∀ b : UInt8, (b >>> 7) &&& 0x01 = 0 ∨ (b >>> 7) &&& 0x01 = 1 :=
    forall_uint8 (by decide +kernel)
  unfold dsmccBytes sectionHeader
  rcases z with _ | ⟨b₀, _ | ⟨b₁, _ | ⟨b₂, rest⟩⟩⟩
  iterate 3
    · rfl
  rcases hbit b₁ with hzero | hone
  · simp only [parseHeader, SectionHeader.readShort, hzero]
    rfl
  · rcases rest with _ | ⟨b₃, _ | ⟨b₄, _ | ⟨b₅, _ | ⟨b₆, _ | ⟨b₇, rest⟩⟩⟩⟩⟩
    iterate 5
      · simp only [parseHeader, SectionHeader.readShort, hone]
        rfl
    simp only [parseHeader, SectionHeader.readShort, SectionHeader.readLong, hone]
    rfl

theorem length_dsmccBytes {z : List UInt8} (h : DsmccSection z) : dsmccBytes z = [] ∨
    (dsmccBytes z).length = (dsmccDataPartLen (sectionHeader z)).toNat := by
  have hlen : z.length = (sectionHeader z).sectionLength.toNat + 3 := h.length
  have hheader : sectionHeaderLen = 8 := rfl
  rw [dsmccBytes_eq]
  split_ifs with hlong
  · by_cases hshort : (sectionHeader z).sectionLength.toNat ≤ 9
    · left
      rw [dataPart, List.drop_eq_nil_iff, List.length_take]
      omega
    · right
      have h₅ : ((sectionHeader z).sectionLength - 5).toNat =
          (sectionHeader z).sectionLength.toNat - 5 :=
        UInt16.toNat_sub_of_le _ _ (UInt16.le_iff_toNat_le.mpr (by show 5 ≤ _; omega))
      have h₄ : ((sectionHeader z).sectionLength - 5 - 4).toNat =
          ((sectionHeader z).sectionLength - 5).toNat - 4 :=
        UInt16.toNat_sub_of_le _ _ (UInt16.le_iff_toNat_le.mpr (by show 4 ≤ _; omega))
      rw [dataPart, List.length_drop, List.length_take, dsmccDataPartLen, h₄, h₅]
      omega
  · exact .inl rfl

namespace DsmccMessage

theorem not_fits_nil (k : DsmccMessage) : ¬ k.Fits [] := by
  cases k with
  | dii =>
    rintro ⟨d, l, -, -, hprefix⟩
    cases List.prefix_nil.mp hprefix
  | ddb =>
    rintro ⟨d, -, ⟨-, hprefix⟩ | ⟨-, hprefix⟩⟩
    · cases List.prefix_nil.mp hprefix
    · cases List.prefix_nil.mp hprefix

theorem bounded_dii_iff {data : List UInt8} {dataPartLen : UInt16}
    (hlen : data = [] ∨ data.length = dataPartLen.toNat) :
    Bounded (Dii.parse data.length dataPartLen) data ↔ DsmccMessage.dii.Fits data := by
  constructor
  · rintro ⟨v, s', hrun, -⟩
    obtain ⟨d, l, hd, hl, hdata, -⟩ := Dii.parse_eq_ok_iff.mp hrun
    exact ⟨d, l, hd, hl, s', hdata.symm⟩
  · rintro ⟨d, l, hd, hl, s', hdata⟩
    refine ⟨_, s', Dii.parse_eq_ok_iff.mpr ⟨d, l, hd, hl, hdata.symm, rfl⟩, fun hv => ?_⟩
    rcases hlen with rfl | hlen
    · cases hdata
    · exact eq_nil_of_lengthCheck hlen (congrArg List.length hdata.symm) hv (List.cons_ne_nil _ _)

theorem bounded_ddb_iff {data : List UInt8} {dataPartLen : UInt16}
    (hlen : data = [] ∨ data.length = dataPartLen.toNat) :
    Bounded (Ddb.parse data.length dataPartLen) data ↔ DsmccMessage.ddb.Fits data := by
  constructor
  · rintro ⟨v, s', hrun, -⟩
    obtain ⟨d, hd, ⟨hneg, hdata, -⟩ | ⟨hblock, hdata, -⟩⟩ := Ddb.parse_eq_ok_iff.mp hrun
    · exact ⟨d, hd, .inl ⟨hneg, s', hdata.symm⟩⟩
    · exact ⟨d, hd, .inr ⟨hblock, s', hdata.symm⟩⟩
  · rintro ⟨d, hd, ⟨hneg, s', hdata⟩ | ⟨hblock, s', hdata⟩⟩
    · exact ⟨none, s', Ddb.parse_eq_ok_iff.mpr ⟨d, hd, .inl ⟨hneg, hdata.symm, rfl⟩⟩,
        fun hv => Bool.noConfusion hv⟩
    · refine ⟨_, s', Ddb.parse_eq_ok_iff.mpr ⟨d, hd, .inr ⟨hblock, hdata.symm, rfl⟩⟩,
        fun hv => ?_⟩
      rcases hlen with rfl | hlen
      · cases hdata
      · exact eq_nil_of_lengthCheck hlen (congrArg List.length hdata.symm) hv
          (List.cons_ne_nil _ _)

end DsmccMessage

/-- **When the messages are read inside the data part**: the section has the syntax indicator, and
the fields of the message lie in the data part. -/
theorem dsmcc_inside_iff (k : DsmccMessage) {z : List UInt8} (h : DsmccSection z) :
    k.ReadsInside z ↔
      (sectionHeader z).sectionSyntaxIndicator = 1 ∧ k.Fits (dataPart z) := by
  have hbounded : k.ReadsInside z ↔ k.Fits (dsmccBytes z) := by
    cases k with
    | dii => exact DsmccMessage.bounded_dii_iff (length_dsmccBytes h)
    | ddb => exact DsmccMessage.bounded_ddb_iff (length_dsmccBytes h)
  rw [hbounded, dsmccBytes_eq]
  split_ifs with hlong
  · exact ⟨fun hfits => ⟨hlong, hfits⟩, And.right⟩
  · exact iff_of_false k.not_fits_nil fun hfits => hlong hfits.1

/-- A DII section with one byte: the other fields of its header are read behind the data part. -/
theorem not_dsmcc_inside :
    DsmccSection [59, 240, 10, 0, 1, 195, 0, 0, 17, 240, 26, 178, 228] ∧
      ¬ DsmccMessage.dii.ReadsInside [59, 240, 10, 0, 1, 195, 0, 0, 17, 240, 26, 178, 228] := by
  refine ⟨⟨by decide, by decide⟩, ?_⟩
  rintro ⟨v, s', hrun, -⟩
  cases hrun

/-- A DDB section with a block of two bytes. -/
def ddbSection : List UInt8 :=
  [60, 240, 29, 0, 1, 195, 0, 0, 17, 3, 16, 3, 0, 0, 0, 1, 255, 0, 0, 8, 0, 1, 1, 255, 0, 0, 170,
    187, 21, 168, 122, 107]

theorem dsmcc_inside_ddbSection : DsmccMessage.ddb.ReadsInside ddbSection := by
  have hsection : DsmccSection ddbSection := ⟨by decide +kernel, by decide +kernel⟩
  refine (dsmcc_inside_iff .ddb hsection).mpr ⟨by decide, ?_⟩
  refine ⟨⟨⟨0x11, 3, 0x1003, 1, 0xff, 0, 8, []⟩, 1, 1, 0xff, 0, [0xaa, 0xbb]⟩, rfl, .inr ⟨rfl, ?_⟩⟩
  decide

end AutoRec
