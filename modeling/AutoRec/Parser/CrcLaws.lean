import AutoRec.Lib.CyclicCode
import AutoRec.Parser.Headers

/-!
# What the CRC of a section is good for

`ts_arib_common::crc32` computes by its table the check value of the CRC-32 with the polynomial
`0x04C11DB7`, and `section_info::check_crc32` (`parser/section_parser.cpp`) takes it over as many
bytes as the header says.

* `crc32Bits`: the CRC bit by bit; `crc32table_eq`: what the entries of the table are;
  **`crc32_eq_bits`**.
* `appendCrc`, `acceptsCrc`: a section with its CRC, and the check.
* **`crc32_detects`**: with its CRC a section is accepted, and it is not after a change of one byte
  that leaves its length.
* `not_crc32_detects`: a change of the length can have it accepted.
-/

namespace AutoRec

open CyclicCode Arena Sect

/-! ## The table -/

/-- The polynomial of the CRC-32, without the coefficient of `x ^ 32`. -/
def crcPolynomial : BitVec 32 := 0x04C11DB7

/-- The bits of the bytes. -/
def bitsOfBytes (buff : List UInt8) : List Bool := bitsOf (buff.map UInt8.toBitVec)

/-- The CRC-32, a bit at a time: from `0xFFFFFFFF` on, without reflections and without a final
exclusive or. -/
def crc32Bits (buff : List UInt8) : BitVec 32 := feed crcPolynomial 0xffffffff (bitsOfBytes buff)

theorem crc32table_eq (i : BitVec 8) : crc32table.get i.toFin = tableOf crcPolynomial i := by
  have hall : (crc32table.toList == List.ofFn fun n : Fin 256 =>
      tableOf crcPolynomial (BitVec.ofFin n : BitVec 8)) = true := by
    decide +kernel
  -- the entries of the table do not matter any more
  generalize crc32table = table at hall ⊢
  have hlt : i.toNat < table.toList.length := by simp [i.isLt]
  have hget : table.get i.toFin = table.toList[i.toNat] := by
    rw [Vector.getElem_toList]
    rfl
  simp only [hget, eq_of_beq hall, List.getElem_ofFn]
  rfl

theorem crc32Step_eq (crc : BitVec 32) (b : UInt8) :
    crc32Step crc b = tableStep (fun i : BitVec 8 => crc32table.get i.toFin) crc b.toBitVec := by
  have hindex : ((crc >>> 24) ^^^ b.toBitVec.setWidth 32).setWidth 8 =
      (crc >>> 24).setWidth 8 ^^^ b.toBitVec := by
    rw [BitVec.setWidth_xor, BitVec.setWidth_setWidth_of_le _ (by decide), BitVec.setWidth_eq]
  rw [crc32Step, hindex, tableStep]

/-- **The table computes the CRC bit by bit.** -/
theorem crc32_eq_bits (buff : List UInt8) : crc32 buff = crc32Bits buff := by
  rw [crc32Bits, bitsOfBytes, ← tableRun_eq (by decide) crc32table_eq, crc32, List.foldl_map]
  congr 1
  funext crc b
  exact crc32Step_eq crc b

/-- The check value of the digits from 1 to 9. -/
example : crc32 [49, 50, 51, 52, 53, 54, 55, 56, 57] = 0x0376E6E7 := by decide

/-! ## Sections -/

/-- The CRC, in the order of the network. -/
def crcBytes (crc : BitVec 32) : List UInt8 :=
  [.ofBitVec ((crc >>> 24).setWidth 8), .ofBitVec ((crc >>> 16).setWidth 8),
    .ofBitVec ((crc >>> 8).setWidth 8), .ofBitVec (crc.setWidth 8)]

/-- A section, with its CRC behind its body. -/
def appendCrc (body : List UInt8) : List UInt8 := body ++ crcBytes (crc32 body)

/-- The body of a section: the length in its header counts the CRC. -/
def IsSectionBody (body : List UInt8) : Prop := (first body).hdr.totalLen = body.length + 4

instance : DecidablePred IsSectionBody := fun body =>
  inferInstanceAs (Decidable ((first body).hdr.totalLen = body.length + 4))

/-- `check_crc32`, of the `section_info` for the bytes `z` in the memory. -/
def acceptsCrc (type : SectionType) (front z behind : List UInt8) : Bool :=
  (SectionInfo.mk' 0 (front ++ (z ++ behind)) front.length z.length type).checkCrc32
    (front ++ (z ++ behind))

section Laws

variable {type : SectionType} {front z behind body : List UInt8}

theorem bitsOfBytes_crcBytes (crc : BitVec 32) : bitsOfBytes (crcBytes crc) = topBits crc 32 := by
  simp [bitsOfBytes, bitsOf, crcBytes, topBits, List.range, List.range.loop]

theorem crc32_append (l l' : List UInt8) :
    crc32 (l ++ l') = feed crcPolynomial (crc32 l) (bitsOfBytes l') := by
  rw [crc32_eq_bits, crc32_eq_bits, crc32Bits, crc32Bits, ← feed_append]
  simp only [bitsOfBytes, bitsOf, List.map_append, List.flatMap_append]

theorem crc32_appendCrc (body : List UInt8) : crc32 (appendCrc body) = 0#32 := by
  rw [appendCrc, crc32_append, bitsOfBytes_crcBytes, feed_topBits]

theorem crc32_set_ne {l : List UInt8} {i : ℕ} (hi : i < l.length) {b : UInt8} (hb : b ≠ l[i]) :
    crc32 (l.set i b) ≠ crc32 l := by
  have hbits : b.toBitVec ≠ l[i].toBitVec := fun h => hb (UInt8.toBitVec_inj.mp h)
  have hne : feed crcPolynomial 0xffffffff _ ≠ feed crcPolynomial 0xffffffff _ :=
    feed_symbol_ne (by decide) rfl ((l.take i).map UInt8.toBitVec)
      ((l.drop (i + 1)).map UInt8.toBitVec) hbits
  rw [← List.map_cons, ← List.map_cons, ← List.map_append, ← List.map_append,
    ← List.set_eq_take_cons_drop _ hi, ← List.drop_eq_getElem_cons hi,
    List.take_append_drop] at hne
  rw [crc32_eq_bits, crc32_eq_bits]
  exact hne

/-- The check takes the CRC over as many bytes as the header says, from the first one on. -/
theorem acceptsCrc_iff : acceptsCrc type front z behind = true ↔
    crc32 ((z ++ behind).take (first z).hdr.totalLen) = 0#32 := by
  have hslice : ∀ n, slice (front ++ (z ++ behind)) front.length (front.length + n) =
      (z ++ behind).take n := by
    intro n
    rw [slice, List.take_length_add_append, List.drop_left]
  have hhdr : (SectionInfo.mk' 0 (front ++ (z ++ behind)) front.length z.length type).totalLen =
      (first z).hdr.totalLen := by
    rw [SectionInfo.totalLen, SectionInfo.mk', hslice, List.take_left]
    rfl
  rw [acceptsCrc, SectionInfo.checkCrc32, hhdr, beq_iff_eq]
  exact iff_of_eq (congrArg (fun l => crc32 l = 0#32) (hslice _))

theorem IsSectionBody.long (h : IsSectionBody body) : 3 ≤ body.length := by
  by_contra hshort
  unfold IsSectionBody at h
  rw [hdr_first_short (Nat.not_le.mp hshort)] at h
  have hzero : SectionHeader.zero.totalLen = 3 := rfl
  omega

theorem IsSectionBody.totalLen (h : IsSectionBody body) :
    (first (appendCrc body)).hdr.totalLen = (appendCrc body).length := by
  rw [appendCrc, totalLen_first_append h.long, h, List.length_append]
  rfl

theorem IsSectionBody.accepts (h : IsSectionBody body) :
    acceptsCrc type front (appendCrc body) behind = true := by
  rw [acceptsCrc_iff, h.totalLen, List.take_left, crc32_appendCrc]

theorem IsSectionBody.rejects (h : IsSectionBody body) {i : ℕ} (hi : i < (appendCrc body).length)
    {b : UInt8} (hb : b ≠ (appendCrc body)[i])
    (hlen : (first ((appendCrc body).set i b)).hdr.sectionLength =
      (first (appendCrc body)).hdr.sectionLength) :
    acceptsCrc type front ((appendCrc body).set i b) behind = false := by
  have htotal : (first ((appendCrc body).set i b)).hdr.totalLen =
      ((appendCrc body).set i b).length := by
    rw [List.length_set, ← h.totalLen, SectionHeader.totalLen, hlen, SectionHeader.totalLen]
  rw [← Bool.not_eq_true, acceptsCrc_iff, htotal, List.take_left]
  exact fun hzero => crc32_set_ne hi hb (hzero.trans (crc32_appendCrc body).symm)

end Laws

/-- **The CRC of a section.** The table computes it bit by bit; a section with its CRC is accepted,
and it is not after a change of one byte that leaves its `section_length`. -/
theorem crc32_detects (type : SectionType) (front behind : List UInt8) :
    (∀ buff, crc32 buff = crc32Bits buff) ∧
      ∀ body, IsSectionBody body →
        acceptsCrc type front (appendCrc body) behind = true ∧
          ∀ i (hi : i < (appendCrc body).length) (b : UInt8), b ≠ (appendCrc body)[i] →
            (first ((appendCrc body).set i b)).hdr.sectionLength =
              (first (appendCrc body)).hdr.sectionLength →
            acceptsCrc type front ((appendCrc body).set i b) behind = false :=
  ⟨crc32_eq_bits, fun _ h => ⟨h.accepts, fun _ hi _ hb hlen => h.rejects hi hb hlen⟩⟩

/-- A body with 8 bytes behind the header, its CRC counted. -/
def nestedBody : List UInt8 := [66, 48, 8] ++ crcBytes (crc32 [66, 48, 4])

/-- Another table id is found out. -/
theorem crc32_detects_nestedBody : IsSectionBody nestedBody ∧
    acceptsCrc .psisi [] (appendCrc nestedBody) [] = true ∧
      acceptsCrc .psisi [] ((appendCrc nestedBody).set 0 67) [] = false := by
  have hbody : IsSectionBody nestedBody := by decide
  obtain ⟨haccepts, hrejects⟩ := (crc32_detects .psisi [] []).2 nestedBody hbody
  exact ⟨hbody, haccepts, hrejects 0 (by decide) 67 (by decide) (by decide)⟩

/-- **A change of the length is not always found out**: the section is cut off behind four bytes
that are the CRC of those before. -/
theorem not_crc32_detects : ¬ ∀ (type : SectionType) (front behind body : List UInt8),
    IsSectionBody body → ∀ i (hi : i < (appendCrc body).length) (b : UInt8),
      b ≠ (appendCrc body)[i] →
        acceptsCrc type front ((appendCrc body).set i b) behind = false := by
  intro hall
  have hcut := hall .psisi [] [] nestedBody (by decide) 2 (by decide) 4
    (by decide)
  have haccepts : acceptsCrc .psisi [] ((appendCrc nestedBody).set 2 4) [] = true := by
    decide
  rw [haccepts] at hcut
  cases hcut

end AutoRec
