import AutoRec.Parser.CrcLaws
import AutoRec.Parser.Numbers
import AutoRec.Tssplitter.Services

/-!
# The PAT of the splitter

* `getCrc32_eq`: the CRC is the one of the sections.
* `patBody_eq`, `recreatePat_eq`: the PAT that is written, of programs without two of one PID.
* **`analyzePat_recreated`**: the parser of this program takes it, and reads the NIT and the programs
  of the service.
-/

namespace AutoRec

namespace Tssplitter

open CyclicCode

/-! ## The CRC -/

theorem crcBit_eq (b : UInt8) (crc : BitVec 32) {j : ℕ} (hj : j < 8) :
    crcBit (b.toBitVec.setWidth 32) crc j = shiftIn crcPolynomial crc (b.toBitVec.getMsbD j) := by
  have hbit : ((b.toBitVec.setWidth 32 : BitVec 32) >>> (7 - j)) &&& 1 =
      (BitVec.ofBool (b.toBitVec.getMsbD j)).setWidth 32 := by
    have hplace : 8 - 1 - j = 7 - j := rfl
    have hwide : 7 - j < 32 := by omega
    rw [BitVec.ofNat_eq_ofNat, BitVec.and_one_eq_setWidth_ofBool_getLsbD,
      BitVec.getLsbD_ushiftRight, BitVec.getLsbD_setWidth, BitVec.getMsbD_eq_getLsbD, hplace,
      Nat.add_zero, decide_eq_true hj, decide_eq_true hwide]
  have hmsb : (if crc &&& 0x80000000 ≠ 0 then 1 else 0 : BitVec 32) =
      (BitVec.ofBool crc.msb).setWidth 32 := by
    have htop : (0x80000000 : BitVec 32) = BitVec.twoPow 32 31 := rfl
    rw [htop, BitVec.and_twoPow, BitVec.msb_eq_getLsbD_last]
    cases crc.getLsbD 31 <;> rfl
  rw [crcBit, hbit, hmsb, shiftIn]
  cases crc.msb <;> cases b.toBitVec.getMsbD j <;> simp [feedback, crcPolynomial]

/-- **The CRC is the one of the sections.** -/
theorem getCrc32_eq (data : List UInt8) : getCrc32 data = crc32 data := by
  have hbyte : ∀ (b : UInt8) (crc : BitVec 32),
      (List.range 8).foldl (crcBit (b.toBitVec.setWidth 32)) crc =
        feed crcPolynomial crc (topBits b.toBitVec 8) := by
    intro b crc
    rw [topBits, feed, List.foldl_map]
    refine List.foldl_ext _ _ _ fun a j hj => ?_
    exact crcBit_eq b a (List.mem_range.mp hj)
  rw [crc32_eq_bits, crc32Bits, bitsOfBytes, bitsOf, getCrc32]
  generalize (0xffffffff : BitVec 32) = crc
  induction data generalizing crc with
  | nil => rfl
  | cons b l ih => rw [List.foldl_cons, hbyte, ih, List.map_cons, List.flatMap_cons, feed_append]

/-! ## The programs of a PAT -/

theorem exists_of_programAt {buf : List UInt8} {i : ℕ} {p : Program}
    (h : programAt buf i = some p) : ∃ b₀ b₁ b₂ b₃, (buf.drop i).take 4 = [b₀, b₁, b₂, b₃] ∧
      i + 4 ≤ buf.length ∧ p = ⟨i, (uimsbf16 b₀ b₁).toNat, (uimsbf13 b₂ b₃).toNat⟩ := by
  simp only [programAt, getPid, Option.bind_eq_bind, Option.bind_eq_some_iff, Option.pure_def,
    Option.some.injEq] at h
  obtain ⟨b₀, h₀, b₁, h₁, pid, ⟨b₂, h₂, b₃, h₃, rfl⟩, rfl⟩ := h
  obtain ⟨hi₃, h₃⟩ := List.getElem?_eq_some_iff.mp h₃
  obtain ⟨hi₂, h₂⟩ := List.getElem?_eq_some_iff.mp h₂
  obtain ⟨hi₁, h₁⟩ := List.getElem?_eq_some_iff.mp h₁
  obtain ⟨hi₀, h₀⟩ := List.getElem?_eq_some_iff.mp h₀
  refine ⟨b₀, b₁, b₂, b₃, ?_, hi₃, rfl⟩
  rw [List.drop_eq_getElem_cons hi₀, List.drop_eq_getElem_cons hi₁, List.drop_eq_getElem_cons hi₂,
    List.drop_eq_getElem_cons hi₃, h₀, h₁, h₂, h₃]
  rfl

theorem toNat_uimsbf13_lt (b₀ b₁ : UInt8) : (uimsbf13 b₀ b₁).toNat < maxPid := by
  have hand : (b₀ &&& 0x1f).toNat = b₀.toNat % 32 := Nat.and_two_pow_sub_one_eq_mod b₀.toNat 5
  have h₁ := b₁.toNat_lt
  rw [uimsbf13, toNat_shiftLeft_or, hand]
  show _ < 8192
  omega

/-- A program that is read lies in the section, and its PID is one. -/
structure Program.Fits (buf : List UInt8) (p : Program) : Prop where
  read : programAt buf p.pos = some p
  pos : 13 ≤ p.pos
  pid : p.pid < maxPid
  length : p.pos + 4 ≤ buf.length

theorem fits_of_mem {buf : List UInt8} {progs : List Program} (h : programs buf = some progs)
    {p : Program} (hp : p ∈ progs) : p.Fits buf := by
  simp only [programs, Option.bind_eq_bind, Option.bind_eq_some_iff,
    Option.ite_none_right_eq_some, Option.pure_def, Option.some.injEq] at h
  obtain ⟨size, -, -, rfl⟩ := h
  obtain ⟨i, hi, hread⟩ := List.mem_filterMap.mp (List.mem_filter.mp hp).1
  obtain ⟨b₀, b₁, b₂, b₃, -, hlength, rfl⟩ := exists_of_programAt hread
  obtain ⟨k, -, rfl⟩ := List.mem_map.mp hi
  exact ⟨hread, Nat.le_add_right 13 _, toNat_uimsbf13_lt b₂ b₃, hlength⟩

/-! ## The PAT that is written -/

/-- A program with its bytes. -/
def Program.bytes (buf : List UInt8) (p : Program) : List UInt8 := (buf.drop p.pos).take 4

theorem length_flatMap_bytes {buf : List UInt8} {l : List Program} (hl : ∀ p ∈ l, p.Fits buf) :
    (l.flatMap (Program.bytes buf)).length = 4 * l.length := by
  induction l with
  | nil => rfl
  | cons p l ih =>
    have hlen : (p.bytes buf).length = 4 := by
      have := (hl p List.mem_cons_self).length
      rw [Program.bytes, List.length_take, List.length_drop]
      omega
    rw [List.flatMap_cons, List.length_append, hlen, ih fun q hq => hl q (List.mem_cons_of_mem _ hq),
      List.length_cons]
    omega

/-- The programs by their PIDs. -/
def byPid (w : List Program) : List Program := w.mergeSort fun p q => decide (p.pid ≤ q.pid)

theorem byPid_perm (w : List Program) : (byPid w).Perm w := List.mergeSort_perm _ _

theorem pairwise_byPid {w : List Program} (hw : (w.map Program.pid).Nodup) :
    (byPid w).Pairwise fun p q => p.pid < q.pid := by
  have hle : (byPid w).Pairwise fun p q => decide (p.pid ≤ q.pid) = true :=
    List.pairwise_mergeSort (fun a b c hab hbc => by simp at hab hbc ⊢; omega)
      (fun a b => by simp; omega) w
  have hne : (byPid w).Pairwise fun p q => p.pid ≠ q.pid :=
    List.pairwise_map.mp (((byPid_perm w).map Program.pid).nodup_iff.mpr hw)
  refine (hle.and hne).imp fun h => ?_
  exact lt_of_le_of_ne (by simpa using h.1) h.2

theorem chosen_eq {w : List Program} {pos : ℕ → ℕ} (hw : (w.map Program.pid).Nodup)
    (hfits : ∀ p ∈ w, 13 ≤ p.pos ∧ p.pid < maxPid) (hpos : ∀ p ∈ w, pos p.pid = p.pos)
    (hnone : ∀ pid, pid ∉ w.map Program.pid → pos pid = 0) :
    ((List.range maxPid).filter fun i => pos i ≠ 0) = (byPid w).map Program.pid := by
  have hmem : ∀ i, i ∈ (List.range maxPid).filter (fun i => pos i ≠ 0) ↔
      i ∈ (byPid w).map Program.pid := by
    intro i
    rw [((byPid_perm w).map Program.pid).mem_iff, List.mem_filter, List.mem_range]
    constructor
    · rintro ⟨-, hi⟩
      by_contra hnot
      simp [hnone i hnot] at hi
    · intro hi
      obtain ⟨p, hp, rfl⟩ := List.mem_map.mp hi
      obtain ⟨h13, hlt⟩ := hfits p hp
      refine ⟨hlt, ?_⟩
      simp only [hpos p hp, ne_eq, decide_eq_true_eq]
      omega
  have hsorted : ((List.range maxPid).filter fun i => pos i ≠ 0).Pairwise (· < ·) :=
    List.pairwise_lt_range.filter _
  have hsorted' : ((byPid w).map Program.pid).Pairwise (· < ·) :=
    List.pairwise_map.mpr (pairwise_byPid hw)
  refine List.Perm.eq_of_pairwise (fun a b _ _ hab hba => absurd hab (Nat.lt_asymm hba)) hsorted
    hsorted' ?_
  exact (List.perm_ext_iff_of_nodup (hsorted.imp Nat.ne_of_lt) (hsorted'.imp Nat.ne_of_lt)).mpr hmem

/-- The section of the PAT that is written, without its CRC: the header is that of the section which
begins with `b₀`, up to the length. -/
def patSection (b₀ b₁ b₃ b₄ b₅ b₆ b₇ : UInt8) (buf : List UInt8) (l : List Program) : List UInt8 :=
  [b₀, b₁, UInt8.ofNat (l.length * 4 + 0x0d), b₃, b₄, b₅, b₆, b₇, 0x00, 0x00, 0xe0, 0x10] ++
    l.flatMap (Program.bytes buf)

section Recreated

variable {front rest : List UInt8} {b₀ b₁ b₂ b₃ b₄ b₅ b₆ b₇ : UInt8} {pos : ℕ → ℕ}
  {w : List Program}

theorem length_patSection {buf : List UInt8} {l : List Program} (hl : ∀ p ∈ l, p.Fits buf) :
    (patSection b₀ b₁ b₃ b₄ b₅ b₆ b₇ buf l).length = 12 + 4 * l.length := by
  rw [patSection, List.length_append, length_flatMap_bytes hl]
  rfl

/-- **The PAT that is written**: a section with its CRC, and stuffing. -/
theorem recreatePat_eq (hfront : front.length = 5) (hw : (w.map Program.pid).Nodup)
    (hfits : ∀ p ∈ w, p.Fits (front ++ b₀ :: b₁ :: b₂ :: b₃ :: b₄ :: b₅ :: b₆ :: b₇ :: rest))
    (hpos : ∀ p ∈ w, pos p.pid = p.pos) (hnone : ∀ pid, pid ∉ w.map Program.pid → pos pid = 0)
    (hlen : w.length ≤ 41) :
    recreatePat (front ++ b₀ :: b₁ :: b₂ :: b₃ :: b₄ :: b₅ :: b₆ :: b₇ :: rest) pos =
      some (front ++ (appendCrc (patSection b₀ b₁ b₃ b₄ b₅ b₆ b₇
        (front ++ b₀ :: b₁ :: b₂ :: b₃ :: b₄ :: b₅ :: b₆ :: b₇ :: rest) (byPid w)) ++
        List.replicate (lengthPacket - (21 + 4 * w.length)) 0xff)) := by
  set buf := front ++ b₀ :: b₁ :: b₂ :: b₃ :: b₄ :: b₅ :: b₆ :: b₇ :: rest with hbuf
  have hl : ∀ p ∈ byPid w, p.Fits buf := fun p hp => hfits p ((byPid_perm w).mem_iff.mp hp)
  have hlength : (byPid w).length = w.length := (byPid_perm w).length_eq
  have hchosen := chosen_eq hw (fun p hp => ⟨(hfits p hp).pos, (hfits p hp).pid⟩) hpos hnone
  have hplaces : ∀ p ∈ byPid w, pos p.pid = p.pos :=
    fun p hp => hpos p ((byPid_perm w).mem_iff.mp hp)
  have hentries : ((byPid w).map Program.pid).flatMap (fun i => (buf.drop (pos i)).take 4) =
      (byPid w).flatMap (Program.bytes buf) := by
    rw [List.flatMap_map]
    exact List.flatMap_congr fun p hp => by rw [hplaces p hp, Program.bytes]
  have hall : (((byPid w).map Program.pid).all fun i => decide (pos i + 4 ≤ buf.length)) = true := by
    rw [List.all_map, List.all_eq_true]
    intro p hp
    simp only [Function.comp_apply, decide_eq_true_eq, hplaces p hp]
    exact (hl p hp).length
  have hheader : (buf.drop 5).take 8 = [b₀, b₁, b₂, b₃, b₄, b₅, b₆, b₇] := by
    rw [hbuf, ← hfront, List.drop_left]
    rfl
  have htake : buf.take 5 = front := by rw [hbuf, ← hfront, List.take_left]
  have hbody : patBody buf pos = some (patSection b₀ b₁ b₃ b₄ b₅ b₆ b₇ buf (byPid w)) := by
    unfold patBody
    simp only [hchosen, hall, if_true, hheader, hentries]
    rw [if_neg, List.length_map]
    · rfl
    · simp only [List.length_append, List.length_cons, List.length_nil, length_flatMap_bytes hl,
        hlength, lengthCrcData]
      omega
  have hlong : ¬ buf.length < 13 := by
    rw [hbuf, List.length_append, hfront]
    simp only [List.length_cons]
    omega
  simp only [recreatePat, if_neg hlong, hbody, Option.bind_eq_bind, Option.bind_some, getCrc32_eq,
    htake, Option.pure_def]
  have hcount : (front ++ patSection b₀ b₁ b₃ b₄ b₅ b₆ b₇ buf (byPid w) ++
      crcBytes (crc32 (patSection b₀ b₁ b₃ b₄ b₅ b₆ b₇ buf (byPid w)))).length = 21 + 4 * w.length := by
    rw [List.length_append, List.length_append, length_patSection hl, hfront, hlength]
    show 5 + (12 + 4 * w.length) + 4 = _
    omega
  rw [← crcBytes, hcount, appendCrc, List.append_assoc, List.append_assoc, List.append_assoc]

/-- **What `AnalyzePat` leaves**, when a service is asked for by its number. -/
theorem analyzePat_eq {sp : Splitter} {serviceId : ℕ} {progs : List Program} (hnone : sp.pat = none)
    (hsid : sp.sidList = analyzeSid (toString serviceId).toList) (hfront : front.length = 5)
    (hprogs : programs (front ++ b₀ :: b₁ :: b₂ :: b₃ :: b₄ :: b₅ :: b₆ :: b₇ :: rest) = some progs)
    (hpids : (progs.map Program.pid).Nodup) (hmany : progs.length ≤ maxServices)
    (hlen : (wanted serviceId progs).length ≤ 41) :
    analyzePat sp (front ++ b₀ :: b₁ :: b₂ :: b₃ :: b₄ :: b₅ :: b₆ :: b₇ :: rest) = some {
      sp with
      pids := fun i => if i ∈ (wanted serviceId progs).map Program.pid then 1 else sp.pids i
      pmtPids := fun i => if i ∈ (wanted serviceId progs).map Program.pid then 1 else sp.pmtPids i
      pat := some (front ++ (appendCrc (patSection b₀ b₁ b₃ b₄ b₅ b₆ b₇
        (front ++ b₀ :: b₁ :: b₂ :: b₃ :: b₄ :: b₅ :: b₆ :: b₇ :: rest)
        (byPid (wanted serviceId progs))) ++
        List.replicate (lengthPacket - (21 + 4 * (wanted serviceId progs).length)) 0xff))
      pmtRetain := (wanted serviceId progs).length
      pmtVersion := (wanted serviceId progs).map fun p => ⟨p.pid, none⟩ } := by
  set buf := front ++ b₀ :: b₁ :: b₂ :: b₃ :: b₄ :: b₅ :: b₆ :: b₇ :: rest with hbuf
  set w := wanted serviceId progs with hw
  have hwpids : (w.map Program.pid).Nodup := (wanted_sublist.map Program.pid).nodup hpids
  have hrun : Scan.run ⟨sp.pids, sp.pmtPids, fun _ => 0, false, [], sp.aribPids⟩ sp.sidList progs =
      w.foldl Scan.choose ⟨sp.pids, sp.pmtPids, fun _ => 0, false, [], sp.aribPids⟩ := by
    rw [hsid, analyzeSid_toString, run_toString rfl]
  obtain ⟨hpos, hzero⟩ := pos_foldl_choose hwpids
    ⟨sp.pids, sp.pmtPids, fun _ => 0, false, [], sp.aribPids⟩
  have hfits : ∀ p ∈ w, p.Fits buf := fun p hp => fits_of_mem hprogs (wanted_sublist.subset hp)
  have hpat := recreatePat_eq hfront hwpids hfits hpos hzero hlen
  have hfew : ¬ (maxServices < progs.length ∨ maxServices < w.length) := by
    show ¬ (50 < progs.length ∨ 50 < w.length)
    have hmany : progs.length ≤ 50 := hmany
    omega
  rw [← hbuf] at hpat
  simp only [analyzePat, hnone, hprogs, Option.bind_eq_bind, Option.bind_some, hrun,
    versions_foldl_choose, List.nil_append, List.length_map, if_neg hfew, hpat, Option.pure_def,
    aribPids_foldl_choose, Option.some.injEq, Splitter.mk.injEq, and_true]
  exact ⟨funext fun _ => foldl_choose_apply Scan.pids (fun _ _ => rfl) w _,
    funext fun _ => foldl_choose_apply Scan.pmtPids (fun _ _ => rfl) w _⟩

/-- The program as the parser has it. -/
def Program.toPat (p : Program) : PatProgram := ⟨UInt16.ofNat p.serviceId, UInt16.ofNat p.pid⟩

theorem parsePrograms_cons (k : ℕ) (n : ℤ) (c₀ c₁ c₂ c₃ : UInt8) (rest : List UInt8) :
    parsePrograms (k + 1) n (c₀ :: c₁ :: c₂ :: c₃ :: rest) =
      if n ≤ 0 then .ok []
      else if n - 4 < 0 then .error .invalid
      else
        match parsePrograms k (n - 4) rest with
        | .error e => .error e
        | .ok programs => .ok (⟨uimsbf16 c₀ c₁, uimsbf13 c₂ c₃⟩ :: programs) := rfl

theorem parsePrograms_bytes {buf : List UInt8} {l : List Program} (hl : ∀ p ∈ l, p.Fits buf)
    {fuel : ℕ} (hfuel : l.length < fuel) (rest : List UInt8) :
    parsePrograms fuel (4 * l.length : ℕ) (l.flatMap (Program.bytes buf) ++ rest) =
      .ok (l.map Program.toPat) := by
  induction l generalizing fuel with
  | nil =>
    obtain ⟨k, rfl⟩ := Nat.exists_eq_succ_of_ne_zero (Nat.ne_of_gt hfuel)
    rfl
  | cons p l ih =>
    obtain ⟨k, rfl⟩ := Nat.exists_eq_succ_of_ne_zero (Nat.ne_of_gt (Nat.zero_lt_of_lt hfuel))
    obtain ⟨c₀, c₁, c₂, c₃, hbytes, -, hp⟩ := exists_of_programAt (hl p List.mem_cons_self).read
    have hpat : p.toPat = ⟨uimsbf16 c₀ c₁, uimsbf13 c₂ c₃⟩ := by
      rw [hp, Program.toPat, UInt16.ofNat_toNat, UInt16.ofNat_toNat]
    have hn : ((4 * (p :: l).length : ℕ) : ℤ) - 4 = (4 * l.length : ℕ) := by
      rw [List.length_cons]
      omega
    have hpos : ¬ ((4 * (p :: l).length : ℕ) : ℤ) ≤ 0 := by
      rw [List.length_cons]
      omega
    have hneg : ¬ ((4 * l.length : ℕ) : ℤ) < 0 := by omega
    have hk : l.length < k := by
      rw [List.length_cons] at hfuel
      omega
    have ih := ih (fun q hq => hl q (List.mem_cons_of_mem _ hq)) hk
    have hlist : (p :: l).flatMap (Program.bytes buf) ++ rest =
        c₀ :: c₁ :: c₂ :: c₃ :: (l.flatMap (Program.bytes buf) ++ rest) := by
      rw [List.flatMap_cons, Program.bytes, hbytes]
      rfl
    rw [hlist, parsePrograms_cons, if_neg hpos, hn, if_neg hneg, ih, List.map_cons, hpat]

variable (b₀) in
theorem syntaxIndicator_ne_zero (hlong : b₁ &&& 0x8f = 0x80) (x : UInt8) :
    (SectionHeader.zero.readShort b₀ b₁ x).sectionSyntaxIndicator ≠ 0 := by
  revert hlong
  show b₁ &&& 0x8f = 0x80 → (b₁ >>> 7) &&& 0x01 ≠ 0
  exact forall_uint8 (P := fun b => b &&& 0x8f = 0x80 → (b >>> 7) &&& 0x01 ≠ 0)
    (by decide +kernel) b₁

theorem hdr_first_long (hlong : b₁ &&& 0x8f = 0x80) (x : UInt8) :
    (Sect.first (b₀ :: b₁ :: x :: b₃ :: b₄ :: b₅ :: b₆ :: b₇ :: rest)).hdr =
      (SectionHeader.zero.readShort b₀ b₁ x).readLong b₃ b₄ b₅ b₆ b₇ := by
  have hsyntax : (SectionHeader.zero.readShort b₀ b₁ x).sectionSyntaxIndicator ≠ 0 :=
    syntaxIndicator_ne_zero b₀ hlong x
  show (parseHeader .zero (b₀ :: b₁ :: x :: b₃ :: b₄ :: b₅ :: b₆ :: b₇ :: rest) .psisi).1 = _
  simp only [parseHeader, hsyntax, and_false, if_false]

variable (b₀) in
theorem toNat_sectionLength_readShort (hlong : b₁ &&& 0x8f = 0x80) (x : UInt8) :
    (SectionHeader.zero.readShort b₀ b₁ x).sectionLength.toNat = x.toNat := by
  have hnibble : b₁.toNat % 16 = 0 := by
    revert hlong
    exact forall_uint8 (P := fun b => b &&& 0x8f = 0x80 → b.toNat % 16 = 0) (by decide +kernel) b₁
  have hmask : (0x0fff : UInt16).toNat = 2 ^ 12 - 1 := rfl
  have hx := x.toNat_lt
  show (((b₁.toUInt16 <<< 8) ||| x.toUInt16) &&& 0x0fff).toNat = _
  rw [UInt16.toNat_and, toNat_shiftLeft_or, hmask, Nat.and_two_pow_sub_one_eq_mod]
  omega

theorem isSectionBody_patSection (hlong : b₁ &&& 0x8f = 0x80) {buf : List UInt8} {l : List Program}
    (hl : ∀ p ∈ l, p.Fits buf) (hlen : l.length ≤ 41) :
    IsSectionBody (patSection b₀ b₁ b₃ b₄ b₅ b₆ b₇ buf l) := by
  have hx : (UInt8.ofNat (l.length * 4 + 0x0d)).toNat = l.length * 4 + 0x0d := by
    rw [UInt8.toNat_ofNat']
    omega
  have htotal : (Sect.first (patSection b₀ b₁ b₃ b₄ b₅ b₆ b₇ buf l)).hdr.totalLen =
      (SectionHeader.zero.readShort b₀ b₁ (UInt8.ofNat (l.length * 4 + 0x0d))).totalLen :=
    totalLen_parseHeader b₀ b₁ _ _
  rw [IsSectionBody, htotal, SectionHeader.totalLen, toNat_sectionLength_readShort b₀ hlong, hx,
    length_patSection hl]
  show l.length * 4 + 13 + 3 = 12 + 4 * l.length + 4
  omega

theorem parse_patSection (hlong : b₁ &&& 0x8f = 0x80) {buf : List UInt8} {l : List Program}
    (hl : ∀ p ∈ l, p.Fits buf) (hlen : l.length ≤ 41) :
    ProgramAssociationTable.parse
      (Sect.first (appendCrc (patSection b₀ b₁ b₃ b₄ b₅ b₆ b₇ buf l))).hdr
      ((appendCrc (patSection b₀ b₁ b₃ b₄ b₅ b₆ b₇ buf l)).drop 8) =
        .ok ⟨(SectionHeader.zero.readShort b₀ b₁
          (UInt8.ofNat (l.length * 4 + 0x0d))).readLong b₃ b₄ b₅ b₆ b₇,
          ⟨0, 0x10⟩ :: l.map Program.toPat⟩ := by
  set crc := crcBytes (crc32 (patSection b₀ b₁ b₃ b₄ b₅ b₆ b₇ buf l)) with hcrc
  set h := (SectionHeader.zero.readShort b₀ b₁ (UInt8.ofNat (l.length * 4 + 0x0d))).readLong
    b₃ b₄ b₅ b₆ b₇ with hh
  have hx : (UInt8.ofNat (l.length * 4 + 0x0d)).toNat = l.length * 4 + 0x0d := by
    rw [UInt8.toNat_ofNat']
    omega
  have hsect : appendCrc (patSection b₀ b₁ b₃ b₄ b₅ b₆ b₇ buf l) =
      b₀ :: b₁ :: UInt8.ofNat (l.length * 4 + 0x0d) :: b₃ :: b₄ :: b₅ :: b₆ :: b₇ ::
        0x00 :: 0x00 :: 0xe0 :: 0x10 :: (l.flatMap (Program.bytes buf) ++ crc) := rfl
  have hhdr : (Sect.first (appendCrc (patSection b₀ b₁ b₃ b₄ b₅ b₆ b₇ buf l))).hdr = h := by
    rw [hsect, hdr_first_long hlong]
  have hn : h.dataPartLen.toNat = 4 * (l.length + 1) := by
    have hsyntax : h.sectionSyntaxIndicator ≠ 0 :=
      syntaxIndicator_ne_zero b₀ hlong (UInt8.ofNat (l.length * 4 + 0x0d))
    have hlength : h.sectionLength.toNat = l.length * 4 + 0x0d :=
      (toNat_sectionLength_readShort b₀ hlong _).trans hx
    have h5 : (5 : UInt16).toNat = 5 := rfl
    have h4 : (4 : UInt16).toNat = 4 := rfl
    rw [SectionHeader.dataPartLen, if_neg hsyntax, UInt16.toNat_sub_of_le, UInt16.toNat_sub_of_le,
      hlength, h5, h4]
    · omega
    · rw [UInt16.le_iff_toNat_le, hlength, h5]
      omega
    · rw [UInt16.le_iff_toNat_le, UInt16.toNat_sub_of_le, hlength, h5, h4]
      · omega
      · rw [UInt16.le_iff_toNat_le, hlength, h5]
        omega
  have hfew : ¬ 4 * (l.length + 1) < 4 := by omega
  have hwhole : ¬ 4 * (l.length + 1) % 4 ≠ 0 := by omega
  have hpos : ¬ ((4 * (l.length + 1) : ℕ) : ℤ) ≤ 0 := by omega
  have hrest : ((4 * (l.length + 1) : ℕ) : ℤ) - 4 = (4 * l.length : ℕ) := by omega
  have hneg : ¬ ((4 * l.length : ℕ) : ℤ) < 0 := by omega
  have hfuel : l.length < (0x00 :: 0x00 :: 0xe0 :: 0x10 ::
      (l.flatMap (Program.bytes buf) ++ crc)).length := by
    simp only [List.length_cons, List.length_append, length_flatMap_bytes hl]
    omega
  rw [hhdr, hsect, ProgramAssociationTable.parse]
  simp only [hn, if_neg hfew, if_neg hwhole, List.drop_succ_cons, List.drop_zero]
  rw [parsePrograms_cons, if_neg hpos, hrest, if_neg hneg, parsePrograms_bytes hl hfuel]
  rfl

/-- **The parser of this program takes the PAT of the splitter.** It accepts its CRC, and reads the NIT
and the programs of the service that was asked for, or all if there is no such service, with their
PIDs, by these. -/
theorem analyzePat_recreated {sp : Splitter} {serviceId : UInt16} {progs : List Program}
    (hnone : sp.pat = none) (hsid : sp.sidList = analyzeSid (toString serviceId.toNat).toList)
    (hfront : front.length = 5) (hlong : b₁ &&& 0x8f = 0x80)
    (hprogs : programs (front ++ b₀ :: b₁ :: b₂ :: b₃ :: b₄ :: b₅ :: b₆ :: b₇ :: rest) = some progs)
    (hpids : (progs.map Program.pid).Nodup) (hmany : progs.length ≤ maxServices)
    (hlen : (wanted serviceId.toNat progs).length ≤ 41) :
    ∃ sp' sect stuffing t,
      analyzePat sp (front ++ b₀ :: b₁ :: b₂ :: b₃ :: b₄ :: b₅ :: b₆ :: b₇ :: rest) = some sp' ∧
      sp'.pat = some (front ++ (sect ++ stuffing)) ∧
      (front ++ (sect ++ stuffing)).length = lengthPacket ∧ (∀ b ∈ stuffing, b = 0xff) ∧
      acceptsCrc .psisi front sect stuffing = true ∧
      ProgramAssociationTable.parse (Sect.first sect).hdr (sect.drop 8) = .ok t ∧
      t.header = (SectionHeader.zero.readShort b₀ b₁
        (UInt8.ofNat ((wanted serviceId.toNat progs).length * 4 + 0x0d))).readLong b₃ b₄ b₅ b₆ b₇ ∧
      t.programs = ⟨0, 0x10⟩ :: (byPid (wanted serviceId.toNat progs)).map Program.toPat := by
  have heq := analyzePat_eq hnone hsid hfront hprogs hpids hmany hlen
  set buf := front ++ b₀ :: b₁ :: b₂ :: b₃ :: b₄ :: b₅ :: b₆ :: b₇ :: rest with hbuf
  set w := wanted serviceId.toNat progs with hw
  have hl : ∀ p ∈ byPid w, p.Fits buf := fun p hp =>
    fits_of_mem hprogs (wanted_sublist.subset ((byPid_perm w).mem_iff.mp hp))
  have hlength : (byPid w).length = w.length := (byPid_perm w).length_eq
  have hbody : (patSection b₀ b₁ b₃ b₄ b₅ b₆ b₇ buf (byPid w)).length = 12 + 4 * w.length := by
    rw [length_patSection hl, hlength]
  refine ⟨_, appendCrc (patSection b₀ b₁ b₃ b₄ b₅ b₆ b₇ buf (byPid w)), _, _, heq, rfl, ?_,
    fun b hb => List.eq_of_mem_replicate hb, ?_, parse_patSection hlong hl (by omega), ?_, rfl⟩
  · rw [List.length_append, List.length_append, appendCrc, List.length_append, hbody, hfront,
      List.length_replicate]
    show 5 + (12 + 4 * w.length + 4 + (188 - (21 + 4 * w.length))) = 188
    omega
  · exact (isSectionBody_patSection hlong hl (by omega)).accepts
  · rw [hlength]

end Recreated

/-- The programs of a PAT, and its CRC. -/
def twoPrograms : List UInt8 := [
  0x00, 0x00, 0xe0, 0x10, 0x04, 0x00, 0xe1, 0xf0, 0x04, 0x01, 0xe1, 0xf1, 0x00, 0x00, 0x00, 0x00]

theorem analyzePat_recreated_two : ∃ sp' sect stuffing t,
    analyzePat (splitStartup (toString (1024 : UInt16).toNat).toList [])
      ([0x47, 0x40, 0x00, 0x10, 0x00] ++
        0x00 :: 0xb0 :: 0x15 :: 0x7f :: 0xe0 :: 0xc1 :: 0x00 :: 0x00 :: twoPrograms) = some sp' ∧
      sp'.pat = some ([0x47, 0x40, 0x00, 0x10, 0x00] ++ (sect ++ stuffing)) ∧
      ([0x47, 0x40, 0x00, 0x10, 0x00] ++ (sect ++ stuffing)).length = lengthPacket ∧
      (∀ b ∈ stuffing, b = 0xff) ∧
      acceptsCrc .psisi [0x47, 0x40, 0x00, 0x10, 0x00] sect stuffing = true ∧
      ProgramAssociationTable.parse (Sect.first sect).hdr (sect.drop 8) = .ok t ∧
      t.header = (SectionHeader.zero.readShort 0x00 0xb0 (UInt8.ofNat
        ((wanted (1024 : UInt16).toNat [⟨17, 1024, 0x1f0⟩, ⟨21, 1025, 0x1f1⟩]).length * 4 + 0x0d))).readLong
          0x7f 0xe0 0xc1 0x00 0x00 ∧
      t.programs = ⟨0, 0x10⟩ :: (byPid (wanted (1024 : UInt16).toNat
        [⟨17, 1024, 0x1f0⟩, ⟨21, 1025, 0x1f1⟩])).map Program.toPat :=
  analyzePat_recreated rfl rfl rfl (by decide) (by decide) (by decide) (by decide) (by decide)

end Tssplitter

end AutoRec
