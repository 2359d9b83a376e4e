import AutoRec.Parser.EitGrammar
import AutoRec.Tssplitter.Splitter

/-!
# The PMT of the splitter

`AnalyzePmt` goes through a PMT by itself, without `program_map_table` (`parser/psisi`).

* `ProgramMapTable.splitPids`: the PIDs of a service, by the table.
* `IsPmtPacket`: a packet with a whole PMT, of which the descriptors fill their loops.
* `ecmLoop_eq`, `esLoop_eq`; **`analyzePmt_eq`**: the splitter finds the PIDs of the table.
-/

namespace AutoRec

namespace Tssplitter

/-! ## The PIDs of a service -/

/-- The PID of the ECM, in a descriptor for conditional access. -/
def ecmPid (d : Descriptor) : Option ℕ :=
  if d.tag = 0x09 ∧ 4 ≤ d.length.toNat then getPid d.data 2 else none

/-- The PID of a stream, if it is not one for data. -/
def esPid (s : PmtStream) : Option ℕ :=
  if s.streamType = 0x0d then none else some s.elementaryPID.toNat

/-- The PIDs of a service: of the PCR, of the ECM, and of the streams. -/
def splitPids (t : ProgramMapTable) : List ℕ :=
  t.pcrPID.toNat :: (t.descriptors.filterMap ecmPid ++ t.streams.filterMap esPid)

/-- The descriptors of a table are as long as their loops. -/
structure Filled (t : ProgramMapTable) : Prop where
  descriptors : (descriptorsBytes t.descriptors).length = t.programInfoLength.toNat
  streams : ∀ s ∈ t.streams, (descriptorsBytes s.descriptors).length = s.esInfoLength.toNat

/-- A packet that has a whole PMT, of a long header, from its first byte on. -/
structure IsPmtPacket (pid : ℕ) (q : List UInt8) (t : ProgramMapTable) : Prop where
  length : q.length = lengthPacket
  pid : getPid q 1 = some pid
  start : ∃ b, q[1]? = some b ∧ b &&& 0x40 ≠ 0
  pointer : q[4]? = some 0
  long : (Sect.first (q.drop 5)).hdr.sectionSyntaxIndicator ≠ 0
  parse : ProgramMapTable.parse (Sect.first (q.drop 5)).hdr (q.drop 13) = .ok t
  whole : (Sect.first (q.drop 5)).hdr.totalLen + 5 ≤ lengthPacket
  filled : Filled t

/-! ## Marks -/

/-- The PIDs of a list are marked. -/
def markAll (mark : UInt8) (l : List ℕ) (pids : ℕ → UInt8) : ℕ → UInt8 :=
  fun i => if i ∈ l then mark else pids i

section Loops

variable {buf p rest more : List UInt8} {mark : UInt8} {pids : ℕ → UInt8} {i n pid : ℕ}
  {l l' : List ℕ}

theorem markAll_nil : markAll mark [] pids = pids := funext fun _ => if_neg List.not_mem_nil

theorem markAll_cons : markAll mark (pid :: l) pids = markAll mark l (Function.update pids pid mark) := by
  funext i
  rw [markAll, markAll, Function.update_apply]
  by_cases hl : i ∈ l <;> by_cases hi : i = pid <;> simp [hl, hi]

theorem markAll_append : markAll mark (l ++ l') pids = markAll mark l' (markAll mark l pids) := by
  funext i
  simp only [markAll, List.mem_append]
  by_cases hl : i ∈ l <;> by_cases hl' : i ∈ l' <;> simp [hl, hl']

theorem getElem?_of_drop {d : List UInt8} (h : buf.drop i = d) (k : ℕ) : buf[i + k]? = d[k]? := by
  rw [← h, List.getElem?_drop]

theorem getPid_of_drop {d : List UInt8} (h : buf.drop i = d) (k : ℕ) :
    getPid buf (i + k) = getPid d k := by
  rw [getPid, getPid, Nat.add_assoc, getElem?_of_drop h, getElem?_of_drop h]

/-! ## The loops -/

/-- **The loop over the descriptors.** -/
theorem ecmLoop_eq {descs : List Descriptor} (hwf : ∀ d ∈ descs, d.WellFormed)
    (hbuf : buf.drop i = descriptorsBytes descs ++ rest)
    {fuel : ℕ} (hfuel : (descriptorsBytes descs).length < fuel) :
    ecmLoop buf mark (i + (descriptorsBytes descs).length) fuel i pids =
      some (markAll mark (descs.filterMap ecmPid) pids) := by
  induction descs generalizing i fuel pids with
  | nil =>
    obtain ⟨k, rfl⟩ := Nat.exists_eq_succ_of_ne_zero (Nat.ne_of_gt (Nat.zero_lt_of_lt hfuel))
    have hdone : ¬ i < i + (descriptorsBytes []).length := Nat.lt_irrefl i
    rw [ecmLoop, if_neg hdone, List.filterMap_nil, markAll_nil]
  | cons d descs ih =>
    obtain ⟨k, rfl⟩ := Nat.exists_eq_succ_of_ne_zero (Nat.ne_of_gt (Nat.zero_lt_of_lt hfuel))
    obtain ⟨hd, hwf⟩ := List.forall_mem_cons.mp hwf
    have hlen : (descriptorsBytes (d :: descs)).length =
        2 + d.length.toNat + (descriptorsBytes descs).length := by
      rw [descriptorsBytes_cons, List.length_append, hd.length_bytes]
    rw [descriptorsBytes_cons, List.append_assoc] at hbuf
    have htag : buf[i]? = some d.tag := getElem?_of_drop hbuf 0
    have hlength : buf[i + 1]? = some d.length := getElem?_of_drop hbuf 1
    have hnext : buf.drop (i + 2 + d.length.toNat) = descriptorsBytes descs ++ rest := by
      have hsize : 2 + d.length.toNat = d.bytes.length := hd.length_bytes.symm
      rw [Nat.add_assoc, hsize, ← List.drop_drop, hbuf, List.drop_left]
    have hlast : i + (descriptorsBytes (d :: descs)).length =
        i + 2 + d.length.toNat + (descriptorsBytes descs).length := by omega
    have hlt : i < i + (descriptorsBytes (d :: descs)).length := by omega
    have hk : (descriptorsBytes descs).length < k := by omega
    have ih : ∀ pids, ecmLoop buf mark (i + 2 + d.length.toNat + (descriptorsBytes descs).length) k
        (i + 2 + d.length.toNat) pids = some (markAll mark (descs.filterMap ecmPid) pids) :=
      fun pids => ih hwf hnext hk
    rw [ecmLoop, if_pos hlt, hlast]
    simp only [htag, hlength, Option.bind_eq_bind, Option.bind_some]
    by_cases hca : d.tag = 0x09 ∧ 4 ≤ d.length.toNat
    · obtain ⟨c₀, c₁, hpid⟩ : ∃ c₀ c₁, getPid d.data 2 = some (uimsbf13 c₀ c₁).toNat := by
        have hdata := hd.data_length
        exact ⟨d.data[2], d.data[3], by
          rw [getPid, List.getElem?_eq_getElem (by omega), List.getElem?_eq_getElem (by omega)]
          rfl⟩
      have hread : getPid buf (i + 4) = getPid d.data 2 := by
        have hdata := hd.data_length
        have htail : buf.drop (i + 2) = d.data ++ (descriptorsBytes descs ++ rest) := by
          rw [← List.drop_drop, hbuf]
          rfl
        rw [show i + 4 = i + 2 + 2 from rfl, getPid_of_drop htail, getPid, getPid,
          List.getElem?_append_left (by omega), List.getElem?_append_left (by omega)]
      have hin : d.tag = 0x09 ∧ 4 ≤ d.length.toNat ∧
          i + 2 + d.length.toNat ≤ i + 2 + d.length.toNat + (descriptorsBytes descs).length :=
        ⟨hca.1, hca.2, Nat.le_add_right _ _⟩
      rw [if_pos hin, hread, hpid, Option.bind_some, ih,
        List.filterMap_cons_some (b := (uimsbf13 c₀ c₁).toNat) (by rw [ecmPid, if_pos hca, hpid]),
        markAll_cons]
    · have hout : ¬ (d.tag = 0x09 ∧ 4 ≤ d.length.toNat ∧
          i + 2 + d.length.toNat ≤ i + 2 + d.length.toNat + (descriptorsBytes descs).length) :=
        fun h => hca ⟨h.1, h.2.1⟩
      rw [if_neg hout, ih, List.filterMap_cons_none (by rw [ecmPid, if_neg hca])]

/-- **The loop over the streams**, with `n` bytes to go. -/
theorem esLoop_eq {streams : List PmtStream} {n : ℤ} {fuel : ℕ} (hn : 0 ≤ n)
    (h : parseParts 5 PmtStream.head fuel n p = .ok streams)
    (hfilled : ∀ s ∈ streams, (descriptorsBytes s.descriptors).length = s.esInfoLength.toNat)
    (hbuf : buf.drop i = p ++ more) {last retries : ℕ} (hlast : (last : ℤ) = i + n + 4)
    (hretries : n < retries) :
    esLoop buf mark last retries i pids = some (true, markAll mark (streams.filterMap esPid) pids) := by
  induction fuel generalizing n p streams i retries pids with
  | zero => cases h
  | succ fuel ih =>
    obtain ⟨k, rfl⟩ := Nat.exists_eq_succ_of_ne_zero (n := retries) (by omega)
    rw [parseParts] at h
    by_cases hdone : n ≤ 0
    · rw [if_pos hdone] at h
      cases h
      have hend : ¬ i + 5 ≤ last := by omega
      rw [esLoop, if_neg hend, List.filterMap_nil, markAll_nil]
    rw [if_neg hdone] at h
    have hturn : i + 5 ≤ last := by omega
    rcases p with _ | ⟨b₀, _ | ⟨b₁, _ | ⟨b₂, _ | ⟨b₃, _ | ⟨b₄, p⟩⟩⟩⟩⟩
    iterate 5 cases h
    simp only [PmtStream.head] at h
    split at h
    · cases h
    rename_i descs p' hdescs
    split_ifs at h with hneg
    split at h
    · cases h
    rename_i parts hparts
    cases h
    obtain ⟨hfirst, hfilled⟩ := List.forall_mem_cons.mp hfilled
    obtain ⟨-, -, rfl⟩ := (parseDescriptors_eq_ok_iff (Nat.lt_succ_self _)).mp hdescs
    -- the next stream begins where the descriptors end
    have hnext : buf.drop (i + 5 + (uimsbf12 b₃ b₄).toNat) = p' ++ more := by
      have hfive : buf.drop (i + 5) = descriptorsBytes descs ++ (p' ++ more) := by
        rw [← List.drop_drop, hbuf, ← List.append_assoc]
        rfl
      rw [← List.drop_drop, hfive, ← hfirst, List.drop_left]
    have htype : buf[i]? = some b₀ := getElem?_of_drop hbuf 0
    have hepid : getPid buf (i + 1) = some (uimsbf13 b₁ b₂).toNat := getPid_of_drop hbuf 1
    have hb₃ : buf[i + 3]? = some b₃ := getElem?_of_drop hbuf 3
    have hb₄ : buf[i + 4]? = some b₄ := getElem?_of_drop hbuf 4
    have ih : ∀ pids, esLoop buf mark last k (i + 5 + (uimsbf12 b₃ b₄).toNat) pids =
        some (true, markAll mark (parts.filterMap esPid) pids) :=
      fun pids => ih (by omega) hparts hfilled hnext (by omega) (by omega)
    rw [esLoop, if_pos hturn]
    simp only [htype, hepid, hb₃, hb₄, Option.bind_eq_bind, Option.bind_some, ih]
    by_cases hdata : b₀ = 0x0d
    · rw [if_pos hdata, List.filterMap_cons_none (by rw [esPid, if_pos hdata])]
    · rw [if_neg hdata, List.filterMap_cons_some (b := (uimsbf13 b₁ b₂).toNat)
        (by rw [esPid, if_neg hdata]), markAll_cons]

end Loops

/-! ## The whole table -/

/-- The version as `AnalyzePmt` has it. -/
def versionByte (t : ProgramMapTable) : UInt8 := t.header.versionNumber <<< 1

/-- What `AnalyzePmt` leaves of a whole PMT. -/
def analyzed (sp : Splitter) (pid : ℕ) (t : ProgramMapTable) (mark b₃ : UInt8) : Splitter :=
  { sp with
    pids := markAll mark (splitPids t ++ if mark = 1 then [] else sp.aribPids) sp.pids
    pmtVersion := sp.pmtVersion.map fun v =>
      if v.pid = pid then { v with version := some (versionByte t) } else v
    sectionRemain := Function.update sp.sectionRemain pid 0
    packetSeq := Function.update sp.packetSeq pid (b₃ &&& 0x0f) }

theorem exists_of_length {q : List UInt8} (h : q.length = lengthPacket) :
    ∃ h₀ h₁ h₂ h₃ h₄ b₀ b₁ b₂ b₃ b₄ b₅ b₆ b₇ d, q = h₀ :: h₁ :: h₂ :: h₃ :: h₄ ::
      b₀ :: b₁ :: b₂ :: b₃ :: b₄ :: b₅ :: b₆ :: b₇ :: d := by
  have hlen : q.length = 188 := h
  rcases q with _ | ⟨h₀, _ | ⟨h₁, _ | ⟨h₂, _ | ⟨h₃, _ | ⟨h₄, _ | ⟨b₀, _ | ⟨b₁, _ | ⟨b₂, _ | ⟨b₃,
    _ | ⟨b₄, _ | ⟨b₅, _ | ⟨b₆, _ | ⟨b₇, d⟩⟩⟩⟩⟩⟩⟩⟩⟩⟩⟩⟩⟩
  iterate 13 simp at hlen
  exact ⟨h₀, h₁, h₂, h₃, h₄, b₀, b₁, b₂, b₃, b₄, b₅, b₆, b₇, d, rfl⟩

/-- The bytes of a packet with a PMT, and what the parser has read from them. -/
structure PmtBytes (pid : ℕ) (t : ProgramMapTable) (h₁ b₁ b₂ b₅ d₀ d₁ d₂ d₃ : UInt8)
    (p : List UInt8) : Prop where
  start : h₁ &&& 0x40 ≠ 0
  whole : (uimsbf12 b₁ b₂).toNat + 8 ≤ lengthPacket
  version : b₅ &&& 0x3e = versionByte t
  pcr : uimsbf13 d₀ d₁ = t.pcrPID
  infoLength : (descriptorsBytes t.descriptors).length = (uimsbf12 d₂ d₃).toNat
  wellFormed : ∀ d ∈ t.descriptors, d.WellFormed
  room : (uimsbf12 d₂ d₃).toNat + 18 < (uimsbf12 b₁ b₂).toNat
  streams : parseParts 5 PmtStream.head (p.length + 1)
    ((uimsbf12 b₁ b₂).toNat - (uimsbf12 d₂ d₃).toNat - 13) p = .ok t.streams
  filled : ∀ s ∈ t.streams, (descriptorsBytes s.descriptors).length = s.esInfoLength.toNat

theorem IsPmtPacket.bytes {pid : ℕ} {q : List UInt8} {t : ProgramMapTable}
    (h : IsPmtPacket pid q t) : ∃ h₀ h₁ h₂ h₃ h₄ b₀ b₁ b₂ b₃ b₄ b₅ b₆ b₇ d₀ d₁ d₂ d₃ p,
      q = h₀ :: h₁ :: h₂ :: h₃ :: h₄ :: b₀ :: b₁ :: b₂ :: b₃ :: b₄ :: b₅ :: b₆ :: b₇ :: d₀ :: d₁ ::
        d₂ :: d₃ :: (descriptorsBytes t.descriptors ++ p) ∧
      PmtBytes pid t h₁ b₁ b₂ b₅ d₀ d₁ d₂ d₃ p := by
  obtain ⟨h₀, h₁, h₂, h₃, h₄, b₀, b₁, b₂, b₃, b₄, b₅, b₆, b₇, d, rfl⟩ := exists_of_length h.length
  -- the header of the section
  set x := SectionHeader.zero.readShort b₀ b₁ b₂ with hx
  have hhdr : (Sect.first (b₀ :: b₁ :: b₂ :: b₃ :: b₄ :: b₅ :: b₆ :: b₇ :: d)).hdr =
      x.readLong b₃ b₄ b₅ b₆ b₇ := by
    have hlong : x.sectionSyntaxIndicator ≠ 0 := by
      intro hzero
      refine h.long ?_
      show (parseHeader .zero (b₀ :: b₁ :: b₂ :: b₃ :: b₄ :: b₅ :: b₆ :: b₇ :: d)
        .psisi).1.sectionSyntaxIndicator = 0
      simp only [parseHeader, ← hx, hzero, and_self, if_true]
    show (parseHeader .zero (b₀ :: b₁ :: b₂ :: b₃ :: b₄ :: b₅ :: b₆ :: b₇ :: d) .psisi).1 = _
    simp only [parseHeader, ← hx, hlong, and_false, if_false]
  have hlength : (x.readLong b₃ b₄ b₅ b₆ b₇).sectionLength.toNat = (uimsbf12 b₁ b₂).toNat := by
    have hmask : (0x0fff : UInt16).toNat = 2 ^ 12 - 1 := rfl
    have hb₂ := b₂.toNat_lt
    show (((b₁.toUInt16 <<< 8) ||| b₂.toUInt16) &&& 0x0fff).toNat = _
    rw [UInt16.toNat_and, toNat_shiftLeft_or, hmask, Nat.and_two_pow_sub_one_eq_mod,
      toNat_uimsbf12]
    omega
  have hwhole : (uimsbf12 b₁ b₂).toNat + 8 ≤ lengthPacket := by
    have hwhole : (Sect.first (b₀ :: b₁ :: b₂ :: b₃ :: b₄ :: b₅ :: b₆ :: b₇ :: d)).hdr.totalLen + 5 ≤
        lengthPacket := h.whole
    rw [hhdr, SectionHeader.totalLen, hlength] at hwhole
    exact hwhole
  have hparse : ProgramMapTable.parse (x.readLong b₃ b₄ b₅ b₆ b₇) d = .ok t := hhdr ▸ h.parse
  -- the parts of the table
  rcases d with _ | ⟨d₀, _ | ⟨d₁, _ | ⟨d₂, _ | ⟨d₃, d⟩⟩⟩⟩
  iterate 4 cases hparse
  simp only [ProgramMapTable.parse] at hparse
  split at hparse
  · cases hparse
  rename_i descs p hdescs
  split_ifs at hparse with hfew
  split at hparse
  · cases hparse
  rename_i streams hstreams
  cases hparse
  obtain ⟨hdescriptors, hfilled⟩ := h.filled
  obtain ⟨hwf, -, rfl⟩ := (parseDescriptors_eq_ok_iff (Nat.lt_succ_self _)).mp hdescs
  obtain ⟨b, hb, hstart⟩ := h.start
  cases hb
  rw [hlength] at hfew hstreams
  have hn : ((uimsbf12 b₁ b₂).toNat : ℤ) - (uimsbf12 d₂ d₃).toNat - 5 - 4 - 4 =
      (uimsbf12 b₁ b₂).toNat - (uimsbf12 d₂ d₃).toNat - 13 := by omega
  have hversion : b₅ &&& (0x3e : UInt8) = ((b₅ >>> 1) &&& 0x1f) <<< 1 :=
    forall_uint8 (P := fun b => b &&& (0x3e : UInt8) = ((b >>> 1) &&& 0x1f) <<< 1)
      (by decide +kernel) b₅
  exact ⟨h₀, h₁, h₂, h₃, h₄, b₀, b₁, b₂, b₃, b₄, b₅, b₆, b₇, d₀, d₁, d₂, d₃, p, rfl, hstart, hwhole,
    hversion, rfl, hdescriptors, hwf, by omega, hn ▸ hstreams, hfilled⟩

/-- **The splitter finds the PIDs of the table**, in a packet and whatever lies behind it. -/
theorem analyzePmt_eq {pid : ℕ} {q : List UInt8} {t : ProgramMapTable} (h : IsPmtPacket pid q t)
    (sp : Splitter) (mark : UInt8) (more : List UInt8) :
    ∃ b₃, analyzePmt sp (q ++ more) mark = some (.success, analyzed sp pid t mark b₃) := by
  have hqpid := h.pid
  obtain ⟨h₀, h₁, h₂, h₃, h₄, b₀, b₁, b₂, b₃, b₄, b₅, b₆, b₇, d₀, d₁, d₂, d₃, p, rfl, hb⟩ := h.bytes
  set buf := (h₀ :: h₁ :: h₂ :: h₃ :: h₄ :: b₀ :: b₁ :: b₂ :: b₃ :: b₄ :: b₅ :: b₆ :: b₇ :: d₀ :: d₁ ::
    d₂ :: d₃ :: (descriptorsBytes t.descriptors ++ p)) ++ more with hbuf
  have hpid : getPid buf 1 = some pid := hqpid
  have h1 : buf[1]? = some h₁ := rfl
  have h3 : buf[3]? = some h₃ := rfl
  have h6 : buf[6]? = some b₁ := rfl
  have h7 : buf[7]? = some b₂ := rfl
  have h10 : buf[10]? = some b₅ := rfl
  have hpcr : getPid buf 13 = some t.pcrPID.toNat := congrArg (fun w => some (UInt16.toNat w)) hb.pcr
  have h15 : buf[15]? = some d₂ := rfl
  have h16 : buf[16]? = some d₃ := rfl
  have hwhole : (uimsbf12 b₁ b₂).toNat + 8 ≤ 188 := hb.whole
  have hroom := hb.room
  have hlen := hb.infoLength
  have hdrop : buf.drop 17 = descriptorsBytes t.descriptors ++ (p ++ more) := List.append_assoc _ _ _
  have hecm : ∀ pids, ecmLoop buf mark ((uimsbf12 d₂ d₃).toNat + 17) ((uimsbf12 d₂ d₃).toNat + 17) 17
      pids = some (markAll mark (t.descriptors.filterMap ecmPid) pids) := by
    intro pids
    have hloop : ecmLoop buf mark (17 + (descriptorsBytes t.descriptors).length)
        ((uimsbf12 d₂ d₃).toNat + 17) 17 pids =
          some (markAll mark (t.descriptors.filterMap ecmPid) pids) :=
      ecmLoop_eq hb.wellFormed hdrop (by omega)
    have hplace : 17 + (descriptorsBytes t.descriptors).length = (uimsbf12 d₂ d₃).toNat + 17 := by
      omega
    rwa [hplace] at hloop
  have hes : ∀ pids, esLoop buf mark ((uimsbf12 b₁ b₂).toNat + 3 + 5) ((uimsbf12 b₁ b₂).toNat + 3 + 1)
      ((uimsbf12 d₂ d₃).toNat + 17) pids =
        some (true, markAll mark (t.streams.filterMap esPid) pids) := by
    intro pids
    have hnext : buf.drop ((uimsbf12 d₂ d₃).toNat + 17) = p ++ more := by
      rw [Nat.add_comm, ← List.drop_drop, hdrop, ← hlen, List.drop_left]
    exact esLoop_eq (by omega) hb.streams hb.filled hnext (by omega) (by omega)
  have hnall : min ((uimsbf12 b₁ b₂).toNat + 3) (lengthPacket - 5) = (uimsbf12 b₁ b₂).toNat + 3 := by
    show min _ 183 = _
    omega
  have hpids : markAll mark (t.streams.filterMap esPid) (markAll mark (t.descriptors.filterMap ecmPid)
      (Function.update sp.pids t.pcrPID.toNat mark)) = markAll mark (splitPids t) sp.pids := by
    rw [splitPids, markAll_cons, markAll_append]
  refine ⟨h₃, ?_⟩
  simp only [analyzePmt, hpid, h1, h3, h6, h7, h10, hpcr, h15, h16, Option.bind_eq_bind,
    Option.bind_some, ne_eq, hb.start, not_false_eq_true, if_true, hecm, analyzeStreams,
    Function.update_self, hnall, hes, hpids, hb.version, Bool.true_eq_false, if_false, Nat.sub_self,
    Nat.lt_irrefl, Function.update_idem, Option.pure_def]
  by_cases hmark : mark = 1
  · rw [if_neg (not_not.mpr hmark), analyzed, if_pos hmark, List.append_nil]
  · have harib : (fun i => if i ∈ sp.aribPids then mark else markAll mark (splitPids t) sp.pids i) =
        markAll mark (splitPids t ++ sp.aribPids) sp.pids := markAll_append.symm
    rw [if_pos hmark, analyzed, if_neg hmark, harib]

end Tssplitter

end AutoRec
