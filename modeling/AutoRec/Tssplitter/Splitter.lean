import AutoRec.Parser.Classes
import Mathlib.Data.List.SplitBy
import Mathlib.Logic.Function.Basic

/-!
# The splitter

`tssplitter_lite` (`parser/third_party/tssplitter_lite/tssplitter_lite.c`) takes the packets of one or
more services out of a transport stream, and puts a PAT with only these in the place of the others. `ENABLE_EXTRA_SID` is not set; allocations succeed; what is printed is left out.

A pointer is what lies in the buffer from it on. There is no result when something is read or written
outside of a buffer.

* `analyzeSid`, `Splitter`, `splitStartup`.
* `recreatePat`, `analyzePat`: the PAT, and the services that are chosen.
* `analyzePmt`: the PIDs of a service.
* `readTs`, `rescanPid`, `splitTs`: the services are looked for, looked for again, and split off.
* `Process`, `process`: how `arib_b25_process` uses it (`stream_handler/arib_b25_process.h`).
-/

namespace AutoRec

namespace Tssplitter

/-- `LENGTH_PACKET`. -/
abbrev lengthPacket : ℕ := 188

/-- `MAX_PID`. -/
abbrev maxPid : ℕ := 8192

/-- `MAX_SERVICES`. -/
abbrev maxServices : ℕ := 50

/-- `LENGTH_CRC_DATA`. -/
abbrev lengthCrcData : ℕ := 176

/-- `ARIB_PID_MAX`. -/
abbrev aribPidMax : ℕ := 20

/-! ## Strings -/

/-- `AnalyzeSid`: the parts between the commas; an empty one at the end is none. -/
def analyzeSid (sid : List Char) : List (List Char) :=
  let parts := sid.splitOn ','
  if parts.getLast? = some [] then parts.dropLast else parts

/-- `isspace`. -/
def isSpace (c : Char) : Bool := c.toNat == 0x20 || (0x09 ≤ c.toNat && c.toNat ≤ 0x0d)

/-- The digits that `atoi` reads. -/
def atoiDigits (s : List Char) : ℤ := Nat.ofDigitChars 10 (s.takeWhile Char.isDigit) 0

/-- `atoi`. -/
def atoi (s : List Char) : ℤ :=
  match s.dropWhile isSpace with
  | [] => 0
  | c :: s =>
    if c = '-' then -atoiDigits s else if c = '+' then atoiDigits s else atoiDigits (c :: s)

/-- `!strcasecmp`. -/
def strcaseeq (s : List Char) (t : String) : Bool := s.map Char.toLower == t.toList

/-! ## The data -/

/-- The results of the functions: `TSS_SUCCESS`, `TSS_ERROR`, `TSS_NULL`, `SECTION_CONTINUE`. -/
inductive Result
  | success
  | error
  | null
  | sectionContinue
deriving DecidableEq

/-- `pmt_version`. The version is not set before the PMT has been analyzed. -/
structure PmtVersion where
  pid : ℕ
  version : Option UInt8
deriving DecidableEq

/-- `splitter`, and the `arib_pids`, which are global. There are `pmt_retain` entries in
`pmtVersion`. -/
structure Splitter where
  pids : ℕ → UInt8
  pmtPids : ℕ → UInt8
  pat : Option (List UInt8)
  sidList : List (List Char)
  patCount : UInt8
  pmtRetain : ℤ
  pmtCounter : ℤ
  pmtVersion : List PmtVersion
  sectionRemain : ℕ → ℕ
  packetSeq : ℕ → UInt8
  aribPids : List ℕ

/-- `split_startup`. -/
def splitStartup (sid : List Char) (aribPids : List ℕ) : Splitter where
  pids := fun _ => 0
  pmtPids := fun _ => 0
  pat := none
  sidList := analyzeSid sid
  patCount := 0xff
  pmtRetain := -1
  pmtCounter := 0
  pmtVersion := []
  sectionRemain := fun _ => 0
  packetSeq := fun _ => 0
  aribPids := aribPids

/-- `GetPid`, of the two bytes at `i`. -/
def getPid (data : List UInt8) (i : ℕ) : Option ℕ := do
  let b₀ ← data[i]?
  let b₁ ← data[i + 1]?
  return (uimsbf13 b₀ b₁).toNat

/-- The loop of `GetCrc32` over the bits of a byte. -/
def crcBit (x : BitVec 32) (crc : BitVec 32) (j : ℕ) : BitVec 32 :=
  let bit := (x >>> (7 - j)) &&& 1
  let c : BitVec 32 := if crc &&& 0x80000000 ≠ 0 then 1 else 0
  if c ^^^ bit ≠ 0 then (crc <<< 1) ^^^ 0x04C11DB7 else crc <<< 1

/-- `GetCrc32`. -/
def getCrc32 (data : List UInt8) : BitVec 32 :=
  data.foldl (fun crc b => (List.range 8).foldl (crcBit (b.toBitVec.setWidth 32)) crc) 0xffffffff

/-! ## The PAT -/

/-- A program of a PAT, with its place. -/
structure Program where
  pos : ℕ
  serviceId : ℕ
  pid : ℕ
deriving DecidableEq

/-- The program at `i`. -/
def programAt (buf : List UInt8) (i : ℕ) : Option Program := do
  let b₀ ← buf[i]?
  let b₁ ← buf[i + 1]?
  let pid ← getPid buf (i + 2)
  return ⟨i, (uimsbf16 b₀ b₁).toNat, pid⟩

/-- The places of the programs, for `section_length` as its low byte has it. -/
def programPlaces (size : ℕ) : List ℕ := (List.range ((size - 6) / 4)).map fun k => 13 + 4 * k

/-- The programs of a PAT, without the one for the NIT. -/
def programs (buf : List UInt8) : Option (List Program) := do
  let size ← buf[7]?
  let places := programPlaces size.toNat
  if places.all fun i => i + 4 ≤ buf.length then
    return (places.filterMap (programAt buf)).filter fun p => p.pid ≠ 0x10
  else none

/-- What is filled while the services are chosen. -/
structure Scan where
  pids : ℕ → UInt8
  pmtPids : ℕ → UInt8
  pos : ℕ → ℕ
  sidFound : Bool
  versions : List PmtVersion
  aribPids : List ℕ

namespace Scan

/-- A program is chosen. -/
def choose (s : Scan) (p : Program) : Scan :=
  { s with
    pmtPids := Function.update s.pmtPids p.pid 1
    pids := Function.update s.pids p.pid 1
    pos := Function.update s.pos p.pid p.pos
    sidFound := true
    versions := s.versions ++ [⟨p.pid, none⟩] }

/-- `AribPidSet`. -/
def aribPidSet (s : Scan) (pid : ℕ) : Scan :=
  { s with
    pids := Function.update s.pids pid 1
    aribPids := if s.aribPids.length < aribPidMax then s.aribPids ++ [pid] else s.aribPids }

/-- What an entry of `sid_list` says of a program, before the ones that follow. Fewer services than
asked for leave `avail_sids` unset there, and none is taken to match. -/
def sid (availSids : List ℕ) (p : Program) (s : Scan) (sid : List Char) : Scan :=
  if (p.serviceId : ℤ) = atoi sid then s.choose p
  else if strcaseeq sid "hd" || strcaseeq sid "sd1" then
    if availSids[0]? = some p.serviceId then s.choose p else s
  else if strcaseeq sid "sd2" then if availSids[1]? = some p.serviceId then s.choose p else s
  else if strcaseeq sid "sd3" then if availSids[2]? = some p.serviceId then s.choose p else s
  else if strcaseeq sid "1seg" then if p.pid = 0x1fc8 then s.choose p else s
  else if strcaseeq sid "all" then s.choose p
  else if strcaseeq sid "epg" then
    (((({ s with sidFound := true } : Scan).aribPidSet 0x11).aribPidSet 0x12).aribPidSet 0x23).aribPidSet
      0x29
  else if strcaseeq sid "epg1seg" then
    (({ s with sidFound := true } : Scan).aribPidSet 0x11).aribPidSet 0x27
  else s

/-- The loop over `sid_list`; behind `all` it ends. -/
def sids (availSids : List ℕ) (p : Program) : Scan → List (List Char) → Scan
  | s, [] => s
  | s, sid :: rest =>
    if (p.serviceId : ℤ) ≠ atoi sid ∧ strcaseeq sid "all" = true then s.sid availSids p sid
    else sids availSids p (s.sid availSids p sid) rest

/-- The services are chosen; if none is found, all are. -/
def run (s : Scan) (sidList : List (List Char)) (progs : List Program) : Scan :=
  let s := progs.foldl (fun s p => s.sids (progs.map Program.serviceId) p sidList) s
  if sidList ≠ [] ∧ s.sidFound = false then progs.foldl choose s else s

end Scan

/-- The bytes that `RecreatePat` takes the CRC of: the header, the NIT, and the programs at the
places `pos`. -/
def patBody (buf : List UInt8) (pos : ℕ → ℕ) : Option (List UInt8) :=
  let chosen := (List.range maxPid).filter fun i => pos i ≠ 0
  if chosen.all fun i => pos i + 4 ≤ buf.length then
    let y := (buf.drop 5).take 8 ++ [0x00, 0x00, 0xe0, 0x10] ++
      chosen.flatMap fun i => (buf.drop (pos i)).take 4
    if lengthCrcData < y.length then none
    else some (y.set 2 (UInt8.ofNat (chosen.length * 4 + 0x0d)))
  else none

/-- `RecreatePat`. -/
def recreatePat (buf : List UInt8) (pos : ℕ → ℕ) : Option (List UInt8) := do
  if buf.length < 13 then none
  else
    let y ← patBody buf pos
    let crc := getCrc32 y
    let pat := buf.take 5 ++ y ++ [.ofBitVec ((crc >>> 24).setWidth 8),
      .ofBitVec ((crc >>> 16).setWidth 8), .ofBitVec ((crc >>> 8).setWidth 8),
      .ofBitVec (crc.setWidth 8)]
    return pat ++ List.replicate (lengthPacket - pat.length) 0xff

/-- `AnalyzePat`. -/
def analyzePat (sp : Splitter) (buf : List UInt8) : Option Splitter :=
  match sp.pat with
  | some _ => some sp
  | none => do
    let progs ← programs buf
    let s := Scan.run ⟨sp.pids, sp.pmtPids, fun _ => 0, false, [], sp.aribPids⟩ sp.sidList progs
    if maxServices < progs.length ∨ maxServices < s.versions.length then none
    else
      let pat ← recreatePat buf s.pos
      return {
        sp with
        pids := s.pids
        pmtPids := s.pmtPids
        pat := some pat
        pmtRetain := s.versions.length
        pmtVersion := s.versions
        aribPids := s.aribPids }

/-! ## The PMT -/

/-- The loop over the descriptors in front of `n`: the PIDs of the ECM. -/
def ecmLoop (buf : List UInt8) (mark : UInt8) (n : ℕ) : ℕ → ℕ → (ℕ → UInt8) → Option (ℕ → UInt8)
  | 0, _, _ => none
  | fuel + 1, p, pids =>
    if p < n then do
      let tag ← buf[p]?
      let len ← buf[p + 1]?
      if tag = 0x09 ∧ 4 ≤ len.toNat ∧ p + 2 + len.toNat ≤ n then
        let caPid ← getPid buf (p + 4)
        ecmLoop buf mark n fuel (p + 2 + len.toNat) (Function.update pids caPid mark)
      else ecmLoop buf mark n fuel (p + 2 + len.toNat) pids
    else some pids

/-- The loop over the streams in front of `last`, and whether it ends before `retry_count` is too
large. -/
def esLoop (buf : List UInt8) (mark : UInt8) (last : ℕ) :
    ℕ → ℕ → (ℕ → UInt8) → Option (Bool × (ℕ → UInt8))
  | 0, _, pids => some (false, pids)
  | retries + 1, n, pids =>
    if n + 5 ≤ last then do
      let type ← buf[n]?
      let epid ← getPid buf (n + 1)
      let b₃ ← buf[n + 3]?
      let b₄ ← buf[n + 4]?
      esLoop buf mark last retries (n + 5 + (uimsbf12 b₃ b₄).toNat)
        (if type = 0x0d then pids else Function.update pids epid mark)
    else some (true, pids)

/-- `AnalyzePmt`, from the streams on, which begin at `n`. -/
def analyzeStreams (sp : Splitter) (buf : List UInt8) (mark : UInt8) (pid payloadOffset n : ℕ)
    (b₃ : UInt8) : Option (Result × Splitter) := do
  let nall := min (sp.sectionRemain pid) (lengthPacket - payloadOffset)
  let (done, pids) ← esLoop buf mark (nall + payloadOffset) (nall + 1) n sp.pids
  let sp := { sp with packetSeq := Function.update sp.packetSeq pid (b₃ &&& 0x0f), pids := pids }
  if done = false then return (.error, sp)
  else
    let sp := { sp with
      sectionRemain := Function.update sp.sectionRemain pid (sp.sectionRemain pid - nall) }
    if 0 < sp.sectionRemain pid then return (.sectionContinue, sp)
    else if mark ≠ 1 then
      return (.success, { sp with pids := fun i => if i ∈ sp.aribPids then mark else sp.pids i })
    else return (.success, sp)

/-- `AnalyzePmt`. -/
def analyzePmt (sp : Splitter) (buf : List UInt8) (mark : UInt8) : Option (Result × Splitter) := do
  let pid ← getPid buf 1
  let b₁ ← buf[1]?
  let b₃ ← buf[3]?
  if b₁ &&& 0x40 ≠ 0 then
    let b₆ ← buf[6]?
    let b₇ ← buf[7]?
    let b₁₀ ← buf[10]?
    let pcr ← getPid buf 13
    let b₁₅ ← buf[15]?
    let b₁₆ ← buf[16]?
    let n := (uimsbf12 b₁₅ b₁₆).toNat + 17
    let pids ← ecmLoop buf mark n n 17 (Function.update sp.pids pcr mark)
    let versions := sp.pmtVersion.map fun v =>
      if v.pid = pid then { v with version := some (b₁₀ &&& 0x3e) } else v
    analyzeStreams { sp with
      sectionRemain := Function.update sp.sectionRemain pid ((uimsbf12 b₆ b₇).toNat + 3)
      pmtVersion := versions
      pids := pids } buf mark pid 5 n b₃
  else if sp.sectionRemain pid = 0 then return (.error, sp)
  else if b₃ &&& 0x0f ≠ (sp.packetSeq pid + 1) &&& 0x0f then return (.error, sp)
  else analyzeStreams sp buf mark pid 4 4 b₃

/-! ## The services are looked for -/

/-- The PMTs of the services chosen have all been analyzed. -/
def isReady (sp : Splitter) : Bool := sp.pmtCounter == sp.pmtRetain

/-- A PMT that is looked for is analyzed, and its PID is taken out of the packet. -/
def readPmt (sp : Splitter) (p : List UInt8) (pid : ℕ) : Option (Splitter × List UInt8) := do
  let (r, sp) ← analyzePmt sp p 1
  if r = .success then
    return ({
      sp with
      pmtPids := Function.update sp.pmtPids pid (sp.pmtPids pid + 1)
      pmtCounter := sp.pmtCounter + 1 }, (p.set 1 0xff).set 2 0xff)
  else return (sp, p)

/-- A turn of the loop of `ReadTs`, up to its test. -/
def readPacket (sp : Splitter) (p : List UInt8) : Option (Splitter × List UInt8) := do
  let pid ← getPid p 1
  let sp ← if pid = 0 then analyzePat sp p else some sp
  if sp.pmtPids pid = 1 then readPmt sp p pid else return (sp, p)

/-- The loop of `ReadTs`, with the buffer behind it. The last packet is not read. -/
def readLoop : ℕ → Splitter → List UInt8 → Option (Result × Splitter × List UInt8)
  | 0, sp, p => some (.error, sp, p)
  | fuel + 1, sp, p =>
    if p.length ≤ lengthPacket then some (.error, sp, p)
    else do
      let (sp, p) ← readPacket sp p
      if isReady sp then return (.success, sp, p)
      else
        let (r, sp, rest) ← readLoop fuel sp (p.drop lengthPacket)
        return (r, sp, p.take lengthPacket ++ rest)

/-- `ReadTs`, which is `split_select`. -/
def readTs (sp : Splitter) (data : List UInt8) : Option (Result × Splitter × List UInt8) :=
  readLoop data.length sp data

/-- The PIDs are looked for anew. -/
def rescan (sp : Splitter) : Splitter :=
  if isReady sp then
    { sp with
      pids := sp.pmtPids
      pmtCounter := 0
      sectionRemain := fun _ => 0
      packetSeq := fun _ => 0 }
  else sp

/-- `RescanPID`. -/
def rescanPid (sp : Splitter) (buf : List UInt8) : Option (Result × Splitter) := do
  let (r, sp) ← analyzePmt (rescan sp) buf 2
  let sp := if r = .success then { sp with pmtCounter := sp.pmtCounter + 1 } else sp
  if isReady sp then
    return (.success, { sp with pids := fun i => if 0 < sp.pids i then sp.pids i - 1 else sp.pids i })
  else return (.null, sp)

/-! ## The packets are split off -/

/-- What `split_ts` has while it goes through a buffer. -/
structure Splitting where
  sp : Splitter
  version : Option UInt8
  result : Result
  out : List UInt8

/-- `memcpy` of a packet to the buffer for the output. -/
def Splitting.write (s : Splitting) (capacity : ℕ) (packet : List UInt8) : Option Splitting :=
  if packet.length < lengthPacket ∨ capacity < s.out.length + lengthPacket then none
  else some { s with out := s.out ++ packet.take lengthPacket }

/-- The continuity counter of the next PAT. -/
def nextPatCount (patCount b : UInt8) : UInt8 :=
  if patCount = 0xff then b
  else if (patCount + 1) &&& 0x0f = 0 then patCount + 1 - 0x10
  else patCount + 1

/-- The PAT is put out. -/
def splitPat (s : Splitting) (capacity : ℕ) : Option Splitting := do
  let pat ← s.sp.pat
  let b ← pat[3]?
  let patCount := nextPatCount s.sp.patCount b
  { s with sp := { s.sp with pat := some (pat.set 3 patCount), patCount := patCount } }.write capacity
    (pat.set 3 patCount)

/-- A packet with the PID of a PMT, which may be looked at. -/
def splitPmt (s : Splitting) (p : List UInt8) (pid : ℕ) : Option Splitting := do
  let b₁ ← p[1]?
  if b₁ &&& 0x40 ≠ 0 then
    let b₁₀ ← p[10]?
    let version := ((s.sp.pmtVersion.find? fun v => v.pid == pid).map PmtVersion.version).getD s.version
    if version ≠ some (b₁₀ &&& 0x3e) ∨ isReady s.sp = false then
      let (r, sp) ← rescanPid s.sp p
      return { s with sp := sp, version := version, result := r }
    else return { s with version := version }
  else if isReady s.sp = false then
    let (r, sp) ← rescanPid s.sp p
    return { s with sp := sp, result := r }
  else return s

/-- What `split_ts` does with a packet. -/
def splitPacket (capacity : ℕ) (s : Splitting) (p : List UInt8) : Option Splitting := do
  let pid ← getPid p 1
  if pid = 0 then splitPat s capacity
  else
    let s ← if s.sp.pmtPids pid ≠ 0 then splitPmt s p pid else some s
    if s.sp.pids pid ≠ 0 then s.write capacity p else return s

/-- The loop of `split_ts`. -/
def splitLoop (capacity : ℕ) : ℕ → Splitting → List UInt8 → Option Splitting
  | 0, s, _ => some s
  | fuel + 1, s, p =>
    if p = [] then some s
    else do
      let s ← splitPacket capacity s p
      splitLoop capacity fuel s (p.drop lengthPacket)

/-- `split_ts`, with a buffer of `capacity` bytes for the output. -/
def splitTs (sp : Splitter) (data : List UInt8) (capacity : ℕ) :
    Option (Result × Splitter × List UInt8) := do
  let s ← splitLoop capacity data.length ⟨sp, some 0, .success, []⟩ data
  return (s.result, s.sp, s.out)

/-! ## The use -/

/-- `arib_b25_process`, with what it has for the splitter. -/
structure Process where
  splitter : Splitter
  selectState : Result
  bufferSize : ℕ

/-- The constructor, of a service. -/
def Process.init (serviceId : UInt16) (aribPids : List ℕ) : Process :=
  ⟨splitStartup (toString serviceId.toNat).toList aribPids, .error, 0⟩

/-- The process handler, from the descrambled bytes on, and what is given to
`b25_processed_handler_`, if it is called. -/
def process (s : Process) (data : List UInt8) : Option (Process × Option (List UInt8)) := do
  let bufferSize := max s.bufferSize data.length
  let (state, sp, data) ← if s.selectState = .success then some (.success, s.splitter, data)
    else readTs s.splitter data
  if state = .success then
    let (_, sp, out) ← splitTs sp data bufferSize
    return (⟨sp, state, bufferSize⟩, some out)
  else return (⟨sp, state, bufferSize⟩, none)

end Tssplitter

end AutoRec
