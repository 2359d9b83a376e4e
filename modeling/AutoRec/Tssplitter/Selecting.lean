import AutoRec.Tssplitter.Pat
import AutoRec.Tssplitter.Stream

/-!
# The service that is looked for

From the constructor of `arib_b25_process` on: the splitter waits for a PAT, then for a PMT of its
service, and then puts out what the selection says, the whole buffer with this PMT included.

* `Stage`, `Stage.look`, `Stage.feed`, `Stage.feedAll`: this, without the tables of the splitter.
* `InStage.readLoop`, `Follows.process`, **`process_selects`**: the splitter does this, over any number
  of buffers.
-/

namespace AutoRec

namespace Tssplitter

/-! ## The stages -/

/-- The program that a PAT has for the service. -/
def programOf (serviceId : ℕ) (q : List UInt8) : Option Program :=
  if getPid q 1 = some 0 then (programs q).bind fun progs => (wanted serviceId progs).head? else none

/-- A PAT with one program, and the NIT. -/
def patOf (p : Program) (q : List UInt8) : List UInt8 :=
  q.take 5 ++ (appendCrc (((q.drop 5).take 8).set 2 0x11 ++ [0x00, 0x00, 0xe0, 0x10] ++ p.bytes q) ++
    List.replicate 163 0xff)

/-- How far the splitter is. -/
inductive Stage
  | start
  | pat (pid : ℕ) (table : List UInt8)
  | selected (pid : ℕ) (s : Selection)

namespace Stage

variable (serviceId : ℕ) (arib : List ℕ)

/-- The service has been found. -/
def isSelected : Stage → Bool
  | selected _ _ => true
  | _ => false

/-- A packet is looked at. -/
def look : Stage → List UInt8 → Stage
  | start, q =>
    match programOf serviceId q with
    | some p => .pat p.pid (patOf p q)
    | none => .start
  | pat pid table, q =>
    match pmtOf pid q with
    | some t => .selected pid ⟨versionByte t, pid :: splitPids t, table, 0xff⟩
    | none => .pat pid table
  | selected pid s, _ => .selected pid s

/-- The PID of the PMT with which the service has been found is that of a null packet. -/
def blank (q : List UInt8) : List UInt8 := (q.set 1 0xff).set 2 0xff

/-- The packets but the last one are looked at, until the service has been found. -/
def scan : Stage → List (List UInt8) → Stage × List (List UInt8)
  | m, [] => (m, [])
  | m, [q] => (m, [q])
  | m, q :: q' :: l =>
    if (m.look serviceId q).isSelected then (m.look serviceId q, blank q :: q' :: l)
    else ((scan (m.look serviceId q) (q' :: l)).1, q :: (scan (m.look serviceId q) (q' :: l)).2)

/-- The packets are put out as the selection says, if there is one. -/
def split : Stage → List (List UInt8) → Stage × List (List UInt8)
  | selected pid s, l => (selected pid (s.run pid arib l).1, (s.run pid arib l).2)
  | m, _ => (m, [])

/-- What becomes of a buffer. -/
def feed (m : Stage) (l : List (List UInt8)) : Stage × List (List UInt8) :=
  if m.isSelected then m.split arib l else (scan serviceId m l).1.split arib (scan serviceId m l).2

/-- What becomes of buffers. -/
def feedAll : Stage → List (List (List UInt8)) → Stage × List (List UInt8)
  | m, [] => (m, [])
  | m, l :: ls => ((feedAll (m.feed serviceId arib l).1 ls).1,
      (m.feed serviceId arib l).2 ++ (feedAll (m.feed serviceId arib l).1 ls).2)

end Stage

/-- The process handler over buffers, and what it gives to `b25_processed_handler_`. -/
def processAll (s : Process) : List (List UInt8) → Option (Process × List UInt8)
  | [] => some (s, [])
  | data :: l => do
    let (s, out) ← process s data
    let (s, outs) ← processAll s l
    return (s, out.getD [] ++ outs)

/-! ## The splitter -/

/-- A packet with a PAT, which has the service once. -/
structure IsPatPacket (serviceId pid : ℕ) (q : List UInt8) : Prop where
  length : q.length = lengthPacket
  zero : getPid q 1 = some 0
  programs : ∃ progs p, programs q = some progs ∧ (progs.map Program.pid).Nodup ∧
    progs.length ≤ maxServices ∧ wanted serviceId progs = [p] ∧ p.pid = pid

/-- A packet of the stream with the service: a PAT has the service once, and a PMT of the service does not
go on in the next packet. -/
structure IsServicePacket (serviceId pid : ℕ) (q : List UInt8) : Prop extends IsStreamPacket pid q where
  pat : getPid q 1 = some 0 → IsPatPacket serviceId pid q

/-- The PAT has been found. -/
structure Waits (pid : ℕ) (arib : List ℕ) (table : List UInt8) (sp : Splitter) : Prop where
  pat : sp.pat = some table
  length : table.length = lengthPacket
  count : sp.patCount = 0xff
  retain : sp.pmtRetain = 1
  counter : sp.pmtCounter = 0
  version : sp.pmtVersion = [⟨pid, none⟩]
  pmtPids : ∀ i, sp.pmtPids i = if i = pid then 1 else 0
  pids : ∀ i, sp.pids i = if i = pid then 1 else 0
  remain : ∀ i, sp.sectionRemain i = 0
  arib : sp.aribPids = arib

/-- The splitter is in a stage. -/
def InStage (serviceId pid : ℕ) (arib : List ℕ) : Stage → Splitter → Prop
  | .start, sp => sp = splitStartup (toString serviceId).toList arib
  | .pat pid' table, sp => pid' = pid ∧ Waits pid arib table sp
  | .selected pid' s, sp => pid' = pid ∧ Tracks pid arib s sp

section Stages

variable {serviceId pid : ℕ} {arib : List ℕ} {sp : Splitter} {q more table : List UInt8}
  {t : ProgramMapTable}

/-! ### The PAT -/

theorem programAt_append {buf : List UInt8} {i : ℕ} (hi : i + 4 ≤ buf.length) :
    programAt (buf ++ more) i = programAt buf i := by
  rw [programAt, programAt, getPid, getPid, List.getElem?_append_left (by omega),
    List.getElem?_append_left (by omega), List.getElem?_append_left (by omega),
    List.getElem?_append_left (by omega)]

theorem programs_append {progs : List Program} (h : programs q = some progs) :
    programs (q ++ more) = some progs := by
  simp only [programs, Option.bind_eq_bind, Option.bind_eq_some_iff, Option.ite_none_right_eq_some,
    Option.pure_def, Option.some.injEq] at h ⊢
  obtain ⟨size, hsize, hall, rfl⟩ := h
  have hlt : 7 < q.length := (List.getElem?_eq_some_iff.mp hsize).1
  have hin : ∀ i ∈ programPlaces size.toNat, i + 4 ≤ q.length := by simpa using hall
  refine ⟨size, by rw [List.getElem?_append_left hlt, hsize], ?_, ?_⟩
  · simp only [List.all_eq_true, decide_eq_true_eq, List.length_append]
    exact fun i hi => (hin i hi).trans (Nat.le_add_right _ _)
  · rw [List.filterMap_congr fun i hi => programAt_append (hin i hi)]

theorem analyzePat_start (hq : IsPatPacket serviceId pid q) (more : List UInt8) :
    ∃ p sp', programOf serviceId q = some p ∧ p.pid = pid ∧
      analyzePat (splitStartup (toString serviceId).toList arib) (q ++ more) = some sp' ∧
      Waits pid arib (patOf p q) sp' := by
  obtain ⟨progs, p, hprogs, hpids, hmany, hwanted, hpid⟩ := hq.programs
  have hqpid := hq.zero
  have hqlen := hq.length
  obtain ⟨h₀, h₁, h₂, h₃, h₄, b₀, b₁, b₂, b₃, b₄, b₅, b₆, b₇, d, rfl⟩ := exists_of_length hq.length
  have hone : programOf serviceId (h₀ :: h₁ :: h₂ :: h₃ :: h₄ :: b₀ :: b₁ :: b₂ :: b₃ :: b₄ :: b₅ ::
      b₆ :: b₇ :: d) = some p := by
    rw [programOf, if_pos hqpid, hprogs, Option.bind_some, hwanted]
    rfl
  have hfew : (wanted serviceId progs).length ≤ 41 := by rw [hwanted, List.length_singleton]; omega
  have hfrom : programs ((h₀ :: h₁ :: h₂ :: h₃ :: h₄ :: b₀ :: b₁ :: b₂ :: b₃ :: b₄ :: b₅ :: b₆ :: b₇ ::
      d) ++ more) = some progs := programs_append hprogs
  change programs ([h₀, h₁, h₂, h₃, h₄] ++ b₀ :: b₁ :: b₂ :: b₃ :: b₄ :: b₅ :: b₆ :: b₇ ::
    (d ++ more)) = some progs at hfrom
  have hnone : (splitStartup (toString serviceId).toList arib).pat = none := rfl
  have heq := analyzePat_eq hnone rfl rfl hfrom hpids hmany hfew
  have hplace := (fits_of_mem hprogs
    (wanted_sublist.subset (hwanted ▸ List.mem_singleton_self p))).length
  set q := h₀ :: h₁ :: h₂ :: h₃ :: h₄ :: b₀ :: b₁ :: b₂ :: b₃ :: b₄ :: b₅ :: b₆ :: b₇ :: d with hq'
  have hbytes : p.bytes (q ++ more) = p.bytes q := by
    rw [Program.bytes, Program.bytes, List.drop_append_of_le_length (by omega),
      List.take_append_of_le_length (by rw [List.length_drop]; omega)]
  have hpat : patOf p q = [h₀, h₁, h₂, h₃, h₄] ++ (appendCrc (patSection b₀ b₁ b₃ b₄ b₅ b₆ b₇
      (q ++ more) (byPid [p])) ++ List.replicate (lengthPacket - (21 + 4 * [p].length)) 0xff) := by
    have hsorted : byPid [p] = [p] := by rw [byPid, List.mergeSort_singleton]
    rw [hsorted, patSection, List.flatMap_singleton, hbytes]
    rfl
  have hbuf : [h₀, h₁, h₂, h₃, h₄] ++ b₀ :: b₁ :: b₂ :: b₃ :: b₄ :: b₅ :: b₆ :: b₇ :: (d ++ more) =
      q ++ more := rfl
  rw [hbuf, hwanted, ← hpat] at heq
  have hlength : (patOf p q).length = lengthPacket := by
    have hrest : (p.bytes q).length = 4 := by
      rw [Program.bytes, List.length_take, List.length_drop]
      omega
    simp only [patOf, appendCrc, List.length_append, List.length_take, List.length_drop,
      List.length_set, List.length_cons, List.length_nil, List.length_replicate, hrest, crcBytes]
    have hqlen : q.length = 188 := hqlen
    show _ = 188
    omega
  refine ⟨p, _, hone, hpid, heq, {
    pat := rfl
    length := hlength
    count := rfl
    retain := rfl
    counter := rfl
    version := by
      show [(⟨p.pid, none⟩ : PmtVersion)] = _
      rw [hpid]
    pmtPids := fun i => by simp only [List.map_singleton, List.mem_singleton, hpid, splitStartup]
    pids := fun i => by simp only [List.map_singleton, List.mem_singleton, hpid, splitStartup]
    remain := fun _ => rfl
    arib := rfl }⟩

/-! ### The PMT -/

namespace Waits

theorem isReady (h : Waits pid arib table sp) : isReady sp = false := by
  rw [Tssplitter.isReady, h.counter, h.retain]
  rfl

theorem analyzePat (h : Waits pid arib table sp) (p : List UInt8) : analyzePat sp p = some sp := by
  rw [Tssplitter.analyzePat, h.pat]

/-- **A PMT of the service is found.** -/
theorem readPmt_of_start (h : Waits pid arib table sp) (hq : IsPmtPacket pid q t)
    (more : List UInt8) : ∃ sp', readPmt sp (q ++ more) pid = some (sp', Stage.blank q ++ more) ∧
      Tracks pid arib ⟨versionByte t, pid :: splitPids t, table, 0xff⟩ sp' := by
  obtain ⟨b₃, hanalyze⟩ := analyzePmt_eq hq sp 1 more
  have hlen : q.length = 188 := hq.length
  have hblank : ((q ++ more).set 1 0xff).set 2 0xff = Stage.blank q ++ more := by
    rw [List.set_append_left _ _ (by omega), List.set_append_left _ _ (by rw [List.length_set]; omega),
      Stage.blank]
  refine ⟨{ analyzed sp pid t 1 b₃ with
    pmtPids := Function.update (analyzed sp pid t 1 b₃).pmtPids pid
      ((analyzed sp pid t 1 b₃).pmtPids pid + 1)
    pmtCounter := (analyzed sp pid t 1 b₃).pmtCounter + 1 }, ?_, {
      pat := h.pat
      count := h.count
      length := h.length
      retain := h.retain
      counter := by
        show sp.pmtCounter + 1 = 1
        rw [h.counter]
        rfl
      version := by
        show sp.pmtVersion.map _ = _
        simp [h.version]
      pmtPids := ?_
      pids := ?_
      arib := h.arib }⟩
  · rw [readPmt, hanalyze, Option.bind_eq_bind, Option.bind_some]
    simp only [if_true, hblank, Option.pure_def]
  · intro i
    show Function.update sp.pmtPids pid (sp.pmtPids pid + 1) i = _
    rw [Function.update_apply, h.pmtPids, h.pmtPids, if_pos rfl]
    by_cases hi : i = pid
    · rw [if_pos hi, if_pos hi]
      rfl
    · rw [if_neg hi, if_neg hi, if_neg hi]
  · intro i
    show markAll 1 (splitPids t ++ if (1 : UInt8) = 1 then [] else sp.aribPids) sp.pids i = _
    rw [if_pos rfl, List.append_nil, markAll, h.pids]
    by_cases hi : i = pid <;> by_cases hl : i ∈ splitPids t <;> simp [hi, hl]

theorem readPmt_of_middle (h : Waits pid arib table sp) (hlen : q.length = lengthPacket)
    (hpid : getPid q 1 = some pid) (hstart : ¬ (q.getD 1 0) &&& 0x40 ≠ 0) (more : List UInt8) :
    readPmt sp (q ++ more) pid = some (sp, q ++ more) := by
  obtain ⟨h₀, h₁, h₂, h₃, h₄, b₀, b₁, b₂, b₃, b₄, b₅, b₆, b₇, d, rfl⟩ := exists_of_length hlen
  have hstart : ¬ h₁ &&& 0x40 ≠ 0 := hstart
  have hread : getPid (h₀ :: h₁ :: h₂ :: h₃ :: h₄ :: b₀ :: b₁ :: b₂ :: b₃ :: b₄ :: b₅ :: b₆ :: b₇ ::
      d ++ more) 1 = some pid := hpid
  have hone : (h₀ :: h₁ :: h₂ :: h₃ :: h₄ :: b₀ :: b₁ :: b₂ :: b₃ :: b₄ :: b₅ :: b₆ :: b₇ ::
      d ++ more)[1]? = some h₁ := rfl
  have hthree : (h₀ :: h₁ :: h₂ :: h₃ :: h₄ :: b₀ :: b₁ :: b₂ :: b₃ :: b₄ :: b₅ :: b₆ :: b₇ ::
      d ++ more)[3]? = some h₃ := rfl
  have hfail : ¬ Result.error = Result.success := by decide
  simp only [readPmt, analyzePmt, hread, hone, hthree, Option.bind_eq_bind, Option.bind_some,
    if_neg hstart, h.remain, if_true, Option.pure_def, if_neg hfail]

end Waits

/-! ### The buffers -/

theorem isStreamPacket_blank (hpid : pid ≠ 0x1fff) (hq : q.length = lengthPacket) :
    IsStreamPacket pid (Stage.blank q) := by
  obtain ⟨h₀, h₁, h₂, h₃, h₄, b₀, b₁, b₂, b₃, b₄, b₅, b₆, b₇, d, rfl⟩ := exists_of_length hq
  refine ⟨?_, fun hblank => ?_⟩
  · rw [Stage.blank, List.length_set, List.length_set, hq]
  · have hnull : getPid (Stage.blank (h₀ :: h₁ :: h₂ :: h₃ :: h₄ :: b₀ :: b₁ :: b₂ :: b₃ :: b₄ :: b₅ ::
        b₆ :: b₇ :: d)) 1 = some 0x1fff := rfl
    exact absurd (Option.some.inj (hblank.symm.trans hnull)) hpid

namespace InStage

theorem isReady {m : Stage} (h : InStage serviceId pid arib m sp) : isReady sp = m.isSelected := by
  cases m with
  | start =>
    obtain rfl : sp = splitStartup (toString serviceId).toList arib := h
    rfl
  | pat pid' table => exact h.2.isReady
  | selected pid' s => exact h.2.isReady

/-- **A packet is looked at**, before the service has been found. -/
theorem readPacket {m : Stage} (h : InStage serviceId pid arib m sp) (hm : m.isSelected = false)
    (hpid : 0 < pid) (hq : IsServicePacket serviceId pid q) (more : List UInt8) :
    ∃ sp', readPacket sp (q ++ more) = some (sp',
        (if (m.look serviceId q).isSelected then Stage.blank q else q) ++ more) ∧
      InStage serviceId pid arib (m.look serviceId q) sp' := by
  obtain ⟨i, hi⟩ : ∃ i, getPid q 1 = some i := by
    obtain ⟨h₀, h₁, h₂, h₃, h₄, b₀, b₁, b₂, b₃, b₄, b₅, b₆, b₇, d, rfl⟩ := exists_of_length hq.length
    exact ⟨_, rfl⟩
  have hread : getPid (q ++ more) 1 = some i := by
    have hlen : q.length = 188 := hq.length
    rw [getPid, List.getElem?_append_left (by omega), List.getElem?_append_left (by omega)]
    exact hi
  have hzero : ¬ (0 : UInt8) = 1 := by decide
  cases m with
  | selected pid' s => cases hm
  | start =>
    obtain rfl : sp = splitStartup (toString serviceId).toList arib := h
    by_cases hpat : i = 0
    · obtain ⟨p, sp₁, hprogram, rfl, hanalyze, hwaits⟩ :=
        analyzePat_start (hq.pat (hi.trans (congrArg some hpat))) more
      have hnone : ¬ sp₁.pmtPids 0 = 1 := by
        rw [hwaits.pmtPids, if_neg (by omega)]
        exact hzero
      have hlook : Stage.start.look serviceId q = .pat p.pid (patOf p q) := by
        rw [Stage.look, hprogram]
      rw [hlook]
      refine ⟨sp₁, ?_, rfl, hwaits⟩
      simp only [Tssplitter.readPacket, hread, hpat, Option.bind_eq_bind, Option.bind_some, if_true,
        hanalyze, if_neg hnone, Option.pure_def, Stage.isSelected, Bool.false_eq_true, if_false]
    · have hprogram : programOf serviceId q = none := by
        rw [programOf, if_neg (by rw [hi]; simpa using hpat)]
      have hlook : Stage.start.look serviceId q = .start := by rw [Stage.look, hprogram]
      have hnone : ¬ (splitStartup (toString serviceId).toList arib).pmtPids i = 1 := hzero
      rw [hlook]
      refine ⟨_, ?_, rfl⟩
      simp only [Tssplitter.readPacket, hread, Option.bind_eq_bind, Option.bind_some, if_neg hpat,
        if_neg hnone, Option.pure_def, Stage.isSelected, Bool.false_eq_true, if_false]
  | pat pid' table =>
    obtain ⟨rfl, hwaits⟩ := h
    have hturn : Tssplitter.readPacket sp (q ++ more) =
        if sp.pmtPids i = 1 then readPmt sp (q ++ more) i else some (sp, q ++ more) := by
      simp only [Tssplitter.readPacket, hread, Option.bind_eq_bind, Option.bind_some,
        hwaits.analyzePat, ite_self, Option.pure_def]
    by_cases hip : i = pid'
    · have hone : sp.pmtPids i = 1 := by rw [hwaits.pmtPids, if_pos hip]
      have hpid' := hi.trans (congrArg some hip)
      by_cases hstart : (q.getD 1 0) &&& 0x40 ≠ 0
      · obtain ⟨t, ht⟩ := hq.pmt hpid' hstart
        obtain ⟨sp', hpmt, htracks⟩ := hwaits.readPmt_of_start ht more
        have hlook : (Stage.pat pid' table).look serviceId q =
            .selected pid' ⟨versionByte t, pid' :: splitPids t, table, 0xff⟩ := by
          rw [Stage.look, pmtOf_eq ht]
        rw [hturn, if_pos hone, hip, hpmt, hlook]
        exact ⟨sp', rfl, rfl, htracks⟩
      · have hlook : (Stage.pat pid' table).look serviceId q = .pat pid' table := by
          rw [Stage.look, pmtOf_of_start hstart]
        rw [hturn, if_pos hone, hip, hwaits.readPmt_of_middle hq.length hpid' hstart, hlook]
        exact ⟨sp, rfl, rfl, hwaits⟩
    · have hnone : ¬ sp.pmtPids i = 1 := by
        rw [hwaits.pmtPids, if_neg hip]
        exact hzero
      have hlook : (Stage.pat pid' table).look serviceId q = .pat pid' table := by
        rw [Stage.look, pmtOf_of_ne (by rw [hi]; simpa using hip)]
      rw [hturn, if_neg hnone, hlook]
      exact ⟨sp, rfl, rfl, hwaits⟩

/-- **The service is looked for in a buffer.** -/
theorem readLoop {m : Stage} (h : InStage serviceId pid arib m sp) (hm : m.isSelected = false)
    (hpid : 0 < pid) {packets : List (List UInt8)}
    (hpackets : ∀ q ∈ packets, IsServicePacket serviceId pid q) {fuel : ℕ}
    (hfuel : packets.length ≤ fuel) :
    ∃ sp', readLoop fuel sp packets.flatten =
        some (if (m.scan serviceId packets).1.isSelected then .success else .error, sp',
          (m.scan serviceId packets).2.flatten) ∧
      InStage serviceId pid arib (m.scan serviceId packets).1 sp' := by
  induction packets generalizing m sp fuel with
  | nil =>
    refine ⟨sp, ?_, h⟩
    rw [Stage.scan, hm]
    cases fuel with
    | zero => rfl
    | succ fuel =>
      have hempty : ([] : List (List UInt8)).flatten.length ≤ lengthPacket := Nat.zero_le _
      rw [Tssplitter.readLoop, if_pos hempty]
      rfl
  | cons q packets ih =>
    obtain ⟨k, rfl⟩ := Nat.exists_eq_succ_of_ne_zero (Nat.ne_of_gt (Nat.lt_of_lt_of_le
      (Nat.zero_lt_succ _) hfuel))
    obtain ⟨hq, hpackets⟩ := List.forall_mem_cons.mp hpackets
    cases packets with
    | nil =>
      refine ⟨sp, ?_, h⟩
      have hlast : [q].flatten.length ≤ lengthPacket := by
        rw [List.flatten_singleton, hq.length]
      rw [Stage.scan, hm, Tssplitter.readLoop, if_pos hlast]
      rfl
    | cons q' packets =>
      obtain ⟨sp₁, hturn, h₁⟩ := h.readPacket hm hpid hq (q' :: packets).flatten
      have hmore : ¬ (q :: q' :: packets).flatten.length ≤ lengthPacket := by
        have hq' := (hpackets q' List.mem_cons_self).length
        rw [List.flatten_cons, List.flatten_cons, List.length_append, List.length_append, hq.length, hq']
        show ¬ 188 + (188 + _) ≤ 188
        omega
      rw [Tssplitter.readLoop, if_neg hmore, List.flatten_cons, hturn, Option.bind_eq_bind,
        Option.bind_some, Stage.scan]
      cases hfound : (m.look serviceId q).isSelected with
      | true =>
        simp only [h₁.isReady, hfound, if_true, Option.pure_def]
        exact ⟨sp₁, rfl, h₁⟩
      | false =>
        obtain ⟨sp', hloop, h'⟩ := ih h₁ hfound hpackets (Nat.succ_le_succ_iff.mp hfuel)
        rw [List.flatten_cons] at hloop
        simp only [h₁.isReady, hfound, Bool.false_eq_true, if_false, Option.pure_def,
          List.drop_left' hq.length, List.take_left' hq.length, hloop, Option.bind_eq_bind,
          Option.bind_some, List.flatten_cons]
        exact ⟨sp', rfl, h'⟩

end InStage

theorem length_flatten {packets : List (List UInt8)} (h : ∀ q ∈ packets, q.length = lengthPacket) :
    packets.flatten.length = lengthPacket * packets.length := by
  induction packets with
  | nil => rfl
  | cons q packets ih =>
    obtain ⟨hq, h⟩ := List.forall_mem_cons.mp h
    rw [List.flatten_cons, List.length_append, hq, ih h, List.length_cons]
    show 188 + 188 * _ = 188 * _
    omega

/-- The packets that are split off are those of the buffer, the PMT apart that has been found. -/
theorem isStreamPacket_scan (hpid : pid ≠ 0x1fff) {packets : List (List UInt8)} {m : Stage}
    (hpackets : ∀ q ∈ packets, IsServicePacket serviceId pid q) :
    (m.scan serviceId packets).2.length = packets.length ∧
      ∀ q ∈ (m.scan serviceId packets).2, IsStreamPacket pid q := by
  induction packets generalizing m with
  | nil => exact ⟨rfl, fun q hq => absurd hq List.not_mem_nil⟩
  | cons q packets ih =>
    obtain ⟨hq, hpackets⟩ := List.forall_mem_cons.mp hpackets
    cases packets with
    | nil => exact ⟨rfl, List.forall_mem_singleton.mpr hq.toIsStreamPacket⟩
    | cons q' packets =>
      rw [Stage.scan]
      split
      · exact ⟨rfl, List.forall_mem_cons.mpr ⟨isStreamPacket_blank hpid hq.length,
          fun q hq => (hpackets q hq).toIsStreamPacket⟩⟩
      · obtain ⟨hlen, hall⟩ := ih (m := m.look serviceId q) hpackets
        exact ⟨congrArg (· + 1) hlen, List.forall_mem_cons.mpr ⟨hq.toIsStreamPacket, hall⟩⟩

theorem Tracks.splitTs {s : Selection} (h : Tracks pid arib s sp) {packets : List (List UInt8)}
    (hpackets : ∀ q ∈ packets, IsStreamPacket pid q) {capacity : ℕ}
    (hroom : packets.flatten.length ≤ capacity) :
    ∃ r sp', splitTs sp packets.flatten capacity = some (r, sp', (s.run pid arib packets).2.flatten) ∧
      Tracks pid arib (s.run pid arib packets).1 sp' := by
  have hlen := length_flatten fun q hq => (hpackets q hq).length
  have hfuel : packets.length ≤ packets.flatten.length := by
    rw [hlen]
    show _ ≤ 188 * _
    omega
  have hroom : ([] : List UInt8).length + lengthPacket * packets.length ≤ capacity := by
    rw [List.length_nil, Nat.zero_add, ← hlen]
    exact hroom
  obtain ⟨sp', v', r', hloop, h'⟩ := h.splitLoop hpackets (v := some 0) (r := .success) hroom hfuel
  refine ⟨r', sp', ?_, h'⟩
  rw [Tssplitter.splitTs, hloop]
  rfl

/-- The process has found the service if it is so far. -/
structure Follows (serviceId pid : ℕ) (arib : List ℕ) (m : Stage) (s : Process) : Prop where
  stage : InStage serviceId pid arib m s.splitter
  state : s.selectState = .success ↔ m.isSelected = true

/-- **What becomes of a buffer.** -/
theorem Follows.process {m : Stage} {s : Process} (h : Follows serviceId pid arib m s)
    (hzero : 0 < pid) (hnull : pid ≠ 0x1fff) {packets : List (List UInt8)}
    (hpackets : ∀ q ∈ packets, IsServicePacket serviceId pid q) :
    ∃ s' out, process s packets.flatten = some (s', out) ∧
      out.getD [] = (m.feed serviceId arib packets).2.flatten ∧
      Follows serviceId pid arib (m.feed serviceId arib packets).1 s' := by
  have hstream : ∀ q ∈ packets, IsStreamPacket pid q := fun q hq => (hpackets q hq).toIsStreamPacket
  rw [Stage.feed]
  cases hm : m.isSelected with
  | true =>
    cases m with
    | start => cases hm
    | pat pid' table => cases hm
    | selected pid' s₀ =>
      obtain ⟨rfl, htracks⟩ := h.stage
      obtain ⟨r, sp', hsplit, h'⟩ := htracks.splitTs hstream
        (Nat.le_max_right s.bufferSize packets.flatten.length)
      refine ⟨⟨sp', .success, max s.bufferSize packets.flatten.length⟩,
        some (s₀.run pid' arib packets).2.flatten, ?_, rfl, ⟨rfl, h'⟩, ?_⟩
      · simp only [Tssplitter.process, if_pos (h.state.mpr hm), hsplit, Option.bind_eq_bind,
          Option.bind_some, if_true, Option.pure_def]
      · exact iff_of_true rfl rfl
  | false =>
    have hfail : ¬ Result.error = Result.success := by decide
    have hlooks : ¬ s.selectState = .success := fun hs => Bool.noConfusion (hm ▸ h.state.mp hs)
    have hfuel : packets.length ≤ packets.flatten.length := by
      rw [length_flatten fun q hq => (hstream q hq).length]
      show _ ≤ 188 * _
      omega
    obtain ⟨sp₁, hread, h₁⟩ := h.stage.readLoop hm hzero hpackets hfuel
    obtain ⟨hlen, hscan⟩ := isStreamPacket_scan (m := m) hnull hpackets
    have hsize : (m.scan serviceId packets).2.flatten.length = packets.flatten.length := by
      rw [length_flatten fun q hq => (hscan q hq).length, hlen,
        length_flatten fun q hq => (hstream q hq).length]
    rw [if_neg Bool.false_ne_true]
    revert hread h₁ hscan hsize
    generalize m.scan serviceId packets = scanned
    intro hread h₁ hscan hsize
    obtain ⟨m₁, packets₁⟩ := scanned
    cases m₁ with
    | selected pid' s₀ =>
      obtain ⟨rfl, htracks⟩ := h₁
      obtain ⟨r, sp', hsplit, h'⟩ := htracks.splitTs hscan
        (hsize.le.trans (Nat.le_max_right s.bufferSize packets.flatten.length))
      refine ⟨⟨sp', .success, max s.bufferSize packets.flatten.length⟩,
        some (s₀.run pid' arib packets₁).2.flatten, ?_, rfl, ⟨rfl, h'⟩, ?_⟩
      · simp only [Tssplitter.process, if_neg hlooks, readTs, hread, hsplit, Option.bind_eq_bind,
          Option.bind_some, Stage.isSelected, if_true, Option.pure_def]
      · exact iff_of_true rfl rfl
    | start =>
      refine ⟨⟨sp₁, .error, max s.bufferSize packets.flatten.length⟩, none, ?_, rfl, h₁, ?_⟩
      · simp only [Tssplitter.process, if_neg hlooks, readTs, hread, Option.bind_eq_bind,
          Option.bind_some, Stage.isSelected, Bool.false_eq_true, if_false, Option.pure_def]
        rfl
      · exact iff_of_false hfail Bool.false_ne_true
    | pat pid' table =>
      refine ⟨⟨sp₁, .error, max s.bufferSize packets.flatten.length⟩, none, ?_, rfl, h₁, ?_⟩
      · simp only [Tssplitter.process, if_neg hlooks, readTs, hread, Option.bind_eq_bind,
          Option.bind_some, Stage.isSelected, Bool.false_eq_true, if_false, Option.pure_def]
        rfl
      · exact iff_of_false hfail Bool.false_ne_true

/-- **What becomes of buffers.** -/
theorem Follows.processAll {m : Stage} {s : Process} (h : Follows serviceId pid arib m s)
    (hzero : 0 < pid) (hnull : pid ≠ 0x1fff) {buffers : List (List (List UInt8))}
    (hbuffers : ∀ l ∈ buffers, ∀ q ∈ l, IsServicePacket serviceId pid q) :
    ∃ s', processAll s (buffers.map List.flatten) = some (s', (m.feedAll serviceId arib buffers).2.flatten) ∧
      Follows serviceId pid arib (m.feedAll serviceId arib buffers).1 s' := by
  induction buffers generalizing m s with
  | nil => exact ⟨s, rfl, h⟩
  | cons l buffers ih =>
    obtain ⟨hl, hbuffers⟩ := List.forall_mem_cons.mp hbuffers
    obtain ⟨s₁, out, hprocess, hout, h₁⟩ := h.process hzero hnull hl
    obtain ⟨s', hall, h'⟩ := ih h₁ hbuffers
    refine ⟨s', ?_, h'⟩
    rw [List.map_cons, Tssplitter.processAll, hprocess, Option.bind_eq_bind, Option.bind_some]
    simp only [hall, Option.bind_eq_bind, Option.bind_some, Option.pure_def, hout, Stage.feedAll,
      List.flatten_append]

end Stages

/-- **The service that is asked for is found and split off.** From the constructor on, over any number
of buffers: nothing is put out before a PAT and then a PMT of the service have been met, the last packet
of a buffer apart; then the buffer with this PMT is put out from its beginning, with the PAT that has
only the service, the packets of the PMT and of the PIDs that it has, and so is all that follows, with
the PIDs of the PMT that has come last in another version. -/
theorem process_selects (serviceId : UInt16) (arib : List ℕ) {pid : ℕ} (hzero : 0 < pid)
    (hnull : pid ≠ 0x1fff) (buffers : List (List (List UInt8)))
    (hbuffers : ∀ l ∈ buffers, ∀ q ∈ l, IsServicePacket serviceId.toNat pid q) :
    ∃ s', processAll (Process.init serviceId arib) (buffers.map List.flatten) =
      some (s', (Stage.start.feedAll serviceId.toNat arib buffers).2.flatten) := by
  have hinit : Follows serviceId.toNat pid arib .start (Process.init serviceId arib) :=
    ⟨rfl, iff_of_false (fun h : Result.error = .success => Result.noConfusion h) Bool.false_ne_true⟩
  obtain ⟨s', hall, -⟩ := hinit.processAll hzero hnull hbuffers
  exact ⟨s', hall⟩

/-- A PAT with the service 1024 under the PID 0x1f0, and another one. -/
def patPacket : List UInt8 :=
  [0x47, 0x40, 0x00, 0x10, 0x00, 0x00, 0xb0, 0x15, 0x7f, 0xe0, 0xc1, 0x00, 0x00] ++
    twoPrograms ++ List.replicate 159 0xff

/-- A PMT of this service, with one stream. -/
def pmtPacket : List UInt8 :=
  [0x47, 0x41, 0xf0, 0x10, 0x00, 0x02, 0xb0, 0x15, 0x04, 0x00, 0xc1, 0x00, 0x00, 0xe1, 0x00, 0xf0, 0x00,
    0x02, 0xe1, 0x00, 0xf0, 0x03, 0x52, 0x01, 0x00, 0x00, 0x00, 0x00, 0x00] ++ List.replicate 159 0xff

/-- A packet of the stream. -/
def esPacket : List UInt8 := [0x47, 0x01, 0x00, 0x10] ++ List.replicate 184 0x00

set_option maxRecDepth 4096 in
theorem isServicePacket_pat : IsServicePacket 1024 0x1f0 patPacket := {
  length := by decide
  pmt := fun h => absurd h (by decide)
  pat := fun h => {
    length := by decide
    zero := h
    programs := ⟨[⟨17, 1024, 0x1f0⟩, ⟨21, 1025, 0x1f1⟩], ⟨17, 1024, 0x1f0⟩, by decide, by decide,
      by decide, by decide, rfl⟩ } }

set_option maxRecDepth 4096 in
theorem isServicePacket_pmt : IsServicePacket 1024 0x1f0 pmtPacket := {
  length := by decide
  pmt := fun h _ => ⟨⟨(Sect.first (pmtPacket.drop 5)).hdr, 0x100, 0, [], [⟨2, 0x100, 3, [⟨0x52, 1, [0]⟩]⟩]⟩, {
    length := by decide
    pid := h
    start := ⟨0x41, rfl, by decide⟩
    pointer := rfl
    long := by decide
    parse := rfl
    whole := by decide
    filled := ⟨rfl, List.forall_mem_singleton.mpr rfl⟩ }⟩
  pat := fun h => absurd h (by decide) }

set_option maxRecDepth 4096 in
theorem isServicePacket_es : IsServicePacket 1024 0x1f0 esPacket := {
  length := by decide
  pmt := fun h => absurd h (by decide)
  pat := fun h => absurd h (by decide) }

theorem process_selects_stream : ∃ s',
    processAll (Process.init 1024 []) ([[patPacket, esPacket, pmtPacket, esPacket], [esPacket]].map
      List.flatten) = some (s', (Stage.start.feedAll (1024 : UInt16).toNat []
        [[patPacket, esPacket, pmtPacket, esPacket], [esPacket]]).2.flatten) := by
  have hzero : 0 < 0x1f0 := by decide
  refine process_selects 1024 [] hzero (by decide) _ ?_
  refine List.forall_mem_cons.mpr ⟨?_, List.forall_mem_singleton.mpr
    (List.forall_mem_singleton.mpr isServicePacket_es)⟩
  exact List.forall_mem_cons.mpr ⟨isServicePacket_pat, List.forall_mem_cons.mpr ⟨isServicePacket_es,
    List.forall_mem_cons.mpr ⟨isServicePacket_pmt, List.forall_mem_singleton.mpr isServicePacket_es⟩⟩⟩

end Tssplitter

end AutoRec
