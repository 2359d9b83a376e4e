import AutoRec.Parser.Schedule
import AutoRec.Parser.TsParser
import AutoRec.Psisi.Caches
import AutoRec.Tuner.Control

/-!
# The psisi manager

`manager` (`psisi_manager/psisi_manager.cpp`, `psisi_manager/psisi_manager.h`), without
`_DUMMY_TUNER`: the parsers, the caches, the flags and the stabilization sequences. Logging, the
notices to other modules, the logos, the dumps of the tables and the requests that only read are left
out. A step goes from one wait of a sequence to the next one.

* `PsisiManager`: the state.
* `ParserNotice`, `onParserNotice`: a packet.
* `clearParsers`, `pollStabilization`, `onStabilizationAfterTuning`: the sequences that a tuning
  starts.
* `onReceiveNotify`: what the tuner control says; `checkPat`, `checkFollow`: the two halves of
  `on_check_loop`.
* `PsisiOp`, `PsisiManager.step`: the steps.
-/

namespace AutoRec

/-- `psisi_state`. -/
inductive PsisiState
  | ready
  | notReady
deriving DecidableEq, Repr

/-- `_section_comp_flag`: 0, 1 and 2. -/
inductive SectionCompFlag
  | cleared
  | updated
  | completed
deriving DecidableEq, Repr

/-- `_section_comp_flag::check_update`. -/
def SectionCompFlag.checkUpdate (isNewSection : Bool) (flag : SectionCompFlag) : SectionCompFlag :=
  if isNewSection then if flag = .cleared then .updated else flag
  else if flag = .updated then .completed else flag

/-- Where `on_stabilization_after_tuning` waits: for the 200 ms, or in the turn `i` of its loop. -/
inductive Stabilization
  | waiting
  | polling (i : ℕ)
deriving DecidableEq, Repr

/-- The `psisi_type` of a notice. -/
inductive PsisiType
  | pat
  | pmt
  | nit
  | sdt
  | cat
  | cdt
  | eitHPf
deriving DecidableEq, Repr

/-- `_parser_notice`, with the memory behind the sections that it completes in the parser of its type
and in `mEIT_H_sched`, and the time. -/
structure ParserNotice where
  type : PsisiType
  pid : UInt16
  packet : Bool × List UInt8
  size_le : packet.2.length ≤ tsPacketLen
  behind : ℕ → List UInt8
  behindSched : ℕ → List UInt8
  now : ℤ

/-- `check_section`, of a parser with the tables of the class `C`. -/
def ParserNotice.check {α : Type} (n : ParserNotice) (C : TableClass α)
    (s : SectionParser (TableStore α)) : Option (CheckSection × SectionParser (TableStore α)) :=
  s.checkSection (C.hooks n.behind) n.packet.1 n.packet.2

/-- `manager`. The stabilization sequences are numbered; `started` of them have been started. -/
structure PsisiManager where
  mPAT : SectionParser (TableStore ProgramAssociationTable)
  mEITH : SectionParser (TableStore EventInformationTable)
  mEITHSched : SectionParser (TableStore EventInformationTable)
  mNIT : SectionParser (TableStore NetworkInformationTable)
  mSDT : SectionParser (TableStore ServiceDescriptionTable)
  mCAT : SectionParser (TableStore ConditionalAccessTable)
  mCDT : SectionParser (TableStore CommonDataTable)
  programMap : ProgramMap
  patRecvTime : Etime
  programInfos : List ProgramInfo
  serviceInfos : List ServiceInfo
  eventPfInfos : List EventPfInfo
  networkInfo : Option NetworkInfo
  eitHCompFlag : SectionCompFlag
  nitCompFlag : SectionCompFlag
  sdtCompFlag : SectionCompFlag
  tunerIsTuned : Bool
  isDetectedPAT : Bool
  state : PsisiState
  isEnableEITSched : Bool
  stabilizations : List (ℕ × Stabilization)
  started : ℕ

/-- The caches that `on_dump_caches` dumps. -/
inductive CacheType
  | programs
  | services
  | events
  | network
deriving DecidableEq, Repr

/-- The steps. -/
inductive PsisiOp
  | parserNotice (n : ParserNotice)
  | receiveNotify (state : TunerState)
  /-- The wait of the stabilization sequence `id` is over. -/
  | stabilization (id : ℕ) (isShutdownRequested : Bool)
  | checkPat (now : ℤ)
  | checkFollow (now : ℤ)
  | enableParseEitSched
  | disableParseEitSched
  /-- `clear` of `mEIT_H_sched`, which the event schedule manager has been given. -/
  | clearSched
  | dumpCaches (cache : CacheType)

/-- `program_map_.clear`, and `program_map_.add` for the programs with a number. -/
def ProgramMap.ofPrograms (programs : List PatProgram) : ProgramMap := fun pid =>
  if programs.any fun p => p.programNumber ≠ 0 && p.programMapPID == pid then
    some (.create 4096 0 .psisi .empty)
  else none

namespace PsisiManager

/-- The constructor. -/
def init : PsisiManager where
  mPAT := .create 4096 16 .psisi .empty
  mEITH := .create 409600 100 .psisi .empty
  mEITHSched := .create 409600 100 .psisi .empty
  mNIT := .create 4096 0 .psisi .empty
  mSDT := .create 4096 0 .psisi .empty
  mCAT := .create 4096 0 .psisi .empty
  mCDT := .create 409600 0 .psisi .empty
  programMap := fun _ => none
  patRecvTime := .clear
  programInfos := []
  serviceInfos := []
  eventPfInfos := []
  networkInfo := none
  eitHCompFlag := .cleared
  nitCompFlag := .cleared
  sdtCompFlag := .cleared
  tunerIsTuned := false
  isDetectedPAT := false
  state := .notReady
  isEnableEITSched := false
  stabilizations := []
  started := 0

variable (E : Conversions) (m : PsisiManager)

/-! ## A packet -/

/-- `clear_event_pf_infos`, `cache_event_pf_infos` and `check_event_pf_infos`. -/
def recacheEventPfInfos (now : ℤ) : PsisiManager :=
  { m with eventPfInfos := checkEventPfInfos now (cacheEventPfInfos E m.mEITH.ext m.serviceInfos) }

/-- `check_async_delete`, of all parsers. -/
def checkAsyncDelete : PsisiManager :=
  { m with
    mPAT := m.mPAT.checkAsyncDelete
    mEITH := m.mEITH.checkAsyncDelete
    mEITHSched := m.mEITHSched.checkAsyncDelete
    mNIT := m.mNIT.checkAsyncDelete
    mSDT := m.mSDT.checkAsyncDelete
    mCAT := m.mCAT.checkAsyncDelete
    mCDT := m.mCDT.checkAsyncDelete }

/-- A PAT. With a new one the parsers of the PMTs are made anew; without a table the last one is
read all the same. -/
def onPat (n : ParserNotice) : Option PsisiManager :=
  match n.check patClass m.mPAT with
  | none => none
  | some (r, s) =>
    let m := { m with mPAT := s, patRecvTime := .setCurrentTime n.now }
    if r = .completed then
      s.ext.tables.getLast?.map fun latest =>
        { m with
          programInfos := cacheProgramInfos s.ext m.programMap
          programMap := .ofPrograms latest.2.programs }
    else some m

/-- A PMT. -/
def onPmt (n : ParserNotice) : Option PsisiManager :=
  match m.programMap n.pid with
  | none => some m
  | some pmt =>
    match n.check pmtClass pmt with
    | none => none
    | some (r, s) =>
      let m := { m with programMap := fun pid => if pid = n.pid then some s else m.programMap pid }
      if r = .completed then
        some { m with programInfos := cacheProgramInfos m.mPAT.ext m.programMap }
      else some m

/-- A NIT. -/
def onNit (n : ParserNotice) : Option PsisiManager :=
  match n.check nitClass m.mNIT with
  | none => none
  | some (r, s) =>
    let m := { m with mNIT := s, nitCompFlag := m.nitCompFlag.checkUpdate (r == .completed) }
    if r = .completed then some { m with networkInfo := cacheNetworkInfo E s.ext } else some m

/-- An SDT. -/
def onSdt (n : ParserNotice) : Option PsisiManager :=
  match n.check sdtClass m.mSDT with
  | none => none
  | some (r, s) =>
    let m := { m with mSDT := s, sdtCompFlag := m.sdtCompFlag.checkUpdate (r == .completed) }
    if r = .completed then
      let m := { m with
        serviceInfos := cacheServiceInfos E true n.now s.ext (m.serviceInfos.map .clearAtTuning) }
      some (m.recacheEventPfInfos E n.now)
    else some m

/-- `mEIT_H_sched` is given the packet, if it is enabled. -/
def parseSched (n : ParserNotice) : Option PsisiManager :=
  if m.isEnableEITSched then
    (m.mEITHSched.checkSection (schedClass.hooks n.behindSched) n.packet.1 n.packet.2).map
      fun p => { m with mEITHSched := p.2 }
  else some m

/-- An EIT. -/
def onEit (n : ParserNotice) : Option PsisiManager :=
  match n.check eitClass m.mEITH with
  | none => none
  | some (r, s) =>
    let m := { m with mEITH := s, eitHCompFlag := m.eitHCompFlag.checkUpdate (r == .completed) }
    parseSched (if r = .completed then m.recacheEventPfInfos E n.now else m) n

/-- The parser of the type of the notice. -/
def parse (n : ParserNotice) : Option PsisiManager :=
  match n.type with
  | .pat => m.onPat n
  | .pmt => m.onPmt n
  | .cat => (n.check catClass m.mCAT).map fun p => { m with mCAT := p.2 }
  | .cdt => (n.check cdtClass m.mCDT).map fun p => { m with mCDT := p.2 }
  | .nit => m.onNit E n
  | .sdt => m.onSdt E n
  | .eitHPf => m.onEit E n

/-- `on_parser_notice`. -/
def onParserNotice (n : ParserNotice) : Option PsisiManager := m.checkAsyncDelete.parse E n

/-! ## The tuner -/

/-- `clear`, of a parser. -/
def clearParser {α : Type} (s : SectionParser (TableStore α)) : SectionParser (TableStore α) :=
  { s with ext := s.ext.releaseTables }.asyncDelete

/-- What `on_stabilization_after_tuning` clears. -/
def clearParsers : PsisiManager :=
  { m with
    mPAT := clearParser m.mPAT
    mEITH := clearParser m.mEITH
    mNIT := clearParser m.mNIT
    mSDT := clearParser m.mSDT
    mCAT := clearParser m.mCAT
    mCDT := clearParser m.mCDT
    eitHCompFlag := .cleared
    nitCompFlag := .cleared
    sdtCompFlag := .cleared }

/-- The sequence `id` waits again, or it is over. -/
def setStabilization (id : ℕ) (next : Option Stabilization) : PsisiManager :=
  { m with stabilizations := m.stabilizations.flatMap fun p =>
      if p.1 = id then next.toList.map (id, ·) else [p] }

/-- All three tables have come in. -/
def isCompleted : Bool :=
  m.eitHCompFlag == .completed && m.nitCompFlag == .completed && m.sdtCompFlag == .completed

/-- A turn of the loop. -/
def pollStabilization (id i : ℕ) (isShutdownRequested : Bool) : PsisiManager :=
  if m.isCompleted then { m with tunerIsTuned := true, state := .ready }.setStabilization id none
  else if i + 1 < 300 && !isShutdownRequested then m.setStabilization id (some (.polling (i + 1)))
  else m.setStabilization id none

/-- `on_stabilization_after_tuning`, behind a wait. -/
def onStabilizationAfterTuning (id : ℕ) (isShutdownRequested : Bool) : Option PsisiManager :=
  match m.stabilizations.lookup id with
  | none => none
  | some .waiting =>
    some (m.clearParsers.setStabilization id (if isShutdownRequested then none else some (.polling 0)))
  | some (.polling i) => some (m.pollStabilization id i isShutdownRequested)

/-- What `tuning_error_stop` and `tune_stop` have in common. -/
def stopTuning : PsisiManager :=
  { m with
    state := .notReady
    programInfos := []
    networkInfo := none
    serviceInfos := m.serviceInfos.map .clearAtTuning
    eventPfInfos := []
    tunerIsTuned := false
    isDetectedPAT := false }

/-- `on_receive_notify`. -/
def onReceiveNotify : TunerState → PsisiManager
  | .tuningBegin => { m with state := .notReady, tunerIsTuned := false }
  | .tuningSuccess =>
    { m with
      stabilizations := m.stabilizations ++ [(m.started, .waiting)]
      started := m.started + 1 }
  | .tuningErrorStop | .tuneStop => m.stopTuning

/-! ## The loop -/

/-- `on_check_loop`: whether the PAT still comes in. -/
def checkPat (now : ℤ) : PsisiManager :=
  if m.tunerIsTuned then
    { m with isDetectedPAT := !(Etime.setCurrentTime now).gt (m.patRecvTime.addSec 30) }
  else m

/-- `assign_follow_event_to_service_infos` and `check_follow_event_at_service_infos`. The events are
cached again for a service whose following event has begun long ago; that this is done while the
entries are gone through makes no difference to it. -/
def checkFollow (now : ℤ) : PsisiManager :=
  let services := m.serviceInfos.map (.assignFollowEvent now m.eventPfInfos)
  let m₁ := { m with serviceInfos := services }
  let m₂ :=
    if services.any fun s => s.followLate now then m₁.recacheEventPfInfos E now else m₁
  { m₂ with serviceInfos := services.map (.checkFollowEvent now) }

/-- The pointer is `NULL`, or a table of the parser is at its address. -/
def pointsInto {α : Type} (e : TableStore α) (p : Option ℕ) : Bool :=
  p.all fun a => e.tables.any fun t => t.1 == a

/-- `on_dump_caches`: the headers of the tables are read. -/
def onDumpCaches : CacheType → Option PsisiManager
  | .programs =>
    if m.programInfos.all fun i => pointsInto m.mPAT.ext i.pOrgTable then some m else none
  | .services =>
    if m.serviceInfos.all fun i => pointsInto m.mSDT.ext i.pOrgTable then some m else none
  | .events =>
    if m.eventPfInfos.all fun i => pointsInto m.mEITH.ext i.pOrgTable then some m else none
  | .network => some m

/-- The steps; `none` if the program reads what is not there. -/
def step : PsisiOp → Option PsisiManager
  | .parserNotice n => m.onParserNotice E n
  | .receiveNotify state => some (m.onReceiveNotify state)
  | .stabilization id isShutdownRequested => m.onStabilizationAfterTuning id isShutdownRequested
  | .checkPat now => some (m.checkPat now)
  | .checkFollow now => some (m.checkFollow E now)
  | .enableParseEitSched => some { m with isEnableEITSched := true }
  | .disableParseEitSched => some { m with isEnableEITSched := false }
  | .clearSched => some { m with mEITHSched := clearParser m.mEITHSched }
  | .dumpCaches cache => m.onDumpCaches cache

/-! ## What a notice does -/

variable {E m} {m' : PsisiManager} {n : ParserNotice}

theorem onPat_cases (h : m.onPat n = some m') : ∃ r s, n.check patClass m.mPAT = some (r, s) ∧
    ((r = .completed ∧ ∃ latest, s.ext.tables.getLast? = some latest ∧
        m' = { m with
          mPAT := s
          patRecvTime := .setCurrentTime n.now
          programInfos := cacheProgramInfos s.ext m.programMap
          programMap := .ofPrograms latest.2.programs }) ∨
      r ≠ .completed ∧ m' = { m with mPAT := s, patRecvTime := .setCurrentTime n.now }) := by
  unfold onPat at h
  split at h
  · cases h
  · rename_i r s hr
    refine ⟨r, s, hr, ?_⟩
    by_cases hc : r = .completed
    · rw [if_pos hc] at h
      obtain ⟨latest, hlatest, rfl⟩ := Option.map_eq_some_iff.mp h
      exact .inl ⟨hc, latest, hlatest, rfl⟩
    · rw [if_neg hc, Option.some.injEq] at h
      exact .inr ⟨hc, h.symm⟩

theorem onPmt_cases (h : m.onPmt n = some m') :
    m' = m ∨ ∃ map, m' = { m with programMap := map } ∨
      m' = { m with programMap := map, programInfos := cacheProgramInfos m.mPAT.ext map } := by
  unfold onPmt at h
  split at h
  · exact .inl (Option.some.inj h).symm
  · split at h
    · cases h
    · rename_i r s hr
      right
      refine ⟨fun pid => if pid = n.pid then some s else m.programMap pid, ?_⟩
      by_cases hc : r = .completed
      · rw [if_pos hc, Option.some.injEq] at h
        exact .inr h.symm
      · rw [if_neg hc, Option.some.injEq] at h
        exact .inl h.symm

theorem onNit_cases (h : m.onNit E n = some m') : ∃ r s, n.check nitClass m.mNIT = some (r, s) ∧
    m' = { m with
      mNIT := s
      nitCompFlag := m.nitCompFlag.checkUpdate (r == .completed)
      networkInfo := if r = .completed then cacheNetworkInfo E s.ext else m.networkInfo } := by
  unfold onNit at h
  split at h
  · cases h
  · rename_i r s hr
    refine ⟨r, s, hr, ?_⟩
    by_cases hc : r = .completed
    · rw [if_pos hc, Option.some.injEq] at h
      rw [if_pos hc]
      exact h.symm
    · rw [if_neg hc, Option.some.injEq] at h
      rw [if_neg hc]
      exact h.symm

theorem onSdt_cases (h : m.onSdt E n = some m') : ∃ r s, n.check sdtClass m.mSDT = some (r, s) ∧
    ((r = .completed ∧ m' = recacheEventPfInfos E { m with
        mSDT := s
        sdtCompFlag := m.sdtCompFlag.checkUpdate true
        serviceInfos :=
          cacheServiceInfos E true n.now s.ext (m.serviceInfos.map .clearAtTuning) } n.now) ∨
      r ≠ .completed ∧
        m' = { m with mSDT := s, sdtCompFlag := m.sdtCompFlag.checkUpdate false }) := by
  unfold onSdt at h
  split at h
  · cases h
  · rename_i r s hr
    refine ⟨r, s, hr, ?_⟩
    by_cases hc : r = .completed
    · subst hc
      exact .inl ⟨rfl, (Option.some.inj h).symm⟩
    · rw [if_neg hc, Option.some.injEq, beq_false_of_ne hc] at h
      exact .inr ⟨hc, h.symm⟩

theorem parseSched_cases (h : m.parseSched n = some m') : ∃ s, m' = { m with mEITHSched := s } := by
  unfold parseSched at h
  split at h
  · obtain ⟨p, -, rfl⟩ := Option.map_eq_some_iff.mp h
    exact ⟨p.2, rfl⟩
  · exact ⟨m.mEITHSched, (Option.some.inj h).symm⟩

theorem onEit_cases (h : m.onEit E n = some m') : ∃ r s s', n.check eitClass m.mEITH = some (r, s) ∧
    ((r = .completed ∧ m' = { recacheEventPfInfos E { m with
        mEITH := s
        eitHCompFlag := m.eitHCompFlag.checkUpdate true } n.now with mEITHSched := s' }) ∨
      r ≠ .completed ∧ m' = { m with
        mEITH := s
        mEITHSched := s'
        eitHCompFlag := m.eitHCompFlag.checkUpdate false }) := by
  unfold onEit at h
  split at h
  · cases h
  · rename_i r s hr
    obtain ⟨s', hs'⟩ := parseSched_cases h
    refine ⟨r, s, s', hr, ?_⟩
    by_cases hc : r = .completed
    · subst hc
      exact .inl ⟨rfl, hs'⟩
    · rw [if_neg hc, beq_false_of_ne hc] at hs'
      exact .inr ⟨hc, hs'⟩

theorem onStabilization_cases {id : ℕ} {down : Bool}
    (h : m.onStabilizationAfterTuning id down = some m') :
    (m.stabilizations.lookup id = some .waiting ∧
      m' = m.clearParsers.setStabilization id (if down then none else some (.polling 0))) ∨
    ∃ i, m.stabilizations.lookup id = some (.polling i) ∧ m' = m.pollStabilization id i down := by
  unfold onStabilizationAfterTuning at h
  split at h
  · cases h
  · rename_i hid
    exact .inl ⟨hid, (Option.some.inj h).symm⟩
  · rename_i i hid
    exact .inr ⟨i, hid, (Option.some.inj h).symm⟩

theorem onDumpCaches_eq {cache : CacheType} (h : m.onDumpCaches cache = some m') : m' = m := by
  unfold onDumpCaches at h
  split at h
  all_goals simp_all

end PsisiManager

/-! ## Inputs -/

theorem length_filledUp {b : List UInt8} (h : b.length ≤ tsPacketLen) :
    (filledUp b).length ≤ tsPacketLen := by
  have hlen : tsPacketLen = 188 := rfl
  rw [filledUp, List.length_append, List.length_replicate]
  omega

/-- A notice at 2023-01-01 00:00:01 in Japan, with nothing in memory behind the sections. -/
def noticeOf (type : PsisiType) (packet : Bool × List UInt8)
    (size_le : packet.2.length ≤ tsPacketLen) : PsisiOp :=
  .parserNotice ⟨type, 0, (packet.1, filledUp packet.2), length_filledUp size_le, fun _ => [],
    fun _ => [], 1672498801⟩

/-- The conversion of the date 2023-01-01 00:00:00. -/
def conversionsOfDate : Conversions := ⟨id, fun _ => 1672498800⟩

/-- A program. -/
def patFirst : List UInt8 := [0, 240, 13, 0, 4, 195, 0, 0, 4, 0, 225, 240, 48, 184, 23, 155]

/-- A network with one service, in the version 1. -/
def nitFirst : List UInt8 :=
  [64, 240, 24, 0, 4, 195, 0, 0, 240, 0, 240, 11, 0, 4, 0, 4, 240, 5, 65, 3, 4, 0, 1,
    119, 187, 32, 40]

/-- Two services. -/
def sdtFirst : List UInt8 :=
  [66, 240, 22, 0, 4, 195, 0, 0, 0, 4, 255, 4, 0, 225, 240, 0, 4, 1, 225, 240, 0, 220, 196, 248, 22]

/-- The present event of the first service, from 2023-01-01 00:00:00. -/
def eitPresent : List UInt8 :=
  [78, 240, 27, 4, 0, 195, 0, 1, 0, 4, 0, 4, 1, 78, 0, 7, 234, 41, 0, 0, 0, 0, 48, 0, 240, 0,
    23, 225, 201, 62]

theorem patFirst_size : (0 :: patFirst).length ≤ tsPacketLen := by decide

theorem nitFirst_size : (0 :: nitFirst).length ≤ tsPacketLen := by decide

theorem sdtFirst_size : (0 :: sdtFirst).length ≤ tsPacketLen := by decide

theorem eitPresent_size : (0 :: eitPresent).length ≤ tsPacketLen := by decide

end AutoRec
