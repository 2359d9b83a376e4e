import AutoRec.Command.Framing
import Mathlib.Logic.Function.Basic

/-!
# The tables of the commands

`common::stack` (`common/stack.h`), `command_info_t` (`command_server/command_tables.h`), and the
tables of this program (`command_server/command_tables.cpp`, and the `_commands.cpp` of the
modules). What the commands do is left out, but for whether they take over the connection.

* `Stack`: at most `STACK_DEPTH` pointers.
* `CommandInfo`, `Tables`: entries of commands and of other tables.
* `CommandTable`, `Command`, `commandTables`: the tables of this program.
-/

namespace AutoRec

namespace CommandServer

/-! ## The stack -/

/-- `STACK_DEPTH`. -/
abbrev stackDepth : ℕ := 16

/-- `stack`. -/
structure Stack (α : Type) where
  cell : ℕ → Option α
  sp : ℕ

namespace Stack

variable {α : Type}

/-- `clear`. -/
def clear : Stack α := ⟨fun _ => none, 0⟩

/-- `push`, of a pointer that is not null. -/
def push (s : Stack α) (a : α) : Stack α :=
  if s.sp = stackDepth then s else ⟨Function.update s.cell s.sp (some a), s.sp + 1⟩

/-- `pop`. -/
def pop (s : Stack α) : Option α × Stack α :=
  if s.sp = 0 then (none, s)
  else (s.cell (s.sp - 1), ⟨Function.update s.cell (s.sp - 1) none, s.sp - 1⟩)

/-- `peep`. -/
def peep (s : Stack α) : Option α := if s.sp = 0 then none else s.cell (s.sp - 1)

/-- `ref`. -/
def ref (s : Stack α) (i : ℕ) : Option α := if stackDepth ≤ i then none else s.cell i

end Stack

/-! ## Tables -/

/-- `command_info_t`, with the tables `T` and the callbacks `F`. -/
structure CommandInfo (T F : Type) where
  command : String
  desc : String
  cbCommand : Option F
  next : Option T
deriving DecidableEq

/-- Tables, one of which is `g_root_command_table`. Some commands take over the connection: they read
from it, or they close it. -/
structure Tables (T F : Type) where
  root : T
  entries : T → List (CommandInfo T F)
  takesOver : F → Bool

/-- The tables of this program. -/
inductive CommandTable
  | root
  | system
  | tunerControl
  | psisiManager
  | psisiManagerDumpTables
  | tunerService
  | recManager
  | channelManager
  | eventScheduleManager
  | eventSearch
  | viewingManager
deriving DecidableEq

/-- The callbacks of this program, by the module and the name of the function. -/
inductive Command
  | sysEcho | sysClose | sysThreadmgrStatusDump | sysLogLevel
  | tcTune | tcChTune | tcTuneStop | tcGetState
  | pmSetTargetTunerId | pmDumpProgramInfos | pmDumpServiceInfos | pmDumpEventPfInfos
  | pmDumpNetworkInfo | pmDumpPat | pmDumpPmt | pmDumpEitPf | pmDumpEitPfSimple | pmDumpEitSch
  | pmDumpEitSchedEvent | pmDumpEitSchedSimple | pmDumpNit | pmDumpSdt | pmDumpCat | pmDumpCdt
  | pmDumpRst | pmDumpBit
  | tsOpen | tsClose | tsTune | tsTuneStop | tsDump
  | recAddReserveCurrentEvent | recAddReserveEvent | recAddReserveEventHelper
  | recAddReserveManual | recRemoveReserve | recRemoveReserveByIndex | recGetReserves | recStop
  | recDumpReserves | recDumpResults | recDumpRecording
  | cmScan | cmTuneInteractive | cmTuneStop | cmDumpChannels
  | emCacheSchedule | emCacheScheduleForceCurrentService | emStopCacheSchedule
  | emDumpScheduleMap | emDumpSchedule | emDumpScheduleInteractive | emDumpEventDetail
  | emGetEventsKeywordSearch | emGetEventsKeywordSearchEx | emDumpReserves | emDumpHistories
  | esAddRecReserveKeywordSearch | esAddRecReserveKeywordSearchEx | esDumpHistories
  | esDumpHistoriesEx
  | vmStartByPhyCh | vmStartBySvcId | vmStop | vmOption | vmDump
deriving DecidableEq

/-- The tables of this program. The callbacks of the modules are static functions of their files:
`sys` is for `command_tables.cpp`, `tc`, `pm`, `ts`, `rec`, `cm`, `em`, `es` and `vm` are for the
files of the modules that the root table names so. `_close` closes the connection, and the two
interactive commands read from it. -/
def commandTables : Tables CommandTable Command where
  root := .root
  takesOver cb := cb = .sysClose ∨ cb = .cmTuneInteractive ∨ cb = .emDumpScheduleInteractive
  entries
  | .root => [
    ⟨"s", "system commands", none, some .system⟩,
    ⟨"tc", "tuner control", none, some .tunerControl⟩,
    ⟨"pm", "psisi manager", none, some .psisiManager⟩,
    ⟨"ts", "tuner service", none, some .tunerService⟩,
    ⟨"rec", "rec manager", none, some .recManager⟩,
    ⟨"cm", "channel manager", none, some .channelManager⟩,
    ⟨"em", "event schedule manager", none, some .eventScheduleManager⟩,
    ⟨"es", "event search", none, some .eventSearch⟩,
    ⟨"vm", "viewing manager", none, some .viewingManager⟩]
  | .system => [
    ⟨"e", "echo from commandServer", some .sysEcho, none⟩,
    ⟨"cl", "close connection", some .sysClose, none⟩,
    ⟨"ts", "threadmgr status dump", some .sysThreadmgrStatusDump, none⟩,
    ⟨"lv", "log level (usage: lv \x7b0|1|2|3|4\x7d)", some .sysLogLevel, none⟩]
  | .tunerControl => [
    ⟨"t",
      "tune by frequency (usage: t \x7bfrequesncy[kHz]\x7d \x7btuner id\x7d)",
      some .tcTune, none⟩,
    ⟨"ch",
      "tune by physical channel (usage: ch \x7bphysical channel\x7d \x7btuner id\x7d)",
      some .tcChTune, none⟩,
    ⟨"stop", "tune stop (usage: stop \x7btuner id\x7d)", some .tcTuneStop, none⟩,
    ⟨"s", "get tuner state", some .tcGetState, none⟩]
  | .psisiManager => [
    ⟨"st", "set target tuner id (usage: st \x7btuner id\x7d)", some .pmSetTargetTunerId, none⟩,
    ⟨"dp", "dump program infos", some .pmDumpProgramInfos, none⟩,
    ⟨"ds", "dump service infos", some .pmDumpServiceInfos, none⟩,
    ⟨"de", "dump event p/f infos", some .pmDumpEventPfInfos, none⟩,
    ⟨"dn", "dump network info", some .pmDumpNetworkInfo, none⟩,
    ⟨"t", "dump psisi-tables", none, some .psisiManagerDumpTables⟩]
  | .psisiManagerDumpTables => [
    ⟨"pat", "dump PAT", some .pmDumpPat, none⟩,
    ⟨"pmt", "dump PMT", some .pmDumpPmt, none⟩,
    ⟨"eit_pf", "dump EIT (p/f)", some .pmDumpEitPf, none⟩,
    ⟨"eit_pf_s", "dump EIT (p/f) simple", some .pmDumpEitPfSimple, none⟩,
    ⟨"eit_sch", "dump EIT (schedule)", some .pmDumpEitSch, none⟩,
    ⟨"eit_sched_e", "dump EIT (schedule) event", some .pmDumpEitSchedEvent, none⟩,
    ⟨"eit_sched_s", "dump EIT (schedule) simple", some .pmDumpEitSchedSimple, none⟩,
    ⟨"nit", "dump NIT", some .pmDumpNit, none⟩,
    ⟨"sdt", "dump SDT", some .pmDumpSdt, none⟩,
    ⟨"cat", "dump CAT", some .pmDumpCat, none⟩,
    ⟨"cdt", "dump CDT", some .pmDumpCdt, none⟩,
    ⟨"rst", "dump RST", some .pmDumpRst, none⟩,
    ⟨"bit", "dump BIT", some .pmDumpBit, none⟩]
  | .tunerService => [
    ⟨"op", "open tuner resource", some .tsOpen, none⟩,
    ⟨"cl", "close tuner resource (usage: cl \x7btuner_id\x7d)", some .tsClose, none⟩,
    ⟨"t",
      "tune by physical channel (usage: t \x7bphysical channel\x7d \x7btuner id\x7d)",
      some .tsTune, none⟩,
    ⟨"stop", "tune stop (usage: stop \x7btuner_id\x7d)", some .tsTuneStop, none⟩,
    ⟨"d", "dump tuner resources", some .tsDump, none⟩]
  | .recManager => [
    ⟨"ce",
      "add reserve - CurrentEvent (usage: ce \x7bgroup_id\x7d)",
      some .recAddReserveCurrentEvent, none⟩,
    ⟨"e",
      "add reserve - event\n" ++
        "                                (usage: e \x7btsid\x7d \x7borg_nid\x7d" ++
        " \x7bsvcid\x7d \x7bevtid\x7d \x7brepeat\x7d)\n" ++
        "                                           - repeat is 0 (none), 1 (auto)",
      some .recAddReserveEvent, none⟩,
    ⟨"eh",
      "add reserve - event (helper)\n" ++
        "                                (usage: eh \x7bindex\x7d \x7brepeat\x7d)\n" ++
        "                                           - repeat is 0 (none), 1 (auto)",
      some .recAddReserveEventHelper, none⟩,
    ⟨"m",
      "add reserve - Manual\n" ++
        "                                (usage: m \x7btsid\x7d \x7borg_nid\x7d" ++
        " \x7bsvcid\x7d \x7bstart_time\x7d \x7bend_time\x7d \x7brepeat\x7d)\n" ++
        "                                           - start_time, end_time format is" ++
        " \"yyyyMMddHHmmss\"\n" ++
        "                                           - repeat is 0 (none), 1 (daily), 2 (weekly)",
      some .recAddReserveManual, none⟩,
    ⟨"r",
      "remove reserve (usage: r \x7btsid\x7d \x7borg_nid\x7d \x7bsvcid\x7d" ++
        " \x7bevtid\x7d \x7bconsider repeatability\x7d)\n" ++
        "                                           - consider repeatability is 0" ++
        " (false), 1 (true)",
      some .recRemoveReserve, none⟩,
    ⟨"rx",
      "remove reserve by index (usage: rx \x7bindex\x7d \x7bconsider repeatability\x7d)\n" ++
        "                                           - consider repeatability is 0" ++
        " (false), 1 (true)",
      some .recRemoveReserveByIndex, none⟩,
    ⟨"g", "get reserves", some .recGetReserves, none⟩,
    ⟨"stop", "force stop recording (usage: stop \x7bgroup_id\x7d)", some .recStop, none⟩,
    ⟨"dr", "dump reserves", some .recDumpReserves, none⟩,
    ⟨"drl", "dump results", some .recDumpResults, none⟩,
    ⟨"drec", "dump recording", some .recDumpRecording, none⟩]
  | .channelManager => [
    ⟨"scan", "channel scan", some .cmScan, none⟩,
    ⟨"t", "tune (interactive mode)", some .cmTuneInteractive, none⟩,
    ⟨"stop", "tune stop (usage: stop \x7bgroup_id\x7d)", some .cmTuneStop, none⟩,
    ⟨"d", "dump channels", some .cmDumpChannels, none⟩]
  | .eventScheduleManager => [
    ⟨"cs", "cache schedule", some .emCacheSchedule, none⟩,
    ⟨"csc",
      "cache schedule --force current service-- (usage: csc \x7bgroup_id\x7d)",
      some .emCacheScheduleForceCurrentService, none⟩,
    ⟨"stop", "stop cache schedule", some .emStopCacheSchedule, none⟩,
    ⟨"dm", "dump schedule map", some .emDumpScheduleMap, none⟩,
    ⟨"d",
      "dump schedule (usage: d \x7btsid\x7d \x7borg_nid\x7d \x7bsvcid\x7d)",
      some .emDumpSchedule, none⟩,
    ⟨"di", "dump schedule (interactive mode)", some .emDumpScheduleInteractive, none⟩,
    ⟨"ded",
      "dump event detail --from last dumped schedule-- (usage: ded \x7bindex\x7d)",
      some .emDumpEventDetail, none⟩,
    ⟨"grep",
      "grep events --search event name by keyword-- (usage: grep \x7bkeyword\x7d)",
      some .emGetEventsKeywordSearch, none⟩,
    ⟨"grepx",
      "grep events --search event name and extended event by keyword-- (usage: grepx" ++
        " \x7bkeyword\x7d)",
      some .emGetEventsKeywordSearchEx, none⟩,
    ⟨"dr", "dump reserves", some .emDumpReserves, none⟩,
    ⟨"h", "dump histories", some .emDumpHistories, none⟩]
  | .eventSearch => [
    ⟨"r", "add rec reserve (event name keyword search)",
      some .esAddRecReserveKeywordSearch, none⟩,
    ⟨"rx",
      "add rec reserve (extended event keyword search)",
      some .esAddRecReserveKeywordSearchEx, none⟩,
    ⟨"h", "dump histories (event name keyword search)", some .esDumpHistories, none⟩,
    ⟨"hx", "dump histories (extended event keyword search)", some .esDumpHistoriesEx, none⟩]
  | .viewingManager => [
    ⟨"ch",
      "start viewing by physical channel (usage: ch \x7bphysical_channel, service_idx\x7d)",
      some .vmStartByPhyCh, none⟩,
    ⟨"svc",
      "start viewing by service id  (usage: svc \x7btsid\x7d \x7borg_nid\x7d \x7bsvcid\x7d)",
      some .vmStartBySvcId, none⟩,
    ⟨"stop", "force stop viewing (usage: stop \x7bgroup_id\x7d)", some .vmStop, none⟩,
    ⟨"opt",
      "set option (usage: opt \x7bgroup_id\x7d \x7bauto_stop_grace_period_sec\x7d)",
      some .vmOption, none⟩,
    ⟨"d", "dump ", some .vmDump, none⟩]

end CommandServer

end AutoRec
