import AutoRec.Lib.Machine
import AutoRec.Lib.Flag
import AutoRec.Lib.Slots
import AutoRec.Lib.Arena
import AutoRec.Lib.Entries
import AutoRec.Lib.Latest
import AutoRec.Lib.StableSort
import AutoRec.Lib.PartialWrites
import AutoRec.Lib.Reader
import AutoRec.Lib.Buffer
import AutoRec.Lib.CyclicCode
import AutoRec.Lib.OrderedMap
import AutoRec.Lib.Delimited
import AutoRec.Lib.Mailbox
import AutoRec.Common.Etime
import AutoRec.Common.Group
import AutoRec.Common.Strings
import AutoRec.Common.BufferedProcess
import AutoRec.Common.FileBufferedWriter
import AutoRec.Rec.Reserve
import AutoRec.Rec.Instance
import AutoRec.Rec.Manager
import AutoRec.Rec.Reservations
import AutoRec.Rec.Table
import AutoRec.Rec.FollowUp
import AutoRec.Rec.Packing
import AutoRec.Rec.Ordering
import AutoRec.Rec.Insertion
import AutoRec.Rec.Removal
import AutoRec.Rec.Manual
import AutoRec.Rec.Repeat
import AutoRec.Rec.Recorder
import AutoRec.Rec.System
import AutoRec.Rec.Refine
import AutoRec.Rec.SysInv
import AutoRec.Rec.Endings
import AutoRec.Rec.CleanUp
import AutoRec.Rec.Tracking
import AutoRec.Parser.Crc
import AutoRec.Parser.SectionInfo
import AutoRec.Parser.SectionParser
import AutoRec.Parser.Pool
import AutoRec.Parser.Assembly
import AutoRec.Parser.Packet
import AutoRec.Parser.Simulation
import AutoRec.Parser.Headers
import AutoRec.Parser.CrcLaws
import AutoRec.Parser.Reassembly
import AutoRec.Parser.Runs
import AutoRec.Parser.FirstLoop
import AutoRec.Parser.Duplicates
import AutoRec.Parser.Resync
import AutoRec.Parser.Pieces
import AutoRec.Parser.Tables
import AutoRec.Parser.LatestWins
import AutoRec.Parser.Classes
import AutoRec.Parser.Completions
import AutoRec.Parser.Schedule
import AutoRec.Parser.Bounds
import AutoRec.Parser.Layout
import AutoRec.Parser.Answers
import AutoRec.Parser.TsParser
import AutoRec.Parser.TsFraming
import AutoRec.Parser.Payloads
import AutoRec.Parser.Numbers
import AutoRec.Parser.Dsmcc
import AutoRec.Parser.EitGrammar
import AutoRec.Command.Framing
import AutoRec.Channel.Names
import AutoRec.Channel.Table
import AutoRec.Channel.Scan
import AutoRec.Tuner.Service
import AutoRec.Tuner.Allocation
import AutoRec.Tuner.Closing
import AutoRec.Tuner.Owners
import AutoRec.Tuner.Control
import AutoRec.Tuner.ControlRuns
import AutoRec.Rec.Tuners
import AutoRec.Rec.Ownership
import AutoRec.Psisi.Descriptors
import AutoRec.Psisi.Caches
import AutoRec.Psisi.Manager
import AutoRec.Psisi.NewTables
import AutoRec.Psisi.Pointers
import AutoRec.Psisi.LatestTables
import AutoRec.Psisi.Readiness
import AutoRec.Psisi.PresentEvent
import AutoRec.Psisi.Logo
import AutoRec.Psisi.EventNames
import AutoRec.EventSchedule.Reserves
import AutoRec.EventSchedule.Container
import AutoRec.EventSchedule.Manager
import AutoRec.EventSchedule.ScheduleMap
import AutoRec.EventSchedule.Listed
import AutoRec.EventSchedule.Batches
import AutoRec.EventSchedule.BatchRuns
import AutoRec.EventSchedule.Polling
import AutoRec.EventSchedule.Extraction
import AutoRec.EventSchedule.Forced
import AutoRec.Descriptor.Reads
import AutoRec.Descriptor.BitFields
import AutoRec.EventSearch.Search
import AutoRec.EventSchedule.Clients
import AutoRec.EventSearch.Reservations
import AutoRec.Rec.FollowUpPass
import AutoRec.Viewing.Manager
import AutoRec.Viewing.Ending
import AutoRec.Viewing.Sessions
import AutoRec.Viewing.EventChanges
import AutoRec.Viewing.Writer
import AutoRec.Coseq.Module
import AutoRec.Coseq.Moves
import AutoRec.Coseq.Fibers
import AutoRec.Coseq.Requests
import AutoRec.Coseq.Gather
import AutoRec.Coseq.Lock
import AutoRec.Coseq.Traces
import AutoRec.Coseq.Network
import AutoRec.Coseq.Replies
import AutoRec.Coseq.Notifications
import AutoRec.Coseq.External
import AutoRec.Coseq.Timers
import AutoRec.Tssplitter.Splitter
import AutoRec.Tssplitter.Services
import AutoRec.Tssplitter.Pat
import AutoRec.Tssplitter.Pmt
import AutoRec.Tssplitter.Stream
import AutoRec.Tssplitter.Selecting
import AutoRec.Tssplitter.Counters
import AutoRec.Command.Interpreter
import AutoRec.Command.Calls
