import AutoRec.Parser.Completions
import Mathlib.Data.List.Induction

/-!
# The store of the event schedule

`event_information_table_sched` (`parser/psisi/event_information_table_sched.cpp`). Logging and the
call of the handler are left out.

* `eventInformationTableSched`, `schedClass`: what the class does. Sections and tables have the same
  layout as those of `event_information_table`.
* `scheduled`: the tables behind a number of completed sections.
* `Stores`: what is to become of the tables with one more section.
* `Call.Located`: the header of the section has been read to its end; `cutsHeader`: a packet ends in
  front of the end.
* **`schedule_reach`**: the sections of a sequence are stored as they should be if and only if all of
  their headers have been read; in a run in which no packet ends in such a header, all have been.
* `not_schedule_reach`: a packet that ends behind the fifth byte of a section.
-/

namespace AutoRec

open Latest SectionParser

/-- `event_information_table_sched`, with the ranges of `TBLID_EIT_SCHED_A` and `TBLID_EIT_SCHED_O`.
-/
def eventInformationTableSched : TableKind EventInformationTable EitKey where
  started h :=
    decide (0x50 ≤ h.tableId ∧ h.tableId ≤ 0x50 + 0xf ∨ 0x60 ≤ h.tableId ∧ h.tableId ≤ 0x60 + 0xf)
  parse := EventInformationTable.parse
  key := eventInformationTable.key
  version := eventInformationTable.version

/-- `is_duplicate_sub_tables`. -/
def isDuplicateSubTables (t : ℕ × EventInformationTable) (e : TableStore EventInformationTable) :
    Bool :=
  e.tables.any (isSame eventInformationTableSched.addressed.key
    eventInformationTableSched.addressed.version t)

/-- `event_information_table_sched`: no section is kept. -/
def schedClass : TableClass EventInformationTable where
  started := eventInformationTableSched.started
  parse := eventInformationTableSched.parse
  accept t e :=
    if isDuplicateSubTables t e then (true, e)
    else (true, (eventInformationTableSched.refresh t e).appendTable t)

/-- The key of a table. -/
abbrev schedKey : ℕ × EventInformationTable → EitKey := eventInformationTableSched.addressed.key

/-- The version of a table. -/
abbrev schedVersion : ℕ × EventInformationTable → UInt8 :=
  eventInformationTableSched.addressed.version

variable (behind : ℕ → List UInt8)

/-- The tables behind the completed sections `l`. -/
def scheduled (l : List Call) : TableStore EventInformationTable :=
  (schedClass.hooks behind).run .empty l

/-- **What becomes of the tables `e` with the section `c`**: the program is still there, and there is
one table for each key. The section is detached. If it is not parsed, the tables stay; if it is, there
is a table with its key and its version, the tables with other keys stay as they are and in their
order, and the loop that releases the older versions has come to its end. -/
structure Stores (e : TableStore EventInformationTable) (c : Call) : Prop where
  safe : ((schedClass.hooks behind).completed e c.info c.bytes).2.crashed = false
  distinct : (((schedClass.hooks behind).completed e c.info c.bytes).2.tables.map schedKey).Nodup
  detached : ((schedClass.hooks behind).completed e c.info c.bytes).1 = true
  refused : ∀ err, schedClass.parseCall c (behind e.next) = .error err →
    ((schedClass.hooks behind).completed e c.info c.bytes).2.tables = e.tables
  present : ∀ new, schedClass.parseCall c (behind e.next) = .ok new →
    ∃ t ∈ ((schedClass.hooks behind).completed e c.info c.bytes).2.tables,
      schedKey t = eventInformationTableSched.key new ∧
      schedVersion t = eventInformationTableSched.version new
  others : ∀ new, schedClass.parseCall c (behind e.next) = .ok new →
    ((schedClass.hooks behind).completed e c.info c.bytes).2.tables.filter
        (fun t => schedKey t ≠ eventInformationTableSched.key new) =
      e.tables.filter fun t => schedKey t ≠ eventInformationTableSched.key new
  ends : ∀ new, schedClass.parseCall c (behind e.next) = .ok new →
    (eventInformationTableSched.addressed.refreshSubTablesByVersionNumber (e.next, new)
      (eventInformationTableSched.refresh (e.next, new) e).tables).1 = false

/-- Every section of the sequence `l` is stored as it should be. -/
def StoresAll (l : List Call) : Prop :=
  ∀ l' c, l' ++ [c] <+: l → Stores behind (scheduled behind l') c

/-- The data part of the section has been found: its header has been read to its end. -/
def Call.Located (c : Call) : Prop := c.info.data.within c.info.raw ≠ none

/-- `b` ends in the header of the section of the event schedule that begins with it: the three bytes
with the length are there, but not all eight of a long header. -/
def cutsHeader : List UInt8 → Bool
  | b₀ :: b₁ :: _ :: rest =>
    decide (0x50 ≤ b₀ ∧ b₀ ≤ 0x6f) && (b₁ >>> 7) &&& 0x01 != 0 && decide (rest.length < 5)
  | _ => false

/-- **The condition on a step**: the payload has a length that a `size_t` can hold, and the packet
ends in no header of the event schedule. -/
def KeepsHeaders : ParserOp → Prop
  | .packet p => p.2.length < 2 ^ 64 ∧ ∀ b ∈ packetStarts p, cutsHeader b = false
  | _ => True

instance : DecidablePred KeepsHeaders
  | .packet _ => inferInstanceAs (Decidable (_ ∧ _))
  | .asyncDelete | .checkAsyncDelete => inferInstanceAs (Decidable True)

variable {behind} {e : TableStore EventInformationTable} {c : Call} {new : EventInformationTable}
  {l : List Call}

/-! ## One more section -/

theorem detaches_schedClass : (schedClass.hooks behind).Detaches := by
  intro e x b
  simp only [TableClass.hooks, schedClass]
  split
  · split <;> rfl
  · rfl

theorem completed_schedClass_error {err : ParseError}
    (h : schedClass.parseCall c (behind e.next) = .error err) :
    ((schedClass.hooks behind).completed e c.info c.bytes).2 = e.alloc.fail err := by
  simp only [TableClass.hooks, h]

theorem tables_schedClass_error {err : ParseError}
    (h : schedClass.parseCall c (behind e.next) = .error err) :
    ((schedClass.hooks behind).completed e c.info c.bytes).2.tables = e.tables := by
  rw [completed_schedClass_error h]
  rfl

theorem tables_schedClass (h : schedClass.parseCall c (behind e.next) = .ok new) :
    ((schedClass.hooks behind).completed e c.info c.bytes).2.tables =
      replaceIfNew schedKey schedVersion (e.next, new) e.tables := by
  have hsame : isDuplicateSubTables (e.next, new) e.alloc =
      e.tables.any (isSame schedKey schedVersion (e.next, new)) := rfl
  simp only [TableClass.hooks, h]
  simp only [schedClass, hsame, replaceIfNew]
  split_ifs with hany
  · rfl
  · have hrefresh := eventInformationTableSched.tables_refresh (e.next, new) e.alloc
    rw [TableStore.appendTable, hrefresh]
    rfl

theorem crashed_schedClass (h : schedClass.parseCall c (behind e.next) = .ok new) :
    ((schedClass.hooks behind).completed e c.info c.bytes).2.crashed = e.crashed := by
  simp only [TableClass.hooks, h]
  simp only [schedClass]
  split <;> rfl

/-- `parse` has no pointer of its own that could be null. -/
theorem parseDescriptors_ne_nullPointer (fuel : ℕ) (n : ℤ) (p : List UInt8) :
    parseDescriptors fuel n p ≠ .error .nullPointer := by
  induction fuel generalizing n p with
  | zero => nofun
  | succ fuel ih =>
    rw [parseDescriptors]
    split_ifs
    · nofun
    rcases p with _ | ⟨tag, _ | ⟨len, rest⟩⟩
    · nofun
    · nofun
    · rw [Descriptor.parse]
      split_ifs
      · nofun
      · nofun
      · have hrest := ih (n - (2 + len.toNat)) (rest.drop len.toNat)
        dsimp only
        split
        · rename_i err herr
          rintro ⟨⟩
          exact hrest herr
        · nofun

theorem parseEvents_ne_nullPointer (fuel : ℕ) (n : ℤ) (p : List UInt8) :
    parseEvents fuel n p ≠ .error .nullPointer := by
  induction fuel generalizing n p with
  | zero => nofun
  | succ fuel ih =>
    unfold parseEvents
    split_ifs
    · nofun
    -- the twelve bytes in front of the descriptors
    iterate 12
      rcases p with _ | ⟨b, p⟩
      · nofun
    dsimp only
    split
    · rename_i err herr
      rintro ⟨⟩
      exact parseDescriptors_ne_nullPointer _ _ _ herr
    · split_ifs
      · nofun
      · split
        · rename_i err herr
          rintro ⟨⟩
          exact ih _ _ herr
        · nofun

theorem EventInformationTable.parse_ne_nullPointer (header : SectionHeader) (p : List UInt8) :
    EventInformationTable.parse header p ≠ .error .nullPointer := by
  unfold EventInformationTable.parse
  split
  · dsimp only
    split_ifs
    · nofun
    · split
      · rename_i err herr
        rintro ⟨⟩
        exact parseEvents_ne_nullPointer _ _ _ herr
      · nofun
  · nofun

/-- **The null pointer is read through** if and only if the header has not been read to its end. -/
theorem parseCall_eq_nullPointer_iff (memory : List UInt8) :
    schedClass.parseCall c memory = .error .nullPointer ↔ ¬ c.Located := by
  unfold TableClass.parseCall TableClass.parseAt Call.Located
  cases c.info.data.within c.info.raw with
  | none => exact iff_of_true rfl (by simp)
  | some k =>
    refine iff_of_false ?_ (by simp)
    dsimp only
    split_ifs
    · exact EventInformationTable.parse_ne_nullPointer _ _
    · nofun

/-- **One more section** ends the program if and only if its header has not been read to its end. -/
theorem crashed_completed (h : e.crashed = false) (c : Call) :
    ((schedClass.hooks behind).completed e c.info c.bytes).2.crashed = false ↔ c.Located := by
  rw [← not_iff_not, ← parseCall_eq_nullPointer_iff (behind e.next)]
  cases hc : schedClass.parseCall c (behind e.next) with
  | ok new => simp [crashed_schedClass hc, h]
  | error err => simp [completed_schedClass_error hc, TableStore.fail, TableStore.alloc, h]

theorem nodup_completed (h : (e.tables.map schedKey).Nodup) (c : Call) :
    (((schedClass.hooks behind).completed e c.info c.bytes).2.tables.map schedKey).Nodup := by
  cases hc : schedClass.parseCall c (behind e.next) with
  | error err =>
    rw [tables_schedClass_error hc]
    exact h
  | ok new =>
    rw [tables_schedClass hc]
    exact nodup_replaceIfNew h

/-- **A section of which the header has been read** is stored as it should be, and no other one. -/
theorem stores_iff (h : (e.tables.map schedKey).Nodup) (hcrash : e.crashed = false) (c : Call) :
    Stores behind e c ↔ c.Located := by
  refine ⟨fun hs => (crashed_completed hcrash c).mp hs.safe, fun hc => ?_⟩
  constructor
  · exact (crashed_completed hcrash c).mpr hc
  · exact nodup_completed h c
  · exact detaches_schedClass _ _ _
  · exact fun err hc => tables_schedClass_error hc
  · intro new hc
    rw [tables_schedClass hc]
    exact exists_replaceIfNew (e.next, new) e.tables
  · intro new hc
    rw [tables_schedClass hc]
    exact filter_replaceIfNew (e.next, new) e.tables
  · exact fun new _ =>
      eventInformationTableSched.refreshSubTablesByVersionNumber_refresh (e.next, new) e

/-! ## Sequences of sections -/

theorem scheduled_concat (l : List Call) (c : Call) : scheduled behind (l ++ [c]) =
    ((schedClass.hooks behind).completed (scheduled behind l) c.info c.bytes).2 :=
  Hooks.run_concat _ l c

theorem nodup_scheduled (l : List Call) : ((scheduled behind l).tables.map schedKey).Nodup := by
  induction l using List.reverseRecOn with
  | nil => exact List.nodup_nil
  | append_singleton l c ih =>
    rw [scheduled_concat]
    exact nodup_completed ih c

theorem crashed_scheduled (h : ∀ c ∈ l, c.Located) : (scheduled behind l).crashed = false := by
  induction l using List.reverseRecOn with
  | nil => rfl
  | append_singleton l c ih =>
    rw [scheduled_concat, crashed_completed (ih fun d hd => h d (List.mem_append_left _ hd))]
    exact h c (by simp)

/-- **The sections of a sequence** are stored as they should be if and only if all of their headers
have been read to the end. -/
theorem storesAll_iff : StoresAll behind l ↔ ∀ c ∈ l, c.Located := by
  induction l using List.reverseRecOn with
  | nil => exact iff_of_true (fun l' c hl => by simp at hl) (by simp)
  | append_singleton l c ih =>
    have hsplit : StoresAll behind (l ++ [c]) ↔
        StoresAll behind l ∧ Stores behind (scheduled behind l) c := by
      constructor
      · intro h
        exact ⟨fun l' d hl => h l' d (hl.trans (List.prefix_append _ _)), h l c List.prefix_rfl⟩
      · rintro ⟨hall, hlast⟩ l' d hl
        rcases List.prefix_concat_iff.mp hl with heq | hl
        · obtain ⟨rfl, hlast'⟩ := List.append_inj' heq rfl
          obtain rfl := List.singleton_inj.mp hlast'
          exact hlast
        · exact hall l' d hl
    rw [hsplit, ih]
    simp only [List.mem_append, List.mem_singleton, or_imp, forall_and, forall_eq]
    exact and_congr_right fun hall => stores_iff (nodup_scheduled l) (crashed_scheduled hall) c

/-! ## Runs -/

/-- A section that the class takes, and of which the packet has the header, is found. -/
theorem data_first_ne_none {b : List UInt8} (hH : Inbox.Accepts (schedClass.hooks behind) b)
    (hb : cutsHeader b = false) : (Sect.first b).data ≠ none := by
  obtain ⟨e, x, hhdr, hstart⟩ := hH
  change schedClass.started x.sectHdr = true at hstart
  rw [hhdr] at hstart
  rcases b with _ | ⟨b₀, _ | ⟨b₁, _ | ⟨b₂, rest⟩⟩⟩
  iterate 3
    · rw [Sect.hdr_first_short (by simp)] at hstart
      cases hstart
  by_cases hs : (SectionHeader.zero.readShort b₀ b₁ b₂).sectionSyntaxIndicator = 0
  · simp [Sect.first, parseHeader, hs]
  rcases rest with _ | ⟨b₃, _ | ⟨b₄, _ | ⟨b₅, _ | ⟨b₆, _ | ⟨b₇, rest⟩⟩⟩⟩⟩
  iterate 5
    · -- a long header that is cut
      have htable : 0x50 ≤ b₀ ∧ b₀ ≤ 0x6f := by
        simp only [Sect.first, parseHeader, hs] at hstart
        have hrange := of_decide_eq_true hstart
        simp only [SectionHeader.readShort, UInt8.le_iff_toNat_le] at hrange ⊢
        change (80 ≤ b₀.toNat ∧ b₀.toNat ≤ 95) ∨ (96 ≤ b₀.toNat ∧ b₀.toNat ≤ 111) at hrange
        change 80 ≤ b₀.toNat ∧ b₀.toNat ≤ 111
        omega
      have hs' : (b₁ >>> 7) &&& 0x01 ≠ 0 := hs
      simp [cutsHeader, htable, hs'] at hb
  simp [Sect.first, parseHeader, hs]

/-- The data part of the section in progress has been found, and so have been those of the sections
completed so far. -/
structure LocatedOk (I : Inbox) : Prop where
  cur : ∀ w ∈ I.cur, w.data ≠ none
  calls : ∀ c ∈ I.calls, c.Located

section LocatedOk

variable {I I' : Inbox} {P : ℕ} {b : List UInt8} {done done' : List Sect} {r : CheckSection}
  {n : Option ℕ} {w : Sect} {calls : List Call}

theorem located_finish (h : Finish done l w r done' calls) (hl : ∀ c ∈ l, c.Located)
    (hw : w.data ≠ none) : ∀ c ∈ calls, c.Located := by
  cases h with
  | crc32Err | already => exact hl
  | completed _ _ hc =>
    intro d hd
    rcases List.mem_append.mp hd with hd | hd
    · exact hl d hd
    · obtain rfl := List.mem_singleton.mp hd
      rw [Call.Located, hc.data]
      exact hw

theorem LocatedOk.follow (h : LocatedOk I) (hf : Inbox.Follow P b I done r I') : LocatedOk I' := by
  cases hf with
  | ignoring | idle => exact h
  | full _ hcur => exact ⟨fun w hw => h.cur w (hcur ▸ hw), h.calls⟩
  | @more w _ _ hcur =>
    refine ⟨fun w' hw' => ?_, h.calls⟩
    obtain rfl := Option.some.inj hw'
    exact h.cur w hcur
  | @finished w _ _ _ _ _ hcur _ _ hfin =>
    exact ⟨by simp, located_finish hfin h.calls (h.cur w hcur)⟩

theorem LocatedOk.begins (h : LocatedOk I) (hb : cutsHeader b = false)
    (hf : Inbox.Begins (schedClass.hooks behind) P b I done n r I') : LocatedOk I' := by
  cases hf with
  | full | ignored => exact ⟨by simp, h.calls⟩
  | more _ _ _ hH =>
    refine ⟨fun w hw => ?_, h.calls⟩
    obtain rfl := Option.some.inj hw
    exact data_first_ne_none hH hb
  | finished _ _ hfin _ hH =>
    exact ⟨by simp, located_finish hfin h.calls (data_first_ne_none hH hb)⟩

theorem LocatedOk.does {s : SectionParser (TableStore EventInformationTable)} {op : ParserOp}
    (h : LocatedOk I) (hop : KeepsHeaders op) (hdoes : Does (schedClass.hooks behind) P s I op I') :
    LocatedOk I' := by
  cases hdoes with
  | packet hparts hmem =>
    refine (hparts.inv (· ∈ packetStarts _) hmem LocatedOk h ?_ ?_).1
    · exact fun _ _ _ _ _ _ hok hf => hok.follow hf
    · exact fun b hb _ _ _ _ _ hok hf => hok.begins (hop.2 b hb) hf
  | asyncDelete | kept => exact h
  | deleted => exact ⟨by simp, h.calls⟩

end LocatedOk

theorem KeepsHeaders.fits {op : ParserOp} (h : KeepsHeaders op) : op.Fits := by
  cases op with
  | packet p => exact h.1
  | asyncDelete | checkAsyncDelete => trivial

theorem located_reach {poolSize : ℕ} {fifoNum : ℤ}
    {s : SectionParser (TableStore EventInformationTable)}
    (h : Machine.Reach (parserStep (schedClass.hooks behind)) (fun _ => KeepsHeaders)
      (create poolSize fifoNum .psisi .empty) s) : ∀ c ∈ s.calls, c.Located := by
  obtain ⟨I, hsim, hI⟩ := sim_reach h (fun _ _ hop => hop.fits) LocatedOk ⟨by simp, by simp⟩
    fun _ _ _ _ hop _ hI hdoes => hI.does hop hdoes
  rw [hsim.calls]
  exact hI.calls

/-- **The store of the event schedule.** Every section of a sequence of completed sections is stored
as it should be if and only if the headers of all of them have been read to the end. In every run of
the parser in which no packet ends in the header of a section of the event schedule, this is so; these
are its tables, and no complete section stays in its list. -/
theorem schedule_reach (behind : ℕ → List UInt8) (poolSize : ℕ) (fifoNum : ℤ) :
    (∀ l : List Call, StoresAll behind l ↔ ∀ c ∈ l, c.Located) ∧
    ∀ s, Machine.Reach (parserStep (schedClass.hooks behind)) (fun _ => KeepsHeaders)
        (create poolSize fifoNum .psisi .empty) s →
      StoresAll behind s.calls ∧ s.ext = scheduled behind s.calls ∧
        ∀ x ∈ s.sectList, x.state ≠ .complete := by
  refine ⟨fun l => storesAll_iff, fun s hs => ?_⟩
  refine ⟨storesAll_iff.mpr (located_reach hs), given_reach (schedClass.keepsState behind) hs, ?_⟩
  intro x hx hstate
  have hknown := (emptied_reach detaches_schedClass hs).known
  have hmem : x.view s.pool ∈ s.known := by
    rw [SectionParser.known, List.mem_filter]
    refine ⟨List.mem_map_of_mem hx, ?_⟩
    rw [SectionInfo.view, hstate]
    rfl
  rw [hknown] at hmem
  cases hmem

/-- The bytes `b` with stuffing behind them, up to the 184 bytes of a payload. -/
def filledUp (b : List UInt8) : List UInt8 := b ++ List.replicate (184 - b.length) 0xff

/-- The events of two services, those of the second one again, and a new version of these. -/
def schedPackets : List (List UInt8) :=
  [[0, 80, 240, 15, 4, 1, 195, 0, 1, 0, 1, 0, 4, 1, 80, 48, 205, 109, 37],
    [0, 80, 240, 15, 4, 0, 195, 0, 1, 0, 1, 0, 4, 1, 80, 176, 93, 205, 66],
    [0, 80, 240, 15, 4, 0, 195, 0, 1, 0, 1, 0, 4, 1, 80, 176, 93, 205, 66],
    [0, 80, 240, 15, 4, 0, 197, 0, 1, 0, 1, 0, 4, 1, 80, 149, 220, 11, 120]]

theorem schedule_reach_newVersion : ∃ s,
    Machine.exec (parserStep (schedClass.hooks fun _ => [])) (create 256 100 .psisi .empty)
      (schedPackets.map fun b => .packet (true, filledUp b)) = some s ∧
      s.calls.length = 4 ∧ s.ext.tables.map schedVersion = [1, 2] ∧
      StoresAll (fun _ => []) s.calls := by
  have hrun : Machine.execOk (parserStep (schedClass.hooks fun _ => [])) (fun _ => KeepsHeaders)
        (create 256 100 .psisi .empty) (schedPackets.map fun b => .packet (true, filledUp b)) =
          true ∧
      (Machine.exec (parserStep (schedClass.hooks fun _ => []))
        (create 256 100 .psisi .empty) (schedPackets.map fun b => .packet (true, filledUp b))).map
          (fun s => (s.calls.length, s.ext.tables.map schedVersion)) = some (4, [1, 2]) := by
    decide +kernel
  obtain ⟨s, hs, hreach, hrest⟩ := Machine.exists_of_execOk hrun
  obtain ⟨hcalls, hversions⟩ := Prod.mk.inj hrest
  exact ⟨s, hs, hcalls, hversions, ((schedule_reach (fun _ => []) 256 100).2 s hreach).1⟩

/-- A section of the present events, which is not looked at; behind it the first five bytes of a
section of the event schedule, and the other ones in the next packet. -/
def cutPackets : List ParserOp :=
  [.packet (true, 0 :: [78, 240, 175] ++ List.replicate 175 0 ++ [80, 240, 15, 4, 0]),
    .packet (false, filledUp [195, 0, 1, 0, 1, 0, 4, 1, 80, 176, 93, 205, 66])]

/-- **The section is completed, and the program ends**: its data part is looked for at the null
pointer. -/
theorem not_schedule_reach : ∃ s c,
    Machine.exec (parserStep (schedClass.hooks fun _ => [])) (create 4096 100 .psisi .empty)
      cutPackets = some s ∧
      s.calls = [c] ∧ s.ext.crashed = true ∧ ¬ Stores (fun _ => []) (scheduled (fun _ => []) []) c := by
  have hrun : (Machine.exec (parserStep (schedClass.hooks fun _ => []))
      (create 4096 100 .psisi .empty) cutPackets).map (fun s => (s.calls.length, s.ext.crashed)) =
        some (1, true) := by
    decide +kernel
  obtain ⟨s, hs, hrest⟩ := Option.map_eq_some_iff.mp hrun
  obtain ⟨hlen, hcrashed⟩ := Prod.mk.inj hrest
  obtain ⟨c, hc⟩ := List.length_eq_one_iff.mp hlen
  refine ⟨s, c, hs, hc, hcrashed, fun h => ?_⟩
  have hext := given_reach (schedClass.keepsState _) (Machine.reach_of_exec hs)
  rw [hc] at hext
  have hsafe : s.ext.crashed = false := hext ▸ h.safe
  rw [hcrashed] at hsafe
  cases hsafe

end AutoRec
