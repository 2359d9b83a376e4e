import AutoRec.Parser.Answers
import AutoRec.Psisi.Manager

/-!
# The tables of a packet

What a notice does to the tables of the parser that it is given to.

* `TableClass.newTables`: the tables that a class makes of the new sections of a packet.
* `TableClass.tables_run_appendOnly`, `TableKind.mem_run_refreshing`: what becomes of the tables.
* `Ready`: a parser in a state that it can be in; `Ready.check`: what a notice does to it.
* `PsisiManager.ParsersReady`, **`parsersReady_reach`**: the parsers are in such states, in every run.
-/

namespace AutoRec

open Latest SectionParser

variable {α κ : Type} {behind : ℕ → List UInt8}

namespace TableClass

variable (C : TableClass α) (behind) in
/-- The tables that are made of the sections `W`, the first of them at the address `n`. -/
def newTables : ℕ → List Sect → List (ℕ × α)
  | _, [] => []
  | n, w :: W =>
    ((C.parseAt w.hdr w.data (w.bytes ++ behind n)).toOption.toList.map fun t => (n, t)) ++
      newTables (n + 1) W

variable {C : TableClass α} {w : Sect} {c : Call} {W : List Sect} {l : List Call} {e : TableStore α}

theorem parseCall_of_holds (h : Holds w c) (n : ℕ) :
    C.parseAt w.hdr w.data (w.bytes ++ behind n) = C.parseCall c (behind n) := by
  rw [parseCall, h.bytes, h.hdr, h.data]

/-- **The classes that release no table** append the new ones. -/
theorem tables_run_appendOnly {parse : SectionHeader → List UInt8 → Except ParseError α}
    (h : List.Forall₂ Holds W l) (e : TableStore α) :
    (((appendOnly parse).hooks behind).run e l).tables =
      e.tables ++ (appendOnly parse).newTables behind e.next W := by
  induction h generalizing e with
  | nil => simp [Hooks.run, newTables]
  | @cons w c W l hw _ ih =>
    rw [Hooks.run_cons, ih, newTables, parseCall_of_holds hw]
    cases hc : (appendOnly parse).parseCall c (behind e.next) with
    | error err =>
      simp only [hooks, hc]
      simp [Except.toOption, TableStore.alloc]
    | ok new =>
      simp only [hooks, hc]
      simp [Except.toOption, TableStore.alloc, appendOnly, TableStore.appendTable]

theorem tables_run_appendOnly_prefix {parse : SectionHeader → List UInt8 → Except ParseError α}
    (e : TableStore α) (l : List Call) :
    e.tables <+: (((appendOnly parse).hooks behind).run e l).tables := by
  induction l generalizing e with
  | nil => exact List.prefix_rfl
  | cons c l ih =>
    rw [Hooks.run_cons]
    refine List.IsPrefix.trans ?_ (ih _)
    cases hc : (appendOnly parse).parseCall c (behind e.next) with
    | error err =>
      simp only [hooks, hc]
      exact List.prefix_rfl
    | ok new =>
      simp only [hooks, hc]
      exact List.prefix_append _ _

end TableClass

/-- **The classes that release the older versions** keep a table that no new one supersedes. -/
theorem TableKind.mem_run_refreshing [DecidableEq κ] {K : TableKind α κ} {W : List Sect}
    {l : List Call} (h : List.Forall₂ Holds W l) {e : TableStore α} {x : ℕ × α} (hx : x ∈ e.tables)
    (hkeep : ∀ t ∈ K.refreshing.newTables behind e.next W,
      isOld K.addressed.key K.addressed.version t x = false) :
    x ∈ ((K.refreshing.hooks behind).run e l).tables := by
  induction h generalizing e with
  | nil => exact hx
  | @cons w c W l hw _ ih =>
    rw [TableClass.newTables, TableClass.parseCall_of_holds hw] at hkeep
    rw [Hooks.run_cons]
    cases hc : K.refreshing.parseCall c (behind e.next) with
    | error err =>
      rw [hc] at hkeep
      simp only [TableClass.hooks, hc]
      exact ih (e := e.alloc.fail err) hx fun t ht => hkeep t (List.mem_append_right _ ht)
    | ok new =>
      rw [hc] at hkeep
      simp only [TableClass.hooks, hc]
      apply ih
      · have hold := hkeep (e.next, new) (List.mem_append_left _ (by simp [Except.toOption]))
        have htables := K.tables_refresh (e.next, new) e.alloc
        simp only [refreshing, TableStore.appendTable, htables, List.mem_append, List.mem_filter]
        exact .inl ⟨hx, by rw [hold]; rfl⟩
      · exact fun t ht => hkeep t (List.mem_append_right _ ht)

/-! ## The parsers of the manager -/

/-- A state that a parser with a pool of `P` bytes can be in. -/
def Ready (P : ℕ) (s : SectionParser (TableStore α)) : Prop := ∃ I, Sim P s I

variable {P : ℕ} {s t : SectionParser (TableStore α)} {C : TableClass α} {n : ParserNotice}
  {r : CheckSection}

theorem ready_create (P : ℕ) (fifoNum : ℤ) :
    Ready P (.create P fifoNum .psisi TableStore.empty : SectionParser (TableStore α)) :=
  ⟨_, create_sim P fifoNum .psisi TableStore.empty⟩

theorem Ready.checkAsyncDelete (h : Ready P s) : Ready P s.checkAsyncDelete := by
  obtain ⟨I, hsim⟩ := h
  rcases hsim.checkAsyncDelete with hsim' | hsim'
  · exact ⟨_, hsim'⟩
  · exact ⟨_, hsim'⟩

theorem Ready.clearParser (h : Ready P s) : Ready P (PsisiManager.clearParser s) := by
  obtain ⟨I, hsim⟩ := h
  have hrelease : Sim P { s with ext := s.ext.releaseTables } I :=
    ⟨hsim.holds.outside s.isIgnoreSection _ s.calls, hsim.receiving, hsim.ignoring, hsim.calls,
      hsim.poolSize⟩
  exact ⟨I, hrelease.asyncDelete⟩

/-- `check_section` says COMPLETED. -/
def ParserNotice.completes (n : ParserNotice) (C : TableClass α)
    (s : SectionParser (TableStore α)) : Bool :=
  (n.check C s).any fun p => p.1 == .completed

theorem ParserNotice.fits (n : ParserNotice) : n.packet.2.length < 2 ^ 64 :=
  lt_of_le_of_lt n.size_le (by decide)

theorem ParserNotice.completes_iff (h : n.check C s = some (r, t)) :
    n.completes C s = true ↔ r = .completed := by
  simp [completes, h]

theorem ext_checkAsyncDelete (s : SectionParser (TableStore α)) : s.checkAsyncDelete.ext = s.ext := by
  unfold SectionParser.checkAsyncDelete
  split
  · rfl
  · rfl

/-- **What a notice does** to a parser. -/
theorem Ready.check (h : Ready P s) (hr : n.check C s = some (r, t)) :
    Ready P t ∧ ∃ l, List.Forall₂ Holds (packetNew (C.hooks n.behind) s n.packet) l ∧
      t.ext = (C.hooks n.behind).run s.ext l := by
  obtain ⟨I, hsim⟩ := h
  have hstep : C.classStep n.behind s (.packet n.packet) = some t := by
    rw [ParserNotice.check] at hr
    rw [TableClass.classStep, packetStep, hr]
    rfl
  refine ⟨TableClass.sim_classStep hsim hstep n.fits, ?_⟩
  obtain ⟨-, l, hcalls, hall⟩ := hsim.checkSection_result hr
  obtain ⟨l', hcalls', hext⟩ := given_checkSection (C.keepsState n.behind) hr
  obtain rfl := List.append_cancel_left (hcalls.symm.trans hcalls')
  exact ⟨l, hall, hext⟩

theorem tables_check_appendOnly {parse : SectionHeader → List UInt8 → Except ParseError α}
    (h : Ready P s) (hr : n.check (appendOnly parse) s = some (r, t)) :
    t.ext.tables = s.ext.tables ++ (appendOnly parse).newTables n.behind s.ext.next
      (packetNew ((appendOnly parse).hooks n.behind) s n.packet) := by
  obtain ⟨-, l, hall, hext⟩ := h.check hr
  rw [hext, TableClass.tables_run_appendOnly hall]

namespace PsisiManager

variable {E : Conversions} {m m' : PsisiManager}

/-- The parsers whose tables are cached are in states that they can be in. -/
structure ParsersReady (m : PsisiManager) : Prop where
  pat : Ready 4096 m.mPAT
  eit : Ready 409600 m.mEITH
  nit : Ready 4096 m.mNIT
  sdt : Ready 4096 m.mSDT

theorem parsersReady_init : init.ParsersReady :=
  ⟨ready_create _ _, ready_create _ _, ready_create _ _, ready_create _ _⟩

theorem ParsersReady.checkAsyncDelete (h : m.ParsersReady) : m.checkAsyncDelete.ParsersReady :=
  ⟨h.pat.checkAsyncDelete, h.eit.checkAsyncDelete, h.nit.checkAsyncDelete, h.sdt.checkAsyncDelete⟩

theorem ParsersReady.parse (h : m.ParsersReady) (hm : m.parse E n = some m') : m'.ParsersReady := by
  unfold PsisiManager.parse at hm
  split at hm
  · obtain ⟨r, s, hr, ⟨-, latest, -, rfl⟩ | ⟨-, rfl⟩⟩ := onPat_cases hm
    · exact { h with pat := (h.pat.check hr).1 }
    · exact { h with pat := (h.pat.check hr).1 }
  · obtain rfl | ⟨map, rfl | rfl⟩ := onPmt_cases hm
    · exact h
    · exact { h with }
    · exact { h with }
  · obtain ⟨p, -, rfl⟩ := Option.map_eq_some_iff.mp hm
    exact { h with }
  · obtain ⟨p, -, rfl⟩ := Option.map_eq_some_iff.mp hm
    exact { h with }
  · obtain ⟨r, s, hr, rfl⟩ := onNit_cases hm
    exact { h with nit := (h.nit.check hr).1 }
  · obtain ⟨r, s, hr, ⟨-, rfl⟩ | ⟨-, rfl⟩⟩ := onSdt_cases hm
    · exact { h with sdt := (h.sdt.check hr).1 }
    · exact { h with sdt := (h.sdt.check hr).1 }
  · obtain ⟨r, s, s', hr, ⟨-, rfl⟩ | ⟨-, rfl⟩⟩ := onEit_cases hm
    · exact { h with eit := (h.eit.check hr).1 }
    · exact { h with eit := (h.eit.check hr).1 }

theorem ParsersReady.clearParsers (h : m.ParsersReady) : m.clearParsers.ParsersReady :=
  ⟨h.pat.clearParser, h.eit.clearParser, h.nit.clearParser, h.sdt.clearParser⟩

theorem ParsersReady.step {op : PsisiOp} (h : m.ParsersReady) (hm : m.step E op = some m') :
    m'.ParsersReady := by
  cases op with
  | parserNotice n => exact h.checkAsyncDelete.parse hm
  | receiveNotify state =>
    obtain rfl := Option.some.inj hm
    cases state <;> exact { h with }
  | stabilization id down =>
    obtain ⟨-, rfl⟩ | ⟨i, -, rfl⟩ := onStabilization_cases hm
    · exact { h.clearParsers with }
    · unfold pollStabilization
      split
      · exact { h with }
      · split <;> exact { h with }
  | checkPat now =>
    obtain rfl := Option.some.inj hm
    unfold PsisiManager.checkPat
    split <;> exact { h with }
  | checkFollow now =>
    obtain rfl := Option.some.inj hm
    unfold PsisiManager.checkFollow
    dsimp only
    split <;> exact { h with }
  | enableParseEitSched | disableParseEitSched | clearSched =>
    obtain rfl := Option.some.inj hm
    exact { h with }
  | dumpCaches cache => exact onDumpCaches_eq hm ▸ h

/-- **The parsers**, in every run. -/
theorem parsersReady_reach {ok : PsisiManager → PsisiOp → Prop}
    (h : Machine.Reach (PsisiManager.step E) ok init m) : m.ParsersReady :=
  h.inv ParsersReady parsersReady_init fun _ _ _ hm _ hstep => hm.step hstep

end PsisiManager

end AutoRec
