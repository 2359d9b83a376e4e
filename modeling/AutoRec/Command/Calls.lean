import AutoRec.Command.Interpreter
import Mathlib.Data.List.Nodup

/-!
# The commands that can be called

By the names of the tables on the way, and then its own, each command of this program is called,
with all the arguments that can be written in a line.

* `Tables.IsNamed`: names that are words, each once in a table.
* `lineOf`, `words_lineOf`: a name and its arguments in a line.
* `lines_names`: the names of a path lead to its table.
* `CommandTable.path`, `linesTo`: the lines that lead to a command.
* **`serve_calls`**: the commands of this program.
-/

namespace AutoRec

namespace CommandServer

open Delimited Strings

/-! ## Names -/

section Names

variable {T F : Type} {tb : Tables T F} {path : List (CommandInfo T F)}
  {e : CommandInfo T F} {argv : List (List UInt8)}

/-- The name of an entry, as it is written in a line. -/
def CommandInfo.name (e : CommandInfo T F) : List UInt8 := text e.command

/-- What can stand between two blanks. -/
def IsWord (w : List UInt8) : Prop := w ≠ [] ∧ 0x20 ∉ w

instance (w : List UInt8) : Decidable (IsWord w) := inferInstanceAs (Decidable (_ ∧ _))

/-- An entry can be found by its name, and leads to a table only if it is no command. -/
structure Tables.IsNamed (tb : Tables T F) : Prop where
  isWord : ∀ t, ∀ e ∈ tb.entries t, IsWord e.name
  ne_up : ∀ t, ∀ e ∈ tb.entries t, e.name ≠ text ".."
  ne_here : ∀ t, ∀ e ∈ tb.entries t, e.name ≠ text "."
  nodup : ∀ t, ((tb.entries t).map CommandInfo.name).Nodup
  next : ∀ t, ∀ e ∈ tb.entries t, e.next ≠ none → e.cbCommand = none

/-- A name with arguments, in a line. -/
def lineOf (e : CommandInfo T F) (argv : List (List UInt8)) : List UInt8 :=
  [0x20].intercalate (e.name :: argv)

theorem words_lineOf (he : IsWord e.name) (hargv : ∀ a ∈ argv, IsWord a) :
    words (lineOf e argv) = e.name :: argv := by
  have hall : ∀ w ∈ e.name :: argv, IsWord w := List.forall_mem_cons.mpr ⟨he, hargv⟩
  rw [words, lineOf, List.splitOn_intercalate 0x20 (fun w hw => (hall w hw).2)
    (List.cons_ne_nil _ _)]
  exact List.filter_eq_self.mpr fun w hw => by simpa using (hall w hw).1

theorem line_lineOf (he : IsWord e.name) (hargv : ∀ a ∈ argv, IsWord a) :
    tb.line path (lineOf e argv) = tb.answer path (e.name :: argv) := by
  have hwords := words_lineOf he hargv
  have hne : lineOf e argv ≠ [] := by
    intro hnil
    rw [hnil] at hwords
    exact absurd hwords.symm (List.cons_ne_nil _ _)
  rw [Tables.line, if_neg hne, hwords]

theorem find_name (hnamed : tb.IsNamed) {t : T} (he : e ∈ tb.entries t) :
    (tb.entries t).find? (fun e' => text e'.command == e.name) = some e := by
  cases hfind : (tb.entries t).find? fun e' => text e'.command == e.name with
  | none => exact absurd (beq_self_eq_true e.name) (List.find?_eq_none.mp hfind e he)
  | some e' =>
    have hfound := List.find?_some hfind
    have hname : e'.name = e.name := eq_of_beq hfound
    rw [List.inj_on_of_nodup_map (hnamed.nodup t) (List.mem_of_find?_eq_some hfind) he hname]

theorem line_call (hnamed : tb.IsNamed) {cb : F} (he : e ∈ tb.entries (tb.dir path))
    (hcb : e.cbCommand = some cb) (hargv : ∀ a ∈ argv, IsWord a) :
    tb.line path (lineOf e argv) = (path, [.call cb argv]) := by
  rw [line_lineOf (hnamed.isWord _ e he) hargv, Tables.answer, if_neg (hnamed.ne_up _ e he),
    if_neg (hnamed.ne_here _ e he), find_name hnamed he]
  simp only [hcb]

theorem line_down (hnamed : tb.IsNamed) {t : T} (he : e ∈ tb.entries (tb.dir path))
    (hnext : e.next = some t) :
    tb.line path (lineOf e []) = (path ++ [e], tb.listing (path ++ [e])) := by
  have hcb : e.cbCommand = none := hnamed.next _ e he (by simp [hnext])
  have hargv : ∀ a ∈ ([] : List (List UInt8)), IsWord a := fun a ha => absurd ha List.not_mem_nil
  rw [line_lineOf (hnamed.isWord _ e he) hargv, Tables.answer, if_neg (hnamed.ne_up _ e he),
    if_neg (hnamed.ne_here _ e he), find_name hnamed he]
  simp only [hcb, hnext, ne_eq, not_true_eq_false, if_false]

/-! ## What is called -/

/-- The command that is called. -/
def Effect.called : Effect F → Option (F × List (List UInt8))
  | .print _ => none
  | .call cb argv => some (cb, argv)

/-- The commands that are called. -/
def calls (l : List (Effect F)) : List (F × List (List UInt8)) := l.filterMap Effect.called

theorem calls_append (l l' : List (Effect F)) : calls (l ++ l') = calls l ++ calls l' :=
  List.filterMap_append

theorem takesOver_of_calls {l : List (Effect F)} (h : calls l = []) :
    ∀ x ∈ l, x.takesOver tb = false := by
  intro x hx
  cases x with
  | print text => rfl
  | call cb argv => exact absurd (List.filterMap_eq_nil_iff.mp h _ hx) (Option.some_ne_none _)

theorem calls_listing (path : List (CommandInfo T F)) : calls (tb.listing path) = [] := by
  have hprompt : calls (Tables.prompt path) = [] := by
    rw [Tables.prompt, calls_append]
    split_ifs
    · rfl
    · rw [calls, List.filterMap_map]
      exact List.append_eq_nil_iff.mpr ⟨List.filterMap_eq_nil_iff.mpr fun e _ => rfl, rfl⟩
  have hentries : calls ((tb.entries (tb.dir path)).map listed) = [] := by
    rw [calls, List.filterMap_map]
    exact List.filterMap_eq_nil_iff.mpr fun e _ => rfl
  have hhead : ∀ (text : String) (l : List (Effect F)), calls (.print text :: l) = calls l :=
    fun text l => List.filterMap_cons_none rfl
  rw [Tables.listing, List.cons_append, hhead, calls_append, hhead, hentries, hprompt]
  rfl

/-- **The names of a path** lead to its table, and nothing is called on the way. -/
theorem lines_names (hnamed : tb.IsNamed) (hpath : IsPath tb path) (ls : List (List UInt8)) :
    calls (tb.lines [] (path.map (lineOf · []) ++ ls)) = calls (tb.lines path ls) := by
  induction hpath generalizing ls with
  | root => rfl
  | @down path e t hpath he hnext ih =>
    rw [List.map_append, List.append_assoc, ih, List.map_singleton, List.singleton_append,
      Tables.lines, line_down hnamed he hnext, calls_append, calls_listing, List.nil_append]

end Names

/-! ## This program -/

theorem isNamed_commandTables : commandTables.IsNamed where
  isWord t := by cases t <;> decide
  ne_up t := by cases t <;> decide
  ne_here t := by cases t <;> decide
  nodup t := by cases t <;> decide
  next t := by cases t <;> decide

/-- The entries of a table that lead to another one. -/
def entriesTo (t t' : CommandTable) : List (CommandInfo CommandTable Command) :=
  (commandTables.entries t).filter (·.next = some t')

/-- The entries on the way to a table. -/
def CommandTable.path : CommandTable → List (CommandInfo CommandTable Command)
  | .root => []
  | .psisiManagerDumpTables =>
    entriesTo .root .psisiManager ++ entriesTo .psisiManager .psisiManagerDumpTables
  | t => entriesTo .root t

theorem isPath_entriesTo {path : List (CommandInfo CommandTable Command)} {t : CommandTable}
    (t' : CommandTable) (h : IsPath commandTables path ∧ commandTables.dir path = t)
    (hone : (entriesTo t t').length = 1) :
    IsPath commandTables (path ++ entriesTo t t') ∧
      commandTables.dir (path ++ entriesTo t t') = t' := by
  obtain ⟨hpath, rfl⟩ := h
  obtain ⟨e, he⟩ := List.length_eq_one_iff.mp hone
  have hmem : e ∈ entriesTo (commandTables.dir path) t' := he ▸ List.mem_singleton_self e
  obtain ⟨hentry, hnext⟩ := List.mem_filter.mp hmem
  rw [he]
  exact ⟨.down hpath hentry (of_decide_eq_true hnext), dir_concat (of_decide_eq_true hnext)⟩

theorem isPath_path (t : CommandTable) :
    IsPath commandTables t.path ∧ commandTables.dir t.path = t := by
  have hroot : IsPath commandTables [] ∧ commandTables.dir [] = .root := ⟨.root, rfl⟩
  have hbelow := isPath_entriesTo t hroot
  cases t with
  | root => exact hroot
  | psisiManagerDumpTables =>
    have hmanager := isPath_entriesTo .psisiManager hroot rfl
    exact isPath_entriesTo .psisiManagerDumpTables hmanager rfl
  | _ => exact hbelow rfl

/-- The lines that call a command: the names of the tables on the way to its table, and its own
with the arguments. -/
def linesTo (t : CommandTable) (e : CommandInfo CommandTable Command)
    (argv : List (List UInt8)) : List (List UInt8) :=
  t.path.map (lineOf · []) ++ [lineOf e argv]

/-- **Each command of this program can be called**, with all arguments that can be written in a
line: over a connection with the lines that lead to it, it is called once, with these arguments,
and nothing else is. -/
theorem serve_calls {t : CommandTable} {e : CommandInfo CommandTable Command} {cb : Command}
    {argv chunks : List (List UInt8)} (copy : List UInt8 → ℕ → Option (List UInt8))
    (buf : List UInt8) (he : e ∈ commandTables.entries t) (hcb : e.cbCommand = some cb)
    (hargv : ∀ a ∈ argv, IsWord a) (hlines : ∀ l ∈ linesTo t e argv, 0 ∉ l ∧ ¬ crlf <:+: l)
    (hchunks : chunks.flatten = (linesTo t e argv).flatMap (· ++ crlf))
    (hne : ∀ chunk ∈ chunks, chunk ≠ []) (hfit : ∀ u ∈ texts crlf [] chunks, u.length ≤ 127)
    (hcopy : copy = strncpyForward buffSize ∨
      ∀ u ∈ texts crlf [] chunks, (cutText crlf u).1 = [] ∨ (cutText crlf u).2 = []) :
    (serve commandTables copy buf chunks).map calls = some [(cb, argv)] := by
  obtain ⟨hpath, hdir⟩ := isPath_path t
  have hcalls : calls (commandTables.lines [] (linesTo t e argv)) = [(cb, argv)] := by
    rw [linesTo, lines_names isNamed_commandTables hpath, Tables.lines,
      line_call isNamed_commandTables (hdir.symm ▸ he) hcb hargv]
    rfl
  have hleave : commandTables.Leaves [] (linesTo t e argv).dropLast := by
    apply takesOver_of_calls
    rw [linesTo, List.dropLast_concat, ← List.append_nil (t.path.map (lineOf · [])),
      lines_names isNamed_commandTables hpath]
    rfl
  have hbegin : calls (.print "###  command line  begin. ###\n" :: commandTables.listing []) = [] :=
    (List.filterMap_cons_none rfl).trans (calls_listing [])
  rw [serve_lines isTree_commandTables copy buf hleave hlines hchunks hne hfit hcopy, Option.map_some,
    Tables.session, calls_append, calls_append, hbegin, hcalls]
  rfl

/-- `dump EIT (p/f)`, two tables down from the root, with an argument. -/
theorem serve_calls_pmDumpEitPf : (serve commandTables (strncpy buffSize) []
    [[0x70, 0x6d, 0x0d, 0x0a, 0x74, 0x0d, 0x0a],
      [0x65, 0x69, 0x74, 0x5f, 0x70, 0x66, 0x20, 0x31, 0x0d, 0x0a]]).map calls =
    some [(.pmDumpEitPf, [[0x31]])] :=
  serve_calls (t := .psisiManagerDumpTables)
    (e := ⟨"eit_pf", "dump EIT (p/f)", some .pmDumpEitPf, none⟩) _ [] (by decide) rfl (by decide)
    (by decide) (by decide) (by decide) (by decide) (.inr (by decide))

end CommandServer

end AutoRec
