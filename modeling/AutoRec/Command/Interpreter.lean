import AutoRec.Command.Tables

/-!
# The commands of a connection

What `command_server::manager` (`command_server/command_server.cpp`) does with the lines: it goes
down to other tables and up again, shows where it is, and calls the commands.

* `Shell`, `Effect`, `findCommand`, `parseCommand`, `serve`: the model.
* `Tables.dir`, `Tables.answer`, `Tables.session`: what it is for, without the stacks.
* `words_trim`, `eq_of_words_trim`: the words of a line.
* `At`, `At.findCommand`, **`serve_session`**: the model does it, over a whole connection.
-/

namespace AutoRec

namespace CommandServer

open Delimited Strings

/-! ## The model -/

/-- `gp_current_command_table`, `stack_` and `stack_sub_`. -/
structure Shell (T F : Type) where
  current : T
  stack : Stack T
  stackSub : Stack (CommandInfo T F)

/-- What happens for a line. -/
inductive Effect (F : Type)
  /-- `_COM_SVR_PRINT`. -/
  | print (text : String)
  /-- `cb_command`. -/
  | call (cb : F) (argv : List (List UInt8))
deriving DecidableEq

/-- The bytes of a text in ASCII. -/
def text (s : String) : List UInt8 := s.toList.map fun c => UInt8.ofNat c.toNat

/-- The tokens of `strtok_r`, for a blank. -/
def words (line : List UInt8) : List (List UInt8) := (line.splitOn 0x20).filter (· ≠ [])

/-- `%-ns`. -/
def padded (n : ℕ) (s : String) : String := s.pushn ' ' (n - s.length)

section Model

variable {T F : Type} [DecidableEq T] (tb : Tables T F)

/-- `print_sub_tables`. -/
def printSubTables (s : Shell T F) : Option (List (Effect F)) :=
  if s.stackSub.sp < 1 then some [.print "/"]
  else (List.range s.stackSub.sp).mapM fun i =>
    (s.stackSub.ref i).map fun e => .print ("/" ++ e.desc)

/-- A line of `show_list`. -/
def listed (e : CommandInfo T F) : Effect F :=
  .print ("  " ++ padded 20 e.command ++ " -- " ++ padded 30 e.desc ++ "\n")

/-- `show_list`. -/
def showList (s : Shell T F) (desc : String) : Option (List (Effect F)) := do
  let sub ← printSubTables s
  return .print ("\n  ------ " ++ desc ++ " ------\n") :: (tb.entries s.current).map listed ++
    .print "\n" :: sub ++ [Effect.print " > "]

/-- The list of the current table, under its name. -/
def showCurrent (s : Shell T F) : Option (Shell T F × List (Effect F)) :=
  if s.current = tb.root then (showList tb s "root tables").map fun l => (s, l)
  else do
    let e ← s.stackSub.peep
    let l ← showList tb s e.desc
    return (s, l)

/-- `find_command`. -/
def findCommand (s : Shell T F) (command : List UInt8) (argv : List (List UInt8)) :
    Option (Shell T F × List (Effect F)) :=
  if command = text ".." then
    if argv ≠ [] then some (s, [.print "invalid arguments...\n"])
    else
      let s' := { s with stack := s.stack.pop.2, stackSub := s.stackSub.pop.2 }
      match s.stack.pop.1 with
      | some t => showCurrent tb { s' with current := t }
      | none => some (s', [])
  else if command = text "." then
    if argv ≠ [] then some (s, [.print "invalid arguments...\n"]) else showCurrent tb s
  else
    match (tb.entries s.current).find? fun e => text e.command == command with
    | none => some (s, [.print "invalid command...\n"])
    | some e =>
      match e.cbCommand, e.next with
      | some cb, _ => some (s, [.call cb argv])
      | none, some t =>
        if argv ≠ [] then some (s, [.print "invalid arguments...\n"])
        else
          let s' : Shell T F := ⟨t, s.stack.push s.current, s.stackSub.push e⟩
          (showList tb s' e.desc).map fun l => (s', l)
      | none, none => some (s, [.print "command table registration is invalid...\n"])

/-- `parse_command`. The copy in `sz_tmp` has to have an end. -/
def parseCommand (s : Shell T F) (line : List UInt8) : Option (Shell T F × List (Effect F)) :=
  if line = [] then some (s, [])
  else if 128 ≤ line.length then none
  else
    match words line with
    | [] => some (s, [])
    | [_] => findCommand tb s line []
    | command :: argv => findCommand tb s command argv

/-- `on_command_line_through`, or `parse_command` and `on_command_line_available`. -/
def onLine (s : Shell T F) : LineCall → Option (Shell T F × List (Effect F))
  | .through => (printSubTables s).map fun l => (s, l ++ [Effect.print " > "])
  | .parse line => parseCommand tb s line

/-- The command that is called takes over the connection. -/
def Effect.takesOver : Effect F → Bool
  | .print _ => false
  | .call cb _ => tb.takesOver cb

/-- The calls of a connection. There is no result for what follows behind a command that takes over the
connection, which may be for this command, or come too late. -/
def onLines : Shell T F → List LineCall → Option (Shell T F × List (Effect F))
  | s, [] => some (s, [])
  | s, c :: calls => do
    let (s, l) ← onLine tb s c
    if calls ≠ [] ∧ l.any (Effect.takesOver tb) then none
    else
      let (s, l') ← onLines s calls
      return (s, l ++ l')

/-- `on_command_wait_begin`. -/
def onCommandWaitBegin : Option (Shell T F × List (Effect F)) :=
  let s : Shell T F := ⟨tb.root, .clear, .clear⟩
  (showList tb s "root tables").map fun l => (s, .print "###  command line  begin. ###\n" :: l)

/-- A connection of `server_loop`, up to `on_command_wait_end`, with the chunks received. -/
def serve (copy : List UInt8 → ℕ → Option (List UInt8)) (buf : List UInt8)
    (chunks : List (List UInt8)) : Option (List (Effect F)) := do
  let (s, l) ← onCommandWaitBegin tb
  let (calls, _) ← recvParseDelimiter copy crlf ⟨buf, false⟩ chunks
  let (_, l') ← onLines tb s calls
  return l ++ l' ++ [Effect.print "\n###  command line  exit. ###\n"]

end Model

/-! ## What it is for -/

namespace Tables

variable {T F : Type} [DecidableEq T] (tb : Tables T F)

/-- The table that a path leads to: from the root down, by the entries. -/
def dir (path : List (CommandInfo T F)) : T := (path.getLast?.bind CommandInfo.next).getD tb.root

/-- The path, as it is shown. -/
def prompt (path : List (CommandInfo T F)) : List (Effect F) :=
  (if path = [] then [Effect.print "/"] else path.map fun e => .print ("/" ++ e.desc)) ++
    [Effect.print " > "]

/-- The table that a path leads to, as it is shown. -/
def listing (path : List (CommandInfo T F)) : List (Effect F) :=
  .print ("\n  ------ " ++ path.getLast?.elim "root tables" CommandInfo.desc ++ " ------\n") ::
    (tb.entries (tb.dir path)).map listed ++ Effect.print "\n" :: prompt path

/-- The answer to the words of a line. -/
def answer (path : List (CommandInfo T F)) :
    List (List UInt8) → List (CommandInfo T F) × List (Effect F)
  | [] => (path, [])
  | command :: argv =>
    if command = text ".." then
      if argv ≠ [] then (path, [.print "invalid arguments...\n"])
      else if path = [] then (path, []) else (path.dropLast, tb.listing path.dropLast)
    else if command = text "." then
      if argv ≠ [] then (path, [.print "invalid arguments...\n"]) else (path, tb.listing path)
    else
      match (tb.entries (tb.dir path)).find? fun e => text e.command == command with
      | none => (path, [.print "invalid command...\n"])
      | some e =>
        match e.cbCommand, e.next with
        | some cb, _ => (path, [.call cb argv])
        | none, some _ =>
          if argv ≠ [] then (path, [.print "invalid arguments...\n"])
          else (path ++ [e], tb.listing (path ++ [e]))
        | none, none => (path, [.print "command table registration is invalid...\n"])

/-- The answer to a line. -/
def line (path : List (CommandInfo T F)) (l : List UInt8) :
    List (CommandInfo T F) × List (Effect F) :=
  if l = [] then (path, prompt path) else tb.answer path (words l)

/-- The answers to lines. -/
def lines : List (CommandInfo T F) → List (List UInt8) → List (Effect F)
  | _, [] => []
  | path, l :: ls => (tb.line path l).2 ++ lines (tb.line path l).1 ls

/-- The lines call no command that takes over the connection. -/
def Leaves (path : List (CommandInfo T F)) (ls : List (List UInt8)) : Prop :=
  ∀ x ∈ tb.lines path ls, x.takesOver tb = false

instance (path : List (CommandInfo T F)) (ls : List (List UInt8)) : Decidable (tb.Leaves path ls) :=
  inferInstanceAs (Decidable (∀ x ∈ tb.lines path ls, _))

/-- A connection. -/
def session (ls : List (List UInt8)) : List (Effect F) :=
  .print "###  command line  begin. ###\n" :: tb.listing [] ++ tb.lines [] ls ++
    [.print "\n###  command line  exit. ###\n"]

/-- The tables lie below each other, and the stack has room for them. -/
structure IsTree (depth : T → ℕ) : Prop where
  root : depth tb.root = 0
  next : ∀ t, ∀ e ∈ tb.entries t, ∀ t', e.next = some t' → depth t' = depth t + 1
  room : ∀ t, depth t ≤ stackDepth

end Tables

/-! ## The words of a line -/

section Words

variable {l : List UInt8} {b w : UInt8}

theorem words_append_cons (a l : List UInt8) : words (a ++ 0x20 :: l) = words a ++ words l := by
  rw [words, List.splitOn_append_cons_self, List.filter_append, words, words]

theorem words_cons (l : List UInt8) : words (0x20 :: l) = words l := words_append_cons [] l

theorem words_concat (l : List UInt8) : words (l ++ [0x20]) = words l :=
  (words_append_cons l []).trans (List.append_nil _)

theorem words_ne_nil (hb : b ∈ l) (hne : b ≠ 0x20) : words l ≠ [] := by
  induction l with
  | nil => cases hb
  | cons x l ih =>
    by_cases hx : x = 0x20
    · rw [hx, words_cons]
      exact ih ((List.mem_cons.mp hb).resolve_left fun h => hne (h.trans hx))
    · obtain ⟨v, vs, hsplit⟩ := List.exists_cons_of_ne_nil (List.splitOn_ne_nil 0x20 l)
      rw [words, List.splitOn_cons_eq_if_modifyHead, if_neg (by simpa using hx), hsplit,
        List.modifyHead_cons, List.filter_cons_of_pos (by simp)]
      exact List.cons_ne_nil _ _

theorem words_dropWhile (l : List UInt8) : words (l.dropWhile (· = 0x20)) = words l := by
  induction l with
  | nil => rfl
  | cons x l ih =>
    by_cases hx : x = 0x20
    · rw [List.dropWhile_cons_of_pos (by simpa using hx), ih, hx, words_cons]
    · rw [List.dropWhile_cons_of_neg (by simpa using hx)]

theorem words_rdropWhile (l : List UInt8) : words (l.rdropWhile (· = 0x20)) = words l := by
  induction l using List.reverseRecOn with
  | nil => rfl
  | append_singleton l x ih =>
    by_cases hx : x = 0x20
    · rw [List.rdropWhile_concat_pos _ _ _ (by simpa using hx), ih, hx, words_concat]
    · rw [List.rdropWhile_concat_neg _ _ _ (by simpa using hx)]

theorem words_trim (l : List UInt8) : words (trim l) = words l := by
  rw [trim, words_rdropWhile, words_dropWhile]

theorem length_trim_le (l : List UInt8) : (trim l).length ≤ l.length :=
  ((List.rdropWhile_prefix _ _).length_le).trans (List.dropWhile_suffix _).length_le

theorem ne_of_trim_eq_cons {t : List UInt8} (h : trim l = b :: t) : b ≠ 0x20 := by
  obtain ⟨behind, hfront⟩ := List.rdropWhile_prefix (p := (· = 0x20)) (l.dropWhile (· = 0x20))
  have hhead := List.head?_dropWhile_not (· = 0x20) l
  rw [← hfront, ← trim, h] at hhead
  simpa using hhead

theorem ne_of_trim_eq_concat {t : List UInt8} (h : trim l = t ++ [b]) : b ≠ 0x20 := by
  have hne : trim l ≠ [] := by
    rw [h]
    exact List.append_ne_nil_of_right_ne_nil t (List.cons_ne_nil b [])
  have hlast : ¬ decide ((trim l).getLast hne = 0x20) = true :=
    List.rdropWhile_last_not (fun x : UInt8 => decide (x = 0x20)) _ hne
  have hgetLast : (trim l).getLast hne = b := by
    rw [List.getLast_congr hne (by simp) h, List.getLast_append_singleton]
  rw [hgetLast] at hlast
  simpa using hlast

/-- **A line of one word** is this word, without the blanks at its ends. -/
theorem eq_of_words_trim {v : List UInt8} (h : words (trim l) = [v]) : trim l = v := by
  by_cases hblank : 0x20 ∈ trim l
  · exfalso
    obtain ⟨front, behind, hsplit⟩ := List.append_of_mem hblank
    -- there is a word on both sides of the blank
    have hfront : words front ≠ [] := by
      cases front with
      | nil => exact absurd rfl (ne_of_trim_eq_cons hsplit)
      | cons x front => exact words_ne_nil List.mem_cons_self (ne_of_trim_eq_cons hsplit)
    have hbehind : words behind ≠ [] := by
      cases behind using List.reverseRecOn with
      | nil => exact absurd rfl (ne_of_trim_eq_concat hsplit)
      | append_singleton behind x =>
        have hlast : trim l = (front ++ 0x20 :: behind) ++ [x] := by
          rw [hsplit, List.append_assoc]
          rfl
        exact words_ne_nil (List.mem_append_right _ List.mem_cons_self) (ne_of_trim_eq_concat hlast)
    rw [hsplit, words_append_cons] at h
    have hlen := congrArg List.length h
    rw [List.length_append, List.length_singleton] at hlen
    have := List.length_pos_iff.mpr hfront
    have := List.length_pos_iff.mpr hbehind
    omega
  · have hone : words (trim l) = [trim l].filter (· ≠ []) := by
      rw [words, List.splitOn_eq_singleton hblank]
    rw [hone] at h
    exact List.mem_singleton.mp (List.mem_of_mem_filter (h ▸ List.mem_singleton_self v)) |>.symm

end Words

/-! ## The stacks -/

section Stacks

variable {T F : Type} {tb : Tables T F} {depth : T → ℕ} {path : List (CommandInfo T F)}
  {e : CommandInfo T F} {s : Shell T F}

/-- The entries of a path lead down from the root. -/
inductive IsPath (tb : Tables T F) : List (CommandInfo T F) → Prop
  | root : IsPath tb []
  | down {path : List (CommandInfo T F)} {e : CommandInfo T F} {t : T} (h : IsPath tb path)
      (he : e ∈ tb.entries (tb.dir path)) (hnext : e.next = some t) : IsPath tb (path ++ [e])

theorem dir_concat {t : T} (hnext : e.next = some t) : tb.dir (path ++ [e]) = t := by
  rw [Tables.dir, List.getLast?_concat, Option.bind_some, hnext, Option.getD_some]

theorem IsPath.depth_dir (h : IsPath tb path) (htree : tb.IsTree depth) :
    depth (tb.dir path) = path.length := by
  induction h with
  | root => exact htree.root
  | down h he hnext ih =>
    rw [dir_concat hnext, htree.next _ _ he _ hnext, ih, List.length_append, List.length_singleton]

theorem IsPath.length_le (h : IsPath tb path) (htree : tb.IsTree depth) :
    path.length ≤ stackDepth := h.depth_dir htree ▸ htree.room _

theorem IsPath.dir_eq_root_iff (h : IsPath tb path) (htree : tb.IsTree depth) :
    tb.dir path = tb.root ↔ path = [] := by
  constructor
  · intro hroot
    have hdepth := h.depth_dir htree
    rw [hroot, htree.root] at hdepth
    exact List.length_eq_zero_iff.mp hdepth.symm
  · rintro rfl
    rfl

/-- The stacks have the path: the entries in one, the tables that they are in in the other. -/
structure At (tb : Tables T F) (path : List (CommandInfo T F)) (s : Shell T F) : Prop where
  isPath : IsPath tb path
  current : s.current = tb.dir path
  sp : s.stack.sp = path.length
  spSub : s.stackSub.sp = path.length
  cell : ∀ i < path.length, s.stack.cell i = some (tb.dir (path.take i))
  cellSub : ∀ i < path.length, s.stackSub.cell i = path[i]?

namespace At

theorem down {t : T} (h : At tb path s) (htree : tb.IsTree depth)
    (he : e ∈ tb.entries s.current) (hnext : e.next = some t) :
    At tb (path ++ [e]) ⟨t, s.stack.push s.current, s.stackSub.push e⟩ := by
  have hpath : IsPath tb (path ++ [e]) := .down h.isPath (h.current ▸ he) hnext
  have hroom : path.length < stackDepth := by
    have hle := hpath.length_le htree
    rw [List.length_append, List.length_singleton] at hle
    omega
  have hfull : s.stack.sp ≠ stackDepth := by rw [h.sp]; exact Nat.ne_of_lt hroom
  have hfullSub : s.stackSub.sp ≠ stackDepth := by rw [h.spSub]; exact Nat.ne_of_lt hroom
  simp only [Stack.push, if_neg hfull, if_neg hfullSub]
  refine ⟨hpath, (dir_concat hnext).symm, ?_, ?_, fun i hi => ?_, fun i hi => ?_⟩
  · rw [h.sp, List.length_append, List.length_singleton]
  · rw [h.spSub, List.length_append, List.length_singleton]
  · rw [List.length_append, List.length_singleton] at hi
    show Function.update s.stack.cell s.stack.sp _ i = _
    rw [h.sp, Function.update_apply, List.take_append_of_le_length (by omega)]
    by_cases hlast : i = path.length
    · rw [if_pos hlast, hlast, List.take_length, h.current]
    · rw [if_neg hlast, h.cell i (by omega)]
  · rw [List.length_append, List.length_singleton] at hi
    show Function.update s.stackSub.cell s.stackSub.sp _ i = _
    rw [h.spSub, Function.update_apply]
    by_cases hlast : i = path.length
    · rw [if_pos hlast, hlast, List.getElem?_concat_length]
    · rw [if_neg hlast, h.cellSub i (by omega), List.getElem?_append_left (by omega)]

theorem pop_nil (h : At tb [] s) :
    s.stack.pop = (none, s.stack) ∧ s.stackSub.pop = (none, s.stackSub) :=
  ⟨if_pos h.sp, if_pos h.spSub⟩

theorem up (h : At tb (path ++ [e]) s) : s.stack.pop.1 = some (tb.dir path) ∧
    At tb path ⟨tb.dir path, s.stack.pop.2, s.stackSub.pop.2⟩ := by
  have hlen : (path ++ [e]).length = path.length + 1 := List.length_append
  have hsome : ¬ s.stack.sp = 0 := by rw [h.sp, hlen]; exact Nat.succ_ne_zero _
  have hsomeSub : ¬ s.stackSub.sp = 0 := by rw [h.spSub, hlen]; exact Nat.succ_ne_zero _
  have hpath : IsPath tb path := by
    have hlong := h.isPath
    generalize hq : path ++ [e] = q at hlong
    cases hlong with
    | root => simp at hq
    | down hfront he hnext =>
      obtain ⟨rfl, -⟩ := List.append_inj' hq rfl
      exact hfront
  have htop : s.stack.sp - 1 = path.length := by rw [h.sp, hlen, Nat.add_sub_cancel]
  have htopSub : s.stackSub.sp - 1 = path.length := by rw [h.spSub, hlen, Nat.add_sub_cancel]
  rw [Stack.pop, Stack.pop, if_neg hsome, if_neg hsomeSub, htop, htopSub]
  refine ⟨?_, hpath, rfl, rfl, rfl, fun i hi => ?_, fun i hi => ?_⟩
  · rw [h.cell path.length (by omega), List.take_left]
  · show Function.update s.stack.cell path.length none i = _
    rw [Function.update_of_ne (Nat.ne_of_lt hi), h.cell i (by omega),
      List.take_append_of_le_length (Nat.le_of_lt hi)]
  · show Function.update s.stackSub.cell path.length none i = _
    rw [Function.update_of_ne (Nat.ne_of_lt hi), h.cellSub i (by omega),
      List.getElem?_append_left hi]

theorem peep (h : At tb path s) : s.stackSub.peep = path.getLast? := by
  rw [Stack.peep, h.spSub]
  by_cases hnil : path = []
  · rw [hnil]
    rfl
  · have hpos : ¬ path.length = 0 := fun hzero => hnil (List.length_eq_zero_iff.mp hzero)
    rw [if_neg hpos, h.cellSub _ (by omega), List.getLast?_eq_getElem?]

theorem mapM_ref (h : At tb path s) (htree : tb.IsTree depth) (f : CommandInfo T F → Effect F)
    {n : ℕ} (hn : n ≤ path.length) :
    (List.range n).mapM (fun i => (s.stackSub.ref i).map f) = some ((path.take n).map f) := by
  induction n with
  | zero => rfl
  | succ n ih =>
    have hroom : ¬ stackDepth ≤ n := by
      have := h.isPath.length_le htree
      omega
    have href : s.stackSub.ref n = some path[n] := by
      rw [Stack.ref, if_neg hroom, h.cellSub n hn, List.getElem?_eq_getElem hn]
    have htake : path.take (n + 1) = path.take n ++ [path[n]] := (List.take_append_getElem hn).symm
    rw [List.range_succ, List.mapM_append, ih (by omega), List.mapM_cons, href, htake,
      List.map_append]
    rfl

theorem printSubTables (h : At tb path s) (htree : tb.IsTree depth) : printSubTables s =
    some (if path = [] then [.print "/"] else path.map fun e => .print ("/" ++ e.desc)) := by
  rw [CommandServer.printSubTables, h.spSub]
  by_cases hnil : path = []
  · rw [hnil]
    rfl
  · have hpos : ¬ path.length < 1 := by
      have := List.length_pos_iff.mpr hnil
      omega
    rw [if_neg hpos, if_neg hnil, h.mapM_ref htree _ le_rfl, List.take_length]

theorem showList (h : At tb path s) (htree : tb.IsTree depth) :
    showList tb s (path.getLast?.elim "root tables" CommandInfo.desc) = some (tb.listing path) := by
  rw [CommandServer.showList, h.printSubTables htree, h.current, Tables.listing, Tables.prompt]
  simp only [Option.bind_eq_bind, Option.bind_some, Option.pure_def, List.append_assoc,
    List.cons_append]

theorem enter (h : At tb path s) (htree : tb.IsTree depth) {t : T}
    (he : e ∈ tb.entries s.current) (hnext : e.next = some t) :
    (CommandServer.showList tb ⟨t, s.stack.push s.current, s.stackSub.push e⟩ e.desc).map
        (fun l => (⟨t, s.stack.push s.current, s.stackSub.push e⟩, l)) =
      some ((⟨t, s.stack.push s.current, s.stackSub.push e⟩ : Shell T F),
        tb.listing (path ++ [e])) := by
  have hlist := (h.down htree he hnext).showList htree
  rw [List.getLast?_concat] at hlist
  exact congrArg (Option.map fun l => (_, l)) hlist

variable [DecidableEq T]

theorem showCurrent (h : At tb path s) (htree : tb.IsTree depth) :
    showCurrent tb s = some (s, tb.listing path) := by
  have hlist := h.showList htree
  have hroot := h.isPath.dir_eq_root_iff htree
  rw [← h.current] at hroot
  rw [CommandServer.showCurrent, h.peep]
  by_cases hnil : path = []
  · rw [if_pos (hroot.mpr hnil)]
    rw [hnil] at hlist ⊢
    exact congrArg (Option.map fun l => (s, l)) hlist
  · obtain ⟨front, e, rfl⟩ := (List.eq_nil_or_concat' path).resolve_left hnil
    rw [if_neg (mt hroot.mp hnil)]
    rw [List.getLast?_concat] at hlist ⊢
    rw [Option.bind_eq_bind, Option.bind_some]
    exact congrArg (fun l => l.bind fun l => some (s, l)) hlist

/-- **A command**: the answer is that for the path, and the stacks have the path that it leads to. -/
theorem findCommand (h : At tb path s) (htree : tb.IsTree depth) (command : List UInt8)
    (argv : List (List UInt8)) : ∃ s', findCommand tb s command argv =
      some (s', (tb.answer path (command :: argv)).2) ∧
        At tb (tb.answer path (command :: argv)).1 s' := by
  rw [CommandServer.findCommand, Tables.answer]
  by_cases hup : command = text ".."
  · rw [if_pos hup, if_pos hup]
    by_cases harg : argv ≠ []
    · rw [if_pos harg, if_pos harg]
      exact ⟨s, rfl, h⟩
    · rw [if_neg harg, if_neg harg]
      rcases List.eq_nil_or_concat' path with rfl | ⟨front, e, rfl⟩
      · -- at the root there is nothing on the stacks
        obtain ⟨hpop, hpopSub⟩ := h.pop_nil
        rw [hpop, hpopSub]
        exact ⟨s, rfl, h⟩
      · obtain ⟨hpop, hat⟩ := h.up
        rw [hpop, if_neg (List.append_ne_nil_of_right_ne_nil front (List.cons_ne_nil e [])),
          List.dropLast_concat]
        exact ⟨_, hat.showCurrent htree, hat⟩
  rw [if_neg hup, if_neg hup]
  by_cases hhere : command = text "."
  · rw [if_pos hhere, if_pos hhere]
    by_cases harg : argv ≠ []
    · rw [if_pos harg, if_pos harg]
      exact ⟨s, rfl, h⟩
    · rw [if_neg harg, if_neg harg]
      exact ⟨s, h.showCurrent htree, h⟩
  rw [if_neg hhere, if_neg hhere, ← h.current]
  cases hfind : (tb.entries s.current).find? fun e => text e.command == command with
  | none => exact ⟨s, rfl, h⟩
  | some e =>
    cases hcb : e.cbCommand with
    | some cb => exact ⟨s, by simp only [hcb], by simpa only [hcb] using h⟩
    | none =>
      cases hnext : e.next with
      | none => exact ⟨s, by simp only [hcb, hnext], by simpa only [hcb, hnext] using h⟩
      | some t =>
        by_cases harg : argv ≠ []
        · exact ⟨s, by simp only [hcb, hnext, if_pos harg],
            by simpa only [hcb, hnext, if_pos harg] using h⟩
        · have he := List.mem_of_find?_eq_some hfind
          refine ⟨⟨t, s.stack.push s.current, s.stackSub.push e⟩, ?_, ?_⟩
          · simp only [hcb, hnext, if_neg harg]
            exact h.enter htree he hnext
          · simpa only [hcb, hnext, if_neg harg] using h.down htree he hnext

/-- **A line**, with no blanks at its ends and not too long for the copy that is made of it. -/
theorem parseCommand (h : At tb path s) (htree : tb.IsTree depth) {l : List UInt8}
    (hlen : l.length < 128) : ∃ s', parseCommand tb s (trim l) =
      some (s', (tb.answer path (words l)).2) ∧ At tb (tb.answer path (words l)).1 s' := by
  have htrim : (trim l).length < 128 := (length_trim_le l).trans_lt hlen
  rw [CommandServer.parseCommand, ← words_trim l]
  by_cases hnil : trim l = []
  · rw [if_pos hnil, hnil]
    exact ⟨s, rfl, h⟩
  rw [if_neg hnil, if_neg (Nat.not_le.mpr htrim)]
  cases hwords : words (trim l) with
  | nil => exact ⟨s, rfl, h⟩
  | cons command argv =>
    cases argv with
    | nil => exact eq_of_words_trim hwords ▸ h.findCommand htree (trim l) []
    | cons arg argv => exact h.findCommand htree command (arg :: argv)

theorem onLine (h : At tb path s) (htree : tb.IsTree depth) {l : List UInt8}
    (hlen : l.length < 128) : ∃ s', onLine tb s (.of l) = some (s', (tb.line path l).2) ∧
      At tb (tb.line path l).1 s' := by
  rw [LineCall.of, Tables.line]
  by_cases hnil : l = []
  · rw [if_pos hnil, if_pos hnil, CommandServer.onLine, h.printSubTables htree]
    exact ⟨s, rfl, h⟩
  · rw [if_neg hnil, if_neg hnil]
    exact h.parseCommand htree hlen

/-- **The lines**, one after the other; none but the last one calls a command that takes over the
connection. -/
theorem onLines (h : At tb path s) (htree : tb.IsTree depth) {ls : List (List UInt8)}
    (hlen : ∀ l ∈ ls, l.length < 128) (hleave : tb.Leaves path ls.dropLast) :
    ∃ s', onLines tb s (ls.map LineCall.of) = some (s', tb.lines path ls) := by
  induction ls generalizing path s with
  | nil => exact ⟨s, rfl⟩
  | cons l ls ih =>
    obtain ⟨hl, hlen⟩ := List.forall_mem_cons.mp hlen
    obtain ⟨s₁, hs₁, hat⟩ := h.onLine htree hl
    obtain ⟨hnone, hleave⟩ : ¬ (ls.map LineCall.of ≠ [] ∧ (tb.line path l).2.any (Effect.takesOver tb)) ∧
        tb.Leaves (tb.line path l).1 ls.dropLast := by
      cases ls with
      | nil => exact ⟨fun h => h.1 rfl, fun x hx => absurd hx List.not_mem_nil⟩
      | cons l' ls =>
        obtain ⟨hfirst, hrest⟩ := List.forall_mem_append.mp hleave
        refine ⟨fun h => ?_, hrest⟩
        obtain ⟨x, hx, htakes⟩ := List.any_eq_true.mp h.2
        exact Bool.false_ne_true ((hfirst x hx).symm.trans htakes)
    obtain ⟨s₂, hs₂⟩ := ih hat hlen hleave
    refine ⟨s₂, ?_⟩
    rw [List.map_cons, CommandServer.onLines, hs₁, Option.bind_eq_bind, Option.bind_some]
    simp only [if_neg hnone, hs₂, Option.bind_some, Option.pure_def]
    rfl

end At

end Stacks

/-! ## A connection -/

section Connection

variable {delim r : List UInt8} {lines chunks : List (List UInt8)}

theorem length_le_of_mem_cutText (hdelim : delim ≠ []) (hrest : ¬ delim <:+: r) {n : ℕ}
    (hfit : ∀ u ∈ texts delim r chunks, u.length ≤ n) :
    ∀ l ∈ (cutText delim (r ++ chunks.flatten)).1, l.length ≤ n := by
  induction chunks generalizing r with
  | nil =>
    have hcut : cutText delim (r ++ [].flatten) = ([], r) :=
      (cutText_eq_iff hdelim).mpr ⟨List.append_nil r, by simp, hrest⟩
    rw [hcut]
    exact fun l hl => absurd hl List.not_mem_nil
  | cons chunk chunks ih =>
    obtain ⟨hlen, hfit⟩ := List.forall_mem_cons.mp hfit
    have hcut := isCut_cutText delim (r ++ chunk) hdelim
    rw [List.flatten_cons, ← List.append_assoc, cutText_append delim _ _ hdelim]
    intro l hl
    rcases List.mem_append.mp hl with hl | hl
    · have hpart : (l ++ delim).Sublist ((cutText delim (r ++ chunk)).1.flatMap (· ++ delim)) :=
        List.sublist_flatten_of_mem (List.mem_map_of_mem hl)
      have hwhole := congrArg List.length hcut.eq
      have hle := hpart.length_le
      rw [List.length_append] at hwhole hle
      rw [List.length_append] at hwhole
      rw [List.length_append] at hlen
      omega
    · exact ih hcut.rest hfit l hl

theorem at_clear {T F : Type} (tb : Tables T F) : At tb [] ⟨tb.root, .clear, .clear⟩ :=
  ⟨.root, rfl, rfl, rfl, fun _ hi => absurd hi (Nat.not_lt_zero _),
    fun _ hi => absurd hi (Nat.not_lt_zero _)⟩

/-- A connection, with tables that lie below each other. -/
theorem serve_lines {T F : Type} [DecidableEq T] {tb : Tables T F} {depth : T → ℕ}
    (htree : tb.IsTree depth) (copy : List UInt8 → ℕ → Option (List UInt8)) (buf : List UInt8)
    (hleave : tb.Leaves [] lines.dropLast)
    (hlines : ∀ l ∈ lines, 0 ∉ l ∧ ¬ crlf <:+: l)
    (hchunks : chunks.flatten = lines.flatMap (· ++ crlf)) (hne : ∀ chunk ∈ chunks, chunk ≠ [])
    (hfit : ∀ u ∈ texts crlf [] chunks, u.length ≤ 127)
    (hcopy : copy = strncpyForward buffSize ∨
      ∀ u ∈ texts crlf [] chunks, (cutText crlf u).1 = [] ∨ (cutText crlf u).2 = []) :
    serve tb copy buf chunks = some (tb.session lines) := by
  have hlen : ∀ l ∈ lines, l.length < 128 := by
    have hle := length_le_of_mem_cutText (by decide) (by decide) hfit
    rw [List.nil_append, hchunks, cutText_crlf hlines] at hle
    exact fun l hl => Nat.lt_succ_of_le (hle l hl)
  obtain ⟨x, hx⟩ := recv_lines copy buf hlines hchunks hne hfit hcopy
  obtain ⟨s, hs⟩ := (at_clear tb).onLines htree hlen hleave
  have hbegin : onCommandWaitBegin tb = some (⟨tb.root, .clear, .clear⟩,
      .print "###  command line  begin. ###\n" :: tb.listing []) := by
    have hlist : showList tb ⟨tb.root, .clear, .clear⟩ "root tables" = some (tb.listing []) :=
      (at_clear tb).showList htree
    rw [onCommandWaitBegin, hlist, Option.map_some]
  simp only [serve, hbegin, hx, hs, Option.bind_eq_bind, Option.bind_some, Option.pure_def]
  rfl

/-- How deep the tables of this program lie. -/
def CommandTable.depth : CommandTable → ℕ
  | .root => 0
  | .psisiManagerDumpTables => 2
  | _ => 1

theorem isTree_commandTables : commandTables.IsTree CommandTable.depth where
  root := rfl
  next t := by
    have hall : ∀ e ∈ commandTables.entries t, ∀ t' ∈ e.next, t'.depth = t.depth + 1 := by
      cases t <;> decide
    exact fun e he t' hnext => hall e he t' hnext
  room t := by cases t <;> decide

/-- **A connection to this program**, in which no line follows one that calls a command that takes over
the connection: what is shown and called is what the lines say. The stacks are never too small, and what
is taken from them is there. -/
theorem serve_session (copy : List UInt8 → ℕ → Option (List UInt8)) (buf : List UInt8)
    (hleave : commandTables.Leaves [] lines.dropLast)
    (hlines : ∀ l ∈ lines, 0 ∉ l ∧ ¬ crlf <:+: l)
    (hchunks : chunks.flatten = lines.flatMap (· ++ crlf)) (hne : ∀ chunk ∈ chunks, chunk ≠ [])
    (hfit : ∀ u ∈ texts crlf [] chunks, u.length ≤ 127)
    (hcopy : copy = strncpyForward buffSize ∨
      ∀ u ∈ texts crlf [] chunks, (cutText crlf u).1 = [] ∨ (cutText crlf u).2 = []) :
    serve commandTables copy buf chunks = some (commandTables.session lines) :=
  serve_lines isTree_commandTables copy buf hleave hlines hchunks hne hfit hcopy

/-- Down to a table, a command with an argument, up again, and an empty line, in three chunks. -/
theorem serve_session_three : serve commandTables (strncpy buffSize) []
    [[0x73, 0x0d, 0x0a], [0x65, 0x20, 0x20, 0x68, 0x65],
      [0x6c, 0x6c, 0x6f, 0x0d, 0x0a, 0x2e, 0x2e, 0x0d, 0x0a, 0x0d, 0x0a]] =
    some (commandTables.session
      [[0x73], [0x65, 0x20, 0x20, 0x68, 0x65, 0x6c, 0x6c, 0x6f], [0x2e, 0x2e], []]) :=
  serve_session _ [] (by decide) (by decide) (by decide) (by decide) (by decide) (.inr (by decide))

end Connection

end CommandServer

end AutoRec
