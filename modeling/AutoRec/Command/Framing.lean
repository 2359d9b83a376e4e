import AutoRec.Common.Strings

/-!
# The lines of a command connection

`recv_parse_delimiter` and `parse_delimiter` of `command_server::manager`
(`command_server/command_server.cpp`). What the commands do, the wait for the socket, and the end of
a connection are left out. The last turn of `parse_delimiter` may copy the rest of the text within
its buffer; this copy is a parameter.

* `LineCall`, `parseLoop`, `parseDelimiter`: the calls for the text in the buffer.
* `Receiver`, `recv`, `recvParseDelimiter`: the chunks that are received.
* `parseLoop_line`, `parseLoop_lines`: one line, and all of them. `parseDelimiter_of_lines`,
  `parseDelimiter_of_rest`, `parseDelimiter_of_both`: a text.
* **`recv_iff`**: a connection, with the copy of the standard library.
* **`recv_forward`**: the same with a copy from the first byte on.
-/

namespace AutoRec

namespace CommandServer

open Buffer Delimited Strings

/-! ## The model -/

/-- A call for a line. -/
inductive LineCall
  /-- `_on_command_line_through`. -/
  | through
  /-- `parse_command`. -/
  | parse (line : List UInt8)
deriving DecidableEq, Repr

/-- The variables of `parse_delimiter`, with the calls that have been made. -/
structure ParseState where
  s : Option ℕ
  tok : Strtok
  isRemain : Bool
  n : ℕ
  calls : List LineCall
deriving DecidableEq, Repr

/-- What `parse_delimiter` has done. -/
structure Parsed where
  calls : List LineCall
  buf : List UInt8
  isRemain : Bool
deriving DecidableEq, Repr

section Model

variable (copy : List UInt8 → ℕ → Option (List UInt8)) (delim : List UInt8)

/-- The loop of `parse_delimiter`, for the turns that are given. `none`: there are more of them, or
nothing is known of the copy. -/
def parseLoop : ℕ → ParseState → Option Parsed
  | 0, _ => none
  | turns + 1, x =>
    match strtokRImpl x.s delim x.tok with
    | (none, tok) => some ⟨x.calls, tok.buf, x.isRemain || x.n == 0⟩
    | (some token, tok) =>
      if strlen tok.buf token = 0 then
        parseLoop turns ⟨none, tok, x.isRemain, x.n + 1, x.calls ++ [LineCall.through]⟩
      else if 0 < strlen tok.buf tok.saveptr ∨ tok.isTailDelim = true then
        let buf := deleteTailSp (deleteHeadSp tok.buf token) token
        parseLoop turns ⟨none, { tok with buf := buf }, x.isRemain, x.n + 1,
          x.calls ++ [LineCall.parse (strAt 0 buf token)]⟩
      else
        (copy tok.buf token).bind fun buf =>
          parseLoop turns ⟨none, { tok with buf := buf }, true, x.n + 1, x.calls⟩

/-- `parse_delimiter`. -/
def parseDelimiter (buf : List UInt8) : Option Parsed :=
  if strlen buf 0 = 0 ∨ delim = [] then some ⟨[], buf, false⟩
  else parseLoop copy delim (buf.length + 1) ⟨some 0, ⟨buf, 0, false⟩, false, 0, []⟩

/-- `sizeof (sz_buff)`. -/
def buffSize : ℕ := 128

/-- The variables of `recv_parse_delimiter` between two chunks. -/
structure Receiver where
  buf : List UInt8
  isParseRemain : Bool
deriving DecidableEq, Repr

/-- A chunk is received, of which there is room for. -/
def recv (r : Receiver) (chunk : List UInt8) : Option (List LineCall × Receiver) :=
  let buf := if r.isParseRemain then r.buf else .replicate buffSize 0
  let offset := if r.isParseRemain then strlen buf 0 else 0
  (parseDelimiter copy delim (overwrite buf offset chunk)).map fun p =>
    (p.calls, ⟨p.buf, p.isRemain⟩)

/-- `recv_parse_delimiter`, with the chunks of a connection. -/
def recvParseDelimiter : Receiver → List (List UInt8) → Option (List LineCall × Receiver)
  | r, [] => some ([], r)
  | r, chunk :: chunks =>
    (recv copy delim r chunk).bind fun x =>
      (recvParseDelimiter x.2 chunks).map fun y => (x.1 ++ y.1, y.2)

end Model

/-! ## Lines -/

/-- The call for a line. -/
def LineCall.of (line : List UInt8) : LineCall := if line = [] then .through else .parse (trim line)

variable {copy : List UInt8 → ℕ → Option (List UInt8)} {delim l u r front behind : List UInt8}
  {turns : ℕ} {x : ParseState}

/-- The text `u` is left behind what has been taken off. -/
structure Left (front u behind : List UInt8) (x : ParseState) : Prop where
  s : x.s = none
  buf : x.tok.buf = front ++ (u ++ 0 :: behind)
  saveptr : x.tok.saveptr = front.length
  tail : x.tok.isTailDelim = true → u = []

theorem Left.isTailDelim (hx : Left front u behind x) (hne : u ≠ []) :
    x.tok.isTailDelim = false := Bool.eq_false_iff.mpr fun h => hne (hx.tail h)

variable (copy turns) in
/-- **One line.** -/
theorem parseLoop_line (hdelim : delim ≠ []) (hl : IsLine delim l) (hzero : 0 ∉ l ++ delim ++ u)
    (hx : Left front (l ++ delim ++ u) behind x) :
    ∃ front' y, parseLoop copy delim (turns + 1) x = parseLoop copy delim turns y ∧
      front'.length = front.length + (l ++ delim).length ∧ Left front' u behind y ∧
      y.isRemain = x.isRemain ∧ y.n = x.n + 1 ∧ y.calls = x.calls ++ [LineCall.of l] := by
  have hne : l ++ delim ++ u ≠ [] := by simp [hdelim]
  have htail := hx.isTailDelim hne
  have hnext := next_line hdelim hl hzero hx.buf hx.saveptr
  have hl0 : 0 ∉ l := fun h => hzero (by simp [h])
  have hu0 : 0 ∉ u := fun h => hzero (by simp [h])
  obtain ⟨d, hd⟩ : ∃ d, delim.length = d + 1 :=
    Nat.exists_eq_add_one.mpr (List.length_pos_of_ne_nil hdelim)
  rw [hd, List.replicate_succ, List.cons_append] at hnext
  have hlen : strlen (front ++ (l ++ 0 :: (.replicate d 0 ++ (u ++ 0 :: behind)))) front.length =
      l.length := strlen_append front hl0
  rw [parseLoop, hx.s, strtokRImpl]
  simp only [hnext, hlen]
  by_cases hnil : l = []
  · subst hnil
    refine ⟨front ++ 0 :: .replicate d 0, _, if_pos rfl, ?_, ⟨rfl, ?_, ?_, ?_⟩, rfl, rfl, rfl⟩
    · simp [hd]
    · simp
    · simp
    · intro h
      simpa [htail] using h
  · -- there is a rest, or the delimiter is at the end
    have hmore : 0 < strlen (front ++ (l ++ 0 :: (.replicate d 0 ++ (u ++ 0 :: behind))))
        (front.length + l.length + (d + 1)) ∨ (x.tok.isTailDelim || u.isEmpty) = true := by
      rcases u with _ | ⟨b, u⟩
      · exact .inr (by simp)
      · left
        have hsplit : front ++ (l ++ 0 :: (.replicate d 0 ++ (b :: u ++ 0 :: behind))) =
            (front ++ (l ++ 0 :: .replicate d 0)) ++ (b :: u ++ 0 :: behind) := by simp
        have hfront : front.length + l.length + (d + 1) =
            (front ++ (l ++ 0 :: List.replicate d 0)).length := by
          simp
          omega
        rw [hsplit, hfront, strlen_append _ hu0]
        exact Nat.zero_lt_succ _
    have hpos : ¬ l.length = 0 := fun h => hnil (List.length_eq_zero_iff.mp h)
    obtain ⟨k, hk, hdelete⟩ := delete_sp hl0 front (.replicate d 0 ++ (u ++ 0 :: behind))
    rw [if_neg hpos, if_pos hmore, hdelete]
    refine ⟨front ++ (trim l ++ (.replicate k 0 ++ 0 :: .replicate d 0)), _, rfl, ?_,
      ⟨rfl, ?_, ?_, ?_⟩, rfl, rfl, ?_⟩
    · simp [hd]
      omega
    · simp
    · simp
      omega
    · intro h
      simpa [htail] using h
    · rw [replicate_append_cons, strAt_append front (zero_notMem_trim hl0), LineCall.of, if_neg hnil]

variable {lines : List (List UInt8)}

variable (copy turns) in
/-- **All the lines**, one turn for each. -/
theorem parseLoop_lines (hdelim : delim ≠ []) (hlines : ∀ l ∈ lines, IsLine delim l)
    (hzero : 0 ∉ lines.flatMap (· ++ delim) ++ r)
    (hx : Left front (lines.flatMap (· ++ delim) ++ r) behind x) :
    ∃ front' y, parseLoop copy delim (turns + lines.length) x = parseLoop copy delim turns y ∧
      front'.length = front.length + (lines.flatMap (· ++ delim)).length ∧
      Left front' r behind y ∧ y.isRemain = x.isRemain ∧ y.n = x.n + lines.length ∧
      y.calls = x.calls ++ lines.map LineCall.of := by
  induction lines generalizing front x with
  | nil => exact ⟨front, x, rfl, rfl, hx, rfl, rfl, (List.append_nil _).symm⟩
  | cons l lines ih =>
    obtain ⟨hl, hlines⟩ := List.forall_mem_cons.mp hlines
    rw [List.flatMap_cons, List.append_assoc] at hzero hx
    obtain ⟨front₁, y₁, hrun₁, hlen₁, hy₁, hremain₁, hn₁, hcalls₁⟩ :=
      parseLoop_line copy (turns + lines.length) hdelim hl hzero hx
    obtain ⟨front', y, hrun, hlen, hy, hremain, hn, hcalls⟩ :=
      ih hlines (fun h => hzero (List.mem_append_right _ h)) hy₁
    refine ⟨front', y, hrun₁.trans hrun, ?_, hy, hremain.trans hremain₁, ?_, ?_⟩
    · rw [hlen, hlen₁, List.flatMap_cons, Nat.add_assoc, ← List.length_append]
    · rw [hn, hn₁, List.length_cons]
      omega
    · rw [hcalls, hcalls₁, List.map_cons, List.append_assoc, List.singleton_append]

theorem parseLoop_nil (hdelim : delim ≠ []) (hs : x.s = none)
    (hnil : strAt 0 x.tok.buf x.tok.saveptr = []) :
    parseLoop copy delim (turns + 1) x = some ⟨x.calls, x.tok.buf, x.isRemain || x.n == 0⟩ := by
  rw [parseLoop, hs, strtokRImpl]
  simp only [next_nil hdelim hnil]

theorem parseLoop_rest (hr : ¬ delim <:+: r) (hne : r ≠ []) (hzero : 0 ∉ r)
    (hx : Left front r behind x) : parseLoop copy delim (turns + 1) x =
      (copy (front ++ (r ++ 0 :: behind)) front.length).bind fun buf =>
        parseLoop copy delim turns
          ⟨none, ⟨buf, front.length + r.length, false⟩, true, x.n + 1, x.calls⟩ := by
  have htail := hx.isTailDelim hne
  have hlen : strlen (front ++ (r ++ 0 :: behind)) front.length = r.length :=
    strlen_append front hzero
  have hend : strlen (front ++ (r ++ 0 :: behind)) (front.length + r.length) = 0 := by
    rw [← List.append_assoc, ← List.length_append]
    exact strlen_append (front ++ r) List.not_mem_nil
  have hpos : ¬ r.length = 0 := fun h => hne (List.length_eq_zero_iff.mp h)
  rw [parseLoop, hx.s, strtokRImpl]
  simp only [next_rest hr hne hzero hx.buf hx.saveptr, hx.buf, hlen, hend, htail]
  rw [if_neg hpos, if_neg (by simp)]

/-! ## A text -/

/-- The buffer with a text, and terminators behind it. -/
def fill (u : List UInt8) : List UInt8 := u ++ List.replicate (buffSize - u.length) 0

theorem length_fill (h : u.length ≤ buffSize) : (fill u).length = buffSize := by
  rw [fill, List.length_append, List.length_replicate]
  omega

theorem fill_eq (h : u.length < buffSize) :
    fill u = u ++ 0 :: .replicate (buffSize - u.length - 1) 0 := by
  obtain ⟨k, hk⟩ : ∃ k, buffSize - u.length = k + 1 := ⟨buffSize - u.length - 1, by omega⟩
  rw [fill, hk, List.replicate_succ, Nat.add_sub_cancel]

theorem strAt_fill (h : u.length < buffSize) (hzero : 0 ∉ u) : strAt 0 (fill u) 0 = u := by
  rw [fill_eq h]
  exact strAt_append [] hzero

theorem parseDelimiter_of_rest (hdelim : delim ≠ []) (hu : u.length < buffSize) (hne : u ≠ [])
    (hzero : 0 ∉ u) (hrest : ¬ delim <:+: u) :
    parseDelimiter copy delim (fill u) = some ⟨[], fill u, true⟩ := by
  have hnone : strstr (fill u) 0 delim = none := by
    rw [strstr, strAt_fill hu hzero, firstAt_eq_none_iff.mpr hrest]
    rfl
  have hlen : strlen (fill u) 0 = u.length := congrArg List.length (strAt_fill hu hzero)
  have hpos : ¬ (strlen (fill u) 0 = 0 ∨ delim = []) := by
    rw [hlen, List.length_eq_zero_iff]
    exact not_or.mpr ⟨hne, hdelim⟩
  rw [parseDelimiter, if_neg hpos, parseLoop, strtokRImpl, Strtok.first, hnone]
  rfl

theorem length_le_flatMap (lines : List (List UInt8)) (hdelim : delim ≠ []) :
    lines.length ≤ (lines.flatMap (· ++ delim)).length := by
  induction lines with
  | nil => exact Nat.le_refl 0
  | cons l lines ih =>
    have hpos := List.length_pos_of_ne_nil hdelim
    rw [List.flatMap_cons, List.length_append, List.length_append, List.length_cons]
    omega

variable (copy) in
/-- **A line is complete**: where the loop is when all the lines have been taken off. -/
theorem parseDelimiter_of_lines (hdelim : delim ≠ []) (hu : u.length < buffSize) (hzero : 0 ∉ u)
    (hcut : IsCut delim u lines r) (hlines : lines ≠ []) :
    ∃ front behind y turns, Left front r behind y ∧
      parseDelimiter copy delim (fill u) = parseLoop copy delim (turns + 2) y ∧
      y.isRemain = false ∧ y.n ≠ 0 ∧ y.calls = lines.map LineCall.of ∧
      front ≠ [] ∧ (front ++ (r ++ 0 :: behind)).length = buffSize := by
  have hstr := strAt_fill hu hzero
  have hmany := length_le_flatMap lines hdelim
  have hpos := List.length_pos_of_ne_nil hlines
  have hulen : (lines.flatMap (· ++ delim)).length + r.length = u.length := by
    rw [← List.length_append, ← hcut.eq]
  have hne : u ≠ [] := by
    rintro rfl
    simp only [List.length_nil] at hulen
    omega
  have hfound : strstr (fill u) 0 delim ≠ none := by
    rw [strstr, hstr, Ne, Option.map_eq_none_iff, firstAt_eq_none_iff, not_not, hcut.eq]
    obtain ⟨l, rest, rfl⟩ := List.exists_cons_of_ne_nil hlines
    exact ⟨l, rest.flatMap (· ++ delim) ++ r, by simp⟩
  have hcheck : ¬ (strlen (fill u) 0 = 0 ∨ delim = []) := by
    rw [strlen, hstr, List.length_eq_zero_iff]
    exact not_or.mpr ⟨hne, hdelim⟩
  -- the first call of `strtok_r_impl` is as the others
  have hfirst : ∀ turns, parseLoop copy delim (turns + 1) ⟨some 0, ⟨fill u, 0, false⟩, false, 0, []⟩ =
      parseLoop copy delim (turns + 1) ⟨none, ⟨fill u, 0, false⟩, false, 0, []⟩ := by
    intro turns
    have hstrtok : strtokRImpl (some 0) delim ⟨fill u, 0, false⟩ =
        strtokRImpl none delim ⟨fill u, 0, false⟩ := first_eq_next hfound
    rw [parseLoop, parseLoop, hstrtok]
  have hturns : (fill u).length = (buffSize - 1 - lines.length) + 1 + lines.length := by
    rw [length_fill (Nat.le_of_lt hu)]
    omega
  have hleft : Left [] (lines.flatMap (· ++ delim) ++ r) (.replicate (buffSize - u.length - 1) 0)
      ⟨none, ⟨fill u, 0, false⟩, false, 0, []⟩ := by
    refine ⟨rfl, ?_, rfl, fun htail => absurd htail Bool.false_ne_true⟩
    rw [← hcut.eq]
    exact fill_eq hu
  obtain ⟨front, y, hrun, hlen, hy, hremain, hn, hcalls⟩ := parseLoop_lines copy
    (buffSize - 1 - lines.length + 2) hdelim hcut.lines (hcut.eq ▸ hzero) hleft
  refine ⟨front, _, y, buffSize - 1 - lines.length, hy, ?_, hremain, ?_, hcalls, ?_, ?_⟩
  · rw [parseDelimiter, if_neg hcheck, hfirst, hturns, ← hrun, Nat.add_right_comm _ lines.length]
  · rw [hn]
    omega
  · rintro rfl
    simp only [List.length_nil] at hlen
    omega
  · simp only [List.length_nil] at hlen
    simp only [List.length_append, List.length_cons, List.length_replicate]
    omega

variable (copy) in
theorem parseDelimiter_of_nil (hdelim : delim ≠ []) (hu : u.length < buffSize) (hzero : 0 ∉ u)
    (hcut : IsCut delim u lines []) (hlines : lines ≠ []) :
    ∃ buf, parseDelimiter copy delim (fill u) = some ⟨lines.map LineCall.of, buf, false⟩ := by
  obtain ⟨front, behind, y, turns, hy, hrun, hremain, hn, hcalls, -, -⟩ :=
    parseDelimiter_of_lines copy hdelim hu hzero hcut hlines
  have hnil : strAt 0 y.tok.buf y.tok.saveptr = [] := by
    rw [hy.buf, hy.saveptr]
    exact strAt_append front List.not_mem_nil
  refine ⟨y.tok.buf, ?_⟩
  rw [hrun, parseLoop_nil hdelim hy.s hnil, hremain, hcalls, beq_false_of_ne hn]
  rfl

/-- **A rest behind the lines**: it is copied to the front of the buffer. -/
theorem parseDelimiter_of_both (hdelim : delim ≠ []) (hu : u.length < buffSize) (hzero : 0 ∉ u)
    (hcut : IsCut delim u lines r) (hlines : lines ≠ []) (hr : r ≠ []) :
    parseDelimiter (strncpy buffSize) delim (fill u) = none ∧
      parseDelimiter (strncpyForward buffSize) delim (fill u) =
        some ⟨lines.map LineCall.of, fill r, true⟩ := by
  have hzero' : 0 ∉ r := fun h => hzero (hcut.eq ▸ List.mem_append_right _ h)
  constructor
  · obtain ⟨front, behind, y, turns, hy, hrun, -, -, -, -, hlen⟩ :=
      parseDelimiter_of_lines (strncpy buffSize) hdelim hu hzero hcut hlines
    have hin : front.length < buffSize := by
      rw [← hlen, List.length_append, List.length_append, List.length_cons]
      omega
    rw [hrun, parseLoop_rest hcut.rest hr hzero' hy, strncpy, if_pos hin]
    rfl
  · obtain ⟨front, behind, y, turns, hy, hrun, -, -, hcalls, hfront, hlen⟩ :=
      parseDelimiter_of_lines (strncpyForward buffSize) hdelim hu hzero hcut hlines
    have hcopy : copyFront 0 front.length buffSize 0 (front ++ (r ++ 0 :: behind)) = fill r :=
      copyFront_append [] hfront hzero' hlen
    have hnil : strAt 0 (fill r) (front.length + r.length) = [] := by
      rw [strAt, fill, Nat.add_comm, List.drop_length_add_append, List.drop_replicate,
        List.takeWhile_replicate]
      rfl
    rw [hrun, parseLoop_rest hcut.rest hr hzero' hy, strncpyForward, hcopy, Option.bind_some,
      parseLoop_nil hdelim rfl hnil, hcalls]
    rfl

/-! ## A connection -/

/-- Each chunk, with what is carried over from the ones before. -/
def texts (delim : List UInt8) : List UInt8 → List (List UInt8) → List (List UInt8)
  | _, [] => []
  | r, chunk :: chunks => (r ++ chunk) :: texts delim (cutText delim (r ++ chunk)).2 chunks

/-- What the receiver has between two chunks: the rest `r` is carried over. -/
structure Between (r : List UInt8) (x : Receiver) : Prop where
  isParseRemain : x.isParseRemain = !r.isEmpty
  buf : r ≠ [] → x.buf = fill r

variable {x : Receiver} {chunk : List UInt8} {chunks : List (List UInt8)}

/-- Nothing is carried over to the first chunk, whatever the buffer has. -/
theorem between_nil (buf : List UInt8) : Between [] ⟨buf, false⟩ := ⟨rfl, fun h => absurd rfl h⟩

theorem recv_eq (hx : Between r x) (hlen : (r ++ chunk).length < buffSize) (hzero : 0 ∉ r) :
    recv copy delim x chunk = (parseDelimiter copy delim (fill (r ++ chunk))).map fun p =>
      (p.calls, ⟨p.buf, p.isRemain⟩) := by
  have hfill : overwrite (fill r) r.length chunk = fill (r ++ chunk) := by
    rw [fill, overwrite_append, List.drop_replicate, fill, List.length_append, Nat.sub_sub]
  by_cases hr : r = []
  · subst hr
    have hremain : x.isParseRemain = false := hx.isParseRemain
    rw [recv, hremain]
    exact congrArg (fun buf => (parseDelimiter copy delim buf).map _) hfill
  · have hremain : x.isParseRemain = true := by
      rw [hx.isParseRemain, Bool.not_eq_true', List.isEmpty_eq_false_iff]
      exact hr
    have hstr : strlen (fill r) 0 = r.length := by
      refine congrArg List.length (strAt_fill ?_ hzero)
      rw [List.length_append] at hlen
      omega
    rw [recv, hremain, hx.buf hr]
    simp only [if_true]
    rw [hstr, hfill]

variable (copy) in
/-- **One chunk**, where the copy does what it is meant to, or is not made. -/
theorem recv_ok (hdelim : delim ≠ []) (hx : Between r x) (hlen : (r ++ chunk).length < buffSize)
    (hzero : 0 ∉ r ++ chunk) (hne : chunk ≠ [])
    (hcopy : copy = strncpyForward buffSize ∨
      (cutText delim (r ++ chunk)).1 = [] ∨ (cutText delim (r ++ chunk)).2 = []) :
    ∃ y, recv copy delim x chunk = some ((cutText delim (r ++ chunk)).1.map LineCall.of, y) ∧
      Between (cutText delim (r ++ chunk)).2 y := by
  have hcut := isCut_cutText delim (r ++ chunk) hdelim
  rw [recv_eq hx hlen fun h => hzero (List.mem_append_left chunk h)]
  generalize (cutText delim (r ++ chunk)).1 = lines at hcut hcopy ⊢
  generalize (cutText delim (r ++ chunk)).2 = r' at hcut hcopy ⊢
  by_cases hlines : lines = []
  · obtain rfl : r ++ chunk = r' := by
      rw [hcut.eq, hlines]
      rfl
    have hne' : r ++ chunk ≠ [] := List.append_ne_nil_of_right_ne_nil r hne
    refine ⟨⟨fill (r ++ chunk), true⟩, ?_, ⟨?_, fun _ => rfl⟩⟩
    · rw [parseDelimiter_of_rest hdelim hlen hne' hzero hcut.rest, hlines]
      rfl
    · rw [List.isEmpty_eq_false_iff.mpr hne']
      rfl
  · by_cases hr' : r' = []
    · subst hr'
      obtain ⟨buf, hbuf⟩ := parseDelimiter_of_nil copy hdelim hlen hzero hcut hlines
      exact ⟨⟨buf, false⟩, by rw [hbuf]; rfl, between_nil buf⟩
    · obtain rfl := hcopy.resolve_right (not_or.mpr ⟨hlines, hr'⟩)
      refine ⟨⟨fill r', true⟩, ?_, ⟨?_, fun _ => rfl⟩⟩
      · rw [(parseDelimiter_of_both hdelim hlen hzero hcut hlines hr').2]
        rfl
      · rw [List.isEmpty_eq_false_iff.mpr hr']
        rfl

/-- **A chunk with a complete line and an unfinished one**: nothing is known of the copy. -/
theorem recv_undefined (hdelim : delim ≠ []) (hx : Between r x)
    (hlen : (r ++ chunk).length < buffSize) (hzero : 0 ∉ r ++ chunk)
    (hlines : (cutText delim (r ++ chunk)).1 ≠ []) (hrest : (cutText delim (r ++ chunk)).2 ≠ []) :
    recv (strncpy buffSize) delim x chunk = none := by
  rw [recv_eq hx hlen fun h => hzero (List.mem_append_left chunk h), Option.map_eq_none_iff]
  exact (parseDelimiter_of_both hdelim hlen hzero (isCut_cutText delim _ hdelim) hlines hrest).1

theorem zero_notMem_next (hdelim : delim ≠ []) (hzero : 0 ∉ r ++ chunk ++ chunks.flatten) :
    0 ∉ (cutText delim (r ++ chunk)).2 ++ chunks.flatten := by
  have hcut := isCut_cutText delim (r ++ chunk) hdelim
  intro h
  rcases List.mem_append.mp h with h | h
  · exact hzero (List.mem_append_left _ (hcut.eq ▸ List.mem_append_right _ h))
  · exact hzero (List.mem_append_right _ h)

variable (copy) in
/-- **The chunks of a connection**, one after the other. -/
theorem recvParseDelimiter_ok (hdelim : delim ≠ []) (hx : Between r x) (hrest : ¬ delim <:+: r)
    (hzero : 0 ∉ r ++ chunks.flatten) (hne : ∀ chunk ∈ chunks, chunk ≠ [])
    (hfit : ∀ u ∈ texts delim r chunks, u.length < buffSize)
    (hcopy : copy = strncpyForward buffSize ∨
      ∀ u ∈ texts delim r chunks, (cutText delim u).1 = [] ∨ (cutText delim u).2 = []) :
    ∃ y, recvParseDelimiter copy delim x chunks =
      some ((cutText delim (r ++ chunks.flatten)).1.map LineCall.of, y) := by
  induction chunks generalizing r x with
  | nil =>
    have hcut : cutText delim (r ++ [].flatten) = ([], r) :=
      (cutText_eq_iff hdelim).mpr ⟨List.append_nil r, by simp, hrest⟩
    exact ⟨x, by rw [hcut]; rfl⟩
  | cons chunk chunks ih =>
    obtain ⟨hchunk, hne⟩ := List.forall_mem_cons.mp hne
    obtain ⟨hlen, hfit⟩ := List.forall_mem_cons.mp hfit
    rw [List.flatten_cons, ← List.append_assoc] at hzero ⊢
    have hzero₁ : 0 ∉ r ++ chunk := fun h => hzero (List.mem_append_left _ h)
    obtain ⟨y₁, hy₁, hbetween⟩ := recv_ok copy hdelim hx hlen hzero₁ hchunk
      (hcopy.imp_right fun h => h _ List.mem_cons_self)
    have hcut := isCut_cutText delim (r ++ chunk) hdelim
    obtain ⟨y, hy⟩ := ih hbetween hcut.rest (zero_notMem_next hdelim hzero) hne hfit
      (hcopy.imp_right fun h u hu => h u (List.mem_cons_of_mem _ hu))
    refine ⟨y, ?_⟩
    rw [recvParseDelimiter, hy₁, Option.bind_some, hy,
      cutText_append delim (r ++ chunk) chunks.flatten hdelim, List.map_append]
    rfl

/-- **A chunk with a complete line and an unfinished one** ends what is known. -/
theorem recvParseDelimiter_undefined (hdelim : delim ≠ []) (hx : Between r x)
    (hzero : 0 ∉ r ++ chunks.flatten) (hne : ∀ chunk ∈ chunks, chunk ≠ [])
    (hfit : ∀ u ∈ texts delim r chunks, u.length < buffSize)
    (hboth : ∃ u ∈ texts delim r chunks, ¬ ((cutText delim u).1 = [] ∨ (cutText delim u).2 = [])) :
    recvParseDelimiter (strncpy buffSize) delim x chunks = none := by
  induction chunks generalizing r x with
  | nil =>
    obtain ⟨u, hu, -⟩ := hboth
    cases hu
  | cons chunk chunks ih =>
    obtain ⟨hchunk, hne⟩ := List.forall_mem_cons.mp hne
    obtain ⟨hlen, hfit⟩ := List.forall_mem_cons.mp hfit
    rw [List.flatten_cons, ← List.append_assoc] at hzero
    have hzero₁ : 0 ∉ r ++ chunk := fun h => hzero (List.mem_append_left _ h)
    by_cases hfirst : (cutText delim (r ++ chunk)).1 = [] ∨ (cutText delim (r ++ chunk)).2 = []
    · obtain ⟨y₁, hy₁, hbetween⟩ := recv_ok (strncpy buffSize) hdelim hx hlen hzero₁ hchunk
        (.inr hfirst)
      have hzero₂ := zero_notMem_next hdelim hzero
      have hlater : ∃ u ∈ texts delim (cutText delim (r ++ chunk)).2 chunks,
          ¬ ((cutText delim u).1 = [] ∨ (cutText delim u).2 = []) := by
        obtain ⟨u, hu, hboth⟩ := hboth
        rcases List.mem_cons.mp hu with rfl | hu
        · exact absurd hfirst hboth
        · exact ⟨u, hu, hboth⟩
      rw [recvParseDelimiter, hy₁, Option.bind_some, ih hbetween hzero₂ hne hfit hlater]
      rfl
    · obtain ⟨hlines, hrest⟩ := not_or.mp hfirst
      rw [recvParseDelimiter, recv_undefined hdelim hx hlen hzero₁ hlines hrest]
      rfl

/-! ## Lines with CR and LF -/

/-- The delimiter of the commands. -/
def crlf : List UInt8 := [0x0d, 0x0a]

theorem isLine_crlf (h : ¬ crlf <:+: l) : IsLine crlf l := by
  have hdrop : (l ++ crlf).dropLast = l ++ [0x0d] := by
    rw [List.dropLast_append_of_ne_nil (by decide)]
    rfl
  rw [IsLine, hdrop, List.infix_concat_iff, not_or]
  refine ⟨fun hsuffix => ?_, h⟩
  obtain ⟨t, ht⟩ := hsuffix
  have hlast := congrArg List.getLast? ht
  simp [crlf] at hlast

theorem cutText_crlf (h : ∀ l ∈ lines, 0 ∉ l ∧ ¬ crlf <:+: l) :
    cutText crlf (lines.flatMap (· ++ crlf)) = (lines, []) :=
  (cutText_eq_iff (by decide)).mpr
    ⟨(List.append_nil _).symm, fun l hl => isLine_crlf (h l hl).2, by decide⟩

theorem zero_notMem_crlf (h : ∀ l ∈ lines, 0 ∉ l ∧ ¬ crlf <:+: l) :
    0 ∉ lines.flatMap (· ++ crlf) := by
  intro hz
  obtain ⟨l, hl, hz⟩ := List.mem_flatMap.mp hz
  rcases List.mem_append.mp hz with hz | hz
  · exact (h l hl).1 hz
  · exact absurd hz (by decide)

/-- The lines come out, where each copy does what it is meant to, or none is made. -/
theorem recv_lines (copy : List UInt8 → ℕ → Option (List UInt8)) (buf : List UInt8)
    (hlines : ∀ l ∈ lines, 0 ∉ l ∧ ¬ crlf <:+: l)
    (hchunks : chunks.flatten = lines.flatMap (· ++ crlf)) (hne : ∀ chunk ∈ chunks, chunk ≠ [])
    (hfit : ∀ u ∈ texts crlf [] chunks, u.length ≤ 127)
    (hcopy : copy = strncpyForward buffSize ∨
      ∀ u ∈ texts crlf [] chunks, (cutText crlf u).1 = [] ∨ (cutText crlf u).2 = []) :
    ∃ x, recvParseDelimiter copy crlf ⟨buf, false⟩ chunks = some (lines.map LineCall.of, x) := by
  have hzero : 0 ∉ [] ++ chunks.flatten := hchunks ▸ zero_notMem_crlf hlines
  obtain ⟨y, hy⟩ := recvParseDelimiter_ok copy (by decide) (between_nil buf) (by decide) hzero hne
    (fun u hu => Nat.lt_succ_of_le (hfit u hu)) hcopy
  rw [List.nil_append, hchunks, cutText_crlf hlines] at hy
  exact ⟨y, hy⟩

/-- **A connection**: the calls are those for the lines, however they are cut, if and only if no
chunk, with what is carried over, has a complete line and an unfinished one behind it. -/
theorem recv_iff (lines chunks : List (List UInt8)) (buf : List UInt8)
    (hlines : ∀ l ∈ lines, 0 ∉ l ∧ ¬ crlf <:+: l)
    (hchunks : chunks.flatten = lines.flatMap (· ++ crlf)) (hne : ∀ chunk ∈ chunks, chunk ≠ [])
    (hfit : ∀ u ∈ texts crlf [] chunks, u.length ≤ 127) :
    (∃ x, recvParseDelimiter (strncpy buffSize) crlf ⟨buf, false⟩ chunks =
        some (lines.map LineCall.of, x)) ↔
      ∀ u ∈ texts crlf [] chunks, (cutText crlf u).1 = [] ∨ (cutText crlf u).2 = [] := by
  constructor
  · rintro ⟨x, hx⟩ u hu
    by_contra hboth
    have hzero : 0 ∉ [] ++ chunks.flatten := hchunks ▸ zero_notMem_crlf hlines
    rw [recvParseDelimiter_undefined (by decide) (between_nil buf) hzero hne
      (fun u hu => Nat.lt_succ_of_le (hfit u hu)) ⟨u, hu, hboth⟩] at hx
    cases hx
  · exact fun h => recv_lines _ buf hlines hchunks hne hfit (.inr h)

/-- A line and an empty one, in four chunks. -/
theorem recv_iff_four : ∃ x, recvParseDelimiter (strncpy buffSize) crlf ⟨[], false⟩
    [[0x20, 0x61], [0x62, 0x0d], [0x0a], [0x0d, 0x0a]] =
      some ([.parse [0x61, 0x62], .through], x) :=
  (recv_iff [[0x20, 0x61, 0x62], []] [[0x20, 0x61], [0x62, 0x0d], [0x0a], [0x0d, 0x0a]] []
    (by decide) (by decide) (by decide) (by decide)).mpr (by decide)

/-- **A line and the beginning of the next one** in a chunk. -/
theorem not_recv_always : ¬ ∀ (lines chunks : List (List UInt8)) (buf : List UInt8),
    (∀ l ∈ lines, 0 ∉ l ∧ ¬ crlf <:+: l) → chunks.flatten = lines.flatMap (· ++ crlf) →
    (∀ chunk ∈ chunks, chunk ≠ []) → (∀ u ∈ texts crlf [] chunks, u.length ≤ 127) →
    ∃ x, recvParseDelimiter (strncpy buffSize) crlf ⟨buf, false⟩ chunks =
      some (lines.map LineCall.of, x) := by
  intro h
  obtain ⟨x, hx⟩ := h [[0x61, 0x62], [0x63, 0x64]]
    [[0x61, 0x62, 0x0d, 0x0a, 0x63, 0x64], [0x0d, 0x0a]] [] (by decide) (by decide) (by decide)
    (by decide)
  rw [recvParseDelimiter, recv_undefined (r := []) (by decide) (between_nil [])
    (by decide) (by decide) (by decide) (by decide)] at hx
  cases hx

/-- **However the text is cut**, with a copy from the first byte on. -/
theorem recv_forward (buf : List UInt8) (hlines : ∀ l ∈ lines, 0 ∉ l ∧ ¬ crlf <:+: l)
    (hchunks : chunks.flatten = lines.flatMap (· ++ crlf)) (hne : ∀ chunk ∈ chunks, chunk ≠ [])
    (hfit : ∀ u ∈ texts crlf [] chunks, u.length ≤ 127) :
    ∃ x, recvParseDelimiter (strncpyForward buffSize) crlf ⟨buf, false⟩ chunks =
      some (lines.map LineCall.of, x) :=
  recv_lines _ buf hlines hchunks hne hfit (.inl rfl)

end CommandServer

end AutoRec
