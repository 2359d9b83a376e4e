import AutoRec.Parser.Duplicates
import AutoRec.Parser.Headers

/-!
# Packets, piece by piece

A packet has a tail, which goes to the section in progress, and the sections that begin in it.

* `Piece`, `pieceState`: the tail, or what is left of the packet at the beginning of a turn.
* `received`: the section that a piece completes, and whether the parser knows it already.
* `Feed`, `feedStep`, `pieceStep`: a parser with the sections it has received, packet by packet and
  piece by piece; **`exec_packetPieces`**: a packet is the run of its pieces.
* `Passes`, `Sim.piece`: what a piece does to the sections completed so far.
* `Moves`, `moves_piece`: what it does to the state of the derived class.
-/

namespace AutoRec

open Arena SectionParser Inbox

variable {τ : Type} {H : Hooks τ} {P : ℕ} {s t s₁ : SectionParser τ} {I I' : Inbox} {b : List UInt8}

/-- A piece of a packet. -/
inductive Piece
  /-- The bytes that `check_section_follow` is given. -/
  | follow (b : List UInt8)
  /-- The bytes that are left at the beginning of a turn of the loop. -/
  | turn (b : List UInt8)
deriving DecidableEq

def Piece.bytes : Piece → List UInt8
  | follow b | turn b => b

namespace SectionParser

/-- The parser behind a turn. -/
def Turn.state : Turn τ → SectionParser τ
  | done _ s | next _ _ _ s => s

/-- What has been completed in front does not matter for the parser behind a turn. -/
theorem state_checkTurn (s : SectionParser τ) (b : List UInt8) (once : Bool) :
    (s.checkTurn H b once).state = (s.checkTurn H b false).state := by
  unfold SectionParser.checkTurn
  split
  · rfl
  · split
    · rfl
    · split
      · rfl
      · split
        · dsimp only
          split <;> rfl
        · rfl

variable (H) (s) in
/-- The parser behind a piece. -/
def pieceState : Piece → SectionParser τ
  | .follow b => (s.checkSectionFollow H b).2
  | .turn b => (s.checkTurn H b false).state

variable (s) in
/-- The section at `a`, if all its bytes are there and its CRC is right: whether it is known, and
its bytes. -/
def arrived (a : ℕ) : Option (Bool × List UInt8) :=
  match s.sectAt a with
  | some x =>
    if x.isReceiveAll && x.checkCrc32 s.pool then
      let z := slice s.pool x.raw (x.raw + x.totalLen)
      some (decide (z ∈ s.known.map Sect.bytes), z)
    else none
  | none => none

variable (H) (s) in
/-- **The section that a piece completes**, with the right CRC: whether it is known, and its bytes.
-/
def received : Piece → Option (Bool × List UInt8)
  | .follow b =>
    if s.isIgnoreSection then none
    else
      match s.workReceiving with
      | none => none
      | some _ =>
        match s.attachSectionList b with
        | (none, _) => none
        | (some a, s₁) => s₁.arrived a
  | .turn b =>
    match s.startOver.attachSectionList b with
    | (none, _) => none
    | (some a, s₁) =>
      match s₁.sectAt a with
      | none => none
      | some x => if (s₁.onSectionStarted H x).1 then s₁.arrived a else none

variable (H) (s) in
/-- The section of which the last bytes come in with a piece, and the parser that has all its bytes.
-/
def arriving : Piece → Option (SectionParser τ × SectionInfo)
  | .follow b =>
    if s.isIgnoreSection then none
    else
      match s.workReceiving with
      | none => none
      | some _ =>
        match s.attachSectionList b with
        | (none, _) => none
        | (some a, s₁) => ((s₁.sectAt a).filter SectionInfo.isReceiveAll).map (s₁, ·)
  | .turn b =>
    match s.startOver.attachSectionList b with
    | (none, _) => none
    | (some a, s₁) =>
      match s₁.sectAt a with
      | none => none
      | some x =>
        if (s₁.onSectionStarted H x).1 && x.isReceiveAll then some (s₁, x) else none

/-- The bytes of the section received, if there is one. -/
def receivedBytes (r : Option (Bool × List UInt8)) : List (List UInt8) := (r.map Prod.snd).toList

/-- A parser, and the sections it has received. -/
abbrev Feed (τ : Type) : Type := SectionParser τ × List (List UInt8)

variable (H) in
/-- A parser and the sections it has received, piece by piece. -/
def pieceStep (p : Feed τ) (piece : Piece) : Option (Feed τ) :=
  if piece.bytes = [] then none
  else some (pieceState H p.1 piece, p.2 ++ receivedBytes (received H p.1 piece))

/-- The pieces of the turns. -/
def turnPieces (l : List (SectionParser τ × List UInt8)) : List Piece := l.map fun tb => .turn tb.2

variable (H) in
/-- The sections that the turns receive. -/
def turnsReceived (l : List (SectionParser τ × List UInt8)) : List (List UInt8) :=
  l.flatMap fun tb => receivedBytes (received H tb.1 (.turn tb.2))

variable (H) (s) in
/-- The pieces of a packet. -/
def packetPieces (packet : Bool × List UInt8) : List Piece :=
  (packetTail packet).toList.map .follow ++ turnPieces (packetTurns H s packet)

variable (H) (s) in
/-- The sections that are received with a packet. -/
def packetReceived (packet : Bool × List UInt8) : List (List UInt8) :=
  (packetTail packet).toList.flatMap (fun b => receivedBytes (received H s (.follow b))) ++
    turnsReceived H (packetTurns H s packet)

variable (H) in
/-- **A parser and the sections it has received**, packet by packet. -/
def feedStep (p : Feed τ) (packet : Bool × List UInt8) : Option (Feed τ) :=
  (packetStep H p.1 packet).map fun t => (t, p.2 ++ packetReceived H p.1 packet)

/-! ## A packet is the run of its pieces -/

theorem exec_piece {R : List (List UInt8)} {piece : Piece} (hne : piece.bytes ≠ []) (l : List Piece) :
    Machine.exec (pieceStep H) (s, R) (piece :: l) = Machine.exec (pieceStep H)
      (pieceState H s piece, R ++ receivedBytes (received H s piece)) l := by
  rw [Machine.exec, pieceStep, if_neg hne]

theorem slice_ne_nil {payload : List UInt8} {p size : ℕ} (hp : p < payload.length)
    (hsize : size ≠ 0) : slice payload p (p + size) ≠ [] := by
  intro hnil
  have hlen := congrArg List.length hnil
  rw [slice, List.length_drop, List.length_take, List.length_nil] at hlen
  omega

theorem exec_loopTurns {payload : List UInt8} {n p size : ℕ} {r r' : CheckSection} {once : Bool}
    {R : List (List UInt8)} (h : checkLoop H payload n p size r once s = some (r', t)) :
    Machine.exec (pieceStep H) (s, R) (turnPieces (loopTurns H payload n p size once s)) =
      some (t, R ++ turnsReceived H (loopTurns H payload n p size once s)) := by
  induction n generalizing p size r once s R with
  | zero => cases h
  | succ n ih =>
    rw [checkLoop] at h
    rw [loopTurns]
    by_cases hsize : size = 0
    · rw [if_pos hsize, Option.some.injEq, Prod.mk.injEq] at h
      rw [if_pos hsize, turnPieces, turnsReceived, h.2]
      simp [Machine.exec]
    rw [if_neg hsize] at h ⊢
    cases hp : payload[p]? with
    | none =>
      rw [hp] at h
      cases h
    | some c =>
      simp only [hp] at h ⊢
      by_cases hff : c = 0xff
      · rw [if_pos hff, Option.some.injEq, Prod.mk.injEq] at h
        rw [if_pos hff, turnPieces, turnsReceived, h.2]
        simp [Machine.exec]
      rw [if_neg hff] at h ⊢
      by_cases hlen : payload.length < p + size
      · rw [if_pos hlen] at h
        cases h
      rw [if_neg hlen] at h ⊢
      set b := slice payload p (p + size)
      have hne : (Piece.turn b).bytes ≠ [] :=
        slice_ne_nil (List.getElem?_eq_some_iff.mp hp).1 hsize
      have hstate : pieceState H s (.turn b) = (s.checkTurn H b once).state :=
        (state_checkTurn s b once).symm
      have hcons : ∀ l, turnPieces ((s, b) :: l) = .turn b :: turnPieces l := fun _ => rfl
      have hrec : ∀ l, turnsReceived H ((s, b) :: l) =
          receivedBytes (received H s (.turn b)) ++ turnsReceived H l := fun _ => rfl
      rw [hcons, hrec, exec_piece hne, hstate, ← List.append_assoc]
      cases hturn : s.checkTurn H b once with
      | done r s' =>
        rw [hturn, Option.some.injEq, Prod.mk.injEq] at h
        simp [Turn.state, h.2, turnPieces, turnsReceived, Machine.exec]
      | next k r once' s' =>
        rw [hturn] at h
        cases k with
        | none => exact ih h
        | some k => exact ih h

/-- **A packet is the run of its pieces.** -/
theorem exec_packetPieces {packet : Bool × List UInt8} {r : CheckSection} {R : List (List UInt8)}
    (h : s.checkSection H packet.1 packet.2 = some (r, t)) :
    Machine.exec (pieceStep H) (s, R) (packetPieces H s packet) =
      some (t, R ++ packetReceived H s packet) := by
  unfold SectionParser.checkSection at h
  match packet with
  | (u, []) =>
    obtain ⟨-, rfl⟩ := Prod.mk.inj (Option.some.inj h)
    cases u <;> simp [packetPieces, packetReceived, packetTail, packetTurns, turnPieces, turnsReceived,
      Machine.exec]
  | (false, c :: l) =>
    have hcons : packetPieces H s (false, c :: l) = [.follow (c :: l)] := rfl
    have hstate : pieceState H s (.follow (c :: l)) = t := congrArg Prod.snd (Option.some.inj h)
    have hne : (Piece.follow (c :: l)).bytes ≠ [] := List.cons_ne_nil c l
    rw [hcons, exec_piece hne, hstate]
    simp [Machine.exec, packetReceived, packetTail, packetTurns, turnsReceived]
  | (true, n :: l) =>
    rw [if_neg (List.cons_ne_nil n l), if_pos rfl, checkSectionFirst] at h
    rw [packetPieces, packetReceived, packetTail, packetTurns]
    by_cases hn : l.length ≤ n.toNat
    · simp only [if_pos hn, Option.some.injEq, Prod.mk.injEq] at h
      simp [hn, Nat.not_lt.mpr hn, h.2, turnPieces, turnsReceived, Machine.exec]
    have hn' : n.toNat < l.length := Nat.lt_of_not_le hn
    simp only [if_neg hn] at h ⊢
    by_cases h0 : n = 0
    · subst h0
      simp only [UInt8.toNat_zero, if_true] at h
      simpa using exec_loopTurns h
    have h0' : n.toNat ≠ 0 := fun hz => h0 (UInt8.toNat_inj.mp hz)
    have hne : (Piece.follow (l.take n.toNat)).bytes ≠ [] := tail_ne_nil hn' h0
    simp only [if_neg h0', if_pos (And.intro hn' h0), Option.toList_some, List.map_cons, List.map_nil,
      List.flatMap_cons, List.flatMap_nil, List.append_nil, List.singleton_append] at h ⊢
    rw [exec_piece hne, pieceState, ← List.append_assoc]
    cases hf : s.checkSectionFollow H (l.take n.toNat) with
    | mk r₁ s₁ =>
      rw [hf] at h
      cases r₁ with
      | receiving | invalid =>
        obtain ⟨-, rfl⟩ := Prod.mk.inj (Option.some.inj h)
        simp [turnPieces, turnsReceived, Machine.exec]
      | completed | completedAlready | canceled | crc32Err | ignore => exact exec_loopTurns h

/-! ## What becomes of the section received -/

/-- The sections completed so far, behind a piece that completes the section `r`. -/
inductive Passes (calls : List Call) : Option (Bool × List UInt8) → List Call → Prop
  | nothing : Passes calls none calls
  | known {z : List UInt8} : Passes calls (some (true, z)) calls
  | passed {c : Call} : Passes calls (some (false, c.bytes)) (calls ++ [c])

variable {a : ℕ} {x : SectionInfo}

variable (s) in
/-- Whether the section `x` is known, and its bytes, if its CRC is right. -/
def arrival (x : SectionInfo) : Option (Bool × List UInt8) :=
  if crc32 (x.view s.pool).whole = 0 then
    some (decide ((x.view s.pool).whole ∈ s.known.map Sect.bytes), (x.view s.pool).whole)
  else none

theorem arrived_eq (hx : s.sectAt a = some x) (hall : x.isReceiveAll = true) :
    s.arrived a = s.arrival x := by
  have htotal : x.totalLen ≤ x.tail - x.raw := of_decide_eq_true hall
  have hpos : 3 ≤ x.totalLen := Nat.le_add_left 3 _
  have hslice : slice s.pool x.raw (x.raw + x.totalLen) = (x.view s.pool).whole :=
    (take_slice s.pool (j := x.tail) _ (by omega)).symm
  have hcrc : x.checkCrc32 s.pool = decide (crc32 (x.view s.pool).whole = 0) := by
    rw [SectionInfo.checkCrc32, hslice]
    rfl
  simp only [arrived, hx, hall, hcrc, hslice, Bool.true_and, arrival, decide_eq_true_eq]

/-- **The section of which the last bytes come in** is the one that is received. -/
theorem received_eq (piece : Piece) :
    received H s piece = (arriving H s piece).bind fun p => p.1.arrival p.2 := by
  cases piece with
  | follow b =>
    rw [received, arriving]
    split
    · rfl
    · split
      · rfl
      · split
        · rfl
        · rename_i a s₁ _
          cases hx : s₁.sectAt a with
          | none =>
            simp only [arrived, hx]
            rfl
          | some x =>
            cases hall : x.isReceiveAll with
            | true => simp [arrived_eq hx hall, Option.filter, hall]
            | false => simp [arrived, hx, Option.filter, hall]
  | turn b =>
    rw [received, arriving]
    split
    · rfl
    · split
      · rfl
      · rename_i a s₁ _ _ x hx
        cases hstart : (s₁.onSectionStarted H x).1 with
        | false => rfl
        | true =>
          cases hall : x.isReceiveAll with
          | true => simp [arrived_eq hx hall]
          | false => simp [arrived, hx, hall]

/-- What becomes of the section that arrives: there is none, and nothing is completed; or the parser
finishes it. -/
inductive Finished (base : List Sect) (s t : SectionParser τ) :
    Option (SectionParser τ × SectionInfo) → Prop
  | nothing (hcalls : t.calls = s.calls) : Finished base s t none
  | finished {s₁ : SectionParser τ} {x : SectionInfo} (hcalls : s₁.calls = s.calls)
    (hf : Finishes base s₁ t x) : Finished base s t (some (s₁, x))

theorem Sim.finished_follow (h : Sim P s I) (hb : b ≠ []) :
    Finished I.done s (s.checkSectionFollow H b).2 (arriving H s (.follow b)) := by
  rw [arriving]
  cases hi : s.isIgnoreSection with
  | true =>
    simp only [SectionParser.checkSectionFollow, hi, if_true]
    exact .nothing rfl
  | false =>
    cases hwork : s.workReceiving with
    | none =>
      simp only [SectionParser.checkSectionFollow, hi, hwork, if_neg hb]
      exact .nothing rfl
    | some a₀ =>
      obtain ⟨⟨_ | a, s₁⟩, ha⟩ : ∃ r, s.attachSectionList b = r := ⟨_, rfl⟩
      all_goals
        have he : s₁.env = s.env := (congrArg (fun r => r.2.env) ha).symm.trans env_attachSectionList
        have hcalls : s₁.calls = s.calls := congrArg Env.calls he
      · simp only [SectionParser.checkSectionFollow, hi, hwork, ha, if_neg hb]
        exact .nothing hcalls
      · cases hx : s₁.sectAt a with
        | none =>
          simp only [SectionParser.checkSectionFollow, hi, hwork, ha, hx, if_neg hb]
          exact .nothing hcalls
        | some x =>
          cases hall : x.isReceiveAll with
          | false =>
            have hnone : (some x).filter SectionInfo.isReceiveAll = none := by
              simp [Option.filter, hall]
            simp only [SectionParser.checkSectionFollow, hi, hwork, ha, hx, if_neg hb, hall, hnone]
            exact .nothing hcalls
          | true =>
            have hsome : (some x).filter SectionInfo.isReceiveAll = some x := by
              simp [Option.filter, hall]
            have hf := h.finishes_follow (H := H) hb hi (by simp [hwork]) ha hx hall
            simp only [ha, hx, hsome, Bool.false_eq_true, if_false, Option.map_some]
            exact .finished hcalls hf

theorem Sim.finished_turn (h : Sim P s I) (hb : b ≠ []) :
    Finished I.done s (s.checkTurn H b false).state (arriving H s (.turn b)) := by
  rw [arriving]
  obtain ⟨⟨_ | a, s₁⟩, ha⟩ : ∃ r, s.startOver.attachSectionList b = r := ⟨_, rfl⟩
  all_goals
    have he : s₁.env = s.env :=
      ((congrArg (fun r => r.2.env) ha).symm.trans env_attachSectionList).trans env_startOver
    have hcalls : s₁.calls = s.calls := congrArg Env.calls he
  · simp only [SectionParser.checkTurn, ha, Turn.state]
    exact .nothing hcalls
  · cases hx : s₁.sectAt a with
    | none =>
      simp only [SectionParser.checkTurn, ha, hx, Turn.state]
      exact .nothing hcalls
    | some x =>
      obtain ⟨⟨start, s₂⟩, hs₂⟩ :
        ∃ r, ({ s₁ with workSectInfo := some a } : SectionParser τ).onSectionStarted H x = r := ⟨_, rfl⟩
      have hstart : (s₁.onSectionStarted H x).1 = start := congrArg Prod.fst hs₂
      have hcalls₂ : s₂.calls = s.calls := (congrArg (fun r => r.2.calls) hs₂).symm.trans hcalls
      simp only [ha, hx, hstart]
      cases start with
      | false =>
        have hdrop : (s₂.dropWork a).calls = s₂.calls := congrArg Env.calls env_dropWork
        simp only [SectionParser.checkTurn, ha, hx, hs₂, Turn.state]
        exact .nothing (hdrop.trans hcalls₂)
      | true =>
        cases hall : x.isReceiveAll with
        | false =>
          simp only [SectionParser.checkTurn, ha, hx, hs₂, hall, Turn.state]
          exact .nothing hcalls₂
        | true =>
          obtain ⟨n, r, once, t, ht, -, hf⟩ := h.finishes_turn hb ha hx hstart hall false
          rw [ht]
          exact .finished hcalls hf

/-- **What a piece does with the section that arrives.** -/
theorem Sim.finished (h : Sim P s I) {piece : Piece} (hne : piece.bytes ≠ []) :
    Finished I.done s (pieceState H s piece) (arriving H s piece) := by
  cases piece with
  | follow b => exact h.finished_follow hne
  | turn b => exact h.finished_turn hne

theorem Finishes.passes {base : List Sect} (h : Finishes base s₁ t x) :
    Passes s₁.calls (s₁.arrival x) t.calls := by
  obtain ⟨r, done', hf, -⟩ := h.finish
  simp only [arrival]
  generalize hw : (x.view s₁.pool).whole = z
  generalize hcalls : t.calls = calls at hf
  cases hf with
  | crc32Err hbad =>
    rw [if_neg (hw ▸ hbad)]
    exact .nothing
  | already hgood hold =>
    rw [if_pos (hw ▸ hgood), decide_eq_true (show z ∈ s₁.known.map Sect.bytes from hw ▸ hold)]
    exact .known
  | @completed hgood hnew c hc =>
    have hbytes : c.bytes = z := hc.bytes.trans hw
    rw [if_pos (hw ▸ hgood), decide_eq_false (show z ∉ s₁.known.map Sect.bytes from hw ▸ hnew),
      ← hbytes]
    exact .passed

theorem Sim.passes (h : Sim P s I) {piece : Piece} (hne : piece.bytes ≠ []) :
    Passes s.calls (received H s piece) (pieceState H s piece).calls := by
  have hfinished := h.finished (H := H) hne
  rw [received_eq]
  generalize arriving H s piece = p at hfinished
  cases hfinished with
  | nothing hcalls => exact hcalls.symm ▸ .nothing
  | finished hcalls hf => exact hcalls ▸ hf.passes

/-- If a section begins with the piece, it has its header whole. -/
def HeaderOk : Piece → Prop
  | .follow _ => True
  | .turn b => headerWhole b = true

instance : DecidablePred HeaderOk
  | .follow _ => inferInstanceAs (Decidable True)
  | .turn _ => inferInstanceAs (Decidable (_ = _))

/-- **A piece.** -/
theorem Sim.piece (h : Sim P s I) {piece : Piece} (hne : piece.bytes ≠ []) :
    ∃ I', Sim P (pieceState H s piece) I' ∧
      Passes s.calls (received H s piece) (pieceState H s piece).calls ∧
      (HeaderOk piece → HeadersOk I → HeadersOk I') := by
  cases piece with
  | follow b =>
    obtain ⟨r, t, done, I', hr, hf, hsim, -⟩ := h.checkSectionFollow (H := H) hne
    have hstate : pieceState H s (.follow b) = t := congrArg Prod.snd hr
    exact ⟨I', hstate ▸ hsim, h.passes hne, fun _ hok => hok.follow hf⟩
  | turn b =>
    obtain ⟨done, -, ⟨r, r', t, I', ht, hf, hsim, -⟩ | ⟨n, k, r, once', t, I', ht, hf, hsim, -⟩⟩ :=
      h.checkTurn (H := H) hne false
    all_goals
      have hstate : pieceState H s (.turn b) = t := congrArg Turn.state ht
      exact ⟨I', hstate ▸ hsim, h.passes hne, fun hw hok => hok.begins hw hf⟩

/-! ## The state of the derived class -/

/-- Nothing is completed, and the state of the derived class stays. -/
def Stays (s t : SectionParser τ) : Prop := t.ext = s.ext ∧ t.calls = s.calls

/-- Nothing is completed; or one section is, and the state of the derived class is what
`on_section_completed` makes of it. -/
def Moves (H : Hooks τ) (s t : SectionParser τ) : Prop :=
  Stays s t ∨ ∃ c, t.ext = (H.completed s.ext c.info c.bytes).2 ∧ t.calls = s.calls ++ [c]

theorem Stays.of_env (he : t.env = s.env) : Stays s t :=
  ⟨congrArg Env.ext he, congrArg Env.calls he⟩

theorem Moves.of_env (he : t.env = s.env) : Moves H s t := .inl (.of_env he)

theorem Moves.after (h : Moves H s₁ t) (hs : Stays s s₁) : Moves H s t := by
  rw [Moves, Stays, ← hs.1, ← hs.2]
  exact h

theorem Moves.stays (h : Moves H s t) (hc : t.calls = s.calls) : t.ext = s.ext := by
  rcases h with h | ⟨c, -, hc'⟩
  · exact h.1
  · simp [hc] at hc'

theorem Moves.ext_eq {c : Call} (h : Moves H s t) (hc : t.calls = s.calls ++ [c]) :
    t.ext = (H.completed s.ext c.info c.bytes).2 := by
  rcases h with h | ⟨c', hext, hc'⟩
  · simp [h.2] at hc
  · rw [hc, List.append_cancel_left_eq, List.cons.injEq] at hc'
    rw [hext, hc'.1]

theorem moves_onSectionCompleted : Moves H s (s.onSectionCompleted H x) := by
  right
  refine ⟨⟨x, x.bytes s.pool⟩, ?_⟩
  unfold SectionParser.onSectionCompleted
  dsimp only
  split
  · exact ⟨congrArg Env.ext env_detachSectionList, congrArg Env.calls env_detachSectionList⟩
  · exact ⟨rfl, rfl⟩

theorem moves_finishSection : Moves H s (s.finishSection H x).2 := by
  unfold SectionParser.finishSection
  split
  · exact .of_env env_dropWork
  · dsimp only
    split
    · exact .of_env env_dropWork
    · generalize hs₂ : checkDetachFifoSectionList _ = s₂
      have he : s₂.env = s.env := by
        rw [← hs₂, env_checkDetachFifoSectionList]
        rfl
      split
      · exact moves_onSectionCompleted.after (.of_env he)
      · exact .of_env he

theorem moves_checkSectionFollow : Moves H s (s.checkSectionFollow H b).2 := by
  unfold SectionParser.checkSectionFollow
  split
  · exact .of_env rfl
  split
  · exact .of_env rfl
  split
  · exact .of_env rfl
  have he : (s.attachSectionList b).2.env = s.env := env_attachSectionList
  split
  · rename_i s₁ hs₁
    exact .of_env (by rw [← he, hs₁])
  · rename_i a s₁ hs₁
    rw [hs₁] at he
    split
    · exact .of_env he
    · split
      · exact moves_finishSection.after (.of_env he)
      · exact .of_env he

/-- The derived class keeps its state when a section begins. -/
def KeepsState (H : Hooks τ) : Prop := ∀ e x b, (H.started e x b).2 = e

theorem moves_checkTurn (hH : KeepsState H) : Moves H s (s.checkTurn H b false).state := by
  unfold SectionParser.checkTurn
  have he : (s.startOver.attachSectionList b).2.env = s.env :=
    env_attachSectionList.trans env_startOver
  split
  · rename_i s₁ hs₁
    exact .of_env (by rw [Turn.state, ← he, hs₁])
  · rename_i a s₁ hs₁
    rw [hs₁] at he
    split
    · exact .of_env he
    · rename_i x hx
      have hstays : Stays s ({ s₁ with workSectInfo := some a }.onSectionStarted H x).2 :=
        ⟨(hH _ _ _).trans (congrArg Env.ext he), congrArg Env.calls he⟩
      split
      · rename_i s₂ hs₂
        rw [hs₂] at hstays
        have hdrop : (s₂.dropWork a).env = s₂.env := env_dropWork
        exact .inl ⟨(congrArg Env.ext hdrop).trans hstays.1,
          (congrArg Env.calls hdrop).trans hstays.2⟩
      · rename_i s₂ hs₂
        rw [hs₂] at hstays
        dsimp only
        split
        · generalize hf : SectionParser.finishSection _ H _ = f
          have hmoves : Moves H s f.2 := hf ▸ moves_finishSection.after hstays
          obtain ⟨r, t⟩ := f
          cases r <;> exact hmoves
        · exact .inl hstays

/-- **The state of the derived class** is touched by what it does with the sections completed only.
-/
theorem moves_piece (hH : KeepsState H) (piece : Piece) : Moves H s (pieceState H s piece) := by
  cases piece with
  | follow b => exact moves_checkSectionFollow
  | turn b => exact moves_checkTurn hH

end SectionParser

end AutoRec
