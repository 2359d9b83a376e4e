import AutoRec.Parser.Classes
import AutoRec.Parser.Pieces

/-!
# The sections that a derived class is given

* `Hooks.run`: the state of a derived class behind some completed sections.
* `Given`, **`given_parserStep`**, `given_reach`: it is touched by nothing else.
* `Emptied`, **`emptied_reach`**: a class that always detaches leaves no complete section in the
  list.
-/

namespace AutoRec

open SectionParser Inbox

variable {τ : Type} {H : Hooks τ} {P : ℕ} {s t : SectionParser τ} {I : Inbox}

/-- The state of the derived class behind the completed sections `calls`. -/
def Hooks.run (H : Hooks τ) (e : τ) (calls : List Call) : τ :=
  calls.foldl (fun e c => (H.completed e c.info c.bytes).2) e

theorem Hooks.run_cons (e : τ) (c : Call) (l : List Call) :
    H.run e (c :: l) = H.run (H.completed e c.info c.bytes).2 l := rfl

theorem Hooks.run_append (e : τ) (l l' : List Call) : H.run e (l ++ l') = H.run (H.run e l) l' :=
  List.foldl_append

theorem Hooks.run_concat (e : τ) (l : List Call) (c : Call) :
    H.run e (l ++ [c]) = (H.completed (H.run e l) c.info c.bytes).2 := by
  rw [Hooks.run_append]
  rfl

namespace SectionParser

/-- Behind `s`, with `t`, the derived class has been given the sections `l`. -/
def Given (H : Hooks τ) (s t : SectionParser τ) (l : List Call) : Prop :=
  t.calls = s.calls ++ l ∧ t.ext = H.run s.ext l

theorem Given.refl (s : SectionParser τ) : Given H s s [] := ⟨(List.append_nil _).symm, rfl⟩

theorem Given.trans {u : SectionParser τ} {l l' : List Call} (h : Given H s t l)
    (h' : Given H t u l') : Given H s u (l ++ l') := by
  refine ⟨?_, ?_⟩
  · rw [h'.1, h.1, List.append_assoc]
  · rw [h'.2, h.2, Hooks.run_append]

theorem Moves.given (h : Moves H s t) : ∃ l, Given H s t l := by
  rcases h with ⟨hext, hcalls⟩ | ⟨c, hext, hcalls⟩
  · exact ⟨[], by rw [hcalls, List.append_nil], hext⟩
  · exact ⟨[c], hcalls, hext⟩

theorem given_pieces (hH : KeepsState H) {p q : Feed τ}
    (h : Machine.Reach (pieceStep H) Machine.anyStep p q) : ∃ l, Given H p.1 q.1 l := by
  induction h with
  | refl => exact ⟨[], .refl _⟩
  | @tail q r piece _ _ hstep ih =>
    obtain ⟨l, hl⟩ := ih
    rw [pieceStep, Option.ite_none_left_eq_some, Option.some.injEq] at hstep
    obtain ⟨-, rfl⟩ := hstep
    obtain ⟨l', hl'⟩ := (moves_piece hH piece).given (s := q.1)
    exact ⟨l ++ l', hl.trans hl'⟩

theorem given_checkSection (hH : KeepsState H) {packet : Bool × List UInt8} {r : CheckSection}
    (h : s.checkSection H packet.1 packet.2 = some (r, t)) : ∃ l, Given H s t l :=
  given_pieces hH (Machine.reach_of_exec (exec_packetPieces (R := []) h))

/-- **The state of a derived class** is touched by the sections that are completed only. -/
theorem given_parserStep (hH : KeepsState H) {op : ParserOp} (h : parserStep H s op = some t) :
    ∃ l, Given H s t l := by
  cases op with
  | packet packet =>
    obtain ⟨⟨r, t⟩, hcheck, rfl⟩ := Option.map_eq_some_iff.mp h
    exact given_checkSection hH hcheck
  | asyncDelete =>
    obtain rfl := Option.some.inj h
    exact ⟨[], .refl _⟩
  | checkAsyncDelete =>
    obtain rfl := Option.some.inj h
    unfold checkAsyncDelete
    split
    · exact ⟨[], .refl _⟩
    · exact ⟨[], .refl _⟩

/-! ## No complete section is left -/

/-- The parser holds no complete section. -/
def Emptied (P : ℕ) (s : SectionParser τ) : Prop := ∃ I, Sim P s I ∧ I.done = []

theorem Emptied.known (h : Emptied P s) : s.known = [] := by
  obtain ⟨I, hsim, hdone⟩ := h
  rw [hsim.known_eq, hdone]

theorem Emptied.piece (h : Emptied P s) (hH : H.Detaches) {piece : Piece}
    (hne : piece.bytes ≠ []) : Emptied P (pieceState H s piece) := by
  obtain ⟨I, hsim, hdone⟩ := h
  cases piece with
  | follow b =>
    obtain ⟨r, t, done, I', hr, -, hsim', hdet, -⟩ := hsim.checkSectionFollow (H := H) hne
    have hstate : pieceState H s (.follow b) = t := congrArg Prod.snd hr
    exact ⟨I', hstate ▸ hsim', List.suffix_nil.mp (hdone ▸ hdet hH)⟩
  | turn b =>
    obtain ⟨done, -, ⟨r, r', t, I', ht, -, hsim', -, hdet⟩ |
      ⟨n, k, r, once', t, I', ht, -, hsim', -, -, -, hdet⟩⟩ := hsim.checkTurn (H := H) hne false
    all_goals
      have hstate : pieceState H s (.turn b) = t := congrArg Turn.state ht
      exact ⟨I', hstate ▸ hsim', List.suffix_nil.mp (hdone ▸ hdet hH)⟩

theorem Emptied.parserStep (h : Emptied P s) (hH : H.Detaches) {op : ParserOp}
    (hstep : AutoRec.parserStep H s op = some t) : Emptied P t := by
  cases op with
  | packet packet =>
    obtain ⟨⟨r, t⟩, hcheck, rfl⟩ := Option.map_eq_some_iff.mp hstep
    apply (Machine.reach_of_exec (exec_packetPieces (R := []) hcheck)).inv (fun p => Emptied P p.1) h
    rintro p piece q hp - hq
    rw [pieceStep, Option.ite_none_left_eq_some, Option.some.injEq] at hq
    obtain ⟨hne, rfl⟩ := hq
    exact hp.piece hH hne
  | asyncDelete =>
    obtain rfl := Option.some.inj hstep
    obtain ⟨I, hsim, hdone⟩ := h
    exact ⟨I, hsim.asyncDelete, hdone⟩
  | checkAsyncDelete =>
    obtain rfl := Option.some.inj hstep
    obtain ⟨I, hsim, hdone⟩ := h
    rcases hsim.checkAsyncDelete with hsim' | hsim'
    · exact ⟨I, hsim', hdone⟩
    · exact ⟨_, hsim', rfl⟩

/-- **A class that always detaches** leaves no complete section in the list. -/
theorem emptied_reach {ok : SectionParser τ → ParserOp → Prop} {fifoNum : ℤ} {type : SectionType}
    {ext : τ} (hH : H.Detaches)
    (h : Machine.Reach (AutoRec.parserStep H) ok (create P fifoNum type ext) s) : Emptied P s :=
  h.inv (Emptied P) ⟨_, create_sim P fifoNum type ext, rfl⟩ fun _ _ _ hs _ hstep =>
    hs.parserStep hH hstep

theorem given_reach {ok : SectionParser τ → ParserOp → Prop} {fifoNum : ℤ} {type : SectionType}
    {ext : τ} (hH : KeepsState H)
    (h : Machine.Reach (AutoRec.parserStep H) ok (create P fifoNum type ext) s) :
    s.ext = H.run ext s.calls := by
  apply h.inv (fun s => s.ext = H.run ext s.calls) rfl
  intro s op t hs _ hstep
  obtain ⟨l, hcalls, hext⟩ := given_parserStep hH hstep
  rw [hext, hcalls, Hooks.run_append, hs]

end SectionParser

end AutoRec
