import AutoRec.Parser.Assembly

/-!
# What a packet does

A section parser without its pool: which sections it holds, and what a packet does to them.

* `Inbox`: the sections that a parser holds.
* `Follow`, `Begins`, `Walk`, `First`, `Packet`: what `check_section_follow`, a turn of the loop of
  `check_section_first`, the loop, `check_section_first` and `check_section` can do.
* `starts`, `packetStarts`: where sections begin in a packet, by what the headers say.
* `packetTail`, `packetTurns`: the bytes of a packet that `check_section_follow` is given, and the
  turns that the loop of `check_section_first` takes.
-/

namespace AutoRec

open Arena

/-- What a section parser holds: the complete sections, the one in progress, whether the rest of a
section is being ignored, and the sections that have been completed so far. -/
structure Inbox where
  done : List Sect
  cur : Option Sect
  ignoring : Bool
  calls : List Call

namespace Inbox

variable {τ : Type} (H : Hooks τ) (P : ℕ)

/-- `check_section_follow`, with a pool of `P` bytes. When there is room for `b`, the complete
sections are `done`. -/
inductive Follow (b : List UInt8) (I : Inbox) : List Sect → CheckSection → Inbox → Prop
  | ignoring (hi : I.ignoring = true) : Follow b I I.done .ignore I
  | idle (hi : I.ignoring = false) (hcur : I.cur = none) : Follow b I I.done .invalid I
  | full {w : Sect} {done : List Sect} (hi : I.ignoring = false) (hcur : I.cur = some w)
    (hP : P < w.bytes.length + b.length) (hd : done <:+ I.done) :
    Follow b I done .invalid { I with done := done }
  | more {w : Sect} {done : List Sect} (hi : I.ignoring = false) (hcur : I.cur = some w)
    (hd : done <:+ I.done) (hl : (w.bytes ++ b).length < w.hdr.totalLen)
    (hP : w.bytes.length + b.length ≤ P) :
    Follow b I done .receiving
      { I with done := done, cur := some { w with bytes := w.bytes ++ b } }
  | finished {w : Sect} {done done' : List Sect} {calls : List Call} {r : CheckSection}
    (hi : I.ignoring = false) (hcur : I.cur = some w) (hd : done <:+ I.done)
    (hl : w.hdr.totalLen ≤ (w.bytes ++ b).length)
    (hf : SectionParser.Finish done I.calls { w with bytes := w.bytes ++ b, state := .received } r
      done' calls) (hP : w.bytes.length + b.length ≤ P) :
    Follow b I done r { I with done := done', cur := none, calls := calls }

/-- `on_section_started` takes the section that begins with `b`. -/
def Accepts (b : List UInt8) : Prop :=
  ∃ (e : τ) (x : SectionInfo), x.sectHdr = (Sect.first b).hdr ∧ (H.started e x b).1 = true

/-- A section begins, and `b` is all that is left of the packet: `n` bytes of it are taken, or the
function returns. When there is room for `b`, the complete sections are `done`. -/
inductive Begins (b : List UInt8) (I : Inbox) :
    List Sect → Option ℕ → CheckSection → Inbox → Prop
  | full {done : List Sect} (hP : P < b.length) (hd : done <:+ I.done) :
    Begins b I done none .invalid { I with done := done, cur := none }
  | ignored {done : List Sect} {e : τ} {x : SectionInfo} (hH : (H.started e x b).1 = false)
    (hd : done <:+ I.done) (hP : b.length ≤ P) (hhdr : x.sectHdr = (Sect.first b).hdr) :
    Begins b I done (some (Sect.first b).hdr.totalLen) .ignore
      { I with done := done, cur := none, ignoring := true }
  | more {done : List Sect} (hd : done <:+ I.done) (hl : b.length < (Sect.first b).hdr.totalLen)
    (hP : b.length ≤ P) (hH : Accepts H b) :
    Begins b I done none .receiving
      { I with
        done := done
        cur := some { Sect.first b with state := .receiving }
        ignoring := false }
  | finished {done done' : List Sect} {calls : List Call} {r : CheckSection} (hd : done <:+ I.done)
    (hl : (Sect.first b).hdr.totalLen ≤ b.length)
    (hf : SectionParser.Finish done I.calls { Sect.first b with state := .received } r done' calls)
    (hP : b.length ≤ P) (hH : Accepts H b) :
    Begins b I done (some (Sect.first b).hdr.totalLen) r ⟨done', none, false, calls⟩

/-- The loop of `check_section_first`. -/
inductive Walk : List UInt8 → Inbox → Inbox → Prop
  | nil {I : Inbox} : Walk [] I I
  | stuffing {b : List UInt8} {I : Inbox} : Walk (0xff :: b) I I
  | last {c : UInt8} {b : List UInt8} {done : List Sect} {r : CheckSection} {I I' : Inbox}
    (hc : c ≠ 0xff) (hb : Begins H P (c :: b) I done none r I') : Walk (c :: b) I I'
  | turn {c : UInt8} {b : List UInt8} {done : List Sect} {n : ℕ} {r : CheckSection}
    {I I' I'' : Inbox} (hc : c ≠ 0xff) (hb : Begins H P (c :: b) I done (some n) r I')
    (hw : Walk ((c :: b).drop n) I' I'') :
    Walk (c :: b) I I''

/-- `check_section_first`. -/
inductive First : List UInt8 → Inbox → Inbox → Prop
  | broken {n : UInt8} {b : List UInt8} {I : Inbox} (hn : b.length ≤ n.toNat) : First (n :: b) I I
  | start {b : List UInt8} {I I' : Inbox} (hw : Walk H P b I I') : First (0 :: b) I I'
  | lost {n : UInt8} {b : List UInt8} {done : List Sect} {I I' : Inbox} {r : CheckSection}
    (hn : n.toNat < b.length) (h0 : n ≠ 0) (hf : Follow P (b.take n.toNat) I done r I')
    (hr : r = .receiving ∨ r = .invalid) :
    First (n :: b) I I'
  | tail {n : UInt8} {b : List UInt8} {done : List Sect} {I I' I'' : Inbox} {r : CheckSection}
    (hn : n.toNat < b.length) (h0 : n ≠ 0) (hf : Follow P (b.take n.toNat) I done r I')
    (hr : r ≠ .receiving ∧ r ≠ .invalid) (hw : Walk H P (b.drop n.toNat) I' I'') :
    First (n :: b) I I''

/-- `check_section`, for a packet: its `payload_unit_start_indicator` and its payload. -/
inductive Packet : Bool × List UInt8 → Inbox → Inbox → Prop
  | empty {u : Bool} {I : Inbox} : Packet (u, []) I I
  | first {b : List UInt8} {I I' : Inbox} (hf : First H P b I I') : Packet (true, b) I I'
  | follow {b : List UInt8} {done : List Sect} {I I' : Inbox} {r : CheckSection} (hb : b ≠ [])
    (hf : Follow P b I done r I') : Packet (false, b) I I'

section Follow

variable {P : ℕ} {b : List UInt8} {done : List Sect} {I I' : Inbox} {r : CheckSection} {w : Sect}

theorem Follow.inv_none (hf : Follow P b I done r I') (hi : I.ignoring = false) (hcur : I.cur = none) :
    r = .invalid ∧ I' = I := by
  cases hf with
  | ignoring hi' => exact absurd (hi.symm.trans hi') Bool.false_ne_true
  | idle => exact ⟨rfl, rfl⟩
  | full _ hcur₁ | more _ hcur₁ | finished _ hcur₁ => cases hcur.symm.trans hcur₁

theorem Follow.inv_some (hf : Follow P b I done r I') (hi : I.ignoring = false)
    (hcur : I.cur = some w) (hP : w.bytes.length + b.length ≤ P) : done <:+ I.done ∧
      ((w.bytes ++ b).length < w.hdr.totalLen ∧ r = .receiving ∧
        I' = { I with done := done, cur := some { w with bytes := w.bytes ++ b } } ∨
      w.hdr.totalLen ≤ (w.bytes ++ b).length ∧ ∃ done' calls,
        SectionParser.Finish done I.calls { w with bytes := w.bytes ++ b, state := .received } r
          done' calls ∧
        I' = { I with done := done', cur := none, calls := calls }) := by
  cases hf with
  | ignoring hi' => exact absurd (hi.symm.trans hi') Bool.false_ne_true
  | idle _ hcur₁ => cases hcur.symm.trans hcur₁
  | full _ hcur₁ hP' =>
    obtain rfl := Option.some.inj (hcur.symm.trans hcur₁)
    omega
  | more _ hcur₁ hd hl =>
    obtain rfl := Option.some.inj (hcur.symm.trans hcur₁)
    exact ⟨hd, .inl ⟨hl, rfl, rfl⟩⟩
  | finished _ hcur₁ hd hl hfin =>
    obtain rfl := Option.some.inj (hcur.symm.trans hcur₁)
    exact ⟨hd, .inr ⟨hl, _, _, hfin, rfl⟩⟩

end Follow

end Inbox

/-! ## Where sections begin -/

theorem Sect.totalLen_first_ge (b : List UInt8) : 3 ≤ (Sect.first b).hdr.totalLen :=
  Nat.le_add_left 3 _

/-- Where sections begin in `b`, one behind the other as their headers say. -/
def starts : ℕ → List UInt8 → List (List UInt8)
  | 0, _ => []
  | _ + 1, [] => []
  | n + 1, c :: b =>
    if c = 0xff then []
    else (c :: b) :: starts n ((c :: b).drop (Sect.first (c :: b)).hdr.totalLen)

/-- Where sections begin in a packet. -/
def packetStarts : Bool × List UInt8 → List (List UInt8)
  | (true, n :: b) => if n.toNat < b.length then starts b.length (b.drop n.toNat) else []
  | _ => []

@[simp] theorem starts_nil (n : ℕ) : starts n [] = [] := by
  cases n <;> rfl

theorem starts_cons_stuffing (n : ℕ) (b : List UInt8) : starts n (0xff :: b) = [] := by
  cases n <;> rfl

theorem starts_cons {c : UInt8} {b : List UInt8} {n : ℕ} (hc : c ≠ 0xff)
    (hn : (c :: b).length ≤ n) :
    ∃ m, starts n (c :: b) =
        (c :: b) :: starts m ((c :: b).drop (Sect.first (c :: b)).hdr.totalLen) ∧
      ((c :: b).drop (Sect.first (c :: b)).hdr.totalLen).length ≤ m := by
  cases n with
  | zero => simp at hn
  | succ m =>
    refine ⟨m, by rw [starts, if_neg hc], ?_⟩
    have := Sect.totalLen_first_ge (c :: b)
    rw [List.length_drop]
    omega

theorem length_of_mem_starts {n : ℕ} {b l : List UInt8} (h : b ∈ starts n l) :
    b.length ≤ l.length := by
  induction n generalizing l with
  | zero => simp [starts] at h
  | succ n ih =>
    cases l with
    | nil => simp [starts] at h
    | cons c l =>
      rw [starts] at h
      split_ifs at h with hc
      · simp at h
      · rcases List.mem_cons.mp h with rfl | h
        · exact Nat.le_refl _
        · have := ih h
          rw [List.length_drop] at this
          omega

theorem length_of_mem_packetStarts {packet : Bool × List UInt8} {b : List UInt8}
    (h : b ∈ packetStarts packet) : b.length < packet.2.length := by
  match packet with
  | (true, n :: l) =>
    rw [packetStarts] at h
    split_ifs at h with hn
    · have := length_of_mem_starts h
      rw [List.length_drop] at this
      rw [List.length_cons]
      omega
    · simp at h
  | (true, []) | (false, _) => simp [packetStarts] at h

/-! ## The turns of a packet -/

variable {τ : Type}

/-- The turns of the loop of `check_section_first`: the parser, and the bytes that are left. -/
def loopTurns (H : Hooks τ) (payload : List UInt8) :
    ℕ → ℕ → ℕ → Bool → SectionParser τ → List (SectionParser τ × List UInt8)
  | 0, _, _, _, _ => []
  | n + 1, p, size, once, s =>
    if size = 0 then []
    else
      match payload[p]? with
      | none => []
      | some b =>
        if b = 0xff then []
        else if payload.length < p + size then []
        else
          (s, slice payload p (p + size)) ::
            match s.checkTurn H (slice payload p (p + size)) once with
            | .done _ _ => []
            | .next none _ once s => loopTurns H payload n p 0 once s
            | .next (some k) _ once s =>
              loopTurns H payload n (p + k) (SectionParser.sizeSub size k) once s

/-- The bytes of a packet that `check_section_follow` is given. -/
def packetTail : Bool × List UInt8 → Option (List UInt8)
  | (true, n :: b) => if n.toNat < b.length ∧ n ≠ 0 then some (b.take n.toNat) else none
  | (false, c :: b) => some (c :: b)
  | _ => none

theorem tail_ne_nil {n : UInt8} {l : List UInt8} (hn : n.toNat < l.length) (h0 : n ≠ 0) :
    l.take n.toNat ≠ [] := by
  rw [ne_eq, List.take_eq_nil_iff]
  rintro (hz | rfl)
  · exact h0 (UInt8.toNat_inj.mp hz)
  · exact Nat.not_lt_zero _ hn

theorem length_packetTail {packet : Bool × List UInt8} {b : List UInt8}
    (h : packetTail packet = some b) : b ≠ [] ∧ b.length ≤ packet.2.length := by
  match packet with
  | (true, n :: l) =>
    rw [packetTail, Option.ite_none_right_eq_some, Option.some.injEq] at h
    obtain ⟨⟨hn, h0⟩, rfl⟩ := h
    refine ⟨tail_ne_nil hn h0, ?_⟩
    rw [List.length_take, List.length_cons]
    omega
  | (false, c :: l) =>
    obtain rfl := Option.some.inj h
    exact ⟨List.cons_ne_nil _ _, Nat.le_refl _⟩
  | (true, []) | (false, []) => simp [packetTail] at h

/-- The turns that the loop of `check_section_first` takes for a packet. -/
def packetTurns (H : Hooks τ) (s : SectionParser τ) :
    Bool × List UInt8 → List (SectionParser τ × List UInt8)
  | (true, n :: b) =>
    let start := fun s => loopTurns H (n :: b) ((n :: b).length + 1) (1 + n.toNat)
      (b.length - n.toNat) false s
    if b.length ≤ n.toNat then []
    else if n.toNat = 0 then start s
    else
      match s.checkSectionFollow H (b.take n.toNat) with
      | (.receiving, _) | (.invalid, _) => []
      | (_, s₁) => start s₁
  | _ => []

end AutoRec
