import AutoRec.Parser.Layout
import AutoRec.Parser.Resync
import Mathlib.Data.List.Forall2

/-!
# What COMPLETED stands for

`check_section` says COMPLETED, and the psisi manager looks at the last table then.

* `newSection`, `packetNew`: the sections that a piece, or a packet, completes and that are new.
* `Answers`: when `check_section` says COMPLETED; `Sim.checkSection_result`.
* `ClassOp`, `classStep`: what the psisi manager does with a parser.
* `Ends`, `LaidOut`: the sections that end in a packet, and those that can be parsed.
* `YieldsTable`: a new section that ends in the packet is laid out; or all sections that end in it are,
  and one begins in it.
* **`completed_yields_table`**: then COMPLETED stands for a table that has been appended;
  `not_completed_noTable`: packets without a table.
-/

namespace AutoRec

open Arena SectionParser Inbox

variable {τ : Type} {H : Hooks τ} {P : ℕ} {s t s₁ : SectionParser τ} {I I' : Inbox} {b : List UInt8}
  {done : List Sect} {n : Option ℕ} {r : CheckSection} {w : Sect} {c : Call}

namespace SectionParser

/-! ## New sections -/

variable (s) in
/-- The section `x`, if its CRC is right and it is not known. -/
def arrivalNew (x : SectionInfo) : Option Sect :=
  ((s.arrival x).filter fun r => !r.1).map fun r => { x.view s.pool with bytes := r.2 }

variable (H) (s) in
/-- The section that a piece completes, if its CRC is right and it is not known. -/
def newSection (piece : Piece) : Option Sect := (arriving H s piece).bind fun p => p.1.arrivalNew p.2

variable (H) in
/-- The new sections that the turns complete. -/
def turnsNew (l : List (SectionParser τ × List UInt8)) : List Sect :=
  l.flatMap fun tb => (newSection H tb.1 (.turn tb.2)).toList

variable (H) (s) in
/-- The new sections that a packet completes. -/
def packetNew (packet : Bool × List UInt8) : List Sect :=
  (packetTail packet).toList.flatMap (fun b => (newSection H s (.follow b)).toList) ++
    turnsNew H (packetTurns H s packet)

/-- The derived class is given the section `w`. -/
structure Holds (w : Sect) (c : Call) : Prop where
  bytes : c.bytes = w.bytes
  hdr : c.info.sectHdr = w.hdr
  data : c.info.data.within c.info.raw = w.data

/-- The sections completed so far, behind a piece. -/
inductive Brings (calls : List Call) : Option Sect → List Call → Prop
  | nothing : Brings calls none calls
  | new {w : Sect} {c : Call} (h : Holds w c) : Brings calls (some w) (calls ++ [c])

theorem Brings.isSome_iff {calls calls' : List Call} {o : Option Sect} (h : Brings calls o calls') :
    o.isSome = true ↔ calls' ≠ calls := by
  cases h with
  | nothing => simp
  | new => simp

theorem Brings.forall₂ {calls calls' : List Call} {o : Option Sect} (h : Brings calls o calls') :
    ∃ l, calls' = calls ++ l ∧ List.Forall₂ Holds o.toList l := by
  cases h with
  | nothing => exact ⟨[], (List.append_nil _).symm, .nil⟩
  | new h => exact ⟨_, rfl, .cons h .nil⟩

theorem Finishes.brings {base : List Sect} {x : SectionInfo} (h : Finishes base s₁ t x) :
    Brings s₁.calls (s₁.arrivalNew x) t.calls := by
  obtain ⟨r, done', hf, -⟩ := h.finish
  generalize hcalls : t.calls = calls at hf
  rw [arrivalNew]
  cases hf with
  | crc32Err hbad =>
    have harrival : s₁.arrival x = none := if_neg hbad
    rw [harrival]
    exact .nothing
  | already hgood hold =>
    have harrival : s₁.arrival x = some (true, (x.view s₁.pool).whole) := by
      rw [← decide_eq_true hold]
      exact if_pos hgood
    rw [harrival]
    exact .nothing
  | completed hgood hnew hc =>
    have harrival : s₁.arrival x = some (false, (x.view s₁.pool).whole) := by
      rw [← decide_eq_false hnew]
      exact if_pos hgood
    rw [harrival]
    exact .new ⟨hc.bytes, hc.hdr, hc.data⟩

/-- **A piece** gives the derived class its new section, and no other one. -/
theorem Sim.brings (h : Sim P s I) (piece : Piece) (hne : piece.bytes ≠ []) :
    Brings s.calls (newSection H s piece) (pieceState H s piece).calls := by
  have hfinished := h.finished (H := H) hne
  rw [newSection]
  generalize arriving H s piece = p at hfinished
  cases hfinished with
  | nothing hcalls => exact hcalls.symm ▸ .nothing
  | finished hcalls hf => exact hcalls ▸ hf.brings

/-! ## What the functions say -/

theorem Finish.completed_iff {calls calls' : List Call} {done done' : List Sect}
    (h : Finish done calls w r done' calls') : r = .completed ↔ calls' ≠ calls := by
  cases h <;> simp

end SectionParser

theorem Inbox.Follow.completed_iff (h : Follow P b I done r I') :
    r = .completed ↔ I'.calls ≠ I.calls := by
  cases h with
  | ignoring | idle | full | more => simp
  | finished _ _ _ _ hf => exact hf.completed_iff

theorem Inbox.Begins.completed_iff (h : Begins H P b I done n r I') :
    r = .completed ↔ I'.calls ≠ I.calls := by
  cases h with
  | full | ignored | more => simp
  | finished _ _ hf => exact hf.completed_iff

namespace SectionParser

theorem Sim.follow_completed_iff (h : Sim P s I) (hb : b ≠ []) :
    (s.checkSectionFollow H b).1 = .completed ↔ (newSection H s (.follow b)).isSome = true := by
  obtain ⟨r, t, done, I', hr, hf, hsim, -⟩ := h.checkSectionFollow (H := H) hb
  have hbrings := h.brings (H := H) (.follow b) hb
  rw [pieceState, hr] at hbrings
  rw [hr, hf.completed_iff, hbrings.isSome_iff, hsim.calls, h.calls]

/-- What is remembered of the sections in front. -/
def Remembers (once : Bool) : Turn τ → Prop
  | .done r _ => r = .invalid ∨ r = if once then .completed else .receiving
  | .next _ r once' _ => once' = (once || decide (r = .completed))

theorem remembers_checkTurn (s : SectionParser τ) (b : List UInt8) (once : Bool) :
    Remembers once (s.checkTurn H b once) := by
  unfold SectionParser.checkTurn
  split
  · exact .inl rfl
  · split
    · exact .inl rfl
    · split
      · simp [Remembers]
      · dsimp only
        split
        · split
          · simp [Remembers]
          · rename_i r _ hne _
            have hr : r ≠ .completed := by
              rintro rfl
              exact hne rfl
            simp [Remembers, hr]
        · exact .inr rfl

theorem Sim.turn_full (h : Sim P s I) (hb : b ≠ []) (hP : P < b.length) (once : Bool) :
    ∃ t, s.checkTurn H b once = .done .invalid t := by
  obtain ⟨hat, he⟩ := h.holds.startOver fun w hw => .inr (h.receiving w hw)
  obtain ⟨r, s₁, done, hr, -, -, hroom⟩ := hat.attachFirst hb
  rw [poolSize_of_env he, h.poolSize, if_neg (Nat.not_le_of_lt hP)] at hroom
  obtain ⟨rfl, -⟩ := hroom
  refine ⟨s₁, ?_⟩
  unfold SectionParser.checkTurn
  rw [hr]

/-- What a turn says. -/
inductive Says (once : Bool) (isNew : Prop) : Turn τ → Prop
  | last {t : SectionParser τ} (hnew : ¬ isNew) :
    Says once isNew (.done (if once then .completed else .receiving) t)
  | more {n : Option ℕ} {r : CheckSection} {once' : Bool} {t : SectionParser τ}
    (hr : r = .completed ↔ isNew) (honce : once' = true ↔ once = true ∨ isNew) :
    Says once isNew (.next n r once' t)

theorem Sim.turn_says (h : Sim P s I) (hb : b ≠ []) (hP : b.length ≤ P) (once : Bool) :
    Says once ((newSection H s (.turn b)).isSome = true) (s.checkTurn H b once) := by
  have hbrings := h.brings (H := H) (.turn b) hb
  rw [pieceState, ← state_checkTurn s b once] at hbrings
  have honce := remembers_checkTurn (H := H) s b once
  obtain ⟨done, -, ⟨r, r', t, I', ht, hf, hsim, hr, -⟩ |
    ⟨n, k, r, once', t, I', ht, hf, hsim, -⟩⟩ := h.checkTurn (H := H) hb once
  · rw [ht] at hbrings honce ⊢
    obtain rfl := honce.resolve_left (hr hP)
    apply Says.last
    rw [hbrings.isSome_iff, Turn.state, hsim.calls, h.calls, ← hf.completed_iff]
    cases hf <;> simp
  · rw [ht] at hbrings honce ⊢
    have hnew : r = .completed ↔ (newSection H s (.turn b)).isSome = true := by
      rw [hf.completed_iff, hbrings.isSome_iff, Turn.state, hsim.calls, h.calls]
    refine .more hnew ?_
    rw [honce, Bool.or_eq_true, decide_eq_true_eq, hnew]

/-- What the loop says: COMPLETED when there is room for all turns, and a section has been completed
in front, or there are no turns, or one of them completes a new section. -/
def LoopAnswers (H : Hooks τ) (P : ℕ) (l : List (SectionParser τ × List UInt8)) (r : CheckSection)
    (once : Bool) : Prop :=
  (∀ tb ∈ l, tb.2.length ≤ P) ∧ (once = true ∨ l = [] ∧ r = .completed ∨ turnsNew H l ≠ [])

theorem turnsNew_cons (tb : SectionParser τ × List UInt8) (l : List (SectionParser τ × List UInt8)) :
    turnsNew H (tb :: l) = (newSection H tb.1 (.turn tb.2)).toList ++ turnsNew H l := rfl

theorem loopAnswers_nil (once : Bool) :
    (if once then CheckSection.completed else r) = .completed ↔ LoopAnswers H P [] r once := by
  cases once <;> simp [LoopAnswers, turnsNew]

theorem loopAnswers_cons_iff {r₁ : CheckSection} {once₁ : Bool} (hP : b.length ≤ P)
    (hr : r₁ = .completed ↔ (newSection H s (.turn b)).isSome = true)
    (honce : once₁ = true ↔ once = true ∨ (newSection H s (.turn b)).isSome = true)
    (L : List (SectionParser τ × List UInt8)) :
    LoopAnswers H P L r₁ once₁ ↔ LoopAnswers H P ((s, b) :: L) r once := by
  rw [LoopAnswers, LoopAnswers, turnsNew_cons, List.forall_mem_cons, honce, hr]
  cases hnew : newSection H s (.turn b) with
  | none => simp [hP]
  | some w => simp [hP]

/-- **The loop.** -/
theorem Sim.loop_result {payload : List UInt8} {n p size : ℕ} {r' : CheckSection} {once : Bool}
    (hsim : Sim P s I) (h : SectionParser.checkLoop H payload n p size r once s = some (r', t)) :
    (r' = .completed ↔ LoopAnswers H P (loopTurns H payload n p size once s) r once) ∧
      ∃ l, t.calls = s.calls ++ l ∧
        List.Forall₂ Holds (turnsNew H (loopTurns H payload n p size once s)) l := by
  induction n generalizing p size r once s I with
  | zero => cases h
  | succ n ih =>
    rw [SectionParser.checkLoop] at h
    rw [loopTurns]
    by_cases hsize : size = 0
    · rw [if_pos hsize, Option.some.injEq, Prod.mk.injEq] at h
      obtain ⟨rfl, rfl⟩ := h
      rw [if_pos hsize]
      exact ⟨loopAnswers_nil once, [], (List.append_nil _).symm, .nil⟩
    rw [if_neg hsize] at h ⊢
    cases hp : payload[p]? with
    | none =>
      rw [hp] at h
      cases h
    | some c =>
      simp only [hp] at h ⊢
      by_cases hff : c = 0xff
      · rw [if_pos hff, Option.some.injEq, Prod.mk.injEq] at h
        obtain ⟨rfl, rfl⟩ := h
        rw [if_pos hff]
        exact ⟨loopAnswers_nil once, [], (List.append_nil _).symm, .nil⟩
      rw [if_neg hff] at h ⊢
      by_cases hlen : payload.length < p + size
      · rw [if_pos hlen] at h
        cases h
      rw [if_neg hlen] at h ⊢
      set b := slice payload p (p + size)
      have hne : b ≠ [] := slice_ne_nil (List.getElem?_eq_some_iff.mp hp).1 hsize
      have hbrings := hsim.brings (H := H) (.turn b) hne
      rw [pieceState, ← state_checkTurn s b once] at hbrings
      obtain ⟨l, hcalls, hall⟩ := hbrings.forall₂
      by_cases hP : P < b.length
      · obtain ⟨t', ht⟩ := hsim.turn_full (H := H) hne hP once
        rw [ht] at h hcalls ⊢
        rw [Option.some.injEq, Prod.mk.injEq] at h
        obtain ⟨rfl, rfl⟩ := h
        refine ⟨?_, l, hcalls, by simpa [turnsNew] using hall⟩
        have hfull : ¬ LoopAnswers H P [(s, b)] r once := fun hc =>
          Nat.not_le_of_lt hP (hc.1 _ List.mem_cons_self)
        exact iff_of_false (by simp) hfull
      have hsays := hsim.turn_says (H := H) hne (Nat.le_of_not_lt hP) once
      have hnext : ∀ n r once' t', s.checkTurn H b once = .next n r once' t' → ∃ I', Sim P t' I' := by
        intro n r once' t' ht
        obtain ⟨done, -, ⟨_, _, _, _, ht', -⟩ | ⟨_, _, _, _, _, I', ht', -, hsim', -⟩⟩ :=
          hsim.checkTurn (H := H) hne once
        · rw [ht] at ht'
          cases ht'
        · obtain ⟨-, -, -, rfl⟩ := Turn.next.inj (ht.symm.trans ht')
          exact ⟨I', hsim'⟩
      cases hturn : s.checkTurn H b once with
      | done r₀ s' =>
        rw [hturn] at h hcalls hsays
        rw [Option.some.injEq, Prod.mk.injEq] at h
        obtain ⟨rfl, rfl⟩ := h
        refine ⟨?_, l, hcalls, by simpa [turnsNew] using hall⟩
        cases hsays with
        | last hnew =>
          have hnone : newSection H s (.turn b) = none := by simpa using hnew
          cases once <;> simp [LoopAnswers, turnsNew, hnone, Nat.le_of_not_lt hP]
      | next k r₁ once₁ s' =>
        rw [hturn] at h hcalls hsays
        obtain ⟨I', hsim'⟩ := hnext _ _ _ _ hturn
        cases hsays with
        | more hr honce =>
          have hcons := loopAnswers_cons_iff (r := r) (Nat.le_of_not_lt hP) hr honce
          -- the turns behind this one
          have hrest : ∀ L, ((r' = .completed ↔ LoopAnswers H P L r₁ once₁) ∧
              ∃ l', t.calls = s'.calls ++ l' ∧ List.Forall₂ Holds (turnsNew H L) l') →
              ((r' = .completed ↔ LoopAnswers H P ((s, b) :: L) r once) ∧
                ∃ l', t.calls = s.calls ++ l' ∧
                  List.Forall₂ Holds (turnsNew H ((s, b) :: L)) l') := by
            rintro L ⟨hiff, l', hcalls', hall'⟩
            refine ⟨hiff.trans (hcons L), l ++ l', ?_, ?_⟩
            · rw [hcalls', ← List.append_assoc, ← hcalls]
              rfl
            · rw [turnsNew_cons]
              exact List.rel_append hall hall'
          cases k with
          | none => exact hrest _ (ih hsim' h)
          | some k => exact hrest _ (ih hsim' h)

/-- **`check_section` says COMPLETED**: a packet goes on with a section and completes a new one. Or
sections begin in it, what is in front of them does not keep the parser from them, there is room for
all of them, and one that is new is completed, or there are none. -/
def Answers (H : Hooks τ) (s : SectionParser τ) : Bool × List UInt8 → Prop
  | (false, b) => (newSection H s (.follow b)).isSome = true
  | (true, []) => False
  | (true, n :: l) =>
    n.toNat < l.length ∧ TailOk s (l.take n.toNat) ∧
      (∀ tb ∈ packetTurns H s (true, n :: l), tb.2.length ≤ s.poolSize) ∧
      (packetTurns H s (true, n :: l) = [] ∨ turnsNew H (packetTurns H s (true, n :: l)) ≠ [])

theorem newSection_follow_nil : newSection H s (.follow []) = none := by
  have hattach : s.attachSectionList [] = (none, s) := rfl
  have harriving : arriving H s (.follow []) = none := by
    rw [arriving, hattach]
    split
    · rfl
    · split <;> rfl
  rw [newSection, harriving, Option.bind_none]

theorem loopAnswers_iff (l : List (SectionParser τ × List UInt8)) :
    LoopAnswers H P l .completed false ↔
      (∀ tb ∈ l, tb.2.length ≤ P) ∧ (l = [] ∨ turnsNew H l ≠ []) := by
  simp [LoopAnswers]

/-- **What `check_section` says**, and what the derived class is given. -/
theorem Sim.checkSection_result (h : Sim P s I) {packet : Bool × List UInt8}
    (hcheck : s.checkSection H packet.1 packet.2 = some (r, t)) :
    (r = .completed ↔ Answers H s packet) ∧
      ∃ l, t.calls = s.calls ++ l ∧ List.Forall₂ Holds (packetNew H s packet) l := by
  unfold SectionParser.checkSection at hcheck
  match packet with
  | (u, []) =>
    obtain ⟨rfl, rfl⟩ := Prod.mk.inj (Option.some.inj hcheck)
    refine ⟨?_, [], (List.append_nil _).symm, ?_⟩
    · cases u <;> simp [Answers, newSection_follow_nil]
    · cases u <;> simp [packetNew, packetTail, packetTurns, turnsNew]
  | (false, c :: l) =>
    obtain rfl : (s.checkSectionFollow H (c :: l)).1 = r :=
      congrArg Prod.fst (Option.some.inj hcheck)
    obtain rfl : (s.checkSectionFollow H (c :: l)).2 = t :=
      congrArg Prod.snd (Option.some.inj hcheck)
    refine ⟨h.follow_completed_iff (List.cons_ne_nil c l), ?_⟩
    obtain ⟨l', hcalls, hall⟩ :=
      (h.brings (H := H) (.follow (c :: l)) (List.cons_ne_nil c l)).forall₂
    exact ⟨l', hcalls, by simpa [packetNew, packetTail, packetTurns, turnsNew] using hall⟩
  | (true, n :: l) =>
    rw [if_neg (List.cons_ne_nil n l), if_pos rfl, SectionParser.checkSectionFirst] at hcheck
    rw [Answers, packetNew, packetTail, packetTurns, h.poolSize]
    by_cases hn : l.length ≤ n.toNat
    · simp only [if_pos hn, Option.some.injEq, Prod.mk.injEq] at hcheck
      obtain ⟨rfl, rfl⟩ := hcheck
      simp [hn, Nat.not_lt.mpr hn, turnsNew]
    have hn' : n.toNat < l.length := Nat.lt_of_not_le hn
    simp only [if_neg hn, hn', true_and] at hcheck ⊢
    by_cases h0 : n = 0
    · subst h0
      simp only [UInt8.toNat_zero, if_true, List.take_zero, TailOk.none rfl, true_and] at hcheck ⊢
      obtain ⟨hiff, l', hcalls, hall⟩ := h.loop_result hcheck
      exact ⟨hiff.trans (loopAnswers_iff _), l', hcalls, by simpa using hall⟩
    have h0' : n.toNat ≠ 0 := fun hz => h0 (UInt8.toNat_inj.mp hz)
    have hne : l.take n.toNat ≠ [] := tail_ne_nil hn' h0
    obtain ⟨r₁, s₁, done, I₁, hr, hf, hsim₁, -⟩ := h.checkSectionFollow (H := H) hne
    obtain ⟨l₁, hcalls₁, hall₁⟩ := (h.brings (H := H) (.follow _) hne).forall₂
    rw [pieceState, hr] at hcalls₁
    have hlost : TailOk s (l.take n.toNat) ↔ r₁ ≠ .receiving ∧ r₁ ≠ .invalid :=
      ⟨fun hok => hok.not_lost hne h hf, fun hr => (tailOk_of_follow (z := []) h hne hf hr).1⟩
    simp only [if_neg h0', ne_eq, h0, not_false_eq_true, if_true, hr, hlost] at hcheck ⊢
    simp only [Option.toList_some, List.flatMap_cons, List.flatMap_nil, List.append_nil]
    cases r₁ with
    | receiving | invalid =>
      obtain ⟨rfl, rfl⟩ := Prod.mk.inj (Option.some.inj hcheck)
      exact ⟨by simp, l₁, hcalls₁, by simpa [turnsNew] using hall₁⟩
    | completed | completedAlready | canceled | crc32Err | ignore =>
      obtain ⟨hiff, l', hcalls, hall⟩ := hsim₁.loop_result hcheck
      refine ⟨?_, l₁ ++ l', ?_, List.rel_append hall₁ hall⟩
      · rw [hiff, loopAnswers_iff]
        simp
      · rw [hcalls, hcalls₁, List.append_assoc]

/-! ## The first section that begins in a packet -/

theorem loopTurns_start {n : UInt8} {l : List UInt8} (hn : n.toNat < l.length)
    (hstarts : packetStarts (true, n :: l) ≠ []) : ∃ rest,
      loopTurns H (n :: l) ((n :: l).length + 1) (1 + n.toNat) (l.length - n.toNat) false s =
        (s, l.drop n.toNat) :: rest := by
  have hdrop := List.drop_eq_getElem_cons hn
  have hget : (n :: l)[1 + n.toNat]? = some l[n.toNat] := by
    rw [Nat.add_comm, List.getElem?_cons_succ, List.getElem?_eq_getElem hn]
  have hff : l[n.toNat] ≠ 0xff := by
    intro hff
    rw [packetStarts, if_pos hn, hdrop, hff, starts_cons_stuffing] at hstarts
    exact hstarts rfl
  have hlen : (n :: l).length = l.length + 1 := List.length_cons
  have hslice : slice (n :: l) (1 + n.toNat) (1 + n.toNat + (l.length - n.toNat)) =
      l.drop n.toNat := by
    rw [slice, List.take_of_length_le (by omega), Nat.add_comm, List.drop_succ_cons]
  rw [loopTurns, if_neg (by omega), hget]
  simp only [if_neg hff, hslice]
  rw [if_neg (by omega)]
  exact ⟨_, rfl⟩

/-- A tail that lets the parser come to the sections behind it: the first turn has all of them. -/
theorem Sim.packetTurns_cons (h : Sim P s I) {n : UInt8} {l : List UInt8} (hn : n.toNat < l.length)
    (hok : TailOk s (l.take n.toNat)) (hstarts : packetStarts (true, n :: l) ≠ []) : ∃ st rest,
      packetTurns H s (true, n :: l) = (st, l.drop n.toNat) :: rest := by
  rw [packetTurns]
  simp only [if_neg (Nat.not_le_of_lt hn)]
  by_cases h0 : n.toNat = 0
  · obtain ⟨rest, hrest⟩ := loopTurns_start (H := H) (s := s) hn hstarts
    rw [if_pos h0]
    exact ⟨s, rest, hrest⟩
  · have hn0 : n ≠ 0 := fun hz => h0 (congrArg UInt8.toNat hz)
    obtain ⟨r, t, done, I', hr, hf, -, -⟩ := h.checkSectionFollow (H := H) (tail_ne_nil hn hn0)
    obtain ⟨hreceiving, hinvalid⟩ := hok.not_lost (tail_ne_nil hn hn0) h hf
    obtain ⟨rest, hrest⟩ := loopTurns_start (H := H) (s := t) hn hstarts
    rw [if_neg h0, hr]
    cases r with
    | receiving => exact absurd rfl hreceiving
    | invalid => exact absurd rfl hinvalid
    | completed | completedAlready | canceled | crc32Err | ignore => exact ⟨t, rest, hrest⟩

end SectionParser

/-! ## The parsers of the psisi manager -/

/-- What the psisi manager does with a parser. -/
inductive ClassOp
  /-- `check_section`. -/
  | packet (p : Bool × List UInt8)
  | checkAsyncDelete
  | clear
  /-- `force_clear`, for a `program_map_table`. -/
  | forceClear

/-- The payload has a length that a `size_t` can hold. -/
def ClassOp.Fits : ClassOp → Prop
  | packet p => p.2.length < 2 ^ 64
  | _ => True

instance : DecidablePred ClassOp.Fits
  | .packet _ => inferInstanceAs (Decidable (_ < _))
  | .checkAsyncDelete | .clear | .forceClear => inferInstanceAs (Decidable True)

/-- The section can be parsed: its data part has been found, and it is laid out so. -/
def Sect.LaidOut (L : SectionHeader → List UInt8 → Prop) (w : Sect) : Prop :=
  ∃ k : ℕ, w.data = some (k : ℤ) ∧ k ≤ w.bytes.length ∧ L w.hdr (w.bytes.drop k)

namespace TableClass

variable {α : Type} (C : TableClass α) (behind : ℕ → List UInt8)

/-- `ClassOp`, as a step. -/
def classStep (s : SectionParser (TableStore α)) : ClassOp → Option (SectionParser (TableStore α))
  | .packet p => packetStep (C.hooks behind) s p
  | .checkAsyncDelete => some s.checkAsyncDelete
  | .clear => some { s with ext := s.ext.releaseTables }.asyncDelete
  | .forceClear => some { s with ext := s.ext.releaseTables }.detachAllSectionList

/-- A table has been appended between `s` and `t`: a section has been completed and parsed, its table
has become the last one, and there still are tables. -/
def Appended (s t : SectionParser (TableStore α)) : Prop :=
  ∃ l c l' new, t.calls = s.calls ++ (l ++ c :: l') ∧
    C.parseCall c (behind ((C.hooks behind).run s.ext l).next) = .ok new ∧
    ((C.hooks behind).run s.ext (l ++ [c])).tables.getLast? =
      some (((C.hooks behind).run s.ext l).next, new) ∧
    t.ext.tables ≠ []

variable (s : SectionParser (TableStore α)) (packet : Bool × List UInt8)

/-- **A section that ends in a packet**: the one in progress, of which the tail of the packet is the
rest, or one that begins in the packet and that the class takes. It is given with its bytes, and with
its header and the place of its data part as they are read when it begins. -/
inductive Ends : Sect → Prop
  | tail {b z : List UInt8} {x : SectionInfo} (hb : packetTail packet = some b)
    (h : TailEnds s b z x) : Ends { x.view s.pool with bytes := z }
  | start {b : List UInt8} (hb : b ∈ packetStarts packet)
    (hwhole : (Sect.first b).hdr.totalLen ≤ b.length)
    (hstart : C.started (Sect.first b).hdr = true) :
    Ends { Sect.first b with bytes := (Sect.first b).whole }

/-- The parser comes to the sections that begin in the packet: the pointer field leads into it, and the
tail is there to be ignored or ends the section in progress. -/
def ReachesStarts : Prop :=
  ∃ n l, packet.2 = n :: l ∧ n.toNat < l.length ∧ TailOk s (l.take n.toNat)

/-- **The condition on a packet.** A section with the right CRC that ends in it is not known, and it is
laid out, whichever way it comes in; or all sections with the right CRC that end in it are laid out,
and sections begin in it if the parser looks for any. -/
def YieldsTable (L : SectionHeader → List UInt8 → Prop) : Prop :=
  (∃ w, C.Ends s packet w ∧ crc32 w.bytes = 0 ∧ w.bytes ∉ s.known.map Sect.bytes ∧
    ∀ w', C.Ends s packet w' → w'.bytes = w.bytes → w'.LaidOut L) ∨
  (∀ w, C.Ends s packet w → crc32 w.bytes = 0 → w.LaidOut L) ∧
    (packet.1 = true → ReachesStarts s packet → packetStarts packet ≠ [])

/-- **COMPLETED stands for a table that has been appended**, in every state reached and for every
packet that meets the condition. -/
def CompletedYields (L : SectionHeader → List UInt8 → Prop) (poolSize : ℕ) (fifoNum : ℤ) : Prop :=
  ∀ s, Machine.Reach (C.classStep behind) (fun _ op => op.Fits)
      (create poolSize fifoNum .psisi .empty) s →
    ∀ packet : Bool × List UInt8, packet.2.length < 2 ^ 64 → C.YieldsTable s packet L →
      ∀ t, s.checkSection (C.hooks behind) packet.1 packet.2 = some (.completed, t) →
        C.Appended behind s t

variable {C behind s packet} {e : TableStore α} {t : SectionParser (TableStore α)}
  {L : SectionHeader → List UInt8 → Prop}

/-- **What a class that appends does with a section.** -/
theorem Appends.completed (hC : C.Appends) (behind : ℕ → List UInt8) (e : TableStore α) (c : Call) :
    ((C.hooks behind).completed e c.info c.bytes).2.next = e.next + 1 ∧
      ((∃ new l, C.parseCall c (behind e.next) = .ok new ∧
          ((C.hooks behind).completed e c.info c.bytes).2.tables = l ++ [(e.next, new)]) ∨
        (∃ err, C.parseCall c (behind e.next) = .error err) ∧
          ((C.hooks behind).completed e c.info c.bytes).2.tables = e.tables) := by
  cases hc : C.parseCall c (behind e.next) with
  | error err =>
    simp only [hooks, hc]
    exact ⟨rfl, .inr ⟨⟨err, rfl⟩, rfl⟩⟩
  | ok new =>
    obtain ⟨l, hl⟩ := hC (e.next, new) e.alloc
    simp only [hooks, hc, hl]
    exact ⟨rfl, .inl ⟨new, l, rfl, rfl⟩⟩

theorem Appends.run_ne_nil (hC : C.Appends) (l : List Call) (he : e.tables ≠ []) :
    ((C.hooks behind).run e l).tables ≠ [] := by
  induction l generalizing e with
  | nil => exact he
  | cons c l ih =>
    rw [Hooks.run_cons]
    apply ih
    rcases (hC.completed behind e c).2 with ⟨new, l, -, he'⟩ | ⟨-, he'⟩
    · rw [he']
      simp
    · rw [he']
      exact he

theorem Appends.appended (hC : C.Appends) {l : List Call} (hcalls : t.calls = s.calls ++ l)
    (hext : t.ext = (C.hooks behind).run s.ext l) {c : Call} (hc : c ∈ l)
    (hparse : ∀ m, (C.parseCall c m).isOk = true) : C.Appended behind s t := by
  obtain ⟨l₁, l₂, rfl⟩ := List.append_of_mem hc
  have hrun := Hooks.run_concat (H := C.hooks behind) s.ext l₁ c
  rcases (hC.completed behind ((C.hooks behind).run s.ext l₁) c).2 with
    ⟨new, l, hnew, he⟩ | ⟨⟨err, herr⟩, -⟩
  · refine ⟨l₁, c, l₂, new, hcalls, hnew, ?_, ?_⟩
    · rw [hrun, he, List.getLast?_concat]
    · have hsplit : l₁ ++ c :: l₂ = (l₁ ++ [c]) ++ l₂ := by simp
      rw [hext, hsplit, Hooks.run_append]
      apply hC.run_ne_nil
      rw [hrun, he]
      simp
  · have hok := hparse (behind ((C.hooks behind).run s.ext l₁).next)
    rw [herr] at hok
    cases hok

/-- **A section that is laid out** is parsed, whatever lies behind it. -/
theorem isOk_parseCall (hL : C.Lays L) {w : Sect} (hw : w.LaidOut L) {c : Call} (hc : c.Of w)
    (hwhole : w.whole = w.bytes) (m : List UInt8) : (C.parseCall c m).isOk = true := by
  obtain ⟨k, hdata, hk, hlaid⟩ := hw
  rw [parseCall, hc.data, hc.hdr, hc.bytes, hwhole, hdata, parseAt]
  rw [if_pos (Int.natCast_nonneg k), Int.toNat_natCast, List.drop_append_of_le_length hk, hL.isOk]
  exact hL.append m hlaid

theorem accepts_hooks {b : List UInt8} (h : Inbox.Accepts (C.hooks behind) b) :
    C.started (Sect.first b).hdr = true := by
  obtain ⟨e, x, hhdr, hstart⟩ := h
  rw [← hhdr]
  exact hstart

theorem not_refused (hsim : Sim P s I) {b : List UInt8} (hb : b ≠ [])
    (hstart : C.started (Sect.first b).hdr = true) : ¬ Refused (C.hooks behind) s b := by
  intro hrefused
  obtain ⟨e, x, b', hhdr, hfalse⟩ := hsim.started_of_refused hb hrefused
  rw [← hhdr] at hstart
  exact absurd (hstart.symm.trans hfalse) nofun

/-! ### The sections that are passed on -/

/-- Sections have been passed on behind `I`, each of which ends in the packet. -/
def PassesEnding (C : TableClass α) (s : SectionParser (TableStore α)) (packet : Bool × List UInt8)
    (I I' : Inbox) : Prop :=
  ∃ l, I'.calls = I.calls ++ l ∧
    ∀ c ∈ l, ∃ w, C.Ends s packet w ∧ crc32 w.bytes = 0 ∧ c.Of w ∧ w.whole = w.bytes

theorem PassesEnding.of_eq (h : I'.calls = I.calls) : PassesEnding C s packet I I' :=
  ⟨[], h.trans (List.append_nil _).symm, by simp⟩

theorem PassesEnding.trans {I₁ : Inbox} (h : PassesEnding C s packet I I₁)
    (h' : PassesEnding C s packet I₁ I') : PassesEnding C s packet I I' := by
  obtain ⟨l, hl, hall⟩ := h
  obtain ⟨l', hl', hall'⟩ := h'
  refine ⟨l ++ l', by rw [hl', hl, List.append_assoc], fun c hc => ?_⟩
  exact (List.mem_append.mp hc).elim (hall c) (hall' c)

theorem whole_tail {z : List UInt8} {x : SectionInfo} (h : TailEnds s b z x) :
    ({ x.view s.pool with bytes := z } : Sect).whole = z := by
  rw [Sect.whole, ← h.bytes, List.take_take]
  exact congrArg (List.take · _) (Nat.min_self _)

theorem whole_first (b : List UInt8) :
    ({ Sect.first b with bytes := (Sect.first b).whole } : Sect).whole = (Sect.first b).whole := by
  rw [Sect.whole, Sect.whole, List.take_take, Nat.min_self]

theorem PassesEnding.follow (hsim : Sim P s I) (hb : packetTail packet = some b)
    (hf : Inbox.Follow P b I done r I') : PassesEnding C s packet I I' := by
  rcases hsim.calls_of_follow (length_packetTail hb).1 hf with hsame | ⟨z, x, c, he, hcrc, hcalls, hc⟩
  · exact .of_eq hsame
  · refine ⟨[c], hcalls, fun c' hc' => ?_⟩
    obtain rfl := List.mem_singleton.mp hc'
    exact ⟨_, .tail hb he, hcrc, hc, whole_tail he⟩

theorem PassesEnding.begins {n : Option ℕ} (hb : b ∈ packetStarts packet)
    (hf : Inbox.Begins (C.hooks behind) P b I done n r I') : PassesEnding C s packet I I' := by
  cases hf with
  | full | ignored | more => exact .of_eq rfl
  | finished _ hl hfin _ hH =>
    cases hfin with
    | crc32Err | already => exact .of_eq rfl
    | @completed hcrc _ c hc =>
      refine ⟨[c], rfl, fun c' hc' => ?_⟩
      obtain rfl := List.mem_singleton.mp hc'
      refine ⟨_, .start hb hl (accepts_hooks hH), hcrc, ?_, whole_first b⟩
      exact ⟨hc.bytes.trans (whole_first b).symm, hc.hdr, hc.data,
        hc.len.trans (congrArg List.length (whole_first b).symm)⟩

theorem PassesEnding.turns {l : List (SectionParser (TableStore α) × List UInt8)}
    (hmem : ∀ tb ∈ l, tb.2 ∈ packetStarts packet) (hl : Turns (C.hooks behind) P l I I') :
    PassesEnding C s packet I I' := by
  apply hl.inv (PassesEnding C s packet I) (.of_eq rfl)
  exact fun tb htb _ _ _ _ _ h hf => h.trans (.begins (hmem tb htb) hf)

/-- **The sections that a packet passes on** end in it. -/
theorem passesEnding (hsim : Sim P s I) (hparts : Parts (C.hooks behind) P s packet I I')
    (hmem : ∀ tb ∈ packetTurns (C.hooks behind) s packet, tb.2 ∈ packetStarts packet) :
    PassesEnding C s packet I I' := by
  cases hparts with
  | turns _ hl => exact .turns hmem hl
  | tail ht hf _ hl => exact .trans (.follow hsim ht hf) (.turns hmem hl)

theorem sim_classStep {P : ℕ} {I : Inbox} {op : ClassOp} (h : Sim P s I)
    (hstep : C.classStep behind s op = some t) (hop : op.Fits) : ∃ I', Sim P t I' := by
  have hrelease : Sim P { s with ext := s.ext.releaseTables } I :=
    ⟨h.holds.outside s.isIgnoreSection _ s.calls, h.receiving, h.ignoring, h.calls, h.poolSize⟩
  cases op with
  | packet p =>
    obtain ⟨t', I', ht, -, hsim⟩ := h.packetStep (H := C.hooks behind) hop
    obtain rfl := Option.some.inj (ht.symm.trans hstep)
    exact ⟨I', hsim⟩
  | checkAsyncDelete =>
    obtain rfl := Option.some.inj hstep
    rcases h.checkAsyncDelete with hsim | hsim
    · exact ⟨_, hsim⟩
    · exact ⟨_, hsim⟩
  | clear =>
    obtain rfl := Option.some.inj hstep
    exact ⟨_, hrelease.asyncDelete⟩
  | forceClear =>
    obtain rfl := Option.some.inj hstep
    exact ⟨_, hrelease.detachAll⟩

/-- **A new section** that ends in a packet for which `check_section` says COMPLETED is passed on. -/
theorem passedOn_of_answers (hsim : Sim P s I) (hlen : packet.2.length < 2 ^ 64)
    (ht : packetStep (C.hooks behind) s packet = some t) (hans : Answers (C.hooks behind) s packet)
    {w : Sect} (hw : C.Ends s packet w) (hcrc : crc32 w.bytes = 0)
    (hnew : w.bytes ∉ s.known.map Sect.bytes) : PassedOn s.calls t.calls w.bytes := by
  cases hw with
  | @tail b z x hb he =>
    obtain ⟨t', I', ht', hsim', hparts, -⟩ := hsim.packet (H := C.hooks behind) packet hlen
    obtain rfl := Option.some.inj (ht.symm.trans ht')
    rw [hsim.known_eq] at hnew
    rw [hsim.calls, hsim'.calls]
    cases hparts with
    | turns hnil => cases hb.symm.trans hnil
    | tail hb' hf _ hl =>
      obtain rfl := Option.some.inj (hb.symm.trans hb')
      exact (he.passedOn hsim hf hcrc hnew).before (Grows.turns hl).calls
  | @start b hb hwhole hstart =>
    match packet with
    | (false, _) | (true, []) => simp [packetStarts] at hb
    | (true, n :: l) =>
      obtain ⟨hn, htail, hroom, -⟩ := hans
      obtain ⟨st, rest, hturns⟩ :=
        hsim.packetTurns_cons (H := C.hooks behind) hn htail (List.ne_nil_of_mem hb)
      have hfit : (l.drop n.toNat).length ≤ s.poolSize := hroom _ (hturns ▸ List.mem_cons_self)
      rw [List.length_drop] at hfit
      obtain ⟨t', I', ht', hsim', hparts, hmem⟩ := hsim.packet (H := C.hooks behind) (true, n :: l) hlen
      obtain ⟨t'', ht'', hiff⟩ := hsim.passedOn_packet (H := C.hooks behind) hlen hb hwhole hcrc hnew
        fun tb htb htb' => by
          obtain ⟨hne, I₀, hsim₀⟩ := hparts.sim tb htb
          exact not_refused hsim₀ (htb' ▸ hne) hstart
      obtain rfl := Option.some.inj (ht.symm.trans ht'')
      exact hiff.mpr (.inl ⟨htail, hfit⟩)

/-- When `check_section` says COMPLETED, a section has been passed on, or the parser has come to the
end of the tail and no section begins. -/
theorem calls_ne_of_answers (hsim : Sim P s I) {l : List Call}
    (hall : List.Forall₂ Holds (packetNew (C.hooks behind) s packet) l)
    (hans : Answers (C.hooks behind) s packet) :
    l ≠ [] ∨ packet.1 = true ∧ ReachesStarts s packet ∧ packetStarts packet = [] := by
  by_contra hcon
  rw [not_or, not_not] at hcon
  obtain ⟨rfl, hnone⟩ := hcon
  have hnil : packetNew (C.hooks behind) s packet = [] := List.forall₂_nil_right_iff.mp hall
  rw [packetNew, List.append_eq_nil_iff] at hnil
  match packet with
  | (false, []) => simp [Answers, newSection_follow_nil] at hans
  | (false, c :: l) =>
    have hsome := Option.isSome_iff_ne_none.mp hans
    exact hsome (by simpa [packetTail] using hnil.1)
  | (true, []) => exact hans
  | (true, n :: l) =>
    obtain ⟨hn, htail, -, hturns⟩ := hans
    refine hnone ⟨rfl, ⟨n, l, rfl, hn, htail⟩, ?_⟩
    by_contra hstarts
    obtain ⟨st, rest, hcons⟩ := hsim.packetTurns_cons (H := C.hooks behind) hn htail hstarts
    rw [hcons] at hturns hnil
    exact hturns.elim (List.cons_ne_nil _ _) fun hne => hne hnil.2

theorem Appends.completedYields (hC : C.Appends) (hL : C.Lays L) (behind : ℕ → List UInt8)
    (poolSize : ℕ) (fifoNum : ℤ) : C.CompletedYields behind L poolSize fifoNum := by
  intro s hs packet hlen hyields t ht
  obtain ⟨I, hsim⟩ := hs.inv (fun s => ∃ I, Sim poolSize s I)
    ⟨_, create_sim poolSize fifoNum .psisi TableStore.empty⟩
    fun _ _ _ ⟨_, h⟩ hop hstep => sim_classStep h hstep hop
  obtain ⟨hiff, l, hcalls, hall⟩ := hsim.checkSection_result ht
  obtain ⟨l', hcalls', hext⟩ := given_checkSection (C.keepsState behind) ht
  obtain rfl := List.append_cancel_left (hcalls.symm.trans hcalls')
  have hans := hiff.mp rfl
  have hstep : packetStep (C.hooks behind) s packet = some t := by
    rw [packetStep, ht]
    rfl
  -- the sections that are passed on end in the packet
  have hending : ∀ c ∈ l, ∃ w, C.Ends s packet w ∧ crc32 w.bytes = 0 ∧ c.Of w ∧
      w.whole = w.bytes := by
    obtain ⟨t', I', ht', hsim', hparts, hmem⟩ := hsim.packet (H := C.hooks behind) packet hlen
    obtain rfl := Option.some.inj (hstep.symm.trans ht')
    obtain ⟨l', hl', hall'⟩ := passesEnding hsim hparts hmem
    rw [← hsim.calls, ← hsim'.calls, hcalls] at hl'
    rwa [List.append_cancel_left hl']
  have happended : ∀ c ∈ l, ∀ w, c.Of w → w.whole = w.bytes → w.LaidOut L →
      C.Appended behind s t := fun c hc w hw hwhole hlaid =>
    hC.appended hcalls hext hc (isOk_parseCall hL hlaid hw hwhole)
  rcases hyields with ⟨w, hw, hcrc, hnew, hsame⟩ | ⟨hlaid, hstarts⟩
  · obtain ⟨new, hnew', hmem⟩ := passedOn_of_answers hsim hlen hstep hans hw hcrc hnew
    obtain rfl := List.append_cancel_left (hcalls.symm.trans hnew')
    obtain ⟨c, hc, hbytes⟩ := List.mem_map.mp hmem
    obtain ⟨w', hw', -, hof, hwhole⟩ := hending c hc
    exact happended c hc w' hof hwhole (hsame w' hw' (hwhole.symm.trans (hof.bytes.symm.trans hbytes)))
  · rcases calls_ne_of_answers hsim hall hans with hne | ⟨hfirst, hreach, hnil⟩
    · obtain ⟨c, hc⟩ := List.exists_mem_of_ne_nil l hne
      obtain ⟨w, hw, hcrc, hof, hwhole⟩ := hending c hc
      exact happended c hc w hof hwhole (hlaid w hw hcrc)
    · exact absurd hnil (hstarts hfirst hreach)

end TableClass

/-- **What COMPLETED stands for**, for the parsers of the psisi manager: a table has been appended, in
every state reached and for every packet of which the sections that end in it are laid out as the
class wants them, or a new one of them is. -/
theorem completed_yields_table (behind : ℕ → List UInt8) (poolSize : ℕ) (fifoNum : ℤ) :
    patClass.CompletedYields behind PatLayout poolSize fifoNum ∧
      pmtClass.CompletedYields behind PmtLayout poolSize fifoNum ∧
      catClass.CompletedYields behind CatLayout poolSize fifoNum ∧
      nitClass.CompletedYields behind NitLayout poolSize fifoNum ∧
      sdtClass.CompletedYields behind SdtLayout poolSize fifoNum ∧
      cdtClass.CompletedYields behind CdtLayout poolSize fifoNum ∧
      eitClass.CompletedYields behind EitLayout poolSize fifoNum :=
  ⟨programAssociationTable.appends_refreshing.completedYields lays_pat behind poolSize fifoNum,
    (appends_appendOnly _).completedYields lays_pmt behind poolSize fifoNum,
    (appends_appendOnly _).completedYields lays_cat behind poolSize fifoNum,
    (appends_appendOnly _).completedYields lays_nit behind poolSize fifoNum,
    (appends_appendOnly _).completedYields lays_sdt behind poolSize fifoNum,
    (appends_appendOnly _).completedYields lays_cdt behind poolSize fifoNum,
    eventInformationTable.appends_refreshing.completedYields lays_eit behind poolSize fifoNum⟩

/-- The packet of a PAT with a program, in front of stuffing. -/
def programPacket : Bool × List UInt8 :=
  (true, [0, 0, 176, 13, 0, 4, 195, 0, 0, 4, 0, 225, 240, 179, 37, 33, 129] ++
    List.replicate 167 0xff)

theorem completed_yields_table_program : ∃ t,
    (create 256 16 .psisi .empty).checkSection (patClass.hooks fun _ => []) programPacket.1
      programPacket.2 = some (.completed, t) ∧
    patClass.Appended (fun _ => []) (create 256 16 .psisi .empty) t := by
  have hrun : ((create 256 16 .psisi .empty).checkSection (patClass.hooks fun _ => [])
      programPacket.1 programPacket.2).map Prod.fst = some .completed := by
    decide +kernel
  obtain ⟨⟨r, t⟩, ht, rfl⟩ := Option.map_eq_some_iff.mp hrun
  refine ⟨t, ht, ?_⟩
  apply (completed_yields_table (fun _ => []) 256 16).1 _ .refl programPacket (by decide +kernel) _ t ht
  have hstarts : packetStarts programPacket = [programPacket.2.tail] := by decide +kernel
  have htail : packetTail programPacket = none := by decide +kernel
  right
  constructor
  · intro w hw _
    cases hw with
    | tail hb => cases htail.symm.trans hb
    | start hb =>
      obtain rfl := List.mem_singleton.mp (hstarts ▸ hb)
      exact ⟨8, by decide, by decide, by unfold PatLayout; decide⟩
  · intro _ _
    rw [hstarts]
    exact List.cons_ne_nil _ _

theorem noTable_of_run {payload : List UInt8}
    (h : ((create 4096 16 .psisi .empty).checkSection (patClass.hooks fun _ => []) true payload).map
      (fun p => (p.1, p.2.ext.tables)) = some (.completed, [])) :
    ∃ t, (create 4096 16 .psisi .empty).checkSection (patClass.hooks fun _ => []) true payload =
        some (.completed, t) ∧
      t.ext.tables = [] ∧ ¬ patClass.Appended (fun _ => []) (create 4096 16 .psisi .empty) t := by
  obtain ⟨⟨r, t⟩, ht, hrest⟩ := Option.map_eq_some_iff.mp h
  obtain ⟨rfl, hnil⟩ := Prod.mk.inj hrest
  refine ⟨t, ht, hnil, ?_⟩
  rintro ⟨-, -, -, -, -, -, -, hne⟩
  exact hne hnil

/-- The packet of a PAT in which no section begins, and one with a section without a program:
`check_section` says COMPLETED, and there is no table. -/
theorem not_completed_noTable :
    (∃ t, (create 4096 16 .psisi .empty).checkSection (patClass.hooks fun _ => []) true
        (0 :: List.replicate 183 0xff) = some (.completed, t) ∧
      t.ext.tables = [] ∧ ¬ patClass.Appended (fun _ => []) (create 4096 16 .psisi .empty) t) ∧
    ∃ t, (create 4096 16 .psisi .empty).checkSection (patClass.hooks fun _ => []) true
        ([0, 0, 176, 9, 0, 1, 193, 0, 0, 239, 34, 98, 23] ++ List.replicate 171 0xff) =
          some (.completed, t) ∧
      t.ext.tables = [] ∧ ¬ patClass.Appended (fun _ => []) (create 4096 16 .psisi .empty) t :=
  ⟨noTable_of_run (by decide +kernel), noTable_of_run (by decide +kernel)⟩

end AutoRec
