import AutoRec.Parser.Runs

/-!
# The loop of `check_section_first`

The loop (`parser/section_parser.cpp`) goes through the sections that begin in a packet, with `p` and
`size`: the place in the payload, and what is left there.

* `LoopState`, `loopStart`, `loopTurn`, `loopEnd`: the variables of the loop, where it begins, one
  turn, and what the function returns when there is no further turn.
* `checkLoop_eq`: the function of the model takes these turns.
* `LoopState.Within`: `p` is in the payload, and `size` is what is behind it, unless the section at
  `p` is ignored and is the last one. `within_start`, `Within.turn`.
* **`loop_within`**: so it is at each turn; nothing is subtracted from `size` that it does not have,
  and the loop ends.
* `not_left_always`: `size` is not always what is behind `p`.
-/

namespace AutoRec

open Arena SectionParser Inbox Machine

variable {τ : Type}

/-- The variables of the loop of `check_section_first`, with the parser. -/
structure LoopState (τ : Type) where
  p : ℕ
  size : ℕ
  r : CheckSection
  isEvenOnceCompleted : Bool
  parser : SectionParser τ

section Loop

variable (H : Hooks τ) (payload : List UInt8)

/-- Where the loop begins, if the function comes to it. -/
def loopStart (s : SectionParser τ) : List UInt8 → Option (LoopState τ)
  | [] => none
  | pointerField :: l =>
    let n := pointerField.toNat
    if l.length ≤ n then none
    else if n = 0 then some ⟨1 + n, l.length - n, .completed, false, s⟩
    else
      match s.checkSectionFollow H (l.take n) with
      | (.receiving, _) | (.invalid, _) => none
      | (_, s₁) => some ⟨1 + n, l.length - n, .completed, false, s₁⟩

/-- The section at `p`, if the condition of the loop holds. -/
def LoopState.turn (x : LoopState τ) : Option (Turn τ) :=
  if x.size = 0 ∨ payload[x.p]? = some 0xff then none
  else some (x.parser.checkTurn H (slice payload x.p (x.p + x.size)) x.isEvenOnceCompleted)

/-- A turn of the loop, up to the next time that its condition is looked at. -/
def loopTurn (x : LoopState τ) (_ : Unit) : Option (LoopState τ) :=
  match x.turn H payload with
  | some (.next none r once s) => some ⟨x.p, 0, r, once, s⟩
  | some (.next (some k) r once s) => some ⟨x.p + k, sizeSub x.size k, r, once, s⟩
  | _ => none

/-- What the function returns, if there is no further turn. -/
def loopEnd (x : LoopState τ) : CheckSection × SectionParser τ :=
  match x.turn H payload with
  | some (.done r s) => (r, s)
  | _ => (if x.isEvenOnceCompleted then .completed else x.r, x.parser)

/-- The place is in the payload, and what is left lies behind it: all of it, or nothing, when the
section there is ignored. -/
structure LoopState.Within (x : LoopState τ) : Prop where
  inside : x.p ≤ payload.length
  left : x.size = payload.length - x.p ∨
    x.size = 0 ∧ x.r = .ignore ∧ x.parser.isIgnoreSection = true

end Loop

variable {H : Hooks τ} {P : ℕ} {s : SectionParser τ} {I : Inbox} {payload : List UInt8}
  {x y : LoopState τ}

namespace LoopState

theorem Within.le (h : x.Within payload) : x.p + x.size ≤ payload.length := by
  have hin := h.inside
  rcases h.left with hsize | ⟨hsize, -⟩ <;> omega

theorem Within.lt (h : x.Within payload) (hsize : x.size ≠ 0) : x.p < payload.length := by
  have hle := h.le
  omega

theorem turn_eq_some {T : Turn τ} (h : x.Within payload) (ht : x.turn H payload = some T) :
    x.size ≠ 0 ∧ slice payload x.p (x.p + x.size) ≠ [] ∧
      (slice payload x.p (x.p + x.size)).length = x.size ∧
      x.parser.checkTurn H (slice payload x.p (x.p + x.size)) x.isEvenOnceCompleted = T := by
  unfold turn at ht
  split_ifs at ht with hend
  obtain ⟨hsize, -⟩ := not_or.mp hend
  have hlen : (slice payload x.p (x.p + x.size)).length = x.size := by
    rw [length_slice _ h.le]
    omega
  exact ⟨hsize, List.ne_nil_of_length_pos (by omega), hlen, Option.some.inj ht⟩

end LoopState

theorem checkLoop_eq (h : x.Within payload) (n : ℕ) :
    checkLoop H payload (n + 1) x.p x.size x.r x.isEvenOnceCompleted x.parser =
      match loopTurn H payload x () with
      | some y => checkLoop H payload n y.p y.size y.r y.isEvenOnceCompleted y.parser
      | none => some (loopEnd H payload x) := by
  rw [checkLoop, loopTurn, loopEnd]
  by_cases hsize : x.size = 0
  · have hturn : x.turn H payload = none := if_pos (.inl hsize)
    rw [if_pos hsize, hturn]
  have hlt : x.p < payload.length := h.lt hsize
  have hp := List.getElem?_eq_getElem hlt
  rw [if_neg hsize]
  by_cases hff : payload[x.p] = 0xff
  · have hturn : x.turn H payload = none := if_pos (.inr (hp.trans (congrArg some hff)))
    rw [hp, hturn]
    exact if_pos hff
  · have hturn : x.turn H payload =
        some (x.parser.checkTurn H (slice payload x.p (x.p + x.size)) x.isEvenOnceCompleted) := by
      refine if_neg (not_or.mpr ⟨hsize, fun hc => hff ?_⟩)
      exact Option.some.inj (hp.symm.trans hc)
    simp only [hp, hturn, if_neg hff, if_neg (Nat.not_lt.mpr h.le)]
    rcases x.parser.checkTurn H (slice payload x.p (x.p + x.size)) x.isEvenOnceCompleted with
      ⟨r, t⟩ | ⟨_ | k, r, once, t⟩ <;> rfl

namespace SectionParser

/-- **Where the loop begins**: behind the pointer field and the tail that it counts. -/
theorem Sim.loopStart (h : Sim P s I) (hx : loopStart H s payload = some x) :
    x.Within payload ∧ ∃ I, Sim P x.parser I := by
  match payload with
  | [] => cases hx
  | n :: l =>
    simp only [AutoRec.loopStart] at hx
    split_ifs at hx with hlen h0
    · obtain rfl := Option.some.inj hx
      refine ⟨⟨?_, .inl ?_⟩, I, h⟩ <;> rw [List.length_cons] <;> dsimp only <;> omega
    · have hn0 : n ≠ 0 := fun hz => h0 (congrArg UInt8.toNat hz)
      obtain ⟨r, t, -, I', hf, -, hsim, -⟩ :=
        h.checkSectionFollow (H := H) (tail_ne_nil (Nat.lt_of_not_le hlen) hn0)
      rw [hf] at hx
      have hstart : x = ⟨1 + n.toNat, l.length - n.toNat, .completed, false, t⟩ := by
        cases r <;> first | exact (Option.some.inj hx).symm | cases hx
      subst hstart
      refine ⟨⟨?_, .inl ?_⟩, I', hsim⟩ <;> rw [List.length_cons] <;> dsimp only <;> omega

theorem Sim.le_size (h : Sim P x.parser I) (hin : x.Within payload) {k : ℕ} {r : CheckSection}
    {once : Bool} (ht : x.turn H payload = some (.next (some k) r once s)) : k ≤ x.size := by
  obtain ⟨-, hne, hlen, hturn⟩ := x.turn_eq_some hin ht
  obtain ⟨-, -, ⟨_, _, _, _, ht', -⟩ | ⟨_, _, _, _, _, _, ht', -, -, -, htakes, -⟩⟩ :=
    h.checkTurn (H := H) hne x.isEvenOnceCompleted
  · rw [hturn] at ht'
    cases ht'
  · rw [hturn] at ht'
    obtain ⟨rfl, rfl, rfl, rfl⟩ := Turn.next.inj ht'
    rcases htakes with ⟨hk, hle⟩ | ⟨hk, -⟩
    · obtain rfl := Option.some.inj hk
      exact hlen ▸ hle
    · cases hk

/-- Only an ignored section takes up all that is left. -/
theorem checkTurn_none {b : List UInt8} {r : CheckSection} {once once' : Bool} {t : SectionParser τ}
    (h : s.checkTurn H b once = .next none r once' t) :
    r = .ignore ∧ t.isIgnoreSection = true := by
  unfold checkTurn at h
  split at h
  · cases h
  · split at h
    · cases h
    · split at h
      · obtain ⟨-, rfl, -, rfl⟩ := Turn.next.inj h
        exact ⟨rfl, rfl⟩
      · dsimp only at h
        split_ifs at h
        · split at h <;> cases h

/-- **A turn** leaves less, in the payload. -/
theorem Sim.loopTurn (h : Sim P x.parser I) (hin : x.Within payload) (hlen : payload.length < 2 ^ 64)
    (hy : loopTurn H payload x () = some y) :
    y.Within payload ∧ y.size < x.size ∧ ∃ I, Sim P y.parser I := by
  cases hT : x.turn H payload with
  | none =>
    rw [AutoRec.loopTurn, hT] at hy
    cases hy
  | some T =>
    obtain ⟨hsize, hne, hbytes, hturn⟩ := x.turn_eq_some hin hT
    obtain ⟨-, -, ⟨_, _, _, _, ht, -⟩ | ⟨n, k, r, once, t, I', ht, -, hsim, hk, htakes, -⟩⟩ :=
      h.checkTurn (H := H) hne x.isEvenOnceCompleted
    · rw [AutoRec.loopTurn, hT, ← hturn, ht] at hy
      cases hy
    · rw [AutoRec.loopTurn, hT, ← hturn, ht] at hy
      rcases htakes with ⟨rfl, hle⟩ | ⟨rfl, -⟩
      · obtain rfl := Option.some.inj hy
        rw [hbytes] at hle
        have hle' := hin.le
        have hleft : x.size = payload.length - x.p := by
          rcases hin.left with hleft | ⟨hzero, -⟩
          · exact hleft
          · exact absurd hzero hsize
        have hsub : sizeSub x.size k = x.size - k := by
          rw [sizeSub]
          omega
        refine ⟨⟨?_, .inl ?_⟩, ?_, I', hsim⟩ <;> dsimp only <;> omega
      · obtain rfl := Option.some.inj hy
        obtain ⟨hr, hi⟩ := checkTurn_none ht
        exact ⟨⟨hin.inside, .inr ⟨rfl, hr, hi⟩⟩, Nat.pos_of_ne_zero hsize, I', hsim⟩

theorem Sim.loop_ends (h : Sim P x.parser I) (hin : x.Within payload)
    (hlen : payload.length < 2 ^ 64) {n : ℕ} (hn : x.size < n) :
    ∃ y, Reach (AutoRec.loopTurn H payload) anyStep x y ∧ AutoRec.loopTurn H payload y () = none ∧
      SectionParser.checkLoop H payload n x.p x.size x.r x.isEvenOnceCompleted x.parser =
        some (loopEnd H payload y) := by
  induction n generalizing x I with
  | zero => exact absurd hn (Nat.not_lt_zero _)
  | succ n ih =>
    rw [checkLoop_eq hin]
    cases hy : AutoRec.loopTurn H payload x () with
    | none => exact ⟨x, .refl, hy, rfl⟩
    | some y =>
      obtain ⟨hin', hlt, I', hsim⟩ := h.loopTurn hin hlen hy
      obtain ⟨z, hz, hend, hr⟩ := ih hsim hin' (Nat.lt_of_lt_of_le hlt (Nat.le_of_lt_succ hn))
      exact ⟨z, (Reach.tail .refl trivial hy).trans hz, hend, hr⟩

theorem checkSectionFirst_eq (hx : loopStart H s payload = some x) :
    s.checkSectionFirst H payload =
      SectionParser.checkLoop H payload (payload.length + 1) x.p x.size x.r x.isEvenOnceCompleted
        x.parser := by
  match payload with
  | [] => cases hx
  | n :: l =>
    simp only [AutoRec.loopStart] at hx
    rw [SectionParser.checkSectionFirst]
    split_ifs at hx ⊢
    · obtain rfl := Option.some.inj hx
      rfl
    · generalize s.checkSectionFollow H (l.take n.toNat) = f at hx ⊢
      obtain ⟨r, t⟩ := f
      cases r with
      | receiving | invalid => cases hx
      | completed | completedAlready | canceled | crc32Err | ignore =>
        obtain rfl := Option.some.inj hx
        rfl

end SectionParser

/-- **The loop of `check_section_first`**, for each payload and in each state of the parser. It ends;
`p` does not leave the payload, and `size` is what lies behind it unless an ignored section takes up
all of it; what is subtracted from `size` is not more than that, and each turn leaves less. -/
theorem loop_within (H : Hooks τ) (poolSize : ℕ) (fifoNum : ℤ) (type : SectionType) (ext : τ)
    (hs : Reach (parserStep H) (fun _ op => op.Fits) (create poolSize fifoNum type ext) s)
    (hlen : payload.length < 2 ^ 64) {x₀ : LoopState τ} (hx₀ : loopStart H s payload = some x₀) :
    (∃ y, Reach (loopTurn H payload) anyStep x₀ y ∧ loopTurn H payload y () = none ∧
      s.checkSectionFirst H payload = some (loopEnd H payload y)) ∧
      ∀ x, Reach (loopTurn H payload) anyStep x₀ x → x.Within payload ∧
        (∀ k r once t, x.turn H payload = some (.next (some k) r once t) → k ≤ x.size) ∧
          ∀ y, loopTurn H payload x () = some y → y.size < x.size := by
  obtain ⟨I, hsim, -⟩ := sim_reach hs (fun _ _ h => h) (fun _ => True) trivial
    fun _ _ _ _ _ _ _ _ => trivial
  obtain ⟨hin₀, I₀, hsim₀⟩ := hsim.loopStart hx₀
  constructor
  · rw [checkSectionFirst_eq hx₀]
    have hle := hin₀.le
    exact hsim₀.loop_ends hin₀ hlen (by omega)
  · intro x hx
    obtain ⟨hin, I', hsim'⟩ := hx.inv (fun x => x.Within payload ∧ ∃ I, Sim poolSize x.parser I)
      ⟨hin₀, I₀, hsim₀⟩ fun x _ y ⟨hin, I, hsim⟩ _ hy =>
        ⟨(hsim.loopTurn hin hlen hy).1, (hsim.loopTurn hin hlen hy).2.2⟩
    exact ⟨hin, fun k r once t => hsim'.le_size hin, fun y hy => (hsim'.loopTurn hin hlen hy).2.1⟩

/-- No section is wanted. -/
def refusing : Hooks Unit where
  started := fun e _ _ => (false, e)
  completed := fun e _ _ => (false, e)

/-- The loop of a new parser, for a packet with a section that goes on behind it. -/
def refusedStart : LoopState Unit := ⟨1, 3, .completed, false, create 8 0 .psisi ()⟩

theorem exists_refused : ∃ y, loopTurn refusing [0, 66, 176, 29] refusedStart () = some y ∧
    y.p = 1 ∧ y.size = 0 := by
  have hturn : (loopTurn refusing [0, 66, 176, 29] refusedStart ()).map (fun y => (y.p, y.size)) =
      some (1, 0) := by
    decide
  obtain ⟨y, hy, hplace⟩ := Option.map_eq_some_iff.mp hturn
  obtain ⟨hp, hsize⟩ := Prod.mk.inj hplace
  exact ⟨y, hy, hp, hsize⟩

theorem loop_within_refused : ∃ y, loopTurn refusing [0, 66, 176, 29] refusedStart () = some y ∧
    y.Within [0, 66, 176, 29] ∧ y.size < 3 := by
  have hx₀ : loopStart refusing (create 8 0 .psisi ()) [0, 66, 176, 29] = some refusedStart := rfl
  obtain ⟨-, hall⟩ := loop_within refusing 8 0 .psisi () .refl (by decide) hx₀
  obtain ⟨y, hy, -⟩ := exists_refused
  exact ⟨y, hy, (hall y (.tail .refl trivial hy)).1, (hall _ .refl).2.2 y hy⟩

/-- **What is left is not always what lies behind `p`**: when the last section is ignored, `p` stays
where it begins. -/
theorem not_left_always : ¬ ∀ (H : Hooks Unit) (s : SectionParser Unit),
    Reach (parserStep H) (fun _ op => op.Fits) (create 8 0 .psisi ()) s →
      ∀ payload : List UInt8, 1 ≤ payload.length ∧ payload.length ≤ 184 →
        ∀ x₀, loopStart H s payload = some x₀ →
          ∀ x, Reach (loopTurn H payload) anyStep x₀ x → x.size = payload.length - x.p := by
  intro hall
  obtain ⟨y, hy, hp, hsize⟩ := exists_refused
  have hleft := hall refusing _ .refl [0, 66, 176, 29] (by decide) refusedStart rfl y
    (.tail .refl trivial hy)
  rw [hp, hsize] at hleft
  exact absurd hleft (by decide)

end AutoRec
