import AutoRec.Lib.Machine
import AutoRec.Parser.Packet

/-!
# The parser does what is possible

* `Sim`: the parser of the code holds the sections of an `Inbox`.
* `Sim.checkSectionFollow`, `Sim.checkTurn`, `Sim.checkLoop`, `Sim.checkSection`: its functions do
  one of the things that are possible, and never read behind the payload.
* `Turns`: the turns of the loop one after the other.
* `Parts`, `Parts.inv`: a packet, part by part, and the rule for what packets keep.
-/

namespace AutoRec

open Arena

namespace SectionParser

open Inbox

variable {τ : Type} {H : Hooks τ} {P : ℕ} {s t : SectionParser τ} {I : Inbox} {b : List UInt8}

/-- **The parser holds the sections of `I`**, in a pool of `P` bytes. -/
structure Sim (P : ℕ) (s : SectionParser τ) (I : Inbox) : Prop where
  holds : At s I.done I.cur
  receiving : ∀ w ∈ I.cur, w.state = .receiving
  ignoring : s.isIgnoreSection = I.ignoring
  calls : s.calls = I.calls
  poolSize : s.poolSize = P

theorem create_sim (P : ℕ) (fifoNum : ℤ) (type : SectionType) (ext : τ) :
    Sim P (create P fifoNum type ext) ⟨[], none, false, []⟩ :=
  ⟨create_at P fifoNum type ext, by simp, rfl, rfl, rfl⟩

theorem Sim.of_env {done : List Sect} {cur : Option Sect} {e : τ} {i : Bool} {calls : List Call}
    (h : Sim P s I) (hat : At t done cur) (hcur : ∀ w ∈ cur, w.state = .receiving)
    (he : t.env = { s.env with isIgnoreSection := i, ext := e, calls := calls }) :
    Sim P t ⟨done, cur, i, calls⟩ where
  holds := hat
  receiving := hcur
  ignoring := congrArg Env.isIgnoreSection he
  calls := congrArg Env.calls he
  poolSize := (congrArg Env.poolSize he).trans h.poolSize

theorem Sim.env_eq (h : Sim P s I) :
    s.env = { s.env with isIgnoreSection := I.ignoring, ext := s.ext, calls := I.calls } := by
  rw [← h.ignoring, ← h.calls]
  rfl

/-- **`check_section_follow`.** -/
theorem Sim.checkSectionFollow (h : Sim P s I) (hb : b ≠ []) :
    ∃ r t done I', s.checkSectionFollow H b = (r, t) ∧ Follow P b I done r I' ∧ Sim P t I' ∧
      (H.Detaches → I'.done <:+ I.done) ∧ ∀ w ∈ I.cur, I.ignoring = false → w.bytes.length + b.length ≤ P →
        (s.attachSectionList b).1 = s.workSectInfo ∧
        (s.attachSectionList b).2.listed = done ++ [{ w with bytes := w.bytes ++ b }] := by
  unfold SectionParser.checkSectionFollow
  by_cases hi : s.isIgnoreSection = true
  · rw [if_pos hi]
    have hi' : I.ignoring = true := h.ignoring ▸ hi
    exact ⟨.ignore, s, I.done, I, rfl, .ignoring hi', h, fun _ => List.suffix_refl _,
      fun w _ hf => absurd (hi'.symm.trans hf) (by simp)⟩
  rw [if_neg hi, if_neg hb]
  have hi' : I.ignoring = false := by
    rw [← h.ignoring]
    exact Bool.eq_false_iff.mpr hi
  cases hcur : I.cur with
  | none =>
    have hat := h.holds
    rw [hcur] at hat
    simp only [hat.workReceiving_none]
    exact ⟨.invalid, s, I.done, I, rfl, .idle hi' hcur, h, fun _ => List.suffix_refl _, by simp⟩
  | some w =>
    have hat := h.holds
    rw [hcur] at hat
    have hw : w.state = .receiving := h.receiving w hcur
    obtain ⟨l, x, -, hwork, hx, -⟩ := hat.last
    obtain ⟨r, s₁, done, hr, hd, he, hroom⟩ := hat.attachFollow hw hb
    simp only [hat.workReceiving_some hw hwork hx, hr]
    rw [h.poolSize] at hroom
    by_cases hfit : w.bytes.length + b.length ≤ P
    · rw [if_pos hfit] at hroom
      obtain ⟨y, rfl, hsame, hy, hwork₁, hat₁⟩ := hroom
      have hlisted : ∀ w' ∈ some w, I.ignoring = false → w'.bytes.length + b.length ≤ P →
          some y.addr = s.workSectInfo ∧
          s₁.listed = done ++ [{ w' with bytes := w'.bytes ++ b }] := by
        intro w' hw' _ _
        obtain rfl := Option.some.inj hw'
        exact ⟨hsame.symm, hat₁.rep.view⟩
      simp only [hy, hat₁.isReceiveAll hy hwork₁]
      by_cases hl : w.hdr.totalLen ≤ (w.bytes ++ b).length
      · obtain ⟨r, t, done', e, calls, hr, hf, hat₂, he₂, hdet⟩ :=
          hat₁.finishReceived H hy hwork₁ hl
        have hcalls : s₁.calls = I.calls := (congrArg Env.calls he).trans h.calls
        simp only [hl, decide_true, if_true]
        refine ⟨r, t, done, _, hr, .finished hi' hcur hd hl (hcalls ▸ hf) hfit,
          h.of_env (e := e) hat₂ (by simp) ?_, fun hH => (hdet hH).trans hd, hlisted⟩
        rw [he₂, he, h.env_eq]
      · obtain ⟨hat₂, -⟩ := hat₁.setState hy hwork₁ .receiving
        simp only [hl, decide_false, Bool.false_eq_true, if_false]
        refine ⟨.receiving, _, done, _, rfl, .more hi' hcur hd (by omega) hfit, ?_, fun _ => hd,
          hlisted⟩
        rw [hw]
        exact h.of_env hat₂ (by simp) (he.trans h.env_eq)
    · rw [if_neg hfit] at hroom
      obtain ⟨rfl, hat₁⟩ := hroom
      refine ⟨.invalid, s₁, done, _, rfl, .full hi' hcur (by omega) hd, ?_, fun _ => hd,
        fun w' hw' _ hle => ?_⟩
      · rw [hcur]
        exact h.of_env hat₁ (fun w' hw' => h.receiving w' (hcur ▸ hw')) (he.trans h.env_eq)
      · obtain rfl := Option.some.inj hw'
        exact absurd hle hfit

/-- `on_section_started` refuses the section that begins with `b`. -/
def Refused (H : Hooks τ) (s : SectionParser τ) (b : List UInt8) : Prop :=
  ∃ a s₁ x, s.startOver.attachSectionList b = (some a, s₁) ∧ s₁.sectAt a = some x ∧
    (s₁.onSectionStarted H x).1 = false

/-- **A turn of the loop.** -/
theorem Sim.checkTurn (h : Sim P s I) (hb : b ≠ []) (once : Bool) :
    ∃ done, (b.length ≤ P → (s.startOver.attachSectionList b).1.isSome = true ∧
        (s.startOver.attachSectionList b).2.listed = done ++ [Sect.first b]) ∧
      ((∃ r r' t I', s.checkTurn H b once = .done r' t ∧ Begins H P b I done none r I' ∧ Sim P t I' ∧
        (b.length ≤ P → r' ≠ .invalid) ∧ (H.Detaches → I'.done <:+ I.done)) ∨
      ∃ n k r once' t I', s.checkTurn H b once = .next n r once' t ∧
        Begins H P b I done (some k) r I' ∧ Sim P t I' ∧ 3 ≤ k ∧
        (n = some k ∧ k ≤ b.length ∨ n = none ∧ b.length ≤ k) ∧ (r = .ignore → Refused H s b) ∧
        (H.Detaches → I'.done <:+ I.done)) := by
  obtain ⟨hat₀, he₀⟩ := h.holds.startOver fun w hw => .inr (h.receiving w hw)
  obtain ⟨r, s₁, done, hr, hd, he₁, hroom⟩ := hat₀.attachFirst hb
  have he : s₁.env = s.env := he₁.trans he₀
  have hlen : 3 ≤ (Sect.first b).hdr.totalLen := Nat.le_add_left 3 _
  refine ⟨done, ?_⟩
  unfold SectionParser.checkTurn
  rw [poolSize_of_env he₀, h.poolSize] at hroom
  simp only [hr]
  by_cases hfit : b.length ≤ P
  · rw [if_pos hfit] at hroom
    obtain ⟨x, rfl, hx, hat₁⟩ := hroom
    refine ⟨fun _ => ⟨rfl, hat₁.rep.view⟩, ?_⟩
    obtain ⟨s₂, hs₂, hat₂, hx₂, hwork₂, he₂⟩ : ∃ s₂, { s₁ with workSectInfo := some x.addr } = s₂ ∧
        At s₂ done (some (Sect.first b)) ∧ s₂.sectAt x.addr = some x ∧
        s₂.workSectInfo = some x.addr ∧ s₂.env = s.env := ⟨_, rfl, hat₁, hx, rfl, he⟩
    obtain ⟨l, hl⟩ := hat₂.last_unique hx₂ hwork₂
    have hhdr : x.sectHdr = (Sect.first b).hdr := congrArg Sect.hdr (hat₂.rep.view_last hl)
    have htotal : x.totalLen = (Sect.first b).hdr.totalLen := congrArg SectionHeader.totalLen hhdr
    obtain ⟨s₃, e, hstart, hat₃, hx₃, hwork₃, he₃⟩ := hat₂.onSectionStarted H hx₂ hwork₂
    cases hH : (H.started s₂.ext x (Sect.first b).bytes).1 with
    | false =>
      right
      rw [hH] at hstart
      simp only [hx, hs₂, hstart, htotal]
      obtain ⟨hat₄, he₄⟩ := hat₃.dropWork hwork₃
      have hsim : Sim P { s₃.dropWork x.addr with isIgnoreSection := true }
          ⟨done, none, true, I.calls⟩ := by
        apply h.of_env (e := e) (hat₄.outside true _ _) (by simp)
        have he₅ : (s₃.dropWork x.addr).env = { s.env with ext := e } := by rw [he₄, he₃, he₂]
        rw [← h.calls]
        exact congrArg (fun v => { v with isIgnoreSection := true }) he₅
      have hrefused : Refused H s b := by
        refine ⟨x.addr, s₁, x, hr, hx, ?_⟩
        have hstart' := congrArg Prod.fst hstart
        rw [← hs₂] at hstart'
        exact hstart'
      refine ⟨_, _, .ignore, once, _, _, rfl, .ignored hH hd hfit hhdr, hsim, hlen, ?_, fun _ => hrefused,
        fun _ => hd⟩
      split_ifs with hle
      · exact .inr ⟨rfl, hle⟩
      · exact .inl ⟨rfl, by omega⟩
    | true =>
      have haccepts : Accepts H b := ⟨_, x, hhdr, hH⟩
      rw [hH] at hstart
      obtain ⟨s₄, hs₄, hat₄, hx₄, hwork₄, he₄⟩ : ∃ s₄, { s₃ with isIgnoreSection := false } = s₄ ∧
          At s₄ done (some (Sect.first b)) ∧ s₄.sectAt x.addr = some x ∧
          s₄.workSectInfo = some x.addr ∧
          s₄.env = { s.env with isIgnoreSection := false, ext := e, calls := I.calls } :=
        ⟨_, rfl, hat₃.outside false _ _, hx₃, hwork₃, by
          rw [← he₂, ← h.calls, ← show s₂.calls = s.calls from congrArg Env.calls he₂]
          exact congrArg (fun v => { v with isIgnoreSection := false }) he₃⟩
      simp only [hx, hs₂, hstart, htotal, hs₄, hat₄.isReceiveAll hx₄ hwork₄]
      by_cases hl : (Sect.first b).hdr.totalLen ≤ (Sect.first b).bytes.length
      · right
        obtain ⟨r, t, done', e', calls, hr, hf, hat₅, he₅, hdet⟩ :=
          hat₄.finishReceived H hx₄ hwork₄ hl
        rw [show s₄.calls = I.calls from congrArg Env.calls he₄] at hf
        have hsim : Sim P t ⟨done', none, false, calls⟩ :=
          h.of_env hat₅ (by simp) (by rw [he₅, he₄])
        simp only [hl, decide_true, if_true, hr]
        have hbegin : Begins H P b I done (some (Sect.first b).hdr.totalLen) r
            ⟨done', none, false, calls⟩ := .finished hd hl hf hfit haccepts
        cases hf with
        | crc32Err | already =>
          exact ⟨_, _, _, _, _, _, rfl, hbegin, hsim, hlen, .inl ⟨rfl, hl⟩, nofun,
            fun hH => (hdet hH).trans hd⟩
        | completed =>
          have hsim' : Sim P { t with workSectInfo := none } ⟨done', none, false, _⟩ :=
            ⟨hsim.holds.clearWork, hsim.receiving, hsim.ignoring, hsim.calls, hsim.poolSize⟩
          exact ⟨_, _, _, _, _, _, rfl, hbegin, hsim', hlen, .inl ⟨rfl, hl⟩, nofun,
            fun hH => (hdet hH).trans hd⟩
      · left
        obtain ⟨hat₅, -⟩ := hat₄.setState hx₄ hwork₄ .receiving
        simp only [hl, decide_false, Bool.false_eq_true, if_false]
        refine ⟨_, _, _, _, rfl, .more hd (Nat.lt_of_not_le hl) hfit haccepts, ?_,
          fun _ => by cases once <;> simp, fun _ => hd⟩
        exact h.of_env hat₅ (by simp) he₄
  · rw [if_neg hfit] at hroom
    obtain ⟨rfl, hat₁⟩ := hroom
    refine ⟨fun hle => absurd hle hfit, .inl ⟨_, .invalid, s₁, _, rfl, .full (by omega) hd, ?_,
      fun hle => absurd hle hfit, fun _ => hd⟩⟩
    exact h.of_env hat₁ (by simp) (he.trans h.env_eq)

theorem Sim.started_of_refused (h : Sim P s I) (hb : b ≠ []) (hr : Refused H s b) :
    ∃ (e : τ) (x : SectionInfo) (b' : List UInt8),
      x.sectHdr = (Sect.first b).hdr ∧ (H.started e x b').1 = false := by
  obtain ⟨a, s₁, x, hattach, hx, hstart⟩ := hr
  obtain ⟨hat₀, -⟩ := h.holds.startOver fun w hw => .inr (h.receiving w hw)
  obtain ⟨r, s₁', done, hattach', -, -, hroom⟩ := hat₀.attachFirst hb
  obtain ⟨rfl, rfl⟩ := Prod.mk.inj (hattach'.symm.trans hattach)
  split_ifs at hroom
  · obtain ⟨y, hy, hsect, hat₁⟩ := hroom
    obtain rfl := Option.some.inj hy
    obtain rfl := Option.some.inj (hx.symm.trans hsect)
    obtain ⟨l, hl⟩ := hat₁.last_unique hx rfl
    exact ⟨_, x, _, congrArg Sect.hdr (hat₁.rep.view_last hl), hstart⟩
  · exact absurd hroom.1 nofun

/-- Turns one after the other. -/
inductive Turns (H : Hooks τ) (P : ℕ) :
    List (SectionParser τ × List UInt8) → Inbox → Inbox → Prop
  | nil {I : Inbox} : Turns H P [] I I
  | cons {t : SectionParser τ} {b : List UInt8} {l : List (SectionParser τ × List UInt8)}
    {done : List Sect} {n : Option ℕ} {r : CheckSection} {I I' I'' : Inbox} (hs : Sim P t I)
    (hne : b ≠ []) (hb : Begins H P b I done n r I') (hr : r = .ignore → Refused H t b)
    (hl : Turns H P l I' I'') : Turns H P ((t, b) :: l) I I''

theorem Turns.inv {l : List (SectionParser τ × List UInt8)} (h : Turns H P l I I')
    (J : Inbox → Prop) (h₀ : J I)
    (hstep : ∀ tb ∈ l, ∀ I done n r I', J I → Begins H P tb.2 I done n r I' → J I') : J I' := by
  induction h with
  | nil => exact h₀
  | cons hs hne hb _ _ ih =>
    exact ih (hstep _ List.mem_cons_self _ _ _ _ _ h₀ hb)
      fun tb htb => hstep tb (List.mem_cons_of_mem _ htb)

theorem Turns.mem {l : List (SectionParser τ × List UInt8)} (h : Turns H P l I I')
    (J : Inbox → Prop) (h₀ : J I)
    (hstep : ∀ tb ∈ l, ∀ I done n r I', J I → Begins H P tb.2 I done n r I' → J I')
    {tb : SectionParser τ × List UInt8} (htb : tb ∈ l) :
    tb.2 ≠ [] ∧ ∃ I, Sim P tb.1 I ∧ J I := by
  induction h with
  | nil => cases htb
  | cons hs hne hb _ _ ih =>
    rcases List.mem_cons.mp htb with rfl | htb
    · exact ⟨hne, _, hs, h₀⟩
    · exact ih (hstep _ List.mem_cons_self _ _ _ _ _ h₀ hb)
        (fun tb htb => hstep tb (List.mem_cons_of_mem _ htb)) htb

theorem Turns.last {l : List (SectionParser τ × List UInt8)} {tb : SectionParser τ × List UInt8}
    (h : Turns H P (l ++ [tb]) I I') :
    ∃ I₀ done n r, Sim P tb.1 I₀ ∧ Begins H P tb.2 I₀ done n r I' := by
  generalize hl : l ++ [tb] = l' at h
  induction h generalizing l with
  | nil => simp at hl
  | cons hs hne hb _ hrest ih =>
    cases l with
    | nil =>
      obtain ⟨rfl, rfl⟩ := List.cons.inj hl
      cases hrest
      exact ⟨_, _, _, _, hs, hb⟩
    | cons x l => exact ih (List.cons.inj hl).2

theorem checkLoop_zero {payload : List UInt8} {n p : ℕ} {r : CheckSection} {once : Bool} :
    checkLoop H payload (n + 1) p 0 r once s = some (if once then .completed else r, s) := if_pos rfl

theorem loopTurns_zero {payload : List UInt8} {n p : ℕ} {once : Bool} :
    loopTurns H payload (n + 1) p 0 once s = [] := if_pos rfl

/-- **The loop.** Each turn takes at least three bytes, so it ends; `size` is what is left of the
payload behind `p`, and sections begin where the headers in front of them say. -/
theorem Sim.checkLoop {payload : List UInt8} (hlen : payload.length < 2 ^ 64) {n p m : ℕ}
    (r : CheckSection) (once : Bool) (h : Sim P s I) (hp : p ≤ payload.length)
    (hn : payload.length - p < n) (hm : (payload.drop p).length ≤ m) :
    ∃ r' t I', SectionParser.checkLoop H payload n p (payload.length - p) r once s = some (r', t) ∧
      Walk H P (payload.drop p) I I' ∧ Sim P t I' ∧
      Turns H P (loopTurns H payload n p (payload.length - p) once s) I I' ∧
      (∀ tb ∈ loopTurns H payload n p (payload.length - p) once s,
        tb.2 ∈ starts m (payload.drop p)) ∧
      (payload.length - p ≤ P → (loopTurns H payload n p (payload.length - p) once s).map Prod.snd =
        starts m (payload.drop p)) := by
  induction n generalizing p m r once s I with
  | zero => omega
  | succ n ih =>
    by_cases hend : payload.length - p = 0
    · rw [hend, checkLoop_zero, loopTurns_zero, List.drop_eq_nil_of_le (by omega), starts_nil]
      exact ⟨_, s, I, rfl, .nil, h, .nil, by simp, fun _ => rfl⟩
    have hlt : p < payload.length := by omega
    have hdrop := List.drop_eq_getElem_cons hlt
    rw [SectionParser.checkLoop, loopTurns, if_neg hend, if_neg hend, List.getElem?_eq_getElem hlt]
    by_cases hff : payload[p] = 0xff
    · rw [hdrop, hff]
      simp only [if_true]
      exact ⟨_, s, I, rfl, .stuffing, h, .nil, by simp, fun _ => (starts_cons_stuffing _ _).symm⟩
    have hslice : slice payload p (p + (payload.length - p)) = payload.drop p := by
      rw [slice, List.take_of_length_le (by omega)]
    have hne : payload.drop p ≠ [] := by
      rw [hdrop]
      exact List.cons_ne_nil _ _
    simp only [if_neg hff, if_neg (show ¬ payload.length < p + (payload.length - p) by omega), hslice]
    obtain ⟨m', hstarts, hm'⟩ := starts_cons hff (hdrop ▸ hm)
    rw [← hdrop] at hstarts hm'
    rw [hstarts]
    obtain ⟨done, -, ⟨r₀, r', t, I', ht, hb, hsim, -⟩ |
      ⟨k', k, r', once', t, I', ht, hb, hsim, hk, hk', hrefused, -⟩⟩ := h.checkTurn (H := H) hne once
    · rw [ht]
      have hr₀ : r₀ ≠ .ignore := by cases hb <;> simp
      have hturns : Turns H P [(s, payload.drop p)] I I' :=
        .cons h hne hb (fun hr => absurd hr hr₀) .nil
      refine ⟨r', t, I', rfl, ?_, hsim, hturns, by simp, fun hfit => ?_⟩
      · rw [hdrop] at hb ⊢
        exact .last hff hb
      · cases hb with
        | full hP => exact absurd (by rwa [List.length_drop]) (Nat.not_le_of_lt hP)
        | more _ hl => rw [List.drop_eq_nil_of_le (Nat.le_of_lt hl), starts_nil]; rfl
    have hkeq : k = (Sect.first (payload.drop p)).hdr.totalLen := by cases hb <;> rfl
    rw [ht]
    rw [List.length_drop] at hk'
    rw [← hkeq] at hm' ⊢
    rcases hk' with ⟨rfl, hle⟩ | ⟨rfl, hle⟩
    · have hsize : sizeSub (payload.length - p) k = payload.length - (p + k) := by
        rw [sizeSub]
        omega
      rw [List.drop_drop] at hm' ⊢
      obtain ⟨r'', t', I'', hr, hw, hsim', hturns, hmem, hall⟩ :=
        ih r' once' hsim (p := p + k) (m := m') (by omega) (by omega) hm'
      simp only [hsize, hr]
      refine ⟨r'', t', I'', rfl, ?_, hsim', .cons h hne hb hrefused hturns, ?_, fun hfit => ?_⟩
      · rw [← List.drop_drop] at hw
        rw [hdrop] at hb hw ⊢
        exact .turn hff hb hw
      · rintro tb (- | htb)
        · exact List.mem_cons_self
        · exact List.mem_cons_of_mem _ (hmem tb ‹_›)
      · rw [List.map_cons, hall (by omega)]
    · obtain ⟨n, rfl⟩ : ∃ m, n = m + 1 := ⟨n - 1, by omega⟩
      simp only [checkLoop_zero, loopTurns_zero]
      have hnil : (payload.drop p).drop k = [] :=
        List.drop_eq_nil_of_le (by rw [List.length_drop]; omega)
      have hturns : Turns H P [(s, payload.drop p)] I I' := .cons h hne hb hrefused .nil
      refine ⟨_, t, I', rfl, ?_, hsim, hturns, by simp, fun _ => by rw [hnil, starts_nil]; rfl⟩
      rw [hdrop] at hb hnil ⊢
      exact .turn hff hb (hnil ▸ .nil)

theorem Sim.startLoop {n : UInt8} {l : List UInt8} (h : Sim P s I) (hn : n.toNat < l.length)
    (hlen : (n :: l).length < 2 ^ 64) : ∃ r t I',
      SectionParser.checkLoop H (n :: l) ((n :: l).length + 1) (1 + n.toNat) (l.length - n.toNat)
        .completed false s = some (r, t) ∧ Walk H P (l.drop n.toNat) I I' ∧ Sim P t I' ∧
      Turns H P (loopTurns H (n :: l) ((n :: l).length + 1) (1 + n.toNat) (l.length - n.toNat)
        false s) I I' ∧
      (∀ tb ∈ loopTurns H (n :: l) ((n :: l).length + 1) (1 + n.toNat) (l.length - n.toNat) false s,
        tb.2 ∈ starts l.length (l.drop n.toNat)) ∧
      (l.length - n.toNat ≤ P → (loopTurns H (n :: l) ((n :: l).length + 1) (1 + n.toNat)
        (l.length - n.toNat) false s).map Prod.snd = starts l.length (l.drop n.toNat)) := by
  have hl : (n :: l).length = l.length + 1 := List.length_cons
  have hsize : l.length - n.toNat = (n :: l).length - (1 + n.toNat) := by omega
  have hdrop : (n :: l).drop (1 + n.toNat) = l.drop n.toNat := by
    rw [Nat.add_comm, List.drop_succ_cons]
  have hm : ((n :: l).drop (1 + n.toNat)).length ≤ l.length := by
    rw [hdrop, List.length_drop]
    omega
  rw [hsize, ← hdrop]
  exact Sim.checkLoop hlen _ _ h (by omega) (by omega) hm

/-- **`check_section_first`.** First what the tail does, if there is one, then the turns. -/
theorem Sim.checkSectionFirst (h : Sim P s I) (hb : b ≠ []) (hlen : b.length < 2 ^ 64) :
    ∃ r t I', s.checkSectionFirst H b = some (r, t) ∧ First H P b I I' ∧ Sim P t I' ∧
      (∀ tb ∈ packetTurns H s (true, b), tb.2 ∈ packetStarts (true, b)) ∧
      (Turns H P (packetTurns H s (true, b)) I I' ∧ packetTail (true, b) = none ∨
        ∃ tail done r I₁, packetTail (true, b) = some tail ∧ Follow P tail I done r I₁ ∧
          (r = .receiving ∨ r = .invalid → packetTurns H s (true, b) = []) ∧
          Turns H P (packetTurns H s (true, b)) I₁ I') := by
  cases b with
  | nil => exact absurd rfl hb
  | cons n l =>
    unfold SectionParser.checkSectionFirst packetTurns packetStarts packetTail
    by_cases hn : l.length ≤ n.toNat
    · simp only [if_pos hn, if_neg (Nat.not_lt.mpr hn)]
      exact ⟨.invalid, s, I, rfl, .broken hn, h, by simp,
        .inl ⟨.nil, if_neg fun hc => Nat.not_lt.mpr hn hc.1⟩⟩
    have hn' : n.toNat < l.length := Nat.lt_of_not_le hn
    simp only [if_neg hn, hn', if_true, true_and]
    by_cases h0 : n.toNat = 0
    · obtain ⟨r, t, I', hr, hw, hsim, hturns, hmem, -⟩ := h.startLoop (H := H) hn' hlen
      obtain rfl : n = 0 := UInt8.toNat_inj.mp h0
      simp only [h0, if_true]
      exact ⟨r, t, I', hr, .start hw, hsim, hmem, .inl ⟨hturns, by simp⟩⟩
    · have hn0 : n ≠ 0 := fun hz => h0 (congrArg UInt8.toNat hz)
      obtain ⟨r, t, done, I', hr, hf, hsim, -⟩ :=
        h.checkSectionFollow (H := H) (tail_ne_nil hn' hn0)
      simp only [if_neg h0, hr, if_pos hn0]
      obtain ⟨r', t', I'', hr', hw, hsim', hturns, hmem, -⟩ := hsim.startLoop (H := H) hn' hlen
      cases r with
      | receiving =>
        exact ⟨.invalid, t, I', rfl, .lost hn' hn0 hf (.inl rfl), hsim, by simp,
          .inr ⟨_, done, _, I', rfl, hf, fun _ => rfl, .nil⟩⟩
      | invalid =>
        exact ⟨.invalid, t, I', rfl, .lost hn' hn0 hf (.inr rfl), hsim, by simp,
          .inr ⟨_, done, _, I', rfl, hf, fun _ => rfl, .nil⟩⟩
      | completed | completedAlready | canceled | crc32Err | ignore =>
        exact ⟨r', t', I'', hr', .tail hn' hn0 hf (by simp) hw, hsim', hmem,
          .inr ⟨_, done, _, I', rfl, hf, by simp, hturns⟩⟩

/-- There is a turn for each section that begins in the packet, if the tail does not end the
function and the pool is not too small. -/
theorem Sim.map_packetTurns {n : UInt8} {l : List UInt8} (h : Sim P s I) (hn : n.toNat < l.length)
    (hlen : (n :: l).length < 2 ^ 64) (hfit : l.length - n.toNat ≤ P)
    (hr : n ≠ 0 → (s.checkSectionFollow H (l.take n.toNat)).1 ≠ .receiving ∧
      (s.checkSectionFollow H (l.take n.toNat)).1 ≠ .invalid) :
    (packetTurns H s (true, n :: l)).map Prod.snd = packetStarts (true, n :: l) := by
  rw [packetTurns, packetStarts, if_pos hn]
  simp only [if_neg (Nat.not_le_of_lt hn)]
  by_cases h0 : n.toNat = 0
  · rw [if_pos h0]
    obtain ⟨-, -, -, -, -, -, -, -, hmap⟩ := h.startLoop (H := H) hn hlen
    exact hmap hfit
  · have hn0 : n ≠ 0 := fun hz => h0 (congrArg UInt8.toNat hz)
    obtain ⟨r, t, done, I', hf, -, hsim, -⟩ := h.checkSectionFollow (H := H) (tail_ne_nil hn hn0)
    obtain ⟨-, -, -, -, -, -, -, -, hmap⟩ := hsim.startLoop (H := H) hn hlen
    have hr' := hr hn0
    rw [if_neg h0]
    rw [hf] at hr' ⊢
    cases r with
    | receiving => exact absurd rfl hr'.1
    | invalid => exact absurd rfl hr'.2
    | completed | completedAlready | canceled | crc32Err | ignore => exact hmap hfit

/-- **A packet.** `check_section` always returns, and does one of the things that are possible. -/
theorem Sim.checkSection (h : Sim P s I) (u : Bool) (hlen : b.length < 2 ^ 64) :
    ∃ r t I', s.checkSection H u b = some (r, t) ∧ Packet H P (u, b) I I' ∧ Sim P t I' := by
  unfold SectionParser.checkSection
  by_cases hb : b = []
  · subst hb
    exact ⟨.invalid, s, I, rfl, .empty, h⟩
  rw [if_neg hb]
  cases u with
  | true =>
    obtain ⟨r, t, I', hr, hf, hsim, -⟩ := h.checkSectionFirst (H := H) hb hlen
    exact ⟨r, t, I', hr, .first hf, hsim⟩
  | false =>
    obtain ⟨r, t, done, I', hr, hf, hsim, -⟩ := h.checkSectionFollow (H := H) hb
    refine ⟨r, t, I', ?_, .follow hb hf, hsim⟩
    rw [if_neg Bool.false_ne_true, hr]

/-- `check_section`, as a step of the parser; its result is not looked at. -/
def packetStep (H : Hooks τ) (s : SectionParser τ) (packet : Bool × List UInt8) :
    Option (SectionParser τ) :=
  (s.checkSection H packet.1 packet.2).map Prod.snd

theorem Sim.packetStep (h : Sim P s I) {packet : Bool × List UInt8}
    (hlen : packet.2.length < 2 ^ 64) :
    ∃ t I', SectionParser.packetStep H s packet = some t ∧ Packet H P packet I I' ∧ Sim P t I' := by
  obtain ⟨r, t, I', hr, hp, hsim⟩ := h.checkSection (H := H) packet.1 hlen
  exact ⟨t, I', by rw [SectionParser.packetStep, hr]; rfl, hp, hsim⟩

/-- The parts of a packet: what `check_section_follow` is given, and the turns of the loop. -/
inductive Parts (H : Hooks τ) (P : ℕ) (s : SectionParser τ) (packet : Bool × List UInt8)
    (I I' : Inbox) : Prop
  | turns (ht : packetTail packet = none) (hl : Turns H P (packetTurns H s packet) I I')
  | tail {tail : List UInt8} {done : List Sect} {r : CheckSection} {I₁ : Inbox}
    (ht : packetTail packet = some tail) (hf : Follow P tail I done r I₁)
    (hlost : r = .receiving ∨ r = .invalid → packetTurns H s packet = [])
    (hl : Turns H P (packetTurns H s packet) I₁ I')

/-- **A packet, part by part.** -/
theorem Sim.packet (h : Sim P s I) (packet : Bool × List UInt8) (hlen : packet.2.length < 2 ^ 64) :
    ∃ t I', SectionParser.packetStep H s packet = some t ∧ Sim P t I' ∧ Parts H P s packet I I' ∧
      ∀ tb ∈ packetTurns H s packet, tb.2 ∈ packetStarts packet := by
  obtain ⟨u, b⟩ := packet
  by_cases hb : b = []
  · subst hb
    refine ⟨s, I, rfl, h, ?_⟩
    cases u
    all_goals exact ⟨.turns rfl .nil, by simp [packetTurns]⟩
  obtain ⟨c, l, rfl⟩ := List.exists_cons_of_ne_nil hb
  cases u with
  | true =>
    obtain ⟨r, t, I', hr, -, hsim, hmem, hparts⟩ := h.checkSectionFirst (H := H) hb hlen
    refine ⟨t, I', ?_, hsim, ?_, hmem⟩
    · simp only [SectionParser.packetStep, SectionParser.checkSection, if_neg hb, if_true, hr]
      rfl
    · rcases hparts with ⟨hturns, ht⟩ | ⟨tail, done, r, I₁, ht, hf, hlost, hturns⟩
      · exact .turns ht hturns
      · exact .tail ht hf hlost hturns
  | false =>
    obtain ⟨r, t, done, I', hr, hf, hsim, -⟩ := h.checkSectionFollow (H := H) hb
    refine ⟨t, I', ?_, hsim, .tail rfl hf (fun _ => rfl) .nil, by simp [packetTurns]⟩
    simp only [SectionParser.packetStep, SectionParser.checkSection, if_neg hb, Bool.false_eq_true,
      if_false, hr]
    rfl

/-- **The rule for packets**: what `check_section_follow` and every section that begins in the
packet keep holds behind it, and before each turn; `Q` is what is known of the bytes of the turns.
-/
theorem Parts.inv {packet : Bool × List UInt8} (h : Parts H P s packet I I') (Q : List UInt8 → Prop)
    (hmem : ∀ tb ∈ packetTurns H s packet, Q tb.2) (J : Inbox → Prop) (h₀ : J I)
    (hfollow : ∀ tail I done r I', packetTail packet = some tail → J I → Follow P tail I done r I' →
      J I')
    (hbegin : ∀ b, Q b → ∀ I done n r I', J I → Begins H P b I done n r I' → J I') :
    J I' ∧ ∀ tb ∈ packetTurns H s packet, tb.2 ≠ [] ∧ ∃ I, Sim P tb.1 I ∧ J I := by
  cases h with
  | turns _ hl =>
    exact ⟨hl.inv J h₀ fun tb htb => hbegin _ (hmem tb htb),
      fun tb htb => hl.mem J h₀ (fun tb htb => hbegin _ (hmem tb htb)) htb⟩
  | tail ht hf _ hl =>
    have h₁ := hfollow _ _ _ _ _ ht h₀ hf
    exact ⟨hl.inv J h₁ fun tb htb => hbegin _ (hmem tb htb),
      fun tb htb => hl.mem J h₁ (fun tb htb => hbegin _ (hmem tb htb)) htb⟩

theorem Parts.sim {packet : Bool × List UInt8} (h : Parts H P s packet I I') :
    ∀ tb ∈ packetTurns H s packet, tb.2 ≠ [] ∧ ∃ I, Sim P tb.1 I := by
  intro tb htb
  obtain ⟨hne, I₁, hsim, -⟩ := (h.inv (fun _ => True) (fun _ _ => trivial) (fun _ => True) trivial
    (fun _ _ _ _ _ _ _ _ => trivial) fun _ _ _ _ _ _ _ _ _ => trivial).2 tb htb
  exact ⟨hne, I₁, hsim⟩

end SectionParser

end AutoRec
