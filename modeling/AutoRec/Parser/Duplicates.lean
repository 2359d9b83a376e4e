import AutoRec.Parser.Runs

/-!
# Sections that are there already

* `known`: the complete sections of the list.
* `Judged`: what is done with a section of which all bytes are there, if its CRC is right.
* `Finishes`: how `check_section_follow` and a turn of `check_section_first` come to do it.
* `baseStep`: a parser, and what it knew before the last section began.
* **`judged_reach`**: a section is passed on if and only if the parser does not know it.
-/

namespace AutoRec

open Arena SectionParser Inbox

variable {τ : Type} {H : Hooks τ} {P : ℕ} {s s₁ t : SectionParser τ} {I I' : Inbox} {b : List UInt8}
  {done done' : List Sect} {cur : Option Sect} {w : Sect} {x : SectionInfo} {a : ℕ}

namespace SectionParser

/-- The complete sections of the list. -/
def known (s : SectionParser τ) : List Sect := s.listed.filter fun w => w.state == .complete

theorem At.known_eq (h : At s done cur) (hcur : ∀ w ∈ cur, w.state ≠ .complete) :
    s.known = done := by
  have hdone : done.filter (fun w => w.state == .complete) = done := by
    rw [List.filter_eq_self]
    intro d hd
    rw [h.complete d hd]
    rfl
  have hnil : cur.toList.filter (fun w => w.state == .complete) = [] := by
    rw [List.filter_eq_nil_iff]
    intro w hw hc
    exact hcur w (Option.mem_toList.mp hw) (by simpa using hc)
  have hlisted : s.listed = done ++ cur.toList := h.rep.view
  rw [known, hlisted, List.filter_append, hdone, hnil, List.append_nil]

theorem Sim.known_eq (h : Sim P s I) : s.known = I.done := by
  apply h.holds.known_eq
  intro w hw hc
  rw [h.receiving w hw] at hc
  cases hc

end SectionParser

/-- `w` is the section of which the last bytes have come in with `s₁`, and `t` is the parser behind
it; `base` are the sections known before its first byte came in, of which some may have gone to make
room. If the CRC of `w` is right, it is passed on if and only if it is not known; if it is, it is
removed, and there is nothing in the list or the pool but the sections known. -/
structure Judged (base : List Sect) (s₁ t : SectionParser τ) (w : Sect) : Prop where
  listed : s₁.listed = s₁.known ++ [w]
  base : s₁.known <:+ base
  passed : crc32 w.whole = 0 → ((∃ c, c.bytes = w.whole ∧ t.calls = s₁.calls ++ [c]) ↔
    w.whole ∉ s₁.known.map Sect.bytes)
  removed : crc32 w.whole = 0 → w.whole ∈ s₁.known.map Sect.bytes →
    t.listed = s₁.known ∧ t.poolInd = bytesIn s₁.known ∧ t.calls = s₁.calls

namespace SectionParser

/-- All bytes of the section `x` are there with `s₁`, and `t` is the parser behind it; `base` are
the sections known before the last bytes came in, of which some may have gone to make room. -/
structure Finishes (base : List Sect) (s₁ t : SectionParser τ) (x : SectionInfo) : Prop where
  listed : s₁.listed = s₁.known ++ [x.view s₁.pool]
  base : s₁.known <:+ base
  finish : ∃ r done', Finish s₁.known s₁.calls { x.view s₁.pool with state := .received } r done'
    t.calls ∧ t.listed = done' ∧ t.poolInd = bytesIn done'

theorem At.finishes {calls : List Call} {r : CheckSection} {base : List Sect}
    (hat : At s₁ done (some w))
    (hf : Finish done s₁.calls { w with state := .received } r done' calls)
    (hx : s₁.sectAt x.addr = some x) (hwork : s₁.workSectInfo = some x.addr) (hw : w.state ≠ .complete) (hbase : done <:+ base)
    (hat' : At t done' none) (hcalls : t.calls = calls) : Finishes base s₁ t x := by
  have hknown : s₁.known = done := hat.known_eq fun w' hw' => Option.some.inj hw' ▸ hw
  obtain ⟨l, hl⟩ := hat.last_unique hx hwork
  have hview : x.view s₁.pool = w := hat.rep.view_last hl
  have hlisted : t.listed = done' ++ (none : Option Sect).toList := hat'.rep.view
  have hind := hat'.rep.ind
  rw [Option.toList_none, List.append_nil] at hlisted hind
  exact ⟨by rw [hknown, hview]; exact hat.rep.view, hknown ▸ hbase, r, done',
    by rw [hknown, hview, hcalls]; exact hf, hlisted, hind⟩

theorem Finishes.judged {base : List Sect} (h : Finishes base s₁ t x) :
    Judged base s₁ t (x.view s₁.pool) := by
  have hne : ∀ c : Call, s₁.calls ≠ s₁.calls ++ [c] := fun c hc => by simp at hc
  obtain ⟨r, done', hf, hlisted, hind⟩ := h.finish
  refine ⟨h.listed, h.base, fun hcrc => ?_, fun hcrc hold => ?_⟩
  · generalize hcalls : t.calls = calls at hf
    cases hf with
    | crc32Err hbad => exact absurd hcrc hbad
    | already _ hold => exact ⟨fun ⟨c, _, hc⟩ => absurd hc (hne c), fun hnew => absurd hold hnew⟩
    | completed _ hnew hc => exact ⟨fun _ => hnew, fun _ => ⟨_, hc.bytes, rfl⟩⟩
  · generalize hcalls : t.calls = calls at hf
    cases hf with
    | crc32Err hbad => exact absurd hcrc hbad
    | already => exact ⟨hlisted, hind, rfl⟩
    | completed _ hnew => exact absurd hold hnew

/-- **`check_section_follow`**, when all bytes of the section in progress are there. -/
theorem Sim.finishes_follow (h : Sim P s I) (hb : b ≠ []) (hi : s.isIgnoreSection = false)
    (hwork : s.workReceiving.isSome = true) (ha : s.attachSectionList b = (some a, s₁))
    (hx : s₁.sectAt a = some x) (hall : x.isReceiveAll = true) :
    Finishes I.done s₁ (s.checkSectionFollow H b).2 x := by
  have hat := h.holds
  cases hcur : I.cur with
  | none =>
    rw [hcur] at hat
    simp [hat.workReceiving_none] at hwork
  | some w =>
    rw [hcur] at hat
    have hw : w.state = .receiving := h.receiving w hcur
    obtain ⟨r, t, done', hr, hsuf, -, hroom⟩ := hat.attachFollow hw hb
    obtain ⟨rfl, rfl⟩ := Prod.mk.inj (ha.symm.trans hr)
    split_ifs at hroom with hfit
    · obtain ⟨y, hy, -, hya, hwork₁, hat₁⟩ := hroom
      obtain rfl := Option.some.inj hy
      obtain rfl := Option.some.inj (hx.symm.trans hya)
      have hl : w.hdr.totalLen ≤ (w.bytes ++ b).length := by
        simpa [hat₁.isReceiveAll hya hwork₁] using hall
      obtain ⟨r, t, done'', e, calls, hr', hf, hat₂, he, -⟩ := hat₁.finishReceived H hya hwork₁ hl
      have hfollow : s.checkSectionFollow H b = (r, t) := by
        obtain ⟨-, z, -, hz, hza, -⟩ := hat.last
        unfold SectionParser.checkSectionFollow
        simp only [hi, Bool.false_eq_true, if_false, if_neg hb, hat.workReceiving_some hw hz hza, ha,
          hx, hall, if_true]
        exact hr'
      rw [hfollow]
      exact hat₁.finishes hf hx hwork₁ (by simp [hw]) hsuf hat₂ (congrArg Env.calls he)
    · cases hroom.1

/-- **A turn of the loop**, when all bytes of the section that begins with it are there. -/
theorem Sim.finishes_turn (h : Sim P s I) (hb : b ≠ [])
    (ha : s.startOver.attachSectionList b = (some a, s₁)) (hx : s₁.sectAt a = some x)
    (hstart : (s₁.onSectionStarted H x).1 = true)
    (hall : x.isReceiveAll = true) (once : Bool) :
    ∃ n r once' t, s.checkTurn H b once = .next n r once' t ∧ r ≠ .ignore ∧
      Finishes I.done s₁ t x := by
  obtain ⟨hat₀, -⟩ := h.holds.startOver fun w hw => .inr (h.receiving w hw)
  obtain ⟨r, t, done', hr, hsuf, -, hroom⟩ := hat₀.attachFirst hb
  obtain ⟨rfl, rfl⟩ := Prod.mk.inj (ha.symm.trans hr)
  split_ifs at hroom with hfit
  · obtain ⟨y, hy, hya, hat₁⟩ := hroom
    obtain rfl := Option.some.inj hy
    obtain rfl := Option.some.inj (hx.symm.trans hya)
    have hwork₁ : ({ s₁ with workSectInfo := some x.addr } : SectionParser τ).workSectInfo =
      some x.addr := rfl
    have hl : (Sect.first b).hdr.totalLen ≤ (Sect.first b).bytes.length := by
      simpa [hat₁.isReceiveAll hx hwork₁] using hall
    obtain ⟨s₂, e, hs₂, hat₂, hx₂, hwork₂, he₂⟩ := hat₁.onSectionStarted H hx hwork₁
    have hs₂' : onSectionStarted { s₁ with workSectInfo := some x.addr } H x = (true, s₂) :=
      hs₂.trans (Prod.ext ((congrArg Prod.fst hs₂).symm.trans hstart) rfl)
    have hat₃ := hat₂.outside false s₂.ext s₂.calls
    obtain ⟨r, t, done'', e', calls, hr', hf, hat₄, he₄, -⟩ :=
      hat₃.finishReceived H hx₂ hwork₂ hl
    have hfinishes : Finishes I.done s₁ t x := by
      rw [show s₂.calls = s₁.calls from congrArg Env.calls he₂] at hf
      obtain ⟨hlisted, hbase, hfinish⟩ :=
        hat₁.finishes hf hx hwork₁ (by simp [Sect.first]) hsuf hat₄ (congrArg Env.calls he₄)
      exact ⟨hlisted, hbase, hfinish⟩
    unfold SectionParser.checkTurn
    simp only [ha, hx, hs₂', hall, if_true]
    rw [hr']
    cases hf with
    | crc32Err | already => exact ⟨_, _, _, _, rfl, by simp, hfinishes⟩
    | completed =>
      exact ⟨_, _, _, _, rfl, by simp, hfinishes.listed, hfinishes.base, hfinishes.finish⟩
  · cases hroom.1

end SectionParser

/-! ## Runs -/

/-- The sections known before the first bytes of the last section that has begun, behind a step. -/
def nextBase (H : Hooks τ) (s : SectionParser τ) (base : List Sect) : ParserOp → List Sect
  | .packet p => ((packetTurns H s p).getLast?.map fun tb => tb.1.known).getD base
  | _ => base

/-- A parser, and the sections it knew before the last section began. -/
def baseStep (H : Hooks τ) (p : SectionParser τ × List Sect) (op : ParserOp) :
    Option (SectionParser τ × List Sect) :=
  (parserStep H p.1 op).map fun t => (t, nextBase H p.1 p.2 op)

/-- Since the section in progress has begun, sections have only gone. -/
def Since (base : List Sect) (I : Inbox) : Prop := I.cur.isSome = true → I.done <:+ base

theorem Since.follow {base : List Sect} {r : CheckSection} (h : Since base I)
    (hf : Follow P b I done r I') : Since base I' := by
  cases hf with
  | ignoring | idle => exact h
  | full _ hcur _ hd | more _ hcur hd =>
    exact fun _ => hd.trans (h (by rw [hcur]; rfl))
  | finished => exact nofun

theorem Since.begins {n : Option ℕ} {r : CheckSection} (hf : Begins H P b I done n r I') :
    Since I.done I' := by
  cases hf with
  | full | ignored | finished => exact nofun
  | more hd => exact fun _ => hd

/-- Only the last turn of a packet counts. -/
theorem Since.turns {base : List Sect} {l : List (SectionParser τ × List UInt8)} (h : Since base I)
    (hl : Turns H P l I I') : Since ((l.getLast?.map fun tb => tb.1.known).getD base) I' := by
  rcases List.eq_nil_or_concat l with rfl | ⟨l, tb, rfl⟩
  · cases hl
    exact h
  · rw [List.concat_eq_append] at hl ⊢
    obtain ⟨I₀, done, n, r, hsim, hb⟩ := hl.last
    rw [List.getLast?_concat, Option.map_some, Option.getD_some, hsim.known_eq]
    exact .begins hb

theorem since_reach {fifoNum : ℤ} {type : SectionType} {ext : τ} {base : List Sect}
    (h : Machine.Reach (baseStep H) (fun _ op => op.Fits) (create P fifoNum type ext, []) (s, base)) :
    ∃ I, Sim P s I ∧ Since base I := by
  apply h.inv fun p => ∃ I, Sim P p.1 I ∧ Since p.2 I
  · exact ⟨_, create_sim P fifoNum type ext, nofun⟩
  · rintro ⟨s, base⟩ op ⟨t, base'⟩ ⟨I, hsim, hI⟩ hop hstep
    obtain ⟨t', I', ht', hsim', hdoes⟩ := hsim.parserStep (H := H) hop
    rw [baseStep, ht', Option.map_some, Option.some.injEq, Prod.mk.injEq] at hstep
    obtain ⟨rfl, rfl⟩ := hstep
    refine ⟨I', hsim', ?_⟩
    cases hdoes with
    | packet hparts =>
      cases hparts with
      | turns _ hl => exact hI.turns hl
      | tail _ hf _ hl => exact (hI.follow hf).turns hl
    | asyncDelete | kept => exact hI
    | deleted => exact nofun

/-- **Sections that are there already are not passed on again.** In every state reached no two
complete sections have the same bytes; and a section is judged when its last bytes come in, with the
tail at the beginning of a packet or in a turn of the loop. -/
theorem judged_reach (H : Hooks τ) (poolSize : ℕ) (fifoNum : ℤ) (type : SectionType) (ext : τ)
    {s : SectionParser τ} {base : List Sect}
    (h : Machine.Reach (baseStep H) (fun _ op => op.Fits) (create poolSize fifoNum type ext, [])
      (s, base)) :
    (s.known.map Sect.bytes).Nodup ∧
    ∀ packet : Bool × List UInt8, packet.2.length < 2 ^ 64 →
      (∀ b ∈ packetTail packet, ∀ a s₁ x, s.isIgnoreSection = false →
        s.workReceiving.isSome = true → s.attachSectionList b = (some a, s₁) →
        s₁.sectAt a = some x → x.isReceiveAll = true →
        Judged base s₁ (s.checkSectionFollow H b).2 (x.view s₁.pool)) ∧
      ∀ tb ∈ packetTurns H s packet, ∀ a s₁ x once,
        tb.1.startOver.attachSectionList tb.2 = (some a, s₁) → s₁.sectAt a = some x →
        (s₁.onSectionStarted H x).1 = true → x.isReceiveAll = true →
        ∃ n r once' t, tb.1.checkTurn H tb.2 once = .next n r once' t ∧ r ≠ .ignore ∧
          Judged tb.1.known s₁ t (x.view s₁.pool) := by
  obtain ⟨I, hsim, hsince⟩ := since_reach h
  refine ⟨hsim.known_eq ▸ hsim.holds.distinct, fun packet hlen => ⟨?_, ?_⟩⟩
  · intro b hb a s₁ x hi hwork ha hx hall
    have hj := (hsim.finishes_follow (H := H) (length_packetTail hb).1 hi hwork ha hx hall).judged
    have hcur : I.cur.isSome = true := by
      cases hcur : I.cur with
      | none =>
        have hat := hsim.holds
        rw [hcur] at hat
        simp [hat.workReceiving_none] at hwork
      | some w => rfl
    exact ⟨hj.listed, hj.base.trans (hsince hcur), hj.passed, hj.removed⟩
  · intro tb htb a s₁ x once ha hx hstart hall
    obtain ⟨_, _, -, -, hparts, -⟩ := hsim.packet (H := H) packet hlen
    obtain ⟨hne, I₁, hsim₁⟩ := hparts.sim tb htb
    rw [hsim₁.known_eq]
    obtain ⟨n, r, once', t, ht, hr, hf⟩ := hsim₁.finishes_turn hne ha hx hstart hall once
    exact ⟨n, r, once', t, ht, hr, hf.judged⟩

/-- A section, and then the same section once more, in two packets. -/
theorem judged_reach_twice : ∃ s base, ∃ s₁ : SectionParser Unit, ∃ x : SectionInfo,
    Machine.exec (baseStep Hooks.base) (create 256 0 .psisi (), [])
      [.packet (true, 0 :: [112, 0, 5, 170, 66, 114, 70, 209]), .packet (true, [0, 112, 0, 5, 170])] =
        some (s, base) ∧ base.length = 1 ∧
    Judged base s₁ (s.checkSectionFollow Hooks.base [66, 114, 70, 209]).2 (x.view s₁.pool) := by
  have hrun : Machine.execOk (baseStep Hooks.base) (fun _ op => op.Fits) (create 256 0 .psisi (), [])
        [.packet (true, 0 :: [112, 0, 5, 170, 66, 114, 70, 209]),
          .packet (true, [0, 112, 0, 5, 170])] = true ∧
      (Machine.exec (baseStep Hooks.base) (create 256 0 .psisi (), [])
        [.packet (true, 0 :: [112, 0, 5, 170, 66, 114, 70, 209]),
          .packet (true, [0, 112, 0, 5, 170])]).map (fun p =>
            let r := p.1.attachSectionList [66, 114, 70, 209]
            (p.2.length, p.1.isIgnoreSection, p.1.workReceiving.isSome, r.1,
              (r.2.sectAt 1).map SectionInfo.isReceiveAll)) =
          some (1, false, true, some 1, some true) := by
    decide
  obtain ⟨⟨s, base⟩, hs, hreach, hrest⟩ := Machine.exists_of_execOk hrun
  simp only [Prod.mk.injEq] at hrest
  obtain ⟨hbase, hi, hwork, ha, hx⟩ := hrest
  obtain ⟨x, hx, hall⟩ := Option.map_eq_some_iff.mp hx
  refine ⟨s, base, (s.attachSectionList [66, 114, 70, 209]).2, x, hs, hbase, ?_⟩
  exact ((judged_reach Hooks.base 256 0 .psisi () hreach).2 (false, [66, 114, 70, 209])
    (by decide)).1 _ rfl 1 _ x hi hwork (Prod.ext ha rfl) hx hall

end AutoRec
