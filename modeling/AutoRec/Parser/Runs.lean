import AutoRec.Parser.Simulation

/-!
# Runs of a section parser

* `ParserOp`, `parserStep`: what happens to a section parser from outside.
* `Does`, `sim_reach`: what a step does to the sections that a parser holds, and what holds of them
  in every state reached.
* **`poolOk_reach`**: how they lie in the pool.
* `MakesRoom`: `attach_section_list` finds room, and only complete sections go for it.
* **`makesRoom_reach`**: it always does, if the pool has room for each section and a packet besides.
-/

namespace AutoRec

open Arena SectionParser Inbox

variable {τ : Type} {H : Hooks τ} {P : ℕ} {s t : SectionParser τ} {I I' : Inbox} {b : List UInt8}

/-- What happens to a section parser from outside. -/
inductive ParserOp
  /-- `check_section`, for a packet: its `payload_unit_start_indicator` and its payload. -/
  | packet (p : Bool × List UInt8)
  | asyncDelete
  | checkAsyncDelete

/-- The payload has a length that a `size_t` can hold. -/
def ParserOp.Fits : ParserOp → Prop
  | .packet p => p.2.length < 2 ^ 64
  | _ => True

instance : DecidablePred ParserOp.Fits
  | .packet _ => inferInstanceAs (Decidable (_ < _))
  | .asyncDelete | .checkAsyncDelete => inferInstanceAs (Decidable True)

/-- `ParserOp`, as a step. -/
def parserStep (H : Hooks τ) (s : SectionParser τ) : ParserOp → Option (SectionParser τ)
  | .packet p => packetStep H s p
  | .asyncDelete => some s.asyncDelete
  | .checkAsyncDelete => some s.checkAsyncDelete

namespace SectionParser

theorem Sim.asyncDelete (h : Sim P s I) : Sim P s.asyncDelete I where
  holds :=
    ⟨⟨h.holds.rep.addr_lt, h.holds.rep.nodup, h.holds.rep.bottom, h.holds.rep.work,
      h.holds.rep.laid, h.holds.rep.pool, h.holds.rep.ind_le, h.holds.rep.view⟩,
      h.holds.complete, h.holds.distinct, h.holds.fifo, h.holds.atWork⟩
  receiving := h.receiving
  ignoring := h.ignoring
  calls := h.calls
  poolSize := h.poolSize

theorem Sim.detachAll (h : Sim P s I) :
    Sim P s.detachAllSectionList { I with done := [], cur := none } := by
  refine ⟨⟨⟨by simp [detachAllSectionList], List.nodup_nil, rfl, by simp [detachAllSectionList],
    rfl, List.length_replicate, Nat.zero_le _, rfl⟩, by simp, List.nodup_nil, fun hf => ?_,
    by simp⟩, by simp, h.ignoring, h.calls, h.poolSize⟩
  have hpos := (h.holds.fifo hf).1
  exact ⟨hpos, Int.le_of_lt hpos⟩

theorem Sim.checkAsyncDelete (h : Sim P s I) :
    Sim P s.checkAsyncDelete I ∨ Sim P s.checkAsyncDelete { I with done := [], cur := none } := by
  unfold SectionParser.checkAsyncDelete
  by_cases hd : s.isAsyncDelete = true
  · right
    rw [if_pos hd]
    have hsim := h.detachAll
    exact ⟨⟨⟨hsim.holds.rep.addr_lt, hsim.holds.rep.nodup, hsim.holds.rep.bottom,
      hsim.holds.rep.work, hsim.holds.rep.laid, hsim.holds.rep.pool, hsim.holds.rep.ind_le,
      hsim.holds.rep.view⟩, hsim.holds.complete, hsim.holds.distinct, hsim.holds.fifo,
      hsim.holds.atWork⟩, hsim.receiving, hsim.ignoring, hsim.calls, hsim.poolSize⟩
  · left
    rw [if_neg hd]
    exact h

end SectionParser

/-- What a step does to the sections that the parser holds. -/
inductive Does (H : Hooks τ) (P : ℕ) (s : SectionParser τ) (I : Inbox) : ParserOp → Inbox → Prop
  | packet {p : Bool × List UInt8} {I' : Inbox} (hparts : Parts H P s p I I')
    (hmem : ∀ tb ∈ packetTurns H s p, tb.2 ∈ packetStarts p) : Does H P s I (.packet p) I'
  | asyncDelete : Does H P s I .asyncDelete I
  | kept : Does H P s I .checkAsyncDelete I
  | deleted : Does H P s I .checkAsyncDelete { I with done := [], cur := none }

/-- **A step.** -/
theorem SectionParser.Sim.parserStep (h : Sim P s I) {op : ParserOp} (hop : op.Fits) :
    ∃ t I', AutoRec.parserStep H s op = some t ∧ Sim P t I' ∧ Does H P s I op I' := by
  cases op with
  | packet p =>
    obtain ⟨t, I', ht, hsim, hparts, hmem⟩ := h.packet (H := H) p hop
    exact ⟨t, I', ht, hsim, .packet hparts hmem⟩
  | asyncDelete => exact ⟨_, I, rfl, h.asyncDelete, .asyncDelete⟩
  | checkAsyncDelete =>
    rcases h.checkAsyncDelete with hsim | hsim
    · exact ⟨_, I, rfl, hsim, .kept⟩
    · exact ⟨_, _, rfl, hsim, .deleted⟩

/-- **The rule for runs**: what holds at the beginning and is kept by each step holds in every state
reached, of the sections that the parser holds. -/
theorem sim_reach {ok : SectionParser τ → ParserOp → Prop} {fifoNum : ℤ} {type : SectionType} {ext : τ}
    (h : Machine.Reach (parserStep H) ok (create P fifoNum type ext) s)
    (hok : ∀ s op, ok s op → op.Fits) (J : Inbox → Prop) (h₀ : J ⟨[], none, false, []⟩)
    (hstep : ∀ s op I I', ok s op → Sim P s I → J I → Does H P s I op I' → J I') :
    ∃ I, Sim P s I ∧ J I := by
  apply h.inv fun s => ∃ I, Sim P s I ∧ J I
  · exact ⟨_, create_sim P fifoNum type ext, h₀⟩
  · rintro s op t ⟨I, hsim, hJ⟩ ho ht
    obtain ⟨t', I', ht', hsim', hdoes⟩ := hsim.parserStep (H := H) (hok s op ho)
    obtain rfl := Option.some.inj (ht.symm.trans ht')
    exact ⟨I', hsim', hstep s op I I' ho hsim hJ hdoes⟩

/-! ## The pool -/

/-- How the sections lie in the pool, and which of them are complete. -/
structure PoolOk (s : SectionParser τ) : Prop where
  /-- One behind the other, in the order of the list, from `pool_` to `pool_ + pool_ind_`. -/
  laid : Laid SectionInfo.raw SectionInfo.tail 0 s.sectList s.poolInd
  ind : s.poolInd = (s.sectList.map fun x => x.tail - x.raw).sum
  ind_le : s.poolInd ≤ s.poolSize
  bottom : s.sectListBottom = s.sectList.getLast?.map SectionInfo.addr
  front : ∀ x ∈ s.sectList.dropLast, x.state = .complete
  last : ∀ x ∈ s.sectList.getLast?,
    x.state = .complete ∨ x.state = .receiving ∧ s.workSectInfo = some x.addr
  fifo : s.listIsFifo = true →
    (s.sectList.countP fun x => x.state == .complete : ℤ) ≤ s.fifoNum

/-- The listed sections that the parser holds as complete ones are complete. -/
theorem complete_front {l : List SectionInfo} (h : Sim P s I)
    (hl : l.map (SectionInfo.view s.pool) = I.done) : ∀ x ∈ l, x.state = .complete := fun x hx =>
  h.holds.complete (x.view s.pool) (hl ▸ List.mem_map_of_mem hx)

theorem SectionParser.Sim.poolOk (h : Sim P s I) : PoolOk s := by
  have hrep := h.holds.rep
  have hind : s.poolInd = (s.sectList.map fun x => x.tail - x.raw).sum := by
    have := hrep.laid.sum
    omega
  cases hcur : I.cur with
  | none =>
    have hview := hrep.view
    rw [hcur, Option.toList_none, List.append_nil] at hview
    have hall := complete_front h hview
    refine ⟨hrep.laid, hind, hrep.ind_le, hrep.bottom, fun x hx => hall x (List.dropLast_subset _ hx),
      fun x hx => .inl (hall x (List.mem_of_getLast? hx)), fun hf => ?_⟩
    have hle := (h.holds.fifo hf).2
    rw [← hview, List.length_map] at hle
    have := List.countP_le_length (p := fun x : SectionInfo => x.state == .complete) (l := s.sectList)
    omega
  | some w =>
    have hat := h.holds
    rw [hcur] at hat
    obtain ⟨l, x, hl, hwork, -, hview⟩ := hat.last
    have hall := complete_front h (hat.rep.view_front hl)
    have hstate : x.state = .receiving := by
      rw [show x.state = w.state from congrArg Sect.state hview]
      exact h.receiving w hcur
    refine ⟨hrep.laid, hind, hrep.ind_le, hrep.bottom, fun y hy => ?_, fun y hy => ?_, fun hf => ?_⟩
    · rw [hl, List.dropLast_concat] at hy
      exact hall y hy
    · rw [hl, List.getLast?_concat, Option.mem_some_iff] at hy
      subst hy
      exact .inr ⟨hstate, hwork⟩
    · have hle := (h.holds.fifo hf).2
      have hlen := congrArg List.length (hat.rep.view_front hl)
      rw [List.length_map] at hlen
      rw [hl, List.countP_append, List.countP_singleton, hstate]
      have := List.countP_le_length (p := fun x : SectionInfo => x.state == .complete) (l := l)
      simp only [show (SectionState.receiving == SectionState.complete) = false from rfl]
      simp only [Bool.false_eq_true, if_false, Nat.add_zero]
      omega

/-- **The sections lie in the pool one behind the other**, in every state reached. -/
theorem poolOk_reach (H : Hooks τ) (poolSize : ℕ) (fifoNum : ℤ) (type : SectionType) (ext : τ)
    {s : SectionParser τ}
    (h : Machine.Reach (parserStep H) (fun _ op => op.Fits) (create poolSize fifoNum type ext) s) :
    PoolOk s := by
  obtain ⟨I, hsim, -⟩ := sim_reach h (fun _ _ ho => ho) (fun _ => True) trivial
    fun _ _ _ _ _ _ _ _ => trivial
  exact hsim.poolOk

/-- Two sections, a third one that begins in the same packet, and the deletion of all of them. -/
theorem poolOk_reach_short : ∃ s,
    Machine.exec (parserStep Hooks.base) (create 256 0 .psisi ())
      [.packet (true, 0 :: [112, 0, 5, 170, 66, 114, 70, 209, 112, 0, 5]), .packet (false, [1]),
        .asyncDelete] = some s ∧ s.poolInd = 12 ∧ PoolOk s := by
  have hrun : Machine.execOk (parserStep Hooks.base) (fun _ op => op.Fits) (create 256 0 .psisi ())
        [.packet (true, 0 :: [112, 0, 5, 170, 66, 114, 70, 209, 112, 0, 5]), .packet (false, [1]),
          .asyncDelete] = true ∧
      (Machine.exec (parserStep Hooks.base) (create 256 0 .psisi ())
        [.packet (true, 0 :: [112, 0, 5, 170, 66, 114, 70, 209, 112, 0, 5]), .packet (false, [1]),
          .asyncDelete]).map SectionParser.poolInd = some 12 := by
    decide
  obtain ⟨s, hs, hreach, hi⟩ := Machine.exists_of_execOk hrun
  exact ⟨s, hs, hi, poolOk_reach Hooks.base 256 0 .psisi () hreach⟩

/-! ## Room -/

/-- The payload is not longer than that of a TS packet, and the pool has room for each section that
begins in it and a packet besides. -/
def RoomFor (H : Hooks τ) (P : ℕ) (s : SectionParser τ) : ParserOp → Prop
  | .packet p => p.2.length ≤ 184 ∧
    ∀ tb ∈ packetTurns H s p, (Sect.first tb.2).hdr.totalLen + 183 ≤ P
  | _ => True

instance (H : Hooks τ) (P : ℕ) (s : SectionParser τ) : DecidablePred (RoomFor H P s)
  | .packet _ => inferInstanceAs (Decidable (_ ∧ _))
  | .asyncDelete | .checkAsyncDelete => inferInstanceAs (Decidable True)

/-- The loop of `attach_section_list` ends with room for `b`, and only complete sections have gone:
the one being received is still there, at its place. -/
structure MakesRoom (s : SectionParser τ) (b : List UInt8) : Prop where
  ends : (makeRoom b.length s.sectList.length s).1 = true
  room : (makeRoom b.length s.sectList.length s).2.poolInd + b.length ≤ s.poolSize
  kept : ∃ gone, s.listed = gone ++ (makeRoom b.length s.sectList.length s).2.listed ∧
    ∀ d ∈ gone, d.state = .complete
  work : (makeRoom b.length s.sectList.length s).2.workReceiving = s.workReceiving
  attached : (s.attachSectionList b).1.isSome = true

theorem SectionParser.At.makesRoom {done : List Sect} {cur : Option Sect} (h : At s done cur)
    (hcur : ∀ w ∈ cur, w.state = .receiving) (hb : b ≠ [])
    (hroom : bytesIn cur.toList + b.length ≤ s.poolSize) : MakesRoom s b := by
  have hlen : done.length ≤ s.sectList.length := by
    have := congrArg List.length h.rep.view
    rw [List.length_map, List.length_append] at this
    omega
  have hopen : ∀ w ∈ cur, w.state ≠ .complete := fun w hw hc => by
    rw [hcur w hw] at hc
    cases hc
  obtain ⟨r, t, done', hr, ⟨gone, rfl⟩, hat, -, hwork, hres⟩ := h.makeRoom hopen b.length hlen
  rw [if_pos hroom] at hres
  obtain ⟨rfl, hle⟩ := hres
  have hsame : t.workReceiving = s.workReceiving := by
    cases cur with
    | none => rw [hat.workReceiving_none, h.workReceiving_none]
    | some w =>
      obtain ⟨-, x, -, hx, hat_x, -⟩ := h.last
      obtain ⟨-, y, -, hy, hat_y, -⟩ := hat.last
      have hw : w.state = .receiving := hcur w rfl
      rw [hat.workReceiving_some hw hy hat_y, h.workReceiving_some hw hx hat_x, ← hx, ← hy]
      exact hwork rfl
  refine ⟨by rw [hr], by rw [hr]; exact hle, ⟨gone, ?_, fun d hd => ?_⟩, by rw [hr]; exact hsame, ?_⟩
  · have hs : s.listed = gone ++ done' ++ cur.toList := h.rep.view
    have ht : t.listed = done' ++ cur.toList := hat.rep.view
    rw [hr, hs, ht, List.append_assoc]
  · exact h.complete d (List.mem_append_left _ hd)
  · simp only [attachSectionList, if_neg hb, hr]
    cases t.workReceiving <;> rfl

/-- The section in progress has not all of its bytes yet, and the pool has room for all of them and
a packet. -/
def Roomy (P : ℕ) (I : Inbox) : Prop :=
  ∀ w ∈ I.cur, w.hdr.totalLen + 183 ≤ P ∧ w.bytes.length < w.hdr.totalLen

theorem Roomy.follow {done : List Sect} {r : CheckSection} (h : Roomy P I)
    (hf : Follow P b I done r I') : Roomy P I' := by
  cases hf with
  | ignoring | idle => exact h
  | full _ hcur => exact fun w hw => h w (hcur ▸ hw)
  | more _ hcur _ hl =>
    rintro w' hw'
    obtain rfl := Option.some.inj hw'
    exact ⟨(h _ hcur).1, hl⟩
  | finished => exact fun w hw => absurd hw (by simp)

theorem Roomy.begins {done : List Sect} {n : Option ℕ} {r : CheckSection}
    (hb : (Sect.first b).hdr.totalLen + 183 ≤ P) (hf : Begins H P b I done n r I') : Roomy P I' := by
  cases hf with
  | full | ignored | finished => exact fun w hw => absurd hw (by simp)
  | more _ hl =>
    rintro w hw
    obtain rfl := Option.some.inj hw
    exact ⟨hb, hl⟩

/-- **There is always room**: if the pool has room for each section that begins and a packet
besides, `attach_section_list` never fails, in no state reached, and neither the tail of a section
nor a turn of the loop is given up for lack of room. -/
theorem makesRoom_reach (H : Hooks τ) (poolSize : ℕ) (fifoNum : ℤ) (type : SectionType) (ext : τ)
    {s : SectionParser τ} {packet : Bool × List UInt8}
    (h : Machine.Reach (parserStep H) (RoomFor H poolSize) (create poolSize fifoNum type ext) s)
    (hp : RoomFor H poolSize s (.packet packet)) :
    (∀ b ∈ packetTail packet, s.isIgnoreSection = false → s.workReceiving.isSome = true →
      MakesRoom s b ∧ (s.checkSectionFollow H b).1 ≠ .invalid) ∧
    ∀ tb ∈ packetTurns H s packet, MakesRoom tb.1.startOver tb.2 ∧
      ∀ once t, tb.1.checkTurn H tb.2 once ≠ .done .invalid t := by
  obtain ⟨I, hsim, hJ⟩ : ∃ I, Sim poolSize s I ∧ Roomy poolSize I := by
    apply sim_reach h (fun s op ho => ?_) (Roomy poolSize) (by simp [Roomy])
    · rintro s op I I' ho - hJ hdoes
      cases hdoes with
      | packet hparts =>
        exact (hparts.inv _ ho.2 (Roomy poolSize) hJ (fun _ _ _ _ _ _ hJ hf => hJ.follow hf)
          fun b hb _ _ _ _ _ _ hf => .begins hb hf).1
      | asyncDelete | kept => exact hJ
      | deleted => simp [Roomy]
    · cases op with
      | packet p => exact Nat.lt_of_le_of_lt ho.1 (by decide)
      | asyncDelete | checkAsyncDelete => trivial
  obtain ⟨hlen, hroom⟩ := hp
  obtain ⟨_, _, -, -, hparts, hmem⟩ := hsim.packet (H := H) packet (by omega)
  refine ⟨fun b hb hi hw => ?_, fun tb htb => ?_⟩
  · obtain ⟨hne, hle⟩ := length_packetTail hb
    cases hcur : I.cur with
    | none =>
      have hat := hsim.holds
      rw [hcur] at hat
      simp [hat.workReceiving_none] at hw
    | some w =>
      obtain ⟨htotal, hbytes⟩ := hJ w hcur
      have hfit : w.bytes.length + b.length ≤ poolSize := by omega
      refine ⟨hsim.holds.makesRoom hsim.receiving hne ?_, ?_⟩
      · rw [hcur, hsim.poolSize]
        exact hfit
      · obtain ⟨r, t, done, I', hr, hf, -, -⟩ := hsim.checkSectionFollow (H := H) hne
        rw [hr]
        have hi' : I.ignoring = false := hsim.ignoring.symm.trans hi
        obtain ⟨-, ⟨-, rfl, -⟩ | ⟨-, done', calls, hfin, -⟩⟩ := hf.inv_some hi' hcur hfit
        · exact nofun
        · cases hfin <;> exact nofun
  · obtain ⟨hne, I₁, hsim₁⟩ := hparts.sim tb htb
    have hb := length_of_mem_packetStarts (hmem tb htb)
    have htotal := hroom tb htb
    have hfit : tb.2.length ≤ poolSize := by omega
    obtain ⟨hat, he⟩ := hsim₁.holds.startOver fun w hw => .inr (hsim₁.receiving w hw)
    refine ⟨hat.makesRoom (by simp) hne ?_, fun once t ht => ?_⟩
    · rw [poolSize_of_env he, hsim₁.poolSize, Option.toList_none, show bytesIn [] = 0 from rfl,
        Nat.zero_add]
      exact hfit
    · obtain ⟨_, -, ⟨_, r', _, _, hr, -, -, hne', -⟩ | ⟨_, _, _, _, _, _, hr, -⟩⟩ :=
        hsim₁.checkTurn (H := H) hne once
      · rw [hr] at ht
        exact hne' hfit (Turn.done.inj ht).1
      · rw [hr] at ht
        cases ht

/-- A section in progress, and its next bytes. -/
theorem makesRoom_reach_short : ∃ s,
    Machine.exec (parserStep Hooks.base) (create 191 0 .psisi ())
      [.packet (true, 0 :: [112, 0, 5, 170, 66, 114, 70, 209]), .packet (true, [0, 112, 0, 5])] =
        some s ∧ s.workReceiving.isSome = true ∧ s.isIgnoreSection = false ∧ MakesRoom s [170, 66] := by
  have hrun : Machine.execOk (parserStep Hooks.base) (RoomFor Hooks.base 191)
        (create 191 0 .psisi ())
        [.packet (true, 0 :: [112, 0, 5, 170, 66, 114, 70, 209]),
          .packet (true, [0, 112, 0, 5])] = true ∧
      (Machine.exec (parserStep Hooks.base) (create 191 0 .psisi ())
        [.packet (true, 0 :: [112, 0, 5, 170, 66, 114, 70, 209]),
          .packet (true, [0, 112, 0, 5])]).map
            (fun s => (s.workReceiving.isSome, s.isIgnoreSection,
              decide (RoomFor Hooks.base 191 s (.packet (false, [170, 66]))))) =
          some (true, false, true) := by
    decide
  obtain ⟨s, hs, hreach, hrest⟩ := Machine.exists_of_execOk hrun
  simp only [Prod.mk.injEq, decide_eq_true_eq] at hrest
  obtain ⟨hwork, hi, hp⟩ := hrest
  exact ⟨s, hs, hwork, hi, ((makesRoom_reach Hooks.base 191 0 .psisi () hreach hp).1 _ rfl hi hwork).1⟩

end AutoRec
