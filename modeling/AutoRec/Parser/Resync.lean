import AutoRec.Parser.Duplicates

/-!
# After a packet has been lost

A section begins in a packet, behind the tail of another one of which the parser may know nothing.

* `TailOk`, `TailEnds`: the tail does not keep the parser from the sections behind it.
* `Grows`: what a packet adds to what is known is passed on.
* **`passedOn_iff`**: a new section that is whole in a packet is passed on if and only if the tail
  in front of it lets the parser come to it; `not_passedOn_fresh`: a parser without a section in
  progress.
-/

namespace AutoRec

open Arena SectionParser Inbox

variable {τ : Type} {H : Hooks τ} {P : ℕ} {s t : SectionParser τ} {I I₀ I₁ I' : Inbox}
  {b z : List UInt8} {done done' : List Sect} {w : Sect} {r : CheckSection} {n : Option ℕ}

/-! ## The tail -/

/-- With the bytes `b` the section in progress has all its bytes, which the pool has room for, and
they are `z`. -/
structure TailEnds (s : SectionParser τ) (b z : List UInt8) (x : SectionInfo) : Prop where
  ne_nil : b ≠ []
  notIgnoring : s.isIgnoreSection = false
  work : s.workReceiving = some x.addr
  sect : s.sectAt x.addr = some x
  all : x.totalLen ≤ (x.bytes s.pool ++ b).length
  room : (x.bytes s.pool ++ b).length ≤ s.poolSize
  bytes : (x.bytes s.pool ++ b).take x.totalLen = z

/-- The bytes `b` in front of the first section of a packet: there are none, the section they belong
to is being ignored, or they end the section in progress. -/
inductive TailOk (s : SectionParser τ) (b : List UInt8) : Prop
  | none (hb : b = [])
  | ignored (hi : s.isIgnoreSection = true)
  | ends {z : List UInt8} {x : SectionInfo} (h : TailEnds s b z x)

/-! ## What a packet adds -/

/-- Sections have been passed on, and what is known was known before or is one of them. -/
def Grows (I₀ I : Inbox) : Prop := ∃ new, I.calls = I₀.calls ++ new ∧
  ∀ d ∈ I.done, d.bytes ∈ I₀.done.map Sect.bytes ∨ d.bytes ∈ new.map Call.bytes

theorem Grows.refl (I : Inbox) : Grows I I :=
  ⟨[], (List.append_nil _).symm, fun _ hd => .inl (List.mem_map_of_mem hd)⟩

theorem Grows.trans (h : Grows I₀ I₁) (h' : Grows I₁ I) : Grows I₀ I := by
  obtain ⟨new, hcalls, hdone⟩ := h
  obtain ⟨new', hcalls', hdone'⟩ := h'
  refine ⟨new ++ new', by rw [hcalls', hcalls, List.append_assoc], fun d hd => ?_⟩
  rw [List.map_append, List.mem_append]
  rcases hdone' d hd with hold | hnew
  · obtain ⟨d', hd', hb⟩ := List.mem_map.mp hold
    rcases hdone d' hd' with hold | hnew
    · exact .inl (hb ▸ hold)
    · exact .inr (.inl (hb ▸ hnew))
  · exact .inr (.inr hnew)

theorem Grows.evicted {cur : Option Sect} {i : Bool} (hd : done <:+ I.done) :
    Grows I ⟨done, cur, i, I.calls⟩ :=
  ⟨[], (List.append_nil _).symm, fun _ hmem => .inl (List.mem_map_of_mem (hd.subset hmem))⟩

theorem Grows.finish {calls : List Call} {cur : Option Sect} {i : Bool} (hd : done <:+ I.done)
    (hf : Finish done I.calls w r done' calls) : Grows I ⟨done', cur, i, calls⟩ := by
  cases hf with
  | crc32Err | already => exact .evicted hd
  | completed _ _ hc hsub =>
    refine ⟨_, rfl, fun d hmem => ?_⟩
    rcases List.mem_append.mp (hsub.subset hmem) with hmem | hmem
    · exact .inl (List.mem_map_of_mem (hd.subset hmem))
    · rw [List.mem_singleton.mp hmem, List.map_cons, hc.bytes]
      exact .inr List.mem_cons_self

theorem Grows.follow (hf : Follow P b I done r I') : Grows I I' := by
  cases hf with
  | ignoring | idle => exact .refl I
  | full _ _ _ hd | more _ _ hd => exact .evicted hd
  | finished _ _ hd _ hfin => exact .finish hd hfin

theorem Grows.begins (hf : Begins H P b I done n r I') : Grows I I' := by
  cases hf with
  | full _ hd | ignored _ hd | more hd => exact .evicted hd
  | finished hd _ hfin => exact .finish hd hfin

theorem Grows.turns {l : List (SectionParser τ × List UInt8)} (hl : Turns H P l I I') :
    Grows I I' :=
  hl.inv (Grows I) (.refl I) fun _ _ _ _ _ _ _ h hb => h.trans (.begins hb)

/-- A section with the bytes `z` has been passed on. -/
def PassedOn (calls calls' : List Call) (z : List UInt8) : Prop :=
  ∃ new, calls' = calls ++ new ∧ z ∈ new.map Call.bytes

theorem not_passedOn (calls : List Call) (z : List UInt8) : ¬ PassedOn calls calls z := by
  rintro ⟨new, hnew, hz⟩
  have hnil : new = [] := by simpa using hnew
  simp [hnil] at hz

theorem Grows.passedOn (h : Grows I₀ I) (hz : z ∈ I.done.map Sect.bytes)
    (hnew : z ∉ I₀.done.map Sect.bytes) : PassedOn I₀.calls I.calls z := by
  obtain ⟨new, hcalls, hdone⟩ := h
  obtain ⟨d, hd, rfl⟩ := List.mem_map.mp hz
  exact ⟨new, hcalls, (hdone d hd).resolve_left hnew⟩

theorem Grows.calls (h : Grows I₀ I) : I₀.calls <+: I.calls := by
  obtain ⟨new, hcalls, -⟩ := h
  exact ⟨new, hcalls.symm⟩

section PassedOn

variable {c₀ c₁ c₂ : List Call}

theorem PassedOn.behind (h : PassedOn c₁ c₂ z) (hc : c₀ <+: c₁) : PassedOn c₀ c₂ z := by
  obtain ⟨new, rfl, hz⟩ := h
  obtain ⟨new', rfl⟩ := hc
  refine ⟨new' ++ new, List.append_assoc _ _ _, ?_⟩
  rw [List.map_append]
  exact List.mem_append_right _ hz

theorem PassedOn.before (h : PassedOn c₀ c₁ z) (hc : c₁ <+: c₂) : PassedOn c₀ c₂ z := by
  obtain ⟨new, rfl, hz⟩ := h
  obtain ⟨new', rfl⟩ := hc
  refine ⟨new ++ new', List.append_assoc _ _ _, ?_⟩
  rw [List.map_append]
  exact List.mem_append_left _ hz

end PassedOn

theorem SectionParser.Finish.passedOn {calls : List Call} (hf : Finish done I.calls w r done' calls)
    (hd : done <:+ I.done) (hcrc : crc32 w.whole = 0) :
    w.whole ∈ I.done.map Sect.bytes ∨ PassedOn I.calls calls w.whole := by
  cases hf with
  | crc32Err hbad => exact absurd hcrc hbad
  | already _ hold => exact .inl ((hd.sublist.map Sect.bytes).subset hold)
  | completed _ _ hc => exact .inr ⟨_, rfl, by simp [hc.bytes]⟩

/-- **Each turn** passes its section on, or it is known by then. -/
theorem SectionParser.Turns.passedOn {l : List (SectionParser τ × List UInt8)}
    {tb : SectionParser τ × List UInt8} (hl : Turns H P l I I') (htb : tb ∈ l)
    (hP : tb.2.length ≤ P) (hwhole : (Sect.first tb.2).hdr.totalLen ≤ tb.2.length)
    (hcrc : crc32 (Sect.first tb.2).whole = 0)
    (hnew : (Sect.first tb.2).whole ∉ I₀.done.map Sect.bytes) (hg : Grows I₀ I)
    (hacc : ¬ Refused H tb.1 tb.2) : PassedOn I₀.calls I'.calls (Sect.first tb.2).whole := by
  induction hl with
  | nil => cases htb
  | @cons t b l done n r I I₁ I' hs hne hb hr hl ih =>
    rcases List.mem_cons.mp htb with rfl | htb
    · cases hb with
      | full hlt => exact absurd hP (Nat.not_le_of_lt hlt)
      | more _ hlt => exact absurd hwhole (Nat.not_le_of_lt hlt)
      | ignored => exact absurd (hr rfl) hacc
      | finished hd _ hfin =>
        rcases hfin.passedOn hd hcrc with hold | hpassed
        · have hprev := hg.passedOn hold hnew
          exact hprev.before (Grows.trans (.finish hd hfin) (.turns hl)).calls
        · exact (hpassed.behind hg.calls).before (Grows.turns hl).calls
    · exact ih htb (hg.trans (.begins hb))

theorem walk_full (hw : Walk H P b I I') (hP : P < b.length) : I'.calls = I.calls := by
  cases hw with
  | nil | stuffing => rfl
  | last _ hb => cases hb <;> rfl
  | turn _ hb =>
    cases hb with
    | ignored _ _ hle | finished _ _ _ hle => exact absurd hP (Nat.not_lt_of_le hle)

/-! ## The tail, for the sections that the parser holds -/

theorem SectionParser.Sim.workSect (h : Sim P s I) (hcur : I.cur = some w) : ∃ x : SectionInfo,
    s.workReceiving = some x.addr ∧ s.sectAt x.addr = some x ∧ x.view s.pool = w := by
  have hat := h.holds
  rw [hcur] at hat
  obtain ⟨-, x, -, hwork, hx, hview⟩ := hat.last
  exact ⟨x, hat.workReceiving_some (h.receiving w hcur) hwork hx, hx, hview⟩

theorem TailEnds.cur_eq {x : SectionInfo} (he : TailEnds s b z x) (h : Sim P s I) :
    I.cur = some (x.view s.pool) := by
  cases hcur : I.cur with
  | none =>
    have hat := h.holds
    rw [hcur] at hat
    exact absurd (hat.workReceiving_none.symm.trans he.work) nofun
  | some w =>
    obtain ⟨y, hwork, hy, rfl⟩ := h.workSect hcur
    have hyx : y.addr = x.addr := Option.some.inj (hwork.symm.trans he.work)
    rw [hyx] at hy
    rw [Option.some.inj (hy.symm.trans he.sect)]

theorem TailEnds.follow {x : SectionInfo} (he : TailEnds s b z x) (h : Sim P s I)
    (hf : Follow P b I done r I') : done <:+ I.done ∧ ∃ w done' calls, w.whole = z ∧
      Finish done I.calls w r done' calls ∧
      I' = { I with done := done', cur := none, calls := calls } := by
  have hi : I.ignoring = false := h.ignoring.symm.trans he.notIgnoring
  have hroom := he.room
  have hall := he.all
  rw [List.length_append, h.poolSize] at hroom
  obtain ⟨hd, ⟨hl, -⟩ | ⟨-, done', calls, hfin, hI⟩⟩ := hf.inv_some hi (he.cur_eq h) hroom
  · exact absurd hl (Nat.not_lt_of_le hall)
  · exact ⟨hd, { x.view s.pool with bytes := x.bytes s.pool ++ b, state := .received }, done', calls,
      he.bytes, hfin, hI⟩

/-- The sections behind such a tail are looked at. -/
theorem TailOk.not_lost (hok : TailOk s b) (hb : b ≠ []) (h : Sim P s I)
    (hf : Follow P b I done r I') : r ≠ .receiving ∧ r ≠ .invalid := by
  cases hok with
  | none hnil => exact absurd hnil hb
  | ignored hi =>
    have hi' : I.ignoring = true := h.ignoring.symm.trans hi
    cases hf with
    | ignoring => exact ⟨nofun, nofun⟩
    | idle hf | full hf | more hf | finished hf => exact absurd (hi'.symm.trans hf) nofun
  | ends he =>
    obtain ⟨-, w, done', calls, -, hfin, -⟩ := he.follow h hf
    cases hfin <;> exact ⟨nofun, nofun⟩

theorem SectionParser.Sim.tailEnds (h : Sim P s I) (hb : b ≠ []) (hi : I.ignoring = false)
    (hcur : I.cur = some w) (hl : w.hdr.totalLen ≤ (w.bytes ++ b).length)
    (hP : w.bytes.length + b.length ≤ P) : ∃ x : SectionInfo, x.view s.pool = w ∧
      TailEnds s b ((w.bytes ++ b).take w.hdr.totalLen) x := by
  obtain ⟨x, hwork, hx, rfl⟩ := h.workSect hcur
  refine ⟨x, rfl, hb, h.ignoring.trans hi, hwork, hx, hl, ?_, rfl⟩
  rw [List.length_append, h.poolSize]
  exact hP

/-- **What a tail passes on** is the section that it ends. -/
theorem SectionParser.Sim.calls_of_follow (h : Sim P s I) (hb : b ≠ []) (hf : Follow P b I done r I') :
    I'.calls = I.calls ∨ ∃ z x c, TailEnds s b z x ∧ crc32 z = 0 ∧ I'.calls = I.calls ++ [c] ∧
      c.Of { x.view s.pool with bytes := z } := by
  cases hf with
  | ignoring | idle | full | more => exact .inl rfl
  | @finished w _ _ _ _ hi hcur _ hl hfin hP =>
    cases hfin with
    | crc32Err | already => exact .inl rfl
    | @completed hcrc _ c hc =>
      obtain ⟨x, hview, he⟩ := h.tailEnds hb hi hcur hl hP
      have hwhole : ((w.bytes ++ b).take w.hdr.totalLen).take w.hdr.totalLen =
          (w.bytes ++ b).take w.hdr.totalLen := by
        rw [List.take_take, Nat.min_self]
      refine .inr ⟨_, x, c, he, hcrc, rfl, ?_⟩
      rw [hview]
      exact ⟨hc.bytes.trans hwhole.symm, hc.hdr, hc.data, hc.len.trans (congrArg List.length hwhole.symm)⟩

/-- No other tail lets the parser come to them; and only a section that it ends is passed on. -/
theorem tailOk_of_follow (h : Sim P s I) (hb : b ≠ []) (hf : Follow P b I done r I')
    (hr : r ≠ .receiving ∧ r ≠ .invalid) :
    TailOk s b ∧ (PassedOn I.calls I'.calls z → ∃ x, TailEnds s b z x) := by
  constructor
  · cases hf with
    | ignoring hi => exact .ignored (h.ignoring.trans hi)
    | idle | full => exact absurd rfl hr.2
    | more => exact absurd rfl hr.1
    | finished hi hcur _ hl _ hP =>
      obtain ⟨x, -, he⟩ := h.tailEnds hb hi hcur hl hP
      exact .ends he
  · rintro ⟨new, hnew, hz⟩
    rcases h.calls_of_follow hb hf with hsame | ⟨z', x, c, he, -, hcalls, hc⟩
    · have hnil : new = [] := by simpa [hsame] using hnew
      simp [hnil] at hz
    · obtain rfl := List.append_cancel_left (hcalls.symm.trans hnew)
      rw [List.map_singleton, List.mem_singleton, hc.bytes] at hz
      have hwhole : z'.take x.totalLen = z' := by
        rw [← he.bytes, List.take_take, Nat.min_self]
      obtain rfl : z = z' := hz.trans hwhole
      exact ⟨x, he⟩

/-! ## A packet -/

section Packet

variable {n : UInt8} {l : List UInt8}

/-- If a section is passed on, the tail has let the parser come to it, or it is that of the tail. -/
theorem tailOk_of_passedOn (h : Sim P s I) (hn : n.toNat < l.length) (hf : First H P (n :: l) I I')
    (hz : PassedOn I.calls I'.calls z) :
    (TailOk s (l.take n.toNat) ∧ l.length - n.toNat ≤ P) ∨ ∃ x, TailEnds s (l.take n.toNat) z x := by
  cases hf with
  | broken hge => exact absurd hn (Nat.not_lt_of_le hge)
  | start hw =>
    left
    refine ⟨.none rfl, ?_⟩
    by_contra hP
    rw [walk_full hw (Nat.lt_of_not_le hP)] at hz
    exact not_passedOn _ _ hz
  | lost _ h0 hf hr =>
    exfalso
    cases hf with
    | ignoring | idle | full | more => exact not_passedOn _ _ hz
    | finished _ _ _ _ hfin => cases hfin <;> simp at hr
  | tail _ h0 hf hr hw =>
    obtain ⟨hok, hends⟩ := tailOk_of_follow h (tail_ne_nil hn h0) hf hr (z := z)
    by_cases hP : l.length - n.toNat ≤ P
    · exact .inl ⟨hok, hP⟩
    · right
      rw [walk_full hw (by rw [List.length_drop]; omega)] at hz
      exact hends hz

theorem TailEnds.passedOn {x : SectionInfo} (he : TailEnds s b z x) (h : Sim P s I)
    (hf : Follow P b I done r I') (hcrc : crc32 z = 0) (hnew : z ∉ I.done.map Sect.bytes) :
    PassedOn I.calls I'.calls z := by
  obtain ⟨hd, w, done', calls, rfl, hfin, rfl⟩ := he.follow h hf
  exact (hfin.passedOn hd hcrc).resolve_left hnew

end Packet

theorem SectionParser.Sim.passedOn_packet {n : UInt8} {l : List UInt8} (hsim : Sim P s I)
    (hlen : (n :: l).length < 2 ^ 64) (hb : b ∈ packetStarts (true, n :: l))
    (hwhole : (Sect.first b).hdr.totalLen ≤ b.length) (hcrc : crc32 (Sect.first b).whole = 0)
    (hnew : (Sect.first b).whole ∉ s.known.map Sect.bytes)
    (hacc : ∀ tb ∈ packetTurns H s (true, n :: l), tb.2 = b → ¬ Refused H tb.1 b) :
    ∃ t, SectionParser.packetStep H s (true, n :: l) = some t ∧
      (PassedOn s.calls t.calls (Sect.first b).whole ↔
        (TailOk s (l.take n.toNat) ∧ l.length - n.toNat ≤ s.poolSize) ∨
          ∃ x, TailEnds s (l.take n.toNat) (Sect.first b).whole x) := by
  have hn : n.toNat < l.length := by
    by_contra hn
    rw [packetStarts, if_neg hn] at hb
    simp at hb
  obtain ⟨t, I', ht, hp, hsim'⟩ := hsim.packetStep (H := H)
    (show ((true, n :: l) : Bool × List UInt8).2.length < 2 ^ 64 from hlen)
  refine ⟨t, ht, fun hz => ?_, fun hok => ?_⟩
  · rw [hsim.calls, hsim'.calls] at hz
    rw [hsim.poolSize]
    cases hp with
    | first hf => exact tailOk_of_passedOn hsim hn hf hz
  · obtain ⟨t', I'', ht', hsim'', hparts, -⟩ := hsim.packet (H := H) (true, n :: l) hlen
    obtain rfl := Option.some.inj (ht.symm.trans ht')
    rw [hsim.known_eq] at hnew
    rw [hsim.calls, hsim''.calls]
    rw [hsim.poolSize] at hok
    rcases hok with ⟨hok, hP⟩ | ⟨x, he⟩
    · have hmap := hsim.map_packetTurns (H := H) hn hlen hP fun h0 => by
        obtain ⟨r, t, done, I₁, hr, hf, -, -⟩ := hsim.checkSectionFollow (H := H) (tail_ne_nil hn h0)
        rw [hr]
        exact hok.not_lost (tail_ne_nil hn h0) hsim hf
      have hbP : b.length ≤ P := by
        rw [packetStarts, if_pos hn] at hb
        have := length_of_mem_starts hb
        rw [List.length_drop] at this
        omega
      rw [← hmap] at hb
      obtain ⟨tb, htb, rfl⟩ := List.mem_map.mp hb
      cases hparts with
      | turns _ hl =>
        exact hl.passedOn htb hbP hwhole hcrc hnew (.refl I) (hacc tb htb rfl)
      | tail _ hf _ hl =>
        exact hl.passedOn htb hbP hwhole hcrc hnew (.follow hf) (hacc tb htb rfl)
    · have hn0 : n ≠ 0 := by
        rintro rfl
        exact he.ne_nil rfl
      have hsome : packetTail (true, n :: l) = some (l.take n.toNat) := if_pos ⟨hn, hn0⟩
      cases hparts with
      | turns hnil _ => cases hsome.symm.trans hnil
      | tail hsome' hf _ hl =>
        obtain rfl := Option.some.inj (hsome.symm.trans hsome')
        exact (he.passedOn hsim hf hcrc hnew).before (Grows.turns hl).calls

/-- **After a packet has been lost.** A section that begins in a packet and is whole there, with the
right CRC, not known and not refused, is passed on if and only if the tail in front of it is there
to be ignored or ends the section in progress, and the pool has room for what is behind the tail; or
the tail ends a section with the same bytes. -/
theorem passedOn_iff (H : Hooks τ) (poolSize : ℕ) (fifoNum : ℤ) (type : SectionType) (ext : τ)
    {s : SectionParser τ} {n : UInt8} {l b : List UInt8}
    (h : Machine.Reach (parserStep H) (fun _ op => op.Fits) (create poolSize fifoNum type ext) s)
    (hlen : (n :: l).length < 2 ^ 64) (hb : b ∈ packetStarts (true, n :: l))
    (hwhole : (Sect.first b).hdr.totalLen ≤ b.length) (hcrc : crc32 (Sect.first b).whole = 0)
    (hnew : (Sect.first b).whole ∉ s.known.map Sect.bytes)
    (hacc : ∀ tb ∈ packetTurns H s (true, n :: l), tb.2 = b → ¬ Refused H tb.1 b) :
    ∃ t, packetStep H s (true, n :: l) = some t ∧
      (PassedOn s.calls t.calls (Sect.first b).whole ↔
        (TailOk s (l.take n.toNat) ∧ l.length - n.toNat ≤ s.poolSize) ∨
          ∃ x, TailEnds s (l.take n.toNat) (Sect.first b).whole x) := by
  obtain ⟨I, hsim, -⟩ := sim_reach h (fun _ _ ho => ho) (fun _ => True) trivial
    fun _ _ _ _ _ _ _ _ => trivial
  exact hsim.passedOn_packet hlen hb hwhole hcrc hnew hacc

theorem not_refused_base {s : SectionParser Unit} : ¬ Refused Hooks.base s b := by
  rintro ⟨a, s₁, x, -, -, hstart⟩
  cases hstart

/-- Without a tail, a section comes through. -/
theorem passedOn_iff_noTail : ∃ t,
    packetStep Hooks.base (create 256 0 .psisi ()) (true, 0 :: [112, 0, 5, 170, 66, 114, 70, 209]) =
      some t ∧ PassedOn [] t.calls [112, 0, 5, 170, 66, 114, 70, 209] := by
  obtain ⟨t, ht, hiff⟩ := passedOn_iff Hooks.base 256 0 .psisi () (n := 0)
    (l := [112, 0, 5, 170, 66, 114, 70, 209]) (b := [112, 0, 5, 170, 66, 114, 70, 209]) .refl
    (by decide) (by decide) (by decide) (by decide) (by decide)
    fun _ _ _ => not_refused_base
  exact ⟨t, ht, hiff.mpr (.inl ⟨.none rfl, by decide⟩)⟩

/-- A parser without a section in progress, and a packet in which a whole section begins behind the
last byte of another one: the section is lost. -/
theorem not_passedOn_fresh : ∃ s t b,
    Machine.Reach (parserStep Hooks.base) (fun _ op => op.Fits) (create 256 0 .psisi ()) s ∧
    b ∈ packetStarts (true, 1 :: [0, 112, 0, 5, 170, 66, 114, 70, 209]) ∧
    (Sect.first b).hdr.totalLen ≤ b.length ∧ crc32 (Sect.first b).whole = 0 ∧
    (Sect.first b).whole ∉ s.known.map Sect.bytes ∧
    (∀ s' : SectionParser Unit, ¬ Refused Hooks.base s' b) ∧
    packetStep Hooks.base s (true, 1 :: [0, 112, 0, 5, 170, 66, 114, 70, 209]) = some t ∧
    ¬ PassedOn s.calls t.calls (Sect.first b).whole := by
  have hrun : (packetStep Hooks.base (create 256 0 .psisi ())
      (true, 1 :: [0, 112, 0, 5, 170, 66, 114, 70, 209])).map (fun t => t.calls.length) =
        some 0 := by
    decide
  obtain ⟨t, ht, hcalls⟩ := Option.map_eq_some_iff.mp hrun
  refine ⟨_, t, [112, 0, 5, 170, 66, 114, 70, 209], .refl, by decide, by decide,
    by decide, by decide, fun _ => not_refused_base, ht, ?_⟩
  rw [List.eq_nil_of_length_eq_zero hcalls]
  exact not_passedOn _ _

end AutoRec
