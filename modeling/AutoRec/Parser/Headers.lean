import AutoRec.Parser.Simulation

/-!
# The header of a section

The header is read once, from the bytes of the packet in which the section begins.

* `Call.Faithful`: header and data pointer fit the bytes of the section that is completed.
* `headerWhole`: the packet has the whole header of the section that begins in it, or not even the
  part with the length.
* **`faithful_of_headerWhole`**: if this is so wherever a section begins, every section completed is
  as it should be; `not_faithful_cut`: a long header cut in two.
-/

namespace AutoRec

open Arena

/-! ## What is read of a header -/

theorem parseHeader_short {b : List UInt8} (h : b.length < 3) :
    parseHeader .zero b .psisi = (.zero, none) := by
  match b, h with
  | [], _ | [_], _ | [_, _], _ => rfl

/-- The header is read from the bytes in front of the data part, whatever comes behind. -/
theorem parseHeader_prefix {b : List UInt8} {h : SectionHeader} {k : ℕ}
    (hb : parseHeader .zero b .psisi = (h, some k)) :
    ∃ p rest, b = p ++ rest ∧ p.length = k ∧
      ∀ rest', parseHeader .zero (p ++ rest') .psisi = (h, some k) := by
  match b with
  | [] | [_] | [_, _] => simp [parseHeader] at hb
  | b₀ :: b₁ :: b₂ :: rest =>
    by_cases hs : (SectionHeader.zero.readShort b₀ b₁ b₂).sectionSyntaxIndicator = 0
    · have hshort : ∀ r, parseHeader .zero (b₀ :: b₁ :: b₂ :: r) .psisi =
          (SectionHeader.zero.readShort b₀ b₁ b₂, some sectionShortHeaderLen) := fun r => by
        simp [parseHeader, hs]
      rw [hshort] at hb
      obtain ⟨rfl, hk⟩ := Prod.mk.inj hb
      obtain rfl := Option.some.inj hk
      exact ⟨[b₀, b₁, b₂], rest, rfl, rfl, hshort⟩
    · match rest with
      | [] | [_] | [_, _] | [_, _, _] | [_, _, _, _] => simp [parseHeader, hs] at hb
      | b₃ :: b₄ :: b₅ :: b₆ :: b₇ :: rest =>
        have hlong : ∀ r, parseHeader .zero (b₀ :: b₁ :: b₂ :: b₃ :: b₄ :: b₅ :: b₆ :: b₇ :: r)
            .psisi = ((SectionHeader.zero.readShort b₀ b₁ b₂).readLong b₃ b₄ b₅ b₆ b₇,
              some sectionHeaderLen) := fun r => by
          simp [parseHeader, hs]
        rw [hlong] at hb
        obtain ⟨rfl, hk⟩ := Prod.mk.inj hb
        obtain rfl := Option.some.inj hk
        exact ⟨[b₀, b₁, b₂, b₃, b₄, b₅, b₆, b₇], rest, rfl, rfl, hlong⟩

theorem parseHeader_le {b : List UInt8} {h : SectionHeader} {k : ℕ}
    (hb : parseHeader .zero b .psisi = (h, some k)) : k ≤ b.length := by
  obtain ⟨p, rest, rfl, rfl, -⟩ := parseHeader_prefix hb
  rw [List.length_append]
  omega

theorem parseHeader_take {b b' : List UInt8} {h : SectionHeader} {k : ℕ}
    (hb : parseHeader .zero b .psisi = (h, some k)) (ht : b'.take k = b.take k) :
    parseHeader .zero b' .psisi = (h, some k) := by
  obtain ⟨p, rest, rfl, rfl, hp⟩ := parseHeader_prefix hb
  rw [List.take_left] at ht
  rw [← List.take_append_drop p.length b', ht]
  exact hp _

theorem totalLen_parseHeader (b₀ b₁ b₂ : UInt8) (rest : List UInt8) :
    (parseHeader .zero (b₀ :: b₁ :: b₂ :: rest) .psisi).1.totalLen =
      (SectionHeader.zero.readShort b₀ b₁ b₂).totalLen := by
  simp only [parseHeader]
  split_ifs
  · rfl
  · split <;> rfl

namespace Sect

theorem totalLen_first_append {z : List UInt8} (hz : 3 ≤ z.length) (b : List UInt8) :
    (first (z ++ b)).hdr.totalLen = (first z).hdr.totalLen := by
  match z, hz with
  | b₀ :: b₁ :: b₂ :: rest, _ =>
    exact (totalLen_parseHeader b₀ b₁ b₂ (rest ++ b)).trans
      (totalLen_parseHeader b₀ b₁ b₂ rest).symm

theorem hdr_first_short {b : List UInt8} (hb : b.length < 3) : (first b).hdr = .zero :=
  congrArg Prod.fst (parseHeader_short hb)

end Sect

/-! ## Sections that are completed as they should be -/

/-- The header is what the first three or eight bytes of the section say, the data part begins
behind it, the section is as long as it says, and its CRC is right. -/
structure Call.Faithful (c : Call) : Prop where
  header : ∃ k, parseHeader .zero c.bytes .psisi = (c.info.sectHdr, some k) ∧
    c.info.data = .ofPool (c.info.raw + k)
  tail : c.info.tail = c.info.raw + c.info.sectHdr.totalLen
  crc : crc32 c.bytes = 0

/-- `b` has a whole header, of a section that is not shorter than its header; or it has not even the
length. -/
def headerWhole (b : List UInt8) : Bool :=
  match parseHeader .zero b .psisi with
  | (h, some k) => decide (k ≤ h.totalLen)
  | (_, none) => decide (b.length < 3)

/-- The section has begun with a packet in which its header was whole. -/
def Sect.Begun (w : Sect) : Prop :=
  ∃ b, b <+: w.bytes ∧ w.hdr = (Sect.first b).hdr ∧ w.data = (Sect.first b).data ∧
    headerWhole b = true

theorem Sect.Begun.first {b : List UInt8} (hb : headerWhole b = true) (st : SectionState) :
    ({ Sect.first b with state := st } : Sect).Begun :=
  ⟨b, List.prefix_refl _, rfl, rfl, hb⟩

theorem Sect.Begun.more {w : Sect} (h : w.Begun) (b : List UInt8) (st : SectionState) :
    ({ w with bytes := w.bytes ++ b, state := st } : Sect).Begun := by
  obtain ⟨b₀, hpre, hhdr, hdata, hb₀⟩ := h
  exact ⟨b₀, hpre.trans (List.prefix_append _ _), hhdr, hdata, hb₀⟩

theorem headerWhole_cases {b : List UInt8} (hb : headerWhole b = true) :
    (∃ k, parseHeader .zero b .psisi = ((Sect.first b).hdr, some k) ∧
      k ≤ (Sect.first b).hdr.totalLen) ∨ b.length < 3 := by
  unfold headerWhole at hb
  split at hb
  · rename_i h k hp
    left
    have hh : h = (Sect.first b).hdr := (congrArg Prod.fst hp).symm
    exact ⟨k, hh ▸ hp, hh ▸ of_decide_eq_true hb⟩
  · right
    exact of_decide_eq_true hb

/-- **A section that has begun with a whole header** is completed as it should be. -/
theorem Sect.Begun.faithful {w : Sect} {c : Call} (h : w.Begun)
    (hw : w.hdr.totalLen ≤ w.bytes.length) (hcrc : crc32 w.whole = 0) (hc : c.Of w) :
    c.Faithful := by
  obtain ⟨b, hpre, hhdr, hdata, hb⟩ := h
  have hlen : w.whole.length = w.hdr.totalLen := by
    rw [Sect.whole, List.length_take]
    omega
  rcases headerWhole_cases hb with ⟨k, hk, hle⟩ | hshort
  · have hkb := parseHeader_le hk
    have hprefix : w.whole.take k = b.take k := by
      rw [← hhdr] at hle
      rw [Sect.whole, List.take_take, Nat.min_eq_left hle]
      obtain ⟨b', hb'⟩ := hpre
      rw [← hb', List.take_append_of_le_length hkb]
    have hparse := parseHeader_take hk hprefix
    have hdata' : c.info.data.within c.info.raw = some (k : ℤ) := by
      rw [hc.data, hdata, Sect.first, hk]
      rfl
    refine ⟨⟨k, ?_, ?_⟩, ?_, hc.bytes ▸ hcrc⟩
    · rw [hc.bytes, hc.hdr, hhdr]
      exact hparse
    · cases hptr : c.info.data with
      | ofPool i =>
        rw [hptr, Ptr.within, Option.some.injEq] at hdata'
        congr 1
        omega
      | ofNull i =>
        rw [hptr, Ptr.within] at hdata'
        cases hdata'
    · have hct := hc.len
      rw [hlen] at hct
      have := Sect.totalLen_first_ge b
      rw [← hhdr] at this
      rw [hc.hdr]
      omega
  · rw [hhdr, Sect.hdr_first_short hshort] at hlen
    exact absurd hcrc (crc32_ne_zero (by rw [hlen]; decide))

/-! ## Runs -/

/-- The section in progress has begun with a whole header, and the sections completed so far were as
they should be. -/
structure HeadersOk (I : Inbox) : Prop where
  begun : ∀ w ∈ I.cur, w.Begun
  faithful : ∀ c ∈ I.calls, c.Faithful

section Run

open SectionParser Inbox

variable {τ : Type} {H : Hooks τ} {P : ℕ} {I I' : Inbox} {b : List UInt8} {r : CheckSection}

theorem faithful_finish {done done' : List Sect} {calls calls' : List Call} {w : Sect}
    (h : Finish done calls w r done' calls') (hcalls : ∀ c ∈ calls, c.Faithful) (hw : w.Begun)
    (hlen : w.hdr.totalLen ≤ w.bytes.length) : ∀ c ∈ calls', c.Faithful := by
  cases h with
  | crc32Err | already => exact hcalls
  | completed hcrc _ hc =>
    intro c' hc'
    rw [List.mem_append, List.mem_singleton] at hc'
    rcases hc' with hc' | rfl
    · exact hcalls c' hc'
    · exact hw.faithful hlen hcrc hc

theorem HeadersOk.follow {done : List Sect} (h : HeadersOk I) (hf : Follow P b I done r I') :
    HeadersOk I' := by
  cases hf with
  | ignoring | idle => exact h
  | full _ hcur => exact ⟨fun w hw => h.begun w (hcur ▸ hw), h.faithful⟩
  | @more w _ _ hcur =>
    refine ⟨fun w' hw' => ?_, h.faithful⟩
    obtain rfl := Option.some.inj hw'
    exact (h.begun w hcur).more b _
  | @finished w _ _ _ _ _ hcur _ hl hfin =>
    exact ⟨by simp, faithful_finish hfin h.faithful ((h.begun w hcur).more b _) hl⟩

theorem HeadersOk.begins {done : List Sect} {n : Option ℕ} (h : HeadersOk I)
    (hb : headerWhole b = true) (hf : Begins H P b I done n r I') : HeadersOk I' := by
  cases hf with
  | full | ignored => exact ⟨by simp, h.faithful⟩
  | more =>
    refine ⟨fun w hw => ?_, h.faithful⟩
    obtain rfl := Option.some.inj hw
    exact .first hb _
  | finished _ hl hfin => exact ⟨by simp, faithful_finish hfin h.faithful (.first hb _) hl⟩

/-- **Every section that is completed is as it should be**, as long as the header of every section
that begins in a packet is whole. -/
theorem faithful_of_headerWhole (H : Hooks τ) (poolSize : ℕ) (fifoNum : ℤ) (ext : τ)
    {s : SectionParser τ}
    (h : Machine.Reach (packetStep H) (fun _ packet => packet.2.length < 2 ^ 64 ∧
      ∀ b ∈ packetStarts packet, headerWhole b = true) (create poolSize fifoNum .psisi ext) s) :
    ∀ c ∈ s.calls, c.Faithful := by
  have hinv : ∃ I, Sim poolSize s I ∧ HeadersOk I := by
    apply h.inv (fun s => ∃ I, Sim poolSize s I ∧ HeadersOk I)
    · exact ⟨_, create_sim poolSize fifoNum .psisi ext, by simp, by simp⟩
    · rintro s packet t ⟨I, hsim, hok⟩ ⟨hlen, hstarts⟩ ht
      obtain ⟨t', I', ht', hsim', hparts, hmem⟩ := hsim.packet (H := H) packet hlen
      obtain rfl := Option.some.inj (ht.symm.trans ht')
      refine ⟨I', hsim', (hparts.inv (· ∈ packetStarts packet) hmem HeadersOk hok ?_ ?_).1⟩
      · exact fun _ _ _ _ _ _ hok hf => hok.follow hf
      · exact fun b hb _ _ _ _ _ hok hbegin => hok.begins (hstarts b hb) hbegin
  obtain ⟨I, hsim, hok⟩ := hinv
  rw [hsim.calls]
  exact hok.faithful

/-- The first three bytes of a section are enough for a short header, and a section that begins with
less is not looked at further. -/
theorem faithful_of_headerWhole_short : ∃ s,
    Machine.exec (packetStep Hooks.base) (create 256 0 .psisi ())
      [(true, 0 :: [112, 0, 5, 170]), (false, [66, 114, 70, 209])] = some s ∧
    s.calls.length = 1 ∧ ∀ c ∈ s.calls, c.Faithful := by
  have hrun : Machine.execOk (packetStep Hooks.base) (fun _ packet => packet.2.length < 2 ^ 64 ∧
        ∀ b ∈ packetStarts packet, headerWhole b = true) (create 256 0 .psisi ())
        [(true, 0 :: [112, 0, 5, 170]), (false, [66, 114, 70, 209])] = true ∧
      (Machine.exec (packetStep Hooks.base) (create 256 0 .psisi ())
        [(true, 0 :: [112, 0, 5, 170]), (false, [66, 114, 70, 209])]).map
          (fun s => s.calls.length) = some 1 := by
    decide
  obtain ⟨s, hs, hreach, hl⟩ := Machine.exists_of_execOk hrun
  exact ⟨s, hs, hl, faithful_of_headerWhole Hooks.base 256 0 () hreach⟩

/-- A long header that is cut in two is not read to its end, and the data pointer stays null. -/
theorem not_faithful_cut : ∃ s,
    Machine.Reach (packetStep Hooks.base) (fun _ packet => packet.2.length ≤ 184)
      (create 256 0 .psisi ()) s ∧ ∃ c ∈ s.calls, ¬ c.Faithful := by
  let packets : List (Bool × List UInt8) :=
    [(true, 0 :: [66, 128, 10, 1, 2]), (false, [3, 4, 5, 6, 252, 8, 216, 183])]
  have hrun : Machine.execOk (packetStep Hooks.base) (fun _ packet => packet.2.length ≤ 184)
        (create 256 0 .psisi ()) packets = true ∧
      (Machine.exec (packetStep Hooks.base) (create 256 0 .psisi ()) packets).map
        (fun s => s.calls.map fun c => c.info.data) = some [.ofNull 0] := by
    decide
  obtain ⟨s, -, hreach, hcalls⟩ := Machine.exists_of_execOk hrun
  refine ⟨s, hreach, ?_⟩
  obtain ⟨c, hc, hdata⟩ := List.map_eq_singleton_iff.mp hcalls
  refine ⟨c, by rw [hc]; exact List.mem_singleton_self c, ?_⟩
  rintro ⟨⟨k, -, hpool⟩, -, -⟩
  rw [hdata] at hpool
  cases hpool

end Run

end AutoRec
