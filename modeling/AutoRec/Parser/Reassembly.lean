import AutoRec.Parser.Headers

/-!
# Sections put together again

A multiplexer cuts sections into packets, and the parser puts them together again.

* `Section`: a section as it is sent.
* `Legal`: sections cut into packets, with pointer fields and stuffing.
* `Tracks`: what the parser has of the section in progress: its bytes with the right header, a start
  too short for a header, or nothing.
* **`delivered_iff`**: exactly the sections sent are completed, in their order, if and only if no
  packet ends behind the first or the second byte of a section.
-/

namespace AutoRec

open Arena SectionParser Inbox

/-! ## Sections in packets -/

/-- A section as it is sent, for a pool of `P` bytes: as long as its header says, with the right
CRC, no stuffing, and such that the pool has room for a packet besides. -/
structure Section (P : ℕ) (z : List UInt8) : Prop where
  len : (Sect.first z).hdr.totalLen = z.length
  crc : crc32 z = 0
  noStuffing : z.head? ≠ some 0xff
  room : z.length + 183 ≤ P

/-- The sections `secs` cut into packets, each with its `payload_unit_start_indicator` and its
payload; `cur` is what has not been sent yet of the section in progress. -/
inductive Legal : List UInt8 → List (List UInt8) → List (Bool × List UInt8) → Prop
  | nil : Legal [] [] []
  /-- A part of the section in progress. -/
  | follow {b rest : List UInt8} {secs : List (List UInt8)} {packets : List (Bool × List UInt8)}
    (hb : b ≠ []) (hrest : rest ≠ []) (hlen : b.length ≤ 184) (h : Legal rest secs packets) :
    Legal (b ++ rest) secs ((false, b) :: packets)
  /-- The end of the section in progress, and stuffing. -/
  | followEnd {b : List UInt8} {k : ℕ} {secs : List (List UInt8)}
    {packets : List (Bool × List UInt8)} (hb : b ≠ []) (hlen : b.length + k ≤ 184)
    (h : Legal [] secs packets) :
    Legal b secs ((false, b ++ List.replicate k 0xff) :: packets)
  /-- The end of the section in progress, whole sections, and stuffing. -/
  | startWhole {tail : List UInt8} {k : ℕ} {whole secs : List (List UInt8)}
    {packets : List (Bool × List UInt8)} (hwhole : whole ≠ [])
    (hlen : 1 + tail.length + whole.flatten.length + k ≤ 184) (h : Legal [] secs packets) :
    Legal tail (whole ++ secs)
      ((true, .ofNat tail.length :: (tail ++ (whole.flatten ++ List.replicate k 0xff))) :: packets)
  /-- The end of the section in progress, whole sections, and the beginning of another one. -/
  | startHead {tail head rest : List UInt8} {whole secs : List (List UInt8)}
    {packets : List (Bool × List UInt8)} (hhead : head ≠ []) (hrest : rest ≠ [])
    (hlen : 1 + tail.length + whole.flatten.length + head.length ≤ 184)
    (h : Legal rest secs packets) :
    Legal tail (whole ++ (head ++ rest) :: secs)
      ((true, .ofNat tail.length :: (tail ++ (whole.flatten ++ head))) :: packets)

/-- No packet ends behind the first or the second byte of a section. -/
def NoShortHead (packets : List (Bool × List UInt8)) : Prop :=
  ∀ packet ∈ packets, ∀ b ∈ packetStarts packet, 3 ≤ b.length

namespace Section

variable {P : ℕ} {z : List UInt8}

theorem four_le (h : Section P z) : 4 ≤ z.length := by
  by_contra hlt
  exact crc32_ne_zero (by omega) h.crc

theorem three (h : Section P z) : 3 ≤ z.length := by
  have := h.four_le
  omega

theorem ne_nil (h : Section P z) : z ≠ [] := by
  rintro rfl
  exact absurd h.three (by simp)

/-- A section does not look like stuffing. -/
theorem cons_eq (h : Section P z) (b : List UInt8) : ∃ c l, z ++ b = c :: l ∧ c ≠ 0xff := by
  match z, h.ne_nil, h.noStuffing with
  | c :: l, _, hc => exact ⟨c, l ++ b, rfl, fun he => hc (he ▸ rfl)⟩

theorem totalLen_eq (h : Section P z) (b : List UInt8) :
    (Sect.first (z ++ b)).hdr.totalLen = z.length := by
  rw [Sect.totalLen_first_append h.three, h.len]

theorem totalLen_head {head rest : List UInt8} (h : Section P (head ++ rest))
    (hhead : 3 ≤ head.length) : (Sect.first head).hdr.totalLen = (head ++ rest).length := by
  rw [← h.len, Sect.totalLen_first_append hhead]

end Section

/-! ## Where sections begin -/

section Starts

variable {P n : ℕ} {z b head rest : List UInt8} {whole : List (List UInt8)}

theorem starts_section (h : Section P z) (hn : (z ++ b).length ≤ n) :
    ∃ m, starts n (z ++ b) = (z ++ b) :: starts m b ∧ b.length ≤ m := by
  obtain ⟨c, l, heq, hc⟩ := h.cons_eq b
  have hlen := h.totalLen_eq b
  rw [heq] at hn hlen ⊢
  obtain ⟨m, hs, hm⟩ := starts_cons hc hn
  rw [hlen, ← heq, List.drop_left] at hs hm
  exact ⟨m, heq ▸ hs, hm⟩

theorem forall_starts_whole (hwhole : ∀ z ∈ whole, Section P z)
    (hn : (whole.flatten ++ b).length ≤ n) :
    ∃ m, ((∀ x ∈ starts n (whole.flatten ++ b), 3 ≤ x.length) ↔ ∀ x ∈ starts m b, 3 ≤ x.length) ∧
      b.length ≤ m := by
  induction whole generalizing n with
  | nil => exact ⟨n, Iff.rfl, hn⟩
  | cons z whole ih =>
    have hz := hwhole z List.mem_cons_self
    rw [List.flatten_cons, List.append_assoc] at hn ⊢
    obtain ⟨m, hs, hm⟩ := starts_section hz hn
    obtain ⟨m', hiff, hm'⟩ := ih (fun z hz => hwhole z (List.mem_cons_of_mem _ hz)) hm
    refine ⟨m', ?_, hm'⟩
    rw [hs, List.forall_mem_cons, ← hiff]
    have := hz.three
    have : 3 ≤ (z ++ (whole.flatten ++ b)).length := by rw [List.length_append]; omega
    exact and_iff_right this

theorem starts_stuffing (n k : ℕ) : starts n (.replicate k 0xff) = [] := by
  cases k with
  | zero => exact starts_nil n
  | succ k => exact starts_cons_stuffing n _

theorem starts_head (h : Section P (head ++ rest)) (hhead : head ≠ [])
    (hn : head.length ≤ n) : starts n head = [head] := by
  match head, hhead with
  | c :: l, _ =>
    have hc : c ≠ 0xff := fun he => h.noStuffing (he ▸ rfl)
    obtain ⟨m, hs, -⟩ := starts_cons hc hn
    have hge : (c :: l).length ≤ (Sect.first (c :: l)).hdr.totalLen := by
      by_cases hlong : 3 ≤ (c :: l).length
      · rw [h.totalLen_head hlong, List.length_append]
        omega
      · have := Sect.totalLen_first_ge (c :: l)
        omega
    rw [hs, List.drop_eq_nil_of_le hge, starts_nil]

end Starts

/-! ## The section in progress -/

variable {τ : Type} {H : Hooks τ} {P n k : ℕ} {I I' : Inbox} {b rest : List UInt8}
  {secs : List (List UInt8)} {done : List Sect} {r : CheckSection}

/-- What the parser has of the section in progress, of which `cur` has not come yet, and what it
will make of it. -/
inductive Tracks (P : ℕ) (I : Inbox) : List UInt8 → List (List UInt8) → Prop
  /-- No section is in progress. -/
  | idle (hcur : I.cur = none) : Tracks P I [] []
  /-- All bytes so far, with the right length. -/
  | sound {w : Sect} {cur : List UInt8} (hcur : I.cur = some w) (hne : cur ≠ [])
    (hlen : w.hdr.totalLen = (w.bytes ++ cur).length) (hsec : Section P (w.bytes ++ cur)) :
    Tracks P I cur [w.bytes ++ cur]
  /-- One or two bytes, with the header of a section of three bytes. -/
  | stub {w : Sect} {cur : List UInt8} (hcur : I.cur = some w) (hne : cur ≠ [])
    (hlen : w.hdr.totalLen = 3) (hshort : w.bytes.length < 3) (hsec : Section P (w.bytes ++ cur)) :
    Tracks P I cur []
  /-- Nothing: the section is lost. -/
  | lost {cur : List UInt8} (hcur : I.cur = none) (hne : cur ≠ []) : Tracks P I cur []

/-- The parser will not miss a section that has begun. -/
def Sound (cur : List UInt8) (due : List (List UInt8)) : Prop := cur = [] ∨ due ≠ []

/-- The sections still to come are not among those that the parser remembers. -/
def Fresh (I : Inbox) (secs : List (List UInt8)) : Prop :=
  ∀ d ∈ I.done, d.bytes ∉ secs

theorem Fresh.mono {secs' : List (List UInt8)} (h : Fresh I secs)
    (hd : ∀ d ∈ done, d ∈ I.done) (hs : ∀ z ∈ secs', z ∈ secs) {c : Option Sect} {i : Bool}
    {calls : List Call} : Fresh ⟨done, c, i, calls⟩ secs' :=
  fun d hdone hmem => h d (hd d hdone) (hs _ hmem)

/-- The sections completed so far. -/
def delivered (I : Inbox) : List (List UInt8) := I.calls.map Call.bytes

/-- **A section sent is completed** when all its bytes are there. -/
theorem finish_section {done' : List Sect} {calls : List Call} {w : Sect} {z : List UInt8}
    (hf : Finish done I.calls w r done' calls) (hz : Section P z) (hw : w.whole = z)
    (hd : done <:+ I.done) (hfresh : Fresh I (z :: secs)) (hnodup : (z :: secs).Nodup) :
    r = .completed ∧ calls.map Call.bytes = delivered I ++ [z] ∧
      ∀ c i calls', Fresh ⟨done', c, i, calls'⟩ secs := by
  have hnew : z ∉ done.map Sect.bytes := by
    intro hmem
    obtain ⟨d, hd', hdz⟩ := List.mem_map.mp hmem
    exact hfresh d (hd.subset hd') (hdz ▸ List.mem_cons_self)
  cases hf with
  | crc32Err hcrc => exact absurd (hw ▸ hz.crc) hcrc
  | already _ hold => exact absurd (hw ▸ hold) hnew
  | @completed _ _ c hc _ hsub =>
    refine ⟨rfl, ?_, ?_⟩
    · rw [List.map_append, List.map_singleton, hc.bytes, hw]
      rfl
    · intro c i calls' d hd' hmem
      rcases List.mem_append.mp (hsub.subset hd') with hd' | hd'
      · exact hfresh d (hd.subset hd') (List.mem_cons_of_mem _ hmem)
      · rw [List.mem_singleton] at hd'
        subst hd'
        exact (List.nodup_cons.mp hnodup).1 (hw ▸ hmem)

/-- Three bytes are not a section. -/
theorem finish_stub {done' : List Sect} {calls calls' : List Call} {w : Sect}
    (hf : Finish done calls w r done' calls') (hw : w.hdr.totalLen = 3) :
    r = .crc32Err ∧ done' = done ∧ calls' = calls := by
  have hne : crc32 w.whole ≠ 0 := crc32_ne_zero (by
    rw [Sect.whole, List.length_take]
    omega)
  cases hf with
  | crc32Err => exact ⟨rfl, rfl, rfl⟩
  | already hcrc | completed hcrc => exact absurd hcrc hne

/-- **A part of the section in progress** comes in. -/
theorem Tracks.more {cur : List UInt8} {due : List (List UInt8)} (h : Tracks P I cur due)
    (hcur' : cur = b ++ rest) (hi : I.ignoring = false) (hb : b ≠ []) (hrest : rest ≠ [])
    (hlen : b.length ≤ 184) (hfresh : Fresh I (due ++ secs)) (hf : Follow P b I done r I') :
    Tracks P I' rest due ∧ I'.ignoring = false ∧ I'.calls = I.calls ∧ Fresh I' (due ++ secs) := by
  have hpos : 0 < rest.length := List.length_pos_iff.mpr hrest
  have hcl : cur.length = b.length + rest.length := by rw [hcur', List.length_append]
  cases h with
  | idle hcur => exact absurd (List.append_eq_nil_iff.mp hcur'.symm).1 hb
  | @sound w _ hcur hne hwl hsec =>
    have hassoc : w.bytes ++ cur = w.bytes ++ b ++ rest := by rw [hcur', List.append_assoc]
    have hroom := hsec.room
    rw [List.length_append] at hwl hroom
    obtain ⟨hd, ⟨hl, -, rfl⟩ | ⟨hl, -⟩⟩ := hf.inv_some hi hcur (by omega)
    · refine ⟨?_, hi, rfl, hfresh.mono (fun d hd' => hd.subset hd') fun _ hz => hz⟩
      rw [hassoc]
      refine .sound (w := { w with bytes := w.bytes ++ b }) rfl hrest ?_ (hassoc ▸ hsec)
      show w.hdr.totalLen = (w.bytes ++ b ++ rest).length
      rw [← hassoc, List.length_append, hwl]
    · rw [List.length_append] at hl
      omega
  | @stub w _ hcur hne hwl hshort hsec =>
    have hassoc : w.bytes ++ cur = w.bytes ++ b ++ rest := by rw [hcur', List.append_assoc]
    have hroom := hsec.room
    have hfour := hsec.four_le
    rw [List.length_append] at hroom hfour
    obtain ⟨hd, ⟨hl, -, rfl⟩ | ⟨-, done', calls, hfin, rfl⟩⟩ := hf.inv_some hi hcur (by omega)
    · exact ⟨.stub (w := { w with bytes := w.bytes ++ b }) rfl hrest hwl (hwl ▸ hl) (hassoc ▸ hsec),
        hi, rfl, hfresh.mono (fun d hd' => hd.subset hd') fun _ hz => hz⟩
    · obtain ⟨-, rfl, rfl⟩ := finish_stub hfin hwl
      exact ⟨.lost rfl hrest, hi, rfl, hfresh.mono (fun d hd' => hd.subset hd') fun _ hz => hz⟩
  | lost hcur hne =>
    obtain ⟨-, rfl⟩ := hf.inv_none hi hcur
    exact ⟨.lost hcur hrest, hi, rfl, hfresh⟩

/-- **The end of the section in progress** comes in. A section of which the parser has nothing is
`INVALID`. -/
theorem Tracks.finish {due : List (List UInt8)} (h : Tracks P I b due) (hi : I.ignoring = false)
    (hb : b ≠ []) (hlen : b.length + k ≤ 184) (hfresh : Fresh I (due ++ secs))
    (hnodup : (due ++ secs).Nodup) (hf : Follow P (b ++ List.replicate k 0xff) I done r I') :
    I'.cur = none ∧ I'.ignoring = false ∧ delivered I' = delivered I ++ due ∧ Fresh I' secs ∧
      (r = .receiving ∨ r = .invalid → due = []) := by
  have hbl : (b ++ List.replicate k (0xff : UInt8)).length = b.length + k := by
    rw [List.length_append, List.length_replicate]
  have hpos : 0 < b.length := List.length_pos_iff.mpr hb
  cases h with
  | idle => exact absurd rfl hb
  | @sound w _ hcur hne hwl hsec =>
    have hroom := hsec.room
    rw [List.length_append] at hroom
    have hwl' := hwl
    rw [List.length_append] at hwl'
    obtain ⟨hd, ⟨hl, -, rfl⟩ | ⟨-, done', calls, hfin, rfl⟩⟩ := hf.inv_some hi hcur (by omega)
    · rw [List.length_append] at hl
      omega
    · obtain ⟨rfl, hcalls, hfresh'⟩ := finish_section hfin hsec (by
        show (w.bytes ++ (b ++ _)).take w.hdr.totalLen = _
        rw [hwl, ← List.append_assoc, List.take_left]) hd hfresh hnodup
      exact ⟨rfl, hi, hcalls, hfresh' _ _ _, by simp⟩
  | @stub w _ hcur hne hwl hshort hsec =>
    have hroom := hsec.room
    have hfour := hsec.four_le
    rw [List.length_append] at hroom hfour
    obtain ⟨hd, ⟨hl, -, rfl⟩ | ⟨-, done', calls, hfin, rfl⟩⟩ := hf.inv_some hi hcur (by omega)
    · rw [List.length_append] at hl
      omega
    · obtain ⟨rfl, rfl, rfl⟩ := finish_stub hfin hwl
      exact ⟨rfl, hi, (List.append_nil _).symm,
        hfresh.mono (fun d hd' => hd.subset hd') fun _ hz => hz, fun _ => rfl⟩
  | lost hcur hne =>
    obtain ⟨-, rfl⟩ := hf.inv_none hi hcur
    exact ⟨hcur, hi, (List.append_nil _).symm, hfresh, fun _ => rfl⟩

/-! ## Sections that begin in a packet -/

variable {z head : List UInt8} {whole : List (List UInt8)}

/-- **A section that begins and ends in a packet** is completed. -/
theorem walk_section (hH : ∀ e x b, (H.started e x b).1 = true) (hz : Section P z)
    (hlen : (z ++ b).length ≤ P) (hfresh : Fresh I (z :: secs)) (hnodup : (z :: secs).Nodup)
    (hw : Walk H P (z ++ b) I I') :
    ∃ I₁, Walk H P b I₁ I' ∧ I₁.cur = none ∧ I₁.ignoring = false ∧
      delivered I₁ = delivered I ++ [z] ∧ Fresh I₁ secs := by
  have hlong : z.length ≤ (z ++ b).length := by rw [List.length_append]; omega
  have htotal := hz.totalLen_eq b
  have hdrop : (z ++ b).drop (Sect.first (z ++ b)).hdr.totalLen = b := by rw [htotal, List.drop_left]
  have htake : (z ++ b).take (Sect.first (z ++ b)).hdr.totalLen = z := by rw [htotal, List.take_left]
  obtain ⟨c, l, heq, hc⟩ := hz.cons_eq b
  rw [heq] at hw hlen hlong htotal hdrop htake
  cases hw with
  | stuffing => exact absurd rfl hc
  | last _ hbegin =>
    cases hbegin with
    | full hP => omega
    | more _ hl => omega
  | turn _ hbegin hw =>
    cases hbegin with
    | @ignored e x hfalse => exact absurd ((hH e x _).symm.trans hfalse) Bool.noConfusion
    | finished hd _ hfin =>
      rw [hdrop] at hw
      obtain ⟨-, hcalls, hfresh'⟩ := finish_section hfin hz htake hd hfresh hnodup
      exact ⟨_, hw, rfl, rfl, hcalls, hfresh' _ _ _⟩

theorem walk_whole (hH : ∀ e x b, (H.started e x b).1 = true) (hwhole : ∀ z ∈ whole, Section P z)
    (hcur : I.cur = none) (hi : I.ignoring = false) (hlen : (whole.flatten ++ b).length ≤ P)
    (hfresh : Fresh I (whole ++ secs)) (hnodup : (whole ++ secs).Nodup)
    (hw : Walk H P (whole.flatten ++ b) I I') :
    ∃ I₁, Walk H P b I₁ I' ∧ I₁.cur = none ∧ I₁.ignoring = false ∧
      delivered I₁ = delivered I ++ whole ∧ Fresh I₁ secs := by
  induction whole generalizing I with
  | nil => exact ⟨I, hw, hcur, hi, (List.append_nil _).symm, hfresh⟩
  | cons z whole ih =>
    rw [List.flatten_cons, List.append_assoc] at hlen hw
    obtain ⟨I₁, hw₁, hcur₁, hi₁, hdel₁, hfresh₁⟩ :=
      walk_section hH (hwhole z List.mem_cons_self) hlen hfresh hnodup hw
    rw [List.length_append] at hlen
    obtain ⟨I₂, hw₂, hcur₂, hi₂, hdel₂, hfresh₂⟩ :=
      ih (fun z hz => hwhole z (List.mem_cons_of_mem _ hz)) hcur₁ hi₁ (by omega) hfresh₁
        (List.nodup_cons.mp hnodup).2 hw₁
    refine ⟨I₂, hw₂, hcur₂, hi₂, ?_, hfresh₂⟩
    rw [hdel₂, hdel₁, List.append_assoc, List.singleton_append]

theorem walk_stuffing (hw : Walk H P (.replicate k 0xff) I I') : I' = I := by
  cases k with
  | zero =>
    cases hw
    rfl
  | succ k =>
    rw [List.replicate_succ] at hw
    cases hw with
    | stuffing => rfl
    | last hc | turn hc => exact absurd rfl hc

/-- **A section that begins at the end of a packet**: its length is known if three bytes are there.
-/
theorem walk_head (hH : ∀ e x b, (H.started e x b).1 = true) (hsec : Section P (head ++ rest))
    (hhead : head ≠ []) (hrest : rest ≠ []) (hlen : head.length ≤ P) (hfresh : Fresh I secs)
    (hw : Walk H P head I I') :
    Tracks P I' rest (if 3 ≤ head.length then [head ++ rest] else []) ∧ I'.ignoring = false ∧
      I'.calls = I.calls ∧ Fresh I' secs := by
  have hpos : 0 < rest.length := List.length_pos_iff.mpr hrest
  have htotal : (Sect.first head).hdr.totalLen =
      if 3 ≤ head.length then (head ++ rest).length else 3 := by
    split_ifs with hlong
    · exact hsec.totalLen_head hlong
    · rw [Sect.hdr_first_short (by omega)]
      rfl
  have hgt : head.length < (Sect.first head).hdr.totalLen := by
    rw [htotal, List.length_append]
    split_ifs <;> omega
  match head, hhead with
  | c :: l, _ =>
    have hc : c ≠ 0xff := fun he => hsec.noStuffing (he ▸ rfl)
    cases hw with
    | stuffing => exact absurd rfl hc
    | turn _ hbegin =>
      cases hbegin with
      | @ignored e x hfalse => exact absurd ((hH e x _).symm.trans hfalse) Bool.noConfusion
      | finished _ hl => omega
    | last _ hbegin =>
      cases hbegin with
      | full hP => omega
      | more hd =>
        refine ⟨?_, rfl, rfl, hfresh.mono (fun d hd' => hd.subset hd') fun _ hz => hz⟩
        split_ifs with hlong
        · exact .sound (w := { Sect.first (c :: l) with state := .receiving }) rfl hrest
            (by rw [if_pos hlong] at htotal; exact htotal) hsec
        · exact .stub (w := { Sect.first (c :: l) with state := .receiving }) rfl hrest
            (by rw [if_neg hlong] at htotal; exact htotal) (Nat.lt_of_not_le hlong) hsec

/-! ## A packet -/

/-- What a packet of a legal packetisation leaves behind: `due` and `secs` were still to be
completed, `out` has been, and `due'` and `secs'` are now; `long` says that the packet does not end
behind the first or the second byte of a section. -/
structure Kept (P : ℕ) (I I' : Inbox) (cur : List UInt8) (due secs : List (List UInt8))
    (cur' : List UInt8) (due' secs' out : List (List UInt8)) (long : Prop) : Prop where
  tracks : Tracks P I' cur' due'
  ignoring : I'.ignoring = false
  delivered : delivered I' = delivered I ++ out
  fresh : Fresh I' (due' ++ secs')
  sub : (out ++ (due' ++ secs')).Sublist (due ++ secs)
  exact : Sound cur due → long → out ++ (due' ++ secs') = due ++ secs ∧ Sound cur' due'
  short : Sound cur due → ¬ long → (out ++ (due' ++ secs')).length < (due ++ secs).length

variable {cur tail : List UInt8} {due : List (List UInt8)}

theorem kept_follow (h : Tracks P I (b ++ rest) due) (hi : I.ignoring = false) (hb : b ≠ [])
    (hrest : rest ≠ []) (hlen : b.length ≤ 184) (hfresh : Fresh I (due ++ secs))
    (hp : Packet H P (false, b) I I') :
    ∃ due' out, Kept P I I' (b ++ rest) due secs rest due' secs out
      (∀ x ∈ packetStarts (false, b), 3 ≤ x.length) := by
  have hlong : ∀ x ∈ packetStarts (false, b), 3 ≤ x.length := by simp [packetStarts]
  cases hp with
  | empty => exact absurd rfl hb
  | follow _ hf =>
    obtain ⟨htracks, hi', hcalls, hfresh'⟩ := h.more rfl hi hb hrest hlen hfresh hf
    refine ⟨due, [], htracks, hi', ?_, hfresh', List.Sublist.refl _, ?_, fun _ hn => absurd hlong hn⟩
    · rw [delivered, hcalls, List.append_nil]
      rfl
    · rintro (hnil | hdue) _
      · exact absurd (List.append_eq_nil_iff.mp hnil).1 hb
      · exact ⟨rfl, .inr hdue⟩

theorem kept_followEnd (h : Tracks P I b due) (hi : I.ignoring = false) (hb : b ≠ [])
    (hlen : b.length + k ≤ 184) (hfresh : Fresh I (due ++ secs)) (hnodup : (due ++ secs).Nodup)
    (hp : Packet H P (false, b ++ List.replicate k 0xff) I I') :
    ∃ due' out, Kept P I I' b due secs [] due' secs out
      (∀ x ∈ packetStarts (false, b ++ List.replicate k 0xff), 3 ≤ x.length) := by
  have hlong : ∀ x ∈ packetStarts (false, b ++ List.replicate k 0xff), 3 ≤ x.length := by
    simp [packetStarts]
  generalize hpayload : b ++ List.replicate k (0xff : UInt8) = payload at hp
  cases hp with
  | empty => exact absurd (List.append_eq_nil_iff.mp hpayload).1 hb
  | follow _ hf =>
    subst hpayload
    obtain ⟨hcur, hi', hdel, hfresh', -⟩ := h.finish hi hb hlen hfresh hnodup hf
    exact ⟨[], due, .idle hcur, hi', hdel, hfresh', List.Sublist.refl _, fun _ _ => ⟨rfl, .inl rfl⟩,
      fun _ hn => absurd hlong hn⟩

/-- **The end of the section in progress, in a packet in which others begin.** If the parser has
nothing of the section in progress, it does not look at the others. -/
theorem first_tail (h : Tracks P I tail due) (hi : I.ignoring = false) (hb : b ≠ [])
    (hlen : tail.length + b.length ≤ 183) (hfresh : Fresh I (due ++ secs))
    (hnodup : (due ++ secs).Nodup) (hf : First H P (.ofNat tail.length :: (tail ++ b)) I I') :
    (∃ I₁, Walk H P b I₁ I' ∧ I₁.cur = none ∧ I₁.ignoring = false ∧
      delivered I₁ = delivered I ++ due ∧ Fresh I₁ secs) ∨
    (due = [] ∧ tail ≠ [] ∧ I'.cur = none ∧ I'.ignoring = false ∧ delivered I' = delivered I ∧
      Fresh I' secs) := by
  have hnat : (UInt8.ofNat tail.length).toNat = tail.length := by
    rw [UInt8.toNat_ofNat']
    omega
  have hpos : 0 < b.length := List.length_pos_iff.mpr hb
  have htail : UInt8.ofNat tail.length ≠ 0 → tail ≠ [] := by
    rintro h0 rfl
    exact h0 rfl
  have hfinish : ∀ {done : List Sect} {r : CheckSection} {I₁ : Inbox},
      UInt8.ofNat tail.length ≠ 0 →
      Follow P ((tail ++ b).take (UInt8.ofNat tail.length).toNat) I done r I₁ →
      I₁.cur = none ∧ I₁.ignoring = false ∧ delivered I₁ = delivered I ++ due ∧ Fresh I₁ secs ∧
        (r = .receiving ∨ r = .invalid → due = []) := by
    intro done r I₁ h0 hf
    rw [hnat, List.take_left] at hf
    have hf' : Follow P (tail ++ List.replicate 0 0xff) I done r I₁ := by
      rw [List.replicate_zero, List.append_nil]
      exact hf
    exact h.finish hi (htail h0) (by omega) hfresh hnodup hf'
  generalize hn : UInt8.ofNat tail.length = n at hf hnat htail hfinish
  cases hf with
  | broken hle =>
    rw [List.length_append] at hle
    omega
  | start hw =>
    have hnil : tail = [] := List.length_eq_zero_iff.mp hnat.symm
    subst hnil
    left
    cases h with
    | idle hcur => exact ⟨I, hw, hcur, hi, (List.append_nil _).symm, hfresh⟩
    | sound _ hne | stub _ hne | lost _ hne => exact absurd rfl hne
  | lost _ h0 hf hr =>
    obtain ⟨hcur, hi', hdel, hfresh', hdue⟩ := hfinish h0 hf
    right
    rw [hdue hr, List.append_nil] at hdel
    exact ⟨hdue hr, htail h0, hcur, hi', hdel, hfresh'⟩
  | tail _ h0 hf _ hw =>
    obtain ⟨hcur, hi', hdel, hfresh', -⟩ := hfinish h0 hf
    left
    rw [hnat, List.drop_left] at hw
    exact ⟨_, hw, hcur, hi', hdel, hfresh'⟩

theorem forall_packetStarts (tail : List UInt8) (hwhole : ∀ z ∈ whole, Section P z)
    (hb : whole.flatten ++ b ≠ [])
    (hlen : tail.length ≤ 183) :
    ∃ m, b.length ≤ m ∧
      ((∀ x ∈ packetStarts (true, .ofNat tail.length :: (tail ++ (whole.flatten ++ b))), 3 ≤ x.length)
        ↔ ∀ x ∈ starts m b, 3 ≤ x.length) := by
  have hnat : (UInt8.ofNat tail.length).toNat = tail.length := by
    rw [UInt8.toNat_ofNat']
    omega
  have hpos : 0 < (whole.flatten ++ b).length := List.length_pos_iff.mpr hb
  rw [packetStarts, hnat, if_pos (by rw [List.length_append]; omega), List.drop_left]
  obtain ⟨m, hiff, hm⟩ := forall_starts_whole (b := b) hwhole (n := (tail ++ (whole.flatten ++ b)).length) (by
    simp only [List.length_append]
    omega)
  exact ⟨m, hm, hiff⟩

theorem kept_startWhole (hH : ∀ e x b, (H.started e x b).1 = true) (h : Tracks P I tail due)
    (hi : I.ignoring = false) (hwhole : whole ≠ [])
    (hlen : 1 + tail.length + whole.flatten.length + k ≤ 184)
    (hsec : ∀ z ∈ whole ++ secs, Section P z) (hfresh : Fresh I (due ++ (whole ++ secs)))
    (hnodup : (due ++ (whole ++ secs)).Nodup)
    (hp : Packet H P (true, .ofNat tail.length :: (tail ++ (whole.flatten ++ List.replicate k 0xff)))
      I I') :
    ∃ due' out, Kept P I I' tail due (whole ++ secs) [] due' secs out
      (∀ x ∈ packetStarts (true,
          .ofNat tail.length :: (tail ++ (whole.flatten ++ List.replicate k 0xff))),
        3 ≤ x.length) := by
  obtain ⟨z, hz⟩ := List.exists_mem_of_ne_nil whole hwhole
  have hwhole' : ∀ z ∈ whole, Section P z := fun z hz => hsec z (List.mem_append_left _ hz)
  have hroom := (hwhole' z hz).room
  have hne : whole.flatten ++ List.replicate k (0xff : UInt8) ≠ [] := by
    intro hnil
    have hflat := (List.append_eq_nil_iff.mp hnil).1
    exact (hwhole' z hz).ne_nil (List.flatten_eq_nil_iff.mp hflat z hz)
  have hbl : (whole.flatten ++ List.replicate k (0xff : UInt8)).length =
      whole.flatten.length + k := by
    rw [List.length_append, List.length_replicate]
  obtain ⟨m, -, hiff⟩ := forall_packetStarts tail hwhole' hne (by omega)
  have hlong := hiff.mpr (by simp [starts_stuffing])
  cases hp with
  | first hf =>
    rcases first_tail h hi hne (by omega) hfresh hnodup hf with
      ⟨I₁, hw, hcur₁, hi₁, hdel₁, hfresh₁⟩ | ⟨rfl, htail, hcur, hi', hdel, hfresh'⟩
    · obtain ⟨I₂, hw₂, hcur₂, hi₂, hdel₂, hfresh₂⟩ := walk_whole hH hwhole' hcur₁ hi₁ (by omega)
        hfresh₁ (List.nodup_append.mp hnodup).2.1 hw
      obtain rfl := walk_stuffing hw₂
      refine ⟨[], due ++ whole, .idle hcur₂, hi₂, ?_, hfresh₂, ?_, fun _ _ => ⟨?_, .inl rfl⟩,
        fun _ hn => absurd hlong hn⟩
      · rw [hdel₂, hdel₁, List.append_assoc]
      · simp only [List.nil_append, List.append_assoc]
        exact List.Sublist.refl _
      · rw [List.nil_append, List.append_assoc]
    · refine ⟨[], [], .idle hcur, hi', by rw [hdel, List.append_nil],
        fun d hd hm => hfresh' d hd (List.mem_append_right _ hm), List.sublist_append_right _ _, ?_,
        fun _ hn => absurd hlong hn⟩
      rintro (hnil | hdue)
      · exact absurd hnil htail
      · exact absurd rfl hdue

theorem kept_startHead (hH : ∀ e x b, (H.started e x b).1 = true) (h : Tracks P I tail due)
    (hi : I.ignoring = false) (hhead : head ≠ []) (hrest : rest ≠ [])
    (hlen : 1 + tail.length + whole.flatten.length + head.length ≤ 184)
    (hsec : ∀ z ∈ whole ++ (head ++ rest) :: secs, Section P z)
    (hfresh : Fresh I (due ++ (whole ++ (head ++ rest) :: secs)))
    (hnodup : (due ++ (whole ++ (head ++ rest) :: secs)).Nodup)
    (hp : Packet H P (true, .ofNat tail.length :: (tail ++ (whole.flatten ++ head))) I I') :
    ∃ due' out, Kept P I I' tail due (whole ++ (head ++ rest) :: secs) rest due' secs out
      (∀ x ∈ packetStarts (true, .ofNat tail.length :: (tail ++ (whole.flatten ++ head))),
        3 ≤ x.length) := by
  have hwhole' : ∀ z ∈ whole, Section P z := fun z hz => hsec z (List.mem_append_left _ hz)
  have hhr : Section P (head ++ rest) := hsec _ (List.mem_append_right _ List.mem_cons_self)
  have hroom := hhr.room
  have hne : whole.flatten ++ head ≠ [] := fun hnil => hhead (List.append_eq_nil_iff.mp hnil).2
  have hbl : (whole.flatten ++ head).length = whole.flatten.length + head.length :=
    List.length_append
  obtain ⟨m, hm, hiff⟩ := forall_packetStarts tail hwhole' hne (by omega)
  rw [starts_head hhr hhead hm, List.forall_mem_singleton] at hiff
  cases hp with
  | first hf =>
    rcases first_tail h hi hne (by omega) hfresh hnodup hf with
      ⟨I₁, hw, hcur₁, hi₁, hdel₁, hfresh₁⟩ | ⟨rfl, htail, hcur, hi', hdel, hfresh'⟩
    · obtain ⟨I₂, hw₂, hcur₂, hi₂, hdel₂, hfresh₂⟩ := walk_whole hH hwhole' hcur₁ hi₁ (by omega)
        hfresh₁ (List.nodup_append.mp hnodup).2.1 hw
      obtain ⟨htracks, hi₃, hcalls, hfresh₃⟩ := walk_head hH hhr hhead hrest (by omega) hfresh₂ hw₂
      have hdel : delivered I' = delivered I ++ (due ++ whole) := by
        rw [delivered, hcalls, ← delivered, hdel₂, hdel₁, List.append_assoc]
      by_cases hlong : 3 ≤ head.length
      · rw [if_pos hlong] at htracks
        refine ⟨[head ++ rest], due ++ whole, htracks, hi₃, hdel, hfresh₃, ?_, fun _ _ => ⟨?_, ?_⟩,
          fun _ hn => absurd (hiff.mpr hlong) hn⟩
        · simp only [List.append_assoc, List.singleton_append]
          exact List.Sublist.refl _
        · rw [List.append_assoc, List.singleton_append]
        · exact .inr (List.cons_ne_nil _ _)
      · rw [if_neg hlong] at htracks
        refine ⟨[], due ++ whole, htracks, hi₃, hdel,
          fun d hd hmem => hfresh₃ d hd (List.mem_cons_of_mem _ hmem), ?_,
          fun _ hl => absurd (hiff.mp hl) hlong, fun _ _ => ?_⟩
        · rw [List.nil_append, List.append_assoc]
          exact ((List.sublist_cons_self _ _).append_left _).append_left _
        · simp only [List.length_append, List.length_cons, List.nil_append]
          omega
    · refine ⟨[], [], .lost hcur hrest, hi', by rw [hdel, List.append_nil],
        fun d hd hmem => hfresh' d hd (List.mem_append_right _ (List.mem_cons_of_mem _ hmem)),
        (List.sublist_cons_self _ _).trans (List.sublist_append_right _ _), ?_, ?_⟩
      · rintro (hnil | hdue)
        · exact absurd hnil htail
        · exact absurd rfl hdue
      · rintro (hnil | hdue)
        · exact absurd hnil htail
        · exact absurd rfl hdue

/-! ## The packets one after the other -/

/-- From a state in which `due` and `secs` are still to be completed, part of them is, and all of
them if the parser misses no section that has begun and no packet ends behind the first or the
second byte of a section. -/
def Completes (H : Hooks τ) (P : ℕ) (cur : List UInt8) (secs : List (List UInt8))
    (packets : List (Bool × List UInt8)) : Prop :=
  ∀ (s : SectionParser τ) (I : Inbox) (due : List (List UInt8)), Sim P s I → Tracks P I cur due →
    I.ignoring = false → Fresh I (due ++ secs) → (due ++ secs).Nodup →
    ∃ s' more, Machine.exec (packetStep H) s packets = some s' ∧
      s'.calls.map Call.bytes = delivered I ++ more ∧ more.Sublist (due ++ secs) ∧
      (Sound cur due → (more = due ++ secs ↔ NoShortHead packets))

theorem completes_cons {cur' : List UInt8} {secs' : List (List UInt8)} {packet : Bool × List UInt8}
    {packets : List (Bool × List UInt8)} (hlen : packet.2.length < 2 ^ 64)
    (hkept : ∀ I I' due, Tracks P I cur due → I.ignoring = false → Fresh I (due ++ secs) →
      (due ++ secs).Nodup → Packet H P packet I I' →
      ∃ due' out, Kept P I I' cur due secs cur' due' secs' out
        (∀ b ∈ packetStarts packet, 3 ≤ b.length))
    (ih : Completes H P cur' secs' packets) : Completes H P cur secs (packet :: packets) := by
  intro s I due hs htracks hi hfresh hnodup
  obtain ⟨t, I', ht, hp, hsim⟩ := hs.packetStep (H := H) hlen
  obtain ⟨due', out, hk⟩ := hkept I I' due htracks hi hfresh hnodup hp
  have hnodup' : (due' ++ secs').Nodup := (List.nodup_append.mp (hk.sub.nodup hnodup)).2.1
  obtain ⟨s', more, hrun, hcalls, hsub, hiff⟩ :=
    ih t I' due' hsim hk.tracks hk.ignoring hk.fresh hnodup'
  refine ⟨s', out ++ more, by rw [Machine.exec, ht]; exact hrun, ?_,
    (hsub.append_left out).trans hk.sub, fun hsound => ?_⟩
  · rw [hcalls, hk.delivered, List.append_assoc]
  · rw [NoShortHead, List.forall_mem_cons]
    by_cases hlong : ∀ b ∈ packetStarts packet, 3 ≤ b.length
    · obtain ⟨hexact, hsound'⟩ := hk.exact hsound hlong
      rw [← hexact, List.append_cancel_left_eq, hiff hsound']
      exact (and_iff_right hlong).symm
    · have hlt := hk.short hsound hlong
      have hle := hsub.length_le
      refine ⟨fun heq => ?_, fun hall => absurd hall.1 hlong⟩
      have hlen' := congrArg List.length heq
      rw [List.length_append] at hlen' hlt
      omega

/-- **The run.** -/
theorem completes_legal {packets : List (Bool × List UInt8)}
    (hH : ∀ e x b, (H.started e x b).1 = true) (hlegal : Legal cur secs packets)
    (hsec : ∀ z ∈ secs, Section P z) : Completes H P cur secs packets := by
  induction hlegal with
  | nil =>
    intro s I due hs htracks _ _ _
    refine ⟨s, [], rfl, by rw [hs.calls, List.append_nil]; rfl, List.nil_sublist _, fun _ => ?_⟩
    cases htracks with
    | idle => simp [NoShortHead]
    | sound _ hne | stub _ hne | lost _ hne => exact absurd rfl hne
  | follow hb hrest hlen _ ih =>
    refine completes_cons (Nat.lt_of_le_of_lt hlen (by decide)) ?_ (ih hsec)
    intro I I' due htracks hi hfresh _ hp
    exact kept_follow htracks hi hb hrest hlen hfresh hp
  | followEnd hb hlen _ ih =>
    refine completes_cons ?_ ?_ (ih hsec)
    · rw [List.length_append, List.length_replicate]
      omega
    · intro I I' due htracks hi hfresh hnodup hp
      exact kept_followEnd htracks hi hb hlen hfresh hnodup hp
  | startWhole hwhole hlen _ ih =>
    refine completes_cons ?_ ?_ (ih fun z hz => hsec z (List.mem_append_right _ hz))
    · simp only [List.length_cons, List.length_append, List.length_replicate]
      omega
    · intro I I' due htracks hi hfresh hnodup hp
      exact kept_startWhole hH htracks hi hwhole hlen hsec hfresh hnodup hp
  | startHead hhead hrest hlen _ ih =>
    refine completes_cons ?_ ?_
      (ih fun z hz => hsec z (List.mem_append_right _ (List.mem_cons_of_mem _ hz)))
    · simp only [List.length_cons, List.length_append]
      omega
    · intro I I' due htracks hi hfresh hnodup hp
      exact kept_startHead hH htracks hi hhead hrest hlen hsec hfresh hnodup hp

/-- **Sections sent are completed, each once and in their order, if and only if no packet ends
behind the first or the second byte of a section.** -/
theorem delivered_iff (H : Hooks τ) (hH : ∀ e x b, (H.started e x b).1 = true) (poolSize : ℕ)
    (fifoNum : ℤ) (type : SectionType) (ext : τ) (secs : List (List UInt8))
    (packets : List (Bool × List UInt8)) (hsec : ∀ z ∈ secs, Section poolSize z)
    (hnodup : secs.Nodup) (hlegal : Legal [] secs packets) :
    ∃ s, Machine.exec (packetStep H) (create poolSize fifoNum type ext) packets = some s ∧
      (s.calls.map Call.bytes = secs ↔ NoShortHead packets) := by
  obtain ⟨s, more, hrun, hcalls, -, hiff⟩ := completes_legal hH hlegal hsec
    (create poolSize fifoNum type ext) ⟨[], none, false, []⟩ []
    (create_sim poolSize fifoNum type ext) (.idle rfl) rfl (fun d hd => by cases hd) hnodup
  refine ⟨s, hrun, ?_⟩
  rw [hcalls]
  exact hiff (.inl rfl)

/-- A section in two packets, the first of which has four bytes of it. -/
theorem delivered_iff_four : ∃ s,
    Machine.exec (packetStep Hooks.base) (create 200 0 .psisi ())
      [(true, [0, 112, 0, 5, 170]), (false, [66, 114, 70, 209])] = some s ∧
    (s.calls.map Call.bytes = [[112, 0, 5, 170, 66, 114, 70, 209]] ↔
      NoShortHead [(true, [0, 112, 0, 5, 170]), (false, [66, 114, 70, 209])]) := by
  apply delivered_iff Hooks.base (fun _ _ _ => rfl)
  · intro z hz
    rw [List.mem_singleton] at hz
    subst hz
    exact ⟨by decide, by decide, by decide, by decide⟩
  · decide
  · exact @Legal.startHead [] [112, 0, 5, 170] [66, 114, 70, 209] [] [] _ (by decide) (by decide)
      (by decide) (.followEnd (k := 0) (by decide) (by decide) .nil)

/-- A packet that ends behind the first byte of a section: the section is not completed. -/
theorem not_delivered_one : ∃ secs packets s, (∀ z ∈ secs, Section 200 z) ∧ secs.Nodup ∧
    Legal [] secs packets ∧
    Machine.exec (packetStep Hooks.base) (create 200 0 .psisi ()) packets = some s ∧
    s.calls.map Call.bytes ≠ secs := by
  have hrun : (Machine.exec (packetStep Hooks.base) (create 200 0 .psisi ())
      [(true, [0, 112]), (false, [0, 5, 170, 66, 114, 70, 209])]).map
        (fun s => s.calls.map Call.bytes) = some [] := by
    decide
  obtain ⟨s, hs, hcalls⟩ := Option.map_eq_some_iff.mp hrun
  refine ⟨[[112, 0, 5, 170, 66, 114, 70, 209]], _, s, ?_, by decide, ?_, hs, ?_⟩
  · intro z hz
    rw [List.mem_singleton] at hz
    subst hz
    exact ⟨by decide, by decide, by decide, by decide⟩
  · exact @Legal.startHead [] [112] [0, 5, 170, 66, 114, 70, 209] [] [] _ (by decide) (by decide)
      (by decide) (.followEnd (k := 0) (by decide) (by decide) .nil)
  · rw [hcalls]
    decide

end AutoRec
