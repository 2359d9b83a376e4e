import AutoRec.Parser.Schedule

/-!
# Which bytes a table is parsed from

The parsers of the tables are given the data part of a section only, up to its CRC: reading anything
else is reading outside. They take the lengths from the section and look at what is left of it
only after they have read.

* `DescriptorsFit`, `EntriesFit`: what the length fields lead to lies in the data part, as far as
  parsing goes on.
* `TableParser`: the parsers; `TableParser.ReadsInside`, `TableParser.Fits`.
* **`readsInside_iff`**: the bytes read lie in the data part if and only if it is so.
* `parsesSame_of_readsInside`: then it does not matter what lies behind the data part.
* `not_readsInside`: an event with one byte behind it.
-/

namespace AutoRec

/-! ## What the length fields lead to -/

/-- A loop over descriptors with `n` bytes to go, in the bytes `p`: each descriptor it comes to lies
in them. It leaves off behind the last one, or with nothing at one of length zero. -/
inductive DescriptorsFit : ℤ → List UInt8 → Option (List UInt8) → Prop
  | done {n p} : n ≤ 0 → DescriptorsFit n p (some p)
  | empty {n tag rest} : 0 < n → DescriptorsFit n (tag :: 0 :: rest) none
  | cons {n tag len rest out} : 0 < n → len ≠ 0 → len.toNat ≤ rest.length →
      DescriptorsFit (n - (2 + len.toNat)) (rest.drop len.toNat) out →
      DescriptorsFit n (tag :: len :: rest) out

/-- The length of the descriptors, at the end of a fixed part of `fix` bytes. -/
def loopLength (fix : ℕ) (p : List UInt8) : ℕ :=
  (uimsbf12 (p.getD (fix - 2) 0) (p.getD (fix - 1) 0)).toNat

/-- A loop over entries with `n` bytes to go, in the bytes `p`: the fixed part of each entry that it
comes to lies in them, and the descriptors fit. -/
inductive EntriesFit (fix : ℕ) : ℤ → List UInt8 → Prop
  | done {n : ℤ} {p} : n ≤ 0 → EntriesFit fix n p
  | cons {n : ℤ} {p out} : 0 < n → fix ≤ p.length →
      DescriptorsFit (loopLength fix p) (p.drop fix) out →
      (∀ rest ∈ out, 0 ≤ n - (fix + loopLength fix p) →
        EntriesFit fix (n - (fix + loopLength fix p)) rest) →
      EntriesFit fix n p

/-! ## The parsers -/

/-- The parsers of tables whose entries or data have descriptors. -/
inductive TableParser
  | eit
  | eitSched
  | pmt
  | nit
  | sdt
  | cdt
deriving DecidableEq, Repr

/-- The function reads outside. -/
def isOutside {α : Type} : Except ParseError α → Bool
  | .error .outside | .error .nullPointer => true
  | .error .invalid | .ok _ => false

/-- The header of a section. -/
def sectionHeader (z : List UInt8) : SectionHeader := (parseHeader .zero z .psisi).1

/-- The data part of a section with a long header, up to its CRC; `get_data_part_addr` is its first
byte when the header has been read whole. -/
def dataPart (z : List UInt8) : List UInt8 := (z.take (z.length - 4)).drop sectionHeaderLen

/-- A section with a long header that is complete and has a correct CRC. Its header has been read
whole, from its first packet, so that the data part begins behind it. -/
structure CompleteSection (z : List UInt8) : Prop where
  long : (sectionHeader z).sectionSyntaxIndicator = 1
  length : z.length = (sectionHeader z).totalLen
  crc : crc32 z = 0

namespace TableParser

/-- `parse` reads outside of the bytes `data`. -/
def readsOutside (header : SectionHeader) (data : List UInt8) : TableParser → Bool
  | .eit => isOutside (eitClass.parse header data)
  | .eitSched => isOutside (schedClass.parse header data)
  | .pmt => isOutside (pmtClass.parse header data)
  | .nit => isOutside (nitClass.parse header data)
  | .sdt => isOutside (sdtClass.parse header data)
  | .cdt => isOutside (cdtClass.parse header data)

/-- `parse` does the same with the bytes `data` and `data'`. -/
def ParsesSame (header : SectionHeader) (data data' : List UInt8) : TableParser → Prop
  | .eit => eitClass.parse header data = eitClass.parse header data'
  | .eitSched => schedClass.parse header data = schedClass.parse header data'
  | .pmt => pmtClass.parse header data = pmtClass.parse header data'
  | .nit => nitClass.parse header data = nitClass.parse header data'
  | .sdt => sdtClass.parse header data = sdtClass.parse header data'
  | .cdt => cdtClass.parse header data = cdtClass.parse header data'

/-- **Every byte that `parse` reads** of the section lies in its data part. -/
def ReadsInside (k : TableParser) (z : List UInt8) : Prop :=
  k.readsOutside (sectionHeader z) (dataPart z) = false

/-- **The condition on the data part**: the fixed part of the table lies in it, and so does what the
length fields lead to, unless parsing stops before. -/
def Fits (data : List UInt8) : TableParser → Prop
  | .eit | .eitSched =>
    6 ≤ data.length ∧ (data.length < 6 + 12 ∨ EntriesFit 12 (data.length - 6) (data.drop 6))
  | .pmt =>
    let streamLen : ℤ := data.length - 4 - loopLength 4 data
    4 ≤ data.length ∧ ∃ out, DescriptorsFit (loopLength 4 data) (data.drop 4) out ∧
      ∀ p ∈ out, streamLen ≤ 5 ∨ EntriesFit 5 streamLen p
  | .nit =>
    let streamLen : ℤ := data.length - 2 - loopLength 2 data - 2
    2 ≤ data.length ∧ ∃ out, DescriptorsFit (loopLength 2 data) (data.drop 2) out ∧
      ∀ p ∈ out, 2 ≤ p.length ∧
        (streamLen ≤ 6 ∨ streamLen ≠ loopLength 2 p ∨ EntriesFit 6 streamLen (p.drop 2))
  | .sdt =>
    3 ≤ data.length ∧ (data.length ≤ 3 + 5 ∨ EntriesFit 5 (data.length - 3) (data.drop 3))
  | .cdt =>
    let dataLen : ℤ := data.length - 5 - loopLength 5 data
    5 ≤ data.length ∧ ∃ out, DescriptorsFit (loopLength 5 data) (data.drop 5) out ∧
      ∀ p ∈ out, data.getD 2 0 ≠ 1 ∨ dataLen ≤ 7 ∨
        (7 ≤ p.length ∧ (dataLen ≠ 7 + (uimsbf16 (p.getD 5 0) (p.getD 6 0)).toNat ∨
          (uimsbf16 (p.getD 5 0) (p.getD 6 0)).toNat ≤ (p.drop 7).length))

end TableParser

/-! ## The loop over the descriptors -/

section Descriptors

variable {n : ℤ} {p rest : List UInt8} {out : Option (List UInt8)} {tag len : UInt8}

theorem descriptorsFit_done (hn : n ≤ 0) : DescriptorsFit n p out ↔ out = some p := by
  constructor
  · intro h
    cases h with
    | done => rfl
    | empty hpos => omega
    | cons hpos => omega
  · rintro rfl
    exact .done hn

theorem descriptorsFit_cons (hn : 0 < n) : DescriptorsFit n (tag :: len :: rest) out ↔
    (len = 0 ∧ out = none) ∨ (len ≠ 0 ∧ len.toNat ≤ rest.length ∧
      DescriptorsFit (n - (2 + len.toNat)) (rest.drop len.toNat) out) := by
  constructor
  · intro h
    cases h with
    | done hle => omega
    | empty => exact .inl ⟨rfl, rfl⟩
    | cons _ hne hle hrest => exact .inr ⟨hne, hle, hrest⟩
  · rintro (⟨rfl, rfl⟩ | ⟨hne, hle, hrest⟩)
    · exact .empty hn
    · exact .cons hn hne hle hrest

theorem not_descriptorsFit_of_length (hn : 0 < n) (hp : p.length < 2) :
    ¬ DescriptorsFit n p out := by
  intro h
  cases h with
  | done hle => omega
  | empty =>
    simp only [List.length_cons] at hp
    omega
  | cons =>
    simp only [List.length_cons] at hp
    omega

/-- The ways a loop over descriptors ends. -/
inductive DescriptorsResult (n : ℤ) (p : List UInt8) :
    Except ParseError (List Descriptor × List UInt8) → Prop
  | outside : (∀ out, ¬ DescriptorsFit n p out) → DescriptorsResult n p (.error .outside)
  | invalid : (∀ out, DescriptorsFit n p out ↔ out = none) → DescriptorsResult n p (.error .invalid)
  | ok (descs rest) : (∀ out, DescriptorsFit n p out ↔ out = some rest) →
      rest.length ≤ p.length → DescriptorsResult n p (.ok (descs, rest))

/-- **The loop over the descriptors.** -/
theorem parseDescriptors_result {fuel : ℕ} (hf : p.length < fuel) :
    DescriptorsResult n p (parseDescriptors fuel n p) := by
  induction fuel generalizing n p with
  | zero => omega
  | succ fuel ih =>
    rw [parseDescriptors]
    by_cases hn : n ≤ 0
    · rw [if_pos hn]
      exact .ok _ _ (fun out => descriptorsFit_done hn) (Nat.le_refl _)
    · rw [if_neg hn]
      rw [Int.not_le] at hn
      rcases p with _ | ⟨tag, _ | ⟨len, rest⟩⟩
      · exact .outside fun out => not_descriptorsFit_of_length hn (by simp)
      · exact .outside fun out => not_descriptorsFit_of_length hn (by simp)
      · rw [Descriptor.parse]
        by_cases hlen : len = 0
        · rw [if_pos hlen]
          refine .invalid fun out => ?_
          rw [descriptorsFit_cons hn]
          simp [hlen]
        · rw [if_neg hlen]
          by_cases hshort : rest.length < len.toNat
          · rw [if_pos hshort]
            refine .outside fun out => ?_
            rw [descriptorsFit_cons hn]
            rintro (⟨hzero, -⟩ | ⟨-, hle, -⟩)
            · exact hlen hzero
            · omega
          · rw [if_neg hshort]
            have hiff : ∀ out, DescriptorsFit n (tag :: len :: rest) out ↔
                DescriptorsFit (n - (2 + len.toNat)) (rest.drop len.toNat) out := fun out => by
              rw [descriptorsFit_cons hn]
              simp [hlen, Nat.not_lt.mp hshort]
            have hlt : (rest.drop len.toNat).length < fuel := by
              simp only [List.length_cons, List.length_drop] at hf ⊢
              omega
            have hrec := @ih (n - (2 + len.toNat)) (rest.drop len.toNat) hlt
            dsimp only
            generalize parseDescriptors fuel (n - (2 + len.toNat)) (rest.drop len.toNat) = r at hrec
            cases hrec with
            | outside hnot => exact .outside fun out => by rw [hiff]; exact hnot out
            | invalid hnone => exact .invalid fun out => by rw [hiff]; exact hnone out
            | ok descs rest' hsome hle =>
              refine .ok _ _ (fun out => by rw [hiff]; exact hsome out) ?_
              simp only [List.length_cons, List.length_drop] at hle ⊢
              omega

end Descriptors

/-! ## The loop over the entries -/

/-- `head` reads a fixed part of `fix` bytes, which ends with the length of the descriptors. -/
def ReadsFixed {β : Type} (fix : ℕ)
    (head : List UInt8 → Option (UInt16 × (List Descriptor → β) × List UInt8)) : Prop :=
  ∀ p, (p.length < fix ∧ head p = none) ∨
    (fix ≤ p.length ∧ ∃ len part, len.toNat = loopLength fix p ∧
      head p = some (len, part, p.drop fix))

theorem readsFixed_pmtStream : ReadsFixed 5 PmtStream.head
  | [] | [_] | [_, _] | [_, _, _] | [_, _, _, _] => .inl ⟨by simp, rfl⟩
  | _ :: _ :: _ :: _ :: _ :: _ => .inr ⟨by simp, _, _, rfl, rfl⟩

theorem readsFixed_nitStream : ReadsFixed 6 NitStream.head
  | [] | [_] | [_, _] | [_, _, _] | [_, _, _, _] | [_, _, _, _, _] => .inl ⟨by simp, rfl⟩
  | _ :: _ :: _ :: _ :: _ :: _ :: _ => .inr ⟨by simp, _, _, rfl, rfl⟩

theorem readsFixed_sdtService : ReadsFixed 5 SdtService.head
  | [] | [_] | [_, _] | [_, _, _] | [_, _, _, _] => .inl ⟨by simp, rfl⟩
  | _ :: _ :: _ :: _ :: _ :: _ => .inr ⟨by simp, _, _, rfl, rfl⟩

/-- The `EIT_EVENT_FIX_LEN` bytes of an event. -/
def EitEvent.head : List UInt8 → Option (UInt16 × (List Descriptor → EitEvent) × List UInt8)
  | i₀ :: i₁ :: s₀ :: s₁ :: s₂ :: s₃ :: s₄ :: d₀ :: d₁ :: d₂ :: b₁₀ :: b₁₁ :: rest =>
    some (uimsbf12 b₁₀ b₁₁, fun descs => {
      eventId := uimsbf16 i₀ i₁
      startTime := [s₀, s₁, s₂, s₃, s₄]
      duration := [d₀, d₁, d₂]
      runningStatus := (b₁₀ >>> 5) &&& 0x07
      freeCAMode := (b₁₀ >>> 4) &&& 0x01
      descriptorsLoopLength := uimsbf12 b₁₀ b₁₁
      descriptors := descs }, rest)
  | _ => none

theorem readsFixed_eitEvent : ReadsFixed 12 EitEvent.head := by
  intro p
  unfold EitEvent.head
  split
  · exact .inr ⟨by simp, _, _, rfl, rfl⟩
  · rename_i hp
    refine .inl ⟨?_, rfl⟩
    match p with
    | [] | [_] | [_, _] | [_, _, _] | [_, _, _, _] | [_, _, _, _, _] | [_, _, _, _, _, _]
    | [_, _, _, _, _, _, _] | [_, _, _, _, _, _, _, _] | [_, _, _, _, _, _, _, _, _]
    | [_, _, _, _, _, _, _, _, _, _] | [_, _, _, _, _, _, _, _, _, _, _] => simp
    | _ :: _ :: _ :: _ :: _ :: _ :: _ :: _ :: _ :: _ :: _ :: _ :: _ =>
      exact absurd rfl (hp _ _ _ _ _ _ _ _ _ _ _ _ _)

theorem parseEvents_eq (fuel : ℕ) (n : ℤ) (p : List UInt8) :
    parseEvents fuel n p = parseParts 12 EitEvent.head fuel n p := by
  induction fuel generalizing n p with
  | zero => rfl
  | succ fuel ih =>
    unfold parseEvents parseParts
    by_cases hn : n ≤ 0
    · rw [if_pos hn, if_pos hn]
    · rw [if_neg hn, if_neg hn]
      -- the twelve bytes in front of the descriptors
      iterate 12
        rcases p with _ | ⟨b, p⟩
        · rfl
      simp only [EitEvent.head, ih, uimsbf12, uimsbf16]
      norm_cast
      generalize parseDescriptors _ _ _ = r
      rcases r with _ | ⟨descs, rest⟩
      · rfl
      · dsimp only
        generalize parseParts _ _ _ _ _ = events
        cases events <;> rfl

section Entries

variable {fix : ℕ} {n : ℤ} {p : List UInt8}

theorem entriesFit_cons (hn : 0 < n) : EntriesFit fix n p ↔
    fix ≤ p.length ∧ ∃ out, DescriptorsFit (loopLength fix p) (p.drop fix) out ∧
      ∀ rest ∈ out, 0 ≤ n - (fix + loopLength fix p) →
        EntriesFit fix (n - (fix + loopLength fix p)) rest := by
  constructor
  · intro h
    cases h with
    | done hle => omega
    | cons _ hle hdescs hrest => exact ⟨hle, _, hdescs, hrest⟩
  · rintro ⟨hle, out, hdescs, hrest⟩
    exact .cons hn hle hdescs hrest

theorem DescriptorsResult.isOutside {α : Type} {Q : List UInt8 → Prop}
    {F : Except ParseError (List Descriptor × List UInt8) → Except ParseError α}
    {r : Except ParseError (List Descriptor × List UInt8)} (h : DescriptorsResult n p r)
    (herror : ∀ e, F (.error e) = .error e)
    (hok : ∀ descs rest, rest.length ≤ p.length →
      (isOutside (F (.ok (descs, rest))) = false ↔ Q rest)) :
    isOutside (F r) = false ↔ ∃ out, DescriptorsFit n p out ∧ ∀ rest ∈ out, Q rest := by
  cases h with
  | outside hnot =>
    rw [herror]
    exact iff_of_false Bool.noConfusion fun ⟨out, hdescs, _⟩ => hnot out hdescs
  | invalid hnone =>
    rw [herror]
    exact iff_of_true rfl ⟨none, (hnone none).mpr rfl, fun _ h => by cases h⟩
  | ok descs rest hsome hle =>
    simp only [hsome, exists_eq_left, Option.mem_some_iff, forall_eq']
    exact hok descs rest hle

/-- **The loop over the entries.** -/
theorem isOutside_parseParts {β : Type}
    {head : List UInt8 → Option (UInt16 × (List Descriptor → β) × List UInt8)} {fuel : ℕ}
    (hfix : 0 < fix) (hhead : ReadsFixed fix head) (hf : p.length < fuel) :
    isOutside (parseParts fix head fuel n p) = false ↔ EntriesFit fix n p := by
  induction fuel generalizing n p with
  | zero => omega
  | succ fuel ih =>
    rw [parseParts]
    by_cases hn : n ≤ 0
    · rw [if_pos hn]
      exact iff_of_true rfl (.done hn)
    · rw [if_neg hn]
      rw [Int.not_le] at hn
      rw [entriesFit_cons hn]
      rcases hhead p with ⟨hshort, hnone⟩ | ⟨hlong, len, part, hlen, hsome⟩
      · rw [hnone]
        exact iff_of_false Bool.noConfusion fun h => by omega
      · rw [hsome]
        dsimp only
        rw [hlen]
        rw [and_iff_right hlong]
        have hdescs := parseDescriptors_result (n := loopLength fix p)
          (Nat.lt_succ_self (p.drop fix).length)
        generalize parseDescriptors _ _ _ = r at hdescs
        apply hdescs.isOutside (fun _ => rfl)
        intro descs rest hle
        dsimp only
        by_cases hneg : n - (fix + loopLength fix p) < 0
        · rw [if_pos hneg]
          exact iff_of_true rfl fun h => by omega
        · rw [if_neg hneg]
          have hlt : rest.length < fuel := by
            rw [List.length_drop] at hle
            omega
          have hpos : 0 ≤ n - (fix + loopLength fix p : ℤ) := by omega
          rw [← ih hlt, forall_prop_of_true hpos]
          generalize parseParts fix head fuel _ rest = r
          match r with
          | .error .outside | .error .nullPointer =>
            exact iff_of_false Bool.noConfusion Bool.noConfusion
          | .error .invalid => exact iff_of_true rfl rfl
          | .ok _ => exact iff_of_true rfl rfl

end Entries

/-! ## The parsers -/

section Tables

variable {header : SectionHeader} {data p : List UInt8} {n : ℤ}

theorem isOutside_eit (hlen : (header.sectionLength.toNat : ℤ) = data.length + 9) :
    isOutside (EventInformationTable.parse header data) = false ↔ TableParser.Fits data .eit := by
  match data with
  | [] | [_] | [_, _] | [_, _, _] | [_, _, _, _] | [_, _, _, _, _] =>
    exact iff_of_false Bool.noConfusion fun h => absurd h.1 (by simp)
  | b₀ :: b₁ :: b₂ :: b₃ :: b₄ :: b₅ :: p =>
    have hevent : (header.sectionLength.toNat : ℤ) - 5 - 4 - 6 = p.length := by
      simp only [List.length_cons] at hlen
      omega
    have hfits : TableParser.Fits (b₀ :: b₁ :: b₂ :: b₃ :: b₄ :: b₅ :: p) .eit ↔
        p.length < 12 ∨ EntriesFit 12 p.length p := by
      have hrest : ((p.length + 1 + 1 + 1 + 1 + 1 + 1 : ℕ) : ℤ) - 6 = p.length := by omega
      simp only [TableParser.Fits, List.length_cons, List.drop_succ_cons, List.drop_zero, hrest]
      rw [and_iff_right (by omega)]
      exact or_congr (by omega) Iff.rfl
    rw [hfits, EventInformationTable.parse, hevent]
    by_cases hshort : ¬ ((p.length : ℤ) = 0 ∨ (p.length : ℤ) = 12) ∧ (p.length : ℤ) < 12
    · rw [if_pos hshort]
      exact iff_of_true rfl (.inl (by omega))
    · have hparts := isOutside_parseParts (n := p.length) (by decide) readsFixed_eitEvent
        (Nat.lt_succ_self p.length)
      rw [if_neg hshort, or_iff_right_of_imp fun hlt => .done (by omega), ← hparts, parseEvents_eq]
      generalize parseParts 12 EitEvent.head _ _ _ = r
      rcases r with (_ | _ | _) | _ <;> exact Iff.rfl

theorem isOutside_pmt (hlen : (header.sectionLength.toNat : ℤ) = data.length + 9) :
    isOutside (ProgramMapTable.parse header data) = false ↔ TableParser.Fits data .pmt := by
  match data with
  | [] | [_] | [_, _] | [_, _, _] =>
    exact iff_of_false Bool.noConfusion fun h => absurd h.1 (by simp)
  | b₀ :: b₁ :: b₂ :: b₃ :: p =>
    have hloop : loopLength 4 (b₀ :: b₁ :: b₂ :: b₃ :: p) = (uimsbf12 b₂ b₃).toNat := rfl
    have hstream : (header.sectionLength.toNat : ℤ) - (uimsbf12 b₂ b₃).toNat - 5 - 4 - 4 =
        (b₀ :: b₁ :: b₂ :: b₃ :: p).length - 4 - (uimsbf12 b₂ b₃).toNat := by omega
    rw [ProgramMapTable.parse, hstream]
    simp only [TableParser.Fits, hloop, List.drop_succ_cons, List.drop_zero]
    rw [and_iff_right (by simp)]
    generalize ((b₀ :: b₁ :: b₂ :: b₃ :: p).length : ℤ) - 4 - (uimsbf12 b₂ b₃).toNat = streamLen
    have hdescs := parseDescriptors_result (n := (uimsbf12 b₂ b₃).toNat) (Nat.lt_succ_self p.length)
    generalize parseDescriptors _ _ _ = r at hdescs
    apply hdescs.isOutside (fun _ => rfl)
    intro descs rest _
    dsimp only
    by_cases hshort : streamLen ≤ 5
    · rw [if_pos hshort]
      exact iff_of_true rfl (.inl hshort)
    · have hparts := isOutside_parseParts (n := streamLen) (by decide) readsFixed_pmtStream
        (Nat.lt_succ_self rest.length)
      rw [if_neg hshort, or_iff_right hshort, ← hparts]
      generalize parseParts 5 PmtStream.head _ _ _ = r
      rcases r with (_ | _ | _) | _ <;> exact Iff.rfl

theorem isOutside_nit (hlen : (header.sectionLength.toNat : ℤ) = data.length + 9) :
    isOutside (NetworkInformationTable.parse header data) = false ↔ TableParser.Fits data .nit := by
  match data with
  | [] | [_] => exact iff_of_false Bool.noConfusion fun h => absurd h.1 (by simp)
  | b₀ :: b₁ :: p =>
    have hloop : loopLength 2 (b₀ :: b₁ :: p) = (uimsbf12 b₀ b₁).toNat := rfl
    have hstream : (header.sectionLength.toNat : ℤ) - 5 - 4 - 2 - (uimsbf12 b₀ b₁).toNat - 2 =
        (b₀ :: b₁ :: p).length - 2 - (uimsbf12 b₀ b₁).toNat - 2 := by omega
    rw [NetworkInformationTable.parse, hstream]
    simp only [TableParser.Fits, hloop, List.drop_succ_cons, List.drop_zero]
    rw [and_iff_right (by simp)]
    generalize ((b₀ :: b₁ :: p).length : ℤ) - 2 - (uimsbf12 b₀ b₁).toNat - 2 = streamLen
    have hdescs := parseDescriptors_result (n := (uimsbf12 b₀ b₁).toNat) (Nat.lt_succ_self p.length)
    generalize parseDescriptors _ _ _ = r at hdescs
    apply hdescs.isOutside (fun _ => rfl)
    intro descs rest _
    match rest with
    | [] | [_] => exact iff_of_false Bool.noConfusion fun h => absurd h.1 (by simp)
    | c₀ :: c₁ :: rest =>
      have hloop₂ : loopLength 2 (c₀ :: c₁ :: rest) = (uimsbf12 c₀ c₁).toNat := rfl
      simp only [hloop₂, List.drop_succ_cons, List.drop_zero]
      rw [and_iff_right (by simp)]
      by_cases hshort : streamLen ≤ 6
      · rw [if_pos hshort]
        exact iff_of_true rfl (.inl hshort)
      · rw [if_neg hshort, or_iff_right hshort]
        by_cases hne : streamLen ≠ (uimsbf12 c₀ c₁).toNat
        · rw [if_pos hne]
          exact iff_of_true rfl (.inl hne)
        · have hparts := isOutside_parseParts (n := streamLen) (by decide) readsFixed_nitStream
            (Nat.lt_succ_self rest.length)
          rw [if_neg hne, or_iff_right hne, ← hparts]
          generalize parseParts 6 NitStream.head _ _ _ = r
          rcases r with (_ | _ | _) | _ <;> exact Iff.rfl

theorem isOutside_sdt (hlen : (header.sectionLength.toNat : ℤ) = data.length + 9) :
    isOutside (ServiceDescriptionTable.parse header data) = false ↔ TableParser.Fits data .sdt := by
  match data with
  | [] | [_] | [_, _] => exact iff_of_false Bool.noConfusion fun h => absurd h.1 (by simp)
  | b₀ :: b₁ :: b₂ :: p =>
    have hservice : (header.sectionLength.toNat : ℤ) - 5 - 4 - 3 = p.length := by
      simp only [List.length_cons] at hlen
      omega
    have hfits : TableParser.Fits (b₀ :: b₁ :: b₂ :: p) .sdt ↔
        p.length ≤ 5 ∨ EntriesFit 5 p.length p := by
      have hrest : ((p.length + 1 + 1 + 1 : ℕ) : ℤ) - 3 = p.length := by omega
      simp only [TableParser.Fits, List.length_cons, List.drop_succ_cons, List.drop_zero, hrest]
      rw [and_iff_right (by omega)]
      exact or_congr (by omega) Iff.rfl
    rw [hfits, ServiceDescriptionTable.parse, hservice]
    by_cases hshort : (p.length : ℤ) ≤ 5
    · rw [if_pos hshort]
      exact iff_of_true rfl (.inl (by omega))
    · have hparts := isOutside_parseParts (n := p.length) (by decide) readsFixed_sdtService
        (Nat.lt_succ_self p.length)
      rw [if_neg hshort, or_iff_right (by omega), ← hparts]
      generalize parseParts 5 SdtService.head _ _ _ = r
      rcases r with (_ | _ | _) | _ <;> exact Iff.rfl

theorem isOutside_cdtData : isOutside (CdtData.parse n p) = false ↔ n ≤ 7 ∨
    (7 ≤ p.length ∧ (n ≠ 7 + (uimsbf16 (p.getD 5 0) (p.getD 6 0)).toNat ∨
      (uimsbf16 (p.getD 5 0) (p.getD 6 0)).toNat ≤ (p.drop 7).length)) := by
  unfold CdtData.parse
  by_cases hshort : n ≤ 7
  · rw [if_pos hshort]
    exact iff_of_true rfl (.inl hshort)
  · rw [if_neg hshort, or_iff_right hshort]
    match p with
    | [] | [_] | [_, _] | [_, _, _] | [_, _, _, _] | [_, _, _, _, _] | [_, _, _, _, _, _] =>
      exact iff_of_false Bool.noConfusion fun h => absurd h.1 (by simp)
    | _ :: _ :: _ :: _ :: _ :: b₅ :: b₆ :: rest =>
      rw [and_iff_right (by simp)]
      dsimp only
      show _ ↔ n ≠ 7 + (uimsbf16 b₅ b₆).toNat ∨ (uimsbf16 b₅ b₆).toNat ≤ rest.length
      by_cases hne : n ≠ 7 + (uimsbf16 b₅ b₆).toNat
      · rw [if_pos hne]
        exact iff_of_true rfl (.inl hne)
      · rw [if_neg hne, or_iff_right hne]
        by_cases hlt : rest.length < (uimsbf16 b₅ b₆).toNat
        · rw [if_pos hlt]
          exact iff_of_false Bool.noConfusion (Nat.not_le.mpr hlt)
        · rw [if_neg hlt]
          exact iff_of_true rfl (Nat.not_lt.mp hlt)

theorem isOutside_cdt (hlen : (header.sectionLength.toNat : ℤ) = data.length + 9) :
    isOutside (CommonDataTable.parse header data) = false ↔ TableParser.Fits data .cdt := by
  match data with
  | [] | [_] | [_, _] | [_, _, _] | [_, _, _, _] =>
    exact iff_of_false Bool.noConfusion fun h => absurd h.1 (by simp)
  | b₀ :: b₁ :: b₂ :: b₃ :: b₄ :: p =>
    have hloop : loopLength 5 (b₀ :: b₁ :: b₂ :: b₃ :: b₄ :: p) = (uimsbf12 b₃ b₄).toNat := rfl
    have htype : (b₀ :: b₁ :: b₂ :: b₃ :: b₄ :: p).getD 2 0 = b₂ := rfl
    have hdata : (header.sectionLength.toNat : ℤ) - 5 - 4 - 5 - (uimsbf12 b₃ b₄).toNat =
        (b₀ :: b₁ :: b₂ :: b₃ :: b₄ :: p).length - 5 - (uimsbf12 b₃ b₄).toNat := by omega
    rw [CommonDataTable.parse, hdata]
    simp only [TableParser.Fits, hloop, htype, List.drop_succ_cons, List.drop_zero]
    rw [and_iff_right (by simp)]
    generalize ((b₀ :: b₁ :: b₂ :: b₃ :: b₄ :: p).length : ℤ) - 5 - (uimsbf12 b₃ b₄).toNat = dataLen
    have hdescs := parseDescriptors_result (n := (uimsbf12 b₃ b₄).toNat) (Nat.lt_succ_self p.length)
    generalize parseDescriptors _ _ _ = r at hdescs
    apply hdescs.isOutside (fun _ => rfl)
    intro descs rest _
    dsimp only
    by_cases hne : b₂ ≠ 1
    · rw [if_pos hne]
      exact iff_of_true rfl (.inl hne)
    · rw [if_neg hne, or_iff_right hne, ← isOutside_cdtData]
      generalize CdtData.parse dataLen rest = r
      rcases r with (_ | _ | _) | _ <;> exact Iff.rfl

end Tables

/-! ## What is behind the data part -/

section Behind

variable {n : ℤ} {p : List UInt8} {fuel fuel' : ℕ} (m : List UInt8)

theorem parseDescriptors_append (hf : p.length < fuel) (hf' : p.length < fuel')
    (h : isOutside (parseDescriptors fuel n p) = false) :
    parseDescriptors fuel' n (p ++ m) =
      (parseDescriptors fuel n p).map fun r => (r.1, r.2 ++ m) := by
  induction fuel generalizing n p fuel' with
  | zero => omega
  | succ fuel ih =>
    obtain ⟨fuel', rfl⟩ : ∃ k, fuel' = k + 1 := ⟨fuel' - 1, by omega⟩
    unfold parseDescriptors at h ⊢
    by_cases hn : n ≤ 0
    · rw [if_pos hn, if_pos hn]
      rfl
    · rw [if_neg hn] at h ⊢
      rw [if_neg hn]
      rcases p with _ | ⟨tag, _ | ⟨len, rest⟩⟩
      · cases h
      · cases h
      · simp only [List.cons_append, Descriptor.parse] at h ⊢
        by_cases hlen : len = 0
        · rw [if_pos hlen, if_pos hlen]
          rfl
        · rw [if_neg hlen] at h ⊢
          rw [if_neg hlen]
          by_cases hshort : rest.length < len.toNat
          · rw [if_pos hshort] at h
            cases h
          · rw [if_neg hshort] at h ⊢
            have hlong : ¬ (rest ++ m).length < len.toNat := by
              rw [List.length_append]
              omega
            rw [if_neg hlong]
            dsimp only at h ⊢
            simp only [List.length_cons] at hf hf'
            have hdrop : (rest.drop len.toNat).length ≤ rest.length := by
              rw [List.length_drop]
              omega
            have hrec := @ih (n - (2 + len.toNat)) (rest.drop len.toNat) fuel' (by omega) (by omega)
            have htake : (rest ++ m).take len.toNat = rest.take len.toNat :=
              List.take_append_of_le_length (by omega)
            rw [List.drop_append_of_le_length (by omega), htake]
            generalize parseDescriptors fuel (n - (2 + len.toNat)) (rest.drop len.toNat) = r
              at h hrec
            rcases r with (_ | _ | _) | _
            · rw [hrec rfl]
              rfl
            · cases h
            · cases h
            · rw [hrec rfl]
              rfl

theorem parseDescriptors_behind (h : isOutside (parseDescriptors (p.length + 1) n p) = false) :
    parseDescriptors ((p ++ m).length + 1) n (p ++ m) =
      (parseDescriptors (p.length + 1) n p).map fun r => (r.1, r.2 ++ m) := by
  apply parseDescriptors_append m (Nat.lt_succ_self _) _ h
  rw [List.length_append]
  omega

/-- `head` reads nothing behind the fixed part. -/
def KeepsHead {β : Type}
    (head : List UInt8 → Option (UInt16 × (List Descriptor → β) × List UInt8)) : Prop :=
  ∀ p len part rest, head p = some (len, part, rest) → head (p ++ m) = some (len, part, rest ++ m)

theorem keepsHead_eitEvent : KeepsHead m EitEvent.head := by
  intro p len part rest h
  unfold EitEvent.head at h
  split at h
  · cases h
    rfl
  · cases h

theorem keepsHead_pmtStream : KeepsHead m PmtStream.head := by
  intro p len part rest h
  unfold PmtStream.head at h
  split at h
  · cases h
    rfl
  · cases h

theorem keepsHead_nitStream : KeepsHead m NitStream.head := by
  intro p len part rest h
  unfold NitStream.head at h
  split at h
  · cases h
    rfl
  · cases h

theorem keepsHead_sdtService : KeepsHead m SdtService.head := by
  intro p len part rest h
  unfold SdtService.head at h
  split at h
  · cases h
    rfl
  · cases h

theorem parseParts_append {β : Type} {fix : ℕ}
    {head : List UInt8 → Option (UInt16 × (List Descriptor → β) × List UInt8)} (hfix : 0 < fix)
    (hhead : ReadsFixed fix head) (hkeeps : KeepsHead m head) (hf : p.length < fuel)
    (hf' : p.length < fuel') (h : isOutside (parseParts fix head fuel n p) = false) :
    parseParts fix head fuel' n (p ++ m) = parseParts fix head fuel n p := by
  induction fuel generalizing n p fuel' with
  | zero => omega
  | succ fuel ih =>
    obtain ⟨fuel', rfl⟩ : ∃ k, fuel' = k + 1 := ⟨fuel' - 1, by omega⟩
    rw [parseParts] at h ⊢
    rw [parseParts]
    by_cases hn : n ≤ 0
    · rw [if_pos hn, if_pos hn]
    · rw [if_neg hn] at h ⊢
      rw [if_neg hn]
      rcases hhead p with ⟨-, hnone⟩ | ⟨hlong, len, part, -, hsome⟩
      · rw [hnone] at h
        cases h
      · rw [hsome] at h ⊢
        rw [hkeeps _ _ _ _ hsome]
        dsimp only at h ⊢
        have hdrop : (p.drop fix).length < p.length := by
          rw [List.length_drop]
          omega
        have hrest := parseDescriptors_result (n := len.toNat)
          (Nat.lt_succ_self (p.drop fix).length)
        have happ := parseDescriptors_behind (n := len.toNat) (p := p.drop fix) m
        rw [Nat.succ_eq_add_one] at hrest
        generalize parseDescriptors ((p.drop fix).length + 1) len.toNat (p.drop fix) = r
          at h hrest happ ⊢
        cases hrest with
        | outside => cases h
        | invalid =>
          rw [happ rfl]
          rfl
        | ok descs rest _ hle =>
          rw [happ rfl]
          dsimp only [Except.map] at h ⊢
          by_cases hneg : n - (fix + len.toNat) < 0
          · rw [if_pos hneg, if_pos hneg]
          · rw [if_neg hneg] at h ⊢
            rw [if_neg hneg]
            have hrec := @ih (n - (fix + len.toNat)) rest fuel' (by omega) (by omega)
            generalize parseParts fix head fuel (n - (fix + len.toNat)) rest = r at h hrec
            rw [hrec]
            rcases r with (_ | _ | _) | _
            · rfl
            · cases h
            · cases h
            · rfl

variable {header : SectionHeader} {data : List UInt8}

theorem parseParts_behind {β : Type} {fix : ℕ}
    {head : List UInt8 → Option (UInt16 × (List Descriptor → β) × List UInt8)} (hfix : 0 < fix)
    (hhead : ReadsFixed fix head) (hkeeps : KeepsHead m head)
    (h : isOutside (parseParts fix head (p.length + 1) n p) = false) :
    parseParts fix head ((p ++ m).length + 1) n (p ++ m) =
      parseParts fix head (p.length + 1) n p := by
  apply parseParts_append m hfix hhead hkeeps (Nat.lt_succ_self _) _ h
  rw [List.length_append]
  omega

theorem eit_behind (h : isOutside (EventInformationTable.parse header data) = false) :
    EventInformationTable.parse header (data ++ m) = EventInformationTable.parse header data := by
  match data with
  | [] | [_] | [_, _] | [_, _, _] | [_, _, _, _] | [_, _, _, _, _] => cases h
  | b₀ :: b₁ :: b₂ :: b₃ :: b₄ :: b₅ :: p =>
    simp only [List.cons_append, EventInformationTable.parse, parseEvents_eq] at h ⊢
    split
    · rfl
    · rename_i hlong
      rw [if_neg hlong] at h
      have hparts := parseParts_behind (n := header.sectionLength.toNat - 5 - 4 - 6) (p := p) m
        (by decide) readsFixed_eitEvent (keepsHead_eitEvent m)
      generalize parseParts 12 EitEvent.head (p.length + 1) _ p = r at h hparts ⊢
      rcases r with (_ | _ | _) | _
      · rw [hparts rfl]
      · cases h
      · cases h
      · rw [hparts rfl]

theorem pmt_behind (h : isOutside (ProgramMapTable.parse header data) = false) :
    ProgramMapTable.parse header (data ++ m) = ProgramMapTable.parse header data := by
  match data with
  | [] | [_] | [_, _] | [_, _, _] => cases h
  | b₀ :: b₁ :: b₂ :: b₃ :: p =>
    simp only [List.cons_append, ProgramMapTable.parse] at h ⊢
    have hdescs := parseDescriptors_behind (n := (uimsbf12 b₂ b₃).toNat) (p := p) m
    generalize parseDescriptors (p.length + 1) _ p = r at h hdescs ⊢
    rcases r with (_ | _ | _) | ⟨descs, rest⟩
    · rw [hdescs rfl]
      rfl
    · cases h
    · cases h
    · rw [hdescs rfl]
      dsimp only [Except.map] at h ⊢
      split
      · rfl
      · rename_i hlong
        rw [if_neg hlong] at h
        have hparts := parseParts_behind (n := header.sectionLength.toNat - (uimsbf12 b₂ b₃).toNat -
          5 - 4 - 4) (p := rest) m (by decide) readsFixed_pmtStream (keepsHead_pmtStream m)
        generalize parseParts 5 PmtStream.head (rest.length + 1) _ rest = r at h hparts ⊢
        rcases r with (_ | _ | _) | _
        · rw [hparts rfl]
        · cases h
        · cases h
        · rw [hparts rfl]

theorem nit_behind (h : isOutside (NetworkInformationTable.parse header data) = false) :
    NetworkInformationTable.parse header (data ++ m) =
      NetworkInformationTable.parse header data := by
  match data with
  | [] | [_] => cases h
  | b₀ :: b₁ :: p =>
    simp only [List.cons_append, NetworkInformationTable.parse] at h ⊢
    have hdescs := parseDescriptors_behind (n := (uimsbf12 b₀ b₁).toNat) (p := p) m
    generalize parseDescriptors (p.length + 1) _ p = r at h hdescs ⊢
    rcases r with (_ | _ | _) | ⟨descs, rest⟩
    · rw [hdescs rfl]
      rfl
    · cases h
    · cases h
    · rw [hdescs rfl]
      match rest with
      | [] | [_] => cases h
      | c₀ :: c₁ :: rest =>
        dsimp only [Except.map, List.cons_append] at h ⊢
        split
        · rfl
        · rename_i hlong
          rw [if_neg hlong] at h
          split
          · rfl
          · rename_i heq
            rw [if_neg heq] at h
            have hparts := parseParts_behind (n := header.sectionLength.toNat - 5 - 4 - 2 -
              (uimsbf12 b₀ b₁).toNat - 2) (p := rest) m (by decide) readsFixed_nitStream
              (keepsHead_nitStream m)
            generalize parseParts 6 NitStream.head (rest.length + 1) _ rest = r at h hparts ⊢
            rcases r with (_ | _ | _) | _
            · rw [hparts rfl]
            · cases h
            · cases h
            · rw [hparts rfl]

theorem sdt_behind (h : isOutside (ServiceDescriptionTable.parse header data) = false) :
    ServiceDescriptionTable.parse header (data ++ m) =
      ServiceDescriptionTable.parse header data := by
  match data with
  | [] | [_] | [_, _] => cases h
  | b₀ :: b₁ :: b₂ :: p =>
    simp only [List.cons_append, ServiceDescriptionTable.parse] at h ⊢
    split
    · rfl
    · rename_i hlong
      rw [if_neg hlong] at h
      have hparts := parseParts_behind (n := header.sectionLength.toNat - 5 - 4 - 3) (p := p) m
        (by decide) readsFixed_sdtService (keepsHead_sdtService m)
      generalize parseParts 5 SdtService.head (p.length + 1) _ p = r at h hparts ⊢
      rcases r with (_ | _ | _) | _
      · rw [hparts rfl]
      · cases h
      · cases h
      · rw [hparts rfl]

theorem cdtData_behind (h : isOutside (CdtData.parse n p) = false) :
    CdtData.parse n (p ++ m) = CdtData.parse n p := by
  unfold CdtData.parse at h ⊢
  by_cases hshort : n ≤ 7
  · rw [if_pos hshort, if_pos hshort]
  · rw [if_neg hshort] at h ⊢
    rw [if_neg hshort]
    match p with
    | [] | [_] | [_, _] | [_, _, _] | [_, _, _, _] | [_, _, _, _, _] | [_, _, _, _, _, _] => cases h
    | _ :: _ :: _ :: _ :: _ :: b₅ :: b₆ :: rest =>
      dsimp only [List.cons_append] at h ⊢
      by_cases hne : n ≠ 7 + (uimsbf16 b₅ b₆).toNat
      · rw [if_pos hne, if_pos hne]
      · rw [if_neg hne] at h ⊢
        rw [if_neg hne]
        by_cases hlt : rest.length < (uimsbf16 b₅ b₆).toNat
        · rw [if_pos hlt] at h
          cases h
        · have hlong : ¬ (rest ++ m).length < (uimsbf16 b₅ b₆).toNat := by
            rw [List.length_append]
            omega
          rw [if_neg hlt, if_neg hlong, List.take_append_of_le_length (by omega)]

theorem cdt_behind (h : isOutside (CommonDataTable.parse header data) = false) :
    CommonDataTable.parse header (data ++ m) = CommonDataTable.parse header data := by
  match data with
  | [] | [_] | [_, _] | [_, _, _] | [_, _, _, _] => cases h
  | b₀ :: b₁ :: b₂ :: b₃ :: b₄ :: p =>
    simp only [List.cons_append, CommonDataTable.parse] at h ⊢
    have hdescs := parseDescriptors_behind (n := (uimsbf12 b₃ b₄).toNat) (p := p) m
    generalize parseDescriptors (p.length + 1) _ p = r at h hdescs ⊢
    rcases r with (_ | _ | _) | ⟨descs, rest⟩
    · rw [hdescs rfl]
      rfl
    · cases h
    · cases h
    · rw [hdescs rfl]
      dsimp only [Except.map] at h ⊢
      split
      · rfl
      · rename_i hlong
        rw [if_neg hlong] at h
        have hdata := cdtData_behind (n := header.sectionLength.toNat - 5 - 4 - 5 -
          (uimsbf12 b₃ b₄).toNat) (p := rest) m
        generalize CdtData.parse _ rest = r at h hdata ⊢
        rcases r with (_ | _ | _) | _
        · rw [hdata rfl]
        · cases h
        · cases h
        · rw [hdata rfl]

end Behind

/-! ## Sections -/

theorem length_dataPart {z : List UInt8} (h : CompleteSection z) :
    dataPart z = [] ∨ ((sectionHeader z).sectionLength.toNat : ℤ) = (dataPart z).length + 9 := by
  have hlen : z.length = (sectionHeader z).sectionLength.toNat + 3 := h.length
  have hheader : sectionHeaderLen = 8 := rfl
  by_cases hshort : (sectionHeader z).sectionLength.toNat ≤ 9
  · left
    rw [dataPart, List.drop_eq_nil_iff, List.length_take]
    omega
  · right
    rw [dataPart, List.length_drop, List.length_take]
    omega

theorem readsOutside_nil (header : SectionHeader) (k : TableParser) :
    k.readsOutside header [] = true ∧ ¬ TableParser.Fits [] k := by
  cases k <;> exact ⟨rfl, fun h => absurd h.1 (by simp)⟩

/-- **The bytes that `parse` reads lie in the data part** if and only if the fixed part of the table
does, and the fixed part of each entry and each descriptor that the length fields lead to. -/
theorem readsInside_iff (k : TableParser) {z : List UInt8} (h : CompleteSection z) :
    k.ReadsInside z ↔ k.Fits (dataPart z) := by
  rw [TableParser.ReadsInside]
  rcases length_dataPart h with hnil | hlen
  · rw [hnil]
    obtain ⟨hout, hnot⟩ := readsOutside_nil (sectionHeader z) k
    rw [hout]
    exact iff_of_false Bool.noConfusion hnot
  · cases k with
    | eit => exact isOutside_eit hlen
    | eitSched => exact isOutside_eit hlen
    | pmt => exact isOutside_pmt hlen
    | nit => exact isOutside_nit hlen
    | sdt => exact isOutside_sdt hlen
    | cdt => exact isOutside_cdt hlen

/-- Then the CRC, and what lies in memory behind it, has nothing to do with what is parsed. -/
theorem parsesSame_of_readsInside {k : TableParser} {z : List UInt8} (h : k.ReadsInside z)
    (m : List UInt8) : k.ParsesSame (sectionHeader z) (dataPart z ++ m) (dataPart z) := by
  cases k with
  | eit => exact eit_behind m h
  | eitSched => exact eit_behind m h
  | pmt => exact pmt_behind m h
  | nit => exact nit_behind m h
  | sdt => exact sdt_behind m h
  | cdt => exact cdt_behind m h

/-- An event with one descriptor, and nothing behind it. -/
def eitSchedWhole : List UInt8 :=
  [80, 240, 32, 4, 0, 195, 0, 0, 0, 1, 0, 4, 0, 80, 0, 7, 233, 90, 18, 0, 0, 0, 48, 0, 0, 5, 77, 3,
    1, 2, 3, 90, 109, 255, 61]

theorem completeSection_eitSchedWhole : CompleteSection eitSchedWhole :=
  ⟨by decide +kernel, by decide +kernel, by decide +kernel⟩

/-- It is read inside, and it fits. -/
theorem readsInside_iff_eitSchedWhole :
    TableParser.eitSched.ReadsInside eitSchedWhole ∧
      TableParser.eitSched.Fits (dataPart eitSchedWhole) := by
  have hinside : TableParser.eitSched.ReadsInside eitSchedWhole := by
    show TableParser.readsOutside _ _ _ = false
    decide
  exact ⟨hinside, (readsInside_iff .eitSched completeSection_eitSchedWhole).mp hinside⟩

/-- An event without descriptors, and one byte behind it. -/
def eitSchedTail : List UInt8 :=
  [80, 240, 28, 4, 0, 195, 0, 0, 0, 1, 0, 4, 0, 80, 0, 7, 233, 90, 18, 0, 0, 0, 48, 0, 0, 0, 255,
    197, 163, 121, 128]

/-- **Not every complete section is read inside**: the byte behind the event is taken for the
beginning of another one, whose fixed part reaches over the CRC and behind the section. -/
theorem not_readsInside : ¬ ∀ (k : TableParser) z, CompleteSection z → k.ReadsInside z := by
  intro hall
  have hcomplete : CompleteSection eitSchedTail :=
    ⟨by decide +kernel, by decide +kernel, by decide +kernel⟩
  have hout : TableParser.eitSched.readsOutside (sectionHeader eitSchedTail)
      (dataPart eitSchedTail) = true := by
    decide
  have hin := hall .eitSched eitSchedTail hcomplete
  rw [TableParser.ReadsInside, hout] at hin
  cases hin

end AutoRec
