import AutoRec.Parser.Bounds

/-!
# How the tables are laid out

Which data parts the classes take: the length fields lead through them, and make up the lengths that
the parsers compute.

* `EntriesFill`: entries one behind the other that make up a number of bytes.
* `PatLayout`, `PmtLayout`, `CatLayout`, `NitLayout`, `SdtLayout`, `CdtLayout`, `EitLayout`: the data
  parts, for a header.
* `isOk_pat`, `isOk_pmt`, …: these are the ones that are parsed.
* `Lays`: a class takes what is laid out so, whatever lies behind it.
-/

namespace AutoRec

/-- Entries with `n` bytes to go, in the bytes `p`: the fixed part of each of them lies in `p`, and so
do its descriptors, none of which has the length zero; and no entry is longer than what is to go. -/
inductive EntriesFill (fix : ℕ) : ℤ → List UInt8 → Prop
  | done {n : ℤ} {p : List UInt8} : n ≤ 0 → EntriesFill fix n p
  | cons {n : ℤ} {p rest : List UInt8} : 0 < n → fix ≤ p.length →
      DescriptorsFit (loopLength fix p) (p.drop fix) (some rest) → (fix + loopLength fix p : ℤ) ≤ n →
      EntriesFill fix (n - (fix + loopLength fix p)) rest → EntriesFill fix n p

/-! ## The tables -/

section Layouts

variable (header : SectionHeader) (p : List UInt8)

/-- The programs, of four bytes each, make up the data part. -/
def PatLayout : Prop :=
  4 ≤ header.dataPartLen.toNat ∧ header.dataPartLen.toNat % 4 = 0 ∧
    header.dataPartLen.toNat ≤ p.length

/-- Four bytes, the descriptors, and more than five bytes of streams. -/
def PmtLayout : Prop :=
  let streamLen : ℤ := header.sectionLength.toNat - loopLength 4 p - 5 - 4 - 4
  4 ≤ p.length ∧ ∃ rest, DescriptorsFit (loopLength 4 p) (p.drop 4) (some rest) ∧
    5 < streamLen ∧ EntriesFill 5 streamLen rest

/-- Descriptors only. -/
def CatLayout : Prop := ∃ rest, DescriptorsFit (header.sectionLength.toNat - 5 - 4) p (some rest)

/-- Two bytes, the descriptors, two bytes with the length of the streams, and more than six bytes of
streams. -/
def NitLayout : Prop :=
  let streamLen : ℤ := header.sectionLength.toNat - 5 - 4 - 2 - loopLength 2 p - 2
  2 ≤ p.length ∧ ∃ rest, DescriptorsFit (loopLength 2 p) (p.drop 2) (some rest) ∧
    2 ≤ rest.length ∧ 6 < streamLen ∧ streamLen = loopLength 2 rest ∧
      EntriesFill 6 streamLen (rest.drop 2)

/-- Three bytes, and more than five bytes of services. -/
def SdtLayout : Prop :=
  let serviceLen : ℤ := header.sectionLength.toNat - 5 - 4 - 3
  3 ≤ p.length ∧ 5 < serviceLen ∧ EntriesFill 5 serviceLen (p.drop 3)

/-- Seven bytes in front of a logo, and the logo, with `n` bytes for both. -/
def LogoLayout (n : ℤ) : Prop :=
  7 < n ∧ 7 ≤ p.length ∧ n = 7 + (uimsbf16 (p.getD 5 0) (p.getD 6 0)).toNat ∧
    (uimsbf16 (p.getD 5 0) (p.getD 6 0)).toNat ≤ (p.drop 7).length

/-- Five bytes, the descriptors, and a logo if the third byte says so. -/
def CdtLayout : Prop :=
  5 ≤ p.length ∧ ∃ rest, DescriptorsFit (loopLength 5 p) (p.drop 5) (some rest) ∧
    (p.getD 2 0 = 1 → LogoLayout rest (header.sectionLength.toNat - 5 - 4 - 5 - loopLength 5 p))

/-- Six bytes, and no event or at least twelve bytes of events. -/
def EitLayout : Prop :=
  let eventLen : ℤ := header.sectionLength.toNat - 5 - 4 - 6
  6 ≤ p.length ∧ (eventLen = 0 ∨ 12 ≤ eventLen) ∧ EntriesFill 12 eventLen (p.drop 6)

end Layouts

/-! ## What is parsed -/

theorem isOk_iff {β : Type} (x : Except ParseError β) : x.isOk = true ↔ ∃ new, x = .ok new := by
  cases x <;> simp [Except.isOk, Except.toBool]

theorem DescriptorsResult.isOk {α : Type} {n : ℤ} {p : List UInt8} {Q : List UInt8 → Prop}
    {F : Except ParseError (List Descriptor × List UInt8) → Except ParseError α}
    {r : Except ParseError (List Descriptor × List UInt8)} (h : DescriptorsResult n p r)
    (herror : ∀ e, F (.error e) = .error e)
    (hok : ∀ descs rest, rest.length ≤ p.length → ((F (.ok (descs, rest))).isOk = true ↔ Q rest)) :
    (F r).isOk = true ↔ ∃ rest, DescriptorsFit n p (some rest) ∧ Q rest := by
  cases h with
  | outside hnot =>
    rw [herror]
    exact iff_of_false Bool.noConfusion fun ⟨rest, hdescs, _⟩ => hnot _ hdescs
  | invalid hnone =>
    rw [herror]
    exact iff_of_false Bool.noConfusion fun ⟨rest, hdescs, _⟩ => by simp [hnone] at hdescs
  | ok descs rest hsome hle =>
    simp only [hsome, Option.some.injEq, exists_eq_left]
    exact hok descs rest hle

section Parts

variable {fix : ℕ} {n : ℤ} {p : List UInt8}

theorem entriesFill_cons (hn : 0 < n) : EntriesFill fix n p ↔
    fix ≤ p.length ∧ ∃ rest, DescriptorsFit (loopLength fix p) (p.drop fix) (some rest) ∧
      (fix + loopLength fix p : ℤ) ≤ n ∧ EntriesFill fix (n - (fix + loopLength fix p)) rest := by
  constructor
  · intro h
    cases h with
    | done hle => omega
    | cons _ hfix hdescs hle hrest => exact ⟨hfix, _, hdescs, hle, hrest⟩
  · rintro ⟨hfix, rest, hdescs, hle, hrest⟩
    exact .cons hn hfix hdescs hle hrest

/-- **The loop over the entries.** -/
theorem isOk_parseParts {β : Type}
    {head : List UInt8 → Option (UInt16 × (List Descriptor → β) × List UInt8)} {fuel : ℕ}
    (hfix : 0 < fix) (hhead : ReadsFixed fix head) (hf : p.length < fuel) :
    (parseParts fix head fuel n p).isOk = true ↔ EntriesFill fix n p := by
  induction fuel generalizing n p with
  | zero => omega
  | succ fuel ih =>
    rw [parseParts]
    by_cases hn : n ≤ 0
    · rw [if_pos hn]
      exact iff_of_true rfl (.done hn)
    rw [if_neg hn]
    rw [Int.not_le] at hn
    rw [entriesFill_cons hn]
    rcases hhead p with ⟨hshort, hnone⟩ | ⟨hlong, len, part, hlen, hsome⟩
    · rw [hnone]
      exact iff_of_false Bool.noConfusion fun h => by omega
    rw [hsome]
    dsimp only
    rw [hlen, and_iff_right hlong]
    have hdescs := parseDescriptors_result (n := loopLength fix p)
      (Nat.lt_succ_self (p.drop fix).length)
    generalize parseDescriptors _ _ _ = r at hdescs
    apply hdescs.isOk (fun _ => rfl)
    intro descs rest hle
    dsimp only
    by_cases hneg : n - (fix + loopLength fix p) < 0
    · rw [if_pos hneg]
      exact iff_of_false Bool.noConfusion fun h => by omega
    · have hlt : rest.length < fuel := by
        rw [List.length_drop] at hle
        omega
      rw [if_neg hneg, ← ih hlt, and_iff_right (by omega)]
      cases parseParts fix head fuel (n - (fix + loopLength fix p)) rest <;> exact Iff.rfl

end Parts

section Tables

variable {header : SectionHeader} {p : List UInt8} {n : ℤ}

theorem isOk_parsePrograms {fuel : ℕ} (hf : p.length < fuel) {m : ℕ} (hm : m % 4 = 0) :
    (parsePrograms fuel m p).isOk = true ↔ m ≤ p.length := by
  induction fuel generalizing m p with
  | zero => omega
  | succ fuel ih =>
    unfold parsePrograms
    by_cases hzero : (m : ℤ) ≤ 0
    · rw [if_pos hzero]
      exact iff_of_true rfl (by omega)
    rw [if_neg hzero]
    match p with
    | [] | [_] | [_, _] | [_, _, _] =>
      refine iff_of_false Bool.noConfusion fun hle => ?_
      simp only [List.length_cons, List.length_nil] at hle
      omega
    | b₀ :: b₁ :: b₂ :: b₃ :: rest =>
      have hrest : (m : ℤ) - 4 = ((m - 4 : ℕ) : ℤ) := by omega
      simp only [List.length_cons] at hf ⊢
      rw [hrest, if_neg (by omega)]
      have hrec := ih (p := rest) (m := m - 4) (by omega) (by omega)
      cases hp : parsePrograms fuel ((m - 4 : ℕ) : ℤ) rest with
      | error e =>
        rw [hp] at hrec
        refine iff_of_false Bool.noConfusion fun hle => ?_
        have hno : ¬ m - 4 ≤ rest.length := fun h => by cases hrec.mpr h
        omega
      | ok l =>
        rw [hp] at hrec
        have hle := hrec.mp rfl
        exact iff_of_true rfl (by omega)

theorem isOk_pat :
    (ProgramAssociationTable.parse header p).isOk = true ↔ PatLayout header p := by
  unfold ProgramAssociationTable.parse PatLayout
  dsimp only
  by_cases hshort : header.dataPartLen.toNat < 4
  · rw [if_pos hshort]
    exact iff_of_false Bool.noConfusion fun h => by omega
  rw [if_neg hshort, and_iff_right (by omega)]
  by_cases hmod : header.dataPartLen.toNat % 4 ≠ 0
  · rw [if_pos hmod]
    exact iff_of_false Bool.noConfusion fun h => hmod h.1
  · rw [ne_eq, not_not] at hmod
    rw [if_neg (by simp [hmod]), and_iff_right hmod,
      ← isOk_parsePrograms (Nat.lt_succ_self p.length) hmod]
    cases parsePrograms _ _ _ <;> exact Iff.rfl

theorem isOk_pmt : (ProgramMapTable.parse header p).isOk = true ↔ PmtLayout header p := by
  match p with
  | [] | [_] | [_, _] | [_, _, _] =>
    exact iff_of_false Bool.noConfusion fun h => absurd h.1 (by simp)
  | b₀ :: b₁ :: b₂ :: b₃ :: p =>
    have hloop : loopLength 4 (b₀ :: b₁ :: b₂ :: b₃ :: p) = (uimsbf12 b₂ b₃).toNat := rfl
    rw [ProgramMapTable.parse]
    simp only [PmtLayout, hloop, List.drop_succ_cons, List.drop_zero]
    rw [and_iff_right (by simp)]
    generalize (header.sectionLength.toNat : ℤ) - (uimsbf12 b₂ b₃).toNat - 5 - 4 - 4 = streamLen
    have hdescs := parseDescriptors_result (n := (uimsbf12 b₂ b₃).toNat) (Nat.lt_succ_self p.length)
    generalize parseDescriptors _ _ _ = r at hdescs
    apply hdescs.isOk (fun _ => rfl)
    intro descs rest _
    dsimp only
    by_cases hshort : streamLen ≤ 5
    · rw [if_pos hshort]
      exact iff_of_false Bool.noConfusion fun h => by omega
    · rw [if_neg hshort, and_iff_right (by omega),
        ← isOk_parseParts (by decide) readsFixed_pmtStream (Nat.lt_succ_self rest.length)]
      cases parseParts _ _ _ _ _ <;> exact Iff.rfl

theorem isOk_cat : (ConditionalAccessTable.parse header p).isOk = true ↔ CatLayout header p := by
  have hdescs := parseDescriptors_result (n := header.sectionLength.toNat - 5 - 4)
    (Nat.lt_succ_self p.length)
  unfold ConditionalAccessTable.parse CatLayout
  generalize parseDescriptors _ _ _ = r at hdescs
  cases hdescs with
  | outside hnot => exact iff_of_false Bool.noConfusion fun ⟨rest, h⟩ => hnot _ h
  | invalid hnone => exact iff_of_false Bool.noConfusion fun ⟨rest, h⟩ => by simp [hnone] at h
  | ok descs rest hsome _ => exact iff_of_true rfl ⟨rest, (hsome _).mpr rfl⟩

theorem isOk_nit : (NetworkInformationTable.parse header p).isOk = true ↔ NitLayout header p := by
  rcases p with _ | ⟨b₀, _ | ⟨b₁, p⟩⟩
  iterate 2
    · exact iff_of_false Bool.noConfusion fun h => absurd h.1 (by simp)
  have hloop : loopLength 2 (b₀ :: b₁ :: p) = (uimsbf12 b₀ b₁).toNat := rfl
  rw [NetworkInformationTable.parse]
  simp only [NitLayout, hloop, List.drop_succ_cons, List.drop_zero]
  rw [and_iff_right (by simp)]
  generalize (header.sectionLength.toNat : ℤ) - 5 - 4 - 2 - (uimsbf12 b₀ b₁).toNat - 2 = streamLen
  have hdescs := parseDescriptors_result (n := (uimsbf12 b₀ b₁).toNat) (Nat.lt_succ_self p.length)
  generalize parseDescriptors _ _ _ = r at hdescs
  apply hdescs.isOk (fun _ => rfl)
  intro descs rest _
  rcases rest with _ | ⟨c₀, _ | ⟨c₁, rest⟩⟩
  iterate 2
    · exact iff_of_false Bool.noConfusion fun h => absurd h.1 (by simp)
  have hloop₂ : loopLength 2 (c₀ :: c₁ :: rest) = (uimsbf12 c₀ c₁).toNat := rfl
  simp only [hloop₂, List.drop_succ_cons, List.drop_zero]
  rw [and_iff_right (by simp)]
  by_cases hshort : streamLen ≤ 6
  · rw [if_pos hshort]
    exact iff_of_false Bool.noConfusion fun h => by omega
  rw [if_neg hshort, and_iff_right (by omega)]
  by_cases hne : streamLen ≠ (uimsbf12 c₀ c₁).toNat
  · rw [if_pos hne]
    exact iff_of_false Bool.noConfusion fun h => hne h.1
  · rw [if_neg hne, and_iff_right (not_not.mp hne),
      ← isOk_parseParts (by decide) readsFixed_nitStream (Nat.lt_succ_self rest.length)]
    cases parseParts _ _ _ _ _ <;> exact Iff.rfl

theorem isOk_sdt : (ServiceDescriptionTable.parse header p).isOk = true ↔ SdtLayout header p := by
  match p with
  | [] | [_] | [_, _] => exact iff_of_false Bool.noConfusion fun h => absurd h.1 (by simp)
  | b₀ :: b₁ :: b₂ :: p =>
    rw [ServiceDescriptionTable.parse]
    simp only [SdtLayout, List.drop_succ_cons, List.drop_zero]
    rw [and_iff_right (by simp)]
    generalize (header.sectionLength.toNat : ℤ) - 5 - 4 - 3 = serviceLen
    by_cases hshort : serviceLen ≤ 5
    · rw [if_pos hshort]
      exact iff_of_false Bool.noConfusion fun h => by omega
    · rw [if_neg hshort, and_iff_right (by omega),
        ← isOk_parseParts (by decide) readsFixed_sdtService (Nat.lt_succ_self p.length)]
      cases parseParts _ _ _ _ _ <;> exact Iff.rfl

theorem isOk_cdtData : (CdtData.parse n p).isOk = true ↔ LogoLayout p n := by
  unfold CdtData.parse LogoLayout
  by_cases hshort : n ≤ 7
  · rw [if_pos hshort]
    exact iff_of_false Bool.noConfusion fun h => by omega
  rw [if_neg hshort, and_iff_right (by omega)]
  match p with
  | [] | [_] | [_, _] | [_, _, _] | [_, _, _, _] | [_, _, _, _, _] | [_, _, _, _, _, _] =>
    exact iff_of_false Bool.noConfusion fun h => absurd h.1 (by simp)
  | _ :: _ :: _ :: _ :: _ :: b₅ :: b₆ :: rest =>
    rw [and_iff_right (by simp)]
    dsimp only
    show _ ↔ n = 7 + (uimsbf16 b₅ b₆).toNat ∧ (uimsbf16 b₅ b₆).toNat ≤ rest.length
    by_cases hne : n ≠ 7 + (uimsbf16 b₅ b₆).toNat
    · rw [if_pos hne]
      exact iff_of_false Bool.noConfusion fun h => hne h.1
    rw [if_neg hne, and_iff_right (not_not.mp hne)]
    by_cases hlt : rest.length < (uimsbf16 b₅ b₆).toNat
    · rw [if_pos hlt]
      exact iff_of_false Bool.noConfusion (Nat.not_le.mpr hlt)
    · rw [if_neg hlt]
      exact iff_of_true rfl (Nat.not_lt.mp hlt)

theorem isOk_cdt : (CommonDataTable.parse header p).isOk = true ↔ CdtLayout header p := by
  match p with
  | [] | [_] | [_, _] | [_, _, _] | [_, _, _, _] =>
    exact iff_of_false Bool.noConfusion fun h => absurd h.1 (by simp)
  | b₀ :: b₁ :: b₂ :: b₃ :: b₄ :: p =>
    have hloop : loopLength 5 (b₀ :: b₁ :: b₂ :: b₃ :: b₄ :: p) = (uimsbf12 b₃ b₄).toNat := rfl
    have htype : (b₀ :: b₁ :: b₂ :: b₃ :: b₄ :: p).getD 2 0 = b₂ := rfl
    rw [CommonDataTable.parse]
    simp only [CdtLayout, hloop, htype, List.drop_succ_cons, List.drop_zero]
    rw [and_iff_right (by simp)]
    generalize (header.sectionLength.toNat : ℤ) - 5 - 4 - 5 - (uimsbf12 b₃ b₄).toNat = dataLen
    have hdescs := parseDescriptors_result (n := (uimsbf12 b₃ b₄).toNat) (Nat.lt_succ_self p.length)
    generalize parseDescriptors _ _ _ = r at hdescs
    apply hdescs.isOk (fun _ => rfl)
    intro descs rest _
    dsimp only
    by_cases hne : b₂ ≠ 1
    · rw [if_pos hne]
      exact iff_of_true rfl fun h => absurd h hne
    · rw [if_neg hne, forall_prop_of_true (not_not.mp hne), ← isOk_cdtData]
      cases CdtData.parse dataLen rest <;> exact Iff.rfl

theorem isOk_eit : (EventInformationTable.parse header p).isOk = true ↔ EitLayout header p := by
  match p with
  | [] | [_] | [_, _] | [_, _, _] | [_, _, _, _] | [_, _, _, _, _] =>
    exact iff_of_false Bool.noConfusion fun h => absurd h.1 (by simp)
  | b₀ :: b₁ :: b₂ :: b₃ :: b₄ :: b₅ :: p =>
    rw [EventInformationTable.parse]
    have hsix : 6 ≤ (b₀ :: b₁ :: b₂ :: b₃ :: b₄ :: b₅ :: p).length := by simp
    simp only [EitLayout, List.drop_succ_cons, List.drop_zero]
    rw [and_iff_right hsix]
    simp only [parseEvents_eq]
    generalize (header.sectionLength.toNat : ℤ) - 5 - 4 - 6 = eventLen
    by_cases hshort : ¬ (eventLen = 0 ∨ eventLen = 12) ∧ eventLen < 12
    · rw [if_pos hshort]
      exact iff_of_false Bool.noConfusion fun h => by omega
    · rw [if_neg hshort, and_iff_right (by omega),
        ← isOk_parseParts (by decide) readsFixed_eitEvent (Nat.lt_succ_self p.length)]
      cases parseParts _ _ _ _ _ <;> exact Iff.rfl

end Tables

/-! ## The classes -/

/-- The class takes the data parts that are laid out so, and no other ones; what lies behind them does
not matter. -/
structure TableClass.Lays {α : Type} (C : TableClass α) (L : SectionHeader → List UInt8 → Prop) :
    Prop where
  isOk : ∀ {header p}, (C.parse header p).isOk = true ↔ L header p
  append : ∀ {header p} m, L header p → L header (p ++ m)

theorem isOutside_of_isOk {β : Type} {x : Except ParseError β} (h : x.isOk = true) :
    isOutside x = false := by
  obtain ⟨new, rfl⟩ := (isOk_iff x).mp h
  rfl

theorem TableClass.Lays.of_behind {α : Type} {C : TableClass α}
    {L : SectionHeader → List UInt8 → Prop}
    (hok : ∀ {header p}, (C.parse header p).isOk = true ↔ L header p)
    (hbehind : ∀ {header p} m, isOutside (C.parse header p) = false →
      C.parse header (p ++ m) = C.parse header p) : C.Lays L where
  isOk := hok
  append m h := by
    have hparse := hok.mpr h
    rwa [← hok, hbehind m (isOutside_of_isOk hparse)]

theorem cat_behind {header : SectionHeader} {p : List UInt8} (m : List UInt8)
    (h : isOutside (ConditionalAccessTable.parse header p) = false) :
    ConditionalAccessTable.parse header (p ++ m) = ConditionalAccessTable.parse header p := by
  unfold ConditionalAccessTable.parse at h ⊢
  have hdescs := parseDescriptors_behind (n := header.sectionLength.toNat - 5 - 4) (p := p) m
  generalize parseDescriptors (p.length + 1) _ p = r at h hdescs ⊢
  rcases r with (_ | _ | _) | ⟨descs, rest⟩
  · rw [hdescs rfl]
    rfl
  · cases h
  · cases h
  · rw [hdescs rfl]
    rfl

theorem lays_pat : patClass.Lays PatLayout where
  isOk := isOk_pat
  append m h := by
    obtain ⟨hfour, hmod, hle⟩ := h
    refine ⟨hfour, hmod, ?_⟩
    rw [List.length_append]
    omega

theorem lays_pmt : pmtClass.Lays PmtLayout := .of_behind isOk_pmt fun m h => pmt_behind m h

theorem lays_cat : catClass.Lays CatLayout := .of_behind isOk_cat fun m h => cat_behind m h

theorem lays_nit : nitClass.Lays NitLayout := .of_behind isOk_nit fun m h => nit_behind m h

theorem lays_sdt : sdtClass.Lays SdtLayout := .of_behind isOk_sdt fun m h => sdt_behind m h

theorem lays_cdt : cdtClass.Lays CdtLayout := .of_behind isOk_cdt fun m h => cdt_behind m h

theorem lays_eit : eitClass.Lays EitLayout := .of_behind isOk_eit fun m h => eit_behind m h

end AutoRec
