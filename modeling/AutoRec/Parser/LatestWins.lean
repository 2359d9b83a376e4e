import AutoRec.Parser.Pieces
import AutoRec.Parser.Tables

/-!
# The latest section wins

* `parseSection`, `parsed`: the tables that the sections received hold.
* `Renews`: a section that is known is the latest one with its key; one that is not known is of
  another version than the latest one.
* `holdsLatest_piece_iff`: behind a section received the tables are the latest ones if and only if
  this is so.
* **`latestWins_reach`**: if it always is, the tables are always the latest ones.
* `not_latestWins`: an older section that comes in again.
-/

namespace AutoRec

open Latest SectionParser

namespace TableKind

variable {α κ : Type} [DecidableEq κ] (K : TableKind α κ)

/-- The table that the section with the bytes `z` holds. -/
def parseSection (z : List UInt8) : Except ParseError α :=
  match parseHeader .zero z .psisi with
  | (h, some k) => K.parse h (z.drop k)
  | (h, none) => throughNull (K.parse h [])

/-- The tables that the sections `R` hold. -/
def parsed (R : List (List UInt8)) : List α := R.filterMap fun z => (K.parseSection z).toOption

/-- A section that is known is the latest one with its key; one that is not known is of another
version than the latest one. -/
def Renews (l : List α) : Bool → α → Prop
  | true, t => latest K.key l (K.key t) = some t
  | false, t => ∀ x ∈ latest K.key l (K.key t), K.version t ≠ K.version x

instance [DecidableEq α] (l : List α) (known : Bool) : DecidablePred (K.Renews l known) :=
  match known with
  | true => fun _ => inferInstanceAs (Decidable (_ = _))
  | false => fun t => inferInstanceAs (Decidable (∀ x ∈ latest K.key l (K.key t), _ ≠ _))

/-- A section that is received is valid. -/
def PieceValid (p : Feed (List α)) (piece : Piece) : Prop :=
  HeaderOk piece ∧
    ∀ r ∈ received K.hooks p.1 piece, (K.parseSection r.2).toOption.isSome = true

/-- It is valid, and what is done with it is right. -/
def PieceRenews (p : Feed (List α)) (piece : Piece) : Prop :=
  HeaderOk piece ∧
    ∀ r ∈ received K.hooks p.1 piece, ∃ t ∈ (K.parseSection r.2).toOption,
      K.Renews (K.parsed p.2) r.1 t

instance (p : Feed (List α)) : DecidablePred (K.PieceValid p) :=
  fun _ => inferInstanceAs (Decidable (_ ∧ _))

instance [DecidableEq α] (p : Feed (List α)) : DecidablePred (K.PieceRenews p) :=
  fun _ => inferInstanceAs (Decidable (_ ∧ _))

/-- The payload has a length that a `size_t` can hold, and all pieces of the packet meet `ok`. -/
def FeedOk (ok : Feed (List α) → Piece → Prop) [∀ p piece, Decidable (ok p piece)]
    (p : Feed (List α)) (packet : Bool × List UInt8) : Prop :=
  packet.2.length < 2 ^ 64 ∧
    Machine.execOk (pieceStep K.hooks) ok p (packetPieces K.hooks p.1 packet) = true

instance (ok : Feed (List α) → Piece → Prop) [∀ p piece, Decidable (ok p piece)]
    (p : Feed (List α)) : DecidablePred (K.FeedOk ok p) :=
  fun _ => inferInstanceAs (Decidable (_ ∧ _))

/-- **The tables are the latest ones**: there is one for each key received so far, and it is what
the last section with this key holds. -/
def IsLatest (p : Feed (List α)) : Prop :=
  HoldsLatest K.key (K.parsed p.2) p.1.ext

variable {K} {P : ℕ} {s : SectionParser (List α)} {I : Inbox} {R : List (List UInt8)}
  {piece : Piece} {p q : Feed (List α)}

theorem keepsState_hooks : KeepsState K.hooks := fun _ _ _ => rfl

omit [DecidableEq κ] in
theorem parseInfo_of_faithful {c : Call} (h : c.Faithful) :
    K.parseInfo c.info c.bytes = K.parseSection c.bytes := by
  obtain ⟨k, hk, hdata⟩ := h.header
  have hwithin : c.info.data.within c.info.raw = some (k : ℤ) := by
    rw [hdata, Ptr.within]
    congr 1
    omega
  rw [parseInfo, parseSection, hk, hwithin]
  simp

omit [DecidableEq κ] in
theorem parsed_concat {z : List UInt8} {t : α} (h : K.parseSection z = .ok t) :
    K.parsed (R ++ [z]) = K.parsed R ++ [t] := by
  simp [parsed, h, Except.toOption]

/-- **Behind a section received** the tables are the latest ones if and only if it is known and the
latest one with its key, or not known and of another version. -/
theorem holdsLatest_piece_iff (hsim : Sim P s I) (hI : HeadersOk I) (hne : piece.bytes ≠ [])
    (hheader : HeaderOk piece) (h : K.IsLatest (s, R)) {r : Bool × List UInt8}
    (hr : received K.hooks s piece = some r) {t : α} (ht : K.parseSection r.2 = .ok t) :
    K.IsLatest (pieceState K.hooks s piece, R ++ [r.2]) ↔ K.Renews (K.parsed R) r.1 t := by
  obtain ⟨I', hsim', hpasses, hI'⟩ := hsim.piece (H := K.hooks) hne
  have hmoves : Moves K.hooks s (pieceState K.hooks s piece) := moves_piece keepsState_hooks piece
  rw [IsLatest, parsed_concat ht]
  rw [hr] at hpasses
  generalize hcalls : (pieceState K.hooks s piece).calls = calls at hpasses
  cases hpasses with
  | known =>
    rw [hmoves.stays hcalls]
    exact h.kept_iff
  | @passed c =>
    have hfaithful : c.Faithful := by
      apply (hI' hheader hI).faithful
      rw [← hsim'.calls, hcalls]
      simp
    rw [hmoves.ext_eq hcalls, K.hooks_completed ((parseInfo_of_faithful hfaithful).trans ht)]
    exact h.replaced_iff

variable (K P) in
/-- What the run of the pieces keeps. -/
def Good (p : Feed (List α)) : Prop :=
  (∃ I, Sim P p.1 I ∧ HeadersOk I) ∧ K.IsLatest p

theorem Good.pieceStep [DecidableEq α] (h : K.Good P p) (hok : K.PieceRenews p piece)
    (hq : SectionParser.pieceStep K.hooks p piece = some q) : K.Good P q := by
  obtain ⟨s, R⟩ := p
  obtain ⟨⟨I, hsim, hI⟩, hlatest⟩ := h
  obtain ⟨hheader, hrenews⟩ := hok
  rw [SectionParser.pieceStep, Option.ite_none_left_eq_some, Option.some.injEq] at hq
  obtain ⟨hne, rfl⟩ := hq
  obtain ⟨I', hsim', hpasses, hI'⟩ := hsim.piece (H := K.hooks) hne
  refine ⟨⟨I', hsim', hI' hheader hI⟩, ?_⟩
  cases hr : received K.hooks s piece with
  | none =>
    rw [hr] at hpasses
    generalize hcalls : (pieceState K.hooks s piece).calls = calls at hpasses
    cases hpasses
    have hext := (moves_piece keepsState_hooks piece).stays hcalls
    simpa [IsLatest, receivedBytes, hext] using hlatest
  | some r =>
    obtain ⟨t, ht, hrenew⟩ := hrenews r hr
    have hparse : K.parseSection r.2 = .ok t := by
      cases hp : K.parseSection r.2 with
      | ok t' => simpa [hp, Except.toOption] using ht
      | error e => simp [hp, Except.toOption] at ht
    exact (holdsLatest_piece_iff hsim hI hne hheader hlatest hr hparse).mpr hrenew

theorem Good.feedStep [DecidableEq α] {packet : Bool × List UInt8} (h : K.Good P p)
    (hok : K.FeedOk K.PieceRenews p packet) (hq : SectionParser.feedStep K.hooks p packet = some q) :
    K.Good P q := by
  obtain ⟨s, R⟩ := p
  obtain ⟨t, ht, rfl⟩ := Option.map_eq_some_iff.mp hq
  obtain ⟨⟨r, t⟩, hcheck, rfl⟩ := Option.map_eq_some_iff.mp ht
  exact (Machine.reach_of_execOk hok.2 (exec_packetPieces hcheck)).inv (K.Good P) h
    fun _ _ _ hp hpiece hstep => hp.pieceStep hpiece hstep

theorem good_reach [DecidableEq α] {fifoNum : ℤ}
    (h : Machine.Reach (SectionParser.feedStep K.hooks) (K.FeedOk K.PieceRenews)
      (create P fifoNum .psisi [], []) p) : K.Good P p := by
  apply h.inv (K.Good P) _ fun _ _ _ hp hok hstep => hp.feedStep hok hstep
  exact ⟨⟨_, create_sim P fifoNum .psisi [], by simp, by simp⟩, holdsLatest_nil⟩

variable (K) in
/-- The tables are the latest ones, and they are behind each section of the next packet as well. -/
def StaysLatest [DecidableEq α] (p : Feed (List α)) : Prop :=
  K.IsLatest p ∧ ∀ packet, K.FeedOk K.PieceRenews p packet →
    ∀ l, l <+: packetPieces K.hooks p.1 packet →
      ∃ q, Machine.exec (SectionParser.pieceStep K.hooks) p l = some q ∧ K.IsLatest q

theorem Good.staysLatest [DecidableEq α] (h : K.Good P p) : K.StaysLatest p := by
  refine ⟨h.2, fun packet hok l hl => ?_⟩
  obtain ⟨l', hl'⟩ := hl
  have hexec := hok.2
  rw [← hl'] at hexec
  obtain ⟨q, hq, hreach⟩ := Machine.reach_of_execOk_append hexec
  exact ⟨q, hq, (hreach.inv (K.Good P) h fun _ _ _ hp hpiece hstep => hp.pieceStep hpiece hstep).2⟩

end TableKind

/-- **The latest section wins**, in every run in which each section that is received is valid, is
the latest one with its key if it is known, and is of another version than that one if it is not. -/
theorem latestWins_reach (poolSize : ℕ) (fifoNum : ℤ) :
    (∀ p, Machine.Reach (feedStep eventInformationTable.hooks)
        (eventInformationTable.FeedOk eventInformationTable.PieceRenews)
        (create poolSize fifoNum .psisi [], []) p → eventInformationTable.StaysLatest p) ∧
    ∀ p, Machine.Reach (feedStep programAssociationTable.hooks)
        (programAssociationTable.FeedOk programAssociationTable.PieceRenews)
        (create poolSize fifoNum .psisi [], []) p → programAssociationTable.StaysLatest p :=
  ⟨fun _ h => (TableKind.good_reach h).staysLatest, fun _ h => (TableKind.good_reach h).staysLatest⟩

/-- The events of a service, with the version number 1. -/
def eitFirst : List UInt8 := [78, 240, 15, 4, 0, 195, 0, 1, 0, 1, 0, 4, 1, 78, 14, 119, 218, 163]

/-- The events of the same service, with the version number 2. -/
def eitSecond : List UInt8 := [78, 240, 15, 4, 0, 197, 0, 1, 0, 1, 0, 4, 1, 78, 43, 246, 28, 153]

/-- A section, the same section again, and a new version; and the same for programs, in one packet.
-/
theorem latestWins_reach_newVersion :
    (∃ p, Machine.exec (feedStep eventInformationTable.hooks) (create 256 100 .psisi [], [])
      [(true, 0 :: eitFirst), (true, 0 :: eitFirst), (true, 0 :: eitSecond)] = some p ∧
      p.2.length = 3 ∧ eventInformationTable.StaysLatest p) ∧
    ∃ p, Machine.exec (feedStep programAssociationTable.hooks) (create 256 100 .psisi [], [])
      [(true, 0 :: [0, 176, 13, 0, 4, 195, 0, 0, 4, 0, 225, 240, 179, 37, 33, 129,
        0, 176, 13, 0, 4, 197, 0, 0, 4, 0, 225, 241, 16, 214, 81, 231])] = some p ∧
      p.2.length = 2 ∧ programAssociationTable.StaysLatest p := by
  constructor
  · have hrun : Machine.execOk (feedStep eventInformationTable.hooks)
          (eventInformationTable.FeedOk eventInformationTable.PieceRenews)
          (create 256 100 .psisi [], [])
          [(true, 0 :: eitFirst), (true, 0 :: eitFirst), (true, 0 :: eitSecond)] = true ∧
        (Machine.exec (feedStep eventInformationTable.hooks) (create 256 100 .psisi [], [])
          [(true, 0 :: eitFirst), (true, 0 :: eitFirst), (true, 0 :: eitSecond)]).map
            (fun p => p.2.length) = some 3 := by
      decide
    obtain ⟨p, hp, hreach, hl⟩ := Machine.exists_of_execOk hrun
    exact ⟨p, hp, hl, (latestWins_reach 256 100).1 p hreach⟩
  · have hrun : Machine.execOk (feedStep programAssociationTable.hooks)
          (programAssociationTable.FeedOk programAssociationTable.PieceRenews)
          (create 256 100 .psisi [], [])
          [(true, 0 :: [0, 176, 13, 0, 4, 195, 0, 0, 4, 0, 225, 240, 179, 37, 33, 129,
            0, 176, 13, 0, 4, 197, 0, 0, 4, 0, 225, 241, 16, 214, 81, 231])] = true ∧
        (Machine.exec (feedStep programAssociationTable.hooks) (create 256 100 .psisi [], [])
          [(true, 0 :: [0, 176, 13, 0, 4, 195, 0, 0, 4, 0, 225, 240, 179, 37, 33, 129,
            0, 176, 13, 0, 4, 197, 0, 0, 4, 0, 225, 241, 16, 214, 81, 231])]).map
              (fun p => p.2.length) = some 2 := by
      decide +kernel
    obtain ⟨p, hp, hreach, hl⟩ := Machine.exists_of_execOk hrun
    exact ⟨p, hp, hl, (latestWins_reach 256 100).2 p hreach⟩

/-- The older section comes in again while the parser still knows it: it is not passed on, and the
table is not the one received last. -/
theorem not_latestWins : ∃ p,
    Machine.Reach (feedStep eventInformationTable.hooks)
      (fun p packet => packet.2.length ≤ 184 ∧
        eventInformationTable.FeedOk eventInformationTable.PieceValid p packet)
      (create 256 100 .psisi [], []) p ∧ ¬ eventInformationTable.IsLatest p := by
  let packets : List (Bool × List UInt8) :=
    [(true, 0 :: eitFirst), (true, 0 :: eitSecond), (true, 0 :: eitFirst)]
  have hrun : Machine.execOk (feedStep eventInformationTable.hooks)
        (fun p packet => packet.2.length ≤ 184 ∧
          eventInformationTable.FeedOk eventInformationTable.PieceValid p packet)
        (create 256 100 .psisi [], []) packets = true ∧
      (Machine.exec (feedStep eventInformationTable.hooks) (create 256 100 .psisi [], [])
        packets).map (fun p => (p.1.ext.map eventInformationTable.version,
          (latest eventInformationTable.key (eventInformationTable.parsed p.2)
            ⟨0x4e, 1024, 1, 4, 0⟩).map eventInformationTable.version)) = some ([2], some 1) := by
    decide
  obtain ⟨p, -, hreach, hrest⟩ := Machine.exists_of_execOk hrun
  obtain ⟨htables, hlatest⟩ := Prod.mk.inj hrest
  refine ⟨p, hreach, fun h => ?_⟩
  obtain ⟨t, ht, hversion⟩ := Option.map_eq_some_iff.mp hlatest
  have hmem : t ∈ p.1.ext := by
    have hkey := h ⟨0x4e, 1024, 1, 4, 0⟩
    rw [ht] at hkey
    have hfilter : t ∈ p.1.ext.filter fun t =>
        eventInformationTable.key t = ⟨0x4e, 1024, 1, 4, 0⟩ := by
      rw [hkey]
      exact List.mem_singleton_self t
    exact (List.mem_filter.mp hfilter).1
  have hone : (1 : UInt8) ∈ p.1.ext.map eventInformationTable.version :=
    List.mem_map.mpr ⟨t, hmem, hversion⟩
  rw [htables] at hone
  simp at hone

end AutoRec
