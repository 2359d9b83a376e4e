import AutoRec.Parser.Bounds
import AutoRec.Parser.Numbers

/-!
# The grammar of an event information table

What `event_information_table::parse` and `event_information_table_sched::parse` accept, and what
their tables say when the events are written as bytes again. The loop over the descriptors of an
event goes on by the length of each descriptor, and the loop over the events goes on by the length
that the event gives for its descriptors: a last descriptor that is too long puts the two out of
step.

* `EitPart`: an event as bytes; `EitPart.Filled`, `Reaches`: the descriptors are as long as
  the event says, or the last one may be too long. `IsEventSequence`: the grammar.
* `parseDescriptors_eq_ok_iff`, `parseEvents_eq_ok_iff`: what the loops accept.
* `parse_eq_ok_iff`: what a section is parsed to.
* `EitEvent.bytes`: the event written as bytes.
* `ParsesExactly`, `NoneTooLong`; **`parsesExactly_iff`**.
-/

namespace AutoRec

/-! ## Events as bytes -/

/-- A descriptor as bytes. -/
def Descriptor.bytes (d : Descriptor) : List UInt8 := d.tag :: d.length :: d.data

/-- The length of a descriptor is that of its data, at least 1. -/
structure Descriptor.WellFormed (d : Descriptor) : Prop where
  length_ne : d.length ≠ 0
  data_length : d.data.length = d.length.toNat

/-- The bytes of descriptors. -/
def descriptorsBytes (l : List Descriptor) : List UInt8 := l.flatMap Descriptor.bytes

/-- An event: its header and its descriptors. -/
structure EitPart where
  header : List UInt8
  descriptors : List Descriptor

namespace EitPart

variable (x : EitPart)

/-- The event as bytes. -/
def bytes : List UInt8 := x.header ++ descriptorsBytes x.descriptors

/-- The header has 12 bytes. -/
structure WellFormed : Prop where
  header : x.header.length = 12
  descriptors : ∀ d ∈ x.descriptors, d.WellFormed

/-- `descriptors_loop_length`, the last 12 bits of the header. -/
def descriptorsLoopLength : ℕ := loopLength 12 x.header

/-- The descriptors fill exactly so many bytes. -/
def Filled : Prop := (descriptorsBytes x.descriptors).length = x.descriptorsLoopLength

end EitPart

/-- The descriptors take `n` bytes or more, and without the last one they take less. -/
def Reaches (n : ℤ) (l : List Descriptor) : Prop :=
  n ≤ (descriptorsBytes l).length ∧ (l ≠ [] → ((descriptorsBytes l.dropLast).length : ℤ) < n)

/-- **The grammar**: events that are filled, one behind the other. -/
def IsEventSequence (data : List UInt8) : Prop :=
  ∃ parts : List EitPart, (∀ x ∈ parts, x.WellFormed ∧ x.Filled) ∧ data = parts.flatMap EitPart.bytes

/-- What the lengths lead through, with `n` bytes to go: events whose last descriptors may be too
long, and whose own lengths make up `n`. -/
structure Walk (n : ℤ) (p : List UInt8) (parts : List EitPart) : Prop where
  wellFormed : ∀ x ∈ parts, x.WellFormed
  reaches : ∀ x ∈ parts, Reaches x.descriptorsLoopLength x.descriptors
  bytes_prefix : parts.flatMap EitPart.bytes <+: p
  sum_eq : (((parts.map fun x => 12 + x.descriptorsLoopLength).sum : ℕ) : ℤ) = n

/-! ## The loops -/

section Descriptors

variable {d : Descriptor} {l : List Descriptor} {n : ℤ} {fuel : ℕ} {p rest : List UInt8}

theorem descriptorsBytes_cons : descriptorsBytes (d :: l) = d.bytes ++ descriptorsBytes l :=
  List.flatMap_cons

theorem Descriptor.WellFormed.length_bytes (h : d.WellFormed) :
    d.bytes.length = 2 + d.length.toNat := by
  rw [bytes, List.length_cons, List.length_cons, h.data_length]
  omega

theorem Descriptor.parse_eq_ok_iff :
    Descriptor.parse p = .ok (d, rest) ↔ d.WellFormed ∧ p = d.bytes ++ rest := by
  constructor
  · intro h
    match p with
    | [] | [_] => cases h
    | tag :: len :: t =>
      rw [Descriptor.parse] at h
      split_ifs at h with hzero hshort
      cases h
      refine ⟨⟨hzero, ?_⟩, ?_⟩
      · rw [List.length_take]
        dsimp only
        omega
      · rw [bytes, List.cons_append, List.cons_append, List.take_append_drop]
  · rintro ⟨⟨hne, hlen⟩, rfl⟩
    rw [bytes, List.cons_append, List.cons_append, Descriptor.parse, if_neg hne,
      if_neg (by rw [List.length_append]; omega), ← hlen, List.take_left, List.drop_left]

theorem reaches_nil_iff : Reaches n [] ↔ n ≤ 0 := by
  constructor
  · rintro ⟨hle, -⟩
    exact hle
  · intro h
    exact ⟨h, fun hne => absurd rfl hne⟩

theorem length_descriptorsBytes_cons :
    ((descriptorsBytes (d :: l)).length : ℤ) = d.bytes.length + (descriptorsBytes l).length := by
  rw [descriptorsBytes_cons, List.length_append, Int.natCast_add]

theorem reaches_cons_iff : Reaches n (d :: l) ↔ 0 < n ∧ Reaches (n - d.bytes.length) l := by
  unfold Reaches
  rw [length_descriptorsBytes_cons]
  cases l with
  | nil =>
    have hnil : ((descriptorsBytes []).length : ℤ) = 0 := rfl
    rw [List.dropLast_singleton, hnil]
    simp only [ne_eq, reduceCtorEq, not_false_eq_true, forall_const, not_true_eq_false,
      false_implies, and_true]
    omega
  | cons e t =>
    have hdrop := length_descriptorsBytes_cons (d := d) (l := (e :: t).dropLast)
    rw [List.dropLast_cons_cons]
    simp only [ne_eq, reduceCtorEq, not_false_eq_true, forall_const]
    omega

theorem parseDescriptors_bytes_append (hn : 0 < n) (hd : d.WellFormed) :
    parseDescriptors (fuel + 1) n (d.bytes ++ rest) =
      match parseDescriptors fuel (n - d.bytes.length) rest with
      | .error e => .error e
      | .ok (l, t) => .ok (d :: l, t) := by
  have htwo : (d.bytes.length : ℤ) = 2 + d.length.toNat := by
    rw [hd.length_bytes, Int.natCast_add]
    rfl
  have hparse : Descriptor.parse (d.bytes ++ rest) = .ok (d, rest) :=
    Descriptor.parse_eq_ok_iff.mpr ⟨hd, rfl⟩
  rw [htwo]
  cases hrec : parseDescriptors fuel (n - (2 + d.length.toNat)) rest <;>
    simp only [parseDescriptors, if_neg (Int.not_le.mpr hn), hparse, hrec]

theorem exists_descriptor (hn : 0 < n) (h : parseDescriptors (fuel + 1) n p = .ok (l, rest)) :
    ∃ d t, Descriptor.WellFormed d ∧ p = d.bytes ++ t := by
  rw [parseDescriptors, if_neg (Int.not_le.mpr hn)] at h
  cases hd : Descriptor.parse p with
  | error e =>
    rw [hd] at h
    cases h
  | ok x =>
    obtain ⟨hwf, hp⟩ := Descriptor.parse_eq_ok_iff.mp hd
    exact ⟨x.1, x.2, hwf, hp⟩

/-- **The loop over the descriptors** accepts descriptors that reach the length. -/
theorem parseDescriptors_eq_ok_iff (hf : p.length < fuel) :
    parseDescriptors fuel n p = .ok (l, rest) ↔
      (∀ d ∈ l, d.WellFormed) ∧ Reaches n l ∧ p = descriptorsBytes l ++ rest := by
  induction fuel generalizing n p l with
  | zero => omega
  | succ fuel ih =>
    by_cases hn : n ≤ 0
    · rw [parseDescriptors, if_pos hn, Except.ok.injEq, Prod.mk.injEq]
      constructor
      · rintro ⟨rfl, rfl⟩
        exact ⟨fun d hd => absurd hd List.not_mem_nil, reaches_nil_iff.mpr hn, rfl⟩
      · rintro ⟨-, hreach, rfl⟩
        cases l with
        | nil => exact ⟨rfl, rfl⟩
        | cons d l => exact absurd (reaches_cons_iff.mp hreach).1 (Int.not_lt.mpr hn)
    · rw [Int.not_le] at hn
      have hlt : ∀ {d : Descriptor} {t : List UInt8}, (d.bytes ++ t).length < fuel + 1 →
          t.length < fuel := by
        intro d t hlen
        rw [List.length_append, Descriptor.bytes, List.length_cons] at hlen
        omega
      constructor
      · intro h
        obtain ⟨d, t, hwf, rfl⟩ := exists_descriptor hn h
        rw [parseDescriptors_bytes_append hn hwf] at h
        cases hl : parseDescriptors fuel (n - d.bytes.length) t with
        | error e =>
          rw [hl] at h
          cases h
        | ok y =>
          rw [hl] at h
          cases h
          obtain ⟨hall, hreach, rfl⟩ := (ih (hlt hf)).mp hl
          refine ⟨List.forall_mem_cons.mpr ⟨hwf, hall⟩, reaches_cons_iff.mpr ⟨hn, hreach⟩, ?_⟩
          rw [descriptorsBytes_cons, List.append_assoc]
      · rintro ⟨hall, hreach, rfl⟩
        cases l with
        | nil => exact absurd hn (Int.not_lt.mpr (reaches_nil_iff.mp hreach))
        | cons d l =>
          obtain ⟨hwf, hall⟩ := List.forall_mem_cons.mp hall
          rw [descriptorsBytes_cons, List.append_assoc] at hf ⊢
          have hloop := (ih (hlt hf)).mpr ⟨hall, (reaches_cons_iff.mp hreach).2, rfl⟩
          rw [parseDescriptors_bytes_append hn hwf, hloop]

end Descriptors

/-! ## Events -/

/-- The event of a header and its descriptors. -/
def EitPart.event (x : EitPart) : EitEvent where
  eventId := uimsbf16 (x.header.getD 0 0) (x.header.getD 1 0)
  startTime := (x.header.drop 2).take 5
  duration := (x.header.drop 7).take 3
  runningStatus := (x.header.getD 10 0 >>> 5) &&& 0x07
  freeCAMode := (x.header.getD 10 0 >>> 4) &&& 0x01
  descriptorsLoopLength := uimsbf12 (x.header.getD 10 0) (x.header.getD 11 0)
  descriptors := x.descriptors

/-- The event written as bytes. -/
def EitEvent.bytes (e : EitEvent) : List UInt8 :=
  bytesOf 2 e.eventId.toNat ++ e.startTime ++ e.duration ++
    bytesOf 2 (packed [(3, e.runningStatus.toNat), (1, e.freeCAMode.toNat),
      (12, e.descriptorsLoopLength.toNat)]) ++ descriptorsBytes e.descriptors

section Events

variable {x : EitPart} {n : ℤ} {fuel : ℕ} {p rest : List UInt8} {parts : List EitPart}

theorem bytesOf_packed_loop (b₀ b₁ : UInt8) : bytesOf 2 (packed [(3, ((b₀ >>> 5) &&& 0x07).toNat),
    (1, ((b₀ >>> 4) &&& 0x01).toNat), (12, (uimsbf12 b₀ b₁).toNat)]) = [b₀, b₁] := by
  have h₀ := b₀.toNat_lt
  have h₁ := b₁.toNat_lt
  have h₅ : ((b₀ >>> 5) &&& 0x07).toNat = b₀.toNat / 32 := by
    have hand : ((b₀ >>> 5) &&& 0x07).toNat = (b₀ >>> 5).toNat % 8 :=
      Nat.and_two_pow_sub_one_eq_mod _ 3
    have hshift : (b₀ >>> 5).toNat = b₀.toNat / 32 := by
      rw [UInt8.toNat_shiftRight, Nat.shiftRight_eq_div_pow]
      rfl
    omega
  have h₄ : ((b₀ >>> 4) &&& 0x01).toNat = b₀.toNat / 16 % 2 := by
    have hand : ((b₀ >>> 4) &&& 0x01).toNat = (b₀ >>> 4).toNat % 2 :=
      Nat.and_two_pow_sub_one_eq_mod _ 1
    have hshift : (b₀ >>> 4).toNat = b₀.toNat / 16 := by
      rw [UInt8.toNat_shiftRight, Nat.shiftRight_eq_div_pow]
      rfl
    omega
  rw [h₅, h₄, toNat_uimsbf12]
  have hpacked : packed [(3, b₀.toNat / 32), (1, b₀.toNat / 16 % 2),
      (12, b₀.toNat % 16 * 256 + b₁.toNat)] = b₀.toNat * 256 + b₁.toNat := by
    simp only [packed, List.foldl_cons, List.foldl_nil]
    omega
  rw [hpacked, bytesOf_two_eq_iff (by omega)]

/-- **An event is written as the bytes** it has been read from. -/
theorem EitPart.bytes_event (h : x.header.length = 12) : x.event.bytes = x.bytes := by
  obtain ⟨header, descs⟩ := x
  match header, h with
  | [i₀, i₁, s₀, s₁, s₂, s₃, s₄, d₀, d₁, d₂, b₁₀, b₁₁], _ =>
    show bytesOf 2 (uimsbf16 i₀ i₁).toNat ++ [s₀, s₁, s₂, s₃, s₄] ++ [d₀, d₁, d₂] ++
      bytesOf 2 (packed [(3, ((b₁₀ >>> 5) &&& 0x07).toNat), (1, ((b₁₀ >>> 4) &&& 0x01).toNat),
        (12, (uimsbf12 b₁₀ b₁₁).toNat)]) ++ descriptorsBytes descs = _
    rw [bytesOf_uimsbf16, bytesOf_packed_loop]
    rfl

theorem EitEvent.head_append {header : List UInt8} (h : header.length = 12) :
    EitEvent.head (header ++ rest) =
      some (uimsbf12 (header.getD 10 0) (header.getD 11 0),
        fun descs => (EitPart.mk header descs).event, rest) := by
  match header, h with
  | [i₀, i₁, s₀, s₁, s₂, s₃, s₄, d₀, d₁, d₂, b₁₀, b₁₁], _ => rfl

theorem walk_nil_iff : Walk n p [] ↔ n = 0 := by
  constructor
  · intro h
    exact h.sum_eq.symm
  · rintro rfl
    exact ⟨fun x hx => absurd hx List.not_mem_nil, fun x hx => absurd hx List.not_mem_nil,
      List.nil_prefix, rfl⟩

theorem walk_cons_iff : Walk n (x.bytes ++ rest) (x :: parts) ↔
    x.WellFormed ∧ Reaches x.descriptorsLoopLength x.descriptors ∧
      Walk (n - (12 + x.descriptorsLoopLength)) rest parts := by
  constructor
  · rintro ⟨hwf, hreach, hprefix, hsum⟩
    obtain ⟨hx, hwf⟩ := List.forall_mem_cons.mp hwf
    obtain ⟨hxr, hreach⟩ := List.forall_mem_cons.mp hreach
    refine ⟨hx, hxr, hwf, hreach, ?_, ?_⟩
    · rw [List.flatMap_cons] at hprefix
      exact (List.prefix_append_right_inj _).mp hprefix
    · rw [List.map_cons, List.sum_cons, Int.natCast_add, Int.natCast_add] at hsum
      omega
  · rintro ⟨hx, hxr, hwf, hreach, hprefix, hsum⟩
    refine ⟨List.forall_mem_cons.mpr ⟨hx, hwf⟩, List.forall_mem_cons.mpr ⟨hxr, hreach⟩, ?_, ?_⟩
    · rw [List.flatMap_cons]
      exact (List.prefix_append_right_inj _).mpr hprefix
    · rw [List.map_cons, List.sum_cons, Int.natCast_add, Int.natCast_add, hsum]
      omega

theorem exists_header {y : UInt16 × (List Descriptor → EitEvent) × List UInt8}
    (h : EitEvent.head p = some y) : ∃ header rest, header.length = 12 ∧ p = header ++ rest := by
  refine ⟨p.take 12, p.drop 12, ?_, (List.take_append_drop 12 p).symm⟩
  rcases readsFixed_eitEvent p with ⟨-, hnone⟩ | ⟨hle, -⟩
  · cases hnone.symm.trans h
  · rw [List.length_take]
    exact Nat.min_eq_left hle

/-- One turn of the loop over the events, at an event. -/
theorem parseParts_bytes_append (hn : ¬ n ≤ 0) (hx : x.WellFormed)
    (hreach : Reaches x.descriptorsLoopLength x.descriptors) :
    parseParts 12 EitEvent.head (fuel + 1) n (x.bytes ++ rest) =
      if n - (12 + x.descriptorsLoopLength) < 0 then .error .invalid
      else
        match parseParts 12 EitEvent.head fuel (n - (12 + x.descriptorsLoopLength)) rest with
        | .error e => .error e
        | .ok events => .ok (x.event :: events) := by
  have hdescs : parseDescriptors ((descriptorsBytes x.descriptors ++ rest).length + 1)
      x.descriptorsLoopLength (descriptorsBytes x.descriptors ++ rest) = .ok (x.descriptors, rest) :=
    (parseDescriptors_eq_ok_iff (Nat.lt_succ_self _)).mpr ⟨hx.descriptors, hreach, rfl⟩
  have hlen : (uimsbf12 (x.header.getD 10 0) (x.header.getD 11 0)).toNat =
    x.descriptorsLoopLength := rfl
  rw [parseParts, if_neg hn, EitPart.bytes, List.append_assoc, EitEvent.head_append hx.header]
  have htwelve : ((12 : ℕ) : ℤ) = 12 := rfl
  dsimp only
  rw [hlen, hdescs]
  dsimp only
  rw [htwelve]
  split_ifs
  · rfl
  · cases parseParts 12 EitEvent.head fuel (n - (12 + x.descriptorsLoopLength)) rest <;> rfl

theorem exists_bytes_append {events : List EitEvent} (hn : ¬ n ≤ 0)
    (h : parseParts 12 EitEvent.head (fuel + 1) n p = .ok events) :
    ∃ (x : EitPart) (rest : List UInt8), x.WellFormed ∧
      Reaches x.descriptorsLoopLength x.descriptors ∧ p = x.bytes ++ rest := by
  rw [parseParts, if_neg hn] at h
  cases hhead : EitEvent.head p with
  | none =>
    rw [hhead] at h
    cases h
  | some y =>
    obtain ⟨header, rest, hlen, rfl⟩ := exists_header hhead
    rw [EitEvent.head_append hlen] at h
    dsimp only at h
    cases hdescs : parseDescriptors (rest.length + 1)
        (uimsbf12 (header.getD 10 0) (header.getD 11 0)).toNat rest with
    | error e =>
      rw [hdescs] at h
      cases h
    | ok z =>
      obtain ⟨hall, hreach, rfl⟩ := (parseDescriptors_eq_ok_iff (Nat.lt_succ_self _)).mp hdescs
      exact ⟨⟨header, z.1⟩, z.2, ⟨hlen, hall⟩, hreach, (List.append_assoc _ _ _).symm⟩

/-- **The loop over the events** accepts what the lengths lead through. -/
theorem parseEvents_eq_ok_iff {events : List EitEvent} (hn : 0 ≤ n) (hf : p.length < fuel) :
    parseEvents fuel n p = .ok events ↔
      ∃ parts, Walk n p parts ∧ events = parts.map EitPart.event := by
  rw [parseEvents_eq]
  induction fuel generalizing n p events with
  | zero => omega
  | succ fuel ih =>
    by_cases hzero : n ≤ 0
    · obtain rfl : n = 0 := Int.le_antisymm hzero hn
      rw [parseParts, if_pos hzero, Except.ok.injEq]
      constructor
      · rintro rfl
        exact ⟨[], walk_nil_iff.mpr rfl, rfl⟩
      · rintro ⟨parts, hwalk, rfl⟩
        cases parts with
        | nil => rfl
        | cons x parts =>
          have hsum := hwalk.sum_eq
          rw [List.map_cons, List.sum_cons] at hsum
          omega
    · have hlt : ∀ {x : EitPart} {rest : List UInt8}, x.WellFormed →
          (x.bytes ++ rest).length < fuel + 1 → rest.length < fuel := by
        intro x rest hx hlen
        rw [EitPart.bytes, List.length_append, List.length_append, hx.header] at hlen
        omega
      constructor
      · intro h
        obtain ⟨x, rest, hx, hreach, rfl⟩ := exists_bytes_append hzero h
        rw [parseParts_bytes_append hzero hx hreach] at h
        split_ifs at h with hneg
        cases hparts :
          parseParts 12 EitEvent.head fuel (n - (12 + x.descriptorsLoopLength)) rest with
        | error e =>
          rw [hparts] at h
          cases h
        | ok l =>
          obtain ⟨parts, hwalk, rfl⟩ := (ih (by omega) (hlt hx hf)).mp hparts
          rw [hparts] at h
          cases h
          exact ⟨x :: parts, walk_cons_iff.mpr ⟨hx, hreach, hwalk⟩, rfl⟩
      · rintro ⟨parts, hwalk, rfl⟩
        cases parts with
        | nil => exact absurd (Int.le_of_eq (walk_nil_iff.mp hwalk)) hzero
        | cons x parts =>
          obtain ⟨rest, rfl⟩ := hwalk.bytes_prefix
          rw [List.flatMap_cons, List.append_assoc] at hwalk hf ⊢
          obtain ⟨hx, hreach, hrest⟩ := walk_cons_iff.mp hwalk
          have hsum := hrest.sum_eq
          have hparts := (ih (by omega) (hlt hx hf)).mpr ⟨parts, hrest, rfl⟩
          rw [parseParts_bytes_append hzero hx hreach, if_neg (by omega), hparts]
          rfl

end Events

/-! ## Filled events -/

section Filled

variable {n : ℤ} {p : List UInt8} {parts : List EitPart}

theorem length_bytes_pos (d : Descriptor) : 0 < d.bytes.length := Nat.succ_pos _

/-- Descriptors that fill a length reach it. -/
theorem reaches_of_length_eq {l : List Descriptor} (h : ((descriptorsBytes l).length : ℤ) = n) :
    Reaches n l := by
  induction l generalizing n with
  | nil => exact reaches_nil_iff.mpr (Int.le_of_eq h.symm)
  | cons d l ih =>
    rw [length_descriptorsBytes_cons] at h
    have := length_bytes_pos d
    exact reaches_cons_iff.mpr ⟨by omega, ih (by omega)⟩

theorem EitPart.length_bytes_ge {x : EitPart} (hx : x.WellFormed)
    (hreach : Reaches x.descriptorsLoopLength x.descriptors) :
    12 + x.descriptorsLoopLength ≤ x.bytes.length := by
  have := hreach.1
  rw [bytes, List.length_append, hx.header]
  omega

theorem EitPart.filled_iff {x : EitPart} (hx : x.WellFormed) :
    x.Filled ↔ x.bytes.length = 12 + x.descriptorsLoopLength := by
  rw [Filled, bytes, List.length_append, hx.header]
  omega

theorem Walk.sum_le (h : Walk n p parts) : n ≤ (parts.flatMap EitPart.bytes).length := by
  induction parts generalizing n p with
  | nil => exact Int.le_of_eq (walk_nil_iff.mp h)
  | cons x parts ih =>
    obtain ⟨rest, rfl⟩ := h.bytes_prefix
    rw [List.flatMap_cons, List.append_assoc] at h
    obtain ⟨hx, hreach, hrest⟩ := walk_cons_iff.mp h
    have hge := EitPart.length_bytes_ge hx hreach
    have hle := ih hrest
    rw [List.flatMap_cons, List.length_append]
    omega

/-- If the bytes are as long as the events say together, each event is filled. -/
theorem Walk.filled (h : Walk n p parts) (hlen : ((parts.flatMap EitPart.bytes).length : ℤ) = n) :
    ∀ x ∈ parts, x.Filled := by
  induction parts generalizing n p with
  | nil => exact fun x hx => absurd hx List.not_mem_nil
  | cons x parts ih =>
    obtain ⟨rest, rfl⟩ := h.bytes_prefix
    rw [List.flatMap_cons, List.append_assoc] at h
    obtain ⟨hx, hreach, hrest⟩ := walk_cons_iff.mp h
    rw [List.flatMap_cons, List.length_append] at hlen
    have hge := EitPart.length_bytes_ge hx hreach
    have hle := hrest.sum_le
    exact List.forall_mem_cons.mpr ⟨(EitPart.filled_iff hx).mpr (by omega), ih hrest (by omega)⟩

theorem length_flatMap_of_filled (hwf : ∀ x ∈ parts, x.WellFormed) (h : ∀ x ∈ parts, x.Filled) :
    (parts.flatMap EitPart.bytes).length =
      (parts.map fun x => 12 + x.descriptorsLoopLength).sum := by
  rw [List.length_flatMap]
  exact congrArg List.sum (List.map_congr_left fun x hx =>
    (EitPart.filled_iff (hwf x hx)).mp (h x hx))

/-- What the events say is at least the length of one header, if there are events. -/
theorem Walk.guard (h : Walk n p parts) : n = 0 ∨ 12 ≤ n := by
  have hsum := h.sum_eq
  cases parts with
  | nil => exact .inl (walk_nil_iff.mp h)
  | cons x parts =>
    rw [List.map_cons, List.sum_cons] at hsum
    omega

/-- **The events of a section are written as bytes.** -/
theorem flatMap_bytes_event (hwf : ∀ x ∈ parts, x.WellFormed) :
    (parts.map EitPart.event).flatMap EitEvent.bytes = parts.flatMap EitPart.bytes := by
  rw [List.flatMap_map]
  exact List.flatMap_congr fun x hx => EitPart.bytes_event (hwf x hx).header

end Filled

/-! ## Sections -/

/-- The two classes. -/
inductive EitParser
  | eventInformationTable
  | eventInformationTableSched

/-- What a class does. -/
def EitParser.tableClass : EitParser → TableClass EventInformationTable
  | eventInformationTable => eitClass
  | eventInformationTableSched => schedClass

/-- `parse`, of the section `z` with `m` behind it in memory. -/
def EitParser.parse (k : EitParser) (z m : List UInt8) : Except ParseError EventInformationTable :=
  k.tableClass.parseAt (sectionHeader z) ((parseHeader .zero z .psisi).2.map Int.ofNat) (z ++ m)

/-- A whole section with a long header, which has been read whole, from its first packet. -/
structure LongSection (z : List UInt8) : Prop where
  long : (sectionHeader z).sectionSyntaxIndicator = 1
  length : z.length = (sectionHeader z).totalLen

/-- Behind six bytes the data part has the grammar. -/
def IsEitData (data : List UInt8) : Prop := 6 ≤ data.length ∧ IsEventSequence (data.drop 6)

/-- `parse` returns true if and only if the data part has the grammar, and the events that it has
read are written as the bytes of the data part behind the first six. -/
def ParsesExactly (k : EitParser) (z m : List UInt8) : Prop :=
  ((∃ t, k.parse z m = .ok t) ↔ IsEitData (dataPart z)) ∧
    ∀ t, k.parse z m = .ok t → t.events.flatMap EitEvent.bytes = (dataPart z).drop 6

/-- Of the events that the lengths lead through, none has a descriptor that is too long. -/
def NoneTooLong (z m : List UInt8) : Prop :=
  ∀ parts, Walk ((dataPart z).length - 6) ((z ++ m).drop 14) parts → ∀ x ∈ parts, x.Filled

section Sections

variable {k : EitParser} {z m : List UInt8}

theorem length_dataPart_long (z : List UInt8) : (dataPart z).length = z.length - 12 := by
  have hheader : sectionHeaderLen = 8 := rfl
  rw [dataPart, List.length_drop, List.length_take]
  omega

theorem drop_append_eq (m : List UInt8) (h : 6 ≤ (dataPart z).length) :
    (z ++ m).drop 14 = (dataPart z).drop 6 ++ (z.drop (z.length - 4) ++ m) := by
  rw [length_dataPart_long] at h
  have hz : z = z.take (z.length - 4) ++ z.drop (z.length - 4) :=
    (List.take_append_drop _ _).symm
  have hlen : 14 ≤ (z.take (z.length - 4)).length := by
    rw [List.length_take]
    omega
  rw [dataPart, List.drop_drop]
  conv_lhs => rw [hz, List.append_assoc, List.drop_append_of_le_length hlen]

theorem parseHeader_address (h : LongSection z) : (parseHeader .zero z .psisi).2 =
    if z.length < 8 then none else some 8 := by
  have hbit : ∀ b : UInt8, (b >>> 7) &&& 0x01 = 0 ∨ (b >>> 7) &&& 0x01 = 1 :=
    forall_uint8 (by decide +kernel)
  have hlong := h.long
  unfold sectionHeader at hlong
  rcases z with _ | ⟨b₀, _ | ⟨b₁, _ | ⟨b₂, rest⟩⟩⟩
  iterate 3
    · rfl
  rcases hbit b₁ with hzero | hone
  · simp only [parseHeader, SectionHeader.readShort, hzero] at hlong
    cases hlong
  · rcases rest with _ | ⟨b₃, _ | ⟨b₄, _ | ⟨b₅, _ | ⟨b₆, _ | ⟨b₇, rest⟩⟩⟩⟩⟩
    iterate 5
      · simp only [parseHeader, SectionHeader.readShort, hone]
        rfl
    simp only [parseHeader, SectionHeader.readShort, hone]
    have hlen : ¬ (b₀ :: b₁ :: b₂ :: b₃ :: b₄ :: b₅ :: b₆ :: b₇ :: rest).length < 8 := by
      simp only [List.length_cons]
      omega
    rw [if_neg hlen]
    rfl

theorem EitParser.parse_eq (h : LongSection z) : k.parse z m =
    if z.length < 8 then .error .nullPointer
    else EventInformationTable.parse (sectionHeader z) ((z ++ m).drop 8) := by
  have hclass : k.tableClass.parse = EventInformationTable.parse := by cases k <;> rfl
  rw [parse, parseHeader_address h]
  split_ifs
  · show throughNull (k.tableClass.parse (sectionHeader z) []) = _
    rw [hclass]
    rfl
  · show (if (0 : ℤ) ≤ 8 then k.tableClass.parse (sectionHeader z) ((z ++ m).drop 8)
      else .error .outside) = _
    rw [if_pos (by decide), hclass]

/-- **What a data part is parsed to**, with `n` bytes for its events. -/
theorem EventInformationTable.parse_eq_ok_iff {header : SectionHeader} {n : ℤ} {p : List UInt8}
    {events : List EitEvent} (hn : (header.sectionLength.toNat : ℤ) - 5 - 4 - 6 = n)
    (hp : n + 6 ≤ p.length) :
    (∃ t, EventInformationTable.parse header p = .ok t ∧ t.events = events) ↔
      ∃ parts, Walk n (p.drop 6) parts ∧ events = parts.map EitPart.event := by
  rcases p with _ | ⟨t₀, _ | ⟨t₁, _ | ⟨n₀, _ | ⟨n₁, _ | ⟨segmentLast, _ | ⟨lastTable, p⟩⟩⟩⟩⟩⟩
  -- without the six bytes in front of the events nothing is parsed
  iterate 6
    · constructor
      · rintro ⟨t, ht, -⟩
        cases ht
      · rintro ⟨parts, hwalk, -⟩
        have := hwalk.guard
        simp only [List.length_cons, List.length_nil] at hp
        omega
  show _ ↔ ∃ parts, Walk n p parts ∧ _
  rw [EventInformationTable.parse, hn]
  by_cases hguard : ¬ (n = 0 ∨ n = 12) ∧ n < 12
  · rw [if_pos hguard]
    constructor
    · rintro ⟨t, ht, -⟩
      cases ht
    · rintro ⟨parts, hwalk, -⟩
      have := hwalk.guard
      omega
  · rw [if_neg hguard, ← parseEvents_eq_ok_iff (by omega) (Nat.lt_succ_self p.length)]
    cases parseEvents (p.length + 1) n p with
    | error e =>
      constructor
      · rintro ⟨t, ht, -⟩
        cases ht
      · intro h
        cases h
    | ok l =>
      constructor
      · rintro ⟨t, ht, rfl⟩
        cases ht
        rfl
      · intro hl
        cases hl
        exact ⟨_, rfl, rfl⟩

/-- **What a section is parsed to.** -/
theorem parse_eq_ok_iff (h : LongSection z) {events : List EitEvent} :
    (∃ t, k.parse z m = .ok t ∧ t.events = events) ↔
      ∃ parts, Walk ((dataPart z).length - 6) ((z ++ m).drop 14) parts ∧
        events = parts.map EitPart.event := by
  have hlen : z.length = (sectionHeader z).sectionLength.toNat + 3 := h.length
  have hdata := length_dataPart_long z
  rw [EitParser.parse_eq h]
  split_ifs with hshort
  · refine iff_of_false (fun ⟨t, ht, _⟩ => by cases ht) fun ⟨parts, hwalk, _⟩ => ?_
    have := hwalk.guard
    omega
  · have hbehind : (dataPart z).length ≤ ((z ++ m).drop 8).length := by
      rw [List.length_drop, List.length_append]
      omega
    have hdrop : (z ++ m).drop 14 = ((z ++ m).drop 8).drop 6 := by
      rw [List.drop_drop]
    rw [hdrop]
    by_cases hsmall : z.length < 12
    · -- there is no room for the CRC, and the number of bytes for events is below zero
      refine iff_of_false (fun hparse => ?_) fun ⟨parts, hwalk, _⟩ => ?_
      · obtain ⟨parts, hwalk, -⟩ :=
          (EventInformationTable.parse_eq_ok_iff rfl (by omega)).mp hparse
        have := hwalk.guard
        omega
      · have := hwalk.guard
        omega
    · exact EventInformationTable.parse_eq_ok_iff (by omega) (by omega)

/-- If the events that are read are written as the bytes of the data part, none is too long. -/
theorem noneTooLong_of_bytes (h : LongSection z) (hbytes : ∀ t, k.parse z m = .ok t →
    t.events.flatMap EitEvent.bytes = (dataPart z).drop 6) : NoneTooLong z m := by
  intro parts hwalk
  obtain ⟨t, ht, hevents⟩ := (parse_eq_ok_iff h).mpr ⟨parts, hwalk, rfl⟩
  have hback := hbytes t ht
  have hguard := hwalk.guard
  rw [hevents, flatMap_bytes_event hwalk.wellFormed] at hback
  refine hwalk.filled ?_
  rw [hback, List.length_drop]
  omega

theorem walk_of_isEitData {data : List UInt8} (rest : List UInt8) {n : ℤ} (hn : n = data.length)
    (h : IsEventSequence data) : ∃ parts, Walk n (data ++ rest) parts ∧
      parts.flatMap EitPart.bytes = data := by
  obtain ⟨parts, hall, rfl⟩ := h
  have hwf : ∀ x ∈ parts, x.WellFormed := fun x hx => (hall x hx).1
  have hfilled : ∀ x ∈ parts, x.Filled := fun x hx => (hall x hx).2
  refine ⟨parts, ⟨hwf, fun x hx => ?_, List.prefix_append _ _, ?_⟩, rfl⟩
  · exact reaches_of_length_eq (congrArg Nat.cast (hfilled x hx))
  · rw [hn, length_flatMap_of_filled hwf hfilled]

end Sections

/-- **When a section is parsed exactly**: none of the events that its lengths lead through has a
descriptor that is too long. -/
theorem parsesExactly_iff (k : EitParser) {z : List UInt8} (m : List UInt8) (h : LongSection z) :
    ParsesExactly k z m ↔ NoneTooLong z m := by
  constructor
  · rintro ⟨-, hbytes⟩
    exact noneTooLong_of_bytes h hbytes
  · intro hnone
    -- what is parsed is the data part behind the first six bytes
    have hexact : ∀ t, k.parse z m = .ok t → 6 ≤ (dataPart z).length ∧
        ∃ parts : List EitPart, (∀ x ∈ parts, x.WellFormed ∧ x.Filled) ∧
          t.events = parts.map EitPart.event ∧
            (dataPart z).drop 6 = parts.flatMap EitPart.bytes := by
      intro t ht
      obtain ⟨parts, hwalk, hevents⟩ := (parse_eq_ok_iff h).mp ⟨t, ht, rfl⟩
      have hfilled := hnone parts hwalk
      have hsum := hwalk.sum_eq
      have hlen := length_flatMap_of_filled hwalk.wellFormed hfilled
      have hsix : 6 ≤ (dataPart z).length := by omega
      refine ⟨hsix, parts, fun x hx => ⟨hwalk.wellFormed x hx, hfilled x hx⟩, hevents, ?_⟩
      have hprefix := hwalk.bytes_prefix
      rw [drop_append_eq m hsix] at hprefix
      have hle : (parts.flatMap EitPart.bytes).length ≤ ((dataPart z).drop 6).length := by
        rw [List.length_drop]
        omega
      have hinto := List.prefix_of_prefix_length_le hprefix (List.prefix_append _ _) hle
      refine (hinto.eq_of_length ?_).symm
      rw [List.length_drop]
      omega
    refine ⟨⟨?_, ?_⟩, ?_⟩
    · rintro ⟨t, ht⟩
      obtain ⟨hsix, parts, hall, -, hdata⟩ := hexact t ht
      exact ⟨hsix, parts, hall, hdata⟩
    · rintro ⟨hsix, hseq⟩
      have hn : ((dataPart z).length : ℤ) - 6 = ((dataPart z).drop 6).length := by
        rw [List.length_drop]
        omega
      obtain ⟨parts, hwalk, -⟩ := walk_of_isEitData (z.drop (z.length - 4) ++ m) hn hseq
      rw [← drop_append_eq m hsix] at hwalk
      obtain ⟨t, ht, -⟩ := (parse_eq_ok_iff h).mpr ⟨parts, hwalk, rfl⟩
      exact ⟨t, ht⟩
    · intro t ht
      obtain ⟨-, parts, hall, hevents, hdata⟩ := hexact t ht
      rw [hevents, flatMap_bytes_event fun x hx => (hall x hx).1, hdata]

/-- An event with a descriptor of two bytes, of which the second is the first byte of the CRC. -/
def eitOverCrc : List UInt8 :=
  [78, 240, 30, 4, 0, 195, 0, 0, 0, 1, 0, 4, 0, 78, 0, 7, 233, 90, 18, 0, 0, 0, 48, 0, 0, 3, 77, 2,
    1, 194, 144, 158, 223]

/-- It is accepted, and written as bytes it is longer than the data part. -/
theorem not_parsesExactly : LongSection eitOverCrc ∧ crc32 eitOverCrc = 0 ∧
    ¬ ParsesExactly .eventInformationTable eitOverCrc [] := by
  refine ⟨⟨by decide +kernel, by decide +kernel⟩, by decide +kernel, fun ⟨_, hbytes⟩ => ?_⟩
  have hrun : (EitParser.eventInformationTable.parse eitOverCrc []).toOption.map
      (fun t => t.events.flatMap EitEvent.bytes) =
        some [0, 7, 233, 90, 18, 0, 0, 0, 48, 0, 0, 3, 77, 2, 1, 194] := by decide
  have hdata : (dataPart eitOverCrc).drop 6 =
    [0, 7, 233, 90, 18, 0, 0, 0, 48, 0, 0, 3, 77, 2, 1] := by decide
  rw [hdata] at hbytes
  cases hparse : EitParser.eventInformationTable.parse eitOverCrc [] with
  | error e =>
    rw [hparse] at hrun
    cases hrun
  | ok t =>
    rw [hparse] at hrun
    cases (Option.some.inj hrun).symm.trans (hbytes t hparse)

/-- A section with one event that has one descriptor. -/
theorem parsesExactly_eitSchedWhole :
    ParsesExactly .eventInformationTableSched eitSchedWhole [] := by
  have hlong : LongSection eitSchedWhole := ⟨by decide, by decide⟩
  have hrun : (EitParser.eventInformationTableSched.parse eitSchedWhole []).toOption.map
      (fun t => t.events.flatMap EitEvent.bytes) = some ((dataPart eitSchedWhole).drop 6) := by
    decide
  refine (parsesExactly_iff .eventInformationTableSched [] hlong).mpr ?_
  refine noneTooLong_of_bytes (k := .eventInformationTableSched) hlong fun t ht => ?_
  rw [ht] at hrun
  exact Option.some.inj hrun

end AutoRec
