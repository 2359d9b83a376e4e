import AutoRec.Parser.TsFraming
import Mathlib.Data.List.Forall2

/-!
# The payloads of the packets

`ts_parser::parse` hands its listener a pointer to the payload of each packet, and its size.

* `payloadOf`: the payload of a packet; `TsPacket.handed`: what the listener is handed.
* `HandsPayloads`: each packet that is parsed is handed over with its payload.
* **`handsPayloads_iff`**: it is so if and only if no packet has an adaptation field in front of a
  payload.
* `not_handsPayloads`: packets with adaptation fields of length zero.
-/

namespace AutoRec

open Arena TsParser

/-! ## Packets -/

/-- `adaptation_field_control` of a packet. -/
def adaptationFieldControl (x : List UInt8) : UInt8 := (TsHeader.parse x).adaptationFieldControl

/-- `adaptation_field_length` of a packet that has an adaptation field. -/
def adaptationFieldLength (x : List UInt8) : ℕ := (x.getD tsHeaderLen 0).toNat

/-- The packet has an adaptation field, and a payload behind it. -/
def HasFieldAndPayload (x : List UInt8) : Prop :=
  adaptationFieldControl x = 3 ∧ adaptationFieldLength x ≤ 182

/-- The packet has a payload. -/
def HasPayload (x : List UInt8) : Prop := adaptationFieldControl x = 1 ∨ HasFieldAndPayload x

/-- The bytes behind the header and, if there is one, the adaptation field with its length byte. -/
def payloadOf (x : List UInt8) : List UInt8 :=
  if adaptationFieldControl x = 1 then x.drop tsHeaderLen
  else x.drop (tsHeaderLen + 1 + adaptationFieldLength x)

/-- The bytes that the listener is handed, if they are in the buffer. -/
def TsPacket.handed (buff : List UInt8) (t : TsPacket) : Option (List UInt8) :=
  match t.payload with
  | .ofBuff i =>
    if i + t.payloadSize ≤ buff.length then some (slice buff i (i + t.payloadSize)) else none
  | .ofNull _ => none

/-- The packet is handed over with its header and, if it has one, its payload. -/
def HandedRightly (buff x : List UInt8) (t : TsPacket) : Prop :=
  t.header = TsHeader.parse x ∧ (HasPayload x → t.handed buff = some (payloadOf x))

namespace TsParser

/-- The number of packets that are parsed: those that end in front of the last byte, once the unit
has been found. -/
def parsedNum (bottom : ℕ) : ℕ := if 204 * 3 < bottom then (bottom - 1) / 188 else 0

/-- **Each packet that is parsed is handed over rightly**, unless its header says that it has no
payload. -/
def HandsPayloads (s : TsParser) (bottom : ℕ) (q : List (List UInt8)) : Prop :=
  List.Forall₂ (HandedRightly s.innerBuff)
    ((q.take (parsedNum bottom)).filter fun x => adaptationFieldControl x ≠ 2)
    (s.parse.given.drop s.given.length)

variable {buff : List UInt8} {bottom p : ℕ} {x : List UInt8} {q : List (List UInt8)}

/-! ## One packet -/

theorem Ahead.slice_eq (h : Ahead buff bottom p (x :: q)) (hp : p + 188 < bottom) (i : ℕ) :
    slice buff (p + i) (p + 188) = x.drop i := by
  have hx : x.length = 188 := (h.packets x List.mem_cons_self).len
  have hlen : (slice buff p bottom).length = bottom - p := length_slice _ h.le
  obtain ⟨rest, hrest⟩ : x <+: slice buff p bottom := by
    apply List.prefix_of_prefix_length_le (List.prefix_append _ _) h.front
    omega
  have htake : x = (slice buff p bottom).take 188 := by
    rw [← hrest, List.take_left' hx]
  rw [htake]
  simp only [slice, List.take_drop, List.drop_drop, List.take_take]
  congr 2
  omega

theorem Ahead.handed_of_none (h : Ahead buff bottom p (x :: q)) (hp : p + 188 < bottom)
    (hafc : adaptationFieldControl x = 1) (payload : PayloadPtr) :
    TsPacket.handed buff ⟨TsHeader.parse x, nextPayload buff p payload, tsPacketLen - tsHeaderLen⟩ =
      some (payloadOf x) := by
  have hnext : nextPayload buff p payload = .ofBuff (p + tsHeaderLen) := by
    rw [nextPayload, h.header hp]
    exact if_neg (by rw [show (TsHeader.parse x).adaptationFieldControl = 1 from hafc]; decide)
  have hle : p + 4 + 184 ≤ buff.length := by
    have := h.le
    omega
  rw [hnext, TsPacket.handed, payloadOf, if_pos hafc]
  show (if p + 4 + 184 ≤ buff.length then some (slice buff (p + 4) (p + 4 + 184)) else none) = _
  rw [if_pos hle, Nat.add_assoc p 4 184, h.slice_eq hp 4]

theorem handed_ne_of_field (hx : x.length = 188) (hfield : HasFieldAndPayload x)
    (payload : PayloadPtr) :
    TsPacket.handed buff ⟨TsHeader.parse x, payload, tsPacketLen - tsHeaderLen⟩ ≠
      some (payloadOf x) := by
  have hne : adaptationFieldControl x ≠ 1 := by
    rw [hfield.1]
    decide
  intro heq
  unfold TsPacket.handed at heq
  split at heq
  · rename_i i _
    split at heq
    · rename_i hle
      have hsize : (slice buff i (i + 184)).length = i + 184 - i := length_slice _ hle
      have hlen : (slice buff i (i + 184)).length = (payloadOf x).length :=
        congrArg List.length (Option.some.inj heq)
      have hrest : (payloadOf x).length = 188 - (4 + 1 + adaptationFieldLength x) := by
        rw [payloadOf, if_neg hne, List.length_drop, hx]
      omega
    · cases heq
  · cases heq

/-- **One packet.** -/
theorem Ahead.handedRightly_iff (h : Ahead buff bottom p (x :: q)) (hp : p + 188 < bottom)
    (payload : PayloadPtr) :
    HandedRightly buff x
        ⟨TsHeader.parse x, nextPayload buff p payload, tsPacketLen - tsHeaderLen⟩ ↔
      ¬ HasFieldAndPayload x := by
  have hx : x.length = 188 := (h.packets x List.mem_cons_self).len
  constructor
  · intro hright hfield
    exact handed_ne_of_field hx hfield _ (hright.2 (.inr hfield))
  · intro hnot
    refine ⟨rfl, fun hpayload => ?_⟩
    exact h.handed_of_none hp (hpayload.resolve_right hnot) payload

/-! ## The loop -/

instance instDecidableHasFieldAndPayload (x : List UInt8) : Decidable (HasFieldAndPayload x) :=
  inferInstanceAs (Decidable (_ ∧ _))

/-- **The loop** hands over each packet rightly if and only if none has an adaptation field in front
of a payload, whatever the pointer has been before. -/
theorem Ahead.forall₂_parseLoop (h : Ahead buff bottom p q) (hp : p < bottom)
    (payload : PayloadPtr) :
    List.Forall₂ (HandedRightly buff)
        ((q.take ((bottom - p - 1) / 188)).filter fun x => adaptationFieldControl x ≠ 2)
        (TsParser.parseLoop buff .ts bottom p payload).2 ↔
      ∀ x ∈ q.take ((bottom - p - 1) / 188), ¬ HasFieldAndPayload x := by
  induction q generalizing p payload with
  | nil =>
    obtain ⟨x, q', hq, -⟩ := h.cons hp
    cases hq
  | cons x q ih =>
    by_cases hnext : p + UnitSize.ts.bytes < bottom
    · have hp' : p + 188 < bottom := hnext
      obtain ⟨_, _, hq, -, h', -⟩ := h.cons hp
      obtain ⟨rfl, rfl⟩ := List.cons.inj hq
      have hnum : (bottom - p - 1) / 188 = (bottom - (p + 188) - 1) / 188 + 1 := by omega
      have hrec := ih h' hp' (nextPayload buff p payload)
      rw [hnum, List.take_succ_cons, parseLoop_turn hnext (h.syncTop hp), h.header hp', List.filter_cons,
        List.forall_mem_cons]
      by_cases hafc : adaptationFieldControl x = 2
      · have hnot : ¬ HasFieldAndPayload x := fun hfield => by
          have hthree := hafc.symm.trans hfield.1
          exact absurd hthree (by decide)
        have hafc' : (TsHeader.parse x).adaptationFieldControl = 2 := hafc
        simp only [hafc, hafc', ne_eq, not_true_eq_false, decide_false, Bool.false_eq_true,
          if_false]
        rw [and_iff_right hnot]
        exact hrec
      · have hafc' : ¬ (TsHeader.parse x).adaptationFieldControl = 2 := hafc
        simp only [hafc, hafc', ne_eq, not_false_eq_true, decide_true, if_true]
        rw [List.forall₂_cons, h.handedRightly_iff hp' payload]
        exact and_congr_right fun _ => hrec
    · have hge : ¬ p + 188 < bottom := hnext
      have hnum : (bottom - p - 1) / 188 = 0 := by omega
      rw [TsParser.parseLoop, dif_neg hnext, hnum]
      exact iff_of_true .nil fun y hy => absurd hy List.not_mem_nil

/-! ## A run of packets -/

variable {s : TsParser}

theorem checkUnitSize_short (buff : List UInt8) (hshort : ¬ 204 * 3 < bottom) :
    (checkUnitSize buff 0 bottom).1 = none := by
  have hnone : ∀ c, getUnitSize buff c bottom = none := fun c => by
    rw [getUnitSize, TsParser.unitLoop, dif_neg (by omega)]
  rw [checkUnitSize, hnone]
  dsimp only
  split
  · rw [checkUnitSize, hnone]
    dsimp only
    rw [dif_neg (by omega)]
  · rfl

theorem Ahead.given_parse (h : Ahead s.innerBuff bottom 0 q) (hcurrent : s.current = some 0)
    (hbottom : s.bottom = some bottom) : s.parse.given.drop s.given.length =
      if 204 * 3 < bottom then (TsParser.parseLoop s.innerBuff .ts bottom 0 (.ofNull 0)).2
      else [] := by
  by_cases hb : 204 * 3 < bottom
  · have hunit : checkUnitSize s.innerBuff 0 bottom = (some .ts, 0) := by
      rw [checkUnitSize, getUnitSize, h.unitLoop none, if_pos (by omega)]
    rw [if_pos hb]
    simp only [TsParser.parse, hcurrent, hbottom, hunit]
    exact List.drop_left' rfl
  · have hunit := checkUnitSize_short s.innerBuff hb
    rw [if_neg hb]
    simp only [TsParser.parse, hcurrent, hbottom]
    generalize checkUnitSize s.innerBuff 0 bottom = u at hunit
    obtain ⟨u, c⟩ := u
    obtain rfl : u = none := hunit
    exact List.drop_length

theorem Ahead.handsPayloads (h : Ahead s.innerBuff bottom 0 q) (hcurrent : s.current = some 0)
    (hbottom : s.bottom = some bottom) : s.HandsPayloads bottom q ↔
      ∀ x ∈ q.take (parsedNum bottom), ¬ HasFieldAndPayload x := by
  rw [HandsPayloads, h.given_parse hcurrent hbottom, parsedNum]
  by_cases hb : 204 * 3 < bottom
  · rw [if_pos hb, if_pos hb]
    exact h.forall₂_parseLoop (by omega) (.ofNull 0)
  · rw [if_neg hb, if_neg hb]
    exact iff_of_true .nil fun y hy => absurd hy List.not_mem_nil

end TsParser

/-- **The listener is handed each packet with its payload** if and only if no packet that is parsed
has an adaptation field in front of a payload. -/
theorem handsPayloads_iff {s : TsParser} {bottom : ℕ} {q : List (List UInt8)}
    (h : Ahead s.innerBuff bottom 0 q) (hcurrent : s.current = some 0)
    (hbottom : s.bottom = some bottom) : s.HandsPayloads bottom q ↔
      ∀ x ∈ q.take (parsedNum bottom), ¬ HasFieldAndPayload x :=
  h.handsPayloads hcurrent hbottom

/-- A packet, with its last header byte and the byte behind the header, for the example runs. -/
def examplePacket (b₃ b₄ : UInt8) : List UInt8 := 0x47 :: 0 :: 0 :: b₃ :: b₄ :: .replicate 183 0xff

/-- Five of them in the buffer. -/
def exampleStream (x : List UInt8) : TsParser where
  innerBuff := (List.replicate 5 x).flatten
  current := some 0
  bottom := some 940
  parseRemainLen := 0
  given := []

theorem ahead_exampleStream (b₃ b₄ : UInt8) :
    Ahead (exampleStream (examplePacket b₃ b₄)).innerBuff 940 0
      (.replicate 5 (examplePacket b₃ b₄)) := by
  have hx : (examplePacket b₃ b₄).length = 188 := by
    simp only [examplePacket, List.length_cons, List.length_replicate]
  have hlen : (List.replicate 5 (examplePacket b₃ b₄)).flatten.length = 940 := by
    rw [List.length_flatten, List.map_replicate, List.sum_replicate_nat, hx]
  refine ⟨hlen.ge, fun x h => ?_, ?_⟩
  · rw [List.eq_of_mem_replicate h]
    exact ⟨hx, rfl⟩
  · rw [slice, List.drop_zero]
    exact List.take_prefix _ _

/-- Four of five packets without adaptation fields are parsed, and handed over rightly. -/
theorem handsPayloads_iff_none :
    parsedNum 940 = 4 ∧ (exampleStream (examplePacket 0x10 0)).HandsPayloads 940
      (.replicate 5 (examplePacket 0x10 0)) := by
  refine ⟨rfl, (handsPayloads_iff (ahead_exampleStream 0x10 0) rfl rfl).mpr fun x hx => ?_⟩
  rw [List.eq_of_mem_replicate (List.mem_of_mem_take hx)]
  exact fun hfield => absurd hfield.1 (by decide)

/-- **Not every run of packets is handed over rightly**: the packets have adaptation fields of
length zero, and the listener is handed 184 bytes behind the null pointer. -/
theorem not_handsPayloads :
    ¬ ∀ (s : TsParser) bottom q, Ahead s.innerBuff bottom 0 q → s.current = some 0 →
      s.bottom = some bottom → s.HandsPayloads bottom q := by
  intro hall
  have hahead := ahead_exampleStream 0x30 0
  have hright := (hahead.handsPayloads rfl rfl).mp (hall _ _ _ hahead rfl rfl)
  exact hright (examplePacket 0x30 0) List.mem_cons_self ⟨rfl, Nat.zero_le _⟩

end AutoRec
