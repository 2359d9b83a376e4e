import AutoRec.Parser.TsParser
import Mathlib.Data.List.Infix

/-!
# Packets out of a stream

A stream of packets comes in, cut into chunks.

* `IsPacket`: a packet of 188 bytes.
* `Ahead`: what the buffer holds from a place on is the beginning of some packets.
* `Ahead.unitLoop`, `Ahead.parseLoop`: the unit is found, and each packet is given to the listener,
  up to the last 188 bytes or less.
* `Framed`: which packets have been given, and which bytes are held.
* **`framed_puts`**: no packet is lost, however the stream is cut.
-/

namespace AutoRec

open Arena TsParser

/-- A packet, as it is sent. -/
structure IsPacket (x : List UInt8) : Prop where
  len : x.length = tsPacketLen
  sync : x.head? = some tsSyncByte

namespace TsParser

variable {buff : List UInt8} {bottom p n : ℕ} {q : List (List UInt8)}

/-- What the buffer holds from `p` on is the beginning of the packets `q`. -/
structure Ahead (buff : List UInt8) (bottom p : ℕ) (q : List (List UInt8)) : Prop where
  le : bottom ≤ buff.length
  packets : ∀ x ∈ q, IsPacket x
  front : slice buff p bottom <+: q.flatten

theorem Ahead.cons (h : Ahead buff bottom p q) (hp : p < bottom) :
    ∃ x q', q = x :: q' ∧ IsPacket x ∧ Ahead buff bottom (p + 188) q' ∧ isSync buff p = true := by
  have hlen : (slice buff p bottom).length = bottom - p := length_slice _ h.le
  cases q with
  | nil =>
    have := h.front.length_le
    simp only [List.flatten_nil, List.length_nil] at this
    omega
  | cons x q =>
    have hx := h.packets x List.mem_cons_self
    obtain ⟨rest, hrest⟩ := h.front
    rw [List.flatten_cons] at hrest
    refine ⟨x, q, rfl, hx, ⟨h.le, fun y hy => h.packets y (List.mem_cons_of_mem _ hy), ?_⟩, ?_⟩
    · have hdrop := h.front.drop 188
      rw [List.flatten_cons, List.drop_left' hx.len, slice, List.drop_drop] at hdrop
      exact hdrop
    · have hne : x ≠ [] := by
        rintro rfl
        exact absurd hx.len (by decide)
      have hfront : (slice buff p bottom ++ rest)[0]? = (slice buff p bottom)[0]? :=
        List.getElem?_append_left (by omega)
      have hfirst : (slice buff p bottom)[0]? = x[0]? := by
        rw [← hfront, hrest, List.getElem?_append_left (List.length_pos_iff.mpr hne)]
      rw [getElem?_slice, Nat.add_zero, if_pos hp, ← List.head?_eq_getElem?, hx.sync] at hfirst
      rw [isSync, hfirst]
      rfl

theorem Ahead.isSync (h : Ahead buff bottom p q) (hp : p + 188 * n < bottom) :
    TsParser.isSync buff (p + 188 * n) = true := by
  induction n generalizing p q with
  | zero =>
    obtain ⟨-, -, -, -, -, hs⟩ := h.cons (by omega)
    exact hs
  | succ n ih =>
    obtain ⟨-, q', -, -, h', -⟩ := h.cons (by omega)
    rw [show p + 188 * (n + 1) = p + 188 + 188 * n by omega]
    exact ih h' (by omega)

theorem Ahead.threeSyncs (h : Ahead buff bottom p q) (hp : p + 204 * 3 < bottom) :
    TsParser.threeSyncs buff p 188 = true := by
  have h₀ := h.isSync (n := 0) (by omega)
  have h₁ := h.isSync (n := 1) (by omega)
  have h₂ := h.isSync (n := 2) (by omega)
  simp only [TsParser.threeSyncs, Bool.and_eq_true]
  exact ⟨⟨h₀, h₁⟩, h₂⟩

/-- **The unit is found.** -/
theorem Ahead.unitLoop (h : Ahead buff bottom p q) (u : Option UnitSize) :
    TsParser.unitLoop buff bottom p u = if p + 204 * 3 < bottom then some .ts else u := by
  induction hm : bottom - p using Nat.strongRecOn generalizing p q u with
  | ind m ih =>
    rw [TsParser.unitLoop]
    by_cases hp : p + 204 * 3 < bottom
    · obtain ⟨-, q', -, -, h₁, -⟩ := h.cons (by omega)
      obtain ⟨-, q'', -, -, h₂, -⟩ := h₁.cons (by omega)
      rw [dif_pos hp, if_pos (h.threeSyncs hp), if_pos hp]
      rw [ih (bottom - (p + 188 * 2)) (by omega) h₂ (some .ts) rfl, ite_self]
    · rw [dif_neg hp, if_neg hp]

/-! ## The loop -/

theorem parse_append {x : List UInt8} (hx : 4 ≤ x.length) (rest : List UInt8) :
    TsHeader.parse (x ++ rest) = TsHeader.parse x := by
  match x, hx with
  | _ :: _ :: _ :: _ :: _, _ => rfl

theorem Ahead.header {x : List UInt8} (h : Ahead buff bottom p (x :: q)) (hp : p + 188 < bottom) :
    TsHeader.parse (buff.drop p) = TsHeader.parse x := by
  have hx : x.length = 188 := (h.packets x List.mem_cons_self).len
  have hlen : (slice buff p bottom).length = bottom - p := length_slice _ h.le
  have hfront : x <+: slice buff p bottom := by
    have hle : x.length ≤ (slice buff p bottom).length := by omega
    exact List.prefix_of_prefix_length_le (List.prefix_append _ _) h.front hle
  have hbuff : slice buff p bottom <+: buff.drop p := by
    rw [slice]
    exact (List.take_prefix bottom buff).drop p
  obtain ⟨rest, hrest⟩ := hfront.trans hbuff
  rw [← hrest]
  exact parse_append (by omega) rest

theorem Ahead.syncTop (h : Ahead buff bottom p q) (hp : p < bottom) :
    TsParser.syncTop buff .ts bottom p = some p := by
  obtain ⟨-, -, -, -, -, hs⟩ := h.cons hp
  rw [TsParser.syncTop, hs]
  rfl

theorem parseLoop_turn {unit : UnitSize} {m : ℕ} (hp : p + unit.bytes < bottom)
    (hm : syncTop buff unit bottom p = some m) (payload : PayloadPtr) :
    TsParser.parseLoop buff unit bottom p payload =
      let header := TsHeader.parse (buff.drop m)
      let r := TsParser.parseLoop buff unit bottom (m + unit.bytes) (nextPayload buff m payload)
      (r.1,
        if header.adaptationFieldControl ≠ 0x2 then
          ⟨header, nextPayload buff m payload, tsPacketLen - tsHeaderLen⟩ :: r.2
        else r.2) := by
  rw [TsParser.parseLoop, dif_pos hp]
  split
  · rename_i hnone
    cases hm.symm.trans hnone
  · rename_i m' hsome
    obtain rfl := Option.some.inj (hm.symm.trans hsome)
    rfl

/-- What the listener is given of some packets: those that are not without a payload. -/
def headers (q : List (List UInt8)) : List TsHeader :=
  (q.map TsHeader.parse).filter fun h => h.adaptationFieldControl ≠ 0x2

/-- **The loop** gives the listener each packet that ends in front of the last byte. -/
theorem Ahead.parseLoop (h : Ahead buff bottom p q) (hp : p < bottom) (payload : PayloadPtr) :
    ∃ k, (TsParser.parseLoop buff .ts bottom p payload).1 = p + 188 * k ∧ k ≤ q.length ∧
      (TsParser.parseLoop buff .ts bottom p payload).2.map TsPacket.header = headers (q.take k) ∧
      p + 188 * k < bottom ∧ bottom ≤ p + 188 * k + 188 := by
  induction q generalizing p payload with
  | nil =>
    obtain ⟨x, q', hq, -⟩ := h.cons hp
    cases hq
  | cons x q ih =>
    by_cases hnext : p + UnitSize.ts.bytes < bottom
    · have hp' : p + 188 < bottom := hnext
      obtain ⟨_, _, hq, -, h', -⟩ := h.cons hp
      obtain ⟨rfl, rfl⟩ := List.cons.inj hq
      obtain ⟨k, hend, hk, hgiven, hlt, hge⟩ := ih h' hp' (nextPayload buff p payload)
      rw [parseLoop_turn hnext (h.syncTop hp), h.header hp']
      refine ⟨k + 1, ?_, Nat.succ_le_succ hk, ?_, by omega, by omega⟩
      · show (TsParser.parseLoop buff .ts bottom (p + 188) _).1 = _
        rw [hend]
        omega
      · rw [List.take_succ_cons, headers, List.map_cons, List.filter_cons]
        by_cases hafc : (TsHeader.parse x).adaptationFieldControl = 0x2
        · simp only [hafc, ne_eq, not_true_eq_false, if_false, decide_false, Bool.false_eq_true]
          exact hgiven
        · simp only [hafc, ne_eq, not_false_eq_true, if_true, decide_true, List.map_cons]
          exact congrArg _ hgiven
    · rw [TsParser.parseLoop, dif_neg hnext]
      have : ¬ p + 188 < bottom := hnext
      exact ⟨0, rfl, Nat.zero_le _, rfl, hp, by omega⟩

/-! ## Chunks -/

/-- The bytes that are held in the buffer. -/
def held (s : TsParser) : List UInt8 := slice s.innerBuff 0 (s.bottom.getD 0)

/-- Of the stream of `packets`, of which `bytes` have come in, the first `k` packets have been given
to the listener, behind `before`, and the rest of the bytes is held. -/
structure Framed (packets : List (List UInt8)) (before : List TsHeader) (bytes : List UInt8) (k : ℕ)
    (s : TsParser) : Prop where
  len : s.innerBuff.length = innerBuffSize
  bottom_le : s.bottom.getD 0 ≤ innerBuffSize
  stream : bytes <+: packets.flatten
  le : 188 * k ≤ bytes.length
  given : s.given.map TsPacket.header = before ++ headers (packets.take k)
  held : s.held = bytes.drop (188 * k)

variable {s : TsParser} {c bytes : List UInt8} {packets : List (List UInt8)}
  {before : List TsHeader} {k : ℕ}

/-- **A chunk comes in**, and there is room for it. -/
theorem copy_room (hlen : s.innerBuff.length = innerBuffSize)
    (hroom : s.bottom.getD 0 + c.length ≤ innerBuffSize) :
    ∃ t, s.copyToInnerBuffer c = (.caching, t) ∧ t.innerBuff.length = innerBuffSize ∧
      t.bottom.getD 0 = s.bottom.getD 0 + c.length ∧ t.given = s.given ∧
      t.held = s.held ++ c := by
  unfold copyToInnerBuffer
  by_cases hc : c = []
  · subst hc
    exact ⟨s, rfl, hlen, rfl, rfl, (List.append_nil _).symm⟩
  rw [if_neg hc, if_neg (by omega)]
  have hwrite : (write s.innerBuff (s.bottom.getD 0) c).length = innerBuffSize := by
    rw [length_write _ _ (by omega), hlen]
  have hheld : slice (write s.innerBuff (s.bottom.getD 0) c) 0 (s.bottom.getD 0 + c.length) =
      s.held ++ c := by
    rw [← slice_append _ (Nat.zero_le (s.bottom.getD 0)) (Nat.le_add_right _ _) (by omega),
      slice_write_front _ _ (by omega) (Nat.le_refl _), slice_write_self _ _ (by omega) rfl]
    rfl
  cases hb : s.bottom with
  | some b =>
    rw [hb] at hroom hwrite hheld
    have hfit : c.length ≤ innerBuffSize - b := Nat.le_sub_of_add_le' hroom
    simp only [if_pos hfit]
    exact ⟨_, rfl, hwrite, rfl, rfl, hheld⟩
  | none =>
    rw [hb] at hwrite hheld
    simp only [Option.getD_none, Nat.zero_add] at hheld
    exact ⟨_, rfl, hwrite, (Nat.zero_add _).symm, rfl, hheld⟩

theorem copy_full (hc : c.length ≤ 1024) (hle : s.bottom.getD 0 ≤ innerBuffSize)
    (hroom : innerBuffSize < s.bottom.getD 0 + c.length) :
    s.copyToInnerBuffer c = (.full, s) ∧ ∃ b, s.bottom = some b := by
  have hsize : innerBuffSize = 327675 := rfl
  unfold copyToInnerBuffer
  cases hb : s.bottom with
  | none =>
    rw [hb, Option.getD_none] at hroom
    omega
  | some b =>
    rw [hb, Option.getD_some] at hroom hle
    have hne : c ≠ [] := by
      rintro rfl
      exact absurd hroom (Nat.not_lt_of_le hle)
    rw [if_neg hne, if_neg (by omega)]
    simp only [if_neg (show ¬ c.length ≤ innerBuffSize - b by omega)]
    exact ⟨trivial, b, rfl⟩

/-- **`parse`**, when the buffer is full: the packets that are whole are given, and up to 188 bytes
are left over. -/
theorem Ahead.parse {b : ℕ} {q : List (List UInt8)} (h : Ahead s.innerBuff b 0 q)
    (hb : 204 * 3 < b) (hcur : s.current = some 0) (hbottom : s.bottom = some b) :
    ∃ j, j ≤ q.length ∧ 188 * j < b ∧ b ≤ 188 * j + 188 ∧ s.parse.innerBuff = s.innerBuff ∧
      s.parse.bottom = some b ∧ s.parse.parseRemainLen = b - 188 * j ∧
      s.parse.given.map TsPacket.header = s.given.map TsPacket.header ++ headers (q.take j) := by
  have hunit : checkUnitSize s.innerBuff 0 b = (some .ts, 0) := by
    rw [checkUnitSize, getUnitSize, h.unitLoop none, if_pos (by omega)]
  obtain ⟨j, hend, hj, hgiven, hlt, hge⟩ := h.parseLoop (by omega) (.ofNull 0)
  rw [Nat.zero_add] at hend hlt hge
  refine ⟨j, hj, hlt, hge, ?_⟩
  simp only [TsParser.parse, hcur, hbottom, hunit, hend, List.map_append, hgiven]
  exact ⟨trivial, trivial, trivial, trivial⟩

theorem flatten_drop (hp : ∀ x ∈ packets, IsPacket x) (k : ℕ) :
    packets.flatten.drop (188 * k) = (packets.drop k).flatten := by
  induction k generalizing packets with
  | zero => rfl
  | succ k ih =>
    cases packets with
    | nil => simp
    | cons x packets =>
      have hx : x.length = 188 := (hp x List.mem_cons_self).len
      rw [List.drop_succ_cons, ← ih fun y hy => hp y (List.mem_cons_of_mem _ hy), List.flatten_cons,
        show 188 * (k + 1) = 188 + 188 * k by omega, ← List.drop_drop, List.drop_left' hx]

theorem headers_take_add (packets : List (List UInt8)) (k j : ℕ) :
    headers (packets.take (k + j)) =
      headers (packets.take k) ++ headers ((packets.drop k).take j) := by
  rw [List.take_add, headers, List.map_append, List.filter_append]
  rfl

/-- What the buffer holds is the beginning of the packets that have not been given. -/
theorem Framed.ahead (h : Framed packets before bytes k s) (hp : ∀ x ∈ packets, IsPacket x) {b : ℕ}
    (hb : s.bottom = some b) : Ahead s.innerBuff b 0 (packets.drop k) where
  le := by
    have := h.bottom_le
    rw [hb, Option.getD_some] at this
    rw [h.len]
    exact this
  packets := fun x hx => hp x (List.drop_subset k packets hx)
  front := by
    have hheld := h.held
    rw [TsParser.held, hb, Option.getD_some] at hheld
    rw [hheld, ← flatten_drop hp]
    exact h.stream.drop _

theorem Framed.copy (h : Framed packets before bytes k s) (hs : bytes ++ c <+: packets.flatten)
    (hroom : s.bottom.getD 0 + c.length ≤ innerBuffSize) :
    ∃ t, s.copyToInnerBuffer c = (.caching, t) ∧ Framed packets before (bytes ++ c) k t := by
  obtain ⟨t, ht, hlen, hbottom, hgiven, hheld⟩ := copy_room h.len hroom
  refine ⟨t, ht, hlen, hbottom ▸ hroom, hs, ?_, hgiven ▸ h.given, ?_⟩
  · rw [List.length_append]
    exact Nat.le_add_right_of_le h.le
  · rw [hheld, h.held, List.drop_append_of_le_length h.le]

/-- When the buffer is full, packets are given until there is room. -/
theorem Framed.parse (h : Framed packets before bytes k s) (hp : ∀ x ∈ packets, IsPacket x) {b : ℕ}
    (hbottom : s.bottom = some b) (hb : 204 * 3 < b) :
    ∃ k', k ≤ k' ∧
      Framed packets before bytes k' ({ s with current := some 0 } : TsParser).parse.carryOver ∧
      ({ s with current := some 0 } : TsParser).parse.carryOver.bottom.getD 0 ≤ 188 := by
  obtain ⟨j, -, hlt, hge, hbuff, hbottom', hremain, hgiven⟩ :=
    Ahead.parse (s := { s with current := some 0 }) (h.ahead hp hbottom) hb rfl hbottom
  set t := ({ s with current := some 0 } : TsParser).parse with ht
  have hle : b ≤ innerBuffSize := by
    have := h.bottom_le
    rwa [hbottom] at this
  have hbuff' : t.innerBuff = s.innerBuff := hbuff
  have hcarry : t.carryOver =
      { t with
        innerBuff := write s.innerBuff 0 (slice s.innerBuff (188 * j) b)
        bottom := some (b - 188 * j) } := by
    rw [carryOver, hbottom']
    simp only [hremain, if_pos (show 0 < b - 188 * j by omega), hbuff',
      show b - (b - 188 * j) = 188 * j by omega]
  have hslice : (slice s.innerBuff (188 * j) b).length = b - 188 * j :=
    length_slice _ (by rw [h.len]; exact hle)
  have hheld : slice s.innerBuff (188 * j) b = bytes.drop (188 * (k + j)) := by
    have hs := h.held
    rw [TsParser.held, hbottom, Option.getD_some] at hs
    rw [Nat.mul_add, ← List.drop_drop, ← hs, slice, slice, List.drop_zero]
  have hbytes : bytes.length - 188 * (k + j) = b - 188 * j := by
    rw [← List.length_drop, ← hheld, hslice]
  rw [hcarry]
  refine ⟨k + j, Nat.le_add_right k j, ⟨?_, ?_, h.stream, by omega, ?_, ?_⟩, ?_⟩
  · show (write _ _ _).length = _
    rw [length_write _ _ (by rw [hslice, h.len]; omega), h.len]
  · show b - 188 * j ≤ innerBuffSize
    omega
  · show t.given.map TsPacket.header = _
    rw [hgiven, headers_take_add, ← List.append_assoc, ← h.given]
  · show slice (write _ _ _) 0 (b - 188 * j) = _
    rw [slice_write_self _ _ (Nat.zero_le _) (by rw [hslice, Nat.zero_add]), hheld]
  · show b - 188 * j ≤ 188
    omega

/-- **`put`.** -/
theorem Framed.put (h : Framed packets before bytes k s) (hp : ∀ x ∈ packets, IsPacket x)
    (hc : c.length ≤ 1024) (hs : bytes ++ c <+: packets.flatten) :
    ∃ k', k ≤ k' ∧ Framed packets before (bytes ++ c) k' (s.put c) := by
  have hsize : innerBuffSize = 327675 := rfl
  unfold TsParser.put
  by_cases hnil : c = []
  · subst hnil
    rw [if_pos rfl, List.append_nil]
    exact ⟨k, Nat.le_refl k, h⟩
  rw [if_neg hnil]
  by_cases hroom : s.bottom.getD 0 + c.length ≤ innerBuffSize
  · obtain ⟨t, ht, hframed⟩ := h.copy hs hroom
    rw [ht]
    exact ⟨k, Nat.le_refl k, hframed⟩
  · obtain ⟨hfull, b, hb⟩ := copy_full hc h.bottom_le (Nat.lt_of_not_le hroom)
    rw [hb, Option.getD_some] at hroom
    obtain ⟨k', hk, hframed, hle⟩ := h.parse hp hb (by omega)
    obtain ⟨t, ht, hframed'⟩ := hframed.copy hs (by omega)
    rw [hfull]
    simp only [ht]
    exact ⟨k', hk, hframed'⟩

/-- `put`, for one chunk after the other. -/
def puts (s : TsParser) (chunks : List (List UInt8)) : TsParser := chunks.foldl put s

theorem Framed.puts {chunks : List (List UInt8)} (h : Framed packets before bytes k s)
    (hp : ∀ x ∈ packets, IsPacket x) (hc : ∀ c ∈ chunks, c.length ≤ 1024)
    (hs : bytes ++ chunks.flatten <+: packets.flatten) :
    ∃ k', k ≤ k' ∧ Framed packets before (bytes ++ chunks.flatten) k' (s.puts chunks) := by
  induction chunks generalizing s bytes k with
  | nil =>
    rw [List.flatten_nil, List.append_nil] at hs ⊢
    exact ⟨k, Nat.le_refl k, h⟩
  | cons c chunks ih =>
    rw [List.flatten_cons, ← List.append_assoc] at hs ⊢
    obtain ⟨k', hk, h'⟩ := h.put hp (hc c List.mem_cons_self)
      ((List.prefix_append _ _).trans hs)
    obtain ⟨k'', hk', h''⟩ := ih h' (fun c hmem => hc c (List.mem_cons_of_mem _ hmem)) hs
    exact ⟨k'', Nat.le_trans hk hk', h''⟩

end TsParser

/-- **No packet is lost**, however a stream of packets is cut into chunks: of the first packets the
listener has been given the headers, in their order and each once, and the bytes behind them are
held in the buffer. -/
theorem framed_puts (s : TsParser) {buff : List UInt8} {packets chunks : List (List UInt8)}
    (hbuff : buff.length = innerBuffSize) (hp : ∀ x ∈ packets, IsPacket x)
    (hc : ∀ c ∈ chunks, 1 ≤ c.length ∧ c.length ≤ 1024)
    (hs : chunks.flatten <+: packets.flatten) :
    ∃ k, Framed packets (s.given.map TsPacket.header) chunks.flatten k
      ((s.reset buff).puts chunks) := by
  have h₀ : Framed packets (s.given.map TsPacket.header) [] 0 (s.reset buff) :=
    ⟨hbuff, Nat.zero_le _, List.nil_prefix, Nat.le_refl 0, (List.append_nil _).symm, rfl⟩
  obtain ⟨k, -, hk⟩ := h₀.puts hp (fun c hmem => (hc c hmem).2) hs
  exact ⟨k, hk⟩

/-- More packets than the buffer can hold, one by one: some of them have been given. -/
theorem framed_puts_many : ∃ packets : List (List UInt8), packets.length = 2000 ∧
    ∃ k, 0 < k ∧ Framed packets [] packets.flatten k
      ((reset ⟨[], none, none, 0, []⟩ (.replicate innerBuffSize 0)).puts packets) := by
  obtain ⟨x, hx⟩ : ∃ x, IsPacket x :=
    ⟨0x47 :: .replicate 187 0x1f, by rw [List.length_cons, List.length_replicate], rfl⟩
  have hlen : x.length = 188 := hx.len
  refine ⟨.replicate 2000 x, List.length_replicate, ?_⟩
  have hbuff : (List.replicate innerBuffSize (0 : UInt8)).length = innerBuffSize :=
    List.length_replicate
  have hp : ∀ y ∈ List.replicate 2000 x, IsPacket y := fun y hy => List.eq_of_mem_replicate hy ▸ hx
  have hc : ∀ y ∈ List.replicate 2000 x, 1 ≤ y.length ∧ y.length ≤ 1024 := fun y hy => by
    rw [List.eq_of_mem_replicate hy, hlen]
    decide
  obtain ⟨k, hk⟩ := framed_puts ⟨[], none, none, 0, []⟩ hbuff hp hc (List.prefix_refl _)
  refine ⟨k, ?_, hk⟩
  have hheld := congrArg List.length hk.held
  have hle := hk.bottom_le
  have hsize : innerBuffSize = 327675 := rfl
  have hbytes : (List.replicate 2000 x).flatten.length = 376000 := by
    rw [List.length_flatten, List.map_replicate, List.sum_replicate_nat, hlen]
  rw [TsParser.held, length_slice _ (by rw [hk.len]; exact hle), List.length_drop, hbytes] at hheld
  omega

end AutoRec
