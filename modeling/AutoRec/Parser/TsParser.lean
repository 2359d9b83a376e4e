import AutoRec.Lib.Arena

/-!
# The TS parser

`ts_parser` (`parser/ts_parser.cpp`): it cuts the bytes that come in into packets and hands them to
its listener. Logging and the bit rate are left out.

* `TsHeader.parse`: the header of a packet.
* `UnitSize`, `getUnitSize`, `checkUnitSize`: how far the packets lie apart.
* `getSyncTopAddr`, `parseLoop`, `parse`: the packets in the buffer.
* `copyToInnerBuffer`, `put`: the bytes that come in.
-/

namespace AutoRec

open Arena

/-- `TS_SYNC_BYTE`. -/
abbrev tsSyncByte : UInt8 := 0x47

/-- `TS_PACKET_LEN`. -/
abbrev tsPacketLen : ℕ := 188

/-- `TS_HEADER_LEN`. -/
abbrev tsHeaderLen : ℕ := 4

/-- `TS_HEADER`. -/
structure TsHeader where
  sync : UInt8
  transportErrorIndicator : UInt8
  payloadUnitStartIndicator : UInt8
  transportPriority : UInt8
  pid : UInt16
  transportScramblingControl : UInt8
  adaptationFieldControl : UInt8
  continuityCounter : UInt8
deriving DecidableEq, Repr

/-- `TS_HEADER ts_header = {0}` -/
def TsHeader.zero : TsHeader := ⟨0, 0, 0, 0, 0, 0, 0, 0⟩

/-- `TS_HEADER::parse`. -/
def TsHeader.parse : List UInt8 → TsHeader
  | b₀ :: b₁ :: b₂ :: b₃ :: _ =>
    { sync := b₀
      transportErrorIndicator := (b₁ >>> 7) &&& 0x01
      payloadUnitStartIndicator := (b₁ >>> 6) &&& 0x01
      transportPriority := (b₁ >>> 5) &&& 0x01
      pid := ((b₁ &&& 0x1f).toUInt16 <<< 8) ||| b₂.toUInt16
      transportScramblingControl := (b₃ >>> 6) &&& 0x03
      adaptationFieldControl := (b₃ >>> 4) &&& 0x03
      continuityCounter := b₃ &&& 0x0f }
  | _ => .zero

/-- Where `p_payload` points to: a place in the buffer, or one counted from the null pointer. -/
inductive PayloadPtr
  | ofBuff (i : ℕ)
  | ofNull (i : ℕ)
deriving DecidableEq, Repr

/-- `p += n` -/
def PayloadPtr.add (n : ℕ) : PayloadPtr → PayloadPtr
  | .ofBuff i => .ofBuff (i + n)
  | .ofNull i => .ofNull (i + n)

/-- A call of `on_ts_packet_available`. -/
structure TsPacket where
  header : TsHeader
  payload : PayloadPtr
  payloadSize : ℕ
deriving DecidableEq, Repr

/-- How far packets lie apart: 188 bytes, 192 with a timestamp, 204 with error correction. -/
inductive UnitSize
  | ts
  | tts
  | fec
deriving DecidableEq, Repr

/-- `unit_size`. -/
def UnitSize.bytes : UnitSize → ℕ
  | .ts => 188
  | .tts => 192
  | .fec => 204

theorem UnitSize.bytes_pos (u : UnitSize) : 0 < u.bytes := by
  cases u <;> decide

/-- `INNER_BUFF_SIZE`. -/
def innerBuffSize : ℕ := 65535 * 5

/-- `ts_parser`. The places in `inner_buff_` are counted from `mp_top`, its beginning; `none` is the
null pointer. `given` is what the listener has been given. -/
structure TsParser where
  innerBuff : List UInt8
  current : Option ℕ
  bottom : Option ℕ
  parseRemainLen : ℕ
  given : List TsPacket

namespace TsParser

/-- `reset`, with the new buffer, which holds anything. -/
def reset (s : TsParser) (buff : List UInt8) : TsParser :=
  { s with innerBuff := buff, current := none, bottom := none, parseRemainLen := 0 }

/-- `BuffState`. -/
inductive BuffState
  | caching
  | full
deriving DecidableEq, Repr

/-- `copy_to_inner_buffer`. -/
def copyToInnerBuffer (s : TsParser) (buff : List UInt8) : BuffState × TsParser :=
  if buff = [] then (.caching, s)
  else if innerBuffSize < buff.length then (.caching, s)
  else
    match s.bottom with
    | some bottom =>
      if buff.length ≤ innerBuffSize - bottom then
        (.caching,
          { s with innerBuff := write s.innerBuff bottom buff, bottom := some (bottom + buff.length) })
      else (.full, s)
    | none =>
      (.caching, { s with innerBuff := write s.innerBuff 0 buff, bottom := some buff.length })

section Buffer

variable (buff : List UInt8)

/-- `*p == TS_SYNC_BYTE`; no byte behind the buffer is one. -/
def isSync (p : ℕ) : Bool := buff[p]? == some tsSyncByte

/-- Three packets that lie `n` bytes apart, from `p` on. -/
def threeSyncs (p n : ℕ) : Bool := isSync buff p && isSync buff (p + n) && isSync buff (p + n * 2)

/-- The loop of `get_unit_size`. -/
def unitLoop (bottom p : ℕ) (unit : Option UnitSize) : Option UnitSize :=
  if _h : p + 204 * 3 < bottom then
    if threeSyncs buff p 188 then unitLoop bottom (p + 188 * 2) (some .ts)
    else if threeSyncs buff p 192 then unitLoop bottom (p + 192 * 2) (some .tts)
    else if threeSyncs buff p 204 then unitLoop bottom (p + 204 * 2) (some .fec)
    else unitLoop bottom (p + 1) unit
  else unit
termination_by bottom - p
decreasing_by all_goals omega

/-- `get_unit_size`. -/
def getUnitSize (current bottom : ℕ) : Option UnitSize := unitLoop buff bottom current none

/-- `get_sync_top_addr`. -/
def getSyncTopAddr (start stop unitSize : ℕ) : Option ℕ :=
  if unitSize * 8 ≤ stop - start then
    (List.range' start (stop - unitSize * 8 + 1 - start)).find? fun p =>
      isSync buff p && (List.range 8).all fun i => isSync buff (p + unitSize * (i + 1))
  else none

/-- `check_unit_size`, with the place that `mp_current` has come to. -/
def checkUnitSize (current bottom : ℕ) : Option UnitSize × ℕ :=
  match getUnitSize buff current bottom with
  | some u => (some u, current)
  | none =>
    if _h : current + 512 < bottom then checkUnitSize (current + 512) bottom else (none, current)
termination_by bottom - current
decreasing_by omega

/-- Where the next packet begins, from `p` on. -/
def syncTop (unit : UnitSize) (bottom p : ℕ) : Option ℕ :=
  if !isSync buff p && !isSync buff (p + unit.bytes) then getSyncTopAddr buff p bottom unit.bytes
  else some p

theorem syncTop_ge {unit : UnitSize} {bottom p q : ℕ} (h : syncTop buff unit bottom p = some q) :
    p ≤ q := by
  unfold syncTop getSyncTopAddr at h
  split_ifs at h
  · exact (List.mem_range'_1.mp (List.mem_of_find?_eq_some h)).1
  · exact Nat.le_of_eq (Option.some.inj h)

/-- `p_payload`, for the packet at `p`. -/
def nextPayload (p : ℕ) (payload : PayloadPtr) : PayloadPtr :=
  if (TsHeader.parse (buff.drop p)).adaptationFieldControl &&& 0x2 = 0x2 then
    -- the pointer is not set to the packet first
    payload.add ((buff.getD (p + tsHeaderLen) 0).toNat + 1)
  else .ofBuff (p + tsHeaderLen)

/-- The loop of `parse`, from the place `p`: the place where it ends, and what the listener is
given. -/
def parseLoop (unit : UnitSize) (bottom p : ℕ) (payload : PayloadPtr) : ℕ × List TsPacket :=
  if _h : p + unit.bytes < bottom then
    match _hq : syncTop buff unit bottom p with
    | none => parseLoop unit bottom (p + unit.bytes) payload
    | some q =>
      let header := TsHeader.parse (buff.drop q)
      let r := parseLoop unit bottom (q + unit.bytes) (nextPayload buff q payload)
      (r.1,
        if header.adaptationFieldControl ≠ 0x2 then
          ⟨header, nextPayload buff q payload, tsPacketLen - tsHeaderLen⟩ :: r.2
        else r.2)
  else (p, [])
termination_by bottom - p
decreasing_by
  · have := unit.bytes_pos
    omega
  · have := unit.bytes_pos
    have := syncTop_ge buff _hq
    omega

end Buffer

/-- `parse`. -/
def parse (s : TsParser) : TsParser :=
  match s.current, s.bottom with
  | some current, some bottom =>
    match checkUnitSize s.innerBuff current bottom with
    | (none, c) => { s with current := some c, parseRemainLen := 0 }
    | (some unit, c) =>
      let r := parseLoop s.innerBuff unit bottom current (.ofNull 0)
      { s with current := some c, parseRemainLen := bottom - r.1, given := s.given ++ r.2 }
  | _, _ => s

/-- What `parse` has left over is copied to the front of the buffer. -/
def carryOver (s : TsParser) : TsParser :=
  match s.bottom with
  | some bottom =>
    if 0 < s.parseRemainLen then
      { s with
        innerBuff := write s.innerBuff 0 (slice s.innerBuff (bottom - s.parseRemainLen) bottom)
        bottom := some s.parseRemainLen }
    else { s with bottom := some 0 }
  | none => s

/-- `put`. -/
def put (s : TsParser) (buff : List UInt8) : TsParser :=
  if buff = [] then s
  else
    match s.copyToInnerBuffer buff with
    | (.caching, s₁) => s₁
    | (.full, s₁) => (({ s₁ with current := some 0 } : TsParser).parse.carryOver.copyToInnerBuffer buff).2

end TsParser

end AutoRec
