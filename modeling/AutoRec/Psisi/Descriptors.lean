import AutoRec.Common.Etime
import AutoRec.Parser.Classes

/-!
# Descriptors

What the psisi manager reads in the descriptors of a table (`parser/psisi/descriptor`,
`parser/ts_arib_common.cpp`). Logging is left out. A reader goes forward through `data` and checks in
the end how far it has come, so that it fails if it reads behind the `length` bytes.

* `Conversions`: the conversion of texts and of dates.
* `serviceListDescriptor`, `terrestrialDeliverySystemDescriptor`, `tsInformationDescriptor`,
  `serviceDescriptor`, `shortEventDescriptor`: `none` if the descriptor is invalid.
* `getSecFromBcd`.
-/

namespace AutoRec

/-- The conversions that are not read here: `AribToString`, with the characters in front of the
first NUL, and `get_epoch_from_mjd`, which uses floating point and `mktime`. -/
structure Conversions where
  aribToString : List UInt8 → List UInt8
  getEpochFromMjd : List UInt8 → ℤ

/-- `service_list_descriptor::service`. -/
structure ListedService where
  serviceId : UInt16
  serviceType : UInt8
deriving DecidableEq, Repr

/-- `service_list_descriptor`. -/
def serviceListDescriptor : List UInt8 → Option (List ListedService)
  | [] => some []
  | b₀ :: b₁ :: b₂ :: rest => (serviceListDescriptor rest).map (⟨uimsbf16 b₀ b₁, b₂⟩ :: ·)
  | _ => none

/-- `terrestrial_delivery_system_descriptor`. -/
structure TerrestrialDeliverySystem where
  areaCode : UInt16
  guardInterval : UInt8
  transmissionMode : UInt8
  freqs : List UInt16
deriving DecidableEq, Repr

/-- The frequencies of a `terrestrial_delivery_system_descriptor`. -/
def readFreqs : List UInt8 → Option (List UInt16)
  | [] => some []
  | b₀ :: b₁ :: rest => (readFreqs rest).map (uimsbf16 b₀ b₁ :: ·)
  | _ => none

/-- `terrestrial_delivery_system_descriptor`. The area code is copied as the bytes lie, and the guard
interval is taken from the first byte plus one. -/
def terrestrialDeliverySystemDescriptor : List UInt8 → Option TerrestrialDeliverySystem
  | b₀ :: b₁ :: rest =>
    (readFreqs rest).map fun freqs => {
      areaCode := (uimsbf16 b₁ b₀ >>> 4) &&& 0x0fff
      guardInterval := (((b₀.toUInt16 + 1) >>> 2) &&& 0x03).toUInt8
      transmissionMode := b₁ &&& 0x03
      freqs := freqs }
  | _ => none

/-- `ts_information_descriptor`, without the transmissions. -/
structure TsInformation where
  remoteControlKeyId : UInt8
  tsName : List UInt8
deriving DecidableEq, Repr

/-- The bytes behind a number of transmissions. -/
def skipTransmissions : ℕ → List UInt8 → Option (List UInt8)
  | 0, p => some p
  | n + 1, _ :: num :: rest =>
    if rest.length < 2 * num.toNat then none else skipTransmissions n (rest.drop (2 * num.toNat))
  | _ + 1, _ => none

/-- `ts_information_descriptor`; there may be more bytes behind it. -/
def tsInformationDescriptor : List UInt8 → Option TsInformation
  | key :: b :: rest =>
    let len := ((b >>> 2) &&& 0x3f).toNat
    if rest.length < len then none
    else
      (skipTransmissions (b &&& 0x03).toNat (rest.drop len)).map fun _ => ⟨key, rest.take len⟩
  | _ => none

/-- A length and so many bytes, with what is behind them. -/
def readSized : List UInt8 → Option (List UInt8 × List UInt8)
  | n :: rest => if rest.length < n.toNat then none else some (rest.take n.toNat, rest.drop n.toNat)
  | [] => none

/-- `service_descriptor`. -/
structure ServiceDescriptor where
  serviceType : UInt8
  serviceProviderName : List UInt8
  serviceName : List UInt8
deriving DecidableEq, Repr

/-- `service_descriptor`. -/
def serviceDescriptor : List UInt8 → Option ServiceDescriptor
  | serviceType :: p =>
    match readSized p with
    | none => none
    | some (provider, p) =>
      match readSized p with
      | some (name, []) => some ⟨serviceType, provider, name⟩
      | _ => none
  | [] => none

/-- `short_event_descriptor`. -/
structure ShortEventDescriptor where
  iso639LanguageCode : List UInt8
  eventName : List UInt8
  text : List UInt8
deriving DecidableEq, Repr

/-- `short_event_descriptor`. -/
def shortEventDescriptor : List UInt8 → Option ShortEventDescriptor
  | c₀ :: c₁ :: c₂ :: p =>
    match readSized p with
    | none => none
    | some (name, p) =>
      match readSized p with
      | some (text, []) => some ⟨[c₀, c₁, c₂], name, text⟩
      | _ => none
  | _ => none

/-- `sprintf (buf, "%x", b)` and `atoi (buf)`. -/
def atoiOfHex (b : UInt8) : ℤ :=
  let hi := b.toNat / 16
  let lo := b.toNat % 16
  if hi = 0 then if lo < 10 then lo else 0
  else if 10 ≤ hi then 0
  else if lo < 10 then hi * 10 + lo
  else hi

/-- `get_sec_from_bcd`; -1 stands for an end that is not yet known. -/
def getSecFromBcd : List UInt8 → ℤ
  | [h, m, s] =>
    if h = 0xff ∧ m = 0xff ∧ s = 0xff then -1
    else atoiOfHex h * 3600 + atoiOfHex m * 60 + atoiOfHex s
  | _ => -1

end AutoRec
