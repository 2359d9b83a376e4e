import AutoRec.Descriptor.Reads
import AutoRec.Parser.Numbers

/-!
# Bit fields of descriptors

The fields of an audio component descriptor and of a terrestrial delivery system descriptor
(`parser/psisi/descriptor`), written back in the order and the widths of the format. The audio
component descriptor has its quality indicator and its sampling rate cut out one bit too far to the
left or to the right; the terrestrial one has its area code copied as the bytes lie, and its guard
interval taken from the wrong byte.

* `AudioComponentFields.writeBack`, `TerrestrialDeliverySystem.writeBack`.
* `audioFlags_iff`, `terrestrialHead_iff`: what is written back for the bytes with the bit fields.
* `BitFieldDescriptor.Lossless`; **`lossless_iff`**: when the bytes are reproduced.
-/

namespace AutoRec

open Reader

/-- The fields of an audio component descriptor as bytes. -/
def AudioComponentFields.writeBack (d : AudioComponentFields) : List UInt8 :=
  bytesOf 1 (packed [(4, d.reservedFutureUse.toNat), (4, d.streamContent.toNat)]) ++
    [d.componentType, d.componentTag, d.streamType, d.simulcastGroupTag] ++
    bytesOf 1 (packed [(1, d.esMultiLingualFlag.toNat), (1, d.mainComponentFlag.toNat),
      (2, d.qualityIndicator.toNat), (3, d.samplingRate.toNat), (1, d.reservedFutureUse2.toNat)]) ++
    d.iso639LanguageCode ++ d.iso639LanguageCode2 ++ d.textChar

/-- The fields of a terrestrial delivery system descriptor as bytes. -/
def TerrestrialDeliverySystem.writeBack (d : TerrestrialDeliverySystem) : List UInt8 :=
  bytesOf 2 (packed [(12, d.areaCode.toNat), (2, d.guardInterval.toNat),
    (2, d.transmissionMode.toNat)]) ++ d.freqs.flatMap fun f => bytesOf 2 f.toNat

/-- The data of a descriptor with bit fields. -/
inductive BitFieldDescriptor
  | audioComponent (data : List UInt8)
  | terrestrialDeliverySystem (data : List UInt8)

namespace BitFieldDescriptor

/-- The data has the fields of the format. -/
def WellFormed : BitFieldDescriptor → Prop
  | audioComponent data => data.length ≤ 255 ∧ DescriptorKind.audioComponent.Complete data
  | terrestrialDeliverySystem data => data.length ≤ 255 ∧ 2 ≤ data.length ∧ 2 ∣ data.length

/-- The fields are read, and written back they are the data. -/
def Lossless : BitFieldDescriptor → Prop
  | audioComponent data =>
    ∃ d, AudioComponentFields.parse.run data = .ok (some d, []) ∧ d.writeBack = data
  | terrestrialDeliverySystem data =>
    ∃ d, terrestrialDeliverySystemDescriptor data = some d ∧ d.writeBack = data

/-- The bits 6 to 4 of the sixth byte of an audio component descriptor are equal, and so are its
bits 3 to 0; the first two bytes of a terrestrial delivery system descriptor are equal, and do not
end with two ones. -/
def BitsAgree : BitFieldDescriptor → Prop
  | audioComponent data =>
    let b := data.getD 5 0
    (b &&& 0x70 = 0 ∨ b &&& 0x70 = 0x70) ∧ (b &&& 0x0f = 0 ∨ b &&& 0x0f = 0x0f)
  | terrestrialDeliverySystem data =>
    data.getD 0 0 = data.getD 1 0 ∧ data.getD 0 0 &&& 0x03 ≠ 0x03

end BitFieldDescriptor

/-! ## The bytes with bit fields -/

theorem audioHead_eq (b : UInt8) :
    bytesOf 1 (packed [(4, ((b >>> 4) &&& 0x0f).toNat), (4, (b &&& 0x0f).toNat)]) = [b] := by
  revert b
  exact forall_uint8 (by decide +kernel)

/-- What is written back for the sixth byte of an audio component descriptor. -/
def audioFlags (b : UInt8) : List UInt8 :=
  bytesOf 1 (packed [(1, ((b >>> 7) &&& 0x01).toNat), (1, ((b >>> 6) &&& 0x01).toNat),
    (2, ((b >>> 5) &&& 0x03).toNat), (3, (b &&& 0x07).toNat), (1, (b &&& 0x01).toNat)])

theorem audioFlags_iff (b : UInt8) : audioFlags b = [b] ↔
    (b &&& 0x70 = 0 ∨ b &&& 0x70 = 0x70) ∧ (b &&& 0x0f = 0 ∨ b &&& 0x0f = 0x0f) := by
  revert b
  exact forall_uint8 (by decide +kernel)

/-- The first two bytes of a terrestrial delivery system descriptor. -/
theorem terrestrialHead_iff (b₀ b₁ : UInt8) :
    bytesOf 2 (packed [(12, ((uimsbf16 b₁ b₀ >>> 4) &&& 0x0fff).toNat),
      (2, ((((b₀.toUInt16 + 1) >>> 2) &&& 0x03).toUInt8).toNat), (2, (b₁ &&& 0x03).toNat)]) =
        [b₀, b₁] ↔ b₀ = b₁ ∧ b₀ &&& 0x03 ≠ 0x03 := by
  have h₀ := b₀.toNat_lt
  have h₁ := b₁.toNat_lt
  have harea : ((uimsbf16 b₁ b₀ >>> 4) &&& 0x0fff).toNat = b₁.toNat * 16 + b₀.toNat / 16 := by
    have hshift : (uimsbf16 b₁ b₀ >>> 4).toNat = (b₁.toNat * 256 + b₀.toNat) / 16 := by
      rw [UInt16.toNat_shiftRight, toNat_uimsbf16, Nat.shiftRight_eq_div_pow]
      rfl
    have hand : ((uimsbf16 b₁ b₀ >>> 4) &&& 0x0fff).toNat = (uimsbf16 b₁ b₀ >>> 4).toNat % 4096 :=
      Nat.and_two_pow_sub_one_eq_mod _ 12
    rw [hand, hshift]
    omega
  have hguard : ((((b₀.toUInt16 + 1) >>> 2) &&& 0x03).toUInt8).toNat =
      (b₀.toNat + 1) / 4 % 4 := by
    have hadd : (b₀.toUInt16 + 1).toNat = b₀.toNat + 1 := by
      rw [UInt16.toNat_add, UInt8.toNat_toUInt16]
      exact Nat.mod_eq_of_lt (by show b₀.toNat + 1 < 2 ^ 16; omega)
    have hshift : ((b₀.toUInt16 + 1) >>> 2).toNat = (b₀.toNat + 1) / 4 := by
      rw [UInt16.toNat_shiftRight, hadd, Nat.shiftRight_eq_div_pow]
      rfl
    have hand : (((b₀.toUInt16 + 1) >>> 2) &&& 0x03).toNat =
        ((b₀.toUInt16 + 1) >>> 2).toNat % 4 := Nat.and_two_pow_sub_one_eq_mod _ 2
    rw [UInt16.toNat_toUInt8, hand, hshift]
    omega
  have hmode : (b₁ &&& 0x03).toNat = b₁.toNat % 4 := Nat.and_two_pow_sub_one_eq_mod b₁.toNat 2
  have hlow : b₀ &&& 0x03 ≠ 0x03 ↔ b₀.toNat % 4 ≠ 3 := by
    have hand : (b₀ &&& 0x03).toNat = b₀.toNat % 4 := Nat.and_two_pow_sub_one_eq_mod b₀.toNat 2
    rw [Ne, ← UInt8.toNat_inj, hand]
    rfl
  have hpacked : packed [(12, b₁.toNat * 16 + b₀.toNat / 16), (2, (b₀.toNat + 1) / 4 % 4),
      (2, b₁.toNat % 4)] =
      (b₁.toNat * 16 + b₀.toNat / 16) * 16 + (b₀.toNat + 1) / 4 % 4 * 4 + b₁.toNat % 4 := by
    simp only [packed, List.foldl_cons, List.foldl_nil]
    omega
  rw [harea, hguard, hmode, hpacked, bytesOf_two_eq_iff (by omega), hlow, ← UInt8.toNat_inj]
  omega

/-! ## Whole descriptors -/

theorem flatMap_readFreqs {p : List UInt8} {freqs : List UInt16} (h : readFreqs p = some freqs) :
    freqs.flatMap (fun f => bytesOf 2 f.toNat) = p := by
  induction p using readFreqs.induct generalizing freqs with
  | case1 =>
    cases h
    rfl
  | case2 b₀ b₁ rest ih =>
    rw [readFreqs, Option.map_eq_some_iff] at h
    obtain ⟨l, hl, rfl⟩ := h
    rw [List.flatMap_cons, bytesOf_uimsbf16, ih hl]
    rfl
  | case3 p hne hnot =>
    rw [readFreqs] at h
    · cases h
    · exact hne
    · exact hnot

theorem exists_readFreqs {p : List UInt8} (h : 2 ∣ p.length) :
    ∃ freqs, readFreqs p = some freqs := by
  induction p using readFreqs.induct with
  | case1 => exact ⟨[], rfl⟩
  | case2 b₀ b₁ rest ih =>
    simp only [List.length_cons] at h
    obtain ⟨l, hl⟩ := ih (by omega)
    exact ⟨uimsbf16 b₀ b₁ :: l, by rw [readFreqs, hl, Option.map_some]⟩
  | case3 p hne hnot =>
    match p with
    | [] => exact absurd rfl hne
    | [_] =>
      simp only [List.length_cons, List.length_nil] at h
      omega
    | b₀ :: b₁ :: rest => exact absurd rfl (hnot b₀ b₁ rest)

namespace BitFieldDescriptor

theorem lossless_audioComponent_iff {data : List UInt8}
    (h : (audioComponent data).WellFormed) :
    (audioComponent data).Lossless ↔ (audioComponent data).BitsAgree := by
  obtain ⟨v, s', hrun⟩ := (AudioComponentFields.exists_run_iff h.1).mpr h.2
  have hfields := hrun
  simp only [AudioComponentFields.parse, byte_bind_eq_ok_iff, copy_bind_eq_ok_iff,
    left_bind_eq_ok_iff, whenDone_eq_ok_iff] at hfields
  obtain ⟨b₀, _, rfl, b₁, _, rfl, b₂, _, rfl, b₃, _, rfl, b₄, _, rfl, b₅, _, rfl, lang, _,
    ⟨-, -, rfl⟩, lang₂, t, ⟨-, -, rfl⟩, text, u, ⟨-, hlen, rfl⟩, rfl, hv⟩ := hfields
  obtain rfl : u = [] := by
    rw [List.length_append] at hlen
    exact List.length_eq_zero_iff.mp (by omega)
  rw [if_pos rfl] at hv
  subst hv
  have hback : ∀ d, AudioComponentFields.parse.run
      (b₀ :: b₁ :: b₂ :: b₃ :: b₄ :: b₅ :: (lang ++ (lang₂ ++ (text ++ [])))) = .ok (some d, []) →
        d.writeBack = [b₀, b₁, b₂, b₃, b₄] ++ audioFlags b₅ ++ (lang ++ lang₂ ++ text) := by
    intro d hd
    cases hrun.symm.trans hd
    rw [AudioComponentFields.writeBack, audioHead_eq, List.append_assoc _ lang₂,
      List.append_assoc _ lang, List.append_assoc lang]
    rfl
  have hdata : b₀ :: b₁ :: b₂ :: b₃ :: b₄ :: b₅ :: (lang ++ (lang₂ ++ (text ++ []))) =
      [b₀, b₁, b₂, b₃, b₄] ++ [b₅] ++ (lang ++ lang₂ ++ text) := by
    rw [List.append_nil, List.append_assoc lang]
    rfl
  constructor
  · rintro ⟨d, hd, heq⟩
    rw [hback d hd, hdata] at heq
    exact (audioFlags_iff b₅).mp (List.append_cancel_left (List.append_cancel_right heq))
  · intro hagree
    refine ⟨_, hrun, ?_⟩
    rw [hback _ hrun, (audioFlags_iff b₅).mpr hagree, hdata]

theorem lossless_terrestrialDeliverySystem_iff {data : List UInt8}
    (h : (terrestrialDeliverySystem data).WellFormed) :
    (terrestrialDeliverySystem data).Lossless ↔ (terrestrialDeliverySystem data).BitsAgree := by
  obtain ⟨-, htwo, heven⟩ := h
  match data with
  | b₀ :: b₁ :: rest =>
    simp only [List.length_cons] at heven
    obtain ⟨freqs, hfreqs⟩ := exists_readFreqs (p := rest) (by omega)
    have hback := flatMap_readFreqs hfreqs
    have hhead := terrestrialHead_iff b₀ b₁
    show (∃ d : TerrestrialDeliverySystem, (readFreqs rest).map _ = some d ∧ _) ↔ _
    rw [hfreqs, Option.map_some]
    constructor
    · rintro ⟨d, hd, hd'⟩
      cases hd
      rw [TerrestrialDeliverySystem.writeBack, hback] at hd'
      exact hhead.mp (List.append_inj_left' hd' rfl)
    · intro hagree
      refine ⟨_, rfl, ?_⟩
      rw [TerrestrialDeliverySystem.writeBack, hback, hhead.mpr hagree]
      rfl
  | [_] => exact absurd htwo (Nat.not_succ_le_self 1)
  | [] => exact absurd htwo (by decide)

end BitFieldDescriptor

/-- **When the bit fields are reproduced.** -/
theorem lossless_iff (d : BitFieldDescriptor) (h : d.WellFormed) : d.Lossless ↔ d.BitsAgree := by
  cases d with
  | audioComponent data => exact BitFieldDescriptor.lossless_audioComponent_iff h
  | terrestrialDeliverySystem data =>
    exact BitFieldDescriptor.lossless_terrestrialDeliverySystem_iff h

open BitFieldDescriptor in
/-- An audio component descriptor with the quality indicator 1, which is read as 2; a terrestrial
delivery system descriptor with the area code 0x5a1, which is read as 0x1a5. -/
theorem not_lossless :
    ((audioComponent [0xf2, 3, 0x10, 0x0f, 0xff, 0x5f, 0x6a, 0x70, 0x6e]).WellFormed ∧
      ¬ (audioComponent [0xf2, 3, 0x10, 0x0f, 0xff, 0x5f, 0x6a, 0x70, 0x6e]).Lossless) ∧
    ((terrestrialDeliverySystem [0x5a, 0x1a, 0x0d, 0xa5]).WellFormed ∧
      ¬ (terrestrialDeliverySystem [0x5a, 0x1a, 0x0d, 0xa5]).Lossless) := by
  refine ⟨⟨⟨by decide, by decide, by decide⟩, ?_⟩, ⟨by decide, by decide, by decide⟩, ?_⟩
  · rintro ⟨d, hd, hback⟩
    have hrun : AudioComponentFields.parse.run [0xf2, 3, 0x10, 0x0f, 0xff, 0x5f, 0x6a, 0x70, 0x6e] =
      .ok (some ⟨0xf, 2, 3, 0x10, 0x0f, 0xff, 0, 1, 2, 7, 1, [0x6a, 0x70, 0x6e], [], []⟩, []) := rfl
    cases hrun.symm.trans hd
    revert hback
    decide
  · rintro ⟨d, hd, hback⟩
    have hrun : terrestrialDeliverySystemDescriptor [0x5a, 0x1a, 0x0d, 0xa5] =
      some ⟨0x1a5, 2, 2, [0x0da5]⟩ := rfl
    cases hrun.symm.trans hd
    revert hback
    decide

open BitFieldDescriptor in
/-- An audio component descriptor in two languages, of the quality 3 and the sampling rate 7, with a
text. -/
theorem lossless_audio : (audioComponent
    [0xf2, 3, 0x10, 0x0f, 0xff, 0xff, 0x6a, 0x70, 0x6e, 0x65, 0x6e, 0x67, 0x61]).Lossless :=
  (lossless_iff (audioComponent
    [0xf2, 3, 0x10, 0x0f, 0xff, 0xff, 0x6a, 0x70, 0x6e, 0x65, 0x6e, 0x67, 0x61])
    (show _ ≤ 255 ∧ 9 ≤ _ ∧ _ from ⟨by decide, by decide, by decide⟩)).mpr
    (show (_ ∨ _) ∧ (_ ∨ _) from ⟨.inr rfl, .inr rfl⟩)

end AutoRec
