import AutoRec.EventSchedule.Extraction
import AutoRec.Lib.Reader

/-!
# What the readers of descriptors read

The readers of short and extended event descriptors, of component descriptors and of service lists
(`parser/psisi/descriptor`), each over the `length` bytes of its descriptor. A length that is read
is used before it is checked.

* `ShortEventDescriptor.parse`, `ExtendedEventDescriptor.parse`, `ComponentFields.parse`,
  `AudioComponentFields.parse`, `ListedService.parseAll`.
* `DescriptorKind.ReadsInside`: nothing is read or written outside; `DescriptorKind.Complete`: the
  fields lie in the descriptor, as their lengths say.
* `ItemsEnd`, `ExtendedEventItem.parseAll_eq_ok_iff`: the loop over the items.
* `ShortEventDescriptor.eq_of_parse`, `ComponentFields.eq_of_parse`,
  `AudioComponentFields.eq_of_parse`, `ListedService.eq_of_parseAll`: what is accepted is what the
  managers take.
* **`descriptor_inside_iff`**.
-/

namespace AutoRec

open Reader

/-! ## The readers -/

/-- `short_event_descriptor::parse`. -/
def ShortEventDescriptor.parse : Reader UInt8 (Option ShortEventDescriptor) := do
  let iso639LanguageCode ← copy 3 4
  let eventName ← sized 255
  let text ← sized 255
  whenDone ⟨iso639LanguageCode, eventName, text⟩

/-- `extended_event_descriptor::item`. -/
structure ExtendedEventItem where
  itemDescription : List UInt8
  item : List UInt8
deriving DecidableEq, Repr

/-- `extended_event_descriptor`. -/
structure ExtendedEventDescriptor where
  descriptorNumber : UInt8
  lastDescriptorNumber : UInt8
  iso639LanguageCode : List UInt8
  lengthOfItems : UInt8
  items : List ExtendedEventItem
  text : List UInt8
deriving DecidableEq, Repr

/-- The loop over the items; `none` if the last one goes too far. An item takes two bytes or more,
so that the first argument does not run out before the second. -/
def ExtendedEventItem.parseAll : ℕ → ℕ → Reader UInt8 (Option (List ExtendedEventItem))
  | _, 0 => return some []
  | 0, _ + 1 => return none
  | fuel + 1, itemLen + 1 => do
    let itemDescription ← sized 255
    let item ← sized 255
    let taken := 1 + itemDescription.length + 1 + item.length
    if itemLen + 1 < taken then return none
    else
      let items ← parseAll fuel (itemLen + 1 - taken)
      return items.map (⟨itemDescription, item⟩ :: ·)

/-- `extended_event_descriptor::parse`. -/
def ExtendedEventDescriptor.parse : Reader UInt8 (Option ExtendedEventDescriptor) := do
  let b ← byte
  let iso639LanguageCode ← copy 3 4
  let lengthOfItems ← byte
  match ← ExtendedEventItem.parseAll lengthOfItems.toNat lengthOfItems.toNat with
  | none => return none
  | some items =>
    let text ← sized 255
    whenDone ⟨(b >>> 4) &&& 0x0f, b &&& 0x0f, iso639LanguageCode, lengthOfItems, items, text⟩

/-- `component_descriptor`, with all its fields. -/
structure ComponentFields where
  reservedFutureUse : UInt8
  streamContent : UInt8
  componentType : UInt8
  componentTag : UInt8
  iso639LanguageCode : List UInt8
  componentText : List UInt8
deriving DecidableEq, Repr

/-- `component_descriptor::parse`. The size of the text is what is left, `length - 6`. -/
def ComponentFields.parse : Reader UInt8 (Option ComponentFields) := do
  let b ← byte
  let componentType ← byte
  let componentTag ← byte
  let iso639LanguageCode ← copy 3 4
  let componentText ← copy (← left) 255
  whenDone ⟨(b >>> 4) &&& 0x0f, b &&& 0x0f, componentType, componentTag, iso639LanguageCode,
    componentText⟩

/-- `audio_component_descriptor`, with all its fields. -/
structure AudioComponentFields where
  reservedFutureUse : UInt8
  streamContent : UInt8
  componentType : UInt8
  componentTag : UInt8
  streamType : UInt8
  simulcastGroupTag : UInt8
  esMultiLingualFlag : UInt8
  mainComponentFlag : UInt8
  qualityIndicator : UInt8
  samplingRate : UInt8
  reservedFutureUse2 : UInt8
  iso639LanguageCode : List UInt8
  iso639LanguageCode2 : List UInt8
  textChar : List UInt8
deriving DecidableEq, Repr

/-- The flag in the sixth byte of an audio component descriptor. -/
def isMultiLingual (b : UInt8) : Bool := (b >>> 7) &&& 0x01 != 0

/-- `audio_component_descriptor::parse`. The quality indicator is taken from the bits 6 and 5, and
the last bit is taken twice. -/
def AudioComponentFields.parse : Reader UInt8 (Option AudioComponentFields) := do
  let b₀ ← byte
  let componentType ← byte
  let componentTag ← byte
  let streamType ← byte
  let simulcastGroupTag ← byte
  let b₅ ← byte
  let iso639LanguageCode ← copy 3 4
  let iso639LanguageCode2 ← copy (if isMultiLingual b₅ then 3 else 0) 4
  let textChar ← copy (← left) 255
  whenDone {
    reservedFutureUse := (b₀ >>> 4) &&& 0x0f
    streamContent := b₀ &&& 0x0f
    componentType := componentType
    componentTag := componentTag
    streamType := streamType
    simulcastGroupTag := simulcastGroupTag
    esMultiLingualFlag := (b₅ >>> 7) &&& 0x01
    mainComponentFlag := (b₅ >>> 6) &&& 0x01
    qualityIndicator := (b₅ >>> 5) &&& 0x03
    samplingRate := b₅ &&& 0x07
    reservedFutureUse2 := b₅ &&& 0x01
    iso639LanguageCode := iso639LanguageCode
    iso639LanguageCode2 := iso639LanguageCode2
    textChar := textChar }

/-- A service of a `service_list_descriptor`. -/
def ListedService.parse : Reader UInt8 ListedService := do
  let b₀ ← byte
  let b₁ ← byte
  let serviceType ← byte
  return ⟨uimsbf16 b₀ b₁, serviceType⟩

/-- The loop over the services; `none` if the last one goes too far. -/
def ListedService.parseLoop : ℕ → Reader UInt8 (Option (List ListedService))
  | 0 => return some []
  | serviceLen + 3 => do
    let sv ← ListedService.parse
    let services ← parseLoop serviceLen
    return services.map (sv :: ·)
  | _ + 1 => do
    let _ ← ListedService.parse
    return none

/-- `service_list_descriptor::parse`. -/
def ListedService.parseAll : Reader UInt8 (Option (List ListedService)) := do
  match ← ListedService.parseLoop (← left) with
  | none => return none
  | some services => whenDone services

/-! ## What they need -/

/-- The bytes of a short event descriptor. -/
def ShortEventDescriptor.bytes (d : ShortEventDescriptor) : List UInt8 :=
  d.iso639LanguageCode ++ sizedBytes d.eventName ++ sizedBytes d.text

/-- The language has three bytes, and the lengths fit in their bytes. -/
structure ShortEventDescriptor.WellFormed (d : ShortEventDescriptor) : Prop where
  iso639LanguageCode : d.iso639LanguageCode.length = 3
  eventName : d.eventName.length < 256
  text : d.text.length < 256

/-- The bytes of an item. -/
def ExtendedEventItem.bytes (x : ExtendedEventItem) : List UInt8 :=
  sizedBytes x.itemDescription ++ sizedBytes x.item

/-- The lengths of an item fit in their bytes. -/
def ExtendedEventItem.WellFormed (x : ExtendedEventItem) : Prop :=
  x.itemDescription.length < 256 ∧ x.item.length < 256

/-- The first items are shorter than the length says, and with the last one they are longer. -/
def ItemsOvershoot (items : List ExtendedEventItem) (n : ℕ) : Prop :=
  (items.dropLast.flatMap ExtendedEventItem.bytes).length < n ∧
    n < (items.flatMap ExtendedEventItem.bytes).length

/-- The readers. -/
inductive DescriptorKind
  | shortEvent
  | extendedEvent
  | component
  | audioComponent
  | serviceList

namespace DescriptorKind

/-- The reader reads only the `length` bytes of the descriptor, writes only to its arrays, and
returns true only if the fields fill the descriptor. -/
def ReadsInside (data : List UInt8) : DescriptorKind → Prop
  | shortEvent => Bounded ShortEventDescriptor.parse data
  | extendedEvent => Bounded ExtendedEventDescriptor.parse data
  | component => Bounded ComponentFields.parse data
  | audioComponent => Bounded AudioComponentFields.parse data
  | serviceList => Bounded ListedService.parseAll data

/-- The fields lie in the descriptor, as far as they are read: a text in front of which the items go
too far is not. -/
def Complete (data : List UInt8) : DescriptorKind → Prop
  | shortEvent => ∃ d : ShortEventDescriptor, d.WellFormed ∧ d.bytes <+: data
  | extendedEvent => ∃ (front : List UInt8) (n : UInt8) (items : List ExtendedEventItem),
      front.length = 4 ∧ (∀ x ∈ items, x.WellFormed) ∧
      (ItemsOvershoot items n.toNat ∧
          front ++ n :: items.flatMap ExtendedEventItem.bytes <+: data ∨
        (items.flatMap ExtendedEventItem.bytes).length = n.toNat ∧ ∃ text : List UInt8,
          text.length < 256 ∧
          front ++ n :: (items.flatMap ExtendedEventItem.bytes ++ sizedBytes text) <+: data)
  | component => 6 ≤ data.length
  | audioComponent => 9 ≤ data.length ∧ (isMultiLingual (data.getD 5 0) = true → 12 ≤ data.length)
  | serviceList => 3 ∣ data.length

end DescriptorKind

/-! ## What is read -/

section Items

variable {x : ExtendedEventItem} {items : List ExtendedEventItem} {n fuel : ℕ} {s s' : List UInt8}

theorem ExtendedEventItem.length_bytes (x : ExtendedEventItem) :
    x.bytes.length = 1 + x.itemDescription.length + 1 + x.item.length := by
  rw [bytes, sizedBytes, sizedBytes, List.length_append, List.length_cons, List.length_cons]
  omega

theorem not_itemsOvershoot_nil : ¬ ItemsOvershoot [] n := fun h => Nat.not_lt_zero _ h.2

theorem itemsOvershoot_cons_iff : ItemsOvershoot (x :: items) n ↔
    n < x.bytes.length ∧ items = [] ∧ n ≠ 0 ∨
      x.bytes.length ≤ n ∧ ItemsOvershoot items (n - x.bytes.length) := by
  unfold ItemsOvershoot
  cases items with
  | nil =>
    simp only [List.dropLast_singleton, List.flatMap_nil, List.length_nil, List.flatMap_cons,
      List.append_nil, List.dropLast_nil, true_and]
    omega
  | cons y l =>
    rw [List.dropLast_cons_cons, List.flatMap_cons, List.flatMap_cons, List.length_append,
      List.length_append]
    simp only [reduceCtorEq, false_and, and_false, false_or]
    omega

/-- How the loop ends for items, with `n` bytes for them: they fill the bytes, or the last one goes
too far. -/
def ItemsEnd (items : List ExtendedEventItem) (n : ℕ) (v : Option (List ExtendedEventItem)) : Prop :=
  (items.flatMap ExtendedEventItem.bytes).length = n ∧ v = some items ∨
    ItemsOvershoot items n ∧ v = none

theorem itemsEnd_nil_iff {v : Option (List ExtendedEventItem)} :
    ItemsEnd [] n v ↔ n = 0 ∧ v = some [] := by
  rw [ItemsEnd, or_iff_left fun h => not_itemsOvershoot_nil h.1, List.flatMap_nil, List.length_nil,
    eq_comm]

theorem itemsEnd_cons_iff {v : Option (List ExtendedEventItem)} :
    ItemsEnd (x :: items) n v ↔ n < x.bytes.length ∧ items = [] ∧ n ≠ 0 ∧ v = none ∨
      x.bytes.length ≤ n ∧ ∃ w, ItemsEnd items (n - x.bytes.length) w ∧ v = w.map (x :: ·) := by
  rw [ItemsEnd, itemsOvershoot_cons_iff, List.flatMap_cons, List.length_append]
  constructor
  · rintro (⟨hlen, rfl⟩ | ⟨⟨hlt, hnil, hn⟩ | ⟨hle, hover⟩, rfl⟩)
    · exact .inr ⟨by omega, some items, .inl ⟨by omega, rfl⟩, rfl⟩
    · exact .inl ⟨hlt, hnil, hn, rfl⟩
    · exact .inr ⟨hle, none, .inr ⟨hover, rfl⟩, rfl⟩
  · rintro (⟨hlt, hnil, hn, rfl⟩ | ⟨hle, w, ⟨hlen, rfl⟩ | ⟨hover, rfl⟩, rfl⟩)
    · exact .inr ⟨.inl ⟨hlt, hnil, hn⟩, rfl⟩
    · exact .inl ⟨by omega, rfl⟩
    · exact .inr ⟨.inr ⟨hle, hover⟩, rfl⟩

theorem ExtendedEventItem.parseAll_bytes_append {v : Option (List ExtendedEventItem)}
    {t : List UInt8} (hx : x.WellFormed) :
    (parseAll (fuel + 1) (n + 1)).run (x.bytes ++ t) = .ok (v, s') ↔
      n + 1 < x.bytes.length ∧ v = none ∧ t = s' ∨ x.bytes.length ≤ n + 1 ∧ ∃ w,
        (parseAll fuel (n + 1 - x.bytes.length)).run t = .ok (w, s') ∧ v = w.map (x :: ·) := by
  have hdescription : (sized 255).run (x.bytes ++ t) =
      .ok (x.itemDescription, sizedBytes x.item ++ t) :=
    sized_eq_ok_iff.mpr ⟨hx.1, List.append_assoc _ _ _⟩
  have hitem : (sized 255).run (sizedBytes x.item ++ t) = .ok (x.item, t) :=
    sized_eq_ok_iff.mpr ⟨hx.2, rfl⟩
  rw [parseAll, bind_ok hdescription, bind_ok hitem]
  dsimp only
  rw [← x.length_bytes]
  by_cases htaken : n + 1 < x.bytes.length
  · rw [if_pos htaken, pure_eq_ok_iff]
    constructor
    · rintro ⟨rfl, rfl⟩
      exact .inl ⟨htaken, rfl, rfl⟩
    · rintro (⟨-, rfl, rfl⟩ | ⟨hle, -⟩)
      · exact ⟨rfl, rfl⟩
      · omega
  · rw [if_neg htaken, bind_eq_ok_iff]
    constructor
    · rintro ⟨w, u, hw, h⟩
      obtain ⟨rfl, rfl⟩ := pure_eq_ok_iff.mp h
      exact .inr ⟨Nat.not_lt.mp htaken, w, hw, rfl⟩
    · rintro (⟨hlt, -⟩ | ⟨-, w, hw, rfl⟩)
      · exact absurd hlt htaken
      · exact ⟨w, s', hw, pure_eq_ok_iff.mpr ⟨rfl, rfl⟩⟩

theorem ExtendedEventItem.exists_bytes_append {v : Option (List ExtendedEventItem)}
    (h : (parseAll (fuel + 1) (n + 1)).run s = .ok (v, s')) :
    ∃ (x : ExtendedEventItem) (t : List UInt8), x.WellFormed ∧ s = x.bytes ++ t := by
  rw [parseAll] at h
  obtain ⟨d, t, hd, h⟩ := bind_eq_ok_iff.mp h
  obtain ⟨i, u, hi, -⟩ := bind_eq_ok_iff.mp h
  obtain ⟨hdlen, rfl⟩ := sized_eq_ok_iff.mp hd
  obtain ⟨hilen, rfl⟩ := sized_eq_ok_iff.mp hi
  exact ⟨⟨d, i⟩, u, ⟨hdlen, hilen⟩, (List.append_assoc _ _ _).symm⟩

theorem ExtendedEventItem.parseAll_zero_eq_ok_iff {v : Option (List ExtendedEventItem)} :
    (parseAll fuel 0).run s = .ok (v, s') ↔
      ∃ items : List ExtendedEventItem, (∀ x ∈ items, x.WellFormed) ∧
        s = items.flatMap bytes ++ s' ∧ ItemsEnd items 0 v := by
  rw [parseAll, pure_eq_ok_iff]
  constructor
  · rintro ⟨rfl, rfl⟩
    exact ⟨[], fun x hx => absurd hx List.not_mem_nil, rfl, .inl ⟨rfl, rfl⟩⟩
  · rintro ⟨items, -, rfl, hend⟩
    cases items with
    | nil => exact ⟨(itemsEnd_nil_iff.mp hend).2.symm, rfl⟩
    | cons x l =>
      have hlen := x.length_bytes
      rcases itemsEnd_cons_iff.mp hend with ⟨-, -, hzero, -⟩ | ⟨hle, -⟩
      · exact absurd rfl hzero
      · omega

/-- **The loop over the items** reads items that fill the length, or whose last goes too far. -/
theorem ExtendedEventItem.parseAll_eq_ok_iff {v : Option (List ExtendedEventItem)}
    (hfuel : n ≤ fuel) : (parseAll fuel n).run s = .ok (v, s') ↔
      ∃ items : List ExtendedEventItem, (∀ x ∈ items, x.WellFormed) ∧
        s = items.flatMap bytes ++ s' ∧ ItemsEnd items n v := by
  induction fuel generalizing n s v with
  | zero =>
    obtain rfl := Nat.le_zero.mp hfuel
    exact parseAll_zero_eq_ok_iff
  | succ fuel ih =>
    cases n with
    | zero => exact parseAll_zero_eq_ok_iff
    | succ n =>
      constructor
      · intro h
        obtain ⟨x, t, hx, rfl⟩ := exists_bytes_append h
        have hlen := x.length_bytes
        rcases (parseAll_bytes_append hx).mp h with ⟨hlt, rfl, rfl⟩ | ⟨hle, w, hrest, rfl⟩
        · refine ⟨[x], fun y hy => ?_, by rw [List.flatMap_singleton], ?_⟩
          · rwa [List.mem_singleton.mp hy]
          · exact itemsEnd_cons_iff.mpr (.inl ⟨hlt, rfl, Nat.succ_ne_zero n, rfl⟩)
        · obtain ⟨l, hl, rfl, hend⟩ := (ih (by omega)).mp hrest
          refine ⟨x :: l, List.forall_mem_cons.mpr ⟨hx, hl⟩, ?_, ?_⟩
          · rw [List.flatMap_cons, List.append_assoc]
          · exact itemsEnd_cons_iff.mpr (.inr ⟨hle, w, hend, rfl⟩)
      · rintro ⟨items, hwf, rfl, hend⟩
        cases items with
        | nil => exact absurd (itemsEnd_nil_iff.mp hend).1 (Nat.succ_ne_zero n)
        | cons x l =>
          obtain ⟨hx, hl⟩ := List.forall_mem_cons.mp hwf
          have hlen := x.length_bytes
          rw [List.flatMap_cons, List.append_assoc, parseAll_bytes_append hx]
          rcases itemsEnd_cons_iff.mp hend with ⟨hlt, rfl, -, rfl⟩ | ⟨hle, w, hrest, rfl⟩
          · exact .inl ⟨hlt, rfl, rfl⟩
          · exact .inr ⟨hle, w, (ih (by omega)).mpr ⟨l, hl, rfl, hrest⟩, rfl⟩

end Items

section Runs

variable {s s' : List UInt8}

theorem ShortEventDescriptor.parse_eq_ok_iff {v : Option ShortEventDescriptor} :
    parse.run s = .ok (v, s') ↔ ∃ d : ShortEventDescriptor, d.WellFormed ∧ s = d.bytes ++ s' ∧
      v = if s' = [] then some d else none := by
  simp only [parse, copy_bind_eq_ok_iff, sized_bind_eq_ok_iff, whenDone_eq_ok_iff]
  constructor
  · rintro ⟨lang, _, ⟨-, hlang, rfl⟩, name, _, ⟨hname, rfl⟩, text, _, ⟨htext, rfl⟩, rfl, rfl⟩
    refine ⟨⟨lang, name, text⟩, ⟨hlang, hname, htext⟩, ?_, rfl⟩
    rw [bytes, List.append_assoc, List.append_assoc]
  · rintro ⟨d, ⟨hlang, hname, htext⟩, rfl, rfl⟩
    rw [bytes, List.append_assoc, List.append_assoc]
    exact ⟨d.iso639LanguageCode, _, ⟨by decide, hlang, rfl⟩, d.eventName, _, ⟨hname, rfl⟩,
      d.text, s', ⟨htext, rfl⟩, rfl, rfl⟩

theorem ShortEventDescriptor.checked_parse : Checked parse :=
  .bind fun _ => .bind fun _ => .bind fun _ => checked_whenDone _

theorem ExtendedEventDescriptor.checked_parse : Checked parse := by
  refine .bind fun _ => .bind fun _ => .bind fun _ => .bind fun items => ?_
  cases items with
  | none => exact checked_pure_none
  | some items => exact .bind fun _ => checked_whenDone _

theorem ComponentFields.checked_parse : Checked parse :=
  .bind fun _ => .bind fun _ => .bind fun _ => .bind fun _ => .bind fun _ => .bind fun _ =>
    checked_whenDone _

theorem AudioComponentFields.checked_parse : Checked parse :=
  .bind fun _ => .bind fun _ => .bind fun _ => .bind fun _ => .bind fun _ => .bind fun _ =>
    .bind fun _ => .bind fun _ => .bind fun _ => .bind fun _ => checked_whenDone _

theorem ListedService.checked_parseAll : Checked parseAll := by
  refine .bind fun n => .bind fun services => ?_
  cases services with
  | none => exact checked_pure_none
  | some services => exact checked_whenDone _

theorem ExtendedEventDescriptor.exists_run_iff : (∃ v s', parse.run s = .ok (v, s')) ↔
    DescriptorKind.extendedEvent.Complete s := by
  simp only [parse, byte_bind_eq_ok_iff, copy_bind_eq_ok_iff]
  constructor
  · rintro ⟨v, s', b, _, rfl, lang, _, ⟨-, hlang, rfl⟩, n, _, rfl, h⟩
    obtain ⟨_, t, hitems, h⟩ := bind_eq_ok_iff.mp h
    obtain ⟨items, hwf, rfl, hend⟩ :=
      (ExtendedEventItem.parseAll_eq_ok_iff (Nat.le_refl _)).mp hitems
    refine ⟨b :: lang, n, items, congrArg Nat.succ hlang, hwf, ?_⟩
    rcases hend with ⟨hlen, rfl⟩ | ⟨hover, rfl⟩
    · obtain ⟨text, u, ⟨htext, rfl⟩, -⟩ := sized_bind_eq_ok_iff.mp h
      exact .inr ⟨hlen, text, htext, u, by simp only [List.cons_append, List.append_assoc]⟩
    · exact .inl ⟨hover, t, by simp only [List.cons_append, List.append_assoc]⟩
  · rintro ⟨front, n, items, hfront, hwf, hcase⟩
    obtain ⟨b, lang, rfl⟩ := List.exists_cons_of_length_eq_add_one hfront
    have hlang : lang.length = 3 := Nat.succ.inj hfront
    rcases hcase with ⟨hover, rest, rfl⟩ | ⟨hlen, text, htext, rest, rfl⟩
    · have hitems : (ExtendedEventItem.parseAll n.toNat n.toNat).run
          (items.flatMap ExtendedEventItem.bytes ++ rest) = .ok (none, rest) :=
        (ExtendedEventItem.parseAll_eq_ok_iff (Nat.le_refl _)).mpr
          ⟨items, hwf, rfl, .inr ⟨hover, rfl⟩⟩
      refine ⟨none, rest, b, _, List.cons_append, lang, _,
        ⟨by decide, hlang, List.append_assoc ..⟩, n, _, List.cons_append, ?_⟩
      rw [bind_ok hitems]
      rfl
    · have hitems : (ExtendedEventItem.parseAll n.toNat n.toNat).run
          (items.flatMap ExtendedEventItem.bytes ++ (sizedBytes text ++ rest)) =
            .ok (some items, sizedBytes text ++ rest) :=
        (ExtendedEventItem.parseAll_eq_ok_iff (Nat.le_refl _)).mpr
          ⟨items, hwf, rfl, .inl ⟨hlen, rfl⟩⟩
      let d : ExtendedEventDescriptor := ⟨(b >>> 4) &&& 0x0f, b &&& 0x0f, lang, n, items, text⟩
      refine ⟨if rest = [] then some d else none, rest, b, _, List.cons_append, lang, _,
        ⟨by decide, hlang, List.append_assoc ..⟩, n, _, List.cons_append, ?_⟩
      rw [List.append_assoc, bind_ok hitems]
      exact sized_bind_eq_ok_iff.mpr ⟨text, rest, ⟨htext, rfl⟩, whenDone_eq_ok_iff.mpr ⟨rfl, rfl⟩⟩

theorem ComponentFields.exists_run_iff (hlen : s.length ≤ 255) :
    (∃ v s', parse.run s = .ok (v, s')) ↔ 6 ≤ s.length := by
  simp only [parse, byte_bind_eq_ok_iff, copy_bind_eq_ok_iff, left_bind_eq_ok_iff,
    whenDone_eq_ok_iff]
  constructor
  · rintro ⟨v, s', b₀, _, rfl, b₁, _, rfl, b₂, _, rfl, lang, _, ⟨-, hlang, rfl⟩, -⟩
    simp only [List.length_cons, List.length_append]
    omega
  · intro h
    match s with
    | b₀ :: b₁ :: b₂ :: b₃ :: b₄ :: b₅ :: rest =>
      simp only [List.length_cons] at hlen
      exact ⟨_, [], b₀, _, rfl, b₁, _, rfl, b₂, _, rfl, [b₃, b₄, b₅], rest, ⟨by decide, rfl, rfl⟩,
        rest, [], ⟨by omega, rfl, (List.append_nil rest).symm⟩, rfl, rfl⟩
    | [] | [_] | [_, _] | [_, _, _] | [_, _, _, _] | [_, _, _, _, _] => simp at h

theorem AudioComponentFields.exists_run_iff (hlen : s.length ≤ 255) :
    (∃ v s', parse.run s = .ok (v, s')) ↔ DescriptorKind.audioComponent.Complete s := by
  simp only [parse, byte_bind_eq_ok_iff, copy_bind_eq_ok_iff, left_bind_eq_ok_iff,
    whenDone_eq_ok_iff]
  constructor
  · rintro ⟨v, s', b₀, _, rfl, b₁, _, rfl, b₂, _, rfl, b₃, _, rfl, b₄, _, rfl, b₅, _, rfl,
      lang, _, ⟨-, hlang, rfl⟩, lang₂, _, ⟨-, hlang₂, rfl⟩, -⟩
    refine ⟨?_, fun hflag => ?_⟩
    · simp only [List.length_cons, List.length_append]
      omega
    · have hflag : isMultiLingual b₅ = true := hflag
      rw [if_pos hflag] at hlang₂
      simp only [List.length_cons, List.length_append]
      omega
  · rintro ⟨hnine, hflag⟩
    match s with
    | b₀ :: b₁ :: b₂ :: b₃ :: b₄ :: b₅ :: b₆ :: b₇ :: b₈ :: rest =>
      have hflag : isMultiLingual b₅ = true → 3 ≤ rest.length := fun h => by
        have := hflag h
        simp only [List.length_cons] at this
        omega
      simp only [List.length_cons] at hlen
      refine ⟨_, [], b₀, _, rfl, b₁, _, rfl, b₂, _, rfl, b₃, _, rfl, b₄, _, rfl, b₅, _, rfl,
        [b₆, b₇, b₈], rest, ⟨by decide, rfl, rfl⟩, rest.take (if isMultiLingual b₅ then 3 else 0),
        rest.drop (if isMultiLingual b₅ then 3 else 0), ⟨?_, ?_, ?_⟩, _, [],
        ⟨?_, rfl, (List.append_nil _).symm⟩, rfl, rfl⟩
      · split_ifs <;> decide
      · rw [List.length_take]
        split_ifs with h
        · exact Nat.min_eq_left (hflag h)
        · exact Nat.zero_min _
      · exact (List.take_append_drop ..).symm
      · rw [List.length_drop]
        omega
    | [] | [_] | [_, _] | [_, _, _] | [_, _, _, _] | [_, _, _, _, _] | [_, _, _, _, _, _]
    | [_, _, _, _, _, _, _] | [_, _, _, _, _, _, _, _] => simp at hnine

theorem ListedService.parse_eq_ok_iff {x : ListedService} : parse.run s = .ok (x, s') ↔
    ∃ b₀ b₁ b₂, s = b₀ :: b₁ :: b₂ :: s' ∧ x = ⟨uimsbf16 b₀ b₁, b₂⟩ := by
  simp only [parse, byte_bind_eq_ok_iff, pure_eq_ok_iff]
  constructor
  · rintro ⟨b₀, _, rfl, b₁, _, rfl, b₂, _, rfl, rfl, rfl⟩
    exact ⟨b₀, b₁, b₂, rfl, rfl⟩
  · rintro ⟨b₀, b₁, b₂, rfl, rfl⟩
    exact ⟨b₀, _, rfl, b₁, _, rfl, b₂, _, rfl, rfl, rfl⟩

theorem ListedService.run_parseLoop (h : 3 ∣ s.length) :
    (parseLoop s.length).run s = .ok (serviceListDescriptor s, []) := by
  induction s using serviceListDescriptor.induct with
  | case1 => rfl
  | case2 b₀ b₁ b₂ rest ih =>
    have hrest : 3 ∣ rest.length := by
      simp only [List.length_cons] at h
      omega
    rw [serviceListDescriptor]
    show (parseLoop (rest.length + 3)).run (b₀ :: b₁ :: b₂ :: rest) = _
    rw [parseLoop, bind_ok (parse_eq_ok_iff.mpr ⟨b₀, b₁, b₂, rfl, rfl⟩), bind_ok (ih hrest)]
    rfl
  | case3 s hne hnot =>
    match s with
    | [] => exact absurd rfl hne
    | [_] | [_, _] =>
      simp only [List.length_cons, List.length_nil] at h
      omega
    | b₀ :: b₁ :: b₂ :: rest => exact absurd rfl (hnot b₀ b₁ b₂ rest)

/-- The last service has to lie in the descriptor too. -/
theorem ListedService.dvd_of_run_parseLoop {v : Option (List ListedService)} {n : ℕ}
    (hn : s.length = n) (h : (parseLoop n).run s = .ok (v, s')) : 3 ∣ n := by
  induction n using parseLoop.induct generalizing s v s' with
  | case1 => exact Nat.dvd_zero 3
  | case2 n ih =>
    rw [parseLoop] at h
    obtain ⟨sv, t, hsv, hrest⟩ := bind_eq_ok_iff.mp h
    obtain ⟨l, u, hl, -⟩ := bind_eq_ok_iff.mp hrest
    obtain ⟨b₀, b₁, b₂, rfl, -⟩ := parse_eq_ok_iff.mp hsv
    simp only [List.length_cons] at hn
    have := ih (by omega) hl
    omega
  | case3 n hne =>
    rw [parseLoop] at h
    · obtain ⟨sv, t, hsv, -⟩ := bind_eq_ok_iff.mp h
      obtain ⟨b₀, b₁, b₂, rfl, -⟩ := parse_eq_ok_iff.mp hsv
      simp only [List.length_cons] at hn
      exact absurd (by omega) (hne (n - 2))
    · exact hne

theorem ListedService.exists_run_iff :
    (∃ v s', parseAll.run s = .ok (v, s')) ↔ 3 ∣ s.length := by
  unfold parseAll
  simp only [left_bind_eq_ok_iff]
  constructor
  · rintro ⟨v, s', h⟩
    obtain ⟨services, t, hloop, -⟩ := bind_eq_ok_iff.mp h
    exact dvd_of_run_parseLoop rfl hloop
  · intro h
    cases hv : serviceListDescriptor s with
    | none => exact ⟨none, [], by rw [bind_ok (run_parseLoop h), hv]; rfl⟩
    | some services => exact ⟨some services, [], by rw [bind_ok (run_parseLoop h), hv]; rfl⟩

/-! ## What the managers take from them -/

theorem readSized_sizedBytes {l : List UInt8} (rest : List UInt8) (h : l.length < 256) :
    readSized (sizedBytes l ++ rest) = some (l, rest) := by
  have hn : (UInt8.ofNat l.length).toNat = l.length := by
    rw [UInt8.toNat_ofNat']
    exact Nat.mod_eq_of_lt h
  show (if (l ++ rest).length < (UInt8.ofNat l.length).toNat then none
    else some ((l ++ rest).take (UInt8.ofNat l.length).toNat,
      (l ++ rest).drop (UInt8.ofNat l.length).toNat)) = _
  rw [hn, if_neg (by rw [List.length_append]; omega), List.take_left, List.drop_left]

/-- A short event descriptor that is accepted is the one that the managers take. -/
theorem ShortEventDescriptor.eq_of_parse {d : ShortEventDescriptor}
    (h : parse.run s = .ok (some d, s')) : shortEventDescriptor s = some d := by
  obtain rfl := checked_parse s _ s' h rfl
  obtain ⟨d', ⟨hlang, hname, htext⟩, rfl, hd⟩ := parse_eq_ok_iff.mp h
  rw [if_pos rfl, Option.some.injEq] at hd
  subst hd
  obtain ⟨c₀, c₁, c₂, hlang⟩ := List.length_eq_three.mp hlang
  rw [List.append_nil, bytes, hlang, List.append_assoc]
  have hrest : readSized (sizedBytes d.text) = some (d.text, []) := by
    have := readSized_sizedBytes [] htext
    rwa [List.append_nil] at this
  simp only [List.cons_append, List.nil_append, shortEventDescriptor,
    readSized_sizedBytes _ hname, hrest]
  rw [← hlang]

theorem ComponentFields.eq_of_parse {d : ComponentFields} (h : parse.run s = .ok (some d, s')) :
    componentDescriptor s = some ⟨d.componentType, d.componentTag⟩ := by
  simp only [parse, byte_bind_eq_ok_iff, copy_bind_eq_ok_iff, left_bind_eq_ok_iff,
    whenDone_eq_ok_iff] at h
  obtain ⟨b₀, _, rfl, b₁, _, rfl, b₂, _, rfl, lang, t, ⟨-, hlang, rfl⟩, text, u, -, -, hd⟩ := h
  obtain ⟨c₀, c₁, c₂, rfl⟩ := List.length_eq_three.mp hlang
  split_ifs at hd
  cases hd
  rfl

theorem AudioComponentFields.eq_of_parse {d : AudioComponentFields}
    (h : parse.run s = .ok (some d, s')) : audioComponentDescriptor s =
      some ⟨d.componentType, d.componentTag, d.esMultiLingualFlag, d.mainComponentFlag,
        d.qualityIndicator, d.samplingRate⟩ := by
  simp only [parse, byte_bind_eq_ok_iff, copy_bind_eq_ok_iff, left_bind_eq_ok_iff,
    whenDone_eq_ok_iff] at h
  obtain ⟨b₀, _, rfl, b₁, _, rfl, b₂, _, rfl, b₃, _, rfl, b₄, _, rfl, b₅, _, rfl, lang, _,
    ⟨-, hlang, rfl⟩, lang₂, t, ⟨-, hlang₂, rfl⟩, text, u, -, -, hd⟩ := h
  obtain ⟨c₀, c₁, c₂, rfl⟩ := List.length_eq_three.mp hlang
  split_ifs at hd
  cases hd
  refine if_neg fun hshort => ?_
  have hflag : isMultiLingual b₅ = true := bne_iff_ne.mpr hshort.1
  have hlen : (lang₂ ++ t).length < 3 := hshort.2
  rw [if_pos hflag] at hlang₂
  rw [List.length_append] at hlen
  omega

theorem ListedService.eq_of_parseAll {services : List ListedService}
    (h : parseAll.run s = .ok (some services, s')) : serviceListDescriptor s = some services := by
  have hdvd := exists_run_iff.mp ⟨_, _, h⟩
  simp only [parseAll, left_bind_eq_ok_iff] at h
  rw [bind_ok (run_parseLoop hdvd)] at h
  cases hv : serviceListDescriptor s with
  | none =>
    rw [hv] at h
    cases h
  | some l =>
    rw [hv] at h
    cases h
    rfl

end Runs

open DescriptorKind in
/-- **When the readers stay in a descriptor**: exactly when its fields, as their lengths say, lie in
it. -/
theorem descriptor_inside_iff (k : DescriptorKind) (data : List UInt8) (hlen : data.length ≤ 255) :
    k.ReadsInside data ↔ k.Complete data := by
  cases k with
  | shortEvent =>
    refine (ShortEventDescriptor.checked_parse.bounded_iff data).trans ⟨?_, ?_⟩
    · rintro ⟨v, s', h⟩
      obtain ⟨d, hd, rfl, -⟩ := ShortEventDescriptor.parse_eq_ok_iff.mp h
      exact ⟨d, hd, s', rfl⟩
    · rintro ⟨d, hd, s', rfl⟩
      exact ⟨_, s', ShortEventDescriptor.parse_eq_ok_iff.mpr ⟨d, hd, rfl, rfl⟩⟩
  | extendedEvent =>
    exact (ExtendedEventDescriptor.checked_parse.bounded_iff data).trans
      ExtendedEventDescriptor.exists_run_iff
  | component =>
    exact (ComponentFields.checked_parse.bounded_iff data).trans
      (ComponentFields.exists_run_iff hlen)
  | audioComponent =>
    exact (AudioComponentFields.checked_parse.bounded_iff data).trans
      (AudioComponentFields.exists_run_iff hlen)
  | serviceList =>
    exact (ListedService.checked_parseAll.bounded_iff data).trans ListedService.exists_run_iff

/-- A short event descriptor of one byte: the language is read behind it. -/
theorem not_descriptor_inside_short : ¬ DescriptorKind.shortEvent.ReadsInside [0x6a] := by
  rintro ⟨v, s', h, -⟩
  cases h

/-- A short event descriptor with a name of four bytes, a text of two and a byte behind them. -/
theorem descriptor_inside_short : DescriptorKind.shortEvent.ReadsInside
    [0x6a, 0x70, 0x6e, 4, 0x4e, 0x65, 0x77, 0x73, 2, 0x61, 0x74, 0xff] :=
  (descriptor_inside_iff .shortEvent _ (by decide)).mpr
    ⟨⟨[0x6a, 0x70, 0x6e], [0x4e, 0x65, 0x77, 0x73], [0x61, 0x74]⟩, ⟨rfl, by decide, by decide⟩,
      [0xff], rfl⟩

end AutoRec
