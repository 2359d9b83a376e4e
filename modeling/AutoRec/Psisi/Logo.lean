import AutoRec.Lib.Buffer
import AutoRec.Parser.Bounds
import AutoRec.Parser.Completions
import AutoRec.Psisi.Manager
import Mathlib.Algebra.Group.Nat.Defs
import Mathlib.Algebra.Ring.Int.Defs

/-!
# Logos

`store_logo` (`psisi_manager/psisi_manager.cpp`) writes the logos of the CDT to files. The PNG that
the table carries has no palette: it is put behind the 33 bytes of the head. `parse` does not ask
for so many bytes, and `data_size - 33` is then a number below zero for `memcpy`.

* `getClutPalette`, `pngcrc`, `buffPlte`, `buffTrns`: the palette, and its chunks.
* `CdtData.png`, `storeTable`, `PsisiManager.storeLogo`.
* `Accepted`: tables that `parse` has accepted; `Accepted.length_dataByte`, `accepted_check`.
* `CdtData.png_eq_ok`, `CdtData.png_of_short`: the copies that stay inside, and those that do not.
* `PsisiManager.StoresLogos`; **`PsisiManager.storesLogos_iff`**.
-/

namespace AutoRec

open Buffer

/-! ## The palette -/

/-- `g_CLUTPalette`. -/
def clutPalette : List (List UInt8) :=
  [
    [0, 0, 0, 255], [255, 0, 0, 255], [0, 255, 0, 255], [255, 255, 0, 255], [0, 0, 255, 255],
    [255, 0, 255, 255], [0, 255, 255, 255], [255, 255, 255, 255], [0, 0, 0, 0], [170, 0, 0, 255],
    [0, 170, 0, 255], [170, 170, 0, 255], [0, 0, 170, 255], [170, 0, 170, 255], [0, 170, 170, 255],
    [170, 170, 170, 255], [0, 0, 85, 255], [0, 85, 0, 255], [0, 85, 85, 255], [0, 85, 170, 255],
    [0, 85, 255, 255], [0, 170, 85, 255], [0, 170, 255, 255], [0, 255, 85, 255],
    [0, 255, 170, 255], [85, 0, 0, 255], [85, 0, 85, 255], [85, 0, 170, 255], [85, 0, 255, 255],
    [85, 85, 0, 255], [85, 85, 85, 255], [85, 85, 170, 255], [85, 85, 255, 255], [85, 170, 0, 255],
    [85, 170, 85, 255], [85, 170, 170, 255], [85, 170, 255, 255], [85, 255, 0, 255],
    [85, 255, 85, 255], [85, 255, 170, 255], [85, 255, 255, 255], [170, 0, 85, 255],
    [170, 0, 255, 255], [170, 85, 0, 255], [170, 85, 85, 255], [170, 85, 170, 255],
    [170, 85, 255, 255], [170, 170, 85, 255], [170, 170, 255, 255], [170, 255, 0, 255],
    [170, 255, 85, 255], [170, 255, 170, 255], [170, 255, 255, 255], [255, 0, 85, 255],
    [255, 0, 255, 255], [255, 85, 0, 255], [255, 85, 85, 255], [255, 85, 170, 255],
    [255, 85, 255, 255], [255, 170, 0, 255], [255, 170, 85, 255], [255, 170, 170, 255],
    [255, 170, 255, 255], [255, 255, 85, 255], [255, 255, 170, 255], [0, 0, 0, 128],
    [255, 0, 0, 128], [0, 255, 0, 128], [255, 255, 0, 128], [0, 0, 255, 128], [255, 0, 255, 128],
    [0, 255, 255, 128], [255, 255, 255, 128], [170, 0, 0, 128], [0, 170, 0, 128],
    [170, 170, 0, 128], [0, 0, 170, 128], [170, 0, 170, 128], [0, 170, 170, 128],
    [170, 170, 170, 128], [0, 0, 85, 128], [0, 85, 0, 128], [0, 85, 85, 128], [0, 85, 170, 128],
    [0, 85, 255, 128], [0, 170, 85, 128], [0, 170, 255, 128], [0, 255, 85, 128],
    [0, 255, 170, 128], [85, 0, 0, 128], [85, 0, 85, 128], [85, 0, 170, 128], [85, 0, 255, 128],
    [85, 85, 0, 128], [85, 85, 85, 128], [85, 85, 170, 128], [85, 85, 255, 128], [85, 170, 0, 128],
    [85, 170, 85, 128], [85, 170, 170, 128], [85, 170, 255, 128], [85, 255, 0, 128],
    [85, 255, 85, 128], [85, 255, 170, 128], [85, 255, 255, 128], [170, 0, 85, 128],
    [170, 0, 255, 128], [170, 85, 0, 128], [170, 85, 85, 128], [170, 85, 170, 128],
    [170, 85, 255, 128], [170, 170, 85, 128], [170, 170, 255, 128], [170, 255, 0, 128],
    [170, 255, 85, 128], [170, 255, 170, 128], [170, 255, 255, 128], [255, 0, 85, 128],
    [255, 0, 255, 128], [255, 85, 0, 128], [255, 85, 85, 128], [255, 85, 170, 128],
    [255, 85, 255, 128], [255, 170, 0, 128], [255, 170, 85, 128], [255, 170, 170, 128],
    [255, 170, 255, 128], [255, 255, 85, 128]]

/-- `get_clut_palette`. -/
def getClutPalette (idx rgba : ℕ) : UInt8 := (clutPalette.getD idx []).getD rgba 0

/-- One bit of an entry of `make_crc_table`. -/
def pngcrcStep (c : UInt32) : UInt32 :=
  if c &&& 1 ≠ 0 then (0xedb88320 : UInt32) ^^^ (c >>> 1) else c >>> 1

/-- `make_crc_table`. -/
def makeCrcTable : Vector UInt32 256 :=
  Vector.ofFn fun n => (List.range 8).foldl (fun c _ => pngcrcStep c) (UInt32.ofNat n)

/-- `update_crc`. -/
def updateCrc (crc : UInt32) (buf : List UInt8) : UInt32 :=
  buf.foldl (fun c b => makeCrcTable.get (c ^^^ b.toUInt32).toUInt8.toFin ^^^ (c >>> 8)) crc

/-- `pngcrc::crc`. -/
def pngcrc (buf : List UInt8) : UInt32 := updateCrc 0xffffffff buf ^^^ 0xffffffff

/-- The four bytes of a number, the highest first. -/
def bytes32 (x : UInt32) : List UInt8 :=
  [(x >>> 24).toUInt8, (x >>> 16).toUInt8, (x >>> 8).toUInt8, x.toUInt8]

/-- The characters of a text. -/
def ascii (s : String) : List UInt8 := s.toList.map Char.toUInt8

/-- A chunk: the length, the type, the data and the CRC. -/
def pngChunk (type data : List UInt8) : List UInt8 :=
  bytes32 (UInt32.ofNat data.length) ++ type ++ data ++ bytes32 (pngcrc (type ++ data))

/-- `buff_plte`. -/
def buffPlte : List UInt8 :=
  pngChunk (ascii "PLTE") ((List.range 128).flatMap fun i =>
    [getClutPalette i 0, getClutPalette i 1, getClutPalette i 2])

/-- `buff_trns`. -/
def buffTrns : List UInt8 :=
  pngChunk (ascii "tRNS") ((List.range 128).map fun i => getClutPalette i 3)

/-- `buff_plte_size`. -/
def buffPlteSize : ℕ := 4 + 4 + 128 * 3 + 4

/-- `buff_trns_size`. -/
def buffTrnsSize : ℕ := 4 + 4 + 128 + 4

/-! ## The files -/

/-- An `int` as a `size_t`. -/
def sizeT (i : ℤ) : ℕ := (i % 2 ^ 64).toNat

/-- What `store_logo` writes: the head, `buff_plte`, `buff_trns` and the rest, into
`png_include_plte`. -/
def CdtData.png (d : CdtData) : Except Access (List UInt8) := do
  let p₀ := List.replicate (buffPlteSize + buffTrnsSize + d.dataSize.toNat) 0
  let p₁ ← copy p₀ 0 d.dataByte 0 33
  let p₂ ← copy p₁ 33 buffPlte 0 buffPlteSize
  let p₃ ← copy p₂ (33 + buffPlteSize) buffTrns 0 buffTrnsSize
  copy p₃ (33 + buffPlteSize + buffTrnsSize) d.dataByte 33 (sizeT (d.dataSize.toNat - 33))

/-- A file. -/
structure LogoFile where
  name : List UInt8
  bytes : List UInt8
deriving DecidableEq

/-- The digits of `%0nx`. -/
def hex (n x : ℕ) : List UInt8 := ((Nat.toDigits 16 x).leftpad n '0').map Char.toUInt8

/-- The data of a table, as `new table` leaves it if `parse` does not fill it. -/
def CommonDataTable.logo (t : CommonDataTable) : CdtData := t.data.getD ⟨0, 0, 0, 0, []⟩

/-- `_name`, cut to `PATH_MAX` with its NUL. -/
def logoName (path : List UInt8) (network : Option NetworkInfo) (t : CommonDataTable) :
    List UInt8 :=
  let dir := if path.length > 0 then path else ascii "."
  let tsName := (network.map NetworkInfo.tsName).getD []
  let tsId := (network.map NetworkInfo.transportStreamId).getD 0
  let onId := (network.map NetworkInfo.originalNetworkId).getD 0
  (dir ++ ascii "/logo_" ++ tsName ++ ascii "_0x" ++ hex 4 tsId.toNat ++ ascii "_0x" ++
    hex 4 onId.toNat ++ ascii "_0x" ++ hex 4 t.header.tableIdExtension.toNat ++ ascii "_0x" ++
    hex 2 t.logo.logoType.toNat ++ hex 4 t.logo.logoId.toNat ++ hex 4 t.logo.logoVersion.toNat ++
    ascii ".png").take 4095

/-- One turn of the loop of `store_logo`. `none`: the table has no logo. -/
def storeTable (path : List UInt8) (network : Option NetworkInfo) (t : CommonDataTable) :
    Except Access (Option LogoFile) :=
  if t.dataType ≠ 0x01 then .ok none
  else t.logo.png.map fun png => some ⟨logoName path network t, png⟩

/-- The loop. -/
def storeTables (path : List UInt8) (network : Option NetworkInfo) :
    List CommonDataTable → Except Access (List (Option LogoFile))
  | [] => .ok []
  | t :: tables =>
    match storeTable path network t with
    | .error e => .error e
    | .ok file => (storeTables path network tables).map fun files => file :: files

namespace PsisiManager

/-- The tables of the CDT. -/
def logoTables (m : PsisiManager) : List CommonDataTable := m.mCDT.ext.tables.map Prod.snd

/-- `store_logo`: the file of each table. `made`: the directory is there, or has been made; without
it the process ends. -/
def storeLogo (path : List UInt8) (made : Bool) (m : PsisiManager) :
    Except Access (List (Option LogoFile)) :=
  if m.state = .notReady then .ok (m.logoTables.map fun _ => none)
  else if path.length > 0 ∧ made = false then .ok (m.logoTables.map fun _ => none)
  else storeTables path m.networkInfo m.logoTables

end PsisiManager

/-! ## What is stored -/

/-- The head, the chunks of the palette, and the rest. -/
def CdtData.withPalette (d : CdtData) : List UInt8 :=
  d.dataByte.take 33 ++ buffPlte ++ buffTrns ++ d.dataByte.drop 33

/-- A table is skipped, or its logo is written with the palette. -/
def SkippedOrStored (t : CommonDataTable) (file : Option LogoFile) : Prop :=
  ∀ f ∈ file, f.bytes = t.logo.withPalette

/-- **`store_logo` stores the logos**: it stays inside of its buffers, and skips each table or
writes its logo. -/
def PsisiManager.StoresLogos (path : List UInt8) (made : Bool) (m : PsisiManager) : Prop :=
  ∃ files, m.storeLogo path made = .ok files ∧ List.Forall₂ SkippedOrStored m.logoTables files

/-- `parse` has accepted the table. -/
def Accepted (t : CommonDataTable) : Prop :=
  ∃ header data, CommonDataTable.parse header data = .ok t

/-! ## The copies -/

theorem length_bytes32 (x : UInt32) : (bytes32 x).length = 4 := rfl

theorem length_pngChunk (type data : List UInt8) :
    (pngChunk type data).length = 4 + type.length + data.length + 4 := by
  rw [pngChunk, List.length_append, List.length_append, List.length_append, length_bytes32,
    length_bytes32]

theorem length_buffPlte : buffPlte.length = buffPlteSize := by
  rw [buffPlte, length_pngChunk, List.length_flatMap]
  simp only [List.length_cons, List.length_nil, List.map_const', List.sum_replicate_nat,
    List.length_range]
  rfl

theorem length_buffTrns : buffTrns.length = buffTrnsSize := by
  rw [buffTrns, length_pngChunk, List.length_map, List.length_range]
  rfl

namespace CdtData

variable {d : CdtData}

theorem png_of_short (h : d.dataByte.length < 33) : d.png = .error .read := by
  rw [png, copy_of_short (by omega)]
  rfl

theorem sizeT_sub (h : 33 ≤ d.dataSize.toNat) :
    sizeT (d.dataSize.toNat - 33) = d.dataSize.toNat - 33 := by
  have hlt := d.dataSize.toNat_lt
  rw [sizeT]
  omega

/-- **The copies follow each other** and fill the buffer. -/
theorem copies_eq_ok {data plte trns : List UInt8} {n k₁ k₂ : ℕ} (hlen : data.length = n)
    (h : 33 ≤ n) (hplte : plte.length = k₁) (htrns : trns.length = k₂) :
    (do
      let p₁ ← copy (List.replicate (k₁ + k₂ + n) 0) 0 data 0 33
      let p₂ ← copy p₁ 33 plte 0 k₁
      let p₃ ← copy p₂ (33 + k₁) trns 0 k₂
      copy p₃ (33 + k₁ + k₂) data 33 (n - 33)) =
        Except.ok (data.take 33 ++ plte ++ trns ++ data.drop 33) := by
  have hhead : (data.take 33).length = 33 := by
    rw [List.length_take]
    omega
  have hrest : k₁ + k₂ + n - 33 - k₁ - k₂ = n - 33 := by omega
  have hcopy₁ : copy (List.replicate (k₁ + k₂ + n) 0) 0 data 0 33 =
      .ok (data.take 33 ++ List.replicate (k₁ + k₂ + n - 33) 0) :=
    copy_replicate (a := []) rfl (by omega) (by omega)
  have hcopy₂ := copy_replicate (z := 0) (k := k₁ + k₂ + n - 33) (j := 0) hhead.symm
    (Nat.le_of_eq ((Nat.zero_add k₁).trans hplte.symm)) (by omega)
  rw [List.drop_zero, ← hplte, List.take_length, hplte] at hcopy₂
  have hlen₂ : 33 + k₁ = (data.take 33 ++ plte).length := by
    rw [List.length_append]
    omega
  have hcopy₃ := copy_replicate (z := 0) (k := k₁ + k₂ + n - 33 - k₁) (j := 0) hlen₂
    (Nat.le_of_eq ((Nat.zero_add k₂).trans htrns.symm)) (by omega)
  rw [List.drop_zero, ← htrns, List.take_length, htrns] at hcopy₃
  have hlen₃ : 33 + k₁ + k₂ = (data.take 33 ++ plte ++ trns).length := by
    rw [List.length_append]
    omega
  have hcopy₄ : copy (data.take 33 ++ plte ++ trns ++ List.replicate (n - 33) 0) (33 + k₁ + k₂)
      data 33 (n - 33) = .ok (data.take 33 ++ plte ++ trns ++ (data.drop 33).take (n - 33) ++
        List.replicate (n - 33 - (n - 33)) 0) :=
    copy_replicate hlen₃ (by omega) (Nat.le_refl _)
  have htake : (data.drop 33).take (n - 33) = data.drop 33 := by
    rw [← hlen, ← List.length_drop, List.take_length]
  rw [Nat.sub_self, List.replicate_zero, List.append_nil, htake] at hcopy₄
  rw [hcopy₁]
  dsimp only [bind, Except.bind]
  rw [hcopy₂]
  dsimp only
  rw [hcopy₃, hrest]
  exact hcopy₄

theorem png_eq_ok (hlen : d.dataByte.length = d.dataSize.toNat) (h : 33 ≤ d.dataSize.toNat) :
    d.png = .ok d.withPalette := by
  rw [png, sizeT_sub h]
  exact copies_eq_ok hlen h length_buffPlte length_buffTrns

end CdtData

/-! ## The tables -/

section Tables

variable {header : SectionHeader} {data : List UInt8} {n : ℤ} {d : CdtData} {t : CommonDataTable}
  {path : List UInt8} {network : Option NetworkInfo}

theorem CdtData.length_dataByte (h : CdtData.parse n data = .ok d) :
    d.dataByte.length = d.dataSize.toNat := by
  unfold CdtData.parse at h
  split_ifs at h with hshort
  match data with
  | [] | [_] | [_, _] | [_, _, _] | [_, _, _, _] | [_, _, _, _, _] | [_, _, _, _, _, _] => cases h
  | _ :: _ :: _ :: _ :: _ :: b₅ :: b₆ :: rest =>
    dsimp only at h
    split_ifs at h with hne hlt
    cases h
    exact List.length_take_of_le (Nat.not_lt.mp hlt)

/-- A table has data if and only if its type is 1. -/
theorem CommonDataTable.parse_cases (h : CommonDataTable.parse header data = .ok t) :
    (t.dataType ≠ 1 ∧ t.data = none) ∨
      (t.dataType = 1 ∧ ∃ n p d, CdtData.parse n p = .ok d ∧ t.data = some d) := by
  match data with
  | [] | [_] | [_, _] | [_, _, _] | [_, _, _, _] => cases h
  | b₀ :: b₁ :: b₂ :: b₃ :: b₄ :: p =>
    rw [CommonDataTable.parse] at h
    cases hdescs : parseDescriptors (p.length + 1) (uimsbf12 b₃ b₄).toNat p with
    | error e =>
      rw [hdescs] at h
      cases h
    | ok x =>
      rw [hdescs] at h
      dsimp only at h
      split_ifs at h with htype
      · cases h
        exact .inl ⟨htype, rfl⟩
      · rw [not_not] at htype
        cases hdata : CdtData.parse
            (header.sectionLength.toNat - 5 - 4 - 5 - (uimsbf12 b₃ b₄).toNat) x.2 with
        | error e =>
          rw [hdata] at h
          cases h
        | ok d =>
          rw [hdata] at h
          cases h
          exact .inr ⟨htype, _, _, d, hdata, rfl⟩

theorem Accepted.length_dataByte (h : Accepted t) :
    t.logo.dataByte.length = t.logo.dataSize.toNat := by
  obtain ⟨header, data, h⟩ := h
  obtain ⟨-, hdata⟩ | ⟨-, n, p, d, hparse, hdata⟩ := CommonDataTable.parse_cases h
  · rw [CommonDataTable.logo, hdata]
    rfl
  · rw [CommonDataTable.logo, hdata]
    exact CdtData.length_dataByte hparse

theorem accepted_parseCall {c : Call} {memory : List UInt8}
    (h : cdtClass.parseCall c memory = .ok t) : Accepted t := by
  unfold TableClass.parseCall TableClass.parseAt at h
  split at h
  · split_ifs at h
    exact ⟨_, _, h⟩
  · exact ⟨c.info.sectHdr, [], throughNull_eq_ok_iff.mp h⟩

theorem storeTable_of_ne (h : t.dataType ≠ 1) : storeTable path network t = .ok none := if_pos h

/-- **A logo with 33 bytes or more is stored.** -/
theorem storeTable_of_le (ht : Accepted t) (htype : t.dataType = 1)
    (h : 33 ≤ t.logo.dataSize.toNat) :
    storeTable path network t = .ok (some ⟨logoName path network t, t.logo.withPalette⟩) := by
  rw [storeTable, if_neg (not_not_intro htype), CdtData.png_eq_ok ht.length_dataByte h]
  rfl

/-- **A logo with fewer bytes** is not. -/
theorem storeTable_of_lt (ht : Accepted t) (htype : t.dataType = 1)
    (h : t.logo.dataSize.toNat < 33) : storeTable path network t = .error .read := by
  have hlen := ht.length_dataByte
  rw [storeTable, if_neg (not_not_intro htype), CdtData.png_of_short (by omega)]
  rfl

/-- A table whose logo, if it has one, has 33 bytes or more. -/
def CommonDataTable.HasHead (t : CommonDataTable) : Prop :=
  t.dataType = 1 → 33 ≤ t.logo.dataSize.toNat

theorem storeTable_iff (path : List UInt8) (network : Option NetworkInfo) (ht : Accepted t) :
    (∃ file, storeTable path network t = .ok file ∧ SkippedOrStored t file) ↔ t.HasHead := by
  by_cases htype : t.dataType = 1
  · by_cases h : 33 ≤ t.logo.dataSize.toNat
    · refine iff_of_true ⟨_, storeTable_of_le ht htype h, ?_⟩ fun _ => h
      intro f hf
      rw [← Option.some.inj hf]
    · refine iff_of_false ?_ fun hhead => h (hhead htype)
      rintro ⟨file, hfile, -⟩
      rw [storeTable_of_lt ht htype (Nat.not_le.mp h)] at hfile
      cases hfile
  · refine iff_of_true ⟨none, storeTable_of_ne htype, ?_⟩ fun h => absurd h htype
    intro f hf
    exact absurd hf (Option.not_mem_none f)

/-- **The loop** stores the logos if and only if each turn does. -/
theorem storeTables_iff {tables : List CommonDataTable} (h : ∀ t ∈ tables, Accepted t) :
    (∃ files, storeTables path network tables = .ok files ∧
      List.Forall₂ SkippedOrStored tables files) ↔ ∀ t ∈ tables, t.HasHead := by
  induction tables with
  | nil => exact iff_of_true ⟨[], rfl, .nil⟩ fun t ht => absurd ht List.not_mem_nil
  | cons t tables ih =>
    obtain ⟨ht, htables⟩ := List.forall_mem_cons.mp h
    rw [List.forall_mem_cons, ← ih htables, ← storeTable_iff path network ht]
    constructor
    · rintro ⟨files, hfiles, hstored⟩
      rw [storeTables] at hfiles
      cases hfile : storeTable path network t with
      | error e =>
        rw [hfile] at hfiles
        cases hfiles
      | ok file =>
        rw [hfile] at hfiles
        cases hrest : storeTables path network tables with
        | error e =>
          rw [hrest] at hfiles
          cases hfiles
        | ok rest =>
          rw [hrest] at hfiles
          cases hfiles
          obtain ⟨hhead, htail⟩ := List.forall₂_cons.mp hstored
          exact ⟨⟨file, rfl, hhead⟩, rest, rfl, htail⟩
    · rintro ⟨⟨file, hfile, hhead⟩, rest, hrest, htail⟩
      refine ⟨file :: rest, ?_, .cons hhead htail⟩
      rw [storeTables, hfile, hrest]
      rfl

theorem forall₂_none (tables : List CommonDataTable) :
    List.Forall₂ SkippedOrStored tables (tables.map fun _ => none) := by
  induction tables with
  | nil => exact .nil
  | cons t tables ih => exact .cons (fun f hf => absurd hf (Option.not_mem_none f)) ih

/-- **The tables of the CDT are accepted ones**, whatever is received. -/
theorem accepted_check {n : ParserNotice} {r : CheckSection}
    {s s' : SectionParser (TableStore CommonDataTable)} (h : n.check cdtClass s = some (r, s'))
    (hs : ∀ x ∈ s.ext.tables, Accepted x.2) : ∀ x ∈ s'.ext.tables, Accepted x.2 := by
  obtain ⟨l, -, hext⟩ := SectionParser.given_checkSection (cdtClass.keepsState _) h
  rw [hext]
  clear hext h
  generalize s.ext = e at hs
  induction l generalizing e with
  | nil => exact hs
  | cons c l ih =>
    rw [Hooks.run_cons]
    apply ih
    -- one section: nothing is appended, or what `parse` has accepted
    cases hparse : cdtClass.parseCall c (n.behind e.next) with
    | error err =>
      have hcompleted : ((cdtClass.hooks n.behind).completed e c.info c.bytes).2 =
          e.alloc.fail err := by
        simp only [TableClass.hooks, hparse]
      rw [hcompleted]
      exact hs
    | ok t =>
      have hcompleted : ((cdtClass.hooks n.behind).completed e c.info c.bytes).2 =
          e.alloc.appendTable (e.next, t) := by
        simp only [TableClass.hooks, hparse]
        rfl
      rw [hcompleted]
      intro x hx
      obtain hx | hx := List.mem_append.mp hx
      · exact hs x hx
      · obtain rfl := List.mem_singleton.mp hx
        exact accepted_parseCall hparse

end Tables

namespace PsisiManager

variable {m : PsisiManager}

/-- `store_logo` comes to its loop. -/
def WritesLogos (path : List UInt8) (made : Bool) (m : PsisiManager) : Prop :=
  m.state ≠ .notReady ∧ (path = [] ∨ made = true)

/-- **When the logos are stored**: the loop is not come to, or each of them has 33 bytes or more. -/
theorem storesLogos_iff (path : List UInt8) (made : Bool)
    (h : ∀ t ∈ m.logoTables, Accepted t) : m.StoresLogos path made ↔
      (m.WritesLogos path made → ∀ t ∈ m.logoTables, t.HasHead) := by
  have hskip : m.storeLogo path made = .ok (m.logoTables.map fun _ => none) →
      m.StoresLogos path made := fun hrun => ⟨_, hrun, forall₂_none _⟩
  by_cases hstate : m.state = .notReady
  · refine iff_of_true (hskip ?_) fun hwrites => absurd hstate hwrites.1
    rw [storeLogo, if_pos hstate]
  · by_cases hdir : path.length > 0 ∧ made = false
    · refine iff_of_true (hskip ?_) fun ⟨_, hwrites⟩ => ?_
      · rw [storeLogo, if_neg hstate, if_pos hdir]
      · obtain rfl | rfl := hwrites
        · exact absurd hdir.1 (Nat.lt_irrefl 0)
        · cases hdir.2
    · have hwrites : m.WritesLogos path made := by
        refine ⟨hstate, ?_⟩
        cases made with
        | true => exact .inr rfl
        | false =>
          have hzero : ¬ 0 < path.length := fun hlt => hdir ⟨hlt, rfl⟩
          exact .inl (List.eq_nil_of_length_eq_zero (by omega))
      rw [StoresLogos, storeLogo, if_neg hstate, if_neg hdir, storeTables_iff h]
      exact ⟨fun hhead _ => hhead, fun hhead => hhead hwrites⟩

/-- The manager is ready, and the CDT has one table. -/
def readyWith (t : CommonDataTable) : PsisiManager :=
  { init with
    state := .ready
    mCDT := { init.mCDT with ext := ⟨[(0, t)], 1, false⟩ } }

/-- A section with a logo of one byte. -/
def logoOfOne : List UInt8 :=
  [200, 240, 22, 0, 1, 195, 0, 0, 0, 4, 1, 240, 0, 5, 254, 1, 240, 0, 0, 1, 137, 195, 206, 149, 254]

/-- It is accepted, and the head is read outside of its data. -/
theorem not_storesLogos : crc32 logoOfOne = 0 ∧
    ∃ t, CommonDataTable.parse (sectionHeader logoOfOne) (dataPart logoOfOne) = .ok t ∧
      t.dataType = 1 ∧ ¬ (readyWith t).StoresLogos [] true := by
  have hrun : (CommonDataTable.parse (sectionHeader logoOfOne) (dataPart logoOfOne)).toOption.map
      (fun t => (t.dataType, t.logo.dataSize)) = some (1, 1) := by decide
  refine ⟨by decide +kernel, ?_⟩
  cases hparse : CommonDataTable.parse (sectionHeader logoOfOne) (dataPart logoOfOne) with
  | error e =>
    rw [hparse] at hrun
    cases hrun
  | ok t =>
    rw [hparse] at hrun
    obtain ⟨htype, hsize⟩ := Prod.mk.inj (Option.some.inj hrun)
    refine ⟨t, rfl, htype, ?_⟩
    rintro ⟨files, hfiles, -⟩
    have hloop : (readyWith t).storeLogo [] true = storeTables [] none [t] := rfl
    have hlt : t.logo.dataSize.toNat < 33 := by
      rw [hsize]
      decide
    rw [hloop, storeTables, storeTable_of_lt ⟨_, _, hparse⟩ htype hlt] at hfiles
    cases hfiles

/-- A section with a logo of 33 bytes. -/
def logoOf33 : List UInt8 :=
  [200, 240, 54, 0, 1, 195, 0, 0, 0, 4, 1, 240, 0, 5, 254, 1, 240, 0, 0, 33] ++
    (List.range 33).map UInt8.ofNat ++ [22, 200, 225, 123]

/-- It is stored. -/
theorem storesLogos_logoOf33 :
    ∃ t, CommonDataTable.parse (sectionHeader logoOf33) (dataPart logoOf33) = .ok t ∧
      (readyWith t).StoresLogos [] true := by
  have hrun : (CommonDataTable.parse (sectionHeader logoOf33) (dataPart logoOf33)).toOption.map
      (fun t => t.logo.dataSize) = some 33 := by decide
  cases hparse : CommonDataTable.parse (sectionHeader logoOf33) (dataPart logoOf33) with
  | error e =>
    rw [hparse] at hrun
    cases hrun
  | ok t =>
    rw [hparse] at hrun
    have hsize : t.logo.dataSize = 33 := Option.some.inj hrun
    have htables : ∀ x ∈ (readyWith t).logoTables, x = t := fun x hx => List.mem_singleton.mp hx
    refine ⟨t, rfl, (storesLogos_iff [] true ?_).mpr ?_⟩
    · intro x hx
      rw [htables x hx]
      exact ⟨_, _, hparse⟩
    · intro _ x hx _
      rw [htables x hx, hsize]
      decide

end PsisiManager

end AutoRec
