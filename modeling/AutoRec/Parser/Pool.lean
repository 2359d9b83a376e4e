import AutoRec.Parser.SectionParser

/-!
# The pool of a section parser

The sections of the list lie in the pool one behind the other, in the order of the list. So a parser
holds a list of sections, and what it does with its list, its pool and its pointers is done to that.

* `Rep`: the parser holds the sections `L`.
* `Rep.dropTop`, `Rep.detachLast`, `Rep.addLast`, `Rep.setLast`: the section in front goes, the last
  one goes, a new one comes in, the last one is changed.
* `Env`: what these leave alone.
-/

namespace AutoRec

open Arena

theorem Ptr.within_add (i k : ℕ) : (Ptr.ofPool (i + k)).within i = some (k : ℤ) := by
  rw [Ptr.within, Option.some.injEq]
  omega

theorem SectionInfo.view_shift {x : SectionInfo} {n : ℕ} {pool pool' : List UInt8} (hn : n ≤ x.raw)
    (h : slice pool' (x.raw - n) (x.tail - n) = slice pool x.raw x.tail) :
    (x.shift n).view pool' = x.view pool := by
  have hdata : (x.data.sub n).within (x.raw - n) = x.data.within x.raw := by
    cases x.data with
    | ofPool i =>
      simp only [Ptr.sub, Ptr.within, Option.some.injEq]
      omega
    | ofNull i => rfl
  simp only [SectionInfo.view, SectionInfo.shift, SectionInfo.bytes, hdata, h]

theorem SectionInfo.view_congr {x : SectionInfo} {pool pool' : List UInt8}
    (h : slice pool' x.raw x.tail = slice pool x.raw x.tail) : x.view pool' = x.view pool := by
  simp only [SectionInfo.view, SectionInfo.bytes, h]

/-- A section of which the first bytes are there. -/
def Sect.first (b : List UInt8) : Sect where
  hdr := (parseHeader .zero b .psisi).1
  data := (parseHeader .zero b .psisi).2.map fun k => (k : ℤ)
  bytes := b
  state := .init

namespace SectionParser

variable {τ : Type} {s t : SectionParser τ} {L done : List Sect} {w : Sect} {x y : SectionInfo}
  {l : List SectionInfo} {a n : ℕ}

/-- **The parser holds the sections `L`.** -/
structure Rep (s : SectionParser τ) (L : List Sect) : Prop where
  addr_lt : ∀ x ∈ s.sectList, x.addr < s.nextAddr
  nodup : (s.sectList.map SectionInfo.addr).Nodup
  bottom : s.sectListBottom = s.sectList.getLast?.map SectionInfo.addr
  /-- `work_sect_info_` does not dangle. -/
  work : ∀ a ∈ s.workSectInfo, ∃ x ∈ s.sectList, x.addr = a
  laid : Laid SectionInfo.raw SectionInfo.tail 0 s.sectList s.poolInd
  pool : s.pool.length = s.poolSize
  ind_le : s.poolInd ≤ s.poolSize
  view : s.sectList.map (SectionInfo.view s.pool) = L

/-- The sections of the list, wherever they lie. -/
def listed (s : SectionParser τ) : List Sect := s.sectList.map (SectionInfo.view s.pool)

/-- What the list and the pool have nothing to do with. -/
structure Env (τ : Type) where
  listIsFifo : Bool
  fifoNum : ℤ
  poolSize : ℕ
  type : SectionType
  isAsyncDelete : Bool
  isIgnoreSection : Bool
  ext : τ
  calls : List Call

/-- What the list and the pool have nothing to do with, in `s`. -/
def env (s : SectionParser τ) : Env τ :=
  ⟨s.listIsFifo, s.fifoNum, s.poolSize, s.type, s.isAsyncDelete, s.isIgnoreSection, s.ext, s.calls⟩

/-! ## Addresses -/

/-- No other section has the address of the last one. -/
theorem addr_ne_last (h : ((l ++ [x]).map SectionInfo.addr).Nodup) (hy : y ∈ l) :
    y.addr ≠ x.addr := by
  rw [List.map_append, List.nodup_append] at h
  exact h.2.2 _ (List.mem_map_of_mem hy) _ (by simp)

theorem find?_last (h : ((l ++ [x]).map SectionInfo.addr).Nodup) :
    (l ++ [x]).find? (fun y => y.addr == x.addr) = some x := by
  have hl : l.find? (fun y => y.addr == x.addr) = none := by
    rw [List.find?_eq_none]
    intro y hy
    simpa using addr_ne_last h hy
  rw [List.find?_append, hl]
  simp

theorem eraseP_last (h : ((l ++ [x]).map SectionInfo.addr).Nodup) :
    (l ++ [x]).eraseP (fun y => y.addr == x.addr) = l := by
  have hl : ∀ y ∈ l, ¬ (y.addr == x.addr) = true := by
    intro y hy
    simpa using addr_ne_last h hy
  rw [List.eraseP_append_right _ hl]
  simp

theorem map_last (f : SectionInfo → SectionInfo) (h : ((l ++ [x]).map SectionInfo.addr).Nodup) :
    ((l ++ [x]).map fun y => if y.addr = x.addr then f y else y) = l ++ [f x] := by
  have hl : (l.map fun y => if y.addr = x.addr then f y else y) = l := by
    apply List.map_congr_left (g := id) _ |>.trans (List.map_id l)
    intro y hy
    exact if_neg (addr_ne_last h hy)
  rw [List.map_append, hl]
  simp

theorem before_last (h : ((l ++ [y] ++ [x]).map SectionInfo.addr).Nodup) :
    before x.addr (l ++ [y] ++ [x]) = some y.addr := by
  induction l with
  | nil => simp [before]
  | cons z l ih =>
    have hne : ∀ u ∈ z :: l ++ [y], u.addr ≠ x.addr := fun u hu => addr_ne_last h hu
    have htail : ((l ++ [y] ++ [x]).map SectionInfo.addr).Nodup := (List.nodup_cons.mp h).2
    cases l with
    | nil =>
      have := hne y (by simp)
      simp [before, this]
    | cons u l =>
      have := hne u (by simp)
      simp only [List.cons_append, before, if_neg this]
      exact ih htail

theorem linkBehind_last {l : List SectionInfo} (h : ((l ++ [x]).map SectionInfo.addr).Nodup) :
    linkBehind (some x.addr) y (l ++ [x]) = l ++ [x] ++ [y] := by
  induction l with
  | nil => simp [linkBehind]
  | cons z l ih =>
    have hz : z.addr ≠ x.addr := addr_ne_last h List.mem_cons_self
    have htail : ((l ++ [x]).map SectionInfo.addr).Nodup := (List.nodup_cons.mp h).2
    simp only [List.cons_append, linkBehind, Option.some.injEq, if_neg hz, ih htail]

/-! ## What a parser holds -/

/-- The bytes in the pool, of the sections together. -/
def bytesIn (L : List Sect) : ℕ := (L.map fun w => w.bytes.length).sum

theorem bytesIn_append (L L' : List Sect) : bytesIn (L ++ L') = bytesIn L + bytesIn L' := by
  rw [bytesIn, bytesIn, bytesIn, List.map_append, List.sum_append]

theorem Rep.split (h : Rep s (L ++ [w])) :
    ∃ l x, s.sectList = l ++ [x] := by
  obtain ⟨l, l', hl, -, hw⟩ := List.map_eq_append_iff.mp h.view
  obtain ⟨x, rfl, -⟩ := List.map_eq_singleton_iff.mp hw
  exact ⟨l, x, hl⟩

theorem Rep.tail_le (h : Rep s L) (hx : x ∈ s.sectList) : x.tail ≤ s.pool.length := by
  have := (h.laid.mem hx).2.2
  have := h.ind_le
  rw [h.pool]
  omega

theorem Rep.length_bytes (h : Rep s L) (hx : x ∈ s.sectList) :
    (x.bytes s.pool).length = x.tail - x.raw :=
  length_slice _ (h.tail_le hx)

theorem Rep.ind (h : Rep s L) : s.poolInd = bytesIn L := by
  have hsum := h.laid.sum
  have hL : bytesIn L = (s.sectList.map fun x => x.tail - x.raw).sum := by
    rw [bytesIn, ← h.view, List.map_map]
    congr 1
    apply List.map_congr_left
    intro x hx
    exact h.length_bytes hx
  omega

theorem Rep.tail_last (h : Rep s L) (hx : s.sectList = l ++ [x]) :
    Laid SectionInfo.raw SectionInfo.tail 0 l x.raw ∧ x.raw ≤ x.tail ∧ x.tail = s.poolInd := by
  have := h.laid
  rwa [hx, laid_snoc_iff] at this

theorem Rep.view_last (h : Rep s (L ++ [w])) (hx : s.sectList = l ++ [x]) : x.view s.pool = w := by
  have hview := h.view
  rw [hx, List.map_append, List.map_singleton] at hview
  simpa using List.append_inj_right' hview rfl

theorem Rep.view_front (h : Rep s (L ++ [w])) (hx : s.sectList = l ++ [x]) :
    l.map (SectionInfo.view s.pool) = L := by
  have hview := h.view
  rw [hx, List.map_append, List.map_singleton] at hview
  exact List.append_inj_left' hview rfl

theorem Rep.bottom_last (h : Rep s L) (hx : s.sectList = l ++ [x]) :
    s.sectListBottom = some x.addr := by
  rw [h.bottom, hx]
  simp

theorem Rep.setWork (h : Rep s L) (r : Option ℕ) (hr : ∀ a ∈ r, ∃ x ∈ s.sectList, x.addr = a) :
    Rep { s with workSectInfo := r } L :=
  ⟨h.addr_lt, h.nodup, h.bottom, hr, h.laid, h.pool, h.ind_le, h.view⟩

theorem Rep.opEq_iff (h : Rep s L) (hx : x ∈ s.sectList) (hy : y ∈ s.sectList) :
    x.opEq s.pool y = true ↔ x.bytes s.pool = y.bytes s.pool := by
  rw [SectionInfo.opEq, Bool.and_eq_true, beq_iff_eq, beq_iff_eq, ← h.length_bytes hx,
    ← h.length_bytes hy]
  constructor
  · intro he
    exact he.2
  · intro he
    exact ⟨congrArg List.length he, he⟩

theorem Rep.sectAt_last (h : Rep s L) (hx : s.sectList = l ++ [x]) : s.sectAt x.addr = some x := by
  rw [sectAt, hx]
  exact find?_last (hx ▸ h.nodup)

/-! ## The section in front goes -/

theorem dropTop_eq (hx : s.sectList = x :: l) : s.dropTop x =
    { s with
      sectList := l.map fun y => y.shift (x.tail - x.raw)
      sectListBottom := if l = [] then none else s.sectListBottom
      pool := write s.pool x.raw (s.pool.drop x.tail)
      poolInd := s.poolInd - (x.tail - x.raw)
      workSectInfo := if s.workSectInfo = some x.addr then none else s.workSectInfo } := by
  cases l with
  | nil =>
    simp only [dropTop, checkDeleteFifoSectionList, hx, closeGap, shiftAllSectionList, resetWork]
    split <;> rfl
  | cons y l =>
    simp only [dropTop, checkDeleteFifoSectionList, hx, closeGap, shiftAllSectionList, resetWork]
    split <;> rfl

@[simp] theorem env_dropTop : (s.dropTop x).env = s.env := by
  unfold dropTop checkDeleteFifoSectionList resetWork
  split <;> split <;> rfl

/-- **The section in front goes**, and its bytes. -/
theorem Rep.dropTop (h : Rep s (w :: L)) (hx : s.sectList = x :: l) : Rep (s.dropTop x) L := by
  rw [dropTop_eq hx]
  have hlaid := h.laid
  rw [hx] at hlaid
  obtain ⟨hraw, hxt, hl⟩ := hlaid
  have hnodup := h.nodup
  rw [hx, List.map_cons, List.nodup_cons] at hnodup
  have htail : x.tail ≤ s.pool.length := h.tail_le (hx ▸ List.mem_cons_self)
  have hmem : ∀ y ∈ l, y ∈ s.sectList := fun y hy => hx ▸ List.mem_cons_of_mem _ hy
  have haddr : (l.map fun y => y.shift (x.tail - x.raw)).map SectionInfo.addr =
      l.map SectionInfo.addr := by
    rw [List.map_map]
    rfl
  refine ⟨?_, ?_, ?_, ?_, ?_, ?_, ?_, ?_⟩
  · intro y hy
    obtain ⟨z, hz, rfl⟩ := List.mem_map.mp hy
    exact h.addr_lt z (hmem z hz)
  · show ((l.map fun y => y.shift (x.tail - x.raw)).map SectionInfo.addr).Nodup
    rw [haddr]
    exact hnodup.2
  · show (if l = [] then none else s.sectListBottom) = _
    rw [← List.getLast?_map, haddr]
    split_ifs with hnil
    · rw [hnil]
      rfl
    · obtain ⟨y, l', rfl⟩ := List.exists_cons_of_ne_nil hnil
      rw [h.bottom, hx, List.getLast?_cons_cons, List.getLast?_map]
  · intro a ha
    simp only [Option.mem_def] at ha
    split_ifs at ha with hwork
    obtain ⟨y, hy, rfl⟩ := h.work a ha
    rw [hx, List.mem_cons] at hy
    rcases hy with rfl | hy
    · exact absurd ha hwork
    · exact ⟨_, List.mem_map_of_mem hy, rfl⟩
  · have := hl.shift (n := x.tail - x.raw) (f := fun y => y.shift (x.tail - x.raw)) (by omega)
      fun y _ => ⟨rfl, rfl⟩
    rwa [show x.tail - (x.tail - x.raw) = 0 by omega] at this
  · show (write s.pool x.raw (s.pool.drop x.tail)).length = s.poolSize
    rw [length_write _ _ (by rw [List.length_drop]; omega), h.pool]
  · show s.poolInd - (x.tail - x.raw) ≤ s.poolSize
    have := h.ind_le
    omega
  · have hview := h.view
    rw [hx, List.map_cons, List.cons.injEq] at hview
    rw [← hview.2, List.map_map]
    apply List.map_congr_left
    intro y hy
    have hpos := hl.mem hy
    exact SectionInfo.view_shift (by omega)
      (slice_closed _ hxt hpos.1 htail (h.tail_le (hmem y hy)))

/-! ## The last section goes -/

@[simp] theorem env_detachSectionList : (s.detachSectionList a).env = s.env := by
  unfold detachSectionList resetWork
  split
  · split <;> rfl
  · rfl

theorem deleteSectionList_of_before {b : ℕ} (hb : before a s.sectList = some b) :
    s.deleteSectionList a =
      { s with
        sectList := s.sectList.eraseP fun x => x.addr == a
        sectListBottom := if s.sectListBottom = some a then some b else s.sectListBottom } := by
  unfold deleteSectionList
  cases hm : s.sectList with
  | nil => simp [hm, before] at hb
  | cons z m =>
    cases m with
    | nil => simp [hm, before] at hb
    | cons u m =>
      rw [hm] at hb
      simp only [hb]

theorem deleteSectionList_last (h : Rep s L) (hx : s.sectList = l ++ [x]) :
    s.deleteSectionList x.addr =
      { s with sectList := l, sectListBottom := l.getLast?.map SectionInfo.addr } := by
  have hnodup := hx ▸ h.nodup
  rcases List.eq_nil_or_concat l with rfl | ⟨l', y, rfl⟩
  · simp [deleteSectionList, hx]
  · rw [List.concat_eq_append] at hx hnodup ⊢
    have hbefore : before x.addr s.sectList = some y.addr := hx ▸ before_last hnodup
    rw [deleteSectionList_of_before hbefore, hx, eraseP_last hnodup, h.bottom_last hx, if_pos rfl]
    simp

/-- **The last section goes**, and its bytes. -/
theorem Rep.detachLast (h : Rep s (L ++ [w])) (hx : s.sectList = l ++ [x]) :
    Rep (s.detachSectionList x.addr) L ∧ (s.detachSectionList x.addr).workSectInfo =
      if s.workSectInfo = some x.addr then none else s.workSectInfo := by
  have hnodup := h.nodup
  rw [hx, List.map_append, List.nodup_append] at hnodup
  obtain ⟨hl, hxt, htail⟩ := h.tail_last hx
  have heq : s.detachSectionList x.addr =
      { s with
        sectList := l
        sectListBottom := l.getLast?.map SectionInfo.addr
        pool := write s.pool x.raw (s.pool.drop x.tail)
        poolInd := s.poolInd - (x.tail - x.raw)
        workSectInfo := if s.workSectInfo = some x.addr then none else s.workSectInfo } := by
    simp only [detachSectionList, h.sectAt_last hx, deleteSectionList_last h hx, closeGap, resetWork]
    split <;> rfl
  rw [heq]
  have htl : x.tail ≤ s.pool.length := h.tail_le (hx ▸ List.mem_append_right _ (by simp))
  refine ⟨⟨?_, hnodup.1, rfl, ?_, ?_, ?_, ?_, ?_⟩, rfl⟩
  · intro y hy
    exact h.addr_lt y (hx ▸ List.mem_append_left _ hy)
  · intro a ha
    simp only [Option.mem_def] at ha
    split_ifs at ha with hwork
    obtain ⟨y, hy, rfl⟩ := h.work a ha
    rw [hx, List.mem_append, List.mem_singleton] at hy
    rcases hy with hy | rfl
    · exact ⟨y, hy, rfl⟩
    · exact absurd ha hwork
  · show Laid SectionInfo.raw SectionInfo.tail 0 l (s.poolInd - (x.tail - x.raw))
    rwa [show s.poolInd - (x.tail - x.raw) = x.raw by omega]
  · show (write s.pool x.raw (s.pool.drop x.tail)).length = s.poolSize
    rw [length_write _ _ (by rw [List.length_drop]; omega), h.pool]
  · show s.poolInd - (x.tail - x.raw) ≤ s.poolSize
    have := h.ind_le
    omega
  · rw [← h.view_front hx]
    apply List.map_congr_left
    intro y hy
    have hpos := hl.mem hy
    exact SectionInfo.view_congr (slice_write_front _ _ (by omega) hpos.2.2)

/-! ## A section comes in -/

/-- **A section comes in**, behind the others. -/
theorem Rep.addLast {b : List UInt8} (h : Rep s L) (hb : s.poolInd + b.length ≤ s.poolSize) :
    let x := SectionInfo.mk' s.nextAddr (s.store b).pool s.poolInd b.length s.type
    let t := (s.store b).addSectionList x
    Rep t (L ++ [Sect.first b]) ∧ t.sectList = s.sectList ++ [x] ∧ t.workSectInfo = s.workSectInfo := by
  intro x t
  have hpool := h.pool
  have hstore : (s.store b).pool = write s.pool s.poolInd b := rfl
  have hbytes : slice (s.store b).pool s.poolInd (s.poolInd + b.length) = b :=
    slice_write_self _ _ (by omega) rfl
  have hlist : t.sectList = s.sectList ++ [x] := by
    show (if s.sectList = [] then [x] else linkBehind s.sectListBottom x s.sectList) = _
    split_ifs with hnil
    · rw [hnil, List.nil_append]
    · rcases List.eq_nil_or_concat s.sectList with hl | ⟨l, y, hl⟩
      · exact absurd hl hnil
      · rw [List.concat_eq_append] at hl
        rw [h.bottom_last hl, hl]
        exact linkBehind_last (hl ▸ h.nodup)
  have hold : ∀ y ∈ s.sectList, y.view (write s.pool s.poolInd b) = y.view s.pool := fun y hy =>
    SectionInfo.view_congr (slice_write_front _ _ (by omega) (h.laid.mem hy).2.2)
  have hnew : x.view (write s.pool s.poolInd b) = Sect.first b := by
    simp only [x, SectionInfo.view, SectionInfo.mk', hbytes, SectionInfo.bytes, Sect.first]
    rw [← hstore, hbytes]
    cases (parseHeader .zero b .psisi).2 with
    | none => rfl
    | some k => simp [Ptr.within_add]
  refine ⟨⟨?_, ?_, ?_, ?_, ?_, ?_, ?_, ?_⟩, hlist, rfl⟩
  · intro y hy
    show y.addr < s.nextAddr + 1
    rw [hlist, List.mem_append, List.mem_singleton] at hy
    rcases hy with hy | rfl
    · exact Nat.lt_succ_of_lt (h.addr_lt y hy)
    · exact Nat.lt_succ_self _
  · rw [hlist, List.map_append, List.nodup_append]
    refine ⟨h.nodup, by simp, ?_⟩
    intro a ha a' ha'
    obtain ⟨y, hy, rfl⟩ := List.mem_map.mp ha
    rw [List.map_singleton, List.mem_singleton] at ha'
    have hlt := h.addr_lt y hy
    rw [ha']
    exact Nat.ne_of_lt hlt
  · rw [hlist]
    simp only [List.getLast?_append, List.getLast?_singleton, Option.some_or, Option.map_some]
    rfl
  · intro a ha
    obtain ⟨y, hy, hya⟩ := h.work a ha
    exact ⟨y, hlist ▸ List.mem_append_left _ hy, hya⟩
  · show Laid SectionInfo.raw SectionInfo.tail 0 t.sectList (s.poolInd + b.length)
    rw [hlist, laid_snoc_iff]
    exact ⟨h.laid, Nat.le_add_right _ _, rfl⟩
  · show (write s.pool s.poolInd b).length = s.poolSize
    rw [length_write _ _ (by omega), hpool]
  · exact hb
  · show t.sectList.map (SectionInfo.view (write s.pool s.poolInd b)) = _
    rw [hlist, List.map_append, List.map_singleton, hnew, List.map_congr_left hold, h.view]

/-! ## The last section changes -/

/-- **The last section changes**, with the pool from its first byte on. -/
theorem Rep.setLast {p : List UInt8} (h : Rep s (L ++ [w])) (hx : s.sectList = l ++ [x])
    (haddr : y.addr = x.addr) (hraw : y.raw = x.raw) (hle : x.raw ≤ y.tail)
    (hsize : y.tail ≤ s.poolSize) (hp : p.length = s.poolSize)
    (hfront : ∀ i j, j ≤ x.raw → slice p i j = slice s.pool i j) :
    Rep { s with sectList := l ++ [y], pool := p, poolInd := y.tail } (L ++ [y.view p]) := by
  obtain ⟨hl, -, -⟩ := h.tail_last hx
  have hmap : (l ++ [y]).map SectionInfo.addr = s.sectList.map SectionInfo.addr := by
    rw [hx, List.map_append, List.map_append, List.map_singleton, List.map_singleton, haddr]
  refine ⟨?_, hmap ▸ h.nodup, ?_, ?_, ?_, hp, hsize, ?_⟩
  · intro z hz
    rw [List.mem_append, List.mem_singleton] at hz
    rcases hz with hz | rfl
    · exact h.addr_lt z (hx ▸ List.mem_append_left _ hz)
    · rw [haddr]
      exact h.addr_lt x (hx ▸ List.mem_append_right _ (List.mem_singleton_self x))
  · rw [← List.getLast?_map, hmap, List.getLast?_map]
    exact h.bottom
  · intro a ha
    obtain ⟨z, hz, hza⟩ := h.work a ha
    have hmem : a ∈ (l ++ [y]).map SectionInfo.addr := hmap ▸ hza ▸ List.mem_map_of_mem hz
    exact List.mem_map.mp hmem
  · rw [laid_snoc_iff, hraw]
    exact ⟨hl, hle, rfl⟩
  · show (l ++ [y]).map (SectionInfo.view p) = _
    rw [List.map_append, List.map_singleton, ← h.view_front hx]
    congr 1
    apply List.map_congr_left
    intro z hz
    exact SectionInfo.view_congr (hfront _ _ (hl.mem hz).2.2)

theorem updSect_last (h : Rep s L) (hx : s.sectList = l ++ [x]) (f : SectionInfo → SectionInfo) :
    s.updSect x.addr f = { s with sectList := l ++ [f x] } := by
  rw [updSect, hx, map_last f (hx ▸ h.nodup)]

theorem Rep.extendLast {b : List UInt8} (h : Rep s (L ++ [w])) (hx : s.sectList = l ++ [x])
    (hb : s.poolInd + b.length ≤ s.poolSize) :
    let t := (s.store b).updSect x.addr fun y => { y with tail := s.poolInd + b.length }
    Rep t (L ++ [{ w with bytes := w.bytes ++ b }]) ∧
      t.sectList = l ++ [{ x with tail := s.poolInd + b.length }] ∧
      t.workSectInfo = s.workSectInfo := by
  intro t
  have hpool := h.pool
  obtain ⟨hl, hxt, htail⟩ := h.tail_last hx
  have hw := h.view_last hx
  have ht : t = { s with
      sectList := l ++ [{ x with tail := s.poolInd + b.length }]
      pool := write s.pool s.poolInd b
      poolInd := s.poolInd + b.length } := by
    show (s.store b).updSect x.addr _ = _
    rw [updSect, show (s.store b).sectList = l ++ [x] from hx, map_last _ (hx ▸ h.nodup)]
    rfl
  have hbytes : slice (write s.pool s.poolInd b) x.raw (s.poolInd + b.length) =
      x.bytes s.pool ++ b := by
    rw [← slice_append (write s.pool s.poolInd b) (j := s.poolInd) (by omega) (by omega)
      (by rw [length_write _ _ (by omega)]; omega), slice_write_self _ _ (by omega) rfl,
      slice_write_front _ _ (by omega) (Nat.le_refl _), SectionInfo.bytes, htail]
  have hrep := h.setLast (y := { x with tail := s.poolInd + b.length })
    (p := write s.pool s.poolInd b) hx rfl rfl (by show x.raw ≤ s.poolInd + b.length; omega) hb
    (by rw [length_write _ _ (by omega), hpool])
    fun i j hj => slice_write_front _ _ (by omega) (by omega)
  rw [ht]
  refine ⟨?_, rfl, rfl⟩
  convert hrep using 3
  rw [← hw]
  simp only [SectionInfo.view, SectionInfo.bytes]
  rw [hbytes]
  rfl

theorem Rep.stateLast (h : Rep s (L ++ [w])) (hx : s.sectList = l ++ [x]) (st : SectionState) :
    let t := s.updSect x.addr fun y => { y with state := st }
    Rep t (L ++ [{ w with state := st }]) ∧ t.sectList = l ++ [{ x with state := st }] := by
  intro t
  obtain ⟨-, hxt, htail⟩ := h.tail_last hx
  have ht : t = { s with
      sectList := l ++ [{ x with state := st }], pool := s.pool, poolInd := x.tail } := by
    show s.updSect x.addr _ = _
    rw [updSect_last h hx]
    simp only [htail]
  have hrep := h.setLast (y := { x with state := st }) (p := s.pool) hx rfl rfl hxt
    (htail ▸ h.ind_le) h.pool fun i j _ => rfl
  rw [ht]
  refine ⟨?_, rfl⟩
  rw [← h.view_last hx]
  exact hrep

theorem Rep.truncateLast (h : Rep s (L ++ [w])) (hx : s.sectList = l ++ [x]) {n : ℕ}
    (hn : n ≤ w.bytes.length) :
    let y := { x with tail := x.tail - n }
    let t := (s.updSect x.addr fun _ => y).truncate n
    Rep t (L ++ [{ w with bytes := w.bytes.take (w.bytes.length - n) }]) ∧ t.sectList = l ++ [y] := by
  intro y t
  have hpool := h.pool
  have hind := h.ind_le
  obtain ⟨hl, hxt, htail⟩ := h.tail_last hx
  have hw := h.view_last hx
  have hbytes : w.bytes = slice s.pool x.raw x.tail := by rw [← hw]; rfl
  have hlen : w.bytes.length = x.tail - x.raw := by rw [hbytes, length_slice _ (by omega)]
  have ht : t = { s with
      sectList := l ++ [y]
      pool := write s.pool (s.poolInd - n) (.replicate n 0)
      poolInd := y.tail } := by
    show (s.updSect x.addr fun _ => y).truncate n = _
    rw [updSect_last h hx, truncate]
    simp only [y, htail]
  have hrep := h.setLast (y := y) (p := write s.pool (s.poolInd - n) (.replicate n 0)) hx rfl rfl
    (by show x.raw ≤ x.tail - n; omega) (by show x.tail - n ≤ _; omega)
    (by rw [length_write _ _ (by rw [List.length_replicate]; omega), hpool])
    fun i j hj => slice_write_front _ _ (by omega) (by omega)
  rw [ht]
  refine ⟨?_, rfl⟩
  convert hrep using 3
  rw [← hw]
  simp only [SectionInfo.view, SectionInfo.bytes, y]
  congr 1
  rw [slice_write_front _ _ (by omega) (by omega), length_slice _ (by omega),
    take_slice _ _ (by omega), show x.raw + (x.tail - x.raw - n) = x.tail - n by omega]

/-! ## What the list and the pool leave alone -/

theorem env_evictOldestSection : s.evictOldestSection.2.env = s.env := by
  unfold evictOldestSection
  split
  · rfl
  · split
    · exact env_dropTop
    · rfl

theorem env_makeRoom {size n : ℕ} : (makeRoom size n s).2.env = s.env := by
  induction n generalizing s with
  | zero => rfl
  | succ n ih =>
    rw [makeRoom]
    split
    · have he : s.evictOldestSection.2.env = s.env := env_evictOldestSection
      split
      · rename_i s' hs'
        rw [ih, ← he, hs']
      · rename_i s' hs'
        rw [← he, hs']
    · rfl

theorem env_attachSectionList : (s.attachSectionList b).2.env = s.env := by
  unfold attachSectionList
  split
  · rfl
  · have he : (makeRoom b.length s.sectList.length s).2.env = s.env := env_makeRoom
    split
    · rename_i s₁ hs₁
      rw [← he, hs₁]
    · rename_i s₁ hs₁
      rw [← he, hs₁]
      split <;> rfl

theorem env_dropWork {a : ℕ} : (s.dropWork a).env = s.env :=
  env_detachSectionList (s := s)

theorem env_startOver : s.startOver.env = s.env := by
  unfold startOver
  split
  · split
    · exact env_dropWork
    · rfl
  · rfl

end SectionParser

end AutoRec
