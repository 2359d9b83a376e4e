import AutoRec.Parser.Pool

/-!
# The section in progress

What a section parser does to the sections that it holds: first those that are complete, and behind
them the one that is being received, if there is one.

* `At`: the parser holds the complete sections `done` and the section `cur` in progress.
* `At.makeRoom`: only complete sections make room, the oldest first.
* `At.attachFirst`, `At.attachFollow`: bytes come in, of a new section or of the one in progress.
* `At.startOver`, `At.dropWork`: the section in progress is dropped.
* `Finish`, `At.finishSection`: what becomes of a section of which all bytes are there.
-/

namespace AutoRec

open Arena

/-- The bytes of the section; what is behind them is cut off. -/
def Sect.whole (w : Sect) : List UInt8 := w.bytes.take w.hdr.totalLen

/-- The section is given to `on_section_completed`. -/
structure Call.Of (c : Call) (w : Sect) : Prop where
  bytes : c.bytes = w.whole
  hdr : c.info.sectHdr = w.hdr
  data : c.info.data.within c.info.raw = w.data
  len : c.info.tail - c.info.raw = w.whole.length

namespace SectionParser

variable {τ : Type} {s t : SectionParser τ} {done : List Sect} {cur : Option Sect} {d w : Sect}
  {x : SectionInfo} {l : List SectionInfo} {b : List UInt8} {n size : ℕ}

/-- The parser holds the complete sections `done`, of which no two have the same bytes, and behind
them `cur`, the one at which it works. -/
structure At (s : SectionParser τ) (done : List Sect) (cur : Option Sect) : Prop where
  rep : Rep s (done ++ cur.toList)
  complete : ∀ d ∈ done, d.state = .complete
  distinct : (done.map Sect.bytes).Nodup
  fifo : s.listIsFifo = true → 0 < s.fifoNum ∧ done.length ≤ s.fifoNum
  atWork : cur.isSome = true → s.workSectInfo = s.sectListBottom

theorem create_at (poolSize : ℕ) (fifoNum : ℤ) (type : SectionType) (ext : τ) :
    At (create poolSize fifoNum type ext) [] none where
  rep :=
    { addr_lt := by simp [create]
      nodup := List.nodup_nil
      bottom := rfl
      work := by simp [create]
      laid := rfl
      pool := List.length_replicate
      ind_le := Nat.zero_le _
      view := rfl }
  complete := by simp
  distinct := List.nodup_nil
  fifo := by
    intro h
    have hpos : 0 < fifoNum := by simpa [create] using h
    simp [create, hpos, Int.le_of_lt hpos]
  atWork := by simp

theorem At.last (h : At s done (some w)) : ∃ l x, s.sectList = l ++ [x] ∧
    s.workSectInfo = some x.addr ∧ s.sectAt x.addr = some x ∧ x.view s.pool = w := by
  obtain ⟨l, x, hx⟩ := h.rep.split
  exact ⟨l, x, hx, (h.atWork rfl).trans (h.rep.bottom_last hx), h.rep.sectAt_last hx,
    h.rep.view_last hx⟩

theorem At.last_unique (h : At s done (some w)) (hx : s.sectAt x.addr = some x)
    (hwork : s.workSectInfo = some x.addr) : ∃ l, s.sectList = l ++ [x] := by
  obtain ⟨l, y, hl, hy, hya, -⟩ := h.last
  rw [hwork, Option.some.injEq] at hy
  rw [← hy, hx, Option.some.injEq] at hya
  exact ⟨l, hya ▸ hl⟩

/-! ## The oldest section goes -/

theorem fifo_of_env (he : t.env = s.env) : t.listIsFifo = s.listIsFifo ∧ t.fifoNum = s.fifoNum :=
  ⟨congrArg Env.listIsFifo he, congrArg Env.fifoNum he⟩

theorem poolSize_of_env (he : t.env = s.env) : t.poolSize = s.poolSize := congrArg Env.poolSize he

theorem At.dropTop (h : At s (d :: done) cur) (hx : s.sectList = x :: l) :
    At (s.dropTop x) done cur where
  rep := h.rep.dropTop hx
  complete := fun e he => h.complete e (List.mem_cons_of_mem _ he)
  distinct := (List.nodup_cons.mp h.distinct).2
  fifo := by
    intro hf
    obtain ⟨hl, hn⟩ := fifo_of_env (env_dropTop (s := s) (x := x))
    have := h.fifo (hl ▸ hf)
    rw [List.length_cons] at this
    omega
  atWork := by
    intro hcur
    obtain ⟨w, rfl⟩ := Option.isSome_iff_exists.mp hcur
    obtain ⟨l', y, hl', hwork, -, -⟩ := h.last
    -- the section in progress is not the one in front
    have hlen := congrArg List.length h.rep.view
    rw [hl'] at hlen
    obtain ⟨z, l'', rfl⟩ := List.exists_cons_of_ne_nil (l := l') (by rintro rfl; simp at hlen)
    have hnodup := hl' ▸ h.rep.nodup
    obtain ⟨rfl, rfl⟩ := List.cons.inj (hx.symm.trans hl')
    have hne : x.addr ≠ y.addr := addr_ne_last hnodup List.mem_cons_self
    rw [dropTop_eq hx]
    have hwork' : s.workSectInfo ≠ some x.addr := by
      rw [hwork]
      simpa using hne.symm
    show (if _ then none else _) = if _ then none else _
    rw [if_neg hwork', if_neg (by simp), h.atWork rfl]

theorem At.dropTop_work (h : At s (d :: done) cur) (hx : s.sectList = x :: l)
    (hcur : cur.isSome = true) : (s.dropTop x).workSectInfo = s.workSectInfo := by
  obtain ⟨w, rfl⟩ := Option.isSome_iff_exists.mp hcur
  obtain ⟨-, y, -, hy, -, -⟩ := (h.dropTop hx).last
  rw [dropTop_eq hx] at hy ⊢
  simp only at hy ⊢
  split_ifs at hy ⊢
  rfl

theorem At.top (h : At s (d :: done) cur) :
    ∃ x l, s.sectList = x :: l ∧ x.state = .complete ∧ x.view s.pool = d := by
  have hview := h.rep.view
  rw [List.cons_append] at hview
  obtain ⟨x, l, hl, hx, -⟩ := List.map_eq_cons_iff.mp hview
  exact ⟨x, l, hl, (congrArg Sect.state hx).trans (h.complete d List.mem_cons_self), hx⟩

theorem At.evict (h : At s (d :: done) cur) :
    ∃ t, s.evictOldestSection = (true, t) ∧ At t done cur ∧ t.env = s.env ∧
      (cur.isSome = true → t.workSectInfo = s.workSectInfo) := by
  obtain ⟨x, l, hl, hx, -⟩ := h.top
  refine ⟨s.dropTop x, ?_, h.dropTop hl, env_dropTop, h.dropTop_work hl⟩
  simp only [evictOldestSection, hl, if_pos hx]

theorem At.evict_nil (h : At s [] cur) (hcur : ∀ w ∈ cur, w.state ≠ .complete) :
    s.evictOldestSection = (false, s) := by
  have hview := h.rep.view
  rw [List.nil_append] at hview
  unfold evictOldestSection
  cases hl : s.sectList with
  | nil => rfl
  | cons x l =>
    rw [hl, List.map_cons] at hview
    have hmem : x.view s.pool ∈ cur := by
      apply Option.mem_toList.mp
      rw [← hview]
      exact List.mem_cons_self
    exact if_neg (hcur _ hmem)

theorem makeRoom_of_room (hroom : ¬ s.poolSize - s.poolInd < size) :
    SectionParser.makeRoom size n s = (true, s) := by
  cases n with
  | zero => simp [SectionParser.makeRoom, hroom]
  | succ n => simp only [SectionParser.makeRoom, if_neg hroom]

/-- **Room is made** by complete sections only; if that is not enough, the section in progress and
the new bytes do not fit into the pool. -/
theorem At.makeRoom (h : At s done cur) (hcur : ∀ w ∈ cur, w.state ≠ .complete) (size : ℕ)
    (hn : done.length ≤ n) :
    ∃ r t done', makeRoom size n s = (r, t) ∧ done' <:+ done ∧ At t done' cur ∧ t.env = s.env ∧
      (cur.isSome = true → t.workSectInfo = s.workSectInfo) ∧
      if bytesIn cur.toList + size ≤ s.poolSize then r = true ∧ t.poolInd + size ≤ s.poolSize
      else r = false := by
  induction done generalizing s n with
  | nil =>
    have hind := h.rep.ind
    have hle := h.rep.ind_le
    rw [List.nil_append] at hind
    by_cases hroom : s.poolSize - s.poolInd < size
    · refine ⟨false, s, [], ?_, List.suffix_refl _, h, rfl, fun _ => rfl, by rw [if_neg (by omega)]⟩
      cases n with
      | zero => simp [SectionParser.makeRoom, hroom]
      | succ n => simp only [SectionParser.makeRoom, if_pos hroom, h.evict_nil hcur]
    · exact ⟨true, s, [], makeRoom_of_room hroom, List.suffix_refl _, h, rfl,
        fun _ => rfl, by
        rw [if_pos (by omega)]
        exact ⟨rfl, by omega⟩⟩
  | cons d done ih =>
    by_cases hroom : s.poolSize - s.poolInd < size
    · obtain ⟨n, rfl⟩ : ∃ m, n = m + 1 := ⟨n - 1, by simp only [List.length_cons] at hn; omega⟩
      obtain ⟨t, ht, hat, he, hwork⟩ := h.evict
      obtain ⟨r, t', done', hr, hsuf, hat', he', hwork', hres⟩ := ih hat (Nat.le_of_succ_le_succ hn)
      rw [poolSize_of_env he] at hres
      refine ⟨r, t', done', ?_, hsuf.trans (List.suffix_cons _ _), hat', he'.trans he,
        fun hcur => (hwork' hcur).trans (hwork hcur), hres⟩
      simp only [SectionParser.makeRoom, if_pos hroom, ht, hr]
    · have hind := h.rep.ind
      have hle := h.rep.ind_le
      rw [bytesIn_append] at hind
      exact ⟨true, s, d :: done, makeRoom_of_room hroom, List.suffix_refl _, h, rfl,
        fun _ => rfl, by
        rw [if_pos (by omega)]
        exact ⟨rfl, by omega⟩⟩

/-! ## Bytes come in -/

theorem At.swap {cur' : Option Sect} (h : At s done cur) (hrep : Rep t (done ++ cur'.toList))
    (he : t.env = s.env) (hwork : cur'.isSome = true → t.workSectInfo = t.sectListBottom) :
    At t done cur' where
  rep := hrep
  complete := h.complete
  distinct := h.distinct
  fifo := by
    obtain ⟨hl, hn⟩ := fifo_of_env he
    rw [hl, hn]
    exact h.fifo
  atWork := hwork

theorem At.outside (h : At s done cur) (ignoring : Bool) (e : τ) (calls : List Call) :
    At { s with isIgnoreSection := ignoring, ext := e, calls := calls } done cur :=
  ⟨⟨h.rep.addr_lt, h.rep.nodup, h.rep.bottom, h.rep.work, h.rep.laid, h.rep.pool, h.rep.ind_le,
    h.rep.view⟩, h.complete, h.distinct, h.fifo, h.atWork⟩

theorem At.clearWork (h : At s done none) : At { s with workSectInfo := none } done none :=
  h.swap (h.rep.setWork none (by simp)) rfl (by simp)

/-- Without a section in progress, all sections of the list are complete. -/
theorem At.listed {a : ℕ} (h : At s done none) (hx : s.sectAt a = some x) : x.state = .complete := by
  have hmem : x ∈ s.sectList := List.mem_of_find?_eq_some hx
  have hview := h.rep.view
  rw [Option.toList_none, List.append_nil] at hview
  exact h.complete (x.view s.pool) (hview ▸ List.mem_map_of_mem hmem)

theorem At.workReceiving_none (h : At s done none) : s.workReceiving = none := by
  unfold workReceiving
  split
  · apply if_neg
    intro hr
    obtain ⟨x, hx, hstate⟩ := Option.map_eq_some_iff.mp hr
    rw [h.listed hx] at hstate
    cases hstate
  · rfl

theorem At.workReceiving_some (h : At s done (some w)) (hw : w.state = .receiving)
    (hwork : s.workSectInfo = some x.addr) (hx : s.sectAt x.addr = some x) :
    s.workReceiving = some x.addr := by
  obtain ⟨l, hl⟩ := h.last_unique hx hwork
  have hstate : x.state = .receiving := (congrArg Sect.state (h.rep.view_last hl)).trans hw
  simp only [workReceiving, hwork, hx, Option.map_some, hstate, if_true]

/-- **The first bytes** of a section come in. -/
theorem At.attachFirst (h : At s done none) (hb : b ≠ []) :
    ∃ r t done', s.attachSectionList b = (r, t) ∧ done' <:+ done ∧ t.env = s.env ∧
      if b.length ≤ s.poolSize then
        ∃ x, r = some x.addr ∧ t.sectAt x.addr = some x ∧
          At { t with workSectInfo := some x.addr } done' (some (Sect.first b))
      else r = none ∧ At t done' none := by
  have hlen : done.length ≤ s.sectList.length := by
    have := congrArg List.length h.rep.view
    simp at this
    omega
  obtain ⟨r, s₁, done', hr, hsuf, hat, he, -, hroom⟩ :=
    h.makeRoom (by simp) b.length hlen
  rw [Option.toList_none, show bytesIn [] = 0 from rfl, Nat.zero_add] at hroom
  by_cases hfit : b.length ≤ s.poolSize
  · rw [if_pos hfit] at hroom
    obtain ⟨rfl, hle⟩ := hroom
    have hrep := hat.rep
    rw [Option.toList_none, List.append_nil] at hrep
    let x := SectionInfo.mk' s₁.nextAddr (s₁.store b).pool s₁.poolInd b.length s₁.type
    let t := (s₁.store b).addSectionList x
    obtain ⟨hadd, hlist, -⟩ := hrep.addLast (b := b) (by rw [poolSize_of_env he]; exact hle)
    have hx : t.sectAt x.addr = some x := hadd.sectAt_last hlist
    refine ⟨some x.addr, t, done', ?_, hsuf, he, ?_⟩
    · simp only [attachSectionList, if_neg hb, hr, hat.workReceiving_none]
      rfl
    · rw [if_pos hfit]
      refine ⟨x, rfl, hx, hat.swap (hadd.setWork _ ?_) rfl fun _ => rfl⟩
      intro a ha
      rw [Option.mem_some_iff] at ha
      exact ⟨_, List.mem_of_find?_eq_some hx, ha⟩
  · rw [if_neg hfit] at hroom
    refine ⟨none, s₁, done', ?_, hsuf, he, by rw [if_neg hfit]; exact ⟨rfl, hat⟩⟩
    simp only [attachSectionList, if_neg hb, hr, hroom]

/-- **More bytes** of the section in progress come in. -/
theorem At.attachFollow (h : At s done (some w)) (hw : w.state = .receiving) (hb : b ≠ []) :
    ∃ r t done', s.attachSectionList b = (r, t) ∧ done' <:+ done ∧ t.env = s.env ∧
      if w.bytes.length + b.length ≤ s.poolSize then
        ∃ x, r = some x.addr ∧ s.workSectInfo = some x.addr ∧ t.sectAt x.addr = some x ∧
          t.workSectInfo = some x.addr ∧ At t done' (some { w with bytes := w.bytes ++ b })
      else r = none ∧ At t done' (some w) := by
  have hlen : done.length ≤ s.sectList.length := by
    have := congrArg List.length h.rep.view
    simp at this
    omega
  obtain ⟨r, s₁, done', hr, hsuf, hat, he, hsame, hroom⟩ :=
    h.makeRoom (by simp [hw]) b.length hlen
  rw [show bytesIn (some w).toList = w.bytes.length from Nat.add_zero _] at hroom
  by_cases hfit : w.bytes.length + b.length ≤ s.poolSize
  · rw [if_pos hfit] at hroom
    obtain ⟨rfl, hle⟩ := hroom
    obtain ⟨l, x, hl, hwork, hx, -⟩ := hat.last
    obtain ⟨hext, hlist, hwork'⟩ :=
      hat.rep.extendLast (b := b) hl (by rw [poolSize_of_env he]; exact hle)
    let t := (s₁.store b).updSect x.addr fun y => { y with tail := s₁.poolInd + b.length }
    have hx' : t.sectAt x.addr = some { x with tail := s₁.poolInd + b.length } := by
      have := hext.sectAt_last hlist
      exact this
    refine ⟨some x.addr, t, done', ?_, hsuf, he, ?_⟩
    · simp only [attachSectionList, if_neg hb, hr, hat.workReceiving_some hw hwork hx]
      rfl
    · rw [if_pos hfit]
      refine ⟨{ x with tail := s₁.poolInd + b.length }, rfl, (hsame rfl).symm.trans hwork, hx',
        hwork'.trans hwork, hat.swap hext rfl fun _ => ?_⟩
      rw [hext.bottom_last hlist]
      exact hwork'.trans hwork
  · rw [if_neg hfit] at hroom
    refine ⟨none, s₁, done', ?_, hsuf, he, by rw [if_neg hfit]; exact ⟨rfl, hat⟩⟩
    simp only [attachSectionList, if_neg hb, hr, hroom]

/-! ## The section in progress is dropped -/

theorem At.dropWork {a : ℕ} (h : At s done (some w)) (ha : s.workSectInfo = some a) :
    At (s.dropWork a) done none ∧ (s.dropWork a).env = s.env := by
  obtain ⟨l, x, hl, hwork, -, -⟩ := h.last
  rw [ha, Option.some.injEq] at hwork
  have he : (s.dropWork a).env = s.env := env_detachSectionList
  refine ⟨h.swap ?_ he (by simp), he⟩
  rw [Option.toList_none, List.append_nil, hwork]
  exact (h.rep.detachLast hl).1.setWork none (by simp)

theorem At.startOver (h : At s done cur)
    (hcur : ∀ w ∈ cur, w.state = .init ∨ w.state = .receiving) :
    At s.startOver done none ∧ s.startOver.env = s.env := by
  cases cur with
  | none =>
    have hs : s.startOver = s := by
      unfold SectionParser.startOver
      split
      · apply if_neg
        intro hopen
        obtain ⟨x, hx, hopen⟩ := (Option.any_eq_true _ _).mp hopen
        simp [SectionInfo.isOpen, h.listed hx] at hopen
      · rfl
    rw [hs]
    exact ⟨h, rfl⟩
  | some w =>
    obtain ⟨l, x, hl, hwork, hx, hview⟩ := h.last
    have hstate : x.state = .init ∨ x.state = .receiving := by
      rw [show x.state = w.state from congrArg Sect.state hview]
      exact hcur w rfl
    have hs : s.startOver = s.dropWork x.addr := by
      have hopen : x.isOpen = true := by
        rcases hstate with hstate | hstate <;> simp [SectionInfo.isOpen, hstate]
      simp only [SectionParser.startOver, hwork, hx, Option.any_some, hopen, if_true]
    rw [hs]
    exact h.dropWork hwork

/-! ## A section of which all bytes are there -/

/-- What becomes of a section `w` of which all bytes are there, when the parser holds the complete
sections `done`. -/
inductive Finish (done : List Sect) (calls : List Call) (w : Sect) :
    CheckSection → List Sect → List Call → Prop
  | crc32Err (hcrc : crc32 w.whole ≠ 0) : Finish done calls w .crc32Err done calls
  | already (hcrc : crc32 w.whole = 0) (hold : w.whole ∈ done.map Sect.bytes) :
    Finish done calls w .completedAlready done calls
  | completed (hcrc : crc32 w.whole = 0) (hnew : w.whole ∉ done.map Sect.bytes) {c : Call}
    (hc : c.Of w) {done' : List Sect}
    (hdone : done'.Sublist (done ++ [{ w with bytes := w.whole, state := .complete }])) :
    Finish done calls w .completed done' (calls ++ [c])

theorem At.isReceiveAll (h : At s done (some w)) (hx : s.sectAt x.addr = some x)
    (hwork : s.workSectInfo = some x.addr) :
    x.isReceiveAll = decide (w.hdr.totalLen ≤ w.bytes.length) := by
  obtain ⟨l, hl⟩ := h.last_unique hx hwork
  rw [← h.rep.view_last hl]
  show decide (x.totalLen ≤ x.tail - x.raw) = decide (x.totalLen ≤ (x.bytes s.pool).length)
  rw [h.rep.length_bytes (List.mem_of_find?_eq_some hx)]

theorem At.slice_whole (h : At s done (some w)) (hx : s.sectAt x.addr = some x)
    (hwork : s.workSectInfo = some x.addr) (hw : w.hdr.totalLen ≤ w.bytes.length) :
    slice s.pool x.raw (x.raw + x.totalLen) = w.whole := by
  obtain ⟨l, hl⟩ := h.last_unique hx hwork
  have hle := (h.rep.tail_last hl).2.1
  have hlen := h.rep.length_bytes (List.mem_of_find?_eq_some hx)
  rw [← h.rep.view_last hl] at hw ⊢
  have htotal : x.totalLen ≤ x.tail - x.raw := hlen ▸ hw
  rw [← take_slice s.pool (j := x.tail) _ (by omega)]
  rfl

theorem At.setState (h : At s done (some w)) (hx : s.sectAt x.addr = some x)
    (hwork : s.workSectInfo = some x.addr) (st : SectionState) :
    let t := s.updSect x.addr fun y => { y with state := st }
    At t done (some { w with state := st }) ∧ t.sectAt x.addr = some { x with state := st } := by
  intro t
  obtain ⟨l, hl⟩ := h.last_unique hx hwork
  obtain ⟨hrep, hlist⟩ := h.rep.stateLast hl st
  have hx' := hrep.sectAt_last hlist
  exact ⟨h.swap hrep rfl fun _ => h.atWork rfl, hx'⟩

theorem At.truncate (h : At s done (some w)) (hx : s.sectAt x.addr = some x)
    (hwork : s.workSectInfo = some x.addr) (hw : w.hdr.totalLen ≤ w.bytes.length) :
    let y := { x with tail := x.tail - x.surplus }
    let t := (s.updSect x.addr fun _ => y).truncate x.surplus
    At t done (some { w with bytes := w.whole }) ∧ t.sectAt x.addr = some y := by
  intro y t
  obtain ⟨l, hl⟩ := h.last_unique hx hwork
  have hview := h.rep.view_last hl
  have hlen : w.bytes.length = x.tail - x.raw := by
    rw [← hview]
    exact h.rep.length_bytes (List.mem_of_find?_eq_some hx)
  have hsur : x.surplus = w.bytes.length - w.hdr.totalLen := by
    rw [SectionInfo.surplus, ← hlen, ← hview]
    rfl
  obtain ⟨hrep, hlist⟩ := h.rep.truncateLast hl (n := x.surplus) (by omega)
  rw [show w.bytes.length - x.surplus = w.hdr.totalLen by omega] at hrep
  have hx' := hrep.sectAt_last hlist
  exact ⟨h.swap hrep rfl fun _ => h.atWork rfl, hx'⟩

/-- **The search** finds a complete section with the same bytes, if there is one. -/
theorem At.search (h : At s done (some w)) (hx : s.sectAt x.addr = some x)
    (hwork : s.workSectInfo = some x.addr) (hw : w.state ≠ .complete) :
    (s.searchSectionList x).map SectionInfo.state = some .complete ↔
      w.bytes ∈ done.map Sect.bytes := by
  obtain ⟨l, hl⟩ := h.last_unique hx hwork
  have hview := h.rep.view_last hl
  have hdone := h.rep.view_front hl
  have hxm : x ∈ s.sectList := List.mem_of_find?_eq_some hx
  have hmem : ∀ y ∈ l, y ∈ s.sectList := fun y hy => hl ▸ List.mem_append_left _ hy
  have hbytes : x.bytes s.pool = w.bytes := congrArg Sect.bytes hview
  rw [searchSectionList, hl, List.find?_append]
  cases hf : l.find? fun y => y.opEq s.pool x with
  | some y =>
    have hy : y ∈ l := List.mem_of_find?_eq_some hf
    have heq : y.opEq s.pool x = true := by
      have := List.find?_some hf
      exact this
    have hyd : y.view s.pool ∈ done := hdone ▸ List.mem_map_of_mem hy
    have hstate : y.state = .complete := h.complete _ hyd
    rw [h.rep.opEq_iff (hmem y hy) hxm, hbytes] at heq
    simp only [Option.some_or, Option.map_some, hstate, true_iff]
    exact List.mem_map.mpr ⟨_, hyd, heq⟩
  | none =>
    have hself : x.opEq s.pool x = true := (h.rep.opEq_iff hxm hxm).mpr rfl
    have hstate : x.state ≠ .complete := (congrArg Sect.state hview).trans_ne hw
    simp only [Option.none_or, List.find?_cons, hself, Option.map_some, Option.some.injEq, hstate,
      false_iff]
    intro hold
    obtain ⟨d, hd, hdw⟩ := List.mem_map.mp hold
    obtain ⟨y, hy, rfl⟩ := List.mem_map.mp (hdone ▸ hd)
    apply List.find?_eq_none.mp hf y hy
    exact (h.rep.opEq_iff (hmem y hy) hxm).mpr (hdw.trans hbytes.symm)

@[simp] theorem env_checkDetachFifoSectionList : s.checkDetachFifoSectionList.env = s.env := by
  unfold checkDetachFifoSectionList
  split
  · rfl
  · split
    · rfl
    · split
      · rfl
      · exact env_dropTop

theorem At.checkDetachFifo (h : At s done (some w)) :
    ∃ done', done' <:+ done ∧ At s.checkDetachFifoSectionList done' (some w) ∧
      s.checkDetachFifoSectionList.workSectInfo = s.workSectInfo ∧
      (s.listIsFifo = true → done'.length + 1 ≤ s.fifoNum) := by
  have hlen : s.sectList.length = done.length + 1 := by
    have := congrArg List.length h.rep.view
    simpa using this
  by_cases hf : s.listIsFifo = true
  · obtain ⟨hpos, hle⟩ := h.fifo hf
    by_cases hfull : s.fifoNum ≥ s.sectList.length
    · have hs : s.checkDetachFifoSectionList = s := by
        simp [checkDetachFifoSectionList, hf, hfull]
      rw [hs]
      exact ⟨done, List.suffix_refl _, h, rfl, fun _ => by omega⟩
    · obtain ⟨d, done', rfl⟩ := List.exists_cons_of_ne_nil (l := done) (by
        rintro rfl
        simp only [List.length_nil] at hlen
        omega)
      obtain ⟨x, l, hl, -, -⟩ := h.top
      have hs : s.checkDetachFifoSectionList = s.dropTop x := by
        simp only [checkDetachFifoSectionList, hf, Bool.not_true, Bool.false_eq_true, if_false,
          if_neg hfull]
        rw [hl]
      have hat := h.dropTop hl
      have hwork := h.dropTop_work hl rfl
      rw [List.length_cons] at hlen hle
      rw [hs]
      exact ⟨done', List.suffix_cons _ _, hat, hwork, fun _ => by omega⟩
  · have hs : s.checkDetachFifoSectionList = s := by simp [checkDetachFifoSectionList, hf]
    rw [hs]
    exact ⟨done, List.suffix_refl _, h, rfl, fun hf' => absurd hf' hf⟩

theorem At.list (h : At s done (some w)) (hw : w.state = .complete)
    (hnew : w.bytes ∉ done.map Sect.bytes)
    (hfifo : s.listIsFifo = true → done.length + 1 ≤ s.fifoNum) : At s (done ++ [w]) none where
  rep := by
    rw [Option.toList_none, List.append_nil]
    exact h.rep
  complete := by
    intro d hd
    rw [List.mem_append, List.mem_singleton] at hd
    rcases hd with hd | rfl
    · exact h.complete d hd
    · exact hw
  distinct := by
    rw [List.map_append, List.nodup_append]
    refine ⟨h.distinct, by simp, ?_⟩
    intro b hb b' hb'
    rw [List.map_singleton, List.mem_singleton] at hb'
    rintro rfl
    exact hnew (hb' ▸ hb)
  fifo := by
    intro hf
    have := hfifo hf
    rw [List.length_append, List.length_singleton]
    exact ⟨(h.fifo hf).1, by exact_mod_cast this⟩
  atWork := by simp

theorem At.onSectionCompleted (H : Hooks τ) (h : At s done (some w)) (hw : w.state = .complete)
    (hnew : w.bytes ∉ done.map Sect.bytes)
    (hfifo : s.listIsFifo = true → done.length + 1 ≤ s.fifoNum)
    (hx : s.sectAt x.addr = some x) (hwork : s.workSectInfo = some x.addr) :
    ∃ done' e, done'.Sublist (done ++ [w]) ∧ At (s.onSectionCompleted H x) done' none ∧
      (s.onSectionCompleted H x).env =
        { s.env with ext := e, calls := s.calls ++ [Call.mk x (x.bytes s.pool)] } ∧
      (H.Detaches → done' = done) := by
  let e := (H.completed s.ext x (x.bytes s.pool)).2
  let s₁ := { s with ext := e, calls := s.calls ++ [Call.mk x (x.bytes s.pool)] }
  have h₁ : At s₁ done (some w) := h.outside s.isIgnoreSection e _
  by_cases hr : (H.completed s.ext x (x.bytes s.pool)).1 = true
  · have hs : s.onSectionCompleted H x = s₁.detachSectionList x.addr := by
      simp only [SectionParser.onSectionCompleted, hr, if_true]
      rfl
    obtain ⟨l, hl⟩ := h₁.last_unique hx hwork
    obtain ⟨hdet, -⟩ := h₁.rep.detachLast hl
    rw [hs]
    refine ⟨done, e, List.sublist_append_left _ _, ?_, env_detachSectionList, fun _ => rfl⟩
    exact h₁.swap (by rw [Option.toList_none, List.append_nil]; exact hdet) env_detachSectionList
      (by simp)
  · have hs : s.onSectionCompleted H x = s₁ := by
      simp only [SectionParser.onSectionCompleted, hr, Bool.false_eq_true, if_false]
      rfl
    rw [hs]
    exact ⟨done ++ [w], e, List.Sublist.refl _, h₁.list hw hnew hfifo, rfl,
      fun hH => absurd (hH _ _ _) hr⟩

/-- **A section of which all bytes are there** is dropped or completed. -/
theorem At.finishSection (H : Hooks τ) (h : At s done (some w)) (hstate : w.state = .received)
    (hx : s.sectAt x.addr = some x) (hwork : s.workSectInfo = some x.addr)
    (hw : w.hdr.totalLen ≤ w.bytes.length) :
    ∃ r t done' e calls, s.finishSection H x = (r, t) ∧ Finish done s.calls w r done' calls ∧
      At t done' none ∧ t.env = { s.env with ext := e, calls := calls } ∧
      (H.Detaches → done' <:+ done) := by
  have hcrc : x.checkCrc32 s.pool = decide (crc32 w.whole = 0) := by
    rw [SectionInfo.checkCrc32, h.slice_whole hx hwork hw]
    rfl
  by_cases hzero : crc32 w.whole = 0
  · obtain ⟨h₁, hx₁⟩ := h.truncate hx hwork hw
    set y := { x with tail := x.tail - x.surplus } with hy
    set s₁ := (s.updSect x.addr fun _ => y).truncate x.surplus with hs₁
    have hsearch := h₁.search (x := y) hx₁ hwork (by simp [hstate])
    by_cases hold : w.whole ∈ done.map Sect.bytes
    · obtain ⟨hat, he⟩ := h₁.dropWork (a := x.addr) hwork
      refine ⟨.completedAlready, s₁.dropWork x.addr, done, s.ext, s.calls, ?_, .already hzero hold,
        hat, he, fun _ => List.suffix_refl _⟩
      simp only [SectionParser.finishSection, hcrc, hzero, decide_true, Bool.not_true,
        Bool.false_eq_true, if_false]
      rw [if_pos (hsearch.mpr hold)]
    · obtain ⟨h₂, -⟩ := h₁.setState (x := y) hx₁ hwork .complete
      obtain ⟨done', hsuf, h₃, hwork₃, hfifo⟩ := h₂.checkDetachFifo
      set s₂ := (s₁.updSect y.addr fun y => { y with state := .complete }).checkDetachFifoSectionList
      obtain ⟨l', z, hl', hz, hz', hzview⟩ := h₃.last
      have hza : z.addr = x.addr := by
        rw [hwork₃] at hz
        exact (Option.some.inj (hwork.symm.trans hz)).symm
      have hnew : w.whole ∉ done'.map Sect.bytes := fun hm =>
        hold ((hsuf.sublist.map Sect.bytes).subset hm)
      have he₂ : s₂.env = s.env := env_checkDetachFifoSectionList
      obtain ⟨hl₂, hn₂⟩ := fifo_of_env he₂
      obtain ⟨done'', e, hsub, hat, he, hdet⟩ := h₃.onSectionCompleted H rfl hnew
        (by rw [hl₂, hn₂]; exact hfifo) hz' hz
      refine ⟨.completed, s₂.onSectionCompleted H z, done'', e, _, ?_,
        .completed hzero hold (c := ⟨z, z.bytes s₂.pool⟩) ?_
          (hsub.trans (hsuf.sublist.append (List.Sublist.refl _))), hat, ?_,
        fun hH => (hdet hH).symm ▸ hsuf⟩
      · simp only [SectionParser.finishSection, hcrc, hzero, decide_true, Bool.not_true,
          Bool.false_eq_true, if_false]
        rw [if_neg (hsearch.not.mpr hold)]
        rw [hza] at hz'
        change s₂.sectAt x.addr = some z at hz'
        split
        · rename_i z' hz''
          rw [Option.some.inj (hz''.symm.trans hz')]
        · rename_i hnone
          cases hnone.symm.trans hz'
      · have hlz := h₃.rep.length_bytes (List.mem_of_find?_eq_some hz')
        have hbz : z.bytes s₂.pool = w.whole := congrArg Sect.bytes hzview
        exact ⟨hbz, congrArg Sect.hdr hzview, congrArg Sect.data hzview, hbz ▸ hlz.symm⟩
      · rw [he, he₂, show s₂.calls = s.calls from congrArg Env.calls he₂]
  · obtain ⟨hat, he⟩ := h.dropWork hwork
    refine ⟨.crc32Err, s.dropWork x.addr, done, s.ext, s.calls, ?_, .crc32Err hzero, hat, he,
      fun _ => List.suffix_refl _⟩
    simp only [SectionParser.finishSection, hcrc, hzero, decide_false, Bool.not_false, if_true]

theorem At.onSectionStarted (H : Hooks τ) (h : At s done (some w)) (hx : s.sectAt x.addr = some x)
    (hwork : s.workSectInfo = some x.addr) :
    ∃ t e, s.onSectionStarted H x = ((H.started s.ext x w.bytes).1, t) ∧ At t done (some w) ∧
      t.sectAt x.addr = some x ∧ t.workSectInfo = some x.addr ∧
      t.env = { s.env with ext := e } := by
  obtain ⟨l, hl⟩ := h.last_unique hx hwork
  have hbytes : x.bytes s.pool = w.bytes := congrArg Sect.bytes (h.rep.view_last hl)
  let e := (H.started s.ext x w.bytes).2
  refine ⟨{ s with ext := e }, e, ?_, h.outside s.isIgnoreSection e s.calls, hx, hwork, rfl⟩
  simp only [SectionParser.onSectionStarted, hbytes, e]

/-- What both `check_section_first` and `check_section_follow` do when all bytes are there. -/
theorem At.finishReceived (H : Hooks τ) (h : At s done (some w)) (hx : s.sectAt x.addr = some x)
    (hwork : s.workSectInfo = some x.addr) (hw : w.hdr.totalLen ≤ w.bytes.length) :
    ∃ r t done' e calls,
      (s.updSect x.addr fun y => { y with state := .received }).finishSection H
        { x with state := .received } = (r, t) ∧
      Finish done s.calls { w with state := .received } r done' calls ∧ At t done' none ∧
      t.env = { s.env with ext := e, calls := calls } ∧ (H.Detaches → done' <:+ done) := by
  obtain ⟨hat, hx'⟩ := h.setState hx hwork .received
  exact hat.finishSection H (x := { x with state := .received }) rfl hx' hwork hw

end SectionParser

end AutoRec
