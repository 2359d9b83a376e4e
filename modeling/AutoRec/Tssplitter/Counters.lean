import AutoRec.Tssplitter.Selecting

/-!
# The PATs that are put out

They are one PAT, with continuity counters that follow on each other over all buffers.

* `nthCount`, `nextPatCount_nthCount`: the counters.
* `Counted`, `At`: the PATs that have been put out so far.
* `Counted.run`, `feedAll_start`, **`process_counts`**: from the constructor on.
-/

namespace AutoRec

namespace Tssplitter

/-! ## The counters -/

/-- The `j`-th byte with a counter, from the one of the PAT on. -/
def nthCount (b : UInt8) (j : ℕ) : UInt8 := UInt8.ofNat (b.toNat / 16 * 16 + (b.toNat + j) % 16)

theorem toNat_nthCount (b : UInt8) (j : ℕ) :
    (nthCount b j).toNat = b.toNat / 16 * 16 + (b.toNat + j) % 16 := by
  have hb := b.toNat_lt
  rw [nthCount, UInt8.toNat_ofNat']
  omega

theorem nextPatCount_eq (c x : UInt8) (hc : c.toNat / 16 ≠ 15) :
    (nextPatCount c x).toNat = c.toNat / 16 * 16 + (c.toNat + 1) % 16 := by
  have hne : c ≠ 0xff := by
    rintro rfl
    exact hc rfl
  rw [nextPatCount, if_neg hne]
  exact forall_uint8 (P := fun c => c.toNat / 16 ≠ 15 →
    (if (c + 1) &&& (0x0f : UInt8) = 0 then c + 1 - 0x10 else c + 1).toNat =
      c.toNat / 16 * 16 + (c.toNat + 1) % 16) (by decide +kernel) c hc

theorem nextPatCount_nthCount {b : UInt8} (hb : b.toNat / 16 ≠ 15) (j : ℕ) (x : UInt8) :
    nextPatCount (nthCount b j) x = nthCount b (j + 1) := by
  have hn := toNat_nthCount b j
  have hlt := b.toNat_lt
  refine UInt8.toNat_inj.mp ?_
  rw [nextPatCount_eq _ x (by omega), hn, toNat_nthCount]
  omega

/-! ## The selection -/

/-- A packet with the PID of the PAT. -/
def isPat (q : List UInt8) : Bool := getPid q 1 == some 0

/-- A PAT whose counter can be followed. -/
structure IsPatTable (table : List UInt8) : Prop where
  length : table.length = lengthPacket
  pat : isPat table = true
  count : (table.getD 3 0).toNat / 16 ≠ 15

/-- The `j`-th PAT. -/
def nthPat (table : List UInt8) (j : ℕ) : List UInt8 := table.set 3 (nthCount (table.getD 3 0) j)

/-- `n` PATs have been put out. -/
def Counted (table : List UInt8) : ℕ → Selection → Prop
  | 0, s => s.pat = table ∧ s.count = 0xff
  | n + 1, s => s.pat = nthPat table n ∧ s.count = nthCount (table.getD 3 0) n

section Runs

variable {table : List UInt8} {pid serviceId n : ℕ} {arib : List ℕ} {s : Selection}

theorem IsPatTable.isPat_nthPat (h : IsPatTable table) (j : ℕ) : isPat (nthPat table j) = true := by
  obtain ⟨h₀, h₁, h₂, h₃, h₄, b₀, b₁, b₂, b₃, b₄, b₅, b₆, b₇, d, rfl⟩ := exists_of_length h.length
  exact h.pat

theorem IsPatTable.length_nthPat (h : IsPatTable table) (j : ℕ) :
    (nthPat table j).length = lengthPacket := by
  rw [nthPat, List.length_set, h.length]

theorem Counted.nextPat (h : Counted table n s) (ht : IsPatTable table) :
    s.nextPat.pat = nthPat table n ∧ Counted table (n + 1) s.nextPat := by
  cases n with
  | zero =>
    obtain ⟨hpat, hcount⟩ := h
    have hfirst : nextPatCount s.count (s.pat.getD 3 0) = nthCount (table.getD 3 0) 0 := by
      refine UInt8.toNat_inj.mp ?_
      have hlt := (table.getD 3 0).toNat_lt
      rw [toNat_nthCount, hcount, hpat, nextPatCount, if_pos rfl]
      omega
    have hnext : s.nextPat.pat = nthPat table 0 := by
      rw [Selection.nextPat, hfirst, hpat, nthPat]
    exact ⟨hnext, hnext, hfirst⟩
  | succ n =>
    obtain ⟨hpat, hcount⟩ := h
    have hcounter : nextPatCount s.count (s.pat.getD 3 0) = nthCount (table.getD 3 0) (n + 1) := by
      rw [hcount, nextPatCount_nthCount ht.count]
    have hnext : s.nextPat.pat = nthPat table (n + 1) := by
      rw [Selection.nextPat, hcounter, hpat, nthPat, nthPat, List.set_set]
    exact ⟨hnext, hnext, hcounter⟩

theorem Counted.take (h : Counted table n s) (q : List UInt8) : Counted table n (s.take pid arib q) := by
  have hsame : (s.take pid arib q).pat = s.pat ∧ (s.take pid arib q).count = s.count := by
    rw [Selection.take]
    split
    · split
      · exact ⟨rfl, rfl⟩
      · exact ⟨rfl, rfl⟩
    · exact ⟨rfl, rfl⟩
  cases n with
  | zero => exact ⟨hsame.1.trans h.1, hsame.2.trans h.2⟩
  | succ n => exact ⟨hsame.1.trans h.1, hsame.2.trans h.2⟩

/-- What is put out: the PATs are the next `k` ones. -/
structure Puts (table : List UInt8) (n k : ℕ) (outs : List (List UInt8)) : Prop where
  length : ∀ q ∈ outs, q.length = lengthPacket
  pats : outs.filter isPat = (List.range k).map fun j => nthPat table (n + j)

theorem Puts.nil : Puts table n 0 [] := ⟨fun _ hq => absurd hq List.not_mem_nil, rfl⟩

theorem Puts.append {k k' : ℕ} {outs outs' : List (List UInt8)} (h : Puts table n k outs)
    (h' : Puts table (n + k) k' outs') : Puts table n (k + k') (outs ++ outs') := by
  refine ⟨fun q hq => (List.mem_append.mp hq).elim (h.length q) (h'.length q), ?_⟩
  rw [List.filter_append, h.pats, h'.pats, List.range_add, List.map_append, List.map_map]
  simp only [Function.comp_def, Nat.add_assoc]

/-- **A packet.** -/
theorem Counted.step (h : Counted table n s) (ht : IsPatTable table) {q : List UInt8}
    (hq : q.length = lengthPacket) :
    ∃ k, Counted table (n + k) (s.step pid arib q).1 ∧ Puts table n k (s.step pid arib q).2 := by
  rw [Selection.step]
  by_cases hpat : getPid q 1 = some 0
  · obtain ⟨hnext, hcounted⟩ := h.nextPat ht
    rw [if_pos hpat, hnext]
    refine ⟨1, hcounted, List.forall_mem_singleton.mpr (ht.length_nthPat n), ?_⟩
    rw [List.filter_cons_of_pos (ht.isPat_nthPat n)]
    rfl
  · rw [if_neg hpat]
    have hother : ¬ isPat q = true := by simpa [isPat] using hpat
    refine ⟨0, h.take q, ?_⟩
    split
    · refine ⟨List.forall_mem_singleton.mpr hq, ?_⟩
      rw [List.filter_cons_of_neg hother]
      rfl
    · exact Puts.nil

/-- **Packets.** -/
theorem Counted.run (h : Counted table n s) (ht : IsPatTable table) {l : List (List UInt8)}
    (hl : ∀ q ∈ l, q.length = lengthPacket) :
    ∃ k, Counted table (n + k) (s.run pid arib l).1 ∧ Puts table n k (s.run pid arib l).2 := by
  induction l generalizing s n with
  | nil => exact ⟨0, h, Puts.nil⟩
  | cons q l ih =>
    obtain ⟨hq, hl⟩ := List.forall_mem_cons.mp hl
    obtain ⟨k, h₁, hputs⟩ := h.step ht hq
    obtain ⟨k', h', hputs'⟩ := ih h₁ hl
    exact ⟨k + k', Nat.add_assoc n k k' ▸ h', hputs.append hputs'⟩

/-! ## The stages -/

/-- The PAT has been found, and `n` have been put out. -/
def At (table : List UInt8) (n : ℕ) : Stage → Prop
  | .start => False
  | .pat _ table' => table' = table ∧ n = 0
  | .selected _ s => Counted table n s

theorem length_scan {l : List (List UInt8)} {m : Stage} (hl : ∀ q ∈ l, q.length = lengthPacket) :
    ∀ q ∈ (m.scan serviceId l).2, q.length = lengthPacket := by
  induction l generalizing m with
  | nil => exact fun q hq => absurd hq List.not_mem_nil
  | cons q l ih =>
    obtain ⟨hq, hl⟩ := List.forall_mem_cons.mp hl
    cases l with
    | nil => exact List.forall_mem_singleton.mpr hq
    | cons q' l =>
      rw [Stage.scan]
      split
      · refine List.forall_mem_cons.mpr ⟨?_, hl⟩
        rw [Stage.blank, List.length_set, List.length_set, hq]
      · exact List.forall_mem_cons.mpr ⟨hq, ih hl⟩

theorem At.look {m : Stage} (h : At table 0 m) (q : List UInt8) : At table 0 (m.look serviceId q) := by
  cases m with
  | start => exact h.elim
  | pat pid table' =>
    rw [Stage.look]
    split
    · exact ⟨h.1, rfl⟩
    · exact h
  | selected pid s => exact h

theorem At.scan {m : Stage} (h : At table 0 m) (l : List (List UInt8)) :
    At table 0 (m.scan serviceId l).1 := by
  induction l generalizing m with
  | nil => exact h
  | cons q l ih =>
    cases l with
    | nil => exact h
    | cons q' l =>
      rw [Stage.scan]
      split
      · exact h.look q
      · exact ih (h.look q)

theorem At.split {m : Stage} (h : At table n m) (ht : IsPatTable table) {l : List (List UInt8)}
    (hl : ∀ q ∈ l, q.length = lengthPacket) :
    ∃ k, At table (n + k) (m.split arib l).1 ∧ Puts table n k (m.split arib l).2 := by
  cases m with
  | start => exact h.elim
  | pat pid table' => exact ⟨0, h, Puts.nil⟩
  | selected pid s => exact Counted.run h ht hl

theorem At.eq_zero {m : Stage} (h : At table n m) (hm : m.isSelected = false) : n = 0 := by
  cases m with
  | start => exact h.elim
  | pat pid table' => exact h.2
  | selected pid s => cases hm

/-- **A buffer.** -/
theorem At.feed {m : Stage} (h : At table n m) (ht : IsPatTable table) {l : List (List UInt8)}
    (hl : ∀ q ∈ l, q.length = lengthPacket) :
    ∃ k, At table (n + k) (m.feed serviceId arib l).1 ∧ Puts table n k (m.feed serviceId arib l).2 := by
  rw [Stage.feed]
  cases hm : m.isSelected with
  | true => exact h.split ht hl
  | false =>
    obtain rfl := h.eq_zero hm
    exact (h.scan l).split ht (length_scan hl)

/-- **Buffers.** -/
theorem At.feedAll {m : Stage} (h : At table n m) (ht : IsPatTable table)
    {buffers : List (List (List UInt8))} (hbuffers : ∀ l ∈ buffers, ∀ q ∈ l, q.length = lengthPacket) :
    ∃ k, Puts table n k (m.feedAll serviceId arib buffers).2 := by
  induction buffers generalizing m n with
  | nil => exact ⟨0, Puts.nil⟩
  | cons l buffers ih =>
    obtain ⟨hl, hbuffers⟩ := List.forall_mem_cons.mp hbuffers
    obtain ⟨k, h₁, hputs⟩ := h.feed ht hl
    obtain ⟨k', hputs'⟩ := ih h₁ hbuffers
    exact ⟨k + k', hputs.append hputs'⟩

theorem isPatTable_patOf {pid : ℕ} {q : List UInt8} {p : Program}
    (hq : IsPatPacket serviceId pid q) (hprogram : programOf serviceId q = some p)
    (hcount : (q.getD 3 0).toNat / 16 ≠ 15) : IsPatTable (patOf p q) := by
  obtain ⟨p', sp', hprogram', -, -, hwaits⟩ : ∃ p' sp', programOf serviceId q = some p' ∧ p'.pid = pid ∧
      analyzePat (splitStartup (toString serviceId).toList []) (q ++ []) = some sp' ∧
      Waits pid [] (patOf p' q) sp' := analyzePat_start hq []
  obtain rfl := Option.some.inj (hprogram'.symm.trans hprogram)
  obtain ⟨h₀, h₁, h₂, h₃, h₄, b₀, b₁, b₂, b₃, b₄, b₅, b₆, b₇, d, rfl⟩ := exists_of_length hq.length
  exact ⟨hwaits.length, beq_iff_eq.mpr hq.zero, hcount⟩

theorem scan_start {l : List (List UInt8)} (hl : ∀ q ∈ l, getPid q 1 = some 0 →
    IsPatPacket serviceId pid q ∧ (q.getD 3 0).toNat / 16 ≠ 15) :
    (Stage.start.scan serviceId l).1 = .start ∨
      ∃ q ∈ l, ∃ p, programOf serviceId q = some p ∧ IsPatTable (patOf p q) ∧
        At (patOf p q) 0 (Stage.start.scan serviceId l).1 := by
  induction l with
  | nil => exact .inl rfl
  | cons q l ih =>
    obtain ⟨hq, hl⟩ := List.forall_mem_cons.mp hl
    cases l with
    | nil => exact .inl rfl
    | cons q' l =>
      rw [Stage.scan]
      cases hprogram : programOf serviceId q with
      | none =>
        have hlook : Stage.start.look serviceId q = .start := by rw [Stage.look, hprogram]
        rw [hlook]
        rcases ih hl with hstart | ⟨q₀, hq₀, hfound⟩
        · exact .inl hstart
        · exact .inr ⟨q₀, List.mem_cons_of_mem q hq₀, hfound⟩
      | some p =>
        have hpat : getPid q 1 = some 0 := by
          by_contra hne
          rw [programOf, if_neg hne] at hprogram
          cases hprogram
        obtain ⟨hpacket, hcount⟩ := hq hpat
        have hlook : Stage.start.look serviceId q = .pat p.pid (patOf p q) := by
          rw [Stage.look, hprogram]
        have hat : At (patOf p q) 0 (Stage.pat p.pid (patOf p q)) := ⟨rfl, rfl⟩
        rw [hlook]
        exact .inr ⟨q, List.mem_cons_self, p, hprogram, isPatTable_patOf hpacket hprogram hcount,
          hat.scan (q' :: l)⟩

/-- What is put out of packets: no PAT, or the PATs that have been made of one of them. -/
def PutsMade (serviceId : ℕ) (packets outs : List (List UInt8)) : Prop :=
  outs.filter isPat = [] ∨ ∃ q ∈ packets, ∃ p k, programOf serviceId q = some p ∧
    outs.filter isPat = (List.range k).map fun j => nthPat (patOf p q) j

/-- **Buffers, from the beginning.** -/
theorem feedAll_start {buffers : List (List (List UInt8))}
    (hlength : ∀ l ∈ buffers, ∀ q ∈ l, q.length = lengthPacket)
    (hpats : ∀ l ∈ buffers, ∀ q ∈ l, getPid q 1 = some 0 →
      IsPatPacket serviceId pid q ∧ (q.getD 3 0).toNat / 16 ≠ 15) :
    (∀ q ∈ (Stage.start.feedAll serviceId arib buffers).2, q.length = lengthPacket) ∧
      PutsMade serviceId buffers.flatten (Stage.start.feedAll serviceId arib buffers).2 := by
  induction buffers with
  | nil => exact ⟨fun q hq => absurd hq List.not_mem_nil, .inl rfl⟩
  | cons l buffers ih =>
    obtain ⟨hl, hlength⟩ := List.forall_mem_cons.mp hlength
    obtain ⟨hpl, hpats⟩ := List.forall_mem_cons.mp hpats
    have hfeed : Stage.start.feed serviceId arib l = (Stage.start.scan serviceId l).1.split arib
        (Stage.start.scan serviceId l).2 := rfl
    rw [Stage.feedAll, hfeed, List.flatten_cons]
    obtain hstart | ⟨q, hq, p, hprogram, ht, hat⟩ := scan_start hpl
    · rw [hstart]
      obtain ⟨hall, hmade⟩ := ih hlength hpats
      rcases hmade with hnone | ⟨q, hq, hfound⟩
      · exact ⟨hall, .inl hnone⟩
      · exact ⟨hall, .inr ⟨q, List.mem_append_right l hq, hfound⟩⟩
    · obtain ⟨k, h₁, hputs⟩ : ∃ k, At (patOf p q) (0 + k) _ ∧ Puts (patOf p q) 0 k _ :=
        hat.split ht (length_scan hl)
      obtain ⟨k', hputs'⟩ := h₁.feedAll ht hlength
      have hall := hputs.append hputs'
      refine ⟨hall.length, .inr ⟨q, List.mem_append_left _ hq, p, k + k', hprogram, ?_⟩⟩
      have hpats := hall.pats
      simp only [Nat.zero_add] at hpats
      exact hpats

end Runs

/-- **The PATs that are put out follow on each other.** From the constructor on, over any number of
buffers: they are one PAT, made of one that has come in, with continuity counters that go up by one from
the counter of that one, from fifteen to zero. -/
theorem process_counts (serviceId : UInt16) (arib : List ℕ) {pid : ℕ} (hzero : 0 < pid)
    (hnull : pid ≠ 0x1fff) (buffers : List (List (List UInt8)))
    (hbuffers : ∀ l ∈ buffers, ∀ q ∈ l, IsServicePacket serviceId.toNat pid q)
    (hcount : ∀ l ∈ buffers, ∀ q ∈ l, getPid q 1 = some 0 → (q.getD 3 0).toNat / 16 ≠ 15) :
    ∃ (s' : Process) (outs : List (List UInt8)),
      processAll (Process.init serviceId arib) (buffers.map List.flatten) = some (s', outs.flatten) ∧
      (∀ q ∈ outs, q.length = lengthPacket) ∧
      (outs.filter isPat = [] ∨ ∃ q ∈ buffers.flatten, ∃ p k,
        programOf serviceId.toNat q = some p ∧
        outs.filter isPat =
          (List.range k).map fun j => (patOf p q).set 3 (nthCount (q.getD 3 0) j)) := by
  have hinit : Follows serviceId.toNat pid arib .start (Process.init serviceId arib) :=
    ⟨rfl, iff_of_false (fun h : Result.error = .success => Result.noConfusion h) Bool.false_ne_true⟩
  obtain ⟨s', hall, -⟩ := hinit.processAll hzero hnull hbuffers
  obtain ⟨hlength, hmade⟩ : (∀ q ∈ (Stage.start.feedAll serviceId.toNat arib buffers).2,
      q.length = lengthPacket) ∧ PutsMade serviceId.toNat buffers.flatten
        (Stage.start.feedAll serviceId.toNat arib buffers).2 :=
    feedAll_start (fun l hl q hq => (hbuffers l hl q hq).length)
      fun l hl q hq hpat => ⟨(hbuffers l hl q hq).pat hpat, hcount l hl q hq hpat⟩
  refine ⟨s', _, hall, hlength, hmade.imp_right fun ⟨q, hq, p, k, hprogram, hpats⟩ => ?_⟩
  refine ⟨q, hq, p, k, hprogram, ?_⟩
  obtain ⟨l, hl, hql⟩ := List.mem_flatten.mp hq
  obtain ⟨h₀, h₁, h₂, h₃, h₄, b₀, b₁, b₂, b₃, b₄, b₅, b₆, b₇, d, rfl⟩ :=
    exists_of_length (hbuffers l hl q hql).length
  exact hpats

theorem process_counts_stream : ∃ (s' : Process) (outs : List (List UInt8)),
    processAll (Process.init 1024 []) ([[patPacket, esPacket, pmtPacket, esPacket],
      [patPacket, esPacket]].map List.flatten) = some (s', outs.flatten) ∧
      (∀ q ∈ outs, q.length = lengthPacket) ∧
      (outs.filter isPat = [] ∨
        ∃ q ∈ [[patPacket, esPacket, pmtPacket, esPacket], [patPacket, esPacket]].flatten, ∃ p k,
          programOf (1024 : UInt16).toNat q = some p ∧
          outs.filter isPat =
            (List.range k).map fun j => (patOf p q).set 3 (nthCount (q.getD 3 0) j)) := by
  have hzero : 0 < 0x1f0 := by decide
  refine process_counts 1024 [] hzero (by decide) _ ?_ ?_
  · refine List.forall_mem_cons.mpr ⟨?_, List.forall_mem_singleton.mpr ?_⟩
    · exact List.forall_mem_cons.mpr ⟨isServicePacket_pat, List.forall_mem_cons.mpr
        ⟨isServicePacket_es, List.forall_mem_cons.mpr
          ⟨isServicePacket_pmt, List.forall_mem_singleton.mpr isServicePacket_es⟩⟩⟩
    · exact List.forall_mem_cons.mpr
        ⟨isServicePacket_pat, List.forall_mem_singleton.mpr isServicePacket_es⟩
  · have hes : (esPacket.getD 3 0).toNat / 16 ≠ 15 := by decide
    have hpat : (patPacket.getD 3 0).toNat / 16 ≠ 15 := by decide
    have hpmt : (pmtPacket.getD 3 0).toNat / 16 ≠ 15 := by decide
    simp only [List.forall_mem_cons, List.not_mem_nil, false_implies, implies_true, and_true]
    exact ⟨⟨fun _ => hpat, fun _ => hes, fun _ => hpmt, fun _ => hes⟩, fun _ => hpat, fun _ => hes⟩

end Tssplitter

end AutoRec
