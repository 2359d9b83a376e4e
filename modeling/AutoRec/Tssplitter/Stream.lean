import AutoRec.Tssplitter.Pmt

/-!
# The stream that is split off

What the splitter is for, when it has found one service: it puts out the packets with the PIDs of the
PMT that it has last taken, and its own PAT in the place of each PAT.

* `Selection`, `step`, `run`: this, without the tables of the splitter.
* `Tracks`: the splitter has the selection in its tables. `IsStreamPacket`: the packets that come in.
* `Tracks.splitPacket`, **`Tracks.splitLoop`**: it puts out what the selection says.
-/

namespace AutoRec

namespace Tssplitter

/-! ## What the splitter is for -/

/-- What is put out: the PIDs of the PMT last taken, its version, and the PAT with its continuity
counter. -/
structure Selection where
  version : UInt8
  pids : List ℕ
  pat : List UInt8
  count : UInt8

/-- The PMT of a service in a packet. -/
def pmtOf (pid : ℕ) (q : List UInt8) : Option ProgramMapTable :=
  if getPid q 1 = some pid ∧ (q.getD 1 0) &&& 0x40 ≠ 0 then
    (ProgramMapTable.parse (Sect.first (q.drop 5)).hdr (q.drop 13)).toOption
  else none

namespace Selection

variable (pid : ℕ) (arib : List ℕ)

/-- The next PAT. -/
def nextPat (s : Selection) : Selection :=
  { s with
    pat := s.pat.set 3 (nextPatCount s.count (s.pat.getD 3 0))
    count := nextPatCount s.count (s.pat.getD 3 0) }

/-- A PMT of another version is taken. -/
def take (s : Selection) (q : List UInt8) : Selection :=
  match pmtOf pid q with
  | some t =>
    if versionByte t = s.version then s
    else { s with version := versionByte t, pids := pid :: (splitPids t ++ arib) }
  | none => s

/-- What becomes of a packet, and what is put out. -/
def step (s : Selection) (q : List UInt8) : Selection × List (List UInt8) :=
  if getPid q 1 = some 0 then (s.nextPat, [s.nextPat.pat])
  else (s.take pid arib q, if (getPid q 1).any (· ∈ (s.take pid arib q).pids) then [q] else [])

/-- What becomes of packets. -/
def run : Selection → List (List UInt8) → Selection × List (List UInt8)
  | s, [] => (s, [])
  | s, q :: l => ((run (s.step pid arib q).1 l).1,
      (s.step pid arib q).2 ++ (run (s.step pid arib q).1 l).2)

theorem run_append (s : Selection) (l l' : List (List UInt8)) :
    s.run pid arib (l ++ l') = (((s.run pid arib l).1.run pid arib l').1,
      (s.run pid arib l).2 ++ ((s.run pid arib l).1.run pid arib l').2) := by
  induction l generalizing s with
  | nil => rfl
  | cons q l ih => rw [List.cons_append, run, ih, run, List.append_assoc]

end Selection

/-! ## The splitter -/

/-- The splitter has found one service, and has the selection in its tables. -/
structure Tracks (pid : ℕ) (arib : List ℕ) (s : Selection) (sp : Splitter) : Prop where
  pat : sp.pat = some s.pat
  count : sp.patCount = s.count
  length : s.pat.length = lengthPacket
  retain : sp.pmtRetain = 1
  counter : sp.pmtCounter = 1
  version : sp.pmtVersion = [⟨pid, some s.version⟩]
  pmtPids : ∀ i, sp.pmtPids i = if i = pid then 2 else 0
  pids : ∀ i, sp.pids i = if i ∈ s.pids then 1 else 0
  arib : sp.aribPids = arib

/-- A packet: if it begins a PMT of the service, it has all of it. -/
structure IsStreamPacket (pid : ℕ) (q : List UInt8) : Prop where
  length : q.length = lengthPacket
  pmt : getPid q 1 = some pid → (q.getD 1 0) &&& 0x40 ≠ 0 → ∃ t, IsPmtPacket pid q t

section Packets

variable {pid : ℕ} {arib : List ℕ} {s : Selection} {sp : Splitter} {q more : List UInt8}
  {t : ProgramMapTable}

theorem pmtOf_eq (h : IsPmtPacket pid q t) : pmtOf pid q = some t := by
  obtain ⟨b, hb, hstart⟩ := h.start
  have hget : q.getD 1 0 = b := by rw [List.getD_eq_getElem?_getD, hb, Option.getD_some]
  rw [pmtOf, if_pos ⟨h.pid, hget ▸ hstart⟩, h.parse]
  rfl

theorem pmtOf_of_start (h : ¬ ((q.getD 1 0) &&& 0x40 ≠ 0)) : pmtOf pid q = none :=
  if_neg fun hand => h hand.2

theorem pmtOf_of_ne (h : getPid q 1 ≠ some pid) : pmtOf pid q = none := if_neg fun hand => h hand.1

theorem IsPmtPacket.version (h : IsPmtPacket pid q t) :
    ∃ b, q[10]? = some b ∧ b &&& 0x3e = versionByte t := by
  obtain ⟨h₀, h₁, h₂, h₃, h₄, b₀, b₁, b₂, b₃, b₄, b₅, b₆, b₇, d₀, d₁, d₂, d₃, p, rfl, hb⟩ := h.bytes
  exact ⟨b₅, rfl, hb.version⟩

namespace Tracks

theorem isReady (h : Tracks pid arib s sp) : isReady sp = true := by
  rw [Tssplitter.isReady, h.counter, h.retain]
  rfl

theorem rescanPid (h : Tracks pid arib s sp) (hq : IsPmtPacket pid q t) (more : List UInt8) :
    ∃ sp', Tssplitter.rescanPid sp (q ++ more) = some (.success, sp') ∧
      Tracks pid arib { s with version := versionByte t, pids := pid :: (splitPids t ++ arib) } sp' := by
  obtain ⟨b₃, hanalyze⟩ := analyzePmt_eq hq (rescan sp) 2 more
  have hscan : rescan sp = { sp with
      pids := sp.pmtPids, pmtCounter := 0, sectionRemain := fun _ => 0, packetSeq := fun _ => 0 } := by
    rw [rescan, if_pos h.isReady]
  set sp₁ := analyzed (rescan sp) pid t 2 b₃ with hsp₁
  have hpids : ∀ i, sp₁.pids i = if i ∈ pid :: (splitPids t ++ arib) then 2 else 0 := by
    intro i
    have hmark : ¬ (2 : UInt8) = 1 := by decide
    simp only [hsp₁, hscan, analyzed, markAll, if_neg hmark, h.arib, h.pmtPids, List.mem_cons]
    by_cases hi : i = pid <;> by_cases hl : i ∈ splitPids t ++ arib <;> simp [hi, hl]
  have hretain : sp₁.pmtRetain = 1 := by rw [hsp₁, hscan]; exact h.retain
  have hcounter : sp₁.pmtCounter = 0 := by rw [hsp₁, hscan]; rfl
  have hversion : sp₁.pmtVersion = [⟨pid, some (versionByte t)⟩] := by
    simp [hsp₁, hscan, analyzed, h.version]
  have hready : Tssplitter.isReady { sp₁ with pmtCounter := sp₁.pmtCounter + 1 } = true := by
    rw [Tssplitter.isReady, hcounter, hretain]
    rfl
  refine ⟨{ sp₁ with
    pmtCounter := sp₁.pmtCounter + 1
    pids := fun i => if 0 < sp₁.pids i then sp₁.pids i - 1 else sp₁.pids i }, ?_, {
      pat := by rw [hsp₁, hscan]; exact h.pat
      count := by rw [hsp₁, hscan]; exact h.count
      length := h.length
      retain := hretain
      counter := by rw [hcounter]; rfl
      version := hversion
      pmtPids := by rw [hsp₁, hscan]; exact h.pmtPids
      pids := ?_
      arib := by rw [hsp₁, hscan]; exact h.arib }⟩
  · simp only [Tssplitter.rescanPid, hanalyze, Option.bind_eq_bind, Option.bind_some, if_true, hready,
      Option.pure_def]
  · intro i
    simp only [hpids]
    by_cases hi : i ∈ pid :: (splitPids t ++ arib)
    · rw [if_pos hi, if_pos hi]
      decide
    · rw [if_neg hi, if_neg hi]
      decide

theorem splitPmt (h : Tracks pid arib s sp) (hq : IsStreamPacket pid q) (hpid : getPid q 1 = some pid)
    (more : List UInt8) (v : Option UInt8) (r : Result) (out : List UInt8) :
    ∃ sp' v' r', Tssplitter.splitPmt ⟨sp, v, r, out⟩ (q ++ more) pid = some ⟨sp', v', r', out⟩ ∧
      Tracks pid arib (s.take pid arib q) sp' := by
  have hlen : q.length = 188 := hq.length
  obtain ⟨b, hb⟩ : ∃ b, q[1]? = some b := ⟨q[1], List.getElem?_eq_getElem (by omega)⟩
  have hget : q.getD 1 0 = b := by rw [List.getD_eq_getElem?_getD, hb, Option.getD_some]
  have hread : (q ++ more)[1]? = some b := by rw [List.getElem?_append_left (by omega), hb]
  by_cases hstart : b &&& 0x40 ≠ 0
  · obtain ⟨t, ht⟩ := hq.pmt hpid (hget ▸ hstart)
    obtain ⟨b₁₀, hb₁₀, hversion⟩ := ht.version
    have hread₁₀ : (q ++ more)[10]? = some b₁₀ := by rw [List.getElem?_append_left (by omega), hb₁₀]
    have hknown : ((sp.pmtVersion.find? fun v => v.pid == pid).map PmtVersion.version).getD v =
        some s.version := by
      simp [h.version]
    simp only [Tssplitter.splitPmt, hread, hread₁₀, Option.bind_eq_bind, Option.bind_some, if_pos hstart,
      hknown, hversion, h.isReady, Bool.true_eq_false, or_false, ne_eq, Option.some.injEq,
      Selection.take, pmtOf_eq ht]
    by_cases hsame : versionByte t = s.version
    · rw [if_neg (not_not.mpr hsame.symm), if_pos hsame]
      exact ⟨sp, some s.version, r, rfl, h⟩
    · obtain ⟨sp', hrescan, htracks⟩ := h.rescanPid ht more
      rw [if_pos (Ne.symm hsame), if_neg hsame, hrescan]
      exact ⟨sp', some s.version, .success, rfl, htracks⟩
  · simp only [Tssplitter.splitPmt, hread, Option.bind_eq_bind, Option.bind_some, if_neg hstart,
      h.isReady, Bool.true_eq_false, if_false, Selection.take, pmtOf_of_start (hget ▸ hstart)]
    exact ⟨sp, v, r, rfl, h⟩

/-- **What becomes of a packet.** -/
theorem splitPacket (h : Tracks pid arib s sp) (hq : IsStreamPacket pid q) (more : List UInt8)
    (v : Option UInt8) (r : Result) {out : List UInt8} {capacity : ℕ}
    (hroom : out.length + lengthPacket ≤ capacity) :
    ∃ sp' v' r', Tssplitter.splitPacket capacity ⟨sp, v, r, out⟩ (q ++ more) =
        some ⟨sp', v', r', out ++ (s.step pid arib q).2.flatten⟩ ∧
      Tracks pid arib (s.step pid arib q).1 sp' := by
  have hlen : q.length = 188 := hq.length
  have hroom : out.length + 188 ≤ capacity := hroom
  obtain ⟨i, hi⟩ : ∃ i, getPid q 1 = some i := by
    obtain ⟨h₀, h₁, h₂, h₃, h₄, b₀, b₁, b₂, b₃, b₄, b₅, b₆, b₇, d, rfl⟩ := exists_of_length hlen
    exact ⟨_, rfl⟩
  have hread : getPid (q ++ more) 1 = some i := by
    rw [getPid, List.getElem?_append_left (by omega), List.getElem?_append_left (by omega)]
    exact hi
  by_cases hpat : i = 0
  · -- the PAT of the splitter is put out
    have hplen : s.pat.length = 188 := h.length
    have hb : s.pat[3]? = some (s.pat.getD 3 0) := by
      rw [List.getD_eq_getElem?_getD, List.getElem?_eq_getElem (by omega), Option.getD_some]
    have hfits : ¬ ((s.pat.set 3 (nextPatCount s.count (s.pat.getD 3 0))).length < lengthPacket ∨
        capacity < out.length + lengthPacket) := by
      show ¬ (_ < 188 ∨ capacity < out.length + 188)
      rw [List.length_set]
      omega
    have htake : (s.pat.set 3 (nextPatCount s.count (s.pat.getD 3 0))).take lengthPacket =
        s.pat.set 3 (nextPatCount s.count (s.pat.getD 3 0)) :=
      List.take_of_length_le (by rw [List.length_set]; exact hplen.le)
    simp only [Tssplitter.splitPacket, hread, Option.bind_eq_bind, Option.bind_some, if_pos hpat,
      splitPat, h.pat, hb, h.count, Splitting.write, if_neg hfits, htake, Selection.step,
      if_pos (hi.trans (congrArg some hpat)), Selection.nextPat, List.flatten_singleton]
    exact ⟨_, _, _, rfl, { h with
      pat := rfl
      count := rfl
      length := by rw [List.length_set]; exact hplen }⟩
  · -- any other packet is put out if its PID is one of the selection
    have hstep : s.step pid arib q = (s.take pid arib q,
        if i ∈ (s.take pid arib q).pids then [q] else []) := by
      have hne : ¬ getPid q 1 = some 0 := by rw [hi]; simpa using hpat
      rw [Selection.step, if_neg hne, hi, Option.any_some]
      simp only [decide_eq_true_eq]
    have hfits : ¬ ((q ++ more).length < lengthPacket ∨ capacity < out.length + lengthPacket) := by
      show ¬ (_ < 188 ∨ capacity < out.length + 188)
      rw [List.length_append]
      omega
    have hwrite : ∀ sp' v' r', Tracks pid arib (s.take pid arib q) sp' →
        (if sp'.pids i ≠ 0 then (⟨sp', v', r', out⟩ : Splitting).write capacity (q ++ more)
          else some ⟨sp', v', r', out⟩) =
          some ⟨sp', v', r', out ++ (if i ∈ (s.take pid arib q).pids then [q] else []).flatten⟩ := by
      intro sp' v' r' htracks
      have hpids := htracks.pids i
      by_cases hin : i ∈ (s.take pid arib q).pids
      · have hone : sp'.pids i ≠ 0 := by rw [hpids, if_pos hin]; decide
        rw [if_pos hone, if_pos hin, Splitting.write, if_neg hfits, List.take_left' hlen,
          List.flatten_singleton]
      · have hzero : ¬ sp'.pids i ≠ 0 := by rw [hpids, if_neg hin]; decide
        rw [if_neg hzero, if_neg hin, List.flatten_nil, List.append_nil]
    have hpmt := h.pmtPids i
    by_cases hip : i = pid
    · have htwo : sp.pmtPids i ≠ 0 := by rw [hpmt, if_pos hip]; decide
      obtain ⟨sp', v', r', hlooked, htracks⟩ :=
        h.splitPmt hq (hi.trans (congrArg some hip)) more v r out
      refine ⟨sp', v', r', ?_, hstep ▸ htracks⟩
      simp only [Tssplitter.splitPacket, hread, Option.bind_eq_bind, Option.bind_some, if_neg hpat,
        if_pos htwo, hip ▸ hlooked, hwrite sp' v' r' htracks, Option.pure_def, hstep]
    · have hzero : ¬ sp.pmtPids i ≠ 0 := by rw [hpmt, if_neg hip]; decide
      have hne : getPid q 1 ≠ some pid := by rw [hi]; simpa using hip
      have hsame : s.take pid arib q = s := by rw [Selection.take, pmtOf_of_ne hne]
      have htracks : Tracks pid arib (s.take pid arib q) sp := hsame.symm ▸ h
      refine ⟨sp, v, r, ?_, hstep ▸ htracks⟩
      simp only [Tssplitter.splitPacket, hread, Option.bind_eq_bind, Option.bind_some, if_neg hpat,
        if_neg hzero, hwrite sp v r htracks, Option.pure_def, hstep]

theorem length_step_le (h : Tracks pid arib s sp) (hq : IsStreamPacket pid q) :
    (s.step pid arib q).2.flatten.length ≤ lengthPacket := by
  rw [Selection.step]
  split_ifs
  · rw [List.flatten_singleton, Selection.nextPat, List.length_set, h.length]
  · rw [List.flatten_singleton, hq.length]
  · exact Nat.zero_le _

/-- **What becomes of a buffer.** -/
theorem splitLoop {packets : List (List UInt8)} (h : Tracks pid arib s sp)
    (hpackets : ∀ q ∈ packets, IsStreamPacket pid q) {v : Option UInt8} {r : Result}
    {out : List UInt8} {capacity fuel : ℕ}
    (hroom : out.length + lengthPacket * packets.length ≤ capacity) (hfuel : packets.length ≤ fuel) :
    ∃ sp' v' r', Tssplitter.splitLoop capacity fuel ⟨sp, v, r, out⟩ packets.flatten =
        some ⟨sp', v', r', out ++ (s.run pid arib packets).2.flatten⟩ ∧
      Tracks pid arib (s.run pid arib packets).1 sp' := by
  induction packets generalizing s sp v r out fuel with
  | nil =>
    refine ⟨sp, v, r, ?_, h⟩
    have hdone : out ++ (s.run pid arib []).2.flatten = out := List.append_nil out
    rw [hdone]
    cases fuel <;> simp [Tssplitter.splitLoop]
  | cons q packets ih =>
    obtain ⟨k, rfl⟩ := Nat.exists_eq_succ_of_ne_zero (Nat.ne_of_gt (Nat.lt_of_lt_of_le
      (Nat.zero_lt_succ _) hfuel))
    obtain ⟨hq, hpackets⟩ := List.forall_mem_cons.mp hpackets
    have hstep := h.length_step_le hq
    have hroom : out.length + 188 * (packets.length + 1) ≤ capacity := hroom
    have hnow : out.length + lengthPacket ≤ capacity := by
      show _ + 188 ≤ _
      omega
    obtain ⟨sp₁, v₁, r₁, hpacket, h₁⟩ := h.splitPacket hq packets.flatten v r hnow
    have hlater : (out ++ (s.step pid arib q).2.flatten).length + lengthPacket * packets.length ≤
        capacity := by
      have hstep : (s.step pid arib q).2.flatten.length ≤ 188 := hstep
      rw [List.length_append]
      show _ + 188 * _ ≤ _
      omega
    obtain ⟨sp', v', r', hloop, h'⟩ := ih h₁ hpackets (v := v₁) (r := r₁) hlater
      (Nat.succ_le_succ_iff.mp hfuel)
    refine ⟨sp', v', r', ?_, h'⟩
    have hsome : q ++ packets.flatten ≠ [] := by
      intro hnil
      have hlen : q.length = 188 := hq.length
      rw [(List.append_eq_nil_iff.mp hnil).1] at hlen
      cases hlen
    rw [List.flatten_cons, Tssplitter.splitLoop, if_neg hsome, hpacket, Option.bind_eq_bind,
      Option.bind_some, List.drop_left' hq.length, hloop, List.append_assoc, ← List.flatten_append]
    rfl

end Tracks

end Packets

end Tssplitter

end AutoRec
