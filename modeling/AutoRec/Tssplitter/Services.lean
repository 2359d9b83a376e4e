import AutoRec.Tssplitter.Splitter
import Mathlib.Data.List.TakeWhile

/-!
# The services that are chosen

`arib_b25_process` asks for one service, by its number as a string.

* `analyzeSid_toString`, `atoi_toString`: the number is read back.
* `wanted`, `run_toString`: the programs with this number are chosen, or all if there is none.
* `foldl_choose_apply`, `pos_foldl_choose`: what is known of programs that are chosen.
-/

namespace AutoRec

namespace Tssplitter

/-! ## The number of a service as a string -/

theorem isDigit_of_mem_toString {n : ℕ} {c : Char} (h : c ∈ (toString n).toList) :
    c.isDigit = true := by
  rw [Nat.toString_eq_ofList_toDigits, String.toList_ofList] at h
  exact Nat.isDigit_of_mem_toDigits (by decide) (by decide) h

theorem toList_toString_ne_nil (n : ℕ) : (toString n).toList ≠ [] := by
  rw [Nat.toString_eq_ofList_toDigits, String.toList_ofList]
  exact Nat.toDigits_ne_nil

theorem ne_of_isDigit {c d : Char} (hc : c.isDigit = true) (hd : d.isDigit = false) : c ≠ d := by
  rintro rfl
  rw [hc] at hd
  cases hd

theorem toLower_of_isDigit {c : Char} (hc : c.isDigit = true) : c.toLower = c := by
  simp only [Char.isDigit, Bool.and_eq_true, decide_eq_true_eq, ge_iff_le,
    UInt32.le_iff_toNat_le] at hc
  have h9 : ('9' : Char).val.toNat = 57 := rfl
  have hA : ('A' : Char).val.toNat = 65 := rfl
  refine dif_neg ?_
  simp only [ge_iff_le, UInt32.le_iff_toNat_le]
  omega

theorem isSpace_of_isDigit {c : Char} (hc : c.isDigit = true) : isSpace c = false := by
  simp only [Char.isDigit, Bool.and_eq_true, decide_eq_true_eq, ge_iff_le,
    UInt32.le_iff_toNat_le] at hc
  have h0 : ('0' : Char).val.toNat = 48 := rfl
  have hn : c.toNat = c.val.toNat := rfl
  simp only [isSpace, hn, Bool.or_eq_false_iff, Bool.and_eq_false_iff, beq_eq_false_iff_ne,
    decide_eq_false_iff_not]
  omega

theorem analyzeSid_toString (n : ℕ) :
    analyzeSid (toString n).toList = [(toString n).toList] := by
  have hsplit : (toString n).toList.splitOn ',' = [(toString n).toList] :=
    List.splitOn_eq_singleton fun hmem => ne_of_isDigit (isDigit_of_mem_toString hmem) rfl rfl
  have hlast : [(toString n).toList].getLast? ≠ some [] := by
    rw [List.getLast?_singleton, ne_eq, Option.some.injEq]
    exact toList_toString_ne_nil n
  rw [analyzeSid, hsplit, if_neg hlast]

/-- **The number is read back.** -/
theorem atoi_toString (n : ℕ) : atoi (toString n).toList = n := by
  have hdigits : ∀ c ∈ (toString n).toList, c.isDigit = true := fun c => isDigit_of_mem_toString
  have hdrop : (toString n).toList.dropWhile isSpace = (toString n).toList := by
    obtain ⟨c, s, hs⟩ := List.exists_cons_of_ne_nil (toList_toString_ne_nil n)
    rw [hs, List.dropWhile_cons_of_neg]
    simp [isSpace_of_isDigit (hdigits c (hs ▸ List.mem_cons_self))]
  have htake : (toString n).toList.takeWhile Char.isDigit = (toString n).toList :=
    List.takeWhile_eq_self_iff.mpr hdigits
  have hvalue : atoiDigits (toString n).toList = n := by
    rw [atoiDigits, htake, Nat.toString_eq_ofList_toDigits, String.toList_ofList,
      Nat.ofDigitChars_ten_toDigits]
  obtain ⟨c, s, hs⟩ := List.exists_cons_of_ne_nil (toList_toString_ne_nil n)
  have hc := hdigits c (hs ▸ List.mem_cons_self)
  rw [atoi, hdrop, hs]
  simp only [if_neg (ne_of_isDigit hc (d := '-') rfl), if_neg (ne_of_isDigit hc (d := '+') rfl)]
  rw [← hs, hvalue]

theorem strcaseeq_toString {n : ℕ} {t : String} (ht : t.toList.all Char.isDigit = false) :
    strcaseeq (toString n).toList t = false := by
  have hlower : (toString n).toList.map Char.toLower = (toString n).toList := by
    conv_rhs => rw [← List.map_id (toString n).toList]
    exact List.map_congr_left fun c hc => toLower_of_isDigit (isDigit_of_mem_toString hc)
  rw [strcaseeq, hlower, beq_eq_false_iff_ne]
  intro heq
  rw [← heq, ← Bool.not_eq_true, List.all_eq_true] at ht
  exact ht fun c => isDigit_of_mem_toString

/-! ## The programs -/

/-- The programs with the number of the service, or all if there is none. -/
def wanted (n : ℕ) (progs : List Program) : List Program :=
  if progs.any (fun p => p.serviceId == n) then progs.filter fun p => p.serviceId == n else progs

section Choose

variable {s : Scan} {p : Program} {progs : List Program} {n pid : ℕ}

theorem wanted_sublist : (wanted n progs).Sublist progs := by
  unfold wanted
  split
  · exact List.filter_sublist
  · exact List.Sublist.refl _

theorem sids_toString (availSids : List ℕ) :
    s.sids availSids p [(toString n).toList] =
      if p.serviceId == n then s.choose p else s := by
  rw [Scan.sids]
  have hrest : ∀ s : Scan, s.sids availSids p [] = s := fun _ => rfl
  have hsid : s.sid availSids p (toString n).toList = if p.serviceId == n then s.choose p else s := by
    rw [Scan.sid, atoi_toString]
    rw [strcaseeq_toString rfl, strcaseeq_toString rfl, strcaseeq_toString rfl,
      strcaseeq_toString rfl, strcaseeq_toString rfl, strcaseeq_toString rfl,
      strcaseeq_toString rfl, strcaseeq_toString rfl]
    simp only [Bool.or_self, Bool.false_eq_true, if_false]
    by_cases hid : p.serviceId = n
    · rw [if_pos (by rw [hid]), if_pos (beq_iff_eq.mpr hid)]
    · rw [if_neg (by omega), if_neg (by simp [hid])]
  rw [hsid, hrest, ite_self]

/-- **The programs with the number are chosen**, or all if there is none. -/
theorem run_toString (hfound : s.sidFound = false) :
    s.run [(toString n).toList] progs = (wanted n progs).foldl Scan.choose s := by
  have hfold : ∀ (l : List Program) (s : Scan),
      l.foldl (fun s p => s.sids (progs.map Program.serviceId) p [(toString n).toList]) s =
        (l.filter fun p => p.serviceId == n).foldl Scan.choose s := by
    intro l
    induction l with
    | nil => exact fun _ => rfl
    | cons p l ih =>
      intro s
      rw [List.foldl_cons, sids_toString, ih, List.filter_cons]
      split_ifs <;> rfl
  have hkeeps : ∀ (l : List Program) (s : Scan), s.sidFound = true →
      (l.foldl Scan.choose s).sidFound = true := by
    intro l
    induction l with
    | nil => exact fun _ h => h
    | cons p l ih => exact fun s _ => ih _ rfl
  unfold Scan.run wanted
  simp only [hfold]
  cases hany : progs.any (fun p => p.serviceId == n) with
  | true =>
    obtain ⟨p, hp, hid⟩ := List.any_eq_true.mp hany
    have hmem : p ∈ progs.filter fun p => p.serviceId == n := List.mem_filter.mpr ⟨hp, hid⟩
    obtain ⟨q, l, hl⟩ := List.exists_cons_of_ne_nil (List.ne_nil_of_mem hmem)
    have hfound : ((progs.filter fun p => p.serviceId == n).foldl Scan.choose s).sidFound = true := by
      rw [hl, List.foldl_cons]
      exact hkeeps l _ rfl
    simp [hfound]
  | false =>
    have hnone : (progs.filter fun p => p.serviceId == n) = [] := by
      rw [List.filter_eq_nil_iff]
      intro p hp
      simpa using List.any_eq_false.mp hany p hp
    simp [hnone, hfound]

theorem versions_foldl_choose (l : List Program) (s : Scan) :
    (l.foldl Scan.choose s).versions = s.versions ++ l.map fun p => ⟨p.pid, none⟩ := by
  induction l generalizing s with
  | nil => exact (List.append_nil _).symm
  | cons p l ih => rw [List.foldl_cons, ih, Scan.choose, List.append_assoc]; rfl

theorem aribPids_foldl_choose (l : List Program) (s : Scan) :
    (l.foldl Scan.choose s).aribPids = s.aribPids := by
  induction l generalizing s with
  | nil => rfl
  | cons p l ih => rw [List.foldl_cons, ih]; rfl

theorem foldl_choose_apply (table : Scan → ℕ → UInt8)
    (hchoose : ∀ s p, table (s.choose p) = Function.update (table s) p.pid 1) (l : List Program)
    (s : Scan) :
    table (l.foldl Scan.choose s) pid = if pid ∈ l.map Program.pid then 1 else table s pid := by
  induction l generalizing s with
  | nil => simp
  | cons p l ih =>
    rw [List.foldl_cons, ih, hchoose, Function.update_apply, List.map_cons]
    by_cases hl : pid ∈ l.map Program.pid <;> by_cases hp : pid = p.pid <;> simp [hl, hp]

theorem pos_foldl_choose {l : List Program} (hl : (l.map Program.pid).Nodup) (s : Scan) :
    (∀ p ∈ l, (l.foldl Scan.choose s).pos p.pid = p.pos) ∧
      ∀ pid, pid ∉ l.map Program.pid → (l.foldl Scan.choose s).pos pid = s.pos pid := by
  induction l generalizing s with
  | nil => simp
  | cons p l ih =>
    rw [List.map_cons, List.nodup_cons] at hl
    obtain ⟨hmem, hother⟩ := ih hl.2 (s.choose p)
    have hupdate : ∀ pid, (s.choose p).pos pid = if pid = p.pid then p.pos else s.pos pid :=
      fun pid => Function.update_apply _ _ _ _
    refine ⟨fun q hq => ?_, fun pid hpid => ?_⟩
    · rcases List.mem_cons.mp hq with rfl | hq
      · rw [List.foldl_cons, hother _ hl.1, hupdate, if_pos rfl]
      · exact hmem q hq
    · rw [List.map_cons, List.mem_cons, not_or] at hpid
      rw [List.foldl_cons, hother _ hpid.2, hupdate, if_neg hpid.1]

end Choose

end Tssplitter

end AutoRec
