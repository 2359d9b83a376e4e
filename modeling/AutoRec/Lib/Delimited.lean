import Mathlib.Data.List.Infix
import Mathlib.Data.List.Induction
import Mathlib.Tactic.Common

/-!
# Texts with a delimiter

A text is cut into its lines, each with the delimiter behind it, and an unfinished line.

* `cutText`: symbol by symbol.
* `IsLine`, `IsCut`: what is to come out. **`cutText_eq_iff`**; `cutText_append`: a text that comes
  in two pieces.
* `firstAt`: the first place of the delimiter; `firstAt_of_isLine`, `firstAt_eq_none_iff`.
-/

namespace Delimited

variable {α : Type*}

/-- The delimiter is behind the line, and nowhere before. -/
def IsLine (delim l : List α) : Prop := ¬ delim <:+: (l ++ delim).dropLast

/-- The text is made of the lines, and of the rest in which there is no delimiter. -/
structure IsCut (delim text : List α) (lines : List (List α)) (rest : List α) : Prop where
  eq : text = lines.flatMap (· ++ delim) ++ rest
  lines : ∀ l ∈ lines, IsLine delim l
  rest : ¬ delim <:+: rest

section Cut

variable [DecidableEq α] {delim text : List α}

/-- A symbol more, behind the lines and the rest. -/
def cutSymbol (delim : List α) (x : List (List α) × List α) (b : α) : List (List α) × List α :=
  if delim <:+ x.2 ++ [b] then (x.1 ++ [(x.2 ++ [b]).take (x.2.length + 1 - delim.length)], [])
  else (x.1, x.2 ++ [b])

/-- The lines of a text, and the rest. -/
def cutText (delim text : List α) : List (List α) × List α :=
  text.foldl (cutSymbol delim) ([], [])

theorem IsCut.cutSymbol {x : List (List α) × List α} (h : IsCut delim text x.1 x.2) (b : α)
    (hdelim : delim ≠ []) :
    IsCut delim (text ++ [b]) (cutSymbol delim x b).1 (cutSymbol delim x b).2 := by
  obtain ⟨lines, rest⟩ := x
  obtain ⟨rfl, hlines, hrest⟩ := h
  unfold Delimited.cutSymbol
  split_ifs with hsuffix
  · obtain ⟨l, hl⟩ := hsuffix
    have hlen : l.length + delim.length = rest.length + 1 := by
      rw [← List.length_append, hl, List.length_append, List.length_singleton]
    have htake : (rest ++ [b]).take (rest.length + 1 - delim.length) = l := by
      rw [← hl, ← hlen, Nat.add_sub_cancel, List.take_left]
    -- what is in front of the symbol is the rest, in which there is no delimiter
    have hline : IsLine delim l := by
      rw [IsLine, hl, List.dropLast_concat]
      exact hrest
    refine ⟨?_, fun l' hl' => ?_, fun hnil => hdelim (List.eq_nil_of_infix_nil hnil)⟩
    · simp only [htake]
      rw [List.flatMap_append, List.flatMap_singleton, hl, List.append_nil, List.append_assoc]
    · simp only [htake] at hl'
      rcases List.mem_append.mp hl' with hl' | hl'
      · exact hlines l' hl'
      · exact List.mem_singleton.mp hl' ▸ hline
  · refine ⟨List.append_assoc _ _ _, hlines, fun hinfix => ?_⟩
    rcases List.infix_concat_iff.mp hinfix with h | h
    · exact hsuffix h
    · exact hrest h

/-- **A text is cut** into its lines and the rest. -/
theorem isCut_cutText (delim text : List α) (hdelim : delim ≠ []) :
    IsCut delim text (cutText delim text).1 (cutText delim text).2 := by
  induction text using List.reverseRecOn with
  | nil => exact ⟨rfl, by simp [cutText], fun h => hdelim (List.eq_nil_of_infix_nil h)⟩
  | append_singleton text b ih =>
    rw [cutText, List.foldl_append]
    exact ih.cutSymbol b hdelim

variable {lines ls : List (List α)} {rest l : List α}

theorem foldl_rest (h : ¬ delim <:+: rest) :
    rest.foldl (cutSymbol delim) (ls, []) = (ls, rest) := by
  induction rest using List.reverseRecOn with
  | nil => rfl
  | append_singleton rest b ih =>
    rw [List.foldl_append, ih fun hinfix => h (List.infix_concat_iff.mpr (.inr hinfix))]
    exact if_neg fun hsuffix => h (List.infix_concat_iff.mpr (.inl hsuffix))

theorem foldl_line (h : IsLine delim l) (hdelim : delim ≠ []) :
    (l ++ delim).foldl (cutSymbol delim) (ls, []) = (ls ++ [l], []) := by
  have hne : l ++ delim ≠ [] := List.append_ne_nil_of_right_ne_nil l hdelim
  have hlast := List.dropLast_append_getLast hne
  have hlen : (l ++ delim).dropLast.length + 1 = l.length + delim.length := by
    rw [← List.length_append, ← hlast]
    simp
  have hsuffix : delim <:+ (l ++ delim).dropLast ++ [(l ++ delim).getLast hne] :=
    hlast.symm ▸ List.suffix_append l delim
  rw [← hlast, List.foldl_append, foldl_rest h, List.foldl_cons, List.foldl_nil, cutSymbol,
    if_pos hsuffix, hlast, hlen, Nat.add_sub_cancel, List.take_left]

theorem foldl_of_isCut (h : IsCut delim text lines rest) (hdelim : delim ≠ []) :
    text.foldl (cutSymbol delim) (ls, []) = (ls ++ lines, rest) := by
  obtain ⟨rfl, hlines, hrest⟩ := h
  induction lines generalizing ls with
  | nil =>
    rw [List.flatMap_nil, List.nil_append, List.append_nil]
    exact foldl_rest hrest
  | cons l lines ih =>
    obtain ⟨hl, hlines⟩ := List.forall_mem_cons.mp hlines
    rw [List.flatMap_cons, List.append_assoc, List.foldl_append, foldl_line hl hdelim, ih hlines,
      List.append_assoc, List.singleton_append]

/-- **There is one cut.** -/
theorem cutText_eq_iff (hdelim : delim ≠ []) :
    cutText delim text = (lines, rest) ↔ IsCut delim text lines rest := by
  constructor
  · intro h
    have hcut := isCut_cutText delim text hdelim
    rwa [h] at hcut
  · exact fun h => (foldl_of_isCut h hdelim).trans (by rw [List.nil_append])

/-- **A text that comes in two pieces**: the second is cut with the rest of the first. -/
theorem cutText_append (delim a b : List α) (hdelim : delim ≠ []) : cutText delim (a ++ b) =
    ((cutText delim a).1 ++ (cutText delim ((cutText delim a).2 ++ b)).1,
      (cutText delim ((cutText delim a).2 ++ b)).2) := by
  obtain ⟨ha, hlines, -⟩ := isCut_cutText delim a hdelim
  obtain ⟨hb, hlines', hrest⟩ := isCut_cutText delim ((cutText delim a).2 ++ b) hdelim
  refine (cutText_eq_iff hdelim).mpr ⟨?_, fun l hl => ?_, hrest⟩
  · rw [List.flatMap_append, List.append_assoc, ← hb, ← List.append_assoc, ← ha]
  · rcases List.mem_append.mp hl with hl | hl
    · exact hlines l hl
    · exact hlines' l hl

end Cut

/-! ## The first delimiter -/

section First

variable [DecidableEq α] {delim l rest : List α}

/-- The first place of the delimiter. -/
def firstAt (delim : List α) : List α → Option ℕ
  | [] => if delim = [] then some 0 else none
  | b :: text => if delim <+: b :: text then some 0 else (firstAt delim text).map (· + 1)

theorem firstAt_eq_none_iff {text : List α} : firstAt delim text = none ↔ ¬ delim <:+: text := by
  induction text with
  | nil =>
    rw [firstAt, List.infix_nil]
    split_ifs with h
    · simp [h]
    · simp [h]
  | cons b text ih =>
    rw [firstAt, List.infix_cons_iff]
    split_ifs with h
    · simp [h]
    · simp [h, ih]

theorem firstAt_of_isLine (h : IsLine delim l) (hdelim : delim ≠ []) :
    firstAt delim (l ++ delim ++ rest) = some l.length := by
  induction l with
  | nil =>
    obtain ⟨b, delim, rfl⟩ := List.exists_cons_of_ne_nil hdelim
    exact if_pos (List.prefix_append _ _)
  | cons b l ih =>
    have hdrop : (b :: l ++ delim).dropLast = b :: (l ++ delim).dropLast :=
      List.dropLast_cons_of_ne_nil (List.append_ne_nil_of_right_ne_nil l hdelim)
    rw [IsLine, hdrop] at h
    have hprefix : ¬ delim <+: b :: (l ++ delim ++ rest) := by
      intro hprefix
      have hdropLast : b :: (l ++ delim).dropLast <+: b :: (l ++ delim ++ rest) :=
        List.cons_prefix_cons.mpr
          ⟨rfl, (List.dropLast_prefix _).trans (List.prefix_append _ _)⟩
      refine h (List.prefix_of_prefix_length_le hprefix hdropLast ?_).isInfix
      have hpos := List.length_pos_of_ne_nil hdelim
      simp only [List.length_cons, List.length_dropLast, List.length_append]
      omega
    have htail : IsLine delim l := fun hinfix => h (List.infix_cons hinfix)
    rw [List.cons_append, List.cons_append, firstAt, if_neg hprefix, ih htail]
    rfl

end First

end Delimited
