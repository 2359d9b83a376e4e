import Mathlib.Data.List.Basic
import Mathlib.Tactic.Common

/-!
# The latest record of each key

Records come in one after the other, and a table is to hold the last one of each key.

* `latest`: the last record with a key.
* `HoldsLatest`: a table has the last record of each key, and nothing else.
* `replaceOld`: a new record goes to the end of the table, and those with its key that are of
  another version go.
* `HoldsLatest.kept_iff`, `HoldsLatest.replaced_iff`: when a table is still right behind one more
  record for which nothing is done, or for which the old ones are replaced.
-/

namespace Latest

variable {α κ ν : Type*} [DecidableEq κ] [DecidableEq ν] (key : α → κ) (ver : α → ν)

/-- The last record with the key `k`. -/
def latest (l : List α) (k : κ) : Option α := (l.filter fun t => key t = k).getLast?

/-- **The table has the last record of each key**, once, and no record of any other key. -/
def HoldsLatest (l tables : List α) : Prop :=
  ∀ k, (tables.filter fun t => key t = k) = (latest key l k).toList

/-- The record has the key of `new`, and is of another version. -/
def isOld (new t : α) : Bool := decide (key new = key t) && decide (ver new ≠ ver t)

/-- `new` goes to the end, and the old records with its key go. -/
def replaceOld (new : α) (tables : List α) : List α :=
  (tables.filter fun t => !isOld key ver new t) ++ [new]

variable {key ver} {l tables : List α} {t : α}

theorem latest_concat (k : κ) :
    latest key (l ++ [t]) k = if key t = k then some t else latest key l k := by
  rw [latest, latest, List.filter_append]
  by_cases hk : key t = k
  · rw [if_pos hk, List.filter_cons_of_pos (by simpa using hk), List.filter_nil,
      List.getLast?_concat]
  · rw [if_neg hk, List.filter_cons_of_neg (by simpa using hk), List.filter_nil, List.append_nil]

theorem key_latest {k : κ} {x : α} (h : x ∈ latest key l k) : key x = k := by
  have hx : x ∈ l.filter fun t => key t = k := List.mem_of_getLast? h
  simpa using (List.mem_filter.mp hx).2

theorem holdsLatest_nil : HoldsLatest key ([] : List α) [] := fun _ => rfl

/-- **Nothing is done** for one more record: the table stays right if and only if it was the last
one with its key before. -/
theorem HoldsLatest.kept_iff (h : HoldsLatest key l tables) :
    HoldsLatest key (l ++ [t]) tables ↔ latest key l (key t) = some t := by
  constructor
  · intro h'
    have heq := (h (key t)).symm.trans (h' (key t))
    rw [latest_concat, if_pos rfl] at heq
    cases hlast : latest key l (key t) with
    | none => simp [hlast] at heq
    | some x => simpa [hlast] using heq
  · intro hlast k
    rw [latest_concat, h k]
    by_cases hk : key t = k
    · rw [if_pos hk, ← hk, hlast]
    · rw [if_neg hk]

theorem filter_replaceOld (h : HoldsLatest key l tables) (k : κ) :
    (replaceOld key ver t tables).filter (fun x => key x = k) =
      if key t = k then ((latest key l k).toList.filter fun x => ver t = ver x) ++ [t]
      else (latest key l k).toList := by
  have hswap : (tables.filter fun x => !isOld key ver t x).filter (fun x => key x = k) =
      (latest key l k).toList.filter fun x => !isOld key ver t x := by
    rw [← h k, List.filter_filter, List.filter_filter]
    apply List.filter_congr
    intro x _
    exact Bool.and_comm _ _
  rw [replaceOld, List.filter_append, hswap]
  by_cases hk : key t = k
  · rw [if_pos hk, List.filter_cons_of_pos (by simpa using hk), List.filter_nil]
    congr 1
    apply List.filter_congr
    intro x hx
    have hx' : key x = k := key_latest (Option.mem_toList.mp hx)
    simp [isOld, hk, hx']
  · rw [if_neg hk, List.filter_cons_of_neg (by simpa using hk), List.filter_nil, List.append_nil,
      List.filter_eq_self]
    intro x hx
    have hx' : key x = k := key_latest (Option.mem_toList.mp hx)
    simp [isOld, hx', hk]

/-- **The old ones are replaced**: the table stays right if and only if the last record with the key
was of another version, or there was none. -/
theorem HoldsLatest.replaced_iff (h : HoldsLatest key l tables) :
    HoldsLatest key (l ++ [t]) (replaceOld key ver t tables) ↔
      ∀ x ∈ latest key l (key t), ver t ≠ ver x := by
  constructor
  · intro h' x hx hver
    have heq := h' (key t)
    rw [filter_replaceOld h, if_pos rfl, latest_concat, if_pos rfl, Option.mem_def.mp hx] at heq
    simp [hver] at heq
  · intro hver k
    rw [filter_replaceOld h, latest_concat]
    by_cases hk : key t = k
    · rw [if_pos hk, if_pos hk]
      have hnil : ((latest key l k).toList.filter fun x => ver t = ver x) = [] := by
        rw [List.filter_eq_nil_iff]
        intro x hx
        simpa using hver x (hk ▸ Option.mem_toList.mp hx)
      rw [hnil]
      rfl
    · rw [if_neg hk, if_neg hk]

/-! ## One record for each key -/

variable (key ver) in
/-- The record has the key and the version of `new`. -/
def isSame (new t : α) : Bool := decide (key new = key t) && decide (ver new = ver t)

variable (key ver) in
/-- `new` replaces the old records with its key, unless there is one of its version. -/
def replaceIfNew (new : α) (tables : List α) : List α :=
  if tables.any (isSame key ver new) then tables else replaceOld key ver new tables

/-- If no record is the same, the old ones with the key are all there are. -/
theorem key_ne_of_kept (hany : ¬ tables.any (isSame key ver t) = true) {x : α} (hx : x ∈ tables)
    (hold : isOld key ver t x = false) : key t ≠ key x := by
  intro hkey
  have hver : ver t = ver x := by simpa [isOld, hkey] using hold
  apply hany
  rw [List.any_eq_true]
  exact ⟨x, hx, by simp [isSame, hkey, hver]⟩

theorem nodup_replaceIfNew (h : (tables.map key).Nodup) :
    ((replaceIfNew key ver t tables).map key).Nodup := by
  rw [replaceIfNew]
  split_ifs with hany
  · exact h
  · rw [replaceOld, List.map_append, List.nodup_append]
    refine ⟨h.sublist (List.filter_sublist.map key), by simp, ?_⟩
    intro k hk k' hk'
    rw [List.map_singleton, List.mem_singleton] at hk'
    obtain ⟨x, hx, rfl⟩ := List.mem_map.mp hk
    obtain ⟨hmem, hold⟩ := List.mem_filter.mp hx
    rw [hk']
    exact (key_ne_of_kept hany hmem (by simpa using hold)).symm

theorem exists_replaceIfNew (t : α) (tables : List α) :
    ∃ x ∈ replaceIfNew key ver t tables, key x = key t ∧ ver x = ver t := by
  rw [replaceIfNew]
  split_ifs with hany
  · obtain ⟨x, hx, hsame⟩ := List.any_eq_true.mp hany
    rw [isSame, Bool.and_eq_true, decide_eq_true_eq, decide_eq_true_eq] at hsame
    exact ⟨x, hx, hsame.1.symm, hsame.2.symm⟩
  · exact ⟨t, List.mem_append_right _ (List.mem_singleton_self t), rfl, rfl⟩

theorem filter_replaceIfNew (t : α) (tables : List α) :
    (replaceIfNew key ver t tables).filter (fun x => key x ≠ key t) =
      tables.filter fun x => key x ≠ key t := by
  rw [replaceIfNew]
  split_ifs with hany
  · rfl
  · rw [replaceOld, List.filter_append, List.filter_filter, List.filter_cons_of_neg (by simp),
      List.filter_nil, List.append_nil]
    apply List.filter_congr
    intro x _
    by_cases hkey : key x = key t
    · simp [hkey]
    · simp [hkey, isOld, Ne.symm hkey]

end Latest
