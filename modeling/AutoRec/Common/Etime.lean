import Mathlib.Data.Prod.Lex
import Mathlib.Order.Lattice

/-!
# `etime`

A point of time, seconds and nanoseconds since the epoch (`common/etime.cpp`). The strings kept
beside the time are for the log only.

* The six comparison operators, as they are written, and `gt_iff`, …, `le_iff`: they are the
  comparisons of the lexicographic order.
* `addSec`, `addMin`, `addHour`, `addDay`, `addWeek`, `setCurrentTime`.
-/

namespace AutoRec

/-- `etime`. -/
structure Etime where
  tvSec : ℤ
  tvNsec : ℤ
deriving DecidableEq, Repr

namespace Etime

/-- `clear`: the epoch. -/
def clear : Etime := ⟨0, 0⟩

/-- `set_current_time`, when the clock reads `now` seconds; the nanoseconds are dropped. -/
def setCurrentTime (now : ℤ) : Etime := ⟨now, 0⟩

/-- `operator >`. -/
def gt (t obj : Etime) : Bool :=
  if t.tvSec > obj.tvSec then true
  else if t.tvSec = obj.tvSec ∧ t.tvNsec > obj.tvNsec then true
  else false

/-- `operator <`. -/
def lt (t obj : Etime) : Bool :=
  if t.tvSec < obj.tvSec then true
  else if t.tvSec = obj.tvSec ∧ t.tvNsec < obj.tvNsec then true
  else false

/-- `operator >=`. -/
def ge (t obj : Etime) : Bool :=
  if t.tvSec > obj.tvSec then true
  else if t.tvSec = obj.tvSec ∧ t.tvNsec > obj.tvNsec then true
  else if t.tvSec = obj.tvSec ∧ t.tvNsec = obj.tvNsec then true
  else false

/-- `operator <=`. -/
def le (t obj : Etime) : Bool :=
  if t.tvSec < obj.tvSec then true
  else if t.tvSec = obj.tvSec ∧ t.tvNsec < obj.tvNsec then true
  else if t.tvSec = obj.tvSec ∧ t.tvNsec = obj.tvNsec then true
  else false

/-- `add_sec`. -/
def addSec (t : Etime) (sec : ℤ) : Etime := { t with tvSec := t.tvSec + sec }

/-- `add_min`. -/
def addMin (t : Etime) (min : ℤ) : Etime := { t with tvSec := t.tvSec + min * 60 }

/-- `add_hour`. -/
def addHour (t : Etime) (hour : ℤ) : Etime := { t with tvSec := t.tvSec + hour * 60 * 60 }

/-- `add_day`. -/
def addDay (t : Etime) (day : ℤ) : Etime := { t with tvSec := t.tvSec + day * 24 * 60 * 60 }

/-- `add_week`. -/
def addWeek (t : Etime) (week : ℤ) : Etime :=
  { t with tvSec := t.tvSec + week * 7 * 24 * 60 * 60 }

/-! ## The order of time -/

/-- Seconds first, then nanoseconds. -/
def toLexPair (t : Etime) : ℤ ×ₗ ℤ := toLex (t.tvSec, t.tvNsec)

theorem toLexPair_injective : Function.Injective toLexPair := by
  rintro ⟨s, n⟩ ⟨s', n'⟩ h
  have := toLex.injective h
  simp_all

instance : LinearOrder Etime := LinearOrder.lift' toLexPair toLexPair_injective

theorem lt_def {s t : Etime} :
    s < t ↔ s.tvSec < t.tvSec ∨ s.tvSec = t.tvSec ∧ s.tvNsec < t.tvNsec := by
  change toLexPair s < toLexPair t ↔ _
  rw [toLexPair, toLexPair, Prod.Lex.toLex_lt_toLex]

theorem le_def {s t : Etime} :
    s ≤ t ↔ s.tvSec < t.tvSec ∨ s.tvSec = t.tvSec ∧ s.tvNsec ≤ t.tvNsec := by
  change toLexPair s ≤ toLexPair t ↔ _
  rw [toLexPair, toLexPair, Prod.Lex.toLex_le_toLex]

@[simp] theorem gt_iff {s t : Etime} : s.gt t = true ↔ t < s := by
  rw [lt_def, gt]
  split_ifs <;> simp <;> omega

@[simp] theorem lt_iff {s t : Etime} : s.lt t = true ↔ s < t := by
  rw [lt_def, lt]
  split_ifs <;> simp <;> omega

@[simp] theorem ge_iff {s t : Etime} : s.ge t = true ↔ t ≤ s := by
  rw [le_def, ge]
  split_ifs <;> simp <;> omega

@[simp] theorem le_iff {s t : Etime} : s.le t = true ↔ s ≤ t := by
  rw [le_def, le]
  split_ifs <;> simp <;> omega

end Etime

end AutoRec
