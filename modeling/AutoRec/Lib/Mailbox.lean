import Mathlib.Data.List.Perm.Basic
import Mathlib.Data.List.Range
import Mathlib.Data.Option.Basic
import Mathlib.Tactic.Common

/-!
# Mailboxes of which letters may be deferred

Letters arrive in the inbox. All that are in it are taken out at once, as a batch, and gone through
one after the other: a letter is handled, or deferred. When letters may be taken in again that have
been deferred, they come in front of the inbox.

* `Mailbox`, with `post`, `take`, `handleNext`, `deferNext`.
* `Sound`: every letter that has arrived is in one place, and those not handled lie in the order of
  their arrival.
* `Sound.perm_arrived`, `Sound.overtaken`: nothing is lost or doubled, and a letter overtakes only
  what has been deferred.
* `InOrder`: letters of a kind that is never deferred are handled in the order of their arrival.
-/

/-- A letter, with the number of those that have arrived before it. -/
structure Letter (α : Type*) where
  arrival : ℕ
  body : α

/-- A mailbox, with what has been handled and what has arrived. -/
structure Mailbox (α : Type*) where
  inbox : List (Letter α)
  batch : List (Letter α)
  deferred : List (Letter α)
  handled : List (Letter α)
  arrived : List α

namespace Mailbox

variable {α : Type*}

/-- Nothing has arrived. -/
def empty : Mailbox α := ⟨[], [], [], [], []⟩

/-- A letter arrives. -/
def post (b : Mailbox α) (a : α) : Mailbox α :=
  { b with inbox := b.inbox ++ [⟨b.arrived.length, a⟩], arrived := b.arrived ++ [a] }

/-- The inbox is taken out, with what has been deferred if that may be taken in again. -/
def take (b : Mailbox α) (withDeferred : Bool) : Mailbox α :=
  if withDeferred then { b with batch := b.deferred ++ b.inbox, inbox := [], deferred := [] }
  else { b with batch := b.inbox, inbox := [] }

/-- The first letter of the batch is handled. -/
def handleNext (b : Mailbox α) : Mailbox α :=
  { b with batch := b.batch.tail, handled := b.handled ++ b.batch.head?.toList }

/-- The first letter of the batch is deferred. -/
def deferNext (b : Mailbox α) : Mailbox α :=
  { b with batch := b.batch.tail, deferred := b.deferred ++ b.batch.head?.toList }

/-- The letters that have not been handled. -/
def waiting (b : Mailbox α) : List (Letter α) := b.deferred ++ (b.batch ++ b.inbox)

/-- **Every letter is in one place**, and those that wait are in the order of their arrival. -/
structure Sound (b : Mailbox α) : Prop where
  perm : ((b.handled ++ b.waiting).map Letter.arrival).Perm (List.range b.arrived.length)
  body : ∀ x ∈ b.handled ++ b.waiting, b.arrived[x.arrival]? = some x.body
  sorted : b.waiting.Pairwise fun x y => x.arrival < y.arrival

variable {b : Mailbox α} {a : α} {x : Letter α} {rest : List (Letter α)}

section Fields

@[simp] theorem post_handled : (b.post a).handled = b.handled := rfl
@[simp] theorem post_arrived : (b.post a).arrived = b.arrived ++ [a] := rfl
@[simp] theorem post_batch : (b.post a).batch = b.batch := rfl
@[simp] theorem deferNext_handled : b.deferNext.handled = b.handled := rfl
@[simp] theorem deferNext_arrived : b.deferNext.arrived = b.arrived := rfl
@[simp] theorem handleNext_arrived : b.handleNext.arrived = b.arrived := rfl

@[simp] theorem take_handled (w : Bool) : (b.take w).handled = b.handled := by
  unfold take
  split <;> rfl

@[simp] theorem take_arrived (w : Bool) : (b.take w).arrived = b.arrived := by
  unfold take
  split <;> rfl

theorem handleNext_handled (hb : b.batch = x :: rest) :
    b.handleNext.handled = b.handled ++ [x] := by
  rw [handleNext, hb]
  rfl

theorem arrived_foldl_post (l : List α) (b : Mailbox α) :
    (l.foldl Mailbox.post b).arrived = b.arrived ++ l := by
  induction l generalizing b with
  | nil => exact (List.append_nil _).symm
  | cons a l ih => rw [List.foldl_cons, ih, post_arrived, List.append_assoc, List.singleton_append]

end Fields

/-! ## The letters that wait -/

theorem waiting_post : (b.post a).waiting = b.waiting ++ [⟨b.arrived.length, a⟩] := by
  simp only [waiting, post, List.append_assoc]

theorem waiting_take (hb : b.batch = []) (w : Bool) : (b.take w).waiting = b.waiting := by
  unfold take
  split <;> simp [waiting, hb]

theorem waiting_deferNext : b.deferNext.waiting = b.waiting := by
  unfold deferNext waiting
  cases b.batch <;> simp

theorem waiting_of_batch (hb : b.batch = x :: rest) :
    b.waiting = b.deferred ++ x :: (rest ++ b.inbox) := by
  rw [waiting, hb, List.cons_append]

theorem waiting_handleNext (hb : b.batch = x :: rest) :
    b.handleNext.waiting = b.deferred ++ (rest ++ b.inbox) := by
  rw [handleNext, waiting, hb]
  rfl

theorem perm_handleNext (hb : b.batch = x :: rest) :
    (b.handleNext.handled ++ b.handleNext.waiting).Perm (b.handled ++ b.waiting) := by
  rw [handleNext_handled hb, waiting_handleNext hb, waiting_of_batch hb, List.append_assoc]
  have hmiddle : ([x] ++ (b.deferred ++ (rest ++ b.inbox))).Perm
      (b.deferred ++ x :: (rest ++ b.inbox)) := by
    rw [List.singleton_append]
    exact List.perm_middle.symm
  exact hmiddle.append_left _

/-! ## Soundness -/

theorem sound_empty : (empty : Mailbox α).Sound := ⟨.refl _, by simp [empty, waiting], .nil⟩

theorem Sound.arrival_lt (hs : b.Sound) (hx : x ∈ b.handled ++ b.waiting) :
    x.arrival < b.arrived.length :=
  List.mem_range.mp (hs.perm.subset (List.mem_map_of_mem hx))

theorem Sound.post (hs : b.Sound) (a : α) : (b.post a).Sound := by
  have hplaces : (b.post a).handled ++ (b.post a).waiting =
      (b.handled ++ b.waiting) ++ [⟨b.arrived.length, a⟩] := by
    rw [waiting_post, post_handled, List.append_assoc]
  refine ⟨?_, fun x hx => ?_, ?_⟩
  · rw [hplaces, List.map_append, post_arrived, List.length_append, List.length_singleton,
      List.range_succ]
    exact hs.perm.append (.refl _)
  · rw [hplaces, List.mem_append, List.mem_singleton] at hx
    rcases hx with hx | rfl
    · rw [post_arrived, List.getElem?_append_left (hs.arrival_lt hx)]
      exact hs.body x hx
    · simp
  · rw [waiting_post, List.pairwise_append]
    refine ⟨hs.sorted, List.pairwise_singleton _ _, fun x hx y hy => ?_⟩
    obtain rfl := List.mem_singleton.mp hy
    exact hs.arrival_lt (List.mem_append_right _ hx)

theorem Sound.take (hs : b.Sound) (hb : b.batch = []) (w : Bool) : (b.take w).Sound := by
  refine ⟨?_, ?_, ?_⟩
  · rw [waiting_take hb, take_handled, take_arrived]
    exact hs.perm
  · rw [waiting_take hb, take_handled, take_arrived]
    exact hs.body
  · rw [waiting_take hb]
    exact hs.sorted

theorem Sound.deferNext (hs : b.Sound) : b.deferNext.Sound := by
  refine ⟨?_, ?_, ?_⟩
  · rw [waiting_deferNext]
    exact hs.perm
  · rw [waiting_deferNext]
    exact hs.body
  · rw [waiting_deferNext]
    exact hs.sorted

theorem Sound.handleNext (hs : b.Sound) (hb : b.batch = x :: rest) : b.handleNext.Sound := by
  refine ⟨((perm_handleNext hb).map _).trans hs.perm, fun y hy => ?_, ?_⟩
  · exact hs.body y ((perm_handleNext hb).subset hy)
  · have hsorted := hs.sorted
    rw [waiting_of_batch hb] at hsorted
    rw [waiting_handleNext hb]
    exact hsorted.sublist ((List.sublist_cons_self _ _).append_left _)

theorem map_getElem?_range (l : List α) : (List.range l.length).map (l[·]?) = l.map some := by
  apply List.ext_getElem?
  intro i
  by_cases hi : i < l.length
  · simp [hi]
  · simp [hi]

/-- **Nothing is lost or doubled.** -/
theorem Sound.perm_arrived (hs : b.Sound) :
    (b.handled.map Letter.body ++ b.waiting.map Letter.body).Perm b.arrived := by
  have hbody : (b.handled ++ b.waiting).map (fun x => b.arrived[x.arrival]?) =
      ((b.handled ++ b.waiting).map Letter.body).map some := by
    rw [List.map_map]
    exact List.map_congr_left fun x hx => hs.body x hx
  have hperm := hs.perm.map (b.arrived[·]?)
  rw [List.map_map, map_getElem?_range] at hperm
  have hsome : (((b.handled ++ b.waiting).map Letter.body).map some).Perm (b.arrived.map some) :=
    hbody ▸ hperm
  rw [← List.map_append]
  exact (List.map_perm_map_iff (Option.some_injective α)).mp hsome

/-- **A letter overtakes only what has been deferred.** -/
theorem Sound.overtaken (hs : b.Sound) (hb : b.batch = x :: rest) {n : ℕ} (hn : n < x.arrival) :
    n ∈ b.handled.map Letter.arrival ∨ n ∈ b.deferred.map Letter.arrival := by
  have hx : x ∈ b.handled ++ b.waiting := by simp [waiting_of_batch hb]
  have hmem : n ∈ (b.handled ++ b.waiting).map Letter.arrival :=
    hs.perm.symm.subset (List.mem_range.mpr (hn.trans (hs.arrival_lt hx)))
  rw [waiting_of_batch hb, List.map_append, List.map_append, List.mem_append, List.mem_append] at hmem
  rcases hmem with h | h | h
  · exact .inl h
  · exact .inr h
  · -- what is behind it has arrived later
    obtain ⟨y, hy, rfl⟩ := List.mem_map.mp h
    have hsorted := hs.sorted
    rw [waiting_of_batch hb, List.pairwise_append, List.pairwise_cons] at hsorted
    rcases List.mem_cons.mp hy with rfl | hy
    · exact absurd hn (lt_irrefl _)
    · exact absurd (hsorted.2.1.1 y hy) (by omega)

/-! ## Letters of a kind that is never deferred -/

/-- Letters that satisfy `p` are not deferred, and have been handled in the order of their arrival. -/
structure InOrder (p : α → Bool) (b : Mailbox α) : Prop where
  deferred : ∀ x ∈ b.deferred, p x.body = false
  eq : b.arrived.filter p = ((b.handled ++ (b.batch ++ b.inbox)).map Letter.body).filter p

variable {p : α → Bool}

theorem inOrder_empty : InOrder p empty := ⟨by simp [empty], rfl⟩

theorem InOrder.post (h : b.InOrder p) (a : α) : (b.post a).InOrder p := by
  refine ⟨h.deferred, ?_⟩
  rw [post_arrived, List.filter_append, h.eq]
  simp [Mailbox.post]

theorem InOrder.take (h : b.InOrder p) (hb : b.batch = []) (w : Bool) : (b.take w).InOrder p := by
  have hnone : (b.deferred.map Letter.body).filter p = [] := by
    rw [List.filter_eq_nil_iff]
    intro a ha
    obtain ⟨x, hx, rfl⟩ := List.mem_map.mp ha
    simp [h.deferred x hx]
  have heq := h.eq
  unfold Mailbox.take
  split
  · refine ⟨by simp, ?_⟩
    rw [heq]
    simp [hb, hnone]
  · refine ⟨h.deferred, ?_⟩
    rw [heq]
    simp [hb]

theorem InOrder.handleNext (h : b.InOrder p) (hb : b.batch = x :: rest) :
    b.handleNext.InOrder p := by
  refine ⟨h.deferred, ?_⟩
  have heq := h.eq
  rw [hb] at heq
  rw [handleNext_arrived, heq]
  simp [Mailbox.handleNext, hb]

theorem InOrder.deferNext (h : b.InOrder p) (hb : b.batch = x :: rest) (hx : p x.body = false) :
    b.deferNext.InOrder p := by
  refine ⟨fun y hy => ?_, ?_⟩
  · simp only [Mailbox.deferNext, hb, List.head?_cons, Option.toList_some, List.mem_append,
      List.mem_singleton] at hy
    rcases hy with hy | rfl
    · exact h.deferred y hy
    · exact hx
  · have heq := h.eq
    rw [hb] at heq
    rw [deferNext_arrived, heq]
    simp [Mailbox.deferNext, hb, hx]

end Mailbox
