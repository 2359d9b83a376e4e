import AutoRec.Lib.Arena
import AutoRec.Lib.Machine

/-!
# `buffered_process`

Bytes are gathered in a buffer and passed to a handler in chunks (`common/buffered_process.h`). A
call of `put` that would fill the buffer to more than its size passes what is in it to the handler,
then the new bytes as far as they make whole buffers, and keeps the rest. The sizes are those of
memory, so that their sums do not overflow.

* `BufferedProcess`, `put`, `finalize`: the class; `none` is a write behind the buffer, or a loop
  without an end.
* `seen`: what has been handled and what is in the buffer.
* `put_spec`, `finalize_spec`: the calls, with a handler that never fails.
* **`handles_inputs`**: nothing is lost, repeated or put in another order.
-/

namespace AutoRec

open Arena

/-- A handler: its result for a chunk, behind the chunks that it has been passed before. -/
abbrev ProcessHandler := List (List UInt8) → List UInt8 → ℤ

/-- The handler never fails. -/
def ProcessHandler.NeverFails (h : ProcessHandler) : Prop := ∀ log chunk, 0 ≤ h log chunk

/-- `buffered_process`, with the chunks that have been passed to the handler. -/
structure BufferedProcess where
  process : Option ProcessHandler
  buffer : List UInt8
  bufferSize : ℕ
  bufferedPos : ℕ
  chunks : List (List UInt8)

namespace BufferedProcess

/-- The constructor and `set_process_handler`; `memory` is what `new` finds in the buffer. -/
def init (h : ProcessHandler) (memory : List UInt8) : BufferedProcess where
  process := some h
  buffer := memory
  bufferSize := memory.length
  bufferedPos := 0
  chunks := []

/-- `process_`. -/
def call (h : ProcessHandler) (chunk : List UInt8) (s : BufferedProcess) : ℤ × BufferedProcess :=
  (h s.chunks chunk, { s with chunks := s.chunks ++ [chunk] })

/-- `buffering`. -/
def buffering (p : List UInt8) (s : BufferedProcess) : Option BufferedProcess :=
  if p.isEmpty then some s
  else if s.bufferSize < s.bufferedPos + p.length then none
  else some { s with
    buffer := write s.buffer s.bufferedPos p
    bufferedPos := s.bufferedPos + p.length }

/-- The loop of `put` over whole buffers: the result, and what is left. -/
def direct (h : ProcessHandler) :
    ℕ → List UInt8 → BufferedProcess → Option (ℤ × List UInt8 × BufferedProcess)
  | 0, _, _ => none
  | fuel + 1, p, s =>
    if p.length < s.bufferSize then some (0, p, s)
    else
      let (r, t) := s.call h (p.take s.bufferSize)
      if r < 0 then some (r, p, t) else direct h fuel (p.drop s.bufferSize) t

/-- `put`: its result, and the state behind it. -/
def put (p : List UInt8) (s : BufferedProcess) : Option (ℤ × BufferedProcess) :=
  match s.process with
  | none => some (-1, s)
  | some h =>
    if s.bufferSize < s.bufferedPos + p.length then
      let (r, t) := s.call h (s.buffer.take s.bufferedPos)
      if r < 0 then some (r, t)
      else
        match direct h (p.length + 1) p { t with bufferedPos := 0 } with
        | none => none
        | some (r, rest, t) => if r < 0 then some (r, t) else (t.buffering rest).map (Prod.mk 0)
    else (s.buffering p).map (Prod.mk 0)

/-- `finalize`. -/
def finalize (s : BufferedProcess) : BufferedProcess :=
  match s.process with
  | none => s
  | some h =>
    if 0 < s.bufferedPos then
      let (r, t) := s.call h (s.buffer.take s.bufferedPos)
      if r < 0 then t else { t with bufferedPos := 0 }
    else s

/-- The calls. -/
inductive Op
  | put (p : List UInt8)
  | finalize

/-- What a call puts in. -/
def Op.input : Op → List UInt8
  | .put p => p
  | .finalize => []

/-- A call. -/
def step (s : BufferedProcess) : Op → Option BufferedProcess
  | .put p => (s.put p).map Prod.snd
  | .finalize => some s.finalize

/-! ## What is kept -/

/-- What has been passed to the handler. -/
def handled (s : BufferedProcess) : List UInt8 := s.chunks.flatten

/-- What is in the buffer. -/
def buffered (s : BufferedProcess) : List UInt8 := s.buffer.take s.bufferedPos

/-- All that has been put in. -/
def seen (s : BufferedProcess) : List UInt8 := s.handled ++ s.buffered

/-- The buffer is as large as it says, and filled up to a place in it. -/
structure Sound (h : ProcessHandler) (n : ℕ) (s : BufferedProcess) : Prop where
  process_eq : s.process = some h
  length_eq : s.buffer.length = n
  size_eq : s.bufferSize = n
  pos_le : s.bufferedPos ≤ n

variable {h : ProcessHandler} {n : ℕ} {p : List UInt8} {s : BufferedProcess}

theorem sound_init (h : ProcessHandler) (memory : List UInt8) :
    (init h memory).Sound h memory.length := ⟨rfl, rfl, rfl, Nat.zero_le _⟩

theorem Sound.buffering (hs : s.Sound h n) (hp : s.bufferedPos + p.length ≤ n) :
    ∃ t, s.buffering p = some t ∧ t.Sound h n ∧ t.seen = s.seen ++ p := by
  unfold BufferedProcess.buffering
  by_cases hempty : p.isEmpty = true
  · obtain rfl := List.isEmpty_iff.mp hempty
    exact ⟨s, rfl, hs, (List.append_nil _).symm⟩
  · rw [if_neg hempty, if_neg (by rw [hs.size_eq]; omega)]
    have hroom : s.bufferedPos + p.length ≤ s.buffer.length := by rw [hs.length_eq]; exact hp
    refine ⟨_, rfl, ⟨hs.process_eq, ?_, hs.size_eq, hp⟩, ?_⟩
    · exact (length_write _ _ hroom).trans hs.length_eq
    · show s.handled ++ (write s.buffer s.bufferedPos p).take (s.bufferedPos + p.length) = _
      have hlen : (s.buffer.take s.bufferedPos ++ p).length = s.bufferedPos + p.length := by
        rw [List.length_append, List.length_take]
        omega
      rw [write, ← hlen, List.take_left, seen, buffered, List.append_assoc]

theorem Sound.call (hs : s.Sound h n) (hempty : s.bufferedPos = 0) (chunk : List UInt8) :
    (s.call h chunk).2.Sound h n ∧ (s.call h chunk).2.bufferedPos = 0 ∧
      (s.call h chunk).2.seen = s.seen ++ chunk := by
  refine ⟨⟨hs.process_eq, hs.length_eq, hs.size_eq, hs.pos_le⟩, hempty, ?_⟩
  show (s.chunks ++ [chunk]).flatten ++ s.buffer.take s.bufferedPos = _
  rw [seen, handled, buffered, hempty, List.take_zero, List.flatten_append, List.flatten_singleton,
    List.append_nil, List.append_nil]

theorem Sound.flush (hs : s.Sound h n) :
    { (s.call h (s.buffer.take s.bufferedPos)).2 with bufferedPos := 0 }.Sound h n ∧
      { (s.call h (s.buffer.take s.bufferedPos)).2 with bufferedPos := 0 }.seen = s.seen := by
  refine ⟨⟨hs.process_eq, hs.length_eq, hs.size_eq, Nat.zero_le _⟩, ?_⟩
  show (s.chunks ++ [s.buffer.take s.bufferedPos]).flatten ++ s.buffer.take 0 = _
  rw [List.take_zero, List.append_nil, List.flatten_append, List.flatten_singleton]
  rfl

/-- **The loop over whole buffers** comes to its end, and less than a buffer is left. -/
theorem Sound.direct (hh : h.NeverFails) (hn : 1 ≤ n) {fuel : ℕ} (hfuel : p.length < fuel)
    (hs : s.Sound h n) (hempty : s.bufferedPos = 0) :
    ∃ rest t, direct h fuel p s = some (0, rest, t) ∧ t.Sound h n ∧ t.bufferedPos = 0 ∧
      rest.length < n ∧ t.seen ++ rest = s.seen ++ p := by
  induction fuel generalizing p s with
  | zero => omega
  | succ fuel ih =>
    rw [BufferedProcess.direct]
    by_cases hlt : p.length < s.bufferSize
    · rw [if_pos hlt]
      exact ⟨p, s, rfl, hs, hempty, hs.size_eq ▸ hlt, rfl⟩
    · rw [if_neg hlt]
      rw [hs.size_eq] at hlt ⊢
      obtain ⟨hs', hempty', hseen'⟩ := hs.call hempty (p.take n)
      have hdrop : (p.drop n).length < fuel := by
        rw [List.length_drop]
        omega
      obtain ⟨rest, t, hloop, ht, hpos, hrest, hseen⟩ := ih hdrop hs' hempty'
      refine ⟨rest, t, ?_, ht, hpos, hrest, ?_⟩
      · dsimp only [BufferedProcess.call] at hloop ⊢
        rw [if_neg (Int.not_lt.mpr (hh _ _)), hloop]
      · rw [hseen, hseen', List.append_assoc, List.take_append_drop]

/-- **`put`** returns 0, and what is put in is seen behind all that has been seen before. -/
theorem put_spec (hh : h.NeverFails) (hn : 1 ≤ n) (hs : s.Sound h n) (p : List UInt8) :
    ∃ t, s.put p = some (0, t) ∧ t.Sound h n ∧ t.seen = s.seen ++ p := by
  unfold put
  rw [hs.process_eq]
  dsimp only
  by_cases hfull : s.bufferSize < s.bufferedPos + p.length
  · obtain ⟨hs', hseen'⟩ := hs.flush
    obtain ⟨rest, t, hloop, ht, hpos, hrest, hseen⟩ :=
      hs'.direct hh hn (Nat.lt_succ_self p.length) rfl
    obtain ⟨u, hu, husound, huseen⟩ := ht.buffering (p := rest) (by omega)
    refine ⟨u, ?_, husound, by rw [huseen, hseen, hseen']⟩
    have hnonneg : ¬ (s.call h (s.buffer.take s.bufferedPos)).1 < 0 := Int.not_lt.mpr (hh _ _)
    rw [if_pos hfull, if_neg hnonneg, hloop]
    dsimp only
    rw [if_neg (Int.lt_irrefl 0), hu, Option.map_some]
  · rw [if_neg hfull]
    rw [hs.size_eq] at hfull
    obtain ⟨t, ht, htsound, htseen⟩ := hs.buffering (p := p) (by omega)
    exact ⟨t, by rw [ht, Option.map_some], htsound, htseen⟩

/-- **`finalize`** leaves nothing in the buffer. -/
theorem finalize_spec (hh : h.NeverFails) (hs : s.Sound h n) :
    s.finalize.Sound h n ∧ s.finalize.bufferedPos = 0 ∧ s.finalize.seen = s.seen := by
  unfold finalize
  rw [hs.process_eq]
  dsimp only
  by_cases hpos : 0 < s.bufferedPos
  · obtain ⟨hs', hseen'⟩ := hs.flush
    have hnonneg : ¬ (s.call h (s.buffer.take s.bufferedPos)).1 < 0 := Int.not_lt.mpr (hh _ _)
    rw [if_pos hpos, if_neg hnonneg]
    exact ⟨hs', rfl, hseen'⟩
  · rw [if_neg hpos]
    exact ⟨hs, Nat.eq_zero_of_not_pos hpos, rfl⟩

theorem step_spec (hh : h.NeverFails) (hn : 1 ≤ n) (hs : s.Sound h n) (op : Op) :
    ∃ t, s.step op = some t ∧ t.Sound h n ∧ t.seen = s.seen ++ op.input := by
  cases op with
  | put p =>
    obtain ⟨t, ht, hsound, hseen⟩ := put_spec hh hn hs p
    exact ⟨t, by rw [step, ht, Option.map_some], hsound, hseen⟩
  | finalize =>
    obtain ⟨hsound, -, hseen⟩ := finalize_spec hh hs
    exact ⟨s.finalize, rfl, hsound, by rw [hseen]; exact (List.append_nil _).symm⟩

theorem exec_spec (hh : h.NeverFails) (hn : 1 ≤ n) (hs : s.Sound h n) (ops : List Op) :
    ∃ t, Machine.exec step s ops = some t ∧ t.Sound h n ∧
      t.seen = s.seen ++ ops.flatMap Op.input := by
  induction ops generalizing s with
  | nil => exact ⟨s, rfl, hs, (List.append_nil _).symm⟩
  | cons op ops ih =>
    obtain ⟨t, ht, htsound, htseen⟩ := step_spec hh hn hs op
    obtain ⟨u, hu, husound, huseen⟩ := ih htsound
    refine ⟨u, by rw [Machine.exec, ht]; exact hu, husound, ?_⟩
    rw [huseen, htseen, List.flatMap_cons, List.append_assoc]

end BufferedProcess

open BufferedProcess in
/-- **All that is put in is handled**: behind any calls the buffer is filled to at most its size and
the bytes handled and those in the buffer are those put in, and behind a further `finalize` they
have all been handled. -/
theorem handles_inputs (h : ProcessHandler) (hh : h.NeverFails) (memory : List UInt8)
    (hsize : 1 ≤ memory.length) (ops : List Op) :
    ∃ s, Machine.exec step (init h memory) ops = some s ∧
      s.bufferSize = memory.length ∧ s.bufferedPos ≤ s.bufferSize ∧
      s.handled ++ s.buffered = ops.flatMap Op.input ∧
      s.finalize.handled = ops.flatMap Op.input := by
  obtain ⟨s, hs, hsound, hseen⟩ := exec_spec hh hsize (sound_init h memory) ops
  have hinit : (init h memory).seen = [] := rfl
  rw [hinit, List.nil_append] at hseen
  obtain ⟨-, hpos, hfinal⟩ := finalize_spec hh hsound
  refine ⟨s, hs, hsound.size_eq, hsound.size_eq ▸ hsound.pos_le, hseen, ?_⟩
  rw [seen, buffered, hpos, List.take_zero, List.append_nil] at hfinal
  rw [hfinal, hseen]

open BufferedProcess in
/-- Five bytes and two bytes, in a buffer of three. -/
theorem handles_inputs_seven : ∃ s,
    Machine.exec step (init (fun _ _ => 0) [9, 9, 9]) [.put [1, 2], .put [3, 4, 5], .put [6, 7]] =
      some s ∧ s.chunks = [[1, 2], [3, 4, 5]] ∧ s.finalize.handled = [1, 2, 3, 4, 5, 6, 7] := by
  obtain ⟨s, hs, -, -, -, hall⟩ := handles_inputs (fun _ _ => 0) (fun _ _ => Int.le_refl 0)
    [9, 9, 9] (by decide) [.put [1, 2], .put [3, 4, 5], .put [6, 7]]
  refine ⟨s, hs, ?_, hall⟩
  have hchunks : (Machine.exec step (init (fun _ _ => 0) [9, 9, 9])
      [.put [1, 2], .put [3, 4, 5], .put [6, 7]]).map chunks = some [[1, 2], [3, 4, 5]] := by
    decide
  rw [hs] at hchunks
  exact Option.some.inj hchunks

end AutoRec
