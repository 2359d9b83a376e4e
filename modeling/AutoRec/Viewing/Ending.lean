import AutoRec.Viewing.Manager

/-!
# The end of a viewing session

A session that is to be ended is ended by two calls of the handler, and it is over when the messages
that are queued then have been handled.

* `Manager.KeepsEnded`: nobody writes the progress of a handler that has come back to `init` while
  its last notice is queued.
* `GroupState.Passes`, `Manager.passes_of_step`: what a step leaves of a group, if the manager handles
  no message for it.
* `Manager.ended_of_run`: the handler is back in `init`; `Manager.isOver_of_run`: the session is over.
-/

namespace AutoRec

namespace Viewing

/-! ## Calls of the handler -/

namespace Progress

variable {p : Progress} {n : ℕ}

/-- **Two calls** end a session that is to be ended. -/
theorem next_next_of_isEnd (h : p.isEnd = true) : next^[2] p = .init := by
  cases p with
  | init | preProcess | processing => cases h
  | processEndSuccess | processEndError | postProcess | postProcessForcibly => rfl

theorem iterate_next_init (n : ℕ) : next^[n] .init = .init := Function.iterate_fixed rfl n

/-- A call leads nearer to `init`. -/
theorem iterate_pred_next (h : next^[n] p = .init) : next^[n - 1] p.next = .init := by
  cases n with
  | zero =>
    obtain rfl : p = .init := h
    rfl
  | succ n => exact h

theorem iterate_next_next (h : next^[n] p = .init) : next^[n] p.next = .init := by
  rw [← Function.iterate_succ_apply, Function.iterate_succ_apply', h]
  rfl

/-- A handler that is not in `init` is in `postProcessForcibly` as near to it. -/
theorem iterate_next_forcibly (h : next^[n] p = .init) (hp : p ≠ .init) :
    next^[n] .postProcessForcibly = .init := by
  cases n with
  | zero => exact absurd h hp
  | succ n => exact iterate_next_init n

end Progress

/-- The session `i` is over: a later one has been started, or the group is not used. -/
def GroupState.IsOver (s : GroupState) (i : ℕ) : Prop :=
  i < s.sessions ∨ s.viewing.isUsed = false

namespace GroupState

variable {s s' s'' : GroupState} {i k : ℕ}

/-! ## What a step leaves of a group -/

/-- The messages stay queued; the session stays, and its handler does not come farther away from
`init`, or the next one begins. -/
structure Passes (s s' : GroupState) : Prop where
  queue : s.queue <+: s'.queue
  session : s.sessions < s'.sessions ∨ s'.sessions = s.sessions ∧
    (s'.viewing.isUsed = true → s.viewing.isUsed = true) ∧
    ∀ n, Progress.next^[n] s.progress = .init → Progress.next^[n] s'.progress = .init

theorem Passes.of_eq (hqueue : s'.queue = s.queue) (hsessions : s'.sessions = s.sessions)
    (hused : s'.viewing.isUsed = true → s.viewing.isUsed = true) (hprogress : s'.progress = s.progress) :
    Passes s s' :=
  ⟨hqueue ▸ List.prefix_rfl, .inr ⟨hsessions, hused, fun _ h => hprogress ▸ h⟩⟩

theorem Passes.refl (s : GroupState) : Passes s s := .of_eq rfl rfl id rfl

theorem Passes.trans (h : Passes s s') (h' : Passes s' s'') : Passes s s'' := by
  refine ⟨h.queue.trans h'.queue, ?_⟩
  rcases h.session with hlt | ⟨heq, hused, hnear⟩
  · rcases h'.session with hlt' | ⟨heq', -⟩
    · exact .inl (hlt.trans hlt')
    · exact .inl (heq' ▸ hlt)
  · rcases h'.session with hlt' | ⟨heq', hused', hnear'⟩
    · exact .inl (heq ▸ hlt')
    · exact .inr ⟨heq'.trans heq, hused ∘ hused', fun n hn => hnear' n (hnear n hn)⟩

theorem passes_send (s : GroupState) (message : Message) : Passes s (s.send message) :=
  ⟨List.prefix_append _ _, .inr ⟨rfl, id, fun _ h => h⟩⟩

theorem passes_onTsReceived (s : GroupState) : Passes s s.onTsReceived :=
  ⟨List.prefix_append _ _, .inr ⟨rfl, id, fun _ h => Progress.iterate_next_next h⟩⟩

theorem passes_setForcibly (h : s.progress ≠ .init) (child : Child) :
    Passes s { s with progress := .postProcessForcibly, child := child } :=
  ⟨List.prefix_rfl, .inr ⟨rfl, id, fun _ hn => Progress.iterate_next_forcibly hn h⟩⟩

theorem checkAutoStop_same (s : GroupState) (now : ℤ) :
    (s.checkAutoStop now).child = s.child ∧ (s.checkAutoStop now).progress = s.progress := by
  unfold checkAutoStop
  split
  · exact ⟨rfl, rfl⟩
  · exact ⟨rfl, rfl⟩

theorem passes_checkAutoStop (s : GroupState) (now : ℤ) : Passes s (s.checkAutoStop now) := by
  unfold checkAutoStop
  split
  · exact passes_send s _
  · exact .refl s

theorem passes_checkChild (h : s.child = .dead → s.progress ≠ .init) : Passes s s.checkChild := by
  unfold checkChild
  split
  · rename_i hdead
    exact passes_setForcibly (h hdead) _
  · exact .refl s
  · exact .refl s

theorem passes_onSetOption (s : GroupState) (sec now : ℤ) : Passes s (s.onSetOption sec now) := by
  unfold onSetOption
  split
  · exact .of_eq rfl rfl id rfl
  · exact .refl s

theorem passes_onPatNotDetected (h : s.viewing.isUsed = true → s.progress ≠ .init) :
    Passes s s.onPatNotDetected := by
  unfold onPatNotDetected
  split
  · rename_i hused
    exact (passes_setForcibly (h hused) s.child).trans (passes_onTsReceived _)
  · exact .refl s

theorem passes_onOpened (s : GroupState) : Passes s s.onOpened := by
  unfold onOpened
  refine .of_eq rfl rfl (fun h => ?_) rfl
  dsimp only at h
  split at h
  · cases h
  · exact h

theorem passes_doError (s : GroupState) (viewing : Entry) :
    Passes s ({ s with viewing := viewing } : GroupState).doError :=
  .of_eq rfl rfl (fun h => Bool.noConfusion h) rfl

theorem passes_startViewing (s : GroupState) (isPiped isForked : Bool) :
    Passes s (s.startViewing isPiped isForked) := by
  unfold startViewing
  dsimp only
  split
  · exact passes_doError s _
  · split
    · exact passes_doError s _
    · split
      · exact passes_doError s _
      · exact ⟨List.prefix_rfl, .inl (Nat.lt_succ_self _)⟩

/-! ## The messages that are handled -/

theorem deliver_of_noStop {isTuner : Bool} (h : s.deliver isTuner = some s')
    (hno : s.queue.head? ≠ some .stopViewing) :
    s'.sessions = s.sessions ∧ s'.progress = s.progress := by
  unfold deliver at h
  split at h
  · cases h
  · rename_i queue hqueue
    rw [hqueue] at hno
    exact absurd rfl hno
  · obtain rfl := Option.some.inj h
    unfold onNotice
    split
    · exact ⟨rfl, rfl⟩
    · exact ⟨rfl, rfl⟩

/-- The session `i` is over, or its last notice is one of the first `k` messages. -/
def IsOverIn (i k : ℕ) (s : GroupState) : Prop :=
  s.IsOver i ∨ ∃ p, p.isPost = true ∧ Message.noticeByStreamHandler p ∈ s.queue.take k

theorem IsOverIn.mono {k' : ℕ} (h : IsOverIn i k s) (hk : k ≤ k') : IsOverIn i k' s :=
  h.imp id fun ⟨p, hp, hmem⟩ => ⟨p, hp, (List.take_prefix_take_left hk).subset hmem⟩

theorem IsOverIn.passes (h : IsOverIn i k s) (hi : i ≤ s.sessions) (hpass : Passes s s') :
    IsOverIn i k s' := by
  rcases h with (hlt | hunused) | ⟨p, hp, hmem⟩
  · left; left
    rcases hpass.session with hlt' | ⟨heq, -⟩
    · exact hlt.trans hlt'
    · exact heq ▸ hlt
  · left
    rcases hpass.session with hlt | ⟨-, hused, -⟩
    · exact .inl (hi.trans_lt hlt)
    · exact .inr (Bool.eq_false_iff.mpr fun h => Bool.eq_false_iff.mp hunused (hused h))
  · obtain ⟨l, hl⟩ := hpass.queue
    refine .inr ⟨p, hp, ?_⟩
    rw [← hl, List.take_append]
    exact List.mem_append_left _ hmem

/-- **The manager handles a message.** -/
theorem IsOverIn.deliver {isTuner : Bool} (h : IsOverIn i k s) (hs : s.deliver isTuner = some s') :
    s'.sessions = s.sessions ∧ IsOverIn i (k - 1) s' := by
  have htake : ∀ {p : Progress} {message : Message} {l : List Message},
      Message.noticeByStreamHandler p ∈ (message :: l).take k →
        message = .noticeByStreamHandler p ∨ Message.noticeByStreamHandler p ∈ l.take (k - 1) := by
    intro p message l hmem
    cases k with
    | zero => cases hmem
    | succ k => exact (List.mem_cons.mp hmem).imp Eq.symm id
  unfold GroupState.deliver at hs
  split at hs
  · cases hs
  · rename_i l hqueue
    obtain rfl := Option.some.inj hs
    have hnext : IsOverIn i (k - 1) { s with queue := l } := by
      refine h.imp id fun ⟨p, hp, hmem⟩ => ⟨p, hp, ?_⟩
      rw [hqueue] at hmem
      exact (htake hmem).resolve_left nofun
    split
    · unfold onStopViewing
      split
      · exact ⟨rfl, hnext⟩
      · exact ⟨rfl, hnext⟩
    · exact ⟨rfl, hnext⟩
  · rename_i q l hqueue
    obtain rfl := Option.some.inj hs
    unfold onNotice
    split
    · exact ⟨rfl, .inl (.inr rfl)⟩
    · rename_i hnot
      refine ⟨rfl, h.imp id fun ⟨p, hp, hmem⟩ => ⟨p, hp, ?_⟩⟩
      rw [hqueue] at hmem
      refine (htake hmem).resolve_left fun heq => hnot ?_
      rw [Message.noticeByStreamHandler.inj heq]
      exact hp

end GroupState

/-! ## All groups -/

namespace Manager

/-- **The condition on a step**: nobody writes the progress of a handler that is in `init`. -/
def KeepsEnded (m : Manager) : Op → Prop
  | .deliver g => (m.groups g).queue.head? = some .stopViewing →
      (m.groups g).viewing.isUsed = true → (m.groups g).progress ≠ .init
  | .checkLoop _ => ∀ g, (m.groups g).child = .dead → (m.groups g).progress ≠ .init
  | .patNotDetected g => (m.groups g).viewing.isUsed = true → (m.groups g).progress ≠ .init
  | _ => True

instance instDecidableKeepsEnded (m : Manager) (op : Op) : Decidable (m.KeepsEnded op) :=
  match op with
  | .deliver g =>
    inferInstanceAs (Decidable ((m.groups g).queue.head? = some .stopViewing →
      (m.groups g).viewing.isUsed = true → (m.groups g).progress ≠ .init))
  | .checkLoop _ =>
    inferInstanceAs (Decidable (∀ g, (m.groups g).child = .dead → (m.groups g).progress ≠ .init))
  | .patNotDetected g =>
    inferInstanceAs (Decidable
      ((m.groups g).viewing.isUsed = true → (m.groups g).progress ≠ .init))
  | .opened _ | .tuned _ | .present _ | .serviceName _ _ | .stopViewing _ | .setOption _ _ _
  | .childExit _ | .tsReceived _ | .close _ _ | .openOther _ | .closeOther _ =>
    inferInstanceAs (Decidable True)

/-- The manager handles no `stop_viewing` for the group. -/
def HandlesNoStop (g : Group) (m : Manager) (op : Op) : Prop :=
  op = .deliver g → (m.groups g).queue.head? ≠ some .stopViewing

instance instDecidableHandlesNoStop (g : Group) (m : Manager) (op : Op) :
    Decidable (m.HandlesNoStop g op) :=
  inferInstanceAs (Decidable (op = .deliver g → _))

variable {m m' : Manager} {g : Group} {op : Op} {i : ℕ} {l : List Op}

theorem passes_setGroup {g₀ : Group} {s : GroupState} (h : (m.groups g₀).Passes s) (g : Group) :
    (m.groups g).Passes ((m.setGroup g₀ s).groups g) := by
  show (m.groups g).Passes (Function.update m.groups g₀ s g)
  by_cases hg : g = g₀
  · subst hg
    rw [Function.update_self]
    exact h
  · rw [Function.update_of_ne hg]
    exact .refl _

/-- **A step in which the manager handles no message for the group.** -/
theorem passes_of_step (hok : m.KeepsEnded op) (hstep : m.step op = some m')
    (hop : op ≠ .deliver g) : (m.groups g).Passes (m'.groups g) := by
  cases op with
  | opened g₀ =>
    simp only [step] at hstep
    split at hstep
    · cases hstep
    · obtain rfl := Option.some.inj hstep
      exact passes_setGroup (GroupState.passes_onOpened _) g
  | tuned ok =>
    simp only [step] at hstep
    split at hstep
    · obtain rfl := Option.some.inj hstep
      split
      · exact .refl _
      · exact passes_setGroup (GroupState.passes_doError _ _) g
    · cases hstep
  | present ok =>
    simp only [step] at hstep
    split at hstep
    · obtain rfl := Option.some.inj hstep
      split
      · exact .refl _
      · split
        · exact .refl _
        · exact passes_setGroup (GroupState.passes_doError _ _) g
    · cases hstep
  | serviceName isPiped isForked =>
    simp only [step] at hstep
    split at hstep
    · obtain rfl := Option.some.inj hstep
      exact passes_setGroup (GroupState.passes_startViewing _ _ _) g
    · cases hstep
  | stopViewing g₀ =>
    obtain rfl := Option.some.inj hstep
    exact passes_setGroup (GroupState.passes_send _ _) g
  | setOption g₀ sec now =>
    obtain rfl := Option.some.inj hstep
    split
    · exact .refl _
    · exact passes_setGroup (GroupState.passes_onSetOption _ _ _) g
  | checkLoop now =>
    obtain rfl := Option.some.inj hstep
    refine (GroupState.passes_checkAutoStop _ now).trans (GroupState.passes_checkChild fun hdead => ?_)
    obtain ⟨hchild, hprogress⟩ := GroupState.checkAutoStop_same (m.groups g) now
    rw [hprogress]
    exact hok g (hchild.symm.trans hdead)
  | patNotDetected g₀ =>
    obtain rfl := Option.some.inj hstep
    exact passes_setGroup (GroupState.passes_onPatNotDetected hok) g
  | tsReceived g₀ =>
    obtain rfl := Option.some.inj hstep
    exact passes_setGroup (GroupState.passes_onTsReceived _) g
  | deliver g₀ =>
    obtain ⟨s, -, rfl⟩ := Option.map_eq_some_iff.mp hstep
    have hg : g ≠ g₀ := fun heq => hop (heq ▸ rfl)
    show (m.groups g).Passes (Function.update m.groups g₀ s g)
    rw [Function.update_of_ne hg]
    exact .refl _
  | close g₀ ok =>
    simp only [step] at hstep
    split at hstep
    · cases hstep
    · obtain rfl := Option.some.inj hstep
      apply passes_setGroup
      exact .of_eq rfl rfl id rfl
  | childExit g₀ | openOther g₀ | closeOther g₀ =>
    simp only [step] at hstep
    split at hstep
    · obtain rfl := Option.some.inj hstep
      apply passes_setGroup
      exact .of_eq rfl rfl id rfl
    · cases hstep

theorem deliver_of_step (hstep : m.step (.deliver g) = some m') :
    (m.groups g).deliver (decide ((g : ℕ) < m.tunerResourceMax)) = some (m'.groups g) := by
  obtain ⟨s, hs, rfl⟩ := Option.map_eq_some_iff.mp hstep
  show _ = some (Function.update m.groups g s g)
  rw [Function.update_self]
  exact hs

/-- **After two calls of the handler** a session that is to be ended has ended, if no `stop_viewing` is
handled meanwhile. -/
theorem ended_of_run (hrun : Machine.Run step (fun m op => m.KeepsEnded op ∧ m.HandlesNoStop g op) l m m')
    (hend : (m.groups g).progress.isEnd = true) (hcalls : 2 ≤ l.count (.tsReceived g)) :
    (m.groups g).sessions < (m'.groups g).sessions ∨
      (m'.groups g).sessions = (m.groups g).sessions ∧ (m'.groups g).progress = .init := by
  have h := hrun.countdown (· == .tsReceived g)
    (fun n m' => (m.groups g).sessions < (m'.groups g).sessions ∨
      (m'.groups g).sessions = (m.groups g).sessions ∧
        Progress.next^[n] (m'.groups g).progress = .init) ?_ ?_
    (.inr ⟨rfl, Progress.next_next_of_isEnd hend⟩)
  · rwa [← List.count_eq_countP, Nat.sub_eq_zero_of_le hcalls] at h
  · intro n m₁ op m₂ h _ hok hstep
    by_cases hop : op = .deliver g
    · subst hop
      obtain ⟨hsessions, hprogress⟩ := GroupState.deliver_of_noStop (deliver_of_step hstep) (hok.2 rfl)
      rw [hsessions, hprogress]
      exact h
    · have hpass := passes_of_step hok.1 hstep hop
      rcases h with hlt | ⟨heq, hn⟩
      · rcases hpass.session with hlt' | ⟨heq, -⟩
        · exact .inl (hlt.trans hlt')
        · exact .inl (heq ▸ hlt)
      · rcases hpass.session with hlt | ⟨heq', -, hnear⟩
        · exact .inl (heq ▸ hlt)
        · exact .inr ⟨heq'.trans heq, hnear n hn⟩
  · intro n m₁ op m₂ h hop _ hstep
    obtain rfl := beq_iff_eq.mp hop
    obtain rfl := Option.some.inj hstep
    have hself : (m₁.setGroup g (m₁.groups g).onTsReceived).groups g =
        (m₁.groups g).onTsReceived := Function.update_self _ _ _
    rw [hself]
    exact h.imp id fun ⟨heq, hn⟩ => ⟨heq, Progress.iterate_pred_next hn⟩

/-- **When the messages have been handled** among which the last notice of a session is, the session
is over. -/
theorem isOver_of_run (hrun : Machine.Run step KeepsEnded l m m') (hi : i ≤ (m.groups g).sessions)
    (hover : (m.groups g).IsOverIn i (l.count (.deliver g))) :
    i ≤ (m'.groups g).sessions ∧ (m'.groups g).IsOver i := by
  have h := hrun.countdown (· == .deliver g)
    (fun k m => i ≤ (m.groups g).sessions ∧ (m.groups g).IsOverIn i k) ?_ ?_ ⟨hi, hover⟩
  · rw [← List.count_eq_countP, Nat.sub_self] at h
    exact ⟨h.1, h.2.resolve_right fun ⟨p, _, hmem⟩ => List.not_mem_nil hmem⟩
  · intro k m₁ op m₂ ⟨hi, h⟩ hop hok hstep
    have hpass := passes_of_step hok hstep (ne_of_beq_false hop)
    refine ⟨?_, h.passes hi hpass⟩
    rcases hpass.session with hlt | ⟨heq, -⟩
    · exact hi.trans hlt.le
    · exact heq ▸ hi
  · intro k m₁ op m₂ ⟨hi, h⟩ hop _ hstep
    obtain rfl := beq_iff_eq.mp hop
    obtain ⟨hsessions, h'⟩ := h.deliver (deliver_of_step hstep)
    exact ⟨hsessions ▸ hi, h'⟩

end Manager

end Viewing

end AutoRec
