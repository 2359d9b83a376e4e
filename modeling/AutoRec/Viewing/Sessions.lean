import AutoRec.Viewing.Ending
import Mathlib.Data.List.Nodup

/-!
# Viewing sessions

The progress of a handler is written in three places without a look at what it is; a session whose
handler has come back to `init` is over as soon as its last notice is handled.

* `Idle`, `Running`, `Ended`: the stages of a group, and `Sound`: it is in one of them.
* `Manager.EndsSession`: calls of the handler end a session, and the messages that are queued then make
  it over.
* **`sessions_reach`**: a session that is to be ended is ended by exactly one notice, and between the
  sessions the handler is in `init`.
* `not_sessions`: a second `stop_viewing`, which closes the tuner of another module.
-/

namespace AutoRec

namespace Viewing

/-! ## What `on_ts_received` does -/

namespace Progress

variable {p : Progress}

theorem next_of_isPost (h : p.isPost = true) : p.next = .init ∧ p.notice = some p := by
  cases p <;> first | exact absurd h Bool.false_ne_true | exact ⟨rfl, rfl⟩

theorem next_ne_init (h : p.isPost = false) (hinit : p ≠ .init) : p.next ≠ .init := by
  cases p with
  | init => exact absurd rfl hinit
  | preProcess | processing | processEndSuccess | processEndError => exact Progress.noConfusion
  | postProcess | postProcessForcibly => cases h

theorem eq_of_notice {q : Progress} (h : q ∈ p.notice) : q = p := by
  unfold notice at h
  split at h
  · cases h
  · exact (Option.some.inj h).symm

end Progress

namespace GroupState

variable {s s' : GroupState} {b : Bool}

theorem onTsReceived_of_init (h : s.progress = .init) : s.onTsReceived = s := by
  obtain ⟨viewing, progress, child, queue, owner, closes, sessions, posts⟩ := s
  obtain rfl : progress = .init := h
  simp [onTsReceived, Progress.next, Progress.notice, Progress.isPost]

/-! ## The stages of a group -/

/-- No notice in the queue ends a session. -/
def NoPost (queue : List Message) : Prop :=
  ∀ p, Message.noticeByStreamHandler p ∈ queue → p.isPost = false

/-- No notice is queued. -/
def NoNotice (queue : List Message) : Prop :=
  ∀ p, Message.noticeByStreamHandler p ∉ queue

/-- There is no session; `b` says whether an `on_start_viewing` has opened the tuner. -/
structure Idle (b : Bool) (s : GroupState) : Prop where
  unused : s.viewing.isUsed = false
  progress : s.progress = .init
  child : s.child = .none
  queue : NoNotice s.queue
  posts : s.posts = List.range' 1 s.sessions
  owner : b = true ∨ s.closes ≠ 0 → s.owner = .viewing
  closes : s.closes = 0 ∨ b = false ∧ s.closes = 1

/-- There is a session. -/
structure Live (b : Bool) (s : GroupState) : Prop where
  used : s.viewing.isUsed = true
  started : b = false
  owner : s.owner = .viewing
  closes : s.closes = 0

/-- There is a session, and its last notice has still to be sent. -/
structure Running (b : Bool) (s : GroupState) : Prop extends Live b s where
  progress : s.progress ≠ .init
  queue : NoPost s.queue
  posts : ∃ n, s.sessions = n + 1 ∧ s.posts = List.range' 1 n

/-- The last notice of a session is queued. -/
structure Ended (b : Bool) (s : GroupState) : Prop extends Live b s where
  progress : s.progress = .init
  queue : ∃ l p l', s.queue = l ++ Message.noticeByStreamHandler p :: l' ∧ p.isPost = true ∧
    NoPost l ∧ NoNotice l'
  posts : s.posts = List.range' 1 s.sessions

/-- **The invariant of a group.** -/
inductive Sound (b : Bool) (s : GroupState) : Prop
  | idle : Idle b s → Sound b s
  | running : Running b s → Sound b s
  | ended : Ended b s → Sound b s

theorem Sound.live (h : Sound b s) (hused : s.viewing.isUsed = true) :
    Running b s ∨ Ended b s := by
  cases h with
  | idle h => exact absurd (h.unused.symm.trans hused) Bool.false_ne_true
  | running h => exact .inl h
  | ended h => exact .inr h

theorem Sound.idle_of_starting (h : Sound true s) : Idle true s := by
  cases h with
  | idle h => exact h
  | running h => exact absurd h.started.symm Bool.false_ne_true
  | ended h => exact absurd h.started.symm Bool.false_ne_true

theorem idle_initial : Idle false initial where
  unused := rfl
  progress := rfl
  child := rfl
  queue := fun _ => List.not_mem_nil
  posts := rfl
  owner := by decide
  closes := .inl rfl

/-! ## The queue -/

section Queue

variable {l l' : List Message} {p : Progress}

@[simp] theorem noNotice_nil : NoNotice [] := fun _ => List.not_mem_nil

theorem NoPost.append (h : NoPost l) (h' : NoPost l') : NoPost (l ++ l') := fun p hp =>
  (List.mem_append.mp hp).elim (h p) (h' p)

theorem NoNotice.append (h : NoNotice l) (h' : NoNotice l') : NoNotice (l ++ l') := fun p hp =>
  (List.mem_append.mp hp).elim (h p) (h' p)

theorem NoPost.tail {message : Message} (h : NoPost (message :: l)) : NoPost l := fun p hp =>
  h p (List.mem_cons_of_mem message hp)

theorem NoNotice.tail {message : Message} (h : NoNotice (message :: l)) : NoNotice l :=
  fun p hp => h p (List.mem_cons_of_mem message hp)

theorem noPost_stop : NoPost [.stopViewing] := fun p hp => by simp at hp

theorem noNotice_stop : NoNotice [.stopViewing] := fun p hp => by simp at hp

end Queue

/-! ## What the functions keep -/

/-- **A `stop_viewing` that is only queued** changes nothing. -/
theorem Sound.send (h : Sound b s) : Sound b (s.send .stopViewing) := by
  cases h with
  | idle h =>
    exact .idle ⟨h.unused, h.progress, h.child, h.queue.append noNotice_stop, h.posts, h.owner,
      h.closes⟩
  | running h =>
    exact .running ⟨⟨h.used, h.started, h.owner, h.closes⟩, h.progress, h.queue.append noPost_stop,
      h.posts⟩
  | ended h =>
    obtain ⟨l, p, l', hqueue, hp, hl, hl'⟩ := h.queue
    refine .ended ⟨⟨h.used, h.started, h.owner, h.closes⟩, h.progress, ?_, h.posts⟩
    refine ⟨l, p, l' ++ [Message.stopViewing], ?_, hp, hl, hl'.append noNotice_stop⟩
    show s.queue ++ [Message.stopViewing] = _
    rw [hqueue, List.append_assoc, List.cons_append]

theorem Sound.checkAutoStop (h : Sound b s) (now : ℤ) : Sound b (s.checkAutoStop now) := by
  unfold GroupState.checkAutoStop
  split
  · exact h.send
  · exact h

theorem Sound.onSetOption (h : Sound b s) (sec now : ℤ) : Sound b (s.onSetOption sec now) := by
  unfold GroupState.onSetOption
  split
  · cases h with
    | idle h => exact .idle ⟨h.unused, h.progress, h.child, h.queue, h.posts, h.owner, h.closes⟩
    | running h =>
      exact .running ⟨⟨h.used, h.started, h.owner, h.closes⟩, h.progress, h.queue, h.posts⟩
    | ended h =>
      exact .ended ⟨⟨h.used, h.started, h.owner, h.closes⟩, h.progress, h.queue, h.posts⟩
  · exact h

theorem Running.setProgress (h : Running b s) {p : Progress} (hp : p ≠ .init) (child : Child) :
    Running b { s with progress := p, child := child } :=
  ⟨⟨h.used, h.started, h.owner, h.closes⟩, hp, h.queue, h.posts⟩

/-- **A call of the handler**: a session goes on, or it ends. -/
theorem Running.onTsReceived (h : Running b s) : Sound b s.onTsReceived := by
  obtain ⟨n, hn, hposts⟩ := h.posts
  by_cases hpost : s.progress.isPost = true
  · obtain ⟨hnext, hnotice⟩ := Progress.next_of_isPost hpost
    refine .ended ⟨⟨h.used, h.started, h.owner, h.closes⟩, hnext, ?_, ?_⟩
    · refine ⟨s.queue, s.progress, [], ?_, hpost, h.queue, noNotice_nil⟩
      show s.queue ++ _ = _
      rw [hnotice]
      rfl
    · show (if s.progress.isPost then s.posts ++ [s.sessions] else s.posts) = _
      rw [if_pos hpost, hposts]
      show _ = List.range' 1 s.sessions
      rw [hn, List.range'_concat, Nat.one_mul, Nat.add_comm]
  · have hnot := Bool.eq_false_iff.mpr hpost
    refine .running ⟨⟨h.used, h.started, h.owner, h.closes⟩,
      Progress.next_ne_init hnot h.progress, ?_, n, hn, ?_⟩
    · refine h.queue.append fun q hq => ?_
      obtain ⟨q', hq', heq⟩ := Option.map_eq_some_iff.mp (Option.mem_toList.mp hq)
      obtain rfl := Message.noticeByStreamHandler.inj heq
      rw [Progress.eq_of_notice hq']
      exact hnot
    · show (if s.progress.isPost then s.posts ++ [s.sessions] else s.posts) = _
      rw [if_neg hpost, hposts]

theorem Sound.onTsReceived (h : Sound b s) : Sound b s.onTsReceived := by
  cases h with
  | idle h =>
    rw [onTsReceived_of_init h.progress]
    exact .idle h
  | running h => exact h.onTsReceived
  | ended h =>
    rw [onTsReceived_of_init h.progress]
    exact .ended h

theorem Sound.checkChild (h : Sound b s) (hok : s.child = .dead → s.progress ≠ .init) :
    Sound b s.checkChild := by
  unfold GroupState.checkChild
  split
  · rename_i hdead
    cases h with
    | idle h => exact absurd (h.child.symm.trans hdead) Child.noConfusion
    | running h => exact .running (h.setProgress Progress.noConfusion .none)
    | ended h => exact absurd h.progress (hok hdead)
  · exact h
  · exact h

theorem Sound.onPatNotDetected (h : Sound b s)
    (hok : s.viewing.isUsed = true → s.progress ≠ .init) : Sound b s.onPatNotDetected := by
  unfold GroupState.onPatNotDetected
  split
  · rename_i hused
    rcases h.live hused with h | h
    · exact (h.setProgress Progress.noConfusion s.child).onTsReceived
    · exact absurd h.progress (hok hused)
  · exact h

/-! ## The manager handles a message -/

theorem Live.onNotice (h : Live b s) (hprogress : s.progress = .init) (hqueue : NoNotice s.queue)
    (hposts : s.posts = List.range' 1 s.sessions) {p : Progress} (hp : p.isPost = true) :
    Sound b (s.onNotice p) := by
  have hcloses : s.closes + 1 = 1 := by rw [h.closes]
  unfold GroupState.onNotice
  rw [if_pos hp]
  exact .idle ⟨rfl, hprogress, rfl, hqueue, hposts, fun _ => h.owner, .inr ⟨h.started, hcloses⟩⟩

/-- **A message is handled**; it is not a `stop_viewing` for a session that has ended. -/
theorem Sound.deliver {isTuner : Bool} (h : Sound b s)
    (hok : s.queue.head? = some .stopViewing → s.viewing.isUsed = true → s.progress ≠ .init)
    (hs : s.deliver isTuner = some s') : Sound b s' := by
  unfold GroupState.deliver at hs
  split at hs
  · cases hs
  · rename_i queue hqueue
    obtain rfl := Option.some.inj hs
    rw [hqueue] at hok
    have hok := hok rfl
    cases h with
    | idle h =>
      have hnext : Sound b { s with queue := queue } :=
        .idle ⟨h.unused, h.progress, h.child, (hqueue ▸ h.queue).tail, h.posts, h.owner, h.closes⟩
      split
      · have hunused : ¬ s.viewing.isUsed = true := Bool.eq_false_iff.mp h.unused
        rw [onStopViewing, if_neg hunused]
        exact hnext
      · exact hnext
    | running h =>
      have hnext : Running b { s with queue := queue } :=
        ⟨⟨h.used, h.started, h.owner, h.closes⟩, h.progress, (hqueue ▸ h.queue).tail, h.posts⟩
      split
      · rw [onStopViewing, if_pos h.used]
        exact .running (hnext.setProgress Progress.noConfusion s.child)
      · exact .running hnext
    | ended h => exact absurd h.progress (hok h.used)
  · rename_i p queue hqueue
    obtain rfl := Option.some.inj hs
    cases h with
    | idle h =>
      have hno := h.queue p
      rw [hqueue] at hno
      exact absurd List.mem_cons_self hno
    | running h =>
      have hp : p.isPost = false := h.queue p (hqueue ▸ List.mem_cons_self)
      have hnot : ¬ p.isPost = true := Bool.eq_false_iff.mp hp
      rw [onNotice, if_neg hnot]
      exact .running ⟨⟨h.used, h.started, h.owner, h.closes⟩, h.progress, (hqueue ▸ h.queue).tail,
        h.posts⟩
    | ended h =>
      obtain ⟨l, q, l', hsplit, hq, hl, hl'⟩ := h.queue
      rw [hqueue] at hsplit
      cases l with
      | nil =>
        -- it is the last notice
        obtain ⟨hpq, rfl⟩ := List.cons.inj hsplit
        obtain rfl := Message.noticeByStreamHandler.inj hpq
        have hlive : Live b { s with queue := queue } := ⟨h.used, h.started, h.owner, h.closes⟩
        exact hlive.onNotice h.progress hl' h.posts hq
      | cons message l =>
        obtain ⟨rfl, rfl⟩ := List.cons.inj hsplit
        have hp : p.isPost = false := hl p List.mem_cons_self
        have hnot : ¬ p.isPost = true := Bool.eq_false_iff.mp hp
        rw [onNotice, if_neg hnot]
        exact .ended ⟨⟨h.used, h.started, h.owner, h.closes⟩, h.progress,
          ⟨l, q, l', rfl, hq, hl.tail, hl'⟩, h.posts⟩

/-! ## The beginning of a session, and the tuner -/

theorem Sound.idle_of_owner (h : Sound b s) (howner : s.owner ≠ .viewing) :
    Idle false s ∧ s.closes = 0 := by
  have hlive : ¬ Live b s := fun hlive => howner hlive.owner
  cases h with
  | idle h =>
    have hnot := mt h.owner howner
    have hb : b = false := Bool.eq_false_iff.mpr fun hb => hnot (.inl hb)
    subst hb
    exact ⟨h, of_not_not fun hcloses => hnot (.inr hcloses)⟩
  | running h => exact absurd h.toLive hlive
  | ended h => exact absurd h.toLive hlive

theorem Sound.setOwner (h : Sound b s) (howner : s.owner ≠ .viewing) (o : Owner) (hb : b = false) :
    Sound b { s with owner := o } := by
  subst hb
  obtain ⟨hidle, hcloses⟩ := h.idle_of_owner howner
  refine .idle ⟨hidle.unused, hidle.progress, hidle.child, hidle.queue, hidle.posts,
    fun hor => ?_, .inl hcloses⟩
  rcases hor with hfalse | hne
  · cases hfalse
  · exact absurd hcloses hne

theorem Sound.onOpened (h : Sound b s) (howner : s.owner ≠ .viewing) : Idle true s.onOpened := by
  obtain ⟨hidle, hcloses⟩ := h.idle_of_owner howner
  have hunused : ¬ s.viewing.isUsed = true := Bool.eq_false_iff.mp hidle.unused
  unfold GroupState.onOpened
  rw [if_neg hunused]
  exact ⟨hidle.unused, hidle.progress, hidle.child, hidle.queue, hidle.posts,
    fun _ => rfl, .inl hcloses⟩

theorem Idle.doError (h : Idle true s) (viewing : Entry) :
    Idle false ({ s with viewing := viewing } : GroupState).doError := by
  have hcloses : s.closes = 0 := h.closes.resolve_right fun hor => Bool.noConfusion hor.1
  have hone : s.closes + 1 = 1 := by rw [hcloses]
  exact ⟨rfl, h.progress, h.child, h.queue, h.posts, fun _ => h.owner (.inl rfl), .inr ⟨rfl, hone⟩⟩

/-- **A session begins**, or the `on_start_viewing` fails. -/
theorem Idle.startViewing (h : Idle true s) (isPiped isForked : Bool) :
    Sound false (s.startViewing isPiped isForked) := by
  have hinit : ¬ s.progress ≠ .init := not_not.mpr h.progress
  have hcloses : s.closes = 0 := h.closes.resolve_right fun hor => Bool.noConfusion hor.1
  unfold GroupState.startViewing
  dsimp only
  rw [if_neg hinit]
  split
  · exact .idle (h.doError _)
  · split
    · exact .idle (h.doError _)
    · refine .running ⟨⟨rfl, rfl, h.owner (.inl rfl), hcloses⟩, Progress.noConfusion, ?_, ?_⟩
      · exact fun p hp => absurd hp (h.queue p)
      · exact ⟨s.sessions, rfl, h.posts⟩

theorem Sound.close (h : Sound b s) (hcloses : s.closes ≠ 0) (ok : Bool) : Sound b (s.close ok) := by
  cases h with
  | idle h =>
    obtain ⟨hb, hone⟩ := h.closes.resolve_left hcloses
    have hzero : s.closes - 1 = 0 := by omega
    refine .idle ⟨h.unused, h.progress, h.child, h.queue, h.posts, fun hor => ?_, .inl hzero⟩
    rcases hor with htrue | hne
    · exact absurd (hb.symm.trans htrue) Bool.false_ne_true
    · exact absurd hzero hne
  | running h => exact absurd h.closes hcloses
  | ended h => exact absurd h.closes hcloses

end GroupState

/-! ## All groups -/

namespace Manager

/-- The `on_start_viewing` that holds the lock has opened the tuner of the group. -/
def isStarting (m : Manager) (g : Group) : Bool := m.starting.any fun x => x.1 == g

/-- Every group is sound. -/
def Sound (m : Manager) : Prop := ∀ g, GroupState.Sound (m.isStarting g) (m.groups g)

variable {m m' : Manager} {g : Group} {s : GroupState} {phase : StartPhase}

theorem isStarting_of_none (h : m.starting = none) (g : Group) : m.isStarting g = false := by
  rw [isStarting, h]
  rfl

theorem isStarting_of_some (h : m.starting = some (g, phase)) (g' : Group) :
    m.isStarting g' = decide (g = g') := by
  rw [isStarting, h]
  rfl

theorem Sound.setGroup (h : m.Sound) (hs : GroupState.Sound (m.isStarting g) s) :
    (m.setGroup g s).Sound := by
  intro g'
  show GroupState.Sound (m.isStarting g') (Function.update m.groups g s g')
  by_cases hg : g' = g
  · subst hg
    rw [Function.update_self]
    exact hs
  · rw [Function.update_of_ne hg]
    exact h g'

theorem Sound.begin (h : m.Sound) (hnone : m.starting = none) (hs : GroupState.Sound true s) :
    ((m.setGroup g s).setStarting (some (g, phase))).Sound := by
  intro g'
  show GroupState.Sound (g == g') (Function.update m.groups g s g')
  by_cases hg : g' = g
  · subst hg
    rw [Function.update_self, beq_self_eq_true]
    exact hs
  · have hne : (g == g') = false := beq_false_of_ne fun heq => hg heq.symm
    rw [Function.update_of_ne hg, hne, ← isStarting_of_none hnone g']
    exact h g'

theorem Sound.finish (h : m.Sound) (hsome : m.starting = some (g, phase))
    (hs : GroupState.Sound false s) : ((m.setGroup g s).setStarting none).Sound := by
  intro g'
  show GroupState.Sound false (Function.update m.groups g s g')
  by_cases hg : g' = g
  · subst hg
    rw [Function.update_self]
    exact hs
  · have hne : m.isStarting g' = false := by
      rw [isStarting_of_some hsome]
      exact decide_eq_false fun heq => hg heq.symm
    rw [Function.update_of_ne hg, ← hne]
    exact h g'

theorem Sound.goOn (h : m.Sound) (hsome : m.starting = some (g, phase)) (phase' : StartPhase) :
    (m.setStarting (some (g, phase'))).Sound := by
  intro g'
  have hg := h g'
  rw [isStarting_of_some hsome] at hg
  exact hg

theorem Sound.idle (h : m.Sound) (hsome : m.starting = some (g, phase)) :
    GroupState.Idle true (m.groups g) := by
  have hg := h g
  rw [isStarting_of_some hsome, decide_eq_true rfl] at hg
  exact hg.idle_of_starting

theorem Sound.doError (h : m.Sound) (hsome : m.starting = some (g, phase)) :
    (m.doError g).Sound :=
  h.finish hsome (.idle ((h.idle hsome).doError (m.groups g).viewing))

theorem Sound.not_starting (h : m.Sound) (howner : (m.groups g).owner ≠ .viewing) :
    m.isStarting g = false := by
  rcases hb : m.isStarting g with _ | _
  · rfl
  · have hg := h g
    rw [hb] at hg
    exact absurd (hg.idle_of_starting.owner (.inl rfl)) howner

/-- **A step keeps every group sound.** -/
theorem Sound.step {op : Op} (h : m.Sound) (hok : m.KeepsEnded op) (hstep : m.step op = some m') :
    m'.Sound := by
  cases op with
  | opened g =>
    simp only [Manager.step] at hstep
    split at hstep
    · cases hstep
    · rename_i hnot
      obtain rfl := Option.some.inj hstep
      rw [not_or, not_or, not_not] at hnot
      obtain ⟨hstarting, -, howner⟩ := hnot
      have hnone : m.starting = none := Option.not_isSome_iff_eq_none.mp hstarting
      have hne : (m.groups g).owner ≠ .viewing := by
        rw [howner]
        exact Owner.noConfusion
      exact h.begin hnone (.idle ((h g).onOpened hne))
  | tuned ok =>
    simp only [Manager.step] at hstep
    split at hstep
    · rename_i g hsome
      obtain rfl := Option.some.inj hstep
      split
      · exact h.goOn hsome _
      · exact h.doError hsome
    · cases hstep
  | present ok =>
    simp only [Manager.step] at hstep
    split at hstep
    · rename_i g retry hsome
      obtain rfl := Option.some.inj hstep
      split
      · exact h.goOn hsome _
      · split
        · exact h.goOn hsome _
        · exact h.doError hsome
    · cases hstep
  | serviceName isPiped isForked =>
    simp only [Manager.step] at hstep
    split at hstep
    · rename_i g hsome
      obtain rfl := Option.some.inj hstep
      exact h.finish hsome ((h.idle hsome).startViewing isPiped isForked)
    · cases hstep
  | stopViewing g =>
    obtain rfl := Option.some.inj hstep
    exact h.setGroup (h g).send
  | setOption g sec now =>
    obtain rfl := Option.some.inj hstep
    split
    · exact h
    · exact h.setGroup ((h g).onSetOption sec now)
  | checkLoop now =>
    obtain rfl := Option.some.inj hstep
    intro g
    refine ((h g).checkAutoStop now).checkChild fun hdead => ?_
    obtain ⟨hchild, hprogress⟩ := GroupState.checkAutoStop_same (m.groups g) now
    rw [hprogress]
    exact hok g (hchild.symm.trans hdead)
  | patNotDetected g =>
    obtain rfl := Option.some.inj hstep
    exact h.setGroup ((h g).onPatNotDetected hok)
  | childExit g =>
    simp only [Manager.step] at hstep
    split at hstep
    · rename_i halive
      obtain rfl := Option.some.inj hstep
      refine h.setGroup ?_
      cases h g with
      | idle hg => exact absurd (hg.child.symm.trans halive) Child.noConfusion
      | running hg => exact .running (hg.setProgress hg.progress .dead)
      | ended hg =>
        exact .ended ⟨⟨hg.used, hg.started, hg.owner, hg.closes⟩, hg.progress, hg.queue, hg.posts⟩
    · cases hstep
  | tsReceived g =>
    obtain rfl := Option.some.inj hstep
    exact h.setGroup (h g).onTsReceived
  | deliver g =>
    obtain ⟨s, hs, rfl⟩ := Option.map_eq_some_iff.mp hstep
    exact h.setGroup ((h g).deliver hok hs)
  | close g ok =>
    simp only [Manager.step] at hstep
    split at hstep
    · cases hstep
    · rename_i hcloses
      obtain rfl := Option.some.inj hstep
      exact h.setGroup ((h g).close hcloses ok)
  | openOther g =>
    simp only [Manager.step] at hstep
    split at hstep
    · rename_i howner
      obtain rfl := Option.some.inj hstep
      have hne : (m.groups g).owner ≠ .viewing := by
        rw [howner]
        exact Owner.noConfusion
      exact h.setGroup ((h g).setOwner hne _ (h.not_starting hne))
    · cases hstep
  | closeOther g =>
    simp only [Manager.step] at hstep
    split at hstep
    · rename_i howner
      obtain rfl := Option.some.inj hstep
      have hne : (m.groups g).owner ≠ .viewing := by
        rw [howner]
        exact Owner.noConfusion
      exact h.setGroup ((h g).setOwner hne _ (h.not_starting hne))
    · cases hstep

end Manager

/-! ## Runs -/

/-- The sessions that are over have sent one last notice each, in their order. -/
theorem GroupState.Sound.posts_eq {b : Bool} {s : GroupState} (h : GroupState.Sound b s) :
    ∃ n, s.posts = List.range' 1 n ∧
      ∀ i ≤ s.sessions, s.IsOver i ∨ s.progress = .init → i ≤ n := by
  cases h with
  | idle h => exact ⟨s.sessions, h.posts, fun i hi _ => hi⟩
  | ended h => exact ⟨s.sessions, h.posts, fun i hi _ => hi⟩
  | running h =>
    obtain ⟨n, hn, hposts⟩ := h.posts
    refine ⟨n, hposts, fun i _ hover => ?_⟩
    rcases hover with (hlt | hunused) | hinit
    · omega
    · exact absurd (hunused.symm.trans h.used) Bool.false_ne_true
    · exact absurd hinit h.progress

/-- The last notice of a session that has ended is queued, if it is not over. -/
theorem GroupState.Sound.isOverIn {b : Bool} {s : GroupState} (h : GroupState.Sound b s)
    (hinit : s.progress = .init) (i : ℕ) : s.IsOverIn i s.queue.length := by
  cases h with
  | idle h => exact .inl (.inr h.unused)
  | running h => exact absurd hinit h.progress
  | ended h =>
    obtain ⟨l, p, l', hqueue, hp, -, -⟩ := h.queue
    refine .inr ⟨p, hp, ?_⟩
    rw [List.take_length, hqueue]
    exact List.mem_append_right _ List.mem_cons_self

theorem GroupState.Sound.one_le_sessions {b : Bool} {s : GroupState} (h : GroupState.Sound b s)
    (hinit : s.progress ≠ .init) : 1 ≤ s.sessions := by
  cases h with
  | idle h => exact absurd h.progress hinit
  | running h =>
    obtain ⟨n, hn, -⟩ := h.posts
    exact hn ▸ Nat.succ_pos n
  | ended h => exact absurd h.progress hinit

/-- **The session of a group is ended**: two calls of the handler send its last notice, if no
`stop_viewing` is handled meanwhile, and when the messages that are queued then have been handled it
is over, and there has been that notice only. -/
def Manager.EndsSession (m : Manager) (g : Group) : Prop :=
  ∀ l m₁ l' m₂,
    Machine.Run Manager.step (fun m op => m.KeepsEnded op ∧ m.HandlesNoStop g op) l m m₁ →
    2 ≤ l.count (.tsReceived g) → Machine.Run Manager.step Manager.KeepsEnded l' m₁ m₂ →
    (m₁.groups g).queue.length ≤ l'.count (.deliver g) →
    (m₁.groups g).posts.count (m.groups g).sessions = 1 ∧
      (m₂.groups g).IsOver (m.groups g).sessions ∧
      (m₂.groups g).posts.count (m.groups g).sessions = 1

theorem Manager.Sound.of_reach {tunerResourceMax : ℕ} {m : Manager}
    (h : Machine.Reach Manager.step Manager.KeepsEnded (.initial tunerResourceMax) m) : m.Sound := by
  apply h.inv Manager.Sound
  · exact fun _ => .idle GroupState.idle_initial
  · exact fun _ _ _ hm hok hstep => hm.step hok hstep

/-- **How often a session is ended.** -/
theorem GroupState.Sound.count_posts {b : Bool} {s : GroupState} (h : GroupState.Sound b s) (i : ℕ) :
    s.posts.count i ≤ 1 ∧
      (1 ≤ i → i ≤ s.sessions → s.IsOver i ∨ s.progress = .init → s.posts.count i = 1) := by
  obtain ⟨n, hposts, hover⟩ := h.posts_eq
  have hnodup : s.posts.Nodup := by
    rw [hposts]
    exact List.nodup_range'
  refine ⟨List.nodup_iff_count_le_one.mp hnodup i, fun hpos hle hi => ?_⟩
  refine List.count_eq_one_of_mem hnodup ?_
  rw [hposts, List.mem_range'_1]
  have hin := hover i hle hi
  omega

theorem Manager.Sound.endsSession {tunerResourceMax : ℕ} {m : Manager} {g : Group}
    (h : Machine.Reach Manager.step Manager.KeepsEnded (.initial tunerResourceMax) m)
    (hend : (m.groups g).progress.isEnd = true) : m.EndsSession g := by
  intro l m₁ l' m₂ hrun hcalls hrun' hqueue
  have h₁ := h.trans (hrun.reach.mono fun _ _ hok => hok.1)
  have h₂ := h₁.trans hrun'.reach
  have hinit : (m.groups g).progress ≠ .init := fun heq => by
    rw [heq] at hend
    cases hend
  have hpos := (Manager.Sound.of_reach h g).one_le_sessions hinit
  have hended := Manager.ended_of_run hrun hend hcalls
  have hle : (m.groups g).sessions ≤ (m₁.groups g).sessions :=
    hended.elim le_of_lt fun h => h.1.ge
  have hsound := Manager.Sound.of_reach h₁ g
  have hover : (m₁.groups g).IsOver (m.groups g).sessions ∨ (m₁.groups g).progress = .init :=
    hended.imp .inl And.right
  have hin : (m₁.groups g).IsOverIn (m.groups g).sessions (l'.count (.deliver g)) := by
    rcases hover with hover | hinit
    · exact .inl hover
    · exact (hsound.isOverIn hinit _).mono hqueue
  obtain ⟨hle', hover'⟩ := Manager.isOver_of_run hrun' hle hin
  exact ⟨(hsound.count_posts _).2 hpos hle hover, hover',
    ((Manager.Sound.of_reach h₂ g).count_posts _).2 hpos hle' (.inl hover')⟩

/-- **A session is ended by exactly one notice, and between the sessions the handler is in `init`**,
so that the next session can begin, and `close` is for a tuner of this module, in every run in which
nobody writes the progress of a handler that has come back to `init`. -/
theorem sessions_reach (tunerResourceMax : ℕ) {m : Manager}
    (h : Machine.Reach Manager.step Manager.KeepsEnded (.initial tunerResourceMax) m) (g : Group) :
    (∀ i, (m.groups g).posts.count i ≤ 1) ∧
      (∀ i, 1 ≤ i → i ≤ (m.groups g).sessions → (m.groups g).IsOver i →
        (m.groups g).posts.count i = 1) ∧
      ((m.groups g).progress.isEnd = true → m.EndsSession g) ∧
      ((m.groups g).viewing.isUsed = false →
        (∀ p, Message.noticeByStreamHandler p ∉ (m.groups g).queue) →
        (m.groups g).progress = .init) ∧
      (∀ phase, m.starting = some (g, phase) → (m.groups g).progress = .init) ∧
      ((m.groups g).closes ≠ 0 → (m.groups g).owner = .viewing) := by
  have hsound := Manager.Sound.of_reach h
  refine ⟨fun i => ((hsound g).count_posts i).1, fun i hpos hle hi => ?_,
    Manager.Sound.endsSession h, ?_, ?_, ?_⟩
  · exact ((hsound g).count_posts i).2 hpos hle (.inl hi)
  · intro hunused _
    cases hsound g with
    | idle hg => exact hg.progress
    | running hg => exact absurd (hunused.symm.trans hg.used) Bool.false_ne_true
    | ended hg => exact absurd (hunused.symm.trans hg.used) Bool.false_ne_true
  · exact fun phase hsome => (hsound.idle hsome).progress
  · intro hcloses
    cases hsound g with
    | idle hg => exact hg.owner (.inr hcloses)
    | running hg => exact hg.owner
    | ended hg => exact hg.owner

/-- A session is started on the first group. -/
def sessionBegin : List Op :=
  [.opened 0, .tuned true, .present true, .serviceName true true, .tsReceived 0, .deliver 0]

/-- It is stopped once. -/
def sessionStopped : List Op := sessionBegin ++ ([.stopViewing 0, .deliver 0] : List Op)

/-- The session is ended by one notice. -/
theorem sessions_reach_stopped : ∃ m m₁ m₂,
    Machine.exec Manager.step (.initial 1) sessionStopped = some m ∧
      Machine.exec Manager.step m [.tsReceived 0, .tsReceived 0] = some m₁ ∧
      Machine.exec Manager.step m₁ [.deliver 0, .deliver 0] = some m₂ ∧
      (m₁.groups 0).posts.count 1 = 1 ∧ (m₂.groups 0).IsOver 1 ∧ (m₂.groups 0).posts.count 1 = 1 := by
  have hrun : (Machine.exec Manager.step (.initial 1) sessionStopped).bind (fun m =>
      (Machine.exec Manager.step m [.tsReceived 0, .tsReceived 0]).bind fun m₁ =>
        (Machine.exec Manager.step m₁ [.deliver 0, .deliver 0]).map fun _ =>
          ((m.groups 0).progress, (m.groups 0).sessions, (m₁.groups 0).queue.length,
            Machine.execOk Manager.step (fun m op => m.KeepsEnded op ∧ m.HandlesNoStop 0 op) m
              [.tsReceived 0, .tsReceived 0],
            Machine.execOk Manager.step Manager.KeepsEnded m₁ [.deliver 0, .deliver 0])) =
        some (.processEndSuccess, 1, 2, true, true) := by
    decide
  obtain ⟨m, hm, hrun⟩ := Option.bind_eq_some_iff.mp hrun
  obtain ⟨m₁, hm₁, hrun⟩ := Option.bind_eq_some_iff.mp hrun
  obtain ⟨m₂, hm₂, hvals⟩ := Option.map_eq_some_iff.mp hrun
  simp only [Prod.mk.injEq] at hvals
  obtain ⟨hprogress, hone, hqueue, hok₁, hok₂⟩ := hvals
  have hreach : Machine.Reach Manager.step Manager.KeepsEnded (.initial 1) m :=
    Machine.reach_of_execOk (by decide) hm
  have hends := (sessions_reach 1 hreach 0).2.2.1 (hprogress ▸ rfl)
  have hover := hends _ m₁ _ m₂ (Machine.run_of_execOk hok₁ hm₁) (by decide)
    (Machine.run_of_execOk hok₂ hm₂) (hqueue ▸ by decide)
  rw [hone] at hover
  exact ⟨m, m₁, m₂, hm, hm₁, hm₂, hover⟩

/-- It is stopped twice; the handler is called while the second request is queued. -/
def sessionStoppedTwice : List Op :=
  sessionBegin ++ ([.stopViewing 0, .stopViewing 0, .deliver 0, .tsReceived 0, .tsReceived 0,
    .deliver 0, .deliver 0, .deliver 0, .close 0 true] : List Op)

/-- Then another module opens the tuner, and the handler is called again. -/
def otherTuned : List Op := [.openOther 0, .tsReceived 0, .tsReceived 0, .deliver 0, .deliver 0]

/-- The second stop is left over: the handler is not in `init` when nothing is queued any more. It
sends a second notice when another module uses the tuner, and that tuner is to be closed. -/
theorem not_sessions : ∃ m m',
    Machine.exec Manager.step (.initial 1) sessionStoppedTwice = some m ∧
      Machine.exec Manager.step m otherTuned = some m' ∧
      ¬ ((m.groups 0).viewing.isUsed = false →
        (∀ p, Message.noticeByStreamHandler p ∉ (m.groups 0).queue) →
        (m.groups 0).progress = .init) ∧
      ¬ (m'.groups 0).posts.count 1 = 1 ∧
      (m'.groups 0).closes ≠ 0 ∧ (m'.groups 0).owner = .other := by
  have hrun : (Machine.exec Manager.step (.initial 1) sessionStoppedTwice).bind (fun m =>
      (Machine.exec Manager.step m otherTuned).map fun m' =>
        (((m.groups 0).viewing.isUsed, (m.groups 0).queue, (m.groups 0).progress),
          (m'.groups 0).posts, (m'.groups 0).closes, (m'.groups 0).owner)) =
      some ((false, [], .processEndSuccess), [1, 1], 1, .other) := by
    decide
  obtain ⟨m, hm, hnext⟩ := Option.bind_eq_some_iff.mp hrun
  obtain ⟨m', hm', hvals⟩ := Option.map_eq_some_iff.mp hnext
  simp only [Prod.mk.injEq] at hvals
  obtain ⟨⟨hunused, hqueue, hprogress⟩, hposts, hcloses, howner⟩ := hvals
  refine ⟨m, m', hm, hm', fun hall => ?_, ?_, ?_, howner⟩
  · have hinit := hall hunused fun p hp => by
      rw [hqueue] at hp
      exact absurd hp List.not_mem_nil
    exact absurd (hprogress.symm.trans hinit) Progress.noConfusion
  · rw [hposts]
    decide
  · rw [hcloses]
    exact Nat.one_ne_zero

end Viewing

end AutoRec
