import AutoRec.Viewing.Manager

/-!
# What is viewed

The part of the entries of `viewings_` that says what is viewed, over the sessions of
`Viewing/Manager`: `on_start_viewing` stores the service and its present event, `on_event_changed`
asks for the present event again. The name of the service is left out, and so are the replies of the
channel manager. The answers to several requests may come in any order.

* `Shown`, `Watch`, `Watch.step`: the entries, the requests that wait, and the answers so far.
* `Watch.AsksOwn`: an event change is about the service that `viewings_[0]` has, too, and no session
  begins while an event change of its group waits with another service.
* **`viewings_match`**: in such runs the event in a used entry is an answer for its service.
* `not_viewings_match`: an event change in group 1, while group 0 views another service.
-/

namespace AutoRec

namespace Viewing

/-! ## The entries -/

/-- What a service is asked for by. -/
structure ServiceNumbers where
  transportStreamId : UInt16
  originalNetworkId : UInt16
  serviceId : UInt16
deriving DecidableEq, Repr

/-- What an entry takes over from an `event_info_t`. -/
structure EventInfo where
  eventId : UInt16
  startTime : Etime
  endTime : Etime
  eventNameChar : String
deriving DecidableEq, Repr

/-- What an `entry` says about what is viewed. -/
structure Shown where
  service : ServiceNumbers
  event : EventInfo
deriving DecidableEq, Repr

/-- `entry::clear`. -/
def Shown.clear : Shown := ⟨⟨0, 0, 0⟩, ⟨0, .clear, .clear, ""⟩⟩

/-! ## The machine -/

/-- The manager, with what is viewed; `startService` and `startEvent` are `service_info` and
`present_event_info` of the `on_start_viewing` that holds the lock. `asked` are the requests of the
`on_event_changed` that wait, `answers` the successful answers to all requests for a present event,
with the service that was asked for. -/
structure Watch where
  manager : Manager
  shown : Group → Shown
  startService : ServiceNumbers
  startEvent : EventInfo
  asked : List (Group × ServiceNumbers)
  answers : List (ServiceNumbers × EventInfo)

/-- The steps. -/
inductive WatchOp
  /-- The tuner for the service is open. -/
  | opened (g : Group) (service : ServiceNumbers)
  | present (event : Option EventInfo)
  | serviceName (isPiped isForked : Bool)
  /-- `on_event_changed`, up to its request. -/
  | eventChanged (g : Group)
  /-- It goes on, with the answer to the `i`-th request that waits. -/
  | eventAnswer (i : ℕ) (event : Option EventInfo)
  | other (op : Op)

namespace Watch

/-- At the beginning. -/
def initial (tunerResourceMax : ℕ) : Watch where
  manager := .initial tunerResourceMax
  shown := fun _ => .clear
  startService := Shown.clear.service
  startEvent := Shown.clear.event
  asked := []
  answers := []

variable (s : Watch)

/-- The entry of the group is used. -/
def isUsed (g : Group) : Bool := (s.manager.groups g).viewing.isUsed

/-- The sessions go on; an entry is unused only after `clear`. -/
def setManager (m : Manager) : Watch :=
  { s with
    manager := m
    shown := fun g => if (m.groups g).viewing.isUsed then s.shown g else .clear }

/-- `entry::set`, in `on_start_viewing`. -/
def setShown : Watch :=
  match s.manager.starting with
  | some (g, _) => { s with shown := Function.update s.shown g ⟨s.startService, s.startEvent⟩ }
  | none => s

/-- `on_start_viewing`, from the answer to its request for the present event. -/
def onPresent : Option EventInfo → Watch
  | some event =>
    { s with startEvent := event, answers := s.answers ++ [(s.startService, event)] }
  | none => s

/-- `on_event_changed`, up to its request: the service is that of `viewings_[0]`. -/
def onEventChanged (g : Group) : Watch :=
  if s.isUsed g then { s with asked := s.asked ++ [(g, (s.shown 0).service)] } else s

/-- `on_event_changed`, from the answer to its request on. -/
def onEventAnswer (g : Group) (service : ServiceNumbers) : Option EventInfo → Watch
  | some event =>
    { s with
      shown :=
        if s.isUsed g then Function.update s.shown g { s.shown g with event := event } else s.shown
      answers := s.answers ++ [(service, event)] }
  | none => s

/-- **A step.** -/
def step (s : Watch) : WatchOp → Option Watch
  | .opened g service =>
    (s.manager.step (.opened g)).map fun m => { s.setManager m with startService := service }
  | .present event =>
    (s.manager.step (.present event.isSome)).map fun m => (s.onPresent event).setManager m
  | .serviceName isPiped isForked =>
    (s.manager.step (.serviceName isPiped isForked)).map fun m => s.setShown.setManager m
  | .eventChanged g => some (s.onEventChanged g)
  | .eventAnswer i event =>
    match s.asked[i]? with
    | some (g, service) =>
      some ({ s with asked := s.asked.eraseIdx i }.onEventAnswer g service event)
    | none => none
  | .other op =>
    match op with
    | .opened _ | .present _ | .serviceName .. => none
    | op => (s.manager.step op).map s.setManager

/-- **The condition on a step**: an event change is for a service that `viewings_[0]` has, too; no
session begins while an event change of its group waits for an answer about another service. -/
def AsksOwn (s : Watch) : WatchOp → Prop
  | .eventChanged g => s.isUsed g = true → (s.shown 0).service = (s.shown g).service
  | .serviceName .. => ∀ x ∈ s.manager.starting, ∀ a ∈ s.asked, a.1 = x.1 → a.2 = s.startService
  | .opened .. | .present _ | .eventAnswer .. | .other _ => True

instance instDecidableAsksOwn (s : Watch) (op : WatchOp) : Decidable (s.AsksOwn op) :=
  match op with
  | .eventChanged g =>
    inferInstanceAs (Decidable (s.isUsed g = true → (s.shown 0).service = (s.shown g).service))
  | .serviceName .. =>
    inferInstanceAs (Decidable
      (∀ x ∈ s.manager.starting, ∀ a ∈ s.asked, a.1 = x.1 → a.2 = s.startService))
  | .opened .. | .present _ | .eventAnswer .. | .other _ => inferInstanceAs (Decidable True)

end Watch

/-! ## What the sessions do to the entries -/

namespace GroupState

variable {s s' : GroupState}

theorem isUsed_of_onNotice {p : Progress} (h : (s.onNotice p).viewing.isUsed = true) :
    s.viewing.isUsed = true := by
  unfold onNotice at h
  split at h
  · cases h
  · exact h

theorem isUsed_of_onStopViewing (h : s.onStopViewing.viewing.isUsed = true) :
    s.viewing.isUsed = true := by
  unfold onStopViewing at h
  split at h
  · assumption
  · exact h

theorem isUsed_of_deliver {b : Bool} (hs : s.deliver b = some s')
    (h : s'.viewing.isUsed = true) : s.viewing.isUsed = true := by
  unfold deliver at hs
  split at hs
  · cases hs
  · rename_i queue _
    obtain rfl := Option.some.inj hs
    split at h
    · exact isUsed_of_onStopViewing (s := { s with queue := queue }) h
    · exact h
  · rename_i queue _
    obtain rfl := Option.some.inj hs
    exact isUsed_of_onNotice (s := { s with queue := queue }) h

theorem isUsed_of_check {now : ℤ} (h : (s.checkAutoStop now).checkChild.viewing.isUsed = true) :
    s.viewing.isUsed = true := by
  have hchild : (s.checkAutoStop now).viewing.isUsed = true := by
    unfold checkChild at h
    split at h <;> exact h
  unfold checkAutoStop at hchild
  split at hchild <;> exact hchild

theorem isUsed_of_onSetOption {sec now : ℤ} (h : (s.onSetOption sec now).viewing.isUsed = true) :
    s.viewing.isUsed = true := by
  unfold onSetOption at h
  split at h <;> exact h

theorem isUsed_of_onPatNotDetected (h : s.onPatNotDetected.viewing.isUsed = true) :
    s.viewing.isUsed = true := by
  unfold onPatNotDetected at h
  split at h
  · assumption
  · exact h

theorem isUsed_of_onOpened : s.onOpened.viewing.isUsed = false := by
  unfold onOpened
  dsimp only
  split
  · rfl
  · exact Bool.eq_false_iff.mpr ‹_›

end GroupState

namespace Manager

variable {m m' : Manager}

theorem isUsed_of_setGroup {g g' : Group} {s : GroupState}
    (h : ((m.setGroup g s).groups g').viewing.isUsed = true)
    (hs : s.viewing.isUsed = true → (m.groups g).viewing.isUsed = true) :
    (m.groups g').viewing.isUsed = true := by
  change (Function.update m.groups g s g').viewing.isUsed = true at h
  by_cases hg : g' = g
  · subst hg
    rw [Function.update_self] at h
    exact hs h
  · rw [Function.update_of_ne hg] at h
    exact h

/-- **No step but the end of an `on_start_viewing`** makes an entry used. -/
theorem isUsed_step {op : Op} (hop : ∀ p f, op ≠ .serviceName p f) (h : m.step op = some m')
    {g : Group} (hused : (m'.groups g).viewing.isUsed = true) :
    (m.groups g).viewing.isUsed = true := by
  cases op with
  | opened g₀ =>
    dsimp only [step] at h
    split at h
    · cases h
    · obtain rfl := Option.some.inj h
      refine isUsed_of_setGroup hused fun hopen => ?_
      exact absurd (GroupState.isUsed_of_onOpened.symm.trans hopen) Bool.false_ne_true
  | tuned ok =>
    dsimp only [step] at h
    split at h
    · obtain rfl := Option.some.inj h
      cases ok with
      | true => exact hused
      | false => exact isUsed_of_setGroup hused fun herror => Bool.noConfusion herror
    · cases h
  | present ok =>
    dsimp only [step] at h
    split at h
    · obtain rfl := Option.some.inj h
      split at hused
      · exact hused
      · split at hused
        · exact hused
        · exact isUsed_of_setGroup hused fun herror => Bool.noConfusion herror
    · cases h
  | serviceName p f => exact absurd rfl (hop p f)
  | stopViewing g₀ =>
    obtain rfl := Option.some.inj h
    exact isUsed_of_setGroup hused fun hu => hu
  | setOption g₀ sec now =>
    obtain rfl := Option.some.inj h
    split at hused
    · exact hused
    · exact isUsed_of_setGroup hused GroupState.isUsed_of_onSetOption
  | checkLoop now =>
    obtain rfl := Option.some.inj h
    exact GroupState.isUsed_of_check hused
  | patNotDetected g₀ =>
    obtain rfl := Option.some.inj h
    exact isUsed_of_setGroup hused GroupState.isUsed_of_onPatNotDetected
  | childExit g₀ =>
    dsimp only [step] at h
    split at h
    · obtain rfl := Option.some.inj h
      exact isUsed_of_setGroup hused fun hu => hu
    · cases h
  | tsReceived g₀ =>
    obtain rfl := Option.some.inj h
    exact isUsed_of_setGroup hused fun hu => hu
  | deliver g₀ =>
    obtain ⟨s, hs, rfl⟩ := Option.map_eq_some_iff.mp h
    exact isUsed_of_setGroup hused (GroupState.isUsed_of_deliver hs)
  | close g₀ ok =>
    dsimp only [step] at h
    split at h
    · cases h
    · obtain rfl := Option.some.inj h
      exact isUsed_of_setGroup hused fun hu => hu
  | openOther g₀ | closeOther g₀ =>
    dsimp only [step] at h
    split at h
    · obtain rfl := Option.some.inj h
      exact isUsed_of_setGroup hused fun hu => hu
    · cases h

theorem starting_opened {g : Group} (h : m.step (.opened g) = some m') :
    m'.starting = some (g, .tuning) := by
  dsimp only [step] at h
  split at h
  · cases h
  · obtain rfl := Option.some.inj h
    rfl

/-- **The end of an `on_start_viewing`** is about its group. -/
theorem step_serviceName {p f : Bool} (h : m.step (.serviceName p f) = some m') :
    ∃ g, m.starting = some (g, .serviceName) ∧ m'.starting = none ∧
      ∀ g' ≠ g, m'.groups g' = m.groups g' := by
  dsimp only [step] at h
  split at h
  · rename_i g hg
    obtain rfl := Option.some.inj h
    exact ⟨g, hg, rfl, fun g' hne => Function.update_of_ne hne _ _⟩
  · cases h

/-- An `on_start_viewing` asks for the name of the service once it has got the present event. -/
theorem starting_step {op : Op} (hop : op ≠ .present true) (h : m.step op = some m') {g : Group}
    (hg : m'.starting = some (g, .serviceName)) : m.starting = some (g, .serviceName) := by
  cases op with
  | opened g₀ =>
    dsimp only [step] at h
    split at h
    · cases h
    · obtain rfl := Option.some.inj h
      cases hg
  | tuned ok =>
    dsimp only [step] at h
    split at h
    · obtain rfl := Option.some.inj h
      cases ok <;> cases hg
    · cases h
  | present ok =>
    cases ok with
    | true => exact absurd rfl hop
    | false =>
      dsimp only [step] at h
      split at h
      · obtain rfl := Option.some.inj h
        rw [if_neg Bool.false_ne_true] at hg
        split at hg <;> cases hg
      · cases h
  | serviceName p f =>
    obtain ⟨g₁, -, hnone, -⟩ := step_serviceName h
    rw [hnone] at hg
    cases hg
  | setOption g₀ sec now =>
    obtain rfl := Option.some.inj h
    split at hg <;> exact hg
  | stopViewing _ | checkLoop _ | patNotDetected _ | tsReceived _ =>
    obtain rfl := Option.some.inj h
    exact hg
  | deliver g₀ =>
    obtain ⟨s, -, rfl⟩ := Option.map_eq_some_iff.mp h
    exact hg
  | close g₀ ok =>
    dsimp only [step] at h
    split at h
    · cases h
    · obtain rfl := Option.some.inj h
      exact hg
  | childExit g₀ | openOther g₀ | closeOther g₀ =>
    dsimp only [step] at h
    split at h
    · obtain rfl := Option.some.inj h
      exact hg
    · cases h

end Manager

/-! ## Where the events come from -/

namespace Watch

variable {s t : Watch} {g : Group}

/-- The event of the entry is an answer about its service. -/
def Matches (s : Watch) (g : Group) : Prop :=
  ((s.shown g).service, (s.shown g).event) ∈ s.answers

/-- **The invariant**: so it is for the used entries, and for what the `on_start_viewing` is going
to store; a request that waits is about the service of its entry. -/
structure Good (s : Watch) : Prop where
  shown : ∀ g, s.isUsed g = true → s.Matches g
  start : ∀ g, s.manager.starting = some (g, .serviceName) →
    (s.startService, s.startEvent) ∈ s.answers
  asked : ∀ a ∈ s.asked, s.isUsed a.1 = true → a.2 = (s.shown a.1).service

theorem good_initial (tunerResourceMax : ℕ) : (initial tunerResourceMax).Good where
  shown := fun _ hused => Bool.noConfusion hused
  start := fun g hsome => by cases hsome
  asked := fun _ ha => absurd ha List.not_mem_nil

theorem shown_setManager {m : Manager} (hused : (s.setManager m).isUsed g = true) :
    (s.setManager m).shown g = s.shown g := if_pos hused

theorem Good.setManager (h : s.Good) {m : Manager}
    (hused : ∀ g, (m.groups g).viewing.isUsed = true → s.isUsed g = true)
    (hstart : ∀ g, m.starting = some (g, .serviceName) →
      (s.startService, s.startEvent) ∈ s.answers) : (s.setManager m).Good where
  shown := fun g hg => by
    show ((_ : Shown).service, _) ∈ s.answers
    rw [shown_setManager hg]
    exact h.shown g (hused g hg)
  start := hstart
  asked := fun a ha hg => by
    rw [shown_setManager hg]
    exact h.asked a ha (hused a.1 hg)

/-- **A session begins.** -/
theorem Good.serviceName (h : s.Good) {p f : Bool} {m : Manager}
    (hok : s.AsksOwn (.serviceName p f))
    (hm : s.manager.step (.serviceName p f) = some m) : (s.setShown.setManager m).Good := by
  obtain ⟨g₀, hstarting, hnone, hframe⟩ := Manager.step_serviceName hm
  have hset : s.setShown =
      { s with shown := Function.update s.shown g₀ ⟨s.startService, s.startEvent⟩ } := by
    rw [setShown, hstarting]
  have hself : s.setShown.shown g₀ = ⟨s.startService, s.startEvent⟩ := by
    rw [hset]
    exact Function.update_self ..
  have hother : ∀ g ≠ g₀, s.setShown.shown g = s.shown g := fun g hne => by
    rw [hset]
    exact Function.update_of_ne hne ..
  have hold : ∀ g ≠ g₀, (m.groups g).viewing.isUsed = true → s.isUsed g = true :=
    fun g hne hg => by rwa [hframe g hne] at hg
  have hanswers : (s.setShown.setManager m).answers = s.answers := by
    rw [hset]
    rfl
  have hasked : (s.setShown.setManager m).asked = s.asked := by
    rw [hset]
    rfl
  constructor
  · intro g hg
    show ((_ : Shown).service, _) ∈ (s.setShown.setManager m).answers
    rw [hanswers, shown_setManager hg]
    by_cases hne : g = g₀
    · subst hne
      rw [hself]
      exact h.start g hstarting
    · rw [hother g hne]
      exact h.shown g (hold g hne hg)
  · intro g hsome
    have hsome : m.starting = some (g, .serviceName) := hsome
    rw [hnone] at hsome
    cases hsome
  · intro a ha hg
    rw [hasked] at ha
    rw [shown_setManager hg]
    by_cases hne : a.1 = g₀
    · rw [hne, hself]
      exact hok _ hstarting a ha hne
    · rw [hother a.1 hne]
      exact h.asked a ha (hold a.1 hne hg)

/-- **An event changes.** -/
theorem Good.onEventChanged (h : s.Good) (hok : s.AsksOwn (.eventChanged g)) :
    (s.onEventChanged g).Good := by
  unfold Watch.onEventChanged
  split
  · rename_i hg
    refine ⟨h.shown, h.start, fun a ha hused => ?_⟩
    rcases List.mem_append.mp ha with ha | ha
    · exact h.asked a ha hused
    · obtain rfl := List.mem_singleton.mp ha
      exact hok hg
  · exact h

/-- **The answer** to a request about the service of the entry. -/
theorem Good.onEventAnswer (h : s.Good) {service : ServiceNumbers} (event : Option EventInfo)
    (hasked : s.isUsed g = true → service = (s.shown g).service) :
    (s.onEventAnswer g service event).Good := by
  cases event with
  | none => exact h
  | some event =>
    have hservice : ∀ g', ((s.onEventAnswer g service (some event)).shown g').service =
        (s.shown g').service := by
      intro g'
      simp only [Watch.onEventAnswer]
      split
      · by_cases hne : g' = g
        · subst hne
          rw [Function.update_self]
        · rw [Function.update_of_ne hne]
      · rfl
    refine ⟨fun g' hg' => ?_, fun g' hsome => List.mem_append_left _ (h.start g' hsome), ?_⟩
    · by_cases hne : g' = g
      · subst hne
        have hg : s.isUsed g' = true := hg'
        apply List.mem_append_right
        rw [hservice, hasked hg, List.mem_singleton]
        simp only [Watch.onEventAnswer]
        rw [if_pos hg, Function.update_self]
      · apply List.mem_append_left
        have hshown : (s.onEventAnswer g service (some event)).shown g' = s.shown g' := by
          simp only [Watch.onEventAnswer]
          split
          · exact Function.update_of_ne hne ..
          · rfl
        rw [hshown]
        exact h.shown g' hg'
    · intro a ha hused
      rw [hservice]
      exact h.asked a ha hused

/-- **One step** keeps the invariant. -/
theorem Good.step (h : s.Good) {op : WatchOp} (hok : s.AsksOwn op) (hstep : s.step op = some t) :
    t.Good := by
  cases op with
  | opened g₀ service =>
    obtain ⟨m, hm, rfl⟩ := Option.map_eq_some_iff.mp hstep
    have hnot : ∀ g, m.starting ≠ some (g, .serviceName) := fun g hg => by
      rw [Manager.starting_opened hm] at hg
      cases hg
    have hnext : (s.setManager m).Good := by
      apply h.setManager
      · exact fun g hg => Manager.isUsed_step (fun _ _ => Op.noConfusion) hm hg
      · exact fun g hg => absurd hg (hnot g)
    exact ⟨hnext.shown, fun g hg => absurd hg (hnot g), hnext.asked⟩
  | present event =>
    obtain ⟨m, hm, rfl⟩ := Option.map_eq_some_iff.mp hstep
    have hused : ∀ g, (m.groups g).viewing.isUsed = true → s.isUsed g = true :=
      fun g hg => Manager.isUsed_step (fun _ _ => Op.noConfusion) hm hg
    cases event with
    | none =>
      refine h.setManager hused fun g hg => h.start g (Manager.starting_step ?_ hm hg)
      exact fun heq => Bool.noConfusion (Op.present.inj heq)
    | some event =>
      have hanswered : (s.onPresent (some event)).Good := by
        refine ⟨fun g hg => List.mem_append_left _ (h.shown g hg), fun g _ => ?_, h.asked⟩
        exact List.mem_append_right _ List.mem_cons_self
      exact hanswered.setManager hused fun g hg => List.mem_append_right _ List.mem_cons_self
  | serviceName p f =>
    obtain ⟨m, hm, rfl⟩ := Option.map_eq_some_iff.mp hstep
    exact h.serviceName hok hm
  | eventChanged g₀ =>
    obtain rfl := Option.some.inj hstep
    exact h.onEventChanged hok
  | eventAnswer i event =>
    dsimp only [Watch.step] at hstep
    split at hstep
    · rename_i g₀ service hi
      obtain rfl := Option.some.inj hstep
      apply Good.onEventAnswer
      · exact ⟨h.shown, h.start, fun a ha => h.asked a (List.mem_of_mem_eraseIdx ha)⟩
      · exact h.asked _ (List.mem_of_getElem? hi)
    · cases hstep
  | other op =>
    dsimp only [Watch.step] at hstep
    split at hstep
    · cases hstep
    · cases hstep
    · cases hstep
    · obtain ⟨m, hm, rfl⟩ := Option.map_eq_some_iff.mp hstep
      apply h.setManager
      · exact fun g hg => Manager.isUsed_step (by assumption) hm hg
      · exact fun g hg => h.start g (Manager.starting_step (by rename_i hp _; exact hp true) hm hg)

instance instDecidableMatches (s : Watch) (g : Group) : Decidable (s.Matches g) :=
  inferInstanceAs (Decidable (_ ∈ _))

end Watch

/-- **The event in a used entry is an answer about its service**, in every run in which an event
change is about the service of `viewings_[0]`, too, and no session begins while an event change of
its group waits with another service. -/
theorem viewings_match (tunerResourceMax : ℕ) {s : Watch}
    (h : Machine.Reach Watch.step Watch.AsksOwn (.initial tunerResourceMax) s) (g : Group)
    (hused : s.isUsed g = true) : s.Matches g := by
  have hgood : s.Good := by
    apply h.inv Watch.Good
    · exact Watch.good_initial tunerResourceMax
    · exact fun _ _ _ hs hok hstep => hs.step hok hstep
  exact hgood.shown g hused

/-- A service, and an event of it, for the example runs. -/
def exampleService (i : UInt16) : ServiceNumbers := ⟨1, 2, i⟩

/-- The event `i`. -/
def exampleEvent (i : UInt16) : EventInfo := ⟨i, ⟨i.toNat, 0⟩, ⟨i.toNat + 100, 0⟩, ""⟩

/-- A session of the service is started on the group, during the event. -/
def watchBegin (g : Group) (service event : UInt16) : List WatchOp :=
  [.opened g (exampleService service), .other (.tuned true), .present (exampleEvent event),
    .serviceName true true]

/-- The event changes in the group, and the answer is the event. -/
def watchChanged (g : Group) (event : UInt16) : List WatchOp :=
  [.eventChanged g, .eventAnswer 0 (exampleEvent event)]

/-- Group 0 views service 100; its event changes. -/
theorem viewings_match_changed : ∃ s,
    Machine.exec Watch.step (.initial 2) (watchBegin 0 100 7 ++ watchChanged 0 8) = some s ∧
      s.shown 0 = ⟨exampleService 100, exampleEvent 8⟩ ∧ s.Matches 0 := by
  have hrun : Machine.execOk Watch.step Watch.AsksOwn (.initial 2)
        (watchBegin 0 100 7 ++ watchChanged 0 8) = true ∧
      (Machine.exec Watch.step (.initial 2) (watchBegin 0 100 7 ++ watchChanged 0 8)).map
        (fun s => (s.isUsed 0, s.shown 0)) =
          some (true, ⟨exampleService 100, exampleEvent 8⟩) := by
    decide
  obtain ⟨s, hs, hreach, hvals⟩ := Machine.exists_of_execOk hrun
  obtain ⟨hused, hshown⟩ := Prod.mk.inj hvals
  exact ⟨s, hs, hshown, viewings_match 2 hreach 0 hused⟩

/-- Group 0 views service 100, group 1 service 200; the event of group 1 changes, and the answer is
about service 100. -/
def watchTwo : List WatchOp := watchBegin 0 100 7 ++ watchBegin 1 200 17 ++ watchChanged 1 8

/-- **Not every run keeps the events with their services.** -/
theorem not_viewings_match :
    ¬ ∀ tunerResourceMax s,
      Machine.Reach Watch.step Machine.anyStep (.initial tunerResourceMax) s →
        ∀ g, s.isUsed g = true → s.Matches g := by
  have hrun : (Machine.exec Watch.step (.initial 2) watchTwo).map
      (fun s => (s.isUsed 1, decide (s.Matches 1))) = some (true, false) := by
    decide
  obtain ⟨s, hs, hvals⟩ := Option.map_eq_some_iff.mp hrun
  obtain ⟨hused, hmatch⟩ := Prod.mk.inj hvals
  intro hall
  exact of_decide_eq_false hmatch (hall 2 s (Machine.reach_of_exec hs) 1 hused)

end Viewing

end AutoRec
