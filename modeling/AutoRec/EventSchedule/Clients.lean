import AutoRec.EventSchedule.BatchRuns
import AutoRec.EventSearch.Search

/-!
# The events in the hands of other modules

`get_event` and `get_events` hand out the addresses of the name and the text of an event. The
recording manager and the keyword search read the name (nobody reads the text) when they have got
the reply to a further request or, at the earliest, when they take up the reply to this one; each
module runs on a thread of its own.

* `Clients`: the event schedule manager, what the others have been given, and a record of what they
  have read, and whether it was still stored.
* `Clients.KeepsRead`: the cache is not written over an event that somebody has still to read.
* **`reads_reach`**: what is read is stored.
* `not_reads`: a service is cached again while a reserve is made of one of its events.
-/

namespace AutoRec

namespace EventSchedule

/-- The manager; `refs` are the events that sequences of the recording manager have been given and
have still to read. -/
structure Clients where
  m : Manager
  refs : List EventRef
  search : Option Search
  reads : List (ℕ × Bool)

/-- The steps. -/
inductive ClientOp
  | manager (op : Op)
  /-- `on_get_event`, for `on_add_reserve_event` or `on_check_reserves_event_loop`. -/
  | getEvent (key : ServiceKey) (eventId : UInt16)
  /-- `on_get_event_latest_dumped_schedule`, for `on_add_reserve_event_helper`. -/
  | getEventLatestDumped (index : ℤ)
  /-- One of these goes on to where it reads the name. -/
  | read (j : ℕ)
  | search (isEx : Bool) (keywords : List String)
  /-- `on_get_events_keyword_search`. -/
  | getEvents
  | searchEvents (now : ℤ)
  | searchRemoved
  | searchAdded (now : ℤ)

namespace Clients

variable (s : Clients)

/-- The name of an event is read. -/
def readEvent (e : EventRef) : Clients :=
  { s with reads := s.reads ++ [(e.addr, s.m.container.isStored e.addr)] }

/-- A step. -/
def step : ClientOp → Option Clients
  | .manager op => (s.m.step op).map fun m' => { s with m := m' }
  | .getEvent key eventId =>
    some { s with refs := s.refs ++ (s.m.container.getEvent key eventId).toList }
  | .getEventLatestDumped index =>
    some { s with refs := s.refs ++ (s.m.container.getEventAt s.m.latestDumpedKey index).toList }
  | .read j => s.refs[j]?.map fun e => { s.readEvent e with refs := s.refs.eraseIdx j }
  | .search isEx keywords =>
    if s.search.isSome then none else some { s with search := Search.begin isEx keywords }
  | .getEvents =>
    match s.search with
    | some ⟨isEx, keyword :: keywords, .getEvents⟩ =>
      some { s with search := some ⟨isEx, keyword :: keywords,
        .events (s.m.container.getEvents keyword Search.eventsMax isEx)⟩ }
    | _ => none
  | .searchEvents now =>
    match s.search with
    | some ⟨isEx, keywords, .events refs⟩ =>
      some { s with search := Search.onEvents ⟨isEx, keywords, .events refs⟩ refs now }
    | _ => none
  | .searchRemoved =>
    match s.search with
    | some ⟨isEx, keywords, .removing e rest⟩ =>
      some { s.readEvent e with
        search := some (Search.onRemoved ⟨isEx, keywords, .removing e rest⟩ e rest) }
    | _ => none
  | .searchAdded now =>
    match s.search with
    | some ⟨isEx, keywords, .adding e rest⟩ =>
      some { s with search := Search.onAdded ⟨isEx, keywords, .adding e rest⟩ rest now }
    | _ => none

/-- The events that have still to be read. -/
def held : List EventRef := s.refs ++ (s.search.map Search.pending).getD []

/-- The services for which a step writes the cache. -/
def written : ClientOp → List ServiceKey
  | .manager (.exec k (.disabled ok tables) _) =>
    (s.m.execs[k]?.toList.filter fun x => x.endsDisabling ok).flatMap fun x =>
      x.serviceInfos.filter fun key => Manager.cacheSchedule tables key != []
  | _ => []

/-- **The condition on a step.** -/
def KeepsRead (op : ClientOp) : Prop :=
  ∀ key ∈ s.written op, ∀ e ∈ s.held, ¬ s.m.container.Holds key e.addr

instance instDecidableKeepsRead (op : ClientOp) : Decidable (s.KeepsRead op) :=
  inferInstanceAs (Decidable (∀ key ∈ s.written op, ∀ e ∈ s.held, ¬ s.m.container.Holds key e.addr))

/-! ## The events that are held -/

/-- What is held is stored, and so was what has been read. -/
structure Kept (s : Clients) : Prop where
  held : ∀ e ∈ s.held, ∃ key, s.m.container.Holds key e.addr
  reads : ∀ r ∈ s.reads, r.2 = true

variable {s} {s' : Clients} {m' : Manager}

theorem mem_held {e : EventRef} :
    e ∈ s.held ↔ e ∈ s.refs ∨ ∃ search, s.search = some search ∧ e ∈ search.pending := by
  rw [held, List.mem_append]
  rcases s.search with _ | search
  · simp
  · simp

theorem holds_cacheService {tables : ServiceKey → List Event} {c : Container}
    {key key' : ServiceKey} {addr : ℕ} (h : c.Holds key addr)
    (hkey : Manager.cacheSchedule tables key' ≠ [] → key ≠ key') :
    (Manager.cacheService tables c key').Holds key addr := by
  unfold Manager.cacheService
  split
  · exact h
  · rename_i hne
    split
    · exact (h.deleteScheduleMap (hkey hne)).addScheduleMap key' _
    · exact h.addScheduleMap key' _

theorem holds_foldl_cacheService {tables : ServiceKey → List Event} {keys : List ServiceKey}
    {c : Container} {key : ServiceKey} {addr : ℕ} (h : c.Holds key addr)
    (hkeys : ∀ key' ∈ keys, Manager.cacheSchedule tables key' ≠ [] → key ≠ key') :
    (keys.foldl (Manager.cacheService tables) c).Holds key addr := by
  induction keys generalizing c with
  | nil => exact h
  | cons key' keys ih =>
    have hfirst := holds_cacheService h (hkeys key' List.mem_cons_self)
    exact ih hfirst fun k hk => hkeys k (List.mem_cons_of_mem key' hk)

theorem Kept.manager {op : Op} (h : s.Kept) (hok : s.KeepsRead (.manager op))
    (hstep : s.m.step op = some m') : ({ s with m := m' } : Clients).Kept := by
  refine ⟨fun e he => ?_, h.reads⟩
  have he : e ∈ s.held := he
  obtain ⟨key, hkey⟩ := h.held e he
  rcases Manager.step_container hstep with heq | ⟨k, x, ok, tables, now, rfl, hx, hends, heq⟩
  · exact ⟨key, by rw [heq]; exact hkey⟩
  · refine ⟨key, ?_⟩
    rw [heq]
    apply holds_foldl_cacheService hkey
    rintro key' hkey' hne rfl
    apply hok key _ e he hkey
    refine List.mem_flatMap.mpr ⟨x, ?_, List.mem_filter.mpr ⟨hkey', bne_iff_ne.mpr hne⟩⟩
    exact List.mem_filter.mpr ⟨Option.mem_toList.mpr hx, hends⟩

theorem Kept.readEvent {e : EventRef} (h : s.Kept) (he : e ∈ s.held) : (s.readEvent e).Kept := by
  refine ⟨h.held, fun r hr => ?_⟩
  rcases List.mem_append.mp hr with hr | hr
  · exact h.reads r hr
  · obtain rfl := List.mem_singleton.mp hr
    obtain ⟨key, hkey⟩ := h.held e he
    exact hkey.isStored

theorem Kept.of_held (h : s.Kept) {refs : List EventRef} {search : Option Search}
    (hrefs : ∀ e ∈ refs, e ∈ s.held ∨ ∃ key, s.m.container.Holds key e.addr)
    (hsearch : ∀ x, search = some x → ∀ e ∈ x.pending,
      e ∈ s.held ∨ ∃ key, s.m.container.Holds key e.addr) :
    ({ s with refs := refs, search := search } : Clients).Kept := by
  refine ⟨fun e he => ?_, h.reads⟩
  have hcases : e ∈ s.held ∨ ∃ key, s.m.container.Holds key e.addr := by
    rcases mem_held.mp he with he | ⟨x, hx, he⟩
    · exact hrefs e he
    · exact hsearch x hx e he
  rcases hcases with he | hkey
  · exact h.held e he
  · exact hkey

theorem Kept.nextEvent (h : s.Kept) {x : Search} {now : ℤ} {refs : List EventRef}
    (hrefs : ∀ e ∈ refs, e ∈ s.held) :
    ({ s with search := x.nextEvent now refs } : Clients).Kept := by
  apply h.of_held
  · exact fun e he => .inl (mem_held.mpr (.inl he))
  · exact fun y hy e he => .inl (hrefs e (Search.pending_nextEvent hy he))

/-- **A step keeps what is held.** -/
theorem Kept.step {op : ClientOp} (h : s.Kept) (hok : s.KeepsRead op)
    (hstep : s.step op = some s') : s'.Kept := by
  have hrefs : ∀ e ∈ s.refs, e ∈ s.held := fun e he => mem_held.mpr (.inl he)
  have hpending : ∀ x, s.search = some x → ∀ e ∈ x.pending, e ∈ s.held :=
    fun x hx e he => mem_held.mpr (.inr ⟨x, hx, he⟩)
  cases op with
  | manager op =>
    obtain ⟨m', hm', rfl⟩ := Option.map_eq_some_iff.mp hstep
    exact h.manager hok hm'
  | getEvent key eventId =>
    obtain rfl := Option.some.inj hstep
    refine h.of_held (fun e he => ?_) fun x hx e he => .inl (hpending x hx e he)
    rcases List.mem_append.mp he with he | he
    · exact .inl (hrefs e he)
    · exact .inr ⟨key, Container.holds_getEvent (Option.mem_toList.mp he)⟩
  | getEventLatestDumped index =>
    obtain rfl := Option.some.inj hstep
    refine h.of_held (fun e he => ?_) fun x hx e he => .inl (hpending x hx e he)
    rcases List.mem_append.mp he with he | he
    · exact .inl (hrefs e he)
    · exact .inr ⟨_, Container.holds_getEventAt (Option.mem_toList.mp he)⟩
  | read j =>
    obtain ⟨e, he, rfl⟩ := Option.map_eq_some_iff.mp hstep
    have hread := h.readEvent (hrefs e (List.mem_of_getElem? he))
    apply hread.of_held
    · exact fun e he => .inl (hrefs e (List.mem_of_mem_eraseIdx he))
    · exact fun x hx e he => .inl (hpending x hx e he)
  | search isEx keywords =>
    simp only [Clients.step] at hstep
    split at hstep
    · cases hstep
    · obtain rfl := Option.some.inj hstep
      refine h.of_held (fun e he => .inl (hrefs e he)) fun x hx e he => ?_
      rw [Search.pending_nextKeyword hx] at he
      exact absurd he List.not_mem_nil
  | getEvents =>
    simp only [Clients.step] at hstep
    split at hstep
    · obtain rfl := Option.some.inj hstep
      refine h.of_held (fun e he => .inl (hrefs e he)) fun x hx e he => ?_
      obtain rfl := Option.some.inj hx
      exact .inr (Container.holds_getEvents he)
    · cases hstep
  | searchEvents now =>
    simp only [Clients.step] at hstep
    split at hstep
    · rename_i isEx keywords refs hsearch
      obtain rfl := Option.some.inj hstep
      exact h.nextEvent fun e he => hpending _ hsearch e (List.mem_of_mem_take he)
    · cases hstep
  | searchRemoved =>
    simp only [Clients.step] at hstep
    split at hstep
    · rename_i isEx keywords e rest hsearch
      obtain rfl := Option.some.inj hstep
      have hread := h.readEvent (hpending _ hsearch e List.mem_cons_self)
      refine hread.of_held (fun e he => .inl (hrefs e he)) fun x hx e' he => ?_
      obtain rfl := Option.some.inj hx
      exact .inl (hpending _ hsearch e' (List.mem_cons_of_mem e he))
    · cases hstep
  | searchAdded now =>
    simp only [Clients.step] at hstep
    split at hstep
    · rename_i isEx keywords e rest hsearch
      obtain rfl := Option.some.inj hstep
      exact h.nextEvent fun e he => hpending _ hsearch e he
    · cases hstep

end Clients

/-! ## Runs -/

/-- The manager after `on_module_up`, and nobody has been given an event. -/
def Clients.initial (settings : Settings) (container : Container) (today : Etime) : Clients :=
  ⟨.initial settings container today, [], none, []⟩

/-- **Every event that is read is stored**, in every run in which no execution replaces the events
of a service while an event of that service has still to be read. -/
theorem reads_reach (settings : Settings) (container : Container) (today : Etime) {s : Clients}
    (h : Machine.Reach Clients.step Clients.KeepsRead (.initial settings container today) s) :
    ∀ r ∈ s.reads, r.2 = true := by
  have hkept : s.Kept := by
    apply h.inv Clients.Kept
    · exact ⟨fun e he => absurd he List.not_mem_nil, fun r hr => absurd hr List.not_mem_nil⟩
    · exact fun _ _ _ hs hok hstep => hs.step hok hstep
  exact hkept.reads

/-- A programme of one hour. -/
def eventExample : Event := ⟨⟨1, 4, 101⟩, 7, ⟨7200, 0⟩, ⟨10800, 0⟩, "news", "today", []⟩

/-- Its service is stored. -/
def clientsExample : Clients :=
  .initial settingsExample ⟨[(⟨1, 4, 101⟩, [(0, eventExample)])], 1⟩ ⟨86400, 0⟩

/-- The channel of the service is cached, up to the last reply. -/
def cacheAgain : List ClientOp :=
  [.manager (.cacheSchedule 0), .manager (.addReserves 0 (some [⟨1, 4, 101⟩])),
    .manager (.checkLoop .clear 5), .manager (.exec 0 .start 6), .manager (.exec 0 .streamName 6),
    .manager (.exec 0 (.opened (some 0)) 7), .manager (.exec 0 (.physicalCh true) 7),
    .manager (.exec 0 (.tuned true) 8), .manager (.exec 0 (.serviceInfos (some [⟨1, 4, 101⟩])) 8),
    .manager (.exec 0 (.enabled true) 8), .manager (.parserNotice 9), .manager (.exec 0 .wake 20)]

/-- The tables have the same programme again. -/
def cacheEnds : ClientOp := .manager (.exec 0 (.disabled true fun _ => [eventExample]) 21)

/-- The name is read before the schedule is written, and after. -/
def readBefore : List ClientOp :=
  cacheAgain ++ [.getEvent ⟨1, 4, 101⟩ 7, .read 0, cacheEnds, .getEvent ⟨1, 4, 101⟩ 7, .read 0]

/-- Two events are read, each of them while it is stored. -/
theorem reads_reach_two : ∃ s, Machine.exec Clients.step clientsExample readBefore = some s ∧
    s.reads.map Prod.fst = [0, 1] ∧ ∀ r ∈ s.reads, r.2 = true := by
  have hrun : Machine.execOk Clients.step Clients.KeepsRead clientsExample readBefore = true ∧
      (Machine.exec Clients.step clientsExample readBefore).map
        (fun s => s.reads.map Prod.fst) = some [0, 1] := by
    decide
  obtain ⟨s, hs, hreach, hreads⟩ := Machine.exists_of_execOk hrun
  exact ⟨s, hs, hreads,
    reads_reach settingsExample ⟨[(⟨1, 4, 101⟩, [(0, eventExample)])], 1⟩ ⟨86400, 0⟩ hreach⟩

/-- A reserve is requested while the schedule is cached. -/
def readAfter : List ClientOp :=
  cacheAgain ++ ([.getEvent ⟨1, 4, 101⟩ 7, cacheEnds, .read 0] : List ClientOp)

/-- When the recording manager reads the name, the event has been deleted. -/
theorem not_reads : ∃ s, Machine.exec Clients.step clientsExample readAfter = some s ∧
    s.reads = [(0, false)] ∧ ¬ ∀ r ∈ s.reads, r.2 = true := by
  have hrun : (Machine.exec Clients.step clientsExample readAfter).map Clients.reads =
      some [(0, false)] := by
    decide
  obtain ⟨s, hs, hreads⟩ := Option.map_eq_some_iff.mp hrun
  refine ⟨s, hs, hreads, fun hall => ?_⟩
  rw [hreads] at hall
  exact absurd (hall (0, false) List.mem_cons_self) (by decide)

end EventSchedule

end AutoRec
