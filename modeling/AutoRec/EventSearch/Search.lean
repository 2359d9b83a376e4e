import AutoRec.EventSchedule.Container

/-!
# The keyword search

`on_add_rec_reserve_keyword_search` (`event_search/event_search.cpp`): for each keyword the events
that match it, at most 30 of them; each one that is not over is taken out of the reservations and
put in again. The sequence holds the lock of its module, so that only one is at work. The histories
and the files of the keywords are left out.

* `Search`, with its phases, and `begin`, `onEvents`, `onRemoved`, `onAdded`: from one reply to the
  next request.
* `Search.pending`: the events that have still to be read; `Search.addedEvent`: the one between its
  two requests.
-/

namespace AutoRec

open EventSchedule

/-- What an `on_add_rec_reserve_keyword_search` waits for: `get_events` is to be handled, its reply
with the events lies in the queue, or one of the two requests for the event `e`, with `rest` behind
it. -/
inductive SearchPhase
  | getEvents
  | events (refs : List EventRef)
  | removing (e : EventRef) (rest : List EventRef)
  | adding (e : EventRef) (rest : List EventRef)
deriving DecidableEq, Repr

/-- An `on_add_rec_reserve_keyword_search`, with the keywords from the current one on. -/
structure Search where
  isEx : Bool
  keywords : List String
  phase : SearchPhase
deriving DecidableEq, Repr

namespace Search

/-- `array_max_num`. -/
abbrev eventsMax : ℕ := 30

/-- The loop over the keywords, from a keyword on; `none` is the end of the sequence. -/
def nextKeyword (isEx : Bool) : List String → Option Search
  | [] => none
  | keyword :: keywords => some ⟨isEx, keyword :: keywords, .getEvents⟩

/-- `on_add_rec_reserve_keyword_search`, up to its first request. -/
def begin (isEx : Bool) (keywords : List String) : Option Search := nextKeyword isEx keywords

variable (s : Search)

/-- The loop over the events, from an event on: those that are over are passed by. -/
def nextEvent (now : ℤ) : List EventRef → Option Search
  | [] => nextKeyword s.isEx s.keywords.tail
  | e :: rest =>
    if (Etime.setCurrentTime now).gt e.endTime then nextEvent now rest
    else some { s with phase := .removing e rest }

/-- Behind `get_events`. -/
def onEvents (refs : List EventRef) (now : ℤ) : Option Search :=
  s.nextEvent now (refs.take eventsMax)

/-- Behind `remove_reserve`: the name of the event is read, and it is added. -/
def onRemoved (e : EventRef) (rest : List EventRef) : Search := { s with phase := .adding e rest }

/-- Behind `add_reserve_event`. -/
def onAdded (rest : List EventRef) (now : ℤ) : Option Search := s.nextEvent now rest

/-- The events of which the names have still to be read. -/
def pending : List EventRef :=
  match s.phase with
  | .getEvents => []
  | .events refs => refs
  | .removing e rest => e :: rest
  | .adding _ rest => rest

/-- The event that has been removed, and not added yet. -/
def addedEvent : Option EventRef :=
  match s.phase with
  | .adding e _ => some e
  | .getEvents | .events _ | .removing _ _ => none

variable {s} {s' : Search} {now : ℤ} {refs : List EventRef}

theorem pending_nextKeyword {isEx : Bool} {keywords : List String}
    (h : nextKeyword isEx keywords = some s') : s'.pending = [] := by
  cases keywords with
  | nil => cases h
  | cons keyword keywords =>
    obtain rfl := Option.some.inj h
    rfl

theorem pending_nextEvent (h : s.nextEvent now refs = some s') : s'.pending ⊆ refs := by
  induction refs with
  | nil =>
    rw [nextEvent] at h
    rw [pending_nextKeyword h]
    exact List.nil_subset []
  | cons e rest ih =>
    rw [nextEvent] at h
    split at h
    · exact List.subset_cons_of_subset e (ih h)
    · obtain rfl := Option.some.inj h
      exact List.Subset.refl _

end Search

end AutoRec
