import AutoRec.EventSchedule.Container
import AutoRec.Rec.Table

/-!
# A round of the follow-up

`on_check_reserves_event_loop` from the reply that the schedule is ready to its next pause, with no
other sequence in between: it asks the container for one reserve after the other. The names of the
events come from `char` buffers, so that `c_str ()` gives the whole name.

* `Container.getEventPtr`, `answer`: what `get_event` finds, and what the loop reads of it.
* `Table.round`: the round, as steps of `Table` (`reach_round`).
* `serve_getElem`: what it does to each slot.
* **`round_completes_iff`**: the reserves follow their events, but for those in state `INIT`.
-/

namespace AutoRec

open Slots

/-! ## What the container answers -/

namespace EventSchedule

/-- `container::get_event`: the event that the pointer is to, with its address. -/
def Container.getEventPtr (c : Container) (key : ServiceKey) (eventId : UInt16) :
    Option (ℕ × Event) :=
  (c.schedule key).find? fun p => p.2.key == key && p.2.eventId == eventId

theorem Container.getEvent_eq (c : Container) (key : ServiceKey) (eventId : UInt16) :
    c.getEvent key eventId = (c.getEventPtr key eventId).map EventRef.of := rfl

/-- What the loop reads of the event. -/
def Event.epgEvent (e : Event) : EpgEvent where
  key := ⟨e.key.transportStreamId, e.key.originalNetworkId, e.key.serviceId, e.eventId⟩
  startTime := e.startTime
  endTime := e.endTime
  eventName := e.eventName

end EventSchedule

open EventSchedule (Container)

/-- The service of the key. -/
def Key.serviceKey (k : Key) : EventSchedule.ServiceKey :=
  ⟨k.transportStreamId, k.originalNetworkId, k.serviceId⟩

/-- The reply to the request for the event of the key. -/
def answer (c : Container) (k : Key) : Option EpgEvent :=
  (c.getEventPtr k.serviceKey k.eventId).map fun p => p.2.epgEvent

/-- The reserve after the loop has come by. -/
def followed (c : Container) (r : Reserve) : Reserve :=
  if isFollowed r then
    match answer c r.key with
    | some e => r.follow e
    | none => r
  else r

namespace Table

/-! ## The round -/

/-- The loop takes up one reply after the other. -/
def serve (c : Container) : ℕ → Table → Table
  | 0, s => s
  | n + 1, s =>
    match s.followUp with
    | .event i key => serve c n (s.onEvent i key (answer c key))
    | .paused | .scheduleState => s

/-- The round, from the reply that the schedule is ready. -/
def round (c : Container) (s : Table) : Table :=
  serve c reserveNumMax { s with followUp := nextRequest s.mgr.reserves 0 }

variable {s : Table} {c : Container}

theorem serve_exec (n : ℕ) (s : Table) : ∃ ops, Machine.exec next s ops = some (serve c n s) := by
  induction n generalizing s with
  | zero => exact ⟨[], rfl⟩
  | succ n ih =>
    unfold serve
    split
    · rename_i i key hf
      obtain ⟨ops, hops⟩ := ih (s.onEvent i key (answer c key))
      refine ⟨.event (answer c key) :: ops, ?_⟩
      have hn : next s (.event (answer c key)) = some (s.onEvent i key (answer c key)) := by
        simp only [next, hf]
      rw [Machine.exec, hn]
      exact hops
    · exact ⟨[], rfl⟩
    · exact ⟨[], rfl⟩

theorem round_exec (hs : s.followUp = .scheduleState) :
    ∃ ops, Machine.exec next s (.scheduleState true :: ops) = some (round c s) := by
  obtain ⟨ops, hops⟩ := serve_exec (c := c) reserveNumMax
    { s with followUp := nextRequest s.mgr.reserves 0 }
  refine ⟨ops, ?_⟩
  have hn : next s (.scheduleState true) =
      some { s with followUp := nextRequest s.mgr.reserves 0 } := by
    simp only [next, hs, if_true]
  rw [Machine.exec, hn]
  exact hops

/-- **One turn**: the slot holds what `followed` makes of it. -/
theorem onEvent_followed {i : Fin reserveNumMax} {key : Key}
    (hi : isFollowed s.mgr.reserves[i] = true) (hkey : s.mgr.reserves[i].key = key) :
    (s.onEvent i key (answer c key)).mgr.reserves =
      s.mgr.reserves.set i (followed c s.mgr.reserves[i]) i.isLt := by
  have hf : followed c s.mgr.reserves[i] =
      match answer c key with
      | some e => s.mgr.reserves[i].follow e
      | none => s.mgr.reserves[i] := by
    rw [followed, if_pos hi, hkey]
  rw [hf]
  rcases answer c key with _ | e
  · show s.mgr.reserves = _
    rw [getElem_slot, Vector.set_getElem_self]
  · exact onEvent_reserves i key e

/-- **All the turns**, from slot `n` on: the loop comes to its pause, and each slot from there on
holds what `followed` makes of it. -/
theorem serve_getElem (fuel : ℕ) {n : ℕ} {s : Table}
    (hs : s.followUp = nextRequest s.mgr.reserves n) (hfuel : reserveNumMax ≤ n + fuel) :
    (serve c fuel s).followUp = .paused ∧ ∀ k (hk : k < reserveNumMax),
      (serve c fuel s).mgr.reserves[k] =
        if n ≤ k then followed c s.mgr.reserves[k] else s.mgr.reserves[k] := by
  -- what is not asked for is left as it is
  have hskip : ∀ r, isFollowed r = false → followed c r = r := fun r hr => by
    rw [followed, if_neg (by simp [hr])]
  induction fuel generalizing n s with
  | zero =>
    have hn : firstFrom isFollowed s.mgr.reserves n = none :=
      firstFrom_eq_none_iff.mpr fun j hj hnj => by omega
    rw [nextRequest, hn] at hs
    refine ⟨hs, fun k hk => ?_⟩
    rw [if_neg (by omega)]
    rfl
  | succ fuel ih =>
    rcases hn : firstFrom isFollowed s.mgr.reserves n with _ | i
    · rw [nextRequest, hn] at hs
      have hserve : serve c (fuel + 1) s = s := by rw [serve, hs]
      rw [hserve]
      refine ⟨hs, fun k hk => ?_⟩
      split_ifs with hnk
      · rw [hskip _ (firstFrom_none hn k hk hnk)]
      · rfl
    · obtain ⟨hni, hi, hbelow⟩ := firstFrom_some hn
      rw [nextRequest, hn] at hs
      have hserve : serve c (fuel + 1) s = serve c fuel
          (s.onEvent i s.mgr.reserves[i].key (answer c s.mgr.reserves[i].key)) := by
        rw [serve, hs]
      have hv := onEvent_followed (c := c) hi rfl
      have hnext := ih (n := i + 1)
        (s := s.onEvent i s.mgr.reserves[i].key (answer c s.mgr.reserves[i].key)) rfl (by omega)
      rw [hserve]
      refine ⟨hnext.1, fun k hk => ?_⟩
      rw [hnext.2 k hk]
      simp only [hv, Vector.getElem_set]
      rcases Nat.lt_trichotomy k i with hki | hki | hki
      · rw [if_neg (by omega), if_neg (by omega)]
        split_ifs with hnk
        · exact (hskip _ (hbelow ⟨k, hk⟩ hki hnk)).symm
        · rfl
      · subst hki
        rw [if_neg (by omega), if_pos rfl, if_pos hni]
        rfl
      · rw [if_pos (by omega), if_neg (by omega), if_pos (by omega)]

/-- **A round**: the loop pauses again, and each slot holds what `followed` makes of it. -/
theorem round_getElem (c : Container) (s : Table) :
    (round c s).followUp = .paused ∧ ∀ k (hk : k < reserveNumMax),
      (round c s).mgr.reserves[k] = followed c s.mgr.reserves[k] := by
  have h := serve_getElem (c := c) reserveNumMax (n := 0)
    (s := { s with followUp := nextRequest s.mgr.reserves 0 }) rfl (by omega)
  refine ⟨h.1, fun k hk => ?_⟩
  have hk' := h.2 k hk
  rwa [if_pos (Nat.zero_le k)] at hk'

end Table

/-! ## What a round completes -/

/-- The reserve has the times and the name of the event. -/
def Reserve.Has (r : Reserve) (e : EpgEvent) : Prop :=
  r.startTime = e.startTime ∧ r.endTime = e.endTime ∧ r.titleName = e.eventName

/-- A used reserve for an event. -/
def isEventReserve (r : Reserve) : Bool := r.isUsed && r.isEventType

namespace Table

/-- **A complete follow-up**: every used reserve for an event that is in the container has the times
and the name of the event; every other reserve is as it was. -/
def Completes (c : Container) (v w : Vector Reserve reserveNumMax) : Prop :=
  ∀ k (hk : k < reserveNumMax),
    (∀ e, isEventReserve v[k] = true → answer c v[k].key = some e → w[k].Has e) ∧
      (isEventReserve v[k] = false ∨ answer c v[k].key = none → w[k] = v[k])

/-- **The condition**: a used reserve for an event that is in state `INIT` has the times and the
name already. -/
def InitIsCurrent (c : Container) (v : Vector Reserve reserveNumMax) : Prop :=
  ∀ k (hk : k < reserveNumMax) e, isEventReserve v[k] = true → v[k].state = .init →
    answer c v[k].key = some e → v[k].Has e

theorem followed_has {c : Container} {r : Reserve} {e : EpgEvent} (hr : isEventReserve r = true)
    (he : answer c r.key = some e) : (followed c r).Has e ↔ (r.state = .init → r.Has e) := by
  obtain ⟨hu, ht⟩ := Bool.and_eq_true_iff.mp hr
  by_cases hs : r.state = .init
  · have hf : isFollowed r = false := by simp [isFollowed, hs]
    rw [followed, if_neg (by simp [hf])]
    exact ⟨fun h _ => h, fun h => h hs⟩
  · have hf : isFollowed r = true := by simp [isFollowed, hu, ht, hs]
    rw [followed, if_pos hf, he]
    exact ⟨fun _ h => absurd h hs, fun _ => ⟨rfl, rfl, rfl⟩⟩

theorem followed_eq_self {c : Container} {r : Reserve}
    (h : isEventReserve r = false ∨ answer c r.key = none) : followed c r = r := by
  unfold followed
  split_ifs with hf
  · have hr : isEventReserve r = true := by
      simp only [isFollowed, Bool.and_eq_true] at hf
      rw [isEventReserve, hf.1.1, hf.2]
      rfl
    rcases h with h | h
    · rw [hr] at h
      cases h
    · rw [h]
  · rfl

theorem completes_round_iff (c : Container) (s : Table) :
    Completes c s.mgr.reserves (round c s).mgr.reserves ↔ InitIsCurrent c s.mgr.reserves := by
  have hround := (round_getElem c s).2
  constructor
  · intro h k hk e hr hs he
    have hhas := (h k hk).1 e hr he
    rw [hround k hk] at hhas
    exact (followed_has hr he).mp hhas hs
  · intro h k hk
    rw [hround k hk]
    exact ⟨fun e hr he => (followed_has hr he).mpr fun hs => h k hk e hr hs he, followed_eq_self⟩

/-- Event 7 is reserved, as it is in the schedule; the loop waits for the state of the schedule. -/
def initRun : List TableOp := [exampleAdd (exampleEvent 7 100 200), .timeout]

/-- A container with event 7 put off by 50 seconds. -/
def putOff : Container :=
  ⟨[(⟨1, 2, 3⟩, [(0, ⟨⟨1, 2, 3⟩, 7, ⟨150, 0⟩, ⟨250, 0⟩, "", "", []⟩)])], 1⟩

theorem initRun_round :
    (Machine.exec next (initial .oneTuner) initRun).map (fun s =>
      (isEventReserve s.mgr.reserves[0], s.mgr.reserves[0].key,
        (round putOff s).mgr.reserves[0].startTime)) =
      some (true, ⟨1, 2, 3, 7⟩, ⟨100, 0⟩) := by
  decide

/-- **An untouched reserve is not followed up**: it is in state `INIT`. -/
theorem not_completes_round :
    ¬ ∀ c s, Machine.Reach next Machine.anyStep (initial .oneTuner) s →
      s.followUp = .scheduleState → Completes c s.mgr.reserves (round c s).mgr.reserves := by
  intro h
  obtain ⟨s, hs, he⟩ := Option.map_eq_some_iff.mp initRun_round
  obtain ⟨hr, hkey, hstart⟩ : isEventReserve s.mgr.reserves[0] = true ∧
      s.mgr.reserves[0].key = ⟨1, 2, 3, 7⟩ ∧
      (round putOff s).mgr.reserves[0].startTime = ⟨100, 0⟩ := by
    simpa only [Prod.mk.injEq] using he
  have hf : s.followUp = .scheduleState := by
    obtain rfl := Option.some.inj hs
    rfl
  have hans : answer putOff s.mgr.reserves[0].key =
      some ⟨⟨1, 2, 3, 7⟩, ⟨150, 0⟩, ⟨250, 0⟩, ""⟩ := by
    rw [hkey]
    rfl
  have hhas := (h putOff s (Machine.reach_of_exec hs) hf 0 (by decide)).1 _ hr hans
  have hput : (round putOff s).mgr.reserves[0].startTime = ⟨150, 0⟩ := hhas.1
  rw [hstart] at hput
  exact absurd hput (by decide)

/-- **The follow-up of one round is complete** if and only if no reserve in state `INIT` is behind
its event. -/
theorem round_completes_iff (c : Container) (s : Table) (hs : s.followUp = .scheduleState) :
    (∃ ops, Machine.exec next s (.scheduleState true :: ops) = some (round c s)) ∧
      (round c s).followUp = .paused ∧
      (Completes c s.mgr.reserves (round c s).mgr.reserves ↔ InitIsCurrent c s.mgr.reserves) :=
  ⟨round_exec hs, (round_getElem c s).1, completes_round_iff c s⟩

theorem round_completes_iff_initRun : ∃ s,
    Machine.exec next (initial .oneTuner) initRun = some s ∧ s.followUp = .scheduleState ∧
      (Completes putOff s.mgr.reserves (round putOff s).mgr.reserves ↔
        InitIsCurrent putOff s.mgr.reserves) := by
  obtain ⟨s, hs, -⟩ := Option.map_eq_some_iff.mp initRun_round
  have hf : s.followUp = .scheduleState := by
    obtain rfl := Option.some.inj hs
    rfl
  exact ⟨s, hs, hf, (round_completes_iff putOff s hf).2.2⟩

end Table

end AutoRec
