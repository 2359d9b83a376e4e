import AutoRec.Rec.SysInv

/-!
# Event tracking

When another event than the one to be recorded is on the air, `on_start_recording` has the guide
read again and asks its own module to reserve the event anew. The request is meant to be known by
the sequence it comes from, but the index the coroutine library hands over is that of the sequence
that was started. So it is taken for a request to reserve what is being recorded.

* `Trackable`: the event is there and can be reserved.
* `Readded`: what is meant to happen; `Untracked`: what happens.
* `not_readded`, `not_forall_readded`.
-/

namespace AutoRec

/-- Where `on_start_recording` asks for its inner `add_reserve_event`. -/
def CheckLoop.readd : CheckLoop → Option (Group × AddReserveParam)
  | .starting g (.add param) _ => some (g, param)
  | _ => none

theorem CheckLoop.readd_eq_some {c : CheckLoop} {g : Group} {param : AddReserveParam}
    (h : c.readd = some (g, param)) : ∃ done, c = .starting g (.add param) done := by
  unfold CheckLoop.readd at h
  split at h
  · cases h
    exact ⟨_, rfl⟩
  · cases h

namespace Sys

variable {s t : Sys} {l : Label} {settings : Settings} {P : Reserve → Prop} {g : Group}
  {param : AddReserveParam} {e : EpgEvent}

/-- The event the inner `add_reserve_event` is to reserve can be reserved: its reserve is not a
repeated one, the guide has the event with a start before its end, and there is room and no reserve
for it. -/
structure Trackable (m : RecManager) (param : AddReserveParam) (e : EpgEvent) : Prop where
  repeatability : param.repeatability = .none ∨ param.repeatability = .auto
  key : e.key = param.key
  times : e.startTime.lt e.endTime = true
  free : m.isExistEmptyReserve = true
  fresh : ∀ i : Fin reserveNumMax, m.reserves[i].isUsed = true → m.reserves[i].key ≠ e.key

/-- **The event is reserved anew**, at the time the guide says. -/
def Readded (e : EpgEvent) (m : RecManager) : Prop :=
  ∃ i : Fin reserveNumMax, m.reserves[i].isUsed = true ∧ m.reserves[i].key = e.key ∧
    m.reserves[i].startTime = e.startTime ∧ m.reserves[i].endTime = e.endTime ∧
    Flag.has m.reserves[i].state ReserveState.rescheduled = true

/-- The inner request has been refused; once `on_start_recording` has replied, that has been put
down as the result. -/
def Untracked (g : Group) (s : Sys) : Prop :=
  s.checkLoop = .starting g (.added false) ⟨[], []⟩ ∨
    ∃ r, s.checkLoop = .starting g (.replied .readdErr) ⟨[r], tunerStopClose⟩ ∧
      Flag.has r.state ReserveState.endError = true

/-- The inner request is refused: it does not come from `START_RECORDING`, and its key is being
recorded. -/
theorem onAdd_refused {m : RecManager} {r : Reserve} (name : Option String)
    (hg : m.recordings[g].isUsed = true) (hr : m.recordings[g].key = e.key) :
    m.onAdd (.event innerSource (readdParam r) (some e) name) = (false, m) := by
  unfold RecManager.onAdd
  split
  · rename_i a b hc
    dsimp only [AddRequest.call, onAddReserveEvent] at hc
    split_ifs at hc
    obtain ⟨rfl, rfl⟩ := Prod.mk.inj (Option.some.inj hc)
    refine m.addReserve_of_refused ?_
    rcases hacc : m.addAccepted (e.setArgs name (readdParam r).repeatability)
        (isRescheduled innerSource) with _ | _
    · rfl
    · exact absurd hr (m.addAccepted_not_recording hacc g g.2 hg)
  · rfl

/-- **The inner request** leaves the table as it is. -/
theorem next_untracked {done : StartRecord} {name : Option String} (hI : SysInv P settings s)
    (hcl : s.checkLoop = .starting g (.add param) done) (htr : Trackable s.mgr param e)
    (h : next s (.start (.addEvent (some e) name)) = some t) : t.mgr = s.mgr ∧ Untracked g t := by
  obtain ⟨hu, rfl, rfl⟩ := hI.stage g _ done hcl
  have hs := (next_step h).2
  simp only [step, hcl, startNext, Option.map_some, Option.some.injEq] at hs
  subst hs
  have href := onAdd_refused (r := s.mgr.recordings[g]) name hu htr.key.symm
  refine ⟨?_, .inl ?_⟩
  · simp only [startStep, href]
    rfl
  · simp only [startStep, href]

/-- Nothing but the check loop itself gets over the refusal. -/
theorem next_untracked_of_ne (h : Untracked g s) (hl : l ≠ .started) (hn : next s l = some t) :
    Untracked g t := by
  cases step_loop (next_step hn).2 with
  | other hsame _ => rwa [Untracked, hsame]
  | turn hno _ _ =>
    rcases h with h | ⟨r, h, -⟩ <;> exact absurd h (hno.resolve_left hl _ _ _)
  | picked ho _ _ _ =>
    rcases h with h | ⟨r, h, -⟩ <;> rw [ho] at h <;> cases h
  | @start c stage done i o hcl ho =>
    rcases h with h | ⟨r, h, -⟩ <;> rw [hcl] at h <;> cases h
    · cases i with
      | added =>
        obtain rfl := Option.some.inj ho
        refine .inr ⟨_, rfl, ?_⟩
        rw [Reserve.mark_state, Flag.has_or]
        exact Bool.or_eq_true_iff.mpr (.inr rfl)
      | enter | channel | tuned | present | presentTimeout | forced | addEvent => cases ho
    · cases i <;> cases ho

/-- **No event is reserved anew**, in no run: what the inner request is for is refused, and until
`on_start_recording` has been left that ends in an error that is stored. -/
theorem not_readded {ok : Sys → Label → Prop} {done : StartRecord} {name : Option String}
    (h : Machine.Reach next ok (initial settings) s)
    (hcl : s.checkLoop = .starting g (.add param) done) (htr : Trackable s.mgr param e)
    (hn : next s (.start (.addEvent (some e) name)) = some t) :
    ¬ Readded e t.mgr ∧ ∀ u exit done', Machine.Reach next (fun _ l => l ≠ .started) t u →
      u.checkLoop = .starting g (.replied exit) done' →
        ∃ r ∈ done'.results, Flag.has r.state ReserveState.endError = true := by
  obtain ⟨hm, hun⟩ := next_untracked (reach_sysInv h) hcl htr hn
  constructor
  · rintro ⟨i, hu, hkey, -⟩
    rw [hm] at hu hkey
    exact htr.fresh i hu hkey
  · intro u exit done' hr hcu
    rcases hr.inv (Untracked g) hun (fun _ _ _ h hl hn => next_untracked_of_ne h hl hn) with
    hu | ⟨r, hu, hr⟩
    · rw [hu] at hcu
      cases hcu
    · rw [hu] at hcu
      cases hcu
      exact ⟨r, List.mem_singleton_self r, hr⟩

/-- Event 7 is due, but event 6 is still on the air; the guide has been read again. -/
def trackRun : List Label :=
  dueRun ++ ([.opened (some 0), .start (.enter 2000), .start (.channel (some 27)),
    .start (.tuned true 100), .start (.present (some 6) 100), .start (.forced true)] : List Label)

/-- Event 7 has been put off to 150. -/
def lateEvent : EpgEvent := Table.exampleEvent 7 150 250

/-- What the inner request of event 7 asks for. -/
def lateParam : AddReserveParam := ⟨⟨1, 2, 3, 7⟩, Etime.clear, Etime.clear, .none⟩

set_option maxRecDepth 2000 in
theorem trackRun_readd :
    (Machine.exec next (initial .oneTuner) trackRun).map (fun s => (s.checkLoop.readd,
      s.mgr.isExistEmptyReserve && decide (∀ i : Fin reserveNumMax,
        s.mgr.reserves[i].isUsed = true → s.mgr.reserves[i].key ≠ lateEvent.key),
      (next s (.start (.addEvent (some lateEvent) none))).isSome)) =
        some (some (0, lateParam), true, true) := by
  decide

theorem exists_trackable : ∃ s done t, Machine.Reach next Machine.anyStep (initial .oneTuner) s ∧
    s.checkLoop = .starting 0 (.add lateParam) done ∧ Trackable s.mgr lateParam lateEvent ∧
    next s (.start (.addEvent (some lateEvent) none)) = some t := by
  obtain ⟨s, hs, hv⟩ := Option.map_eq_some_iff.mp trackRun_readd
  simp only [Prod.mk.injEq, Bool.and_eq_true, decide_eq_true_eq] at hv
  obtain ⟨hcl, ⟨hfree, hfresh⟩, hnext⟩ := hv
  obtain ⟨done, hcl⟩ := CheckLoop.readd_eq_some hcl
  obtain ⟨t, ht⟩ := Option.isSome_iff_exists.mp hnext
  exact ⟨s, done, t, Machine.reach_of_exec hs, hcl,
    ⟨.inl rfl, rfl, by decide, hfree, hfresh⟩, ht⟩

theorem not_readded_trackRun : ∃ s t,
    Machine.Reach next Machine.anyStep (initial .oneTuner) s ∧
      next s (.start (.addEvent (some lateEvent) none)) = some t ∧ ¬ Readded lateEvent t.mgr := by
  obtain ⟨s, done, t, hr, hcl, htr, ht⟩ := exists_trackable
  exact ⟨s, t, hr, ht, (not_readded hr hcl htr ht).1⟩

/-- **Not every event that can be tracked is reserved anew**: the event of `trackRun` is not. -/
theorem not_forall_readded :
    ¬ ∀ settings s g param done e name t,
      Machine.Reach next Machine.anyStep (initial settings) s →
        s.checkLoop = .starting g (.add param) done → Trackable s.mgr param e →
          next s (.start (.addEvent (some e) name)) = some t → Readded e t.mgr := by
  intro h
  obtain ⟨s, done, t, hr, hcl, htr, ht⟩ := exists_trackable
  have hread := h _ s 0 lateParam done lateEvent none t hr hcl htr ht
  obtain ⟨i, hu, hkey, -⟩ := hread
  rw [(next_untracked (reach_sysInv hr) hcl htr ht).1] at hu hkey
  exact htr.fresh i hu hkey

end Sys

end AutoRec
