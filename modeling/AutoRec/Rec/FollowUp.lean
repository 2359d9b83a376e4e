import AutoRec.Rec.Table

/-!
# The follow-up of the programme guide

`on_check_reserves_event_loop` keeps the index of a slot while it waits for the event of the reserve
in it. Meanwhile the other sequences move the table.

* `KeepsSlot`, `Undisturbed`: a step does not move the slot that is waited for; then what is written
  goes to the reserve that was asked for.
* `writesOwn_of_undisturbed`, `not_writesOwn`: every such run, and one run that is not.
-/

namespace AutoRec

open Slots

namespace Table

variable {s t : Table} {op : TableOp} {settings : Settings}

/-! ## The reserve that is asked for -/

/-- The slot that is waited for holds the reserve with the key that was sent. -/
def AsksFor (s : Table) : Prop :=
  ∀ i key, s.followUp = .event i key →
    s.mgr.reserves[i].isUsed = true ∧ s.mgr.reserves[i].key = key

/-- **What the loop has written to**: a used reserve with the key that was sent. -/
def WritesOwn (s : Table) : Prop :=
  ∀ key r, (key, r) ∈ s.writes → r.isUsed = true ∧ r.key = key

/-- The step does not move slot `i`: it puts nothing in front of it or into it, and takes nothing
out there. -/
def KeepsSlot (m : RecManager) (i : Fin reserveNumMax) : TableOp → Prop
  | .add r => ∀ c ∈ r.call m.settings, m.addAccepted c.1 c.2 = true →
      ∀ st ∈ c.1.startTime, ∀ j ≤ i, m.reserves[j].startTime.gt st = false
  | .removeReserve k _ _ => ∀ j ∈ m.getReserveIndex k, i < j
  | .removeReserveByIndex n _ _ => n < reserveNumMax → i < n
  | .checkReserves now => ∀ j ≤ i, ¬ RecManager.IsExpired (Etime.setCurrentTime now) m.reserves j
  | .refreshReserves state => ∀ j ≤ i, RecManager.isFlagged state m.reserves[j] = false
  | .pick _ => ∀ j ∈ m.reqStartRecordingReserve, i < j
  | .timeout | .scheduleState _ | .event _ | .other _ _ _ => True

instance (m : RecManager) (i : Fin reserveNumMax) (op : TableOp) : Decidable (KeepsSlot m i op) := by
  cases op <;> unfold KeepsSlot <;> infer_instance

/-- While an event is waited for, no step moves the slot it is for. -/
def Undisturbed (s : Table) (op : TableOp) : Prop :=
  match s.followUp with
  | .event i _ => KeepsSlot s.mgr i op
  | .paused | .scheduleState => True

instance (s : Table) (op : TableOp) : Decidable (Undisturbed s op) := by
  unfold Undisturbed
  split <;> infer_instance

theorem nextRequest_asksFor {v : Vector Reserve reserveNumMax} {n : ℕ} {i : Fin reserveNumMax}
    {key : Key} (h : nextRequest v n = .event i key) : v[i].isUsed = true ∧ v[i].key = key := by
  unfold nextRequest at h
  split at h
  · rename_i k hk
    obtain ⟨-, hp, -⟩ := firstFrom_some hk
    cases h
    exact ⟨(Bool.and_eq_true_iff.mp (Bool.and_eq_true_iff.mp hp).1).1, rfl⟩
  · cases h

/-- **The loop and the others**: a step of another sequence leaves the loop where it is; a step of
the loop ends in a request for the reserve in its slot, or in a pause. -/
theorem next_followUp (h : next s op = some t) :
    (t.followUp = s.followUp ∧ t.writes = s.writes ∧ ∀ e, op ≠ .event e) ∨
      (AsksFor t ∧ (t.writes = s.writes ∨ ∃ i key, s.followUp = .event i key ∧
        t.writes = s.writes ++ [(key, s.mgr.reserves[i])])) := by
  cases op with
  | add | removeReserve | checkReserves | refreshReserves | pick | other =>
    obtain rfl := Option.some.inj h
    exact .inl ⟨rfl, rfl, by simp⟩
  | removeReserveByIndex n c p =>
    obtain ⟨r, -, rfl⟩ := Option.map_eq_some_iff.mp h
    exact .inl ⟨rfl, rfl, by simp⟩
  | timeout =>
    dsimp only [next] at h
    split at h
    · obtain rfl := Option.some.inj h
      refine .inr ⟨fun i key he => ?_, .inl rfl⟩
      cases he
    · cases h
  | scheduleState isReady =>
    dsimp only [next] at h
    split at h
    · obtain rfl := Option.some.inj h
      refine .inr ⟨fun i key he => ?_, .inl rfl⟩
      dsimp only at he ⊢
      split_ifs at he
      exact nextRequest_asksFor he
    · cases h
  | event e =>
    dsimp only [next] at h
    split at h
    · rename_i i key hf
      obtain rfl := Option.some.inj h
      refine .inr ⟨fun j key' he => nextRequest_asksFor he, ?_⟩
      cases e with
      | none => exact .inl (List.append_nil _)
      | some e =>
        rcases hc : isChanged e s.mgr.reserves[i] with _ | _
        · exact .inl (by simp only [onEvent, hc]; exact List.append_nil _)
        · exact .inr ⟨i, key, hf, by simp only [onEvent, hc]; rfl⟩
    · cases h

theorem checkedTable_not_flagged {cur : Etime} {v : Vector Reserve reserveNumMax}
    (hc : All (fun r => Flag.has r.state ReserveState.terminal = false) v) (j : ℕ)
    (hj : j < reserveNumMax) (hexp : ¬ RecManager.IsExpired cur v ⟨j, hj⟩) :
    RecManager.isFlagged .endErrorAlreadyPassed (RecManager.checkedTable cur v)[j] = false := by
  have hclean : Flag.has v[j].state ReserveState.endErrorAlreadyPassed = false :=
    ReserveState.has_eq_false_of_terminal (hc j hj) rfl
  rw [RecManager.checkedTable, Vector.getElem_ofFn]
  split_ifs with hd
  · unfold RecManager.checkedReserve RecManager.isFlagged
    split_ifs with hp hdue hs
    · exact absurd ⟨(Bool.and_eq_true_iff.mp hp).1, (Bool.and_eq_true_iff.mp hp).2, hd⟩ hexp
    all_goals
      simp only [Reserve.mark_state, Flag.has_or, getElem_slot, hclean, Bool.false_or]
      exact Bool.and_false _
  · simp [RecManager.isFlagged, hclean]

theorem checkedTable_below {cur : Etime} {v : Vector Reserve reserveNumMax}
    (hc : All (fun r => Flag.has r.state ReserveState.terminal = false) v) {i : Fin reserveNumMax}
    (hi : ∀ j ≤ i, ¬ RecManager.IsExpired cur v j) (j : ℕ) (hj : j < reserveNumMax) (hji : j ≤ i) :
    RecManager.isFlagged .endErrorAlreadyPassed (RecManager.checkedTable cur v)[j] = false :=
  checkedTable_not_flagged hc j hj (hi ⟨j, hj⟩ hji)

theorem effect_keepsSlot {w : Vector Reserve reserveNumMax} {i : Fin reserveNumMax}
    (hI : ReservesInv s.mgr.reserves) (hk : KeepsSlot s.mgr i op) (he : Effect s op w)
    (hop : ∀ e, op ≠ .event e) (hu : s.mgr.reserves[i].isUsed = true) :
    w[i].isUsed = true ∧ w[i].key = s.mgr.reserves[i].key := by
  have hsame : ∀ w : Vector Reserve reserveNumMax, w[i] = s.mgr.reserves[i] →
      w[i].isUsed = true ∧ w[i].key = s.mgr.reserves[i].key := fun w h => by
    rw [h]
    exact ⟨hu, rfl⟩
  cases he with
  | added hr hacc hst hw =>
    have hlt := hk _ hr hacc _ hst
    cases hw with
    | before j hj =>
      obtain ⟨-, hp, -⟩ := firstFrom_some hj
      have hij : i < j := by
        by_contra hle
        rw [hlt j (not_lt.mp hle)] at hp
        cases hp
      exact hsame _ (insertAt_below _ _ j.2 hij)
    | last j hl hj =>
      obtain ⟨-, hp, -⟩ := firstFrom_some hj
      have hij : (j : ℕ) ≠ i := by
        intro hji
        obtain rfl := Fin.ext hji
        rw [hu] at hp
        cases hp
      exact hsame _ (Vector.getElem_set_ne _ _ hij)
  | removed hj => exact hsame _ (removeAt_below _ _ (Fin.is_lt _) (hk _ hj))
  | removedByIndex j hn =>
    have hlt : (i : ℤ) < j := hn ▸ hk (by rw [hn]; exact_mod_cast j.2)
    exact hsame _ (removeAt_below _ _ j.2 (by omega))
  | checked =>
    rw [getElem_slot, sweep_below (checkedTable_below hI.clean hk) i i.2 le_rfl]
    simpa using hu
  | refreshed => exact hsame _ (sweep_below (fun j hj hji => hk ⟨j, hj⟩ hji) i i.2 le_rfl)
  | picked hj => exact hsame _ (removeAt_below _ _ (Fin.is_lt _) (hk _ hj))
  | followed => exact absurd rfl (hop _)
  | refused | missing | outOfTable | notPicked | timeout | scheduleState | noEvent | other =>
    exact ⟨hu, rfl⟩

/-- **One step**: the loop goes on waiting for the reserve it has asked for. -/
theorem next_asksFor (hI : ReservesInv s.mgr.reserves) (hs : AsksFor s) (hok : Undisturbed s op)
    (h : next s op = some t) : AsksFor t := by
  rcases next_followUp h with ⟨hf, -, hop⟩ | ⟨hf, -⟩
  · intro i key hi
    rw [hf] at hi
    obtain ⟨hu, hkey⟩ := hs i key hi
    have hk : KeepsSlot s.mgr i op := by rwa [Undisturbed, hi] at hok
    obtain ⟨hu', hkey'⟩ := effect_keepsSlot hI hk (next_effect hI h) hop hu
    exact ⟨hu', hkey'.trans hkey⟩
  · exact hf

theorem next_writesOwn (hs : AsksFor s) (hw : WritesOwn s) (h : next s op = some t) :
    WritesOwn t := by
  rcases next_followUp h with ⟨-, hwr, -⟩ | ⟨-, hwr | ⟨i, key, hf, hwr⟩⟩
  · rwa [WritesOwn, hwr]
  · rwa [WritesOwn, hwr]
  · intro key' r hr
    rw [hwr, List.mem_append, List.mem_singleton] at hr
    rcases hr with hr | hr
    · exact hw key' r hr
    · cases hr
      exact hs i key hf

/-- Event 7 is due and its end has been put off. -/
def followRun : List TableOp :=
  [exampleAdd (exampleEvent 7 100 200), .checkReserves 100, .timeout, .scheduleState true,
    exampleAdd (exampleEvent 8 200 300), .event (some (exampleEvent 7 100 250))]

theorem followRun_writes :
    Machine.execOk next Undisturbed (initial .oneTuner) followRun = true ∧
      (Machine.exec next (initial .oneTuner) followRun).map (fun s => s.writes.length) =
        some 1 := by
  decide +kernel

/-- **The follow-up writes to the right reserve** in every run in which no step moves the slot that
is waited for. -/
theorem writesOwn_of_undisturbed (h : Machine.Reach next Undisturbed (initial settings) s) :
    WritesOwn s := by
  refine (h.inv₂ (fun s => ReservesInv s.mgr.reserves) (fun s => AsksFor s ∧ WritesOwn s)
    (fun _ hr => reach_reservesInv hr) ⟨?_, ?_⟩ ?_).2
  · intro i key he
    cases he
  · intro key r hr
    cases hr
  · rintro s op t hI - ⟨hs, hw⟩ hok hn
    exact ⟨next_asksFor hI hs hok hn, next_writesOwn hs hw hn⟩

theorem writesOwn_of_undisturbed_followRun : ∃ s,
    Machine.Reach next Undisturbed (initial .oneTuner) s ∧ s.writes.length = 1 ∧ WritesOwn s := by
  obtain ⟨s, -, hr, hl⟩ := Machine.exists_of_execOk followRun_writes
  exact ⟨s, hr, hl, writesOwn_of_undisturbed hr⟩

/-- Event 7 is due and event 8 is reserved behind it; while event 7 is waited for, its reserve is
removed, so that event 8 moves into the slot. -/
def staleRun : List TableOp :=
  [exampleAdd (exampleEvent 7 100 200), exampleAdd (exampleEvent 8 200 300), .checkReserves 100,
    .timeout, .scheduleState true, .removeReserve ⟨1, 2, 3, 7⟩ false false,
    .event (some (exampleEvent 7 150 250))]

theorem staleRun_writes :
    (Machine.exec next (initial .oneTuner) staleRun).map
      (fun s => s.writes.map fun w => (w.1.eventId, w.2.eventId)) = some [(7, 8)] := by
  decide +kernel

/-- **Not every run writes to the right reserve**: `staleRun` writes the times of event 7 to the
reserve of event 8. -/
theorem not_writesOwn :
    ¬ ∀ settings s, Machine.Reach next Machine.anyStep (initial settings) s → WritesOwn s := by
  intro h
  obtain ⟨s, hs, hw⟩ := Option.map_eq_some_iff.mp staleRun_writes
  obtain ⟨⟨key, r⟩, hl, hkr⟩ := List.map_eq_singleton_iff.mp hw
  have hr := (h _ s (Machine.reach_of_exec hs) key r (by rw [hl]; exact List.mem_singleton_self _)).2
  have hid : r.eventId = key.eventId := congrArg Key.eventId hr
  rw [Prod.mk.injEq, hid] at hkr
  obtain ⟨h7, h8⟩ := hkr
  rw [h7] at h8
  exact absurd h8 (by decide)

end Table

end AutoRec
