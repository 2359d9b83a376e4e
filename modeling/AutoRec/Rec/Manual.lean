import AutoRec.Rec.Insertion

/-!
# Manual reserves

`on_add_reserve_manual` reserves a time of a service. It leaves the event number at 0, so that all
manual reserves of a service have one key, and `operator ==` compares keys only.

* `manualKey`, `IsManualFor`: the key, and a reserve of the same service and time.
* `onAddManual_iff`: the request succeeds if and only if the key is free.
* **`manual_accepted_iff`**: when no other reserve or recording keeps a manual one out;
  `not_manual_accepted`: two times of one service.
-/

namespace AutoRec

open Slots

/-- The key of all manual reserves of the service. -/
def AddReserveParam.manualKey (param : AddReserveParam) : Key :=
  ⟨param.key.transportStreamId, param.key.originalNetworkId, param.key.serviceId, 0⟩

/-- The reserve is a manual one for the service and the times of the request. -/
def IsManualFor (param : AddReserveParam) (r : Reserve) : Prop :=
  r.isUsed = true ∧ r.isEventType = false ∧ r.transportStreamId = param.key.transportStreamId ∧
    r.originalNetworkId = param.key.originalNetworkId ∧ r.serviceId = param.key.serviceId ∧
    r.startTime = param.startTime ∧ r.endTime = param.endTime

namespace RecManager

/-- A reserve or a recording satisfies `P`. -/
def Has (m : RecManager) (P : Reserve → Prop) : Prop :=
  Any P m.reserves ∨ Any P m.recordings

/-- **The condition**: no reserve or recording has the key of the manual reserves of the service, or
one of them is a manual one with the same times. -/
def KeyIsFree (m : RecManager) (param : AddReserveParam) : Prop :=
  ¬ m.Has (fun r => r.isUsed = true ∧ r.key = param.manualKey) ∨ m.Has (IsManualFor param)

variable {m : RecManager} {param : AddReserveParam} {serviceName : Option String}

theorem onAdd_manual (m : RecManager) (serviceName : Option String)
    (hrep : param.repeatability ≠ .auto) :
    ∃ a : SetArgs, m.onAdd (.manual param true serviceName) = m.addReserve a false ∧
      a.key = param.manualKey ∧ a.startTime = some param.startTime ∧
      a.endTime = some param.endTime ∧ a.isEventType = false := by
  refine ⟨{
    transportStreamId := param.key.transportStreamId
    originalNetworkId := param.key.originalNetworkId
    serviceId := param.key.serviceId
    eventId := 0x00
    startTime := some param.startTime
    endTime := some param.endTime
    titleName := none
    serviceName := serviceName
    isEventType := false
    repeatability := param.repeatability }, ?_, rfl, rfl, rfl, rfl⟩
  simp only [onAdd, AddRequest.call, onAddReserveManual, if_neg hrep]
  rfl

/-- **A manual reserve is accepted** if and only if its key is neither reserved nor being
recorded. -/
theorem onAddManual_iff (hrep : param.repeatability ≠ .auto)
    (hfree : m.isExistEmptyReserve = true) (hlt : param.startTime < param.endTime) :
    (m.onAdd (.manual param true serviceName)).1 = true ↔
      ¬ m.Has fun r => r.isUsed = true ∧ r.key = param.manualKey := by
  obtain ⟨a, hadd, hkey, hst, hen, -⟩ := onAdd_manual m serviceName hrep
  rw [hadd, addReserve_fst, addAccepted_iff]
  constructor
  · rintro ⟨st, en, -, -, -, -, hres, hrec⟩ (⟨i, hi, hu, hk⟩ | ⟨g, hg, hu, hk⟩)
    · exact hres i hi hu (hk.trans hkey.symm)
    · rcases hrec with hb | hrec
      · cases hb
      · exact hrec g hg hu (hk.trans hkey.symm)
  · intro h
    refine ⟨_, _, hst, hen, hlt, isExistEmptyReserve_iff.mp hfree, fun i hi hu hk => ?_,
      .inr fun g hg hu hk => ?_⟩
    · exact h (.inl ⟨i, hi, hu, hk.trans hkey⟩)
    · exact h (.inr ⟨g, hg, hu, hk.trans hkey⟩)

theorem onAddManual_comesIn (hrep : param.repeatability ≠ .auto)
    (hp : Packed Reserve.isUsed m.reserves)
    (h : (m.onAdd (.manual param true serviceName)).1 = true) :
    ∃ l₁ e l₂, IsManualFor param e ∧ usedReserves m.reserves = l₁ ++ l₂ ∧
      usedReserves (m.onAdd (.manual param true serviceName)).2.reserves = l₁ ++ e :: l₂ := by
  obtain ⟨a, hadd, hkey, hst, hen, hty⟩ := onAdd_manual m serviceName hrep
  rw [hadd] at h ⊢
  rw [addReserve_fst] at h
  obtain ⟨-, -, -, -, -, hfree, -⟩ := addAccepted_iff.mp h
  obtain ⟨st, w, hst', hw, he⟩ := m.addReserve_of_accepted h
  obtain ⟨i, e, ⟨old, -, rfl⟩, hused, -, -⟩ := hw.comesIn hp hfree
  rw [he]
  refine ⟨_, _, _, ⟨rfl, hty, ?_, ?_, ?_, ?_, ?_⟩, entries_eq_append m.reserves i, hused⟩
  · exact congrArg Key.transportStreamId hkey
  · exact congrArg Key.originalNetworkId hkey
  · exact congrArg Key.serviceId hkey
  · show a.startTime.getD old.startTime = _
    rw [hst]
    rfl
  · show a.endTime.getD old.endTime = _
    rw [hen]
    rfl

/-- **Manual reserves of one service**: a request succeeds, unless one with the same times is there,
if and only if the key of the service is free; what is accepted stands beside the others, and
whatever is to be recorded can be picked. -/
theorem manual_accepted_iff (m : RecManager) (param : AddReserveParam)
    (serviceName : Option String) (hrep : param.repeatability ≠ .auto)
    (hfree : m.isExistEmptyReserve = true) (hlt : param.startTime < param.endTime) :
    ((¬ m.Has (IsManualFor param) → (m.onAdd (.manual param true serviceName)).1 = true) ↔
        m.KeyIsFree param) ∧
      (Packed Reserve.isUsed m.reserves → (m.onAdd (.manual param true serviceName)).1 = true →
        ∃ l₁ e l₂, IsManualFor param e ∧ usedReserves m.reserves = l₁ ++ l₂ ∧
          usedReserves (m.onAdd (.manual param true serviceName)).2.reserves = l₁ ++ e :: l₂) ∧
      ∀ (m' : RecManager) (g : Group) (i : Fin reserveNumMax),
        m'.reqStartRecordingReserve = some i →
          (m'.pickReqStartRecordingReserve g).1 = true ∧
            (m'.pickReqStartRecordingReserve g).2.recordings[g] = picked g m'.reserves[i] := by
  refine ⟨?_, fun hp h => onAddManual_comesIn hrep hp h, fun m' g i hi => ?_⟩
  · rw [onAddManual_iff hrep hfree hlt, KeyIsFree]
    constructor
    · intro h
      by_cases hm : m.Has (IsManualFor param)
      · exact .inr hm
      · exact .inl (h hm)
    · rintro (h | h) hm
      · exact h
      · exact absurd h hm
  · rw [m'.pick_eq g hi]
    exact ⟨rfl, Vector.getElem_set_self _⟩

/-- A request for service 3, from `startTime` to `endTime`. -/
def exampleManual (startTime endTime : ℤ) : AddReserveParam :=
  ⟨⟨1, 2, 3, 0⟩, ⟨startTime, 0⟩, ⟨endTime, 0⟩, .none⟩

/-- The first request for a service is accepted. -/
theorem manual_accepted_iff_first :
    ((RecManager.initial .oneTuner).onAdd (.manual (exampleManual 100 200) true none)).1 =
      true := by
  have hnone : ∀ P : Reserve → Prop, ¬ P Reserve.clear →
      ¬ (RecManager.initial .oneTuner).Has P := by
    rintro P hP (⟨i, hi, h⟩ | ⟨g, hg, h⟩)
    · exact hP (by simpa [RecManager.initial] using h)
    · exact hP (by simpa [RecManager.initial] using h)
  refine (manual_accepted_iff (.initial .oneTuner) (exampleManual 100 200) none (by decide)
    (by decide) (by decide)).1.mpr (.inl (hnone _ fun h => ?_)) (hnone _ fun h => ?_)
  · exact absurd h.1 (by decide)
  · exact absurd h.1 (by decide)

/-- **Two times of one service** cannot be reserved: the second request is refused. -/
theorem not_manual_accepted :
    ¬ ∀ (m : RecManager) (param : AddReserveParam) (serviceName : Option String),
      param.repeatability ≠ .auto → m.isExistEmptyReserve = true →
      param.startTime < param.endTime → ¬ m.Has (IsManualFor param) →
      (m.onAdd (.manual param true serviceName)).1 = true := by
  intro h
  let m := ((RecManager.initial .oneTuner).onAdd (.manual (exampleManual 100 200) true none)).2
  have hres : ∀ i : Fin reserveNumMax, m.reserves[i].startTime ≠ ⟨300, 0⟩ := by decide
  have hrec : ∀ g : Group, m.recordings[g].startTime ≠ ⟨300, 0⟩ := by decide
  have hacc := h m (exampleManual 300 400) none (by decide) (by decide) (by decide) (by
    rintro (⟨i, hi, -, -, -, -, -, hst, -⟩ | ⟨g, hg, -, -, -, -, -, hst, -⟩)
    · exact hres ⟨i, hi⟩ hst
    · exact hrec ⟨g, hg⟩ hst)
  have hno : (m.onAdd (.manual (exampleManual 300 400) true none)).1 = false := by decide
  rw [hacc] at hno
  cases hno

end RecManager

end AutoRec
