import AutoRec.Common.Group

/-!
# The recorder of one tuner

`rec::instance` (`rec_manager/rec_instance.h`): the state machine that the tune thread drives with
every piece of the transport stream, and that the recording manager redirects by writing
`rec_progress_`.

* `Progress`, `Instance`, `RecordingNotice`.
* `AribB25`: the recorder object, as far as the state machine uses it.
* `Instance.onTsReceived`: one call of `on_ts_received`; it is `none` when the call goes through a
  null `b25_`.
-/

namespace AutoRec

/-- `instance::progress`. -/
inductive Progress
  | init
  | preProcess
  | nowRecording
  | endSuccess
  | endError
  | postProcess
deriving DecidableEq, Repr

/-- `arib_b25`: what it was made with, and the buffers it was given. -/
structure AribB25 where
  serviceId : UInt16
  useSplitter : Bool
  buffers : List (List UInt8)
deriving DecidableEq

/-- `put`. -/
def AribB25.put (b : AribB25) (data : List UInt8) : AribB25 :=
  { b with buffers := b.buffers ++ [data] }

/-- `RECORDING_NOTICE_t`. -/
structure RecordingNotice where
  recProgress : Progress
  groupId : Group
deriving DecidableEq

/-- `instance`. -/
structure Instance where
  recProgress : Progress
  b25 : Option AribB25
  groupId : Group
  serviceId : UInt16
  useSplitter : Bool
deriving DecidableEq

namespace Instance

/-- The constructor; `use_splitter_` is written before it is first read. -/
def mk' (groupId : Group) : Instance where
  recProgress := .init
  b25 := none
  groupId := groupId
  serviceId := 0
  useSplitter := false

/-- `set_next_progress`. -/
def setNextProgress (r : Instance) (p : Progress) : Instance := { r with recProgress := p }

/-- The notice sent to the recording manager: the progress before the step, and the group. -/
def notice (r : Instance) : RecordingNotice := ⟨r.recProgress, r.groupId⟩

/-- `on_ts_received`, with the notices it sends. -/
def onTsReceived (r : Instance) (data : List UInt8) : Option (Instance × List RecordingNotice) :=
  match r.recProgress with
  | .init => some (r, [])
  | .preProcess =>
    some ({ r with b25 := some ⟨r.serviceId, r.useSplitter, []⟩, recProgress := .nowRecording },
      [r.notice])
  | .nowRecording => r.b25.map fun b => ({ r with b25 := some (b.put data) }, [])
  | .endSuccess => some ({ r with recProgress := .postProcess }, [r.notice])
  | .endError => some ({ r with recProgress := .postProcess }, [r.notice])
  | .postProcess => r.b25.map fun _ => ({ r with b25 := none, recProgress := .init }, [r.notice])

/-- The state machine goes through `b25_` here. -/
def usesB25 (r : Instance) : Prop := r.recProgress = .nowRecording ∨ r.recProgress = .postProcess

instance (r : Instance) : Decidable r.usesB25 := by unfold usesB25; infer_instance

/-- **A call fails only through a null recorder object.** -/
theorem onTsReceived_eq_none_iff (r : Instance) (data : List UInt8) :
    r.onTsReceived data = none ↔ r.usesB25 ∧ r.b25 = none := by
  unfold onTsReceived usesB25
  cases hp : r.recProgress <;> simp

theorem onTsReceived_groupId {r r' : Instance} {data : List UInt8} {q : List RecordingNotice}
    (h : r.onTsReceived data = some (r', q)) : r'.groupId = r.groupId := by
  unfold onTsReceived at h
  cases hp : r.recProgress <;>
    simp only [hp, Option.some.injEq, Prod.mk.injEq, Option.map_eq_some_iff] at h
  all_goals first
    | (obtain ⟨rfl, -⟩ := h; rfl)
    | (obtain ⟨_, -, rfl, -⟩ := h; rfl)

end Instance

end AutoRec
