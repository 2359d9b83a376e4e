import AutoRec.Lib.Buffer
import AutoRec.Psisi.PresentEvent
import AutoRec.Rec.Insertion
import AutoRec.Rec.Table

/-!
# The name of an event, handed over

`on_get_present_event_info` and `on_get_follow_event_info` copy a cached name into the array of the
caller: as many characters as the name has, without its NUL, whatever the array has room for and
whatever it has held before. `on_add_reserve_current_event` (`rec_manager/rec_manager.cpp`) takes
the array for the title of a reserve.

* `EventRequest`: the two requests; `EventInfo.presentEvent`: how their answer is taken.
* `IsCachedName`: the names that the cache can hold.
* `IsNamed`, `StoresTitle`, `HandsOver`: what is asked of an answer.
* `storesTitle`: the title is the string in the array.
* `write_isNamed_iff`; **`EventRequest.handsOver_iff`**.
-/

namespace AutoRec

open Buffer Slots

/-! ## The answers -/

/-- The size of `event_name_char` in `event_info_t`. -/
def eventNameSize : ℕ := 1024

/-- `MAXSECLEN`, the size of `event_name_char` in the cache. -/
def maxSecLen : ℕ := 4096

/-- A name that the cache can hold: its array has room for a NUL behind it. -/
structure IsCachedName (name : List UInt8) : Prop where
  nul_notMem : 0 ∉ name
  length_lt : name.length < maxSecLen

/-- The characters as a `std::string`. -/
def text (s : List UInt8) : String := String.ofList (s.map Char.ofUInt8)

/-- What `on_add_reserve_current_event` passes on. `none`: the name has no NUL in its array. -/
def EventInfo.presentEvent (info : EventInfo) : Option PresentEvent :=
  (cString 0 info.eventNameChar).map fun name => {
    key := ⟨info.key.transportStreamId, info.key.originalNetworkId, info.key.serviceId, info.eventId⟩
    startTime := info.startTime
    endTime := info.endTime
    eventNameChar := text name }

/-- The two requests. -/
inductive EventRequest
  | present
  | follow
deriving DecidableEq

namespace EventRequest

/-- The state that an entry has to have. -/
def state : EventRequest → EventPfState
  | present => .present
  | follow => .follow

/-- What a request does. -/
def run : EventRequest → PsisiManager → ServiceKey → Option EventInfo → Option EventInfo
  | present => PsisiManager.onGetPresentEventInfo
  | follow => PsisiManager.onGetFollowEventInfo

/-- The entry that a request finds. -/
def find (q : EventRequest) (m : PsisiManager) (key : ServiceKey) : Option EventPfInfo :=
  findEventPfInfo { key with tableId := tblidEitPfA } q.state m.eventPfInfos

theorem run_some (q : EventRequest) (m : PsisiManager) (key : ServiceKey) (out : EventInfo) :
    q.run m key (some out) = (q.find m key).map fun i => out.write i := by
  cases q with
  | present => rfl
  | follow => rfl

end EventRequest

/-! ## What is asked of them -/

/-- The array is filled with the name, cut to what it has room for, and a NUL; nothing is written
behind it. -/
structure IsNamed (name : List UInt8) (info : EventInfo) : Prop where
  length_eq : info.eventNameChar.length = eventNameSize
  cString_eq : cString 0 info.eventNameChar = some (name.take (eventNameSize - 1))

/-- A reserve of the current event that is added has the title. -/
def StoresTitle (title : String) (info : EventInfo) : Prop :=
  ∃ e, info.presentEvent = some e ∧
    ∀ (m : RecManager) groupId isTuned isPatDetected num serviceName a,
      (AddRequest.currentEvent groupId isTuned isPatDetected (some num) (some e) serviceName).call
        m.settings = some a → (m.addReserve a.1 a.2).1 = true →
          ∃ k : Fin reserveNumMax, (m.addReserve a.1 a.2).2.reserves[k].key = e.key ∧
            (m.addReserve a.1 a.2).2.reserves[k].titleName = title

/-- **The name is handed over**, and becomes the title. -/
def HandsOver (name : List UInt8) (info : EventInfo) : Prop :=
  IsNamed name info ∧ StoresTitle (text (name.take (eventNameSize - 1))) info

/-! ## The title -/

section Title

variable {info : EventInfo} {name : List UInt8} {e : PresentEvent} {a : SetArgs} {b : Bool}
  {v w : Vector Reserve reserveNumMax} {st : Etime}

theorem text_injective : Function.Injective text := by
  intro s t h
  have hlist : s.map Char.ofUInt8 = t.map Char.ofUInt8 := String.ofList_injective h
  refine List.map_injective_iff.mpr ?_ hlist
  intro x y hxy
  have hval : x.toUInt32.toNat = y.toUInt32.toNat := congrArg (fun c : Char => c.val.toNat) hxy
  rw [UInt8.toNat_toUInt32, UInt8.toNat_toUInt32] at hval
  exact UInt8.toNat_inj.mp hval

theorem entry_titleName (a : SetArgs) (b : Bool) (r : Reserve) :
    (a.entry b r).titleName = a.titleName.getD r.titleName := by
  unfold SetArgs.entry
  split <;> rfl

theorem Placed.exists_entry (hw : Placed v a b st w) :
    ∃ (k : Fin reserveNumMax) (r : Reserve), w[k] = a.entry b r := by
  cases hw with
  | before k _ =>
    refine ⟨k, Reserve.clear, ?_⟩
    show (insertAt v k (a.entry b Reserve.clear))[(k : ℕ)] = _
    rw [insertAt_getElem, if_pos rfl]
  | last k _ _ =>
    refine ⟨k, v[k], ?_⟩
    show (v.set k (a.entry b v[k]) k.isLt)[(k : ℕ)] = _
    rw [Vector.getElem_set_self]

/-- The call that `on_add_reserve_current_event` ends in. -/
theorem call_currentEvent {settings : Settings} {groupId : UInt8}
    {isTuned isPatDetected : Option Bool} {num : ℤ} {serviceName : Option String}
    {x : SetArgs × Bool}
    (h : (AddRequest.currentEvent groupId isTuned isPatDetected (some num) (some e) serviceName).call
      settings = some x) : x.1.key = e.key ∧ x.1.titleName = some e.eventNameChar := by
  rw [AddRequest.call, onAddReserveCurrentEvent] at h
  split_ifs at h
  cases h
  exact ⟨rfl, rfl⟩

/-- **The title** is the string in the array. -/
theorem storesTitle (h : cString 0 info.eventNameChar = some name) :
    StoresTitle (text name) info := by
  refine ⟨_, by rw [EventInfo.presentEvent, h]; rfl, ?_⟩
  intro m groupId isTuned isPatDetected num serviceName x hcall hadded
  obtain ⟨hkey, htitle⟩ := call_currentEvent hcall
  rw [RecManager.addReserve_fst] at hadded
  obtain ⟨st, w, -, hplaced, hadd⟩ := m.addReserve_of_accepted hadded
  obtain ⟨k, r, hk⟩ := hplaced.exists_entry
  refine ⟨k, ?_⟩
  rw [hadd]
  dsimp only
  rw [hk, entry_key, entry_titleName, htitle]
  exact ⟨hkey, rfl⟩

end Title

/-! ## The name -/

section Name

variable {i : EventPfInfo} {out : EventInfo} {m : PsisiManager} {key : ServiceKey}

theorem eventNameChar_write (i : EventPfInfo) (out : EventInfo) :
    (out.write i).eventNameChar = overwrite out.eventNameChar 0 i.eventName :=
  (overwrite_zero _ _).symm

/-- **When the array holds the name**: it has room for a NUL, and has held one there before. -/
theorem write_isNamed_iff (hsize : out.eventNameChar.length = eventNameSize)
    (hname : IsCachedName i.eventName) : IsNamed i.eventName (out.write i) ↔
      i.eventName.length < eventNameSize ∧ out.eventNameChar[i.eventName.length]? = some 0 := by
  have hread : cString 0 (overwrite out.eventNameChar 0 i.eventName) = some i.eventName ↔
      out.eventNameChar[i.eventName.length]? = some 0 := cString_overwrite_iff hname.nul_notMem
  rw [← eventNameChar_write] at hread
  constructor
  · rintro ⟨hlen, hstring⟩
    rw [eventNameChar_write, overwrite_zero] at hlen
    have hle : i.eventName.length ≤ eventNameSize := by
      rw [List.length_append] at hlen
      omega
    have hlt : i.eventName.length < eventNameSize := by
      refine Nat.lt_of_le_of_ne hle fun hfull => ?_
      -- the name fills the array, and there is no NUL in it
      have hdrop : out.eventNameChar.drop i.eventName.length = [] :=
        List.drop_eq_nil_of_le (by omega)
      rw [eventNameChar_write, overwrite_zero, hdrop, List.append_nil, cString,
        if_neg hname.nul_notMem] at hstring
      cases hstring
    rw [List.take_of_length_le (Nat.le_sub_one_of_lt hlt)] at hstring
    exact ⟨hlt, hread.mp hstring⟩
  · rintro ⟨hlt, hnul⟩
    constructor
    · rw [eventNameChar_write, length_overwrite (by omega), hsize]
    · rw [List.take_of_length_le (Nat.le_sub_one_of_lt hlt)]
      exact hread.mpr hnul

/-- **When a name is handed over**: it is shorter than the array of the caller, and the array has
had a NUL at its end. -/
theorem EventRequest.handsOver_iff (q : EventRequest) (hfind : q.find m key = some i)
    (hsize : out.eventNameChar.length = eventNameSize) (hname : IsCachedName i.eventName) :
    (∃ info, q.run m key (some out) = some info ∧ HandsOver i.eventName info) ↔
      i.eventName.length < eventNameSize ∧ out.eventNameChar[i.eventName.length]? = some 0 := by
  rw [← write_isNamed_iff hsize hname, q.run_some, hfind]
  constructor
  · rintro ⟨info, hinfo, hnamed, -⟩
    obtain rfl := Option.some.inj hinfo
    exact hnamed
  · intro hnamed
    exact ⟨_, rfl, hnamed, storesTitle hnamed.cString_eq⟩

end Name

/-! ## A shorter name -/

/-- A name with its NUL in the array of the caller. -/
def arrayOf (name : List UInt8) : List UInt8 :=
  name ++ List.replicate (eventNameSize - name.length) 0

/-- The present event `ab` is in the cache. -/
def managerWithName : PsisiManager :=
  { PsisiManager.init with
    eventPfInfos := [{ EventPfInfo.clear with
      tableId := tblidEitPfA
      eventName := [97, 98]
      state := .present }] }

/-- An answer that the caller has got before. -/
def infoWithName (name : List UInt8) : EventInfo := ⟨⟨0, 0, 0, 0⟩, 0, .clear, .clear, arrayOf name⟩

/-- A name of two characters is written over one of four, and read with the rest of it. -/
theorem not_handsOver :
    (EventRequest.present.find managerWithName ⟨0, 0, 0, 0⟩).map EventPfInfo.eventName =
      some [97, 98] ∧
    IsCachedName [97, 98] ∧ (infoWithName [119, 120, 121, 122]).eventNameChar.length = 1024 ∧
    (EventRequest.present.run managerWithName ⟨0, 0, 0, 0⟩
      (some (infoWithName [119, 120, 121, 122]))).bind (fun info => cString 0 info.eventNameChar) =
        some [97, 98, 121, 122] ∧
    ¬ ∃ info, EventRequest.present.run managerWithName ⟨0, 0, 0, 0⟩
      (some (infoWithName [119, 120, 121, 122])) = some info ∧ HandsOver [97, 98] info := by
  have hread : (EventRequest.present.run managerWithName ⟨0, 0, 0, 0⟩
      (some (infoWithName [119, 120, 121, 122]))).bind (fun info => cString 0 info.eventNameChar) =
        some [97, 98, 121, 122] := by decide
  refine ⟨by decide +kernel, ⟨by decide, by decide⟩, by decide +kernel, hread, ?_⟩
  rintro ⟨info, hinfo, ⟨-, hstring⟩, -⟩
  rw [hinfo] at hread
  cases (Option.some.inj (hread.symm.trans hstring))

/-- The name is handed over to an array that has been cleared. -/
theorem handsOver_cleared :
    ∃ info, EventRequest.present.run managerWithName ⟨0, 0, 0, 0⟩ (some (infoWithName [])) =
      some info ∧ HandsOver [97, 98] info :=
  (EventRequest.handsOver_iff .present (i := { EventPfInfo.clear with
      tableId := tblidEitPfA
      eventName := [97, 98]
      state := .present }) (by decide +kernel) (by decide +kernel) ⟨by decide, by decide⟩).mpr
    ⟨by decide, by decide⟩

end AutoRec
