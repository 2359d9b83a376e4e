import AutoRec.Rec.SysInv
import AutoRec.Tuner.Owners

/-!
# The recording manager and the tuner service

The manager asks the service for a tuner (`open`) and to tune it (`tune_with_retry`), and waits for
the replies. It only sends `tune_stop` and `close`, and nothing looks at what becomes of them.

* `Sys.requests`, `Sys.sends`: what a step of the manager asks and sends.
* `TunerService.openReply`, `TunerService.tuneReply`: what a step of the service replies to it.
* `TunedSys`, `TunedOp`, `TunedSys.next`: the two together, each by its own steps.
* `TunedSys.reach_sys`: the manager is in a state that it reaches.
-/

namespace AutoRec

/-- The index of the thread of `rec_manager`. -/
def recThread : ℕ := moduleRecManager.toNat

theorem eq_recThread {threadIdx : ℕ} (h : callerOf threadIdx = .recManager) :
    threadIdx = recThread := by
  by_cases hlt : threadIdx < ModuleId.all.length
  · have hall : ∀ i < ModuleId.all.length, callerOf i = .recManager → i = recThread := by decide
    exact hall _ hlt h
  · rw [callerOf, List.getD_eq_getElem?_getD, List.getElem?_eq_none (not_lt.mp hlt)] at h
    cases h

/-! ## What they send each other -/

/-- The request that is sent with a record of a tuner. -/
def TunerEvent.request (g : Group) : TunerEvent → Option TunerOp
  | .opened | .handed => none
  | .tuneStop => some (.tuneStop recThread g)
  | .close => some (.closeReq recThread g)

/-- The number of tuners that the check loop waits for. -/
def CheckLoop.asks : CheckLoop → ℕ
  | .opening => 1
  | .paused | .starting _ _ _ => 0

namespace Sys

/-- What a step from `s` to `t` asks the service for, and waits for. -/
def requests (s t : Sys) : Label → List TunerOp
  | .timeout _ _ _ =>
    match t.checkLoop with
    | .opening => [.openReq recThread]
    | _ => []
  | .start (.channel (some _)) =>
    match s.checkLoop with
    | .starting g _ _ => [.tuneWithRetry recThread g]
    | _ => []
  | _ => []

/-- What a step from `s` to `t` sends to the service, and does not wait for. -/
def sends (s t : Sys) : List TunerOp :=
  (List.finRange groupMax).flatMap fun g =>
    (t.tuners[g].drop s.tuners[g].length).filterMap (·.request g)

end Sys

namespace TunerService

variable (s : TunerService)

/-- The reply to `open` that a step sends to the manager. -/
def openReply : TunerOp → Option (Option ℕ)
  | .openReq caller =>
    if caller = recThread then (s.onOpen .recManager).map Prod.fst else none
  | _ => none

/-- The reply to `tune_with_retry` that a step sends to the manager. -/
def tuneReply : TunerOp → Option Bool
  | .tuneWithRetry caller tunerId =>
    if caller = recThread ∧ s.preCheck tunerId .recManager true = false then some false else none
  | .retryReply k =>
    match s.retries[k]? with
    | some ⟨_, .recManager, retry, .replied ok⟩ => if ok || retry == 0 then some ok else none
    | _ => none
  | _ => none

end TunerService

/-- A step of the service that is not for a request of the manager. -/
def TunerOp.isOther : TunerOp → Bool
  | .openReq caller | .closeReq caller _ | .tune caller _ | .tuneWithRetry caller _
  | .tuneStop caller _ => caller ≠ recThread
  | .retryTune _ | .retryReply _ | .tuneReply _ | .psisiState _ | .tuneStopReply _ => true

/-! ## The two together -/

/-- The manager and the service, with the requests that the service has not taken yet and the
replies that the manager has not taken yet. -/
structure TunedSys where
  sys : Sys
  svc : TunerService
  mail : List TunerOp
  openReply : Option (Option ℕ)
  tuneReply : Option Bool

/-- The steps. -/
inductive TunedOp
  /-- A step of the manager. -/
  | manager (l : Label)
  /-- The service takes a request of the manager; those that its lock defers are overtaken. -/
  | handle (op : TunerOp)
  /-- The service goes on, or takes a request of another module. -/
  | service (op : TunerOp)

namespace TunedSys

/-- Both modules after their `on_module_up`. -/
def initial (settings : Settings) (tunerHalAllocates : List String) : TunedSys where
  sys := .initial settings
  svc := .moduleUp tunerHalAllocates
  mail := []
  openReply := none
  tuneReply := none

variable (t : TunedSys)

/-- The manager takes the reply that its step is woken by. -/
def take : Label → Option TunedSys
  | .opened r =>
    if t.openReply = some (r.map Fin.val) then some { t with openReply := none } else none
  | .start (.tuned ok _) =>
    if t.tuneReply = some ok then some { t with tuneReply := none } else none
  | _ => some t

/-- A step of the manager. -/
def manage (l : Label) : Option TunedSys :=
  (t.take l).bind fun u =>
    (u.sys.next l).map fun s =>
      { u with sys := s, mail := u.mail ++ u.sys.requests s l ++ u.sys.sends s }

/-- A step of the service. -/
def serve (op : TunerOp) : Option TunedSys :=
  (t.svc.step op).map fun s =>
    { t with
      svc := s
      openReply := (t.svc.openReply op).or t.openReply
      tuneReply := (t.svc.tuneReply op).or t.tuneReply }

/-- **A step.** -/
def next : TunedOp → Option TunedSys
  | .manager l => t.manage l
  | .handle op =>
    if op ∈ t.mail then ({ t with mail := t.mail.erase op } : TunedSys).serve op else none
  | .service op => if op.isOther then t.serve op else none

variable {t} {u : TunedSys} {l : Label} {op : TunerOp}

theorem manage_some (h : t.manage l = some u) :
    ∃ s, t.sys.next l = some s ∧ u.sys = s ∧ u.svc = t.svc ∧
      u.mail = t.mail ++ t.sys.requests s l ++ t.sys.sends s ∧
      ((∀ r, l ≠ .opened r) ∧ u.openReply = t.openReply ∨
        ∃ r, l = .opened r ∧ t.openReply = some (r.map Fin.val) ∧ u.openReply = none) := by
  obtain ⟨v, hv, h⟩ := Option.bind_eq_some_iff.mp h
  obtain ⟨s, hs, rfl⟩ := Option.map_eq_some_iff.mp h
  unfold take at hv
  split at hv
  · rename_i r h
    split_ifs at hv with hr
    cases hv
    exact ⟨s, hs, rfl, rfl, rfl, .inr ⟨r, rfl, hr, rfl⟩⟩
  · split_ifs at hv
    cases hv
    exact ⟨s, hs, rfl, rfl, rfl, .inl ⟨nofun, rfl⟩⟩
  · rename_i hno _
    cases hv
    exact ⟨s, hs, rfl, rfl, rfl, .inl ⟨hno, rfl⟩⟩

theorem serve_some (h : t.serve op = some u) :
    t.svc.step op = some u.svc ∧ u.sys = t.sys ∧ u.mail = t.mail ∧
      u.openReply = (t.svc.openReply op).or t.openReply := by
  obtain ⟨s, hs, rfl⟩ := Option.map_eq_some_iff.mp h
  exact ⟨hs, rfl, rfl, rfl⟩

/-- **The manager is in a state that it reaches.** -/
theorem reach_sys {ok : TunedSys → TunedOp → Prop} {settings : Settings}
    {tunerHalAllocates : List String}
    (h : Machine.Reach next ok (initial settings tunerHalAllocates) t) :
    Machine.Reach Sys.next Machine.anyStep (.initial settings) t.sys := by
  apply h.inv fun t => Machine.Reach Sys.next Machine.anyStep (.initial settings) t.sys
  · exact .refl
  · intro t op u hr _ hn
    cases op with
    | manager l =>
      obtain ⟨s, hs, rfl, -⟩ := manage_some hn
      exact hr.tail trivial hs
    | handle op =>
      dsimp only [next] at hn
      split_ifs at hn
      exact (serve_some hn).2.1 ▸ hr
    | service op =>
      dsimp only [next] at hn
      split_ifs at hn
      exact (serve_some hn).2.1 ▸ hr

end TunedSys

end AutoRec
