import AutoRec.Coseq.Gather
import AutoRec.Coseq.Network

/-!
# Replies across modules

* `started_once`: a request starts at most one sequence in the whole instance.
* `returned_once`: a request returns at most once.
* **`reply_correlated`**: what a request returns is what the sequence has replied that this request
  has started.
-/

namespace AutoRec

namespace Coseq

open Machine

section Lists

variable {α β γ : Type*} {l : List α} {f : α → Option β} {x y : α} {b : β}

/-- What has a value that comes up once is once in a list. -/
theorem eq_of_filterMap_nodup (h : (l.filterMap f).Nodup) (hx : x ∈ l) (hy : y ∈ l)
    (hfx : f x = some b) (hfy : f y = some b) : x = y := by
  induction l with
  | nil => cases hx
  | cons z l ih =>
    have hmem : ∀ w ∈ l, f w = some b → b ∈ l.filterMap f := fun w hw hfw =>
      List.mem_filterMap.mpr ⟨w, hw, hfw⟩
    rcases List.mem_cons.mp hx with rfl | hx' <;> rcases List.mem_cons.mp hy with rfl | hy'
    · rfl
    · rw [List.filterMap_cons_some hfx] at h
      exact absurd (hmem y hy' hfy) (List.nodup_cons.mp h).1
    · rw [List.filterMap_cons_some hfy] at h
      exact absurd (hmem x hx' hfx) (List.nodup_cons.mp h).1
    · refine ih ?_ hx' hy'
      rw [List.filterMap_cons] at h
      split at h
      · exact h
      · exact (List.nodup_cons.mp h).2

theorem count_map_le_count_filterMap [DecidableEq β] [DecidableEq γ] {g : α → γ} {k : γ → Option β}
    {c : γ} (hc : k c = some b) :
    (l.map g).count c ≤ (l.filterMap fun a => k (g a)).count b := by
  induction l with
  | nil => exact le_refl _
  | cons z l ih =>
    rw [List.map_cons, List.count_cons]
    by_cases heq : g z = c
    · rw [List.filterMap_cons_some (b := b) (by rw [heq, hc]), List.count_cons_self, if_pos (by simpa using heq)]
      exact Nat.succ_le_succ ih
    · rw [if_neg (by simpa using heq), Nat.add_zero]
      refine ih.trans (List.Sublist.count_le _ ?_)
      rw [List.filterMap_cons]
      split
      · exact .refl _
      · exact List.sublist_cons_self _ _

theorem eq_of_count_map_le_one [DecidableEq β] {l : List (α × β)} (h : (l.map Prod.snd).count b ≤ 1)
    (hx : (x, b) ∈ l) (hy : (y, b) ∈ l) : x = y := by
  induction l with
  | nil => cases hx
  | cons z l ih =>
    have hmem : ∀ w, (w, b) ∈ l → 0 < (l.map Prod.snd).count b := fun w hw =>
      List.count_pos_iff.mpr (List.mem_map_of_mem (f := Prod.snd) hw)
    rcases List.mem_cons.mp hx with rfl | hx' <;> rcases List.mem_cons.mp hy with heq | hy'
    · exact (congrArg Prod.fst heq).symm
    · have := hmem y hy'
      rw [List.map_cons, List.count_cons_self] at h
      omega
    · have := hmem x hx'
      rw [← heq, List.map_cons, List.count_cons_self] at h
      omega
    · refine ih (le_trans ?_ h) hx' hy'
      exact (List.sublist_cons_self _ _).count_le _

end Lists

/-! ## From a module to another -/

variable {s : System} {nrModule : ℕ} {nrSeq : ℕ → ℕ} {recvNotify : ℕ → Bool} {i j k p g g' : ℕ}
  {reqId : UInt32} {e : Event} {src : Source}

section Paths

variable {ok : System → SysOp → Prop}
  (h : Reach System.step ok (.initial nrModule nrSeq recvNotify) s)

include h

theorem traced_module (i : ℕ) : Traced (s.modules i) ∧ (s.modules i).idx = i := by
  have hany : Reach System.step (Locally anyStep) (.initial nrModule nrSeq recvNotify) s :=
    h.mono fun _ op _ => by cases op <;> trivial
  have hreach := module_of_reach hany (fun _ _ => trivial) i
  exact ⟨traced_of_reach hreach, idx_of_reach hreach⟩

theorem nrModule_of_reach : s.nrModule = nrModule := by
  have hany : Reach System.step (Locally anyStep) (.initial nrModule nrSeq recvNotify) s :=
    h.mono fun _ op _ => by cases op <;> trivial
  exact (runs_of_reach (fun _ _ => trivial) hany).nrModule

theorem arrived_of_handled (he : e ∈ (s.modules j).handledEvents) : e ∈ s.arrived j :=
  (traced_module h j).1.sound.perm_arrived.subset (List.mem_append_left _ he)

theorem sent_of_arrived (hj : j < nrModule) (he : e ∈ s.arrived j) (hi : e.sender = some i) :
    i < nrModule ∧ ∃ p, (⟨p, j, e⟩ : Sent) ∈ (s.modules i).sent := by
  have hchannels := channel_of_reach h
  have hnr := nrModule_of_reach h
  rw [← hnr] at hj ⊢
  have hlt := hchannels.sender j hj e he i hi
  have hmem : e ∈ (s.arrived j).filter fun e => e.sender == some i :=
    List.mem_filter.mpr ⟨he, by simpa using hi⟩
  rw [hchannels.module i j hlt hj] at hmem
  obtain ⟨x, hx, rfl⟩ := List.mem_map.mp hmem
  obtain ⟨hsent, hdest⟩ := List.mem_filter.mp hx
  obtain rfl : x.dest = j := by simpa using hdest
  exact ⟨hlt, x.fiber, hsent⟩

theorem sent_of_started (hj : j < nrModule) (hg : (g, e) ∈ (s.modules j).started)
    (hi : e.sender = some i) : i < nrModule ∧ ∃ p, (⟨p, j, e⟩ : Sent) ∈ (s.modules i).sent := by
  have hhandled : e ∈ (s.modules j).handledEvents :=
    (traced_module h j).1.starts_sublist.subset (List.mem_map_of_mem (f := Prod.snd) hg)
  exact sent_of_arrived h hj (arrived_of_handled h hhandled) hi

/-- An event has started at most as many sequences as it has been sent. -/
theorem count_started_le (hi : i < nrModule) (hj : j < nrModule) (he : e.sender = some i) :
    (s.modules j).startedEvents.count e ≤ ((s.modules i).sent.map Sent.event).count e := by
  have hnr := nrModule_of_reach h
  rw [← hnr] at hi hj
  have htraced := (traced_module h j).1
  calc (s.modules j).startedEvents.count e
      ≤ (s.modules j).handledEvents.count e := htraced.starts_sublist.count_le _
    _ ≤ (s.arrived j).count e := by
        have hperm := htraced.sound.perm_arrived.count_eq e
        rw [List.count_append] at hperm
        exact hperm ▸ Nat.le_add_right _ _
    _ = ((s.arrived j).filter fun e => e.sender == some i).count e :=
        (List.count_filter (by simpa using he)).symm
    _ = (((s.modules i).sent.filter fun x => x.dest == j).map Sent.event).count e := by
        rw [(channel_of_reach h).module i j hi hj]
    _ ≤ ((s.modules i).sent.map Sent.event).count e := (List.filter_sublist.map _).count_le _

end Paths

section Numbers

variable (h : Reach System.step (Locally Numbered) (.initial nrModule nrSeq recvNotify) s)

include h

theorem accounts_module (i : ℕ) : Accounts (s.modules i) :=
  accounts_of_reach (fun _ _ ho => ho) (module_of_reach h (fun _ _ => trivial) i)

/-- A request has been posted once. -/
theorem sent_unique {x y : Sent} (hx : x ∈ (s.modules i).sent) (hy : y ∈ (s.modules i).sent)
    (hxid : x.event.startId = some reqId) (hyid : y.event.startId = some reqId) : x = y :=
  eq_of_filterMap_nodup (accounts_module h i).nodup hx hy hxid hyid

/-- **A request starts at most one sequence**, in all modules together. -/
theorem started_once (hj : j < nrModule) (hk : k < nrModule)
    (hg : (s.modules j).HasStarted g i reqId) (hg' : (s.modules k).HasStarted g' i reqId) :
    k = j ∧ g' = g := by
  obtain ⟨seqIdx, msg, hg⟩ := hg
  obtain ⟨seqIdx', msg', hg'⟩ := hg'
  obtain ⟨hi, p, hp⟩ := sent_of_started h hj hg rfl
  obtain ⟨-, p', hp'⟩ := sent_of_started h hk hg' rfl
  have heq := sent_unique h hp hp' rfl rfl
  cases heq
  refine ⟨rfl, ?_⟩
  have hcount := count_started_le h hi hj
    (e := .start seqIdx reqId (some i) msg) rfl
  have hle := count_map_le_count_filterMap (l := (s.modules i).sent) (g := Sent.event)
    (k := Event.startId) (c := .start seqIdx reqId (some i) msg) (b := reqId) rfl
  have hone := List.nodup_iff_count_le_one.mp (accounts_module h i).nodup reqId
  exact (eq_of_count_map_le_one (hcount.trans (hle.trans hone)) hg hg').symm

/-- **A request returns at most once.** -/
theorem returned_once (i : ℕ) : ((s.modules i).returned.map fun q => q.2.reqId).Nodup := by
  have hacc := accounts_module h i
  have hasked : ∀ q ∈ (s.modules i).returned, (q.1, q.2.reqId) ∈ (s.modules i).asked := by
    intro q hq
    have hmem : q.2.reqId ∈ (s.modules i).answered q.1 :=
      List.mem_map.mpr ⟨q, List.mem_filter.mpr ⟨hq, by simp⟩, rfl⟩
    have hle := hacc.le q.1 q.2.reqId
    have hpos := List.count_pos_iff.mpr hmem
    rw [ModuleState.tally] at hle
    exact ModuleState.mem_askedBy.mp (List.count_pos_iff.mp (by omega))
  rw [List.nodup_iff_count_le_one]
  intro r
  by_cases hr : r ∈ (s.modules i).returned.map fun q => q.2.reqId
  · obtain ⟨q, hq, rfl⟩ := List.mem_map.mp hr
    -- all that have this number are of one fiber
    have hall : ∀ q' ∈ (s.modules i).returned, q'.2.reqId = q.2.reqId → q'.1 = q.1 :=
      fun q' hq' heq => hacc.asked_unique (heq ▸ hasked q' hq') (hasked q hq)
    have hle : ((s.modules i).answered q.1).count q.2.reqId ≤ 1 := by
      have hle := hacc.le q.1 q.2.reqId
      have hone : ((s.modules i).askedBy q.1).count q.2.reqId ≤ 1 := hacc.count_askedBy
      rw [ModuleState.tally] at hle
      omega
    refine le_trans (le_of_eq ?_) hle
    rw [ModuleState.answered, List.count_eq_countP, List.count_eq_countP, List.countP_map,
      List.countP_map, List.countP_filter]
    refine List.countP_congr fun q' hq' => ?_
    simp only [Function.comp_apply, beq_iff_eq, Bool.and_eq_true]
    exact ⟨fun heq => ⟨heq, hall q' hq' heq⟩, fun heq => heq.1⟩
  · rw [List.count_eq_zero.mpr hr]
    exact Nat.zero_le _

end Numbers

/-- The reply to a request: the fiber `p` of the module `i` has requested it of the module `j`, where
the fiber `g` has been started for it, and has replied what `p` has been given. -/
def IsReplyOf (s : System) (i p : ℕ) (src : Source) (j g : ℕ) : Prop :=
  ∃ seqIdx msg, (⟨p, j, .start seqIdx src.reqId (some i) msg⟩ : Sent) ∈ (s.modules i).sent ∧
    (g, .start seqIdx src.reqId (some i) msg) ∈ (s.modules j).started ∧
    (⟨g, i, .reply src.reqId j src.result src.msg⟩ : Sent) ∈ (s.modules j).sent

/-- **What a request returns is what the sequence has replied that it has started**, whatever the
modules do meanwhile; there is one such sequence, and one return. -/
theorem reply_correlated
    (hcollects : Reach System.step (Locally fun m op => Numbered m op ∧ Collects m op)
      (.initial nrModule nrSeq recvNotify) s)
    (hi : i < nrModule) (hret : (p, src) ∈ (s.modules i).returned) :
    (∃ j g, j < nrModule ∧ IsReplyOf s i p src j g ∧
      ∀ k g', k < nrModule → (s.modules k).HasStarted g' i src.reqId → k = j ∧ g' = g) ∧
      ((s.modules i).returned.map fun q => q.2.reqId).Nodup := by
  have h : Reach System.step (Locally Numbered) (.initial nrModule nrSeq recvNotify) s :=
    hcollects.mono fun _ op ho => by cases op <;> first | exact ho.1 | trivial
  refine ⟨?_, returned_once h i⟩
  obtain ⟨htraced, hidx⟩ := traced_module h i
  have hacc := accounts_module h i
  -- the reply has been sent by a module
  obtain ⟨j, hreply⟩ := htraced.returned _ hret
  obtain ⟨hj, g, hsent⟩ := sent_of_arrived h hi (arrived_of_handled h hreply) rfl
  obtain ⟨htraced', hidx'⟩ := traced_module h j
  -- by a sequence that a request of this number has started
  have hstarted : (s.modules j).HasStarted g i src.reqId := (htraced'.sent _ hsent).2
  obtain ⟨seqIdx, msg, hg⟩ := hstarted
  -- and there is one request of this number, which the fiber has made
  have hmem : src.reqId ∈ (s.modules i).answered p :=
    List.mem_map.mpr ⟨_, List.mem_filter.mpr ⟨hret, by simp⟩, rfl⟩
  have hasked : (p, src.reqId) ∈ (s.modules i).asked := by
    have hle := hacc.le p src.reqId
    have hpos := List.count_pos_iff.mpr hmem
    rw [ModuleState.tally] at hle
    exact ModuleState.mem_askedBy.mp (List.count_pos_iff.mp (by omega))
  obtain ⟨dest, seqIdx', msg', hpost⟩ := htraced.asked _ hasked
  obtain ⟨-, p', hpost'⟩ := sent_of_started h hj hg rfl
  have heq := sent_unique h hpost hpost' rfl rfl
  simp only [Sent.mk.injEq] at heq
  obtain ⟨rfl, rfl, -⟩ := heq
  exact ⟨dest, g, hj, ⟨seqIdx, msg, hpost', hg, hsent⟩,
    fun k g' hk hg' => started_once h hj hk ⟨seqIdx, msg, hg⟩ hg'⟩

/-- A module requests a sequence of another one, which replies. -/
def exchange : List SysOp := [
  .requestAsync 0 0 [7],
  .module 0 (.take .zero), .module 0 .timer, .module 0 .handle,
  .module 0 (.call (.request 1 0 [1, 2] none)),
  .module 1 (.take .zero), .module 1 .timer, .module 1 .handle,
  .module 1 (.call (.reply .success [9])), .module 1 (.call .exit),
  .module 0 .reap, .module 0 (.take .zero), .module 0 .timer, .module 0 .timer,
  .module 0 .handle]

theorem reply_correlated_exchange : ∃ (s : System) (p : ℕ) (src : Source), (p, src) ∈ (s.modules 0).returned ∧
    (∃ j g, j < 2 ∧ IsReplyOf s 0 p src j g ∧
      ∀ k g', k < 2 → (s.modules k).HasStarted g' 0 src.reqId → k = j ∧ g' = g) ∧
      ((s.modules 0).returned.map fun q => q.2.reqId).Nodup := by
  have hrun : execOk System.step (Locally fun m op => Numbered m op ∧ Collects m op)
      (.initial 2 (fun _ => 1) fun _ => true) exchange = true := by decide
  obtain ⟨s, hs⟩ := Option.isSome_iff_exists.mp
    (show (exec System.step (.initial 2 (fun _ => 1) fun _ => true) exchange).isSome = true by decide)
  have hlen : ((exec System.step (.initial 2 (fun _ => 1) fun _ => true) exchange).map fun s =>
      (s.modules 0).returned.length) = some 1 := by decide
  rw [hs, Option.map_some, Option.some.injEq] at hlen
  obtain ⟨q, hq⟩ := List.length_eq_one_iff.mp hlen
  have hmem : (q.1, q.2) ∈ (s.modules 0).returned := by simp [hq]
  exact ⟨s, q.1, q.2, hmem, reply_correlated (reach_of_execOk hrun hs) (by decide) hmem⟩

end Coseq

end AutoRec
