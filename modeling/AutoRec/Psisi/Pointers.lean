import AutoRec.Psisi.NewTables

/-!
# The tables that the caches point to

* `PointersOk`: every `p_org_table` of an entry in use points to a table of its parser.
* `KeepsTables`: a packet for which `check_section` does not say COMPLETED replaces no cached table.
* `KeepsPointers`: this, and nothing is cached when the parsers are cleared.
* **`pointersOk_reach`**: under this condition the pointers are good, in every run;
  `not_pointersOk`: what becomes of them otherwise.
-/

namespace AutoRec

open Latest SectionParser

variable {α κ : Type} {E : Conversions}

namespace PsisiManager

/-- **The pointers**: each is `NULL`, or a table of the parser is at its address. -/
structure PointersOk (m : PsisiManager) : Prop where
  programs : ∀ i ∈ m.programInfos, pointsInto m.mPAT.ext i.pOrgTable = true
  services : ∀ i ∈ m.serviceInfos, pointsInto m.mSDT.ext i.pOrgTable = true
  events : ∀ i ∈ m.eventPfInfos, pointsInto m.mEITH.ext i.pOrgTable = true

/-- The pointers of the caches. -/
def pointers (m : PsisiManager) : List (Option ℕ) :=
  m.programInfos.map ProgramInfo.pOrgTable ++ m.serviceInfos.map ServiceInfo.pOrgTable ++
    m.eventPfInfos.map EventPfInfo.pOrgTable

end PsisiManager

/-- `check_section` says COMPLETED, or none of the tables in the packet is a new version of a table
to which one of the pointers `l` points. -/
def KeepsTables [DecidableEq κ] (K : TableKind α κ) (n : ParserNotice)
    (s : SectionParser (TableStore α)) (l : List (Option ℕ)) : Prop :=
  n.completes K.refreshing s = true ∨
    ∀ t ∈ K.refreshing.newTables n.behind s.ext.next
        (packetNew (K.refreshing.hooks n.behind) s n.packet),
      ∀ x ∈ s.ext.tables, some x.1 ∈ l → isOld K.addressed.key K.addressed.version t x = false

instance instDecidableKeepsTables [DecidableEq κ] (K : TableKind α κ) (n : ParserNotice)
    (s : SectionParser (TableStore α)) (l : List (Option ℕ)) : Decidable (KeepsTables K n s l) :=
  inferInstanceAs (Decidable (_ ∨ _))

/-- The packet keeps the tables that are cached. -/
def PsisiManager.NoticeKeeps (m : PsisiManager) (n : ParserNotice) : Prop :=
  (n.type = .pat →
    KeepsTables programAssociationTable n m.mPAT (m.programInfos.map ProgramInfo.pOrgTable)) ∧
  (n.type = .eitHPf →
    KeepsTables eventInformationTable n m.mEITH (m.eventPfInfos.map EventPfInfo.pOrgTable))

/-- **The condition on a step**: a packet keeps the tables that are cached, and the parsers are not
cleared while the caches point to tables. -/
def PsisiManager.KeepsPointers (m : PsisiManager) : PsisiOp → Prop
  | .parserNotice n => m.checkAsyncDelete.NoticeKeeps n
  | .stabilization id _ =>
    m.stabilizations.lookup id = some .waiting → ∀ p ∈ m.pointers, p = none
  | _ => True

instance instDecidableKeepsPointers (m : PsisiManager) : DecidablePred m.KeepsPointers
  | .parserNotice n => inferInstanceAs (Decidable ((n.type = .pat → _) ∧ (n.type = .eitHPf → _)))
  | .stabilization id _ =>
    inferInstanceAs (Decidable (m.stabilizations.lookup id = some .waiting → ∀ p ∈ m.pointers, p = none))
  | .receiveNotify _ | .checkPat _ | .checkFollow _ | .enableParseEitSched | .disableParseEitSched
  | .clearSched | .dumpCaches _ => inferInstanceAs (Decidable True)

/-! ## What is cached -/

section PointsInto

variable {e e' : TableStore α} {p : Option ℕ} {t : ℕ × α}

theorem pointsInto_some_iff {a : ℕ} :
    PsisiManager.pointsInto e (some a) = true ↔ ∃ t ∈ e.tables, t.1 = a := by
  simp [PsisiManager.pointsInto]

theorem pointsInto_of_mem (h : t ∈ e.tables) : PsisiManager.pointsInto e (some t.1) = true :=
  pointsInto_some_iff.mpr ⟨t, h, rfl⟩

theorem pointsInto_mono (h : PsisiManager.pointsInto e p = true)
    (hkeep : ∀ t ∈ e.tables, some t.1 = p → t ∈ e'.tables) : PsisiManager.pointsInto e' p = true := by
  cases p with
  | none => rfl
  | some a =>
    obtain ⟨t, ht, rfl⟩ := pointsInto_some_iff.mp h
    exact pointsInto_of_mem (hkeep t ht rfl)

end PointsInto

theorem pointsInto_cacheProgramInfos {pat : TableStore ProgramAssociationTable} {map : ProgramMap}
    {i : ProgramInfo} (h : i ∈ cacheProgramInfos pat map) :
    PsisiManager.pointsInto pat i.pOrgTable = true := by
  unfold cacheProgramInfos at h
  split at h
  · cases h
  · rename_i a t hlast
    obtain ⟨p, -, rfl⟩ := List.mem_map.mp h
    exact pointsInto_of_mem (List.mem_of_getLast? hlast)

theorem mem_updateService {key : ServiceKey} {f : ServiceInfo → ServiceInfo} {l : List ServiceInfo}
    {i : ServiceInfo} (h : i ∈ updateService key f l) : i ∈ l ∨ ∃ s, i = f s := by
  induction l with
  | nil => cases h
  | cons s l ih =>
    rw [updateService] at h
    split at h
    · rcases List.mem_cons.mp h with rfl | hi
      · exact .inr ⟨s, rfl⟩
      · exact .inl (List.mem_cons_of_mem _ hi)
    · rcases List.mem_cons.mp h with rfl | hi
      · exact .inl List.mem_cons_self
      · exact (ih hi).imp (List.mem_cons_of_mem _) id

theorem mem_writeService {key : ServiceKey} {f : ServiceInfo → ServiceInfo} {l l' : List ServiceInfo}
    {i : ServiceInfo} (h : writeService key f l = some l') (hi : i ∈ l') : i ∈ l ∨ ∃ s, i = f s := by
  unfold writeService at h
  split at h
  · obtain rfl := Option.some.inj h
    exact mem_updateService hi
  · split at h
    · obtain rfl := Option.some.inj h
      rcases List.mem_append.mp hi with hi | hi
      · exact .inl hi
      · exact .inr ⟨.clear, List.mem_singleton.mp hi⟩
    · cases h

theorem mem_cacheServices {isAtTuning : Bool} {now : ℤ}
    {svcs : List (ℕ × ServiceDescriptionTable × SdtService)} {l : List ServiceInfo} {i : ServiceInfo}
    (h : i ∈ cacheServices E isAtTuning now svcs l) :
    i ∈ l ∨ ∃ svc ∈ svcs, i.pOrgTable = some svc.1 := by
  induction svcs generalizing l with
  | nil => exact .inl h
  | cons svc svcs ih =>
    obtain ⟨a, t, svc⟩ := svc
    rw [cacheServices] at h
    split at h
    · rename_i l' hl'
      rcases ih h with hi | ⟨svc', hmem, hp⟩
      · rcases mem_writeService hl' hi with hi | ⟨s, rfl⟩
        · exact .inl hi
        · exact .inr ⟨_, List.mem_cons_self, rfl⟩
      · exact .inr ⟨svc', List.mem_cons_of_mem _ hmem, hp⟩
    · exact .inl h

theorem mem_actualServices {sdt : TableStore ServiceDescriptionTable}
    {svc : ℕ × ServiceDescriptionTable × SdtService} (h : svc ∈ actualServices sdt) :
    (svc.1, svc.2.1) ∈ sdt.tables := by
  obtain ⟨t, ht, hsvc⟩ := List.mem_flatMap.mp h
  obtain ⟨s, -, rfl⟩ := List.mem_map.mp hsvc
  exact (List.mem_filter.mp ht).1

theorem pOrgTable_ofTable {a : ℕ} {t : EventInformationTable} {i : EventPfInfo}
    (h : EventPfInfo.ofTable E a t = some i) : i.pOrgTable = some a := by
  unfold EventPfInfo.ofTable at h
  dsimp only at h
  split at h
  · cases h
  · rw [← Option.some.inj h]

theorem mem_cacheEvents {key : ServiceKey} {tables : List (ℕ × EventInformationTable)}
    {l : List EventPfInfo} {i : EventPfInfo} (h : i ∈ cacheEvents E key tables l) :
    i ∈ l ∨ ∃ t ∈ tables, i.pOrgTable = some t.1 := by
  induction tables generalizing l with
  | nil => exact .inl h
  | cons t tables ih =>
    obtain ⟨a, t⟩ := t
    rw [cacheEvents] at h
    split at h
    · rcases ih h with hi | ⟨x, hx, hp⟩
      · exact .inl hi
      · exact .inr ⟨x, List.mem_cons_of_mem _ hx, hp⟩
    · split at h
      · exact .inl h
      · rcases ih h with hi | ⟨x, hx, hp⟩
        · rcases List.mem_append.mp hi with hi | hi
          · exact .inl hi
          · exact .inr ⟨_, List.mem_cons_self, pOrgTable_ofTable (Option.mem_toList.mp hi)⟩
        · exact .inr ⟨x, List.mem_cons_of_mem _ hx, hp⟩

theorem pointsInto_cacheEventPfInfos {eit : TableStore EventInformationTable}
    {services : List ServiceInfo} {i : EventPfInfo} (h : i ∈ cacheEventPfInfos E eit services) :
    PsisiManager.pointsInto eit i.pOrgTable = true := by
  rw [cacheEventPfInfos] at h
  suffices ∀ (ss : List ServiceInfo) (l : List EventPfInfo),
      i ∈ ss.foldl (fun l s => cacheEvents E { s.key with tableId := tblidEitPfA } eit.tables l) l →
      i ∈ l ∨ ∃ t ∈ eit.tables, i.pOrgTable = some t.1 by
    rcases this _ _ h with hnil | ⟨t, ht, hp⟩
    · cases hnil
    · exact hp ▸ pointsInto_of_mem ht
  intro ss
  induction ss with
  | nil => exact fun l hi => .inl hi
  | cons s ss ih =>
    intro l hi
    rcases ih _ hi with hi | hi
    · exact mem_cacheEvents hi
    · exact .inr hi

theorem pOrgTable_check (now : ℤ) (i : EventPfInfo) : (i.check now).pOrgTable = i.pOrgTable := by
  unfold EventPfInfo.check
  dsimp only
  split_ifs <;> rfl

theorem pOrgTable_assignFollowEvent (now : ℤ) (events : List EventPfInfo) (s : ServiceInfo) :
    (s.assignFollowEvent now events).pOrgTable = s.pOrgTable := by
  unfold ServiceInfo.assignFollowEvent
  split
  · split <;> rfl
  · rfl

theorem pOrgTable_checkFollowEvent (now : ℤ) (s : ServiceInfo) :
    (s.checkFollowEvent now).pOrgTable = s.pOrgTable := by
  unfold ServiceInfo.checkFollowEvent
  split <;> rfl

/-! ## The steps -/

theorem pointsInto_check [DecidableEq κ] {K : TableKind α κ} {P : ℕ} {n : ParserNotice}
    {s t : SectionParser (TableStore α)} {r : CheckSection} {l : List (Option ℕ)} {p : Option ℕ}
    (hs : Ready P s) (hr : n.check K.refreshing s = some (r, t)) (hc : r ≠ .completed)
    (hkeeps : KeepsTables K n s l) (hp : p ∈ l) (h : PsisiManager.pointsInto s.ext p = true) :
    PsisiManager.pointsInto t.ext p = true := by
  obtain ⟨-, calls, hall, hext⟩ := hs.check hr
  have hkeep := hkeeps.resolve_left (by simpa [ParserNotice.completes, hr] using hc)
  refine pointsInto_mono h fun x hx hxp => ?_
  rw [hext]
  exact K.mem_run_refreshing hall hx fun new hnew => hkeep new hnew x hx (hxp ▸ hp)

namespace PsisiManager

variable {m m' : PsisiManager} {n : ParserNotice}

theorem PointersOk.of_pointers (h : ∀ p ∈ m.pointers, p = none) : m.PointersOk := by
  simp only [pointers, List.mem_append, List.mem_map] at h
  refine ⟨fun i hi => ?_, fun i hi => ?_, fun i hi => ?_⟩
  · rw [h _ (.inl (.inl ⟨i, hi, rfl⟩))]
    rfl
  · rw [h _ (.inl (.inr ⟨i, hi, rfl⟩))]
    rfl
  · rw [h _ (.inr ⟨i, hi, rfl⟩)]
    rfl

theorem pointersOk_init : init.PointersOk :=
  .of_pointers fun _ h => absurd h List.not_mem_nil

theorem PointersOk.checkAsyncDelete (h : m.PointersOk) : m.checkAsyncDelete.PointersOk where
  programs i hi := by
    rw [PsisiManager.checkAsyncDelete, ext_checkAsyncDelete]
    exact h.programs i hi
  services i hi := by
    rw [PsisiManager.checkAsyncDelete, ext_checkAsyncDelete]
    exact h.services i hi
  events i hi := by
    rw [PsisiManager.checkAsyncDelete, ext_checkAsyncDelete]
    exact h.events i hi

theorem events_recacheEventPfInfos (now : ℤ) {i : EventPfInfo}
    (hi : i ∈ (m.recacheEventPfInfos E now).eventPfInfos) :
    pointsInto m.mEITH.ext i.pOrgTable = true := by
  obtain ⟨j, hj, rfl⟩ := List.mem_map.mp hi
  rw [pOrgTable_check]
  exact pointsInto_cacheEventPfInfos hj

theorem services_clearAtTuning {l : List ServiceInfo} {e : TableStore ServiceDescriptionTable}
    (h : ∀ i ∈ l, pointsInto e i.pOrgTable = true) :
    ∀ i ∈ l.map ServiceInfo.clearAtTuning, pointsInto e i.pOrgTable = true := by
  intro i hi
  obtain ⟨j, hj, rfl⟩ := List.mem_map.mp hi
  exact h j hj

theorem PointersOk.onSdt (h : m.PointersOk) (hready : m.ParsersReady)
    (hm : m.onSdt E n = some m') : m'.PointersOk := by
  obtain ⟨r, s, hr, hcases⟩ := onSdt_cases hm
  have hservices : ∀ p, pointsInto m.mSDT.ext p = true → pointsInto s.ext p = true := by
    intro p hp
    obtain ⟨-, l, -, hext⟩ := hready.sdt.check hr
    refine pointsInto_mono hp fun t ht _ => ?_
    rw [hext]
    exact (TableClass.tables_run_appendOnly_prefix m.mSDT.ext l).subset ht
  obtain ⟨-, rfl⟩ | ⟨-, rfl⟩ := hcases
  · refine ⟨h.programs, fun i hi => ?_, fun i hi => events_recacheEventPfInfos _ hi⟩
    rcases mem_cacheServices hi with hi | ⟨svc, hsvc, hp⟩
    · exact hservices _ (services_clearAtTuning h.services i hi)
    · rw [hp]
      exact pointsInto_of_mem (mem_actualServices hsvc)
  · exact ⟨h.programs, fun i hi => hservices _ (h.services i hi), h.events⟩

/-- **A packet.** -/
theorem PointersOk.parse (h : m.PointersOk) (hready : m.ParsersReady) (hn : m.NoticeKeeps n)
    (hm : m.parse E n = some m') : m'.PointersOk := by
  obtain ⟨hpat, heit⟩ := hn
  unfold PsisiManager.parse at hm
  split at hm
  · obtain ⟨r, s, hr, ⟨-, latest, -, rfl⟩ | ⟨hc, rfl⟩⟩ := onPat_cases hm
    · exact ⟨fun i hi => pointsInto_cacheProgramInfos hi, h.services, h.events⟩
    · refine ⟨fun i hi => ?_, h.services, h.events⟩
      exact pointsInto_check hready.pat hr hc (hpat ‹_›) (List.mem_map_of_mem hi) (h.programs i hi)
  · obtain rfl | ⟨map, rfl | rfl⟩ := onPmt_cases hm
    · exact h
    · exact ⟨h.programs, h.services, h.events⟩
    · exact ⟨fun i hi => pointsInto_cacheProgramInfos hi, h.services, h.events⟩
  · obtain ⟨p, -, rfl⟩ := Option.map_eq_some_iff.mp hm
    exact ⟨h.programs, h.services, h.events⟩
  · obtain ⟨p, -, rfl⟩ := Option.map_eq_some_iff.mp hm
    exact ⟨h.programs, h.services, h.events⟩
  · obtain ⟨r, s, -, rfl⟩ := onNit_cases hm
    exact ⟨h.programs, h.services, h.events⟩
  · exact h.onSdt hready hm
  · obtain ⟨r, s, s', hr, ⟨-, rfl⟩ | ⟨hc, rfl⟩⟩ := onEit_cases hm
    · exact ⟨h.programs, h.services, fun i hi => events_recacheEventPfInfos _ hi⟩
    · refine ⟨h.programs, h.services, fun i hi => ?_⟩
      exact pointsInto_check hready.eit hr hc (heit ‹_›) (List.mem_map_of_mem hi) (h.events i hi)

theorem PointersOk.checkFollow (h : m.PointersOk) (now : ℤ) : (m.checkFollow E now).PointersOk := by
  have hservices : ∀ i ∈ (m.checkFollow E now).serviceInfos,
      pointsInto m.mSDT.ext i.pOrgTable = true := by
    intro i hi
    obtain ⟨j, hj, rfl⟩ := List.mem_map.mp hi
    obtain ⟨k, hk, rfl⟩ := List.mem_map.mp hj
    rw [pOrgTable_checkFollowEvent, pOrgTable_assignFollowEvent]
    exact h.services k hk
  have hevents := fun i => events_recacheEventPfInfos (E := E) (i := i)
    (m := { m with serviceInfos := m.serviceInfos.map (.assignFollowEvent now m.eventPfInfos) }) now
  unfold PsisiManager.checkFollow
  dsimp only
  split
  · exact ⟨h.programs, hservices, hevents⟩
  · exact ⟨h.programs, hservices, h.events⟩

/-- **A step.** -/
theorem PointersOk.step {op : PsisiOp} (h : m.PointersOk) (hready : m.ParsersReady)
    (hop : m.KeepsPointers op) (hm : m.step E op = some m') : m'.PointersOk := by
  cases op with
  | parserNotice n => exact h.checkAsyncDelete.parse hready.checkAsyncDelete hop hm
  | receiveNotify state =>
    obtain rfl := Option.some.inj hm
    have hstop : m.stopTuning.PointersOk :=
      ⟨fun _ hi => absurd hi List.not_mem_nil, services_clearAtTuning h.services,
        fun _ hi => absurd hi List.not_mem_nil⟩
    cases state with
    | tuningBegin | tuningSuccess => exact ⟨h.programs, h.services, h.events⟩
    | tuningErrorStop | tuneStop => exact hstop
  | stabilization id down =>
    obtain ⟨hid, rfl⟩ | ⟨i, -, rfl⟩ := onStabilization_cases hm
    · exact .of_pointers (hop hid)
    · unfold pollStabilization
      split
      · exact ⟨h.programs, h.services, h.events⟩
      · split <;> exact ⟨h.programs, h.services, h.events⟩
  | checkPat now =>
    obtain rfl := Option.some.inj hm
    unfold PsisiManager.checkPat
    split <;> exact ⟨h.programs, h.services, h.events⟩
  | checkFollow now =>
    obtain rfl := Option.some.inj hm
    exact h.checkFollow now
  | enableParseEitSched | disableParseEitSched | clearSched =>
    obtain rfl := Option.some.inj hm
    exact ⟨h.programs, h.services, h.events⟩
  | dumpCaches cache => exact onDumpCaches_eq hm ▸ h

theorem PointersOk.onDumpCaches (h : m.PointersOk) (cache : CacheType) :
    m.onDumpCaches cache = some m := by
  cases cache with
  | programs => exact if_pos (List.all_eq_true.mpr h.programs)
  | services => exact if_pos (List.all_eq_true.mpr h.services)
  | events => exact if_pos (List.all_eq_true.mpr h.events)
  | network => rfl

end PsisiManager

/-- **The pointers of the caches are good**, and the dumps read tables only, in every run in which the
parsers are not cleared while the caches point to tables, and a packet that replaces a cached table is
answered with COMPLETED. -/
theorem pointersOk_reach (E : Conversions) {m : PsisiManager}
    (h : Machine.Reach (PsisiManager.step E) PsisiManager.KeepsPointers .init m) :
    m.PointersOk ∧ ∀ cache, m.onDumpCaches cache = some m := by
  suffices hm : m.PointersOk from ⟨hm, hm.onDumpCaches⟩
  apply h.inv₂ PsisiManager.ParsersReady PsisiManager.PointersOk
  · exact fun _ => PsisiManager.parsersReady_reach
  · exact PsisiManager.pointersOk_init
  · exact fun _ _ _ hready _ hm hop hstep => hm.step hready hop hstep

/-- A new version of `patFirst`. -/
def patSecond : List UInt8 := [0, 240, 13, 0, 4, 197, 0, 0, 4, 0, 225, 241, 147, 75, 103, 253]

theorem patSecond_size : (0 :: patSecond).length ≤ tsPacketLen := by decide

/-- A tuning, the tables of a stream, and a new PAT. -/
def cacheRun : List PsisiOp :=
  [.receiveNotify .tuningSuccess, .stabilization 0 false,
    noticeOf .sdt (true, 0 :: sdtFirst) sdtFirst_size,
    noticeOf .eitHPf (true, 0 :: eitPresent) eitPresent_size,
    noticeOf .pat (true, 0 :: patFirst) patFirst_size,
    noticeOf .pat (true, 0 :: patSecond) patSecond_size]

/-- All three caches point to tables. -/
theorem pointersOk_reach_newPat : ∃ m,
    Machine.exec (PsisiManager.step conversionsOfDate) .init cacheRun = some m ∧
      m.pointers = [some 1, some 0, some 0, some 0] ∧ m.PointersOk := by
  have hrun : Machine.execOk (PsisiManager.step conversionsOfDate) PsisiManager.KeepsPointers .init
        cacheRun = true ∧
      (Machine.exec (PsisiManager.step conversionsOfDate) .init cacheRun).map
        PsisiManager.pointers = some [some 1, some 0, some 0, some 0] := by
    decide +kernel
  obtain ⟨m, hm, hreach, hpointers⟩ := Machine.exists_of_execOk hrun
  exact ⟨m, hm, hpointers, (pointersOk_reach conversionsOfDate hreach).1⟩

/-- A tuning with the services of another one in the cache. -/
def clearRun : List PsisiOp :=
  [noticeOf .sdt (true, 0 :: sdtFirst) sdtFirst_size, .receiveNotify .tuningSuccess,
    .stabilization 0 false]

/-- A new version of `patFirst`, with four programs. -/
def patLonger : List UInt8 :=
  [0, 240, 25, 0, 4, 197, 0, 0, 4, 0, 225, 241, 4, 1, 225, 242, 4, 2, 225, 243, 4, 3, 225, 244,
    166, 192, 71, 234]

/-- A new PAT of which the first bytes come at the end of a packet with the old one, and the last
ones in front of the old one in the next packet. -/
def tailRun : List PsisiOp :=
  [noticeOf .pat (true, 0 :: patFirst) patFirst_size,
    noticeOf .pat (true, 0 :: ((List.replicate 10 patFirst).flatten ++ patLonger.take 23))
      (by decide +kernel),
    noticeOf .pat (true, 5 :: (patLonger.drop 23 ++ patFirst)) (by decide)]

/-- The entries of the services point to a table that has been released, and reading it is an error;
and so do the entries of the programs, behind a packet for which `check_section` says
COMPLETED_ALREADY. -/
theorem not_pointersOk :
    (∃ m, Machine.exec (PsisiManager.step conversionsOfDate) .init clearRun = some m ∧
      ¬ m.PointersOk ∧ m.onDumpCaches .services = none) ∧
    ∃ m, Machine.exec (PsisiManager.step conversionsOfDate) .init tailRun = some m ∧
      ¬ m.PointersOk ∧ m.onDumpCaches .programs = none := by
  constructor
  · have hrun : (Machine.exec (PsisiManager.step conversionsOfDate) .init clearRun).map
        (fun m => m.serviceInfos.all fun i => PsisiManager.pointsInto m.mSDT.ext i.pOrgTable) =
          some false := by
      decide +kernel
    obtain ⟨m, hm, hall⟩ := Option.map_eq_some_iff.mp hrun
    refine ⟨m, hm, fun h => ?_, by simp only [PsisiManager.onDumpCaches, hall]; rfl⟩
    rw [List.all_eq_true.mpr h.services] at hall
    cases hall
  · have hrun : (Machine.exec (PsisiManager.step conversionsOfDate) .init tailRun).map
        (fun m => m.programInfos.all fun i => PsisiManager.pointsInto m.mPAT.ext i.pOrgTable) =
          some false := by
      decide +kernel
    obtain ⟨m, hm, hall⟩ := Option.map_eq_some_iff.mp hrun
    refine ⟨m, hm, fun h => ?_, by simp only [PsisiManager.onDumpCaches, hall]; rfl⟩
    rw [List.all_eq_true.mpr h.programs] at hall
    cases hall

end AutoRec
