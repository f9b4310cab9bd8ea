import BleHidHost.Showing

/-!
# Whose descriptors a report is wired with

The descriptors of a report are looked for up to the next report that is pending.  A report
is only pending where it notifies, so the characteristics between two of them lie in the
window of the first, and where that lacks a descriptor one of theirs is taken instead.

## Main definitions

* `Attributed` — a subscription with the descriptors of its own characteristic.
* `AttributesOwn` — whenever discovery of such a table ends, all subscriptions are so.
* `OwnFirst` — the descriptors that are found first are the report's own.

## Main results

* `attributed_of_ownFirst` — **own descriptors that are found first are those that are used.**
* `attributesOwn_iff` — exactly then.
* `neighbour_lends_descriptors` — a report wired with the descriptors of its neighbour.
-/

namespace BleHidHost

open Lib

/-! ### Attribution -/

/-- The CCC of a subscription, and its Report ID if it is not 0, are of the report's own
characteristic. -/
structure Attributed (table : List Attr) (log : WiringLog) (s : HidSubscription) : Prop where
  report : s.valueHandle ∈ reportHandles table
  ccc : ∃ a, OwnDescriptor table s.valueHandle a ∧ a.uuid = uuidGattCcc ∧ a.handle = s.cccHandle
  id : s.reportId = 0 ∨ ∃ d, OwnDescriptor table s.valueHandle d ∧ d.uuid = uuidHidsReportRef ∧
    (s.valueHandle, d.handle, s.reportId) ∈ log.idsRead

/-- The characteristic with this value has a descriptor of this kind. -/
def HasOwn (table : List Attr) (value uuid : U16) : Prop :=
  ∃ d, OwnDescriptor table value d ∧ d.uuid = uuid

/-- Descriptors are attributed to their own characteristic. -/
structure Attribution (table : List Attr) (m : Central) (log : WiringLog) : Prop where
  attributed : ∀ s ∈ m.subs.take m.subCount, s.valueHandle ≠ 0 → Attributed table log s
  /-- A report without a Report Reference has ID 0. -/
  unidentified : ∀ s ∈ m.subs.take m.subCount, s.valueHandle ≠ 0 →
    ¬ HasOwn table s.valueHandle uuidHidsReportRef → s.reportId = 0
  /-- A report without a CCC has no subscription. -/
  unsubscribed : ∀ v ∈ reportHandles table, v ≠ 0 → ¬ HasOwn table v uuidGattCcc →
    ∀ s ∈ m.subs.take m.subCount, s.valueHandle ≠ v

/-- The last two follow from the first. -/
theorem Attribution.of_attributed {table : List Attr} {m : Central} {log : WiringLog}
    (h : ∀ s ∈ m.subs.take m.subCount, s.valueHandle ≠ 0 → Attributed table log s) :
    Attribution table m log where
  attributed := h
  unidentified s hs hlive hnone := by
    rcases (h s hs hlive).id with hzero | ⟨d, hown, huuid, -⟩
    · exact hzero
    · exact absurd ⟨d, hown, huuid⟩ hnone
  unsubscribed v _ hv hnone s hs heq := by
    subst heq
    rcases (h s hs hv).ccc with ⟨a, hown, huuid, -⟩
    exact hnone ⟨a, hown, huuid⟩

/-- Whenever discovery of a peer with this table ends, its descriptors are attributed to
their own characteristics. -/
def AttributesOwn (table : List Attr) : Prop :=
  ∀ (cfg : Setup) (s : System) (log : WiringLog) (l : Link),
    (∀ conn, InHandleOrder (cfg.table conn)) → LoggedReachable cfg (undisturbed cfg) s log →
      s.Idle → s.main.link = some l → cfg.table l.conn = table → s.main.procs = [] →
        Attribution table s.main log

/-! ### Where it holds -/

/-- For each pending report whose window has a CCC, the first CCC in it is the report's own,
and so is the first Report Reference, if there is any. -/
def OwnFirst (table : List Attr) : Prop :=
  ∀ k < (pendingOf table).length, ∀ a ∈ (searchWindow table k uuidGattCcc).next table,
    OwnDescriptor table ((pendingOf table).getD k 0) a ∧
      ∀ d ∈ (searchWindow table k uuidHidsReportRef).next table,
        OwnDescriptor table ((pendingOf table).getD k 0) d

instance (table : List Attr) : Decidable (OwnFirst table) :=
  inferInstanceAs (Decidable (∀ k < _, ∀ a ∈ _, _ ∧ ∀ d ∈ _, _))

/-- Then a subscription is made with the report's own descriptors. -/
theorem OwnFirst.attributed {table : List Attr} (h : OwnFirst table) {log : WiringLog}
    {s : HidSubscription} (hs : Sourced table log s) : Attributed table log s := by
  rcases hs with ⟨k, hk⟩
  rcases hk.ccc with ⟨a, ha, hccc⟩
  rcases h k hk.lt a ha with ⟨hown, href⟩
  rw [← hk.value] at hown href
  refine ⟨?_, ⟨a, hown, (DiscoverParams.next_eq_some ha).2.2.1, hccc⟩, ?_⟩
  · rw [hk.value]
    exact getD_mem_reportHandles hk.lt
  · rcases hk.id with hzero | ⟨d, hd, hread⟩
    · exact Or.inl hzero
    · rw [← hk.value] at hread
      exact Or.inr ⟨d, href d hd, (DiscoverParams.next_eq_some hd).2.2.1, hread⟩

/-- At every stage the subscriptions that stand have their descriptors from where these are
looked for. -/
theorem Wired.sourced {P : Condition} {table : List Attr} {m : Central} {log : WiringLog}
    (h : Wired P table (cursor m) log) {s : HidSubscription} (hs : s ∈ m.subs.take m.subCount)
    (hlive : s.valueHandle ≠ 0) : Sourced table log s := by
  have hstage := h.stage
  have hof {k : ℕ} (hprog : Progress table (tally m) log k) : Sourced table log s :=
    (hprog.sources s hs).resolve_left hlive
  -- before the reports are collected nothing is subscribed
  have hsome (hzero : m.subCount = 0) : Sourced table log s := by
    rw [hzero] at hs
    exact absurd hs List.not_mem_nil
  by_cases hcol : log.collected = true
  · by_cases hrest : m.discState.isResting
    · rcases hstage.rest hrest hcol with ⟨k, hprog, -⟩
      exact hof hprog
    · cases hstate : m.discState with
      | reportChrc =>
        rcases (stage_reportChrc (c := cursor m) hstate).mp hstage with ⟨-, q, -, hcollect⟩
        exact hsome hcollect.subCount_eq
      | reportRef => exact hof ((stage_reportRef (c := cursor m) hstate).mp hstage).1.progress
      | ccc => exact hof ((stage_ccc (c := cursor m) hstate).mp hstage).1.progress
      | _ =>
        rw [hstate] at hrest
        exact absurd rfl hrest
  · exact hsome (h.fresh (Bool.eq_false_iff.mpr hcol))

/-- **Own descriptors that are found first are those that are used**, in every state between
two callbacks. -/
theorem attributed_of_ownFirst {cfg : Setup} {s : System} {log : WiringLog} {l : Link}
    (horder : ∀ conn, InHandleOrder (cfg.table conn))
    (h : LoggedReachable cfg (undisturbed cfg) s log) (hidle : s.Idle)
    (hl : s.main.link = some l) (hown : OwnFirst (cfg.table l.conn)) :
    Attribution (cfg.table l.conn) s.main log := by
  obtain ⟨-, hinv⟩ := wiringInv_of_loggedReachable horder
    (orderly_of_restartsAlone (.inter_left (.refl _))) (.inter_right (.refl _)) h
  have hinv := hinv hidle
  refine .of_attributed ?_
  intro sub hsub hlive
  by_cases hup : l.up
  · exact hown.attributed ((hinv.up l hl hup).sourced hsub hlive)
  · have hunwired := hinv.down fun l' hl' => by
      cases hl.symm.trans hl'
      exact hup
    have hzero : s.main.subCount = 0 := hunwired.subCount_eq
    rw [hzero] at hsub
    exact absurd hsub List.not_mem_nil

/-! ### Exactly then -/

/-- Where a first descriptor is not the report's own, a run is shown that wires the report
with it. -/
theorem ownFirst_of_attributesOwn {table : List Attr} (htable : GattTable table)
    (h : AttributesOwn table) : OwnFirst table := by
  intro k hk a ha
  have hlive := ne_zero_of_mem_reportHandles htable (getD_mem_reportHandles hk)
  have hshown {id : U8} {ids : List (U16 × U16 × U8)}
      (hsearch : Shows table (Searching .ccc k id ids)) : ∃ log : WiringLog, log.idsRead = ids ∧
        Attributed table log ⟨(pendingOf table).getD k 0, a.handle, id⟩ := by
    rcases shows_subscribed htable.order hsearch ha with ⟨s, log, hrun, hidle, hend⟩
    rcases hend.link with ⟨l, hl⟩
    have hattr := h (.plain table) s log l (fun _ => htable.order) hrun hidle hl rfl hend.procs
    refine ⟨log, hend.idsRead_eq, hattr.attributed _ ?_ hlive⟩
    rw [hend.subs_eq]
    exact List.mem_singleton_self _
  refine ⟨?_, fun d hd => ?_⟩
  · rcases hshown (shows_turn htable.order hk (Or.inr rfl)) with ⟨log, -, hattr⟩
    rcases hattr.ccc with ⟨a', hown, -, heq⟩
    have hmem := (DiscoverParams.next_eq_some ha).1
    rw [← htable.order.eq_of_handle_eq hown.1.1 hmem heq]
    exact hown
  · rcases hshown (shows_identified htable.order hk hd) with ⟨log, hread, hattr⟩
    rcases hattr.id with hzero | ⟨d', hown, -, hfrom⟩
    · exact absurd hzero (by simp)
    · rw [hread, List.mem_singleton] at hfrom
      have hmem := (DiscoverParams.next_eq_some hd).1
      rw [← htable.order.eq_of_handle_eq hown.1.1 hmem (congrArg (fun r => r.2.1) hfrom)]
      exact hown

/-- **Descriptors are attributed to their own characteristics exactly for the tables in
which each report's window begins with its own.** -/
theorem attributesOwn_iff {table : List Attr} (h : GattTable table) :
    AttributesOwn table ↔ OwnFirst table := by
  refine ⟨ownFirst_of_attributesOwn h, fun hown cfg s log l horder hrun hidle hl heq _ => ?_⟩
  subst heq
  exact attributed_of_ownFirst horder hrun hidle hl hown

/-- Reports that each have both descriptors. -/
theorem attributesOwn_reportTable : AttributesOwn (reportTable [4, 8]) :=
  (attributesOwn_iff (by decide)).mpr (by decide)

/-- A report without descriptors in front of an Output Report with a Report Reference and a
Boot Keyboard Input Report with a CCC. -/
def lendingTable : List Attr :=
  [⟨1, .primary, uuidHids, 32, 0⟩,
   ⟨2, .characteristic, uuidHidsReport, 3, 0x12⟩,
   ⟨4, .characteristic, uuidHidsReport, 5, 0x0E⟩, ⟨6, .descriptor, uuidHidsReportRef, 0, 0⟩,
   ⟨7, .characteristic, 0x2A22, 8, 0x12⟩, ⟨9, .descriptor, uuidGattCcc, 0, 0⟩]

/-- The Output Report has ID 2. -/
def lendingRun : List (Action Errno Event) :=
  connectRun ++ [.answer .success, .event (.discovered 0)] ++ succeedsAfter 3 ++
    [.event (.discoverDone 0)] ++ succeedsAfter 5 ++
    (List.replicate 2 (.event (.discovered 0) :: ticks 3)).flatten ++
    [.event (.discoverDone 0)] ++ succeedsAfter 6 ++ [.event (.discovered 0)] ++ succeedsAfter 1 ++
    [.event (.readResponse 0 false [2, 2])] ++ succeedsAfter 3 ++ [.event (.discovered 0)] ++
    succeedsAfter 3 ++ ticks 4

/-- **A report without descriptors is wired with those of its neighbours.** -/
theorem neighbour_lends_descriptors :
    GattTable lendingTable ∧ (∀ d ∈ lendingTable, ¬ OwnDescriptor lendingTable 3 d) ∧
      (∃ s log, loggedAfter (.plain lendingTable) lendingRun = some (s, log) ∧
        LoggedReachable (.plain lendingTable) (undisturbed (.plain lendingTable)) s log ∧
        s.Idle ∧ s.main.procs = [] ∧ s.main.subs.take s.main.subCount = [⟨3, 9, 2⟩]) ∧
      ¬ AttributesOwn lendingTable := by
  have htable : GattTable lendingTable := by decide
  have hnone : ∀ d ∈ lendingTable, ¬ OwnDescriptor lendingTable 3 d := by decide
  have hmeets : LoggedMeeting (.plain lendingTable) (undisturbed (.plain lendingTable))
      lendingRun := of_decide_eq_true rfl
  have hstate : (loggedAfter (.plain lendingTable) lendingRun).map
      (fun x => (x.1.isIdle, x.1.main.link, x.1.main.procs,
        x.1.main.subs.take x.1.main.subCount)) =
        some (true, some ⟨0, 7, true, false, false, true⟩, [], [⟨3, 9, 2⟩]) := rfl
  rcases Option.map_eq_some_iff.mp hstate with ⟨⟨s, log⟩, hs, heq⟩
  simp only [Prod.mk.injEq] at heq
  rcases heq with ⟨hisIdle, hlink, hprocs, hsubs⟩
  have hidle := Configuration.isIdle_iff.mp hisIdle
  have hrun := loggedReachable_loggedAfter hmeets hs
  refine ⟨htable, hnone, ⟨s, log, hs, hrun, hidle, hprocs, hsubs⟩, fun h => ?_⟩
  have hattr := h (.plain lendingTable) s log _ (fun _ => htable.order) hrun hidle hlink rfl hprocs
  have hmem : (⟨3, 9, 2⟩ : HidSubscription) ∈ s.main.subs.take s.main.subCount := by
    rw [hsubs]
    exact List.mem_singleton_self _
  rcases (hattr.attributed _ hmem (by decide)).ccc with ⟨a, hown, -⟩
  exact hnone a hown.1.1 hown

end BleHidHost
