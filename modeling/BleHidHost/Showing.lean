import BleHidHost.Completion

/-!
# A run for every table

Whatever table a peer has, a run can be shown in which the central wires one chosen report
of it, with the descriptors found for that report, and no other.  The answers of the stack
are chosen for it: the searches for the reports in front end without a CCC, and those
for the reports behind are refused.

## Main definitions

* `undisturbed` — the condition that the runs meet.
* `Shows`, `Leads` — a run that rests in such a state; answers that lead a callback to one.

## Main results

* `Shows.enter` — **an event leads on.**
* `shows_turn` — each report has its turn.
* `shows_identified`, `shows_subscribed` — the descriptors that are found are those used.
-/

namespace BleHidHost

open Lib Lib.Prog

/-- Success of a security procedure is reported alone, and the pass that collects the
reports is delivered to its end. -/
def undisturbed (cfg : Setup) : Condition := restartsAlone.inter (collectsWhole cfg)

/-! ### Runs that are shown -/

/-- Some undisturbed run with peers of this table rests in a state, and with a log, that `Q`
holds of. -/
def Shows (table : List Attr) (Q : Central → WiringLog → Prop) : Prop :=
  ∃ s log, LoggedReachable (.plain table) (undisturbed (.plain table)) s log ∧ s.Idle ∧
    Q s.main log

/-- Some answers lead the callback to its end in such a state. -/
abbrev Leads (table : List Attr) (p : Callback Unit) (Q : Central → WiringLog → Prop)
    (m : Central) (log : WiringLog) : Prop :=
  p.CanEnd (central (.plain table)) (undisturbed (.plain table)) wiringScribe (fun _ => Q) m log

section Shows

variable {table : List Attr} {Q Q' : Central → WiringLog → Prop} {m : Central} {log : WiringLog}
  {k : ℕ} {id : U8} {ids : List (U16 × U16 × U8)}

/-- **An event leads on.** -/
theorem Shows.enter (horder : InHandleOrder table) (h : Shows table Q)
    (hnext : ∀ m log, Q m log → WiringInv (.plain table) (undisturbed (.plain table)) m log →
      ∃ e m' p, (undisturbed (.plain table)).onEvent m e ∧
        (∀ io, enter (.plain table) e m io = some (m', io, p)) ∧
          Leads table p Q' m' (noteEvent m e log)) : Shows table Q' := by
  rcases h with ⟨⟨m, io, p⟩, log, hrun, hidle, hQ⟩
  have hinv := (wiringInv_of_loggedReachable (fun _ => horder)
    (orderly_of_restartsAlone (.inter_left (.refl _))) (.inter_right (.refl _)) hrun).2 hidle
  cases hidle
  rcases hnext m log hQ hinv with ⟨e, m', p', hok, henter, hlead⟩
  rcases hrun with ⟨bonds, uptime, accepts, hlogged⟩
  have hentered : (central (.plain table)).LoggedUnder (undisturbed (.plain table)) wiringScribe
      (start bonds uptime accepts) .start ⟨m', io, p'⟩ (noteEvent m e log) := by
    refine Reaches.tail (a := .event e) hlogged hok ?_
    simp only [Machine.loggedStep, Machine.step, central, henter, Option.map_some]
    rfl
  rcases hentered.exists_of_canEnd hlead with ⟨m'', io'', log', hend, hQ'⟩
  exact ⟨⟨m'', io'', .ret ()⟩, log', ⟨bonds, uptime, accepts, hend⟩, rfl, hQ'⟩

/-- Nothing is subscribed, and the report that is to be wired, its Report ID and the Report
IDs that were read are these. -/
structure Unsubscribed (k : ℕ) (id : U8) (ids : List (U16 × U16 × U8)) (m : Central)
    (log : WiringLog) : Prop where
  up : ∃ l, m.link = some l ∧ l.up
  idx_eq : m.pendingIdx = k
  subCount_eq : m.subCount = 0
  id_eq : m.curReportId = id
  idsRead_eq : log.idsRead = ids

/-- A discovery of this state is outstanding. -/
structure Probing (st : DiscState) (q : DiscoverParams) (m : Central) : Prop where
  up : ∃ l, m.link = some l ∧ l.up
  state : m.discState = st
  procs : m.procs = [.discover q]

/-- The stack takes it back when it has a result. -/
theorem Probing.taken {st : DiscState} {q : DiscoverParams} (h : Probing st q m) :
    (takeProc 0 m).procs = [] ∧ (takeProc 0 m).discState = st :=
  ⟨congrArg (List.eraseIdx · 0) h.procs, h.state⟩

/-- Both. -/
structure Searching (st : DiscState) (k : ℕ) (id : U8) (ids : List (U16 × U16 × U8)) (m : Central)
    (log : WiringLog) : Prop extends Unsubscribed k id ids m log where
  probing : ∃ q, Probing st q m

/-- Discovery has ended with these subscriptions, and these Report IDs were read. -/
structure Ended (subs : List HidSubscription) (ids : List (U16 × U16 × U8)) (m : Central)
    (log : WiringLog) : Prop where
  link : ∃ l, m.link = some l
  procs : m.procs = []
  subs_eq : m.subs.take m.subCount = subs
  idsRead_eq : log.idsRead = ids

/-- From bring-up to the first discovery. -/
theorem shows_connected : Shows table fun m _ => Probing .hidsPrimary hidsParams m := by
  have hmeets : LoggedMeeting (.plain table) (undisturbed (.plain table))
      (connectRun ++ [.answer .success]) := of_decide_eq_true rfl
  have hstate : (loggedAfter (.plain table) (connectRun ++ [.answer .success])).map
      (fun x => (x.1.isIdle, x.1.main.link, x.1.main.discState, x.1.main.procs)) =
        some (true, some ⟨0, 7, true, false, false, true⟩, .hidsPrimary,
          [.discover hidsParams]) := rfl
  rcases Option.map_eq_some_iff.mp hstate with ⟨⟨s, log⟩, hs, heq⟩
  simp only [Prod.mk.injEq] at heq
  rcases heq with ⟨hidle, hlink, hstate, hprocs⟩
  exact ⟨s, log, loggedReachable_loggedAfter hmeets hs, Configuration.isIdle_iff.mp hidle,
    ⟨_, hlink, rfl⟩, hstate, hprocs⟩

/-! ### Calls that are answered so -/

/-- The call succeeds. -/
theorem leads_askOr_success {c : Request} {q : Callback Unit}
    (h : Q (granted c m) (noteCall m c log)) : Leads table (askOr c q) Q m log := by
  rw [Leads, askOr, canEnd_bind, canEnd_ask]
  exact ⟨.success, granted c m, rfl, answer_success c m, h⟩

/-- The call is refused. -/
theorem leads_askOr_failure {c : Request} {q : Callback Unit} (hscan : c ≠ .leScanStart)
    (hsub : ∀ n, c ≠ .gattSubscribe n) (h : Leads table q Q m (noteCall m c log)) :
    Leads table (askOr c q) Q m log := by
  rw [Leads, askOr, canEnd_bind, canEnd_ask]
  exact ⟨.failure, m, rfl, answer_refused hscan hsub (by simp) m, h⟩

/-- A discovery that is accepted where none is outstanding is the one that is. -/
theorem procs_granted (hnil : m.procs = []) (q : DiscoverParams) :
    (granted (.gattDiscover q) m).procs = [.discover q] := congrArg (· ++ _) hnil

/-- A search for a descriptor reads no Report ID. -/
theorem idsRead_noteCall {p : DiscoverParams}
    (hp : p.uuid = uuidHidsReportRef ∨ p.uuid = uuidGattCcc) :
    (noteCall m (.gattDiscover p) log).idsRead = log.idsRead := by
  rcases hp with href | hccc
  · rw [noteCall_ref m p href]
    rfl
  · rw [noteCall_ccc m p hccc]
    rfl

/-- The search for the CCC is accepted. -/
theorem leads_discoverCcc (h : Unsubscribed k id ids m log) (hnil : m.procs = []) :
    Leads table discoverCcc (Searching .ccc k id ids) m log := by
  rw [Leads, discoverCcc, canEnd_bind, canEnd_assign, discoverOr, canEnd_bind, canEnd_look]
  exact leads_askOr_success ⟨⟨h.up, h.idx_eq, h.subCount_eq, h.id_eq,
    (idsRead_noteCall (Or.inr rfl)).trans h.idsRead_eq⟩, _, h.up, rfl, procs_granted hnil _⟩

/-- The next report has its turn: the search for its Report Reference is accepted, or it is
refused and the search for the CCC is accepted. -/
theorem leads_subscribePending (h : Unsubscribed k id [] m log) (hleft : k < m.pendingCount)
    (hnil : m.procs = []) {st : DiscState} (hst : st = .reportRef ∨ st = .ccc) :
    Leads table subscribePending (Searching st k 0 []) m log := by
  have hnot : ¬ m.pendingCount ≤ m.pendingIdx := by
    rw [h.idx_eq]
    exact Nat.not_le.mpr hleft
  rw [Leads, subscribePending, canEnd_bind, canEnd_look, if_neg hnot, discoverReportRef,
    canEnd_bind, canEnd_assign, discoverOr, canEnd_bind, canEnd_look]
  have hread (m' : Central) (last : U16) :
      (noteCall m' (.gattDiscover ⟨uuidHidsReportRef, pendingReport m + 1, last, .descriptor⟩)
        log).idsRead = [] := (idsRead_noteCall (Or.inl rfl)).trans h.idsRead_eq
  rcases hst with rfl | rfl
  · exact leads_askOr_success ⟨⟨h.up, h.idx_eq, h.subCount_eq, rfl, hread _ _⟩, _, h.up, rfl,
      procs_granted hnil _⟩
  · refine leads_askOr_failure (by simp) (by simp) ?_
    exact leads_discoverCcc ⟨h.up, h.idx_eq, h.subCount_eq, rfl, hread _ _⟩ hnil

/-- The loop ends where no report is left, or where both searches of the next one are refused. -/
theorem leads_subscribePending_end {subs : List HidSubscription} (h : Ended subs ids m log) :
    Leads table subscribePending (Ended subs ids) m log := by
  rw [Leads, subscribePending, canEnd_bind, canEnd_look]
  split
  · exact ⟨h.link, h.procs, h.subs_eq, h.idsRead_eq⟩
  · rw [discoverReportRef, canEnd_bind, canEnd_assign, discoverOr, canEnd_bind, canEnd_look]
    refine leads_askOr_failure (by simp) (by simp) ?_
    rw [Leads, discoverCcc, canEnd_bind, canEnd_assign, discoverOr, canEnd_bind, canEnd_look]
    refine leads_askOr_failure (by simp) (by simp) ⟨h.link, h.procs, h.subs_eq, ?_⟩
    exact (idsRead_noteCall (Or.inr rfl)).trans
      ((idsRead_noteCall (Or.inl rfl)).trans h.idsRead_eq)

/-- The report is subscribed, and the loop ends. -/
theorem leads_wireReport (h : Unsubscribed k id ids m log) (hnil : m.procs = [])
    (hlen : m.subs.length = maxReports) (a : Attr) :
    Leads table (wireReport a) (Ended [⟨pendingReport m, a.handle, id⟩] ids) m log := by
  have hroom : m.subCount < maxReports := by
    rw [h.subCount_eq]
    decide
  have hmade : (m.subs.set m.subCount ⟨pendingReport m, a.handle, m.curReportId⟩).take
      (m.subCount + 1) = [⟨pendingReport m, a.handle, id⟩] := by
    rw [List.take_succ_eq_append_getElem (by rw [List.length_set, hlen]; exact hroom),
      List.getElem_set_self, h.subCount_eq, h.id_eq, List.take_zero, List.nil_append]
  rw [Leads, wireReport, canEnd_bind, subscribeReport, canEnd_bind, canEnd_look, if_pos hroom,
    canEnd_bind, canEnd_assign, canEnd_bind, canEnd_ask]
  simp only [central_answer]
  refine ⟨.success, _, rfl, answer_success _ _, ?_⟩
  rw [if_neg (by simp), canEnd_assign, canEnd_bind, canEnd_assign]
  rcases h.up with ⟨l, hl, -⟩
  exact leads_subscribePending_end ⟨⟨l, hl⟩, hnil, hmade, h.idsRead_eq⟩

/-! ### Events of the procedures -/

theorem upLink_eq {l : Link} (hl : m.link = some l) (hup : l.up) : upLink m = some l := by
  rw [upLink, hl]
  exact if_pos hup

/-- At the end of a discovery the callback's word does not matter. -/
theorem leads_finishDiscover (h : Leads table discoverDone Q m log) :
    Leads table finishDiscover Q m log := by
  rw [Leads, finishDiscover, canEnd_bind, discoverFunc, canEnd_bind]
  exact h

/-- **A discovery delivers an attribute.** -/
theorem Shows.deliver (horder : InHandleOrder table) (h : Shows table Q)
    (hnext : ∀ m log, Q m log → WiringInv (.plain table) (undisturbed (.plain table)) m log →
      ∃ st q a, Probing st q m ∧ q.next table = some a ∧
        Leads table (deliver q a) Q' (takeProc 0 m) (noteEvent m (.discovered 0) log)) :
    Shows table Q' := by
  refine h.enter horder ?_
  intro m log hQ hinv
  rcases hnext m log hQ hinv with ⟨st, q, a, hprobe, ha, hlead⟩
  rcases hprobe.up with ⟨l, hl, hup⟩
  refine ⟨.discovered 0, _, _, rfl, fun io => ?_, hlead⟩
  simp [BleHidHost.enter, upLink_eq hl hup, hprobe.procs, enterProc, Setup.plain, ha]

/-- **A discovery ends**, at its range's end where it collects the reports. -/
theorem Shows.finish (horder : InHandleOrder table) (h : Shows table Q)
    (hnext : ∀ m log, Q m log → WiringInv (.plain table) (undisturbed (.plain table)) m log →
      ∃ st q, Probing st q m ∧ (st = .reportChrc → q.next table = none) ∧
        Leads table finishDiscover Q' (takeProc 0 m) (noteEvent m (.discoverDone 0) log)) :
    Shows table Q' := by
  refine h.enter horder ?_
  intro m log hQ hinv
  rcases hnext m log hQ hinv with ⟨st, q, hprobe, hend, hlead⟩
  rcases hprobe.up with ⟨l, hl, hup⟩
  refine ⟨.discoverDone 0, _, _, ?_, fun io => ?_, hlead⟩
  · have hwhole : m.discState = .reportChrc → passEnded (.plain table) m 0 := by
      intro hs
      simp [passEnded, hl, hprobe.procs, Setup.plain, hend (hprobe.state.symm.trans hs)]
    exact decide_eq_true hwhole
  · simp [BleHidHost.enter, upLink_eq hl hup, hprobe.procs, enterProc]

/-- Where the HID service is found the Report Map is looked for. -/
theorem shows_reportMap (horder : InHandleOrder table) {a : Attr}
    (ha : hidsParams.next table = some a) :
    Shows table fun m _ => ∃ q, Probing .reportMapChrc q m := by
  refine shows_connected.deliver horder fun m log hprobe _ =>
    ⟨_, _, a, hprobe, ha, ?_⟩
  rcases hprobe.taken with ⟨hnil, hstate⟩
  rw [Leads, BleHidHost.deliver, canEnd_bind, discoverFunc, discovered, canEnd_bind, canEnd_look,
    hstate]
  rw [canEnd_bind, discoverReportMap, canEnd_bind, canEnd_assign, discoverOr, canEnd_bind,
    canEnd_look]
  exact leads_askOr_success ⟨_, hprobe.up, rfl, procs_granted hnil _⟩

/-- Where the Report Map is not found the reports are collected. -/
theorem shows_collecting (horder : InHandleOrder table) {a : Attr}
    (ha : hidsParams.next table = some a) : Shows table fun m log =>
      Probing .reportChrc (reportParams (serviceEnd table)) m ∧ log.idsRead = [] := by
  refine (shows_reportMap horder ha).finish horder ?_
  rintro m log ⟨q, hprobe⟩ hinv
  refine ⟨_, q, hprobe, by simp, ?_⟩
  rcases hprobe.up with ⟨l, hl, hup⟩
  have hend : m.hidsEndHandle = serviceEnd table :=
    ((stage_reportMapChrc (c := cursor m) hprobe.state).mp (hinv.up l hl hup).stage).1
  rcases hprobe.taken with ⟨hnil, hstate⟩
  refine leads_finishDiscover ?_
  rw [Leads, discoverDone, canEnd_bind, canEnd_look, hstate]
  rw [startReportDiscovery, canEnd_bind, canEnd_assign, canEnd_bind, canEnd_assign, canEnd_bind,
    canEnd_assign, discoverOr, canEnd_bind, canEnd_look]
  refine leads_askOr_success ⟨⟨hprobe.up, rfl, ?_⟩, rfl⟩
  rw [reportParams, ← hend]
  exact procs_granted hnil _

/-- **The reports are collected to the end.** -/
theorem shows_collected (horder : InHandleOrder table) {q : DiscoverParams}
    (h : Shows table fun m log => Probing .reportChrc q m ∧ log.idsRead = []) :
    ∃ q, q.next table = none ∧
      Shows table fun m log => Probing .reportChrc q m ∧ log.idsRead = [] := by
  -- by induction on the number of attributes that are left
  induction hn : (table.filter fun b => q.Finds b).length using Nat.strong_induction_on
    generalizing q with
  | _ n ih =>
    subst hn
    cases ha : q.next table with
    | none => exact ⟨q, ha, h⟩
    | some a =>
      rcases DiscoverParams.next_eq_some ha with ⟨hmem, hfinds⟩
      have hfewer : (table.filter fun b => (q.after a).Finds b).length <
          (table.filter fun b => q.Finds b).length := by
        have hafter : (table.filter fun b => (q.after a).Finds b) =
            (table.filter fun b => q.Finds b).filter fun b => a.handle < b.handle := by
          rw [List.filter_filter]
          refine List.filter_congr ?_
          intro b _
          rw [← Bool.decide_and, decide_eq_decide, finds_after_iff hfinds, and_comm]
        rw [hafter, List.length_filter_lt_length_iff_exists]
        exact ⟨a, List.mem_filter.mpr ⟨hmem, decide_eq_true hfinds⟩, by simp⟩
      refine ih _ hfewer ?_ rfl
      refine h.deliver horder ?_
      rintro m log ⟨hprobe, hread⟩ -
      refine ⟨_, q, a, hprobe, ha, ?_⟩
      rcases hprobe.taken with ⟨hnil, hstate⟩
      have hnote : noteEvent m (.discovered 0) log = log := if_neg (by rw [hprobe.state]; simp)
      have hkept : (∃ l, (collectReport a (takeProc 0 m)).link = some l ∧ l.up) ∧
          (collectReport a (takeProc 0 m)).discState = .reportChrc ∧
          (collectReport a (takeProc 0 m)).procs = [] := by
        unfold collectReport
        split <;> exact ⟨hprobe.up, hstate, hnil⟩
      rw [hnote, Leads, BleHidHost.deliver, canEnd_bind, discoverFunc, discovered, canEnd_bind,
        canEnd_look, hstate]
      rw [canEnd_bind, canEnd_assign, canEnd_pure, canEnd_assign]
      exact ⟨⟨hkept.1, hkept.2.1, congrArg (· ++ _) hkept.2.2⟩, hread⟩

/-- **The first report has its turn.** -/
theorem shows_first (horder : InHandleOrder table) (hsome : 0 < (pendingOf table).length)
    {st : DiscState} (hst : st = .reportRef ∨ st = .ccc) :
    Shows table (Searching st 0 0 []) := by
  obtain ⟨a, ha⟩ : ∃ a, hidsParams.next table = some a := by
    cases hservice : hidsParams.next table with
    | some a => exact ⟨a, rfl⟩
    | none =>
      -- the range of the pass over the reports is empty
      have hempty : (reportParams (serviceEnd table)).next table = none := by
        rw [serviceEnd, hservice]
        refine List.find?_eq_none.mpr fun b _ hb => ?_
        rcases of_decide_eq_true hb with ⟨-, -, hfirst, hlast⟩
        simp only [reportParams, firstAttributeHandle, Option.map_none, Option.getD_none]
          at hfirst hlast
        bv_omega
      rw [pendingOf, reportHandles, collectable_eq_nil hempty] at hsome
      exact absurd hsome (by simp)
  rcases shows_collected horder (shows_collecting horder ha) with ⟨q, hnone, hshows⟩
  refine hshows.finish horder ?_
  rintro m log ⟨hprobe, hread⟩ hinv
  refine ⟨_, q, hprobe, fun _ => hnone, ?_⟩
  rcases hprobe.up with ⟨l, hl, hup⟩
  obtain ⟨hend, q', hprocs, hcollect⟩ :=
    (stage_reportChrc (c := cursor m) hprobe.state).mp (hinv.up l hl hup).stage
  rcases hprobe.taken with ⟨hnil, hstate⟩
  cases Proc.discover.inj (List.cons_eq_cons.mp (hprobe.procs.symm.trans hprocs)).1
  have hprog := hcollect.progress hnone
  have hcount : 0 < m.pendingCount := by
    have hlen : (pendingOf table).length = m.pendingCount := hprog.length_eq
    omega
  have hzero : (takeProc 0 m).pendingCount ≠ 0 := Nat.ne_of_gt hcount
  have hnote : noteEvent m (.discoverDone 0) log = { log with collected := true } := by
    rw [noteEvent, hprobe.state]
  rw [hnote]
  refine leads_finishDiscover ?_
  rw [Leads, discoverDone, canEnd_bind, canEnd_look, hstate]
  rw [reportsCollected, canEnd_bind, canEnd_look, if_neg hzero, canEnd_bind, canEnd_assign]
  have hbefore : Unsubscribed 0 m.curReportId [] { takeProc 0 m with pendingIdx := 0 }
      { log with collected := true } := ⟨hprobe.up, rfl, hcollect.subCount_eq, rfl, hread⟩
  exact leads_subscribePending hbefore hcount hnil hst

/-- **Each report has its turn**: the search for the CCC of the one before ends without it. -/
theorem shows_turn (horder : InHandleOrder table) (hk : k < (pendingOf table).length)
    {st : DiscState} (hst : st = .reportRef ∨ st = .ccc) : Shows table (Searching st k 0 []) := by
  induction k generalizing st with
  | zero => exact shows_first horder hk hst
  | succ k ih =>
    have hbefore : Shows table (Searching .ccc k 0 []) := ih (Nat.lt_of_succ_lt hk) (Or.inr rfl)
    refine hbefore.finish horder ?_
    intro m log h hinv
    rcases h.probing with ⟨q, hprobe⟩
    refine ⟨_, q, hprobe, by simp, leads_finishDiscover ?_⟩
    rcases hprobe.up with ⟨l, hl, hup⟩
    rcases (stage_ccc (c := cursor m) hprobe.state).mp (hinv.up l hl hup).stage with ⟨hcur, -⟩
    have hlen : (pendingOf table).length = m.pendingCount := hcur.progress.length_eq
    rcases hprobe.taken with ⟨hnil, hstate⟩
    have hnote : noteEvent m (.discoverDone 0) log = log.read m := by
      rw [noteEvent, hprobe.state]
    rw [hnote, Leads, discoverDone, canEnd_bind, canEnd_look, hstate]
    rw [canEnd_bind, canEnd_assign]
    have hnext : Unsubscribed (k + 1) 0 []
        { takeProc 0 m with pendingIdx := (takeProc 0 m).pendingIdx + 1 } (log.read m) :=
      ⟨hprobe.up, congrArg (· + 1) h.idx_eq, h.subCount_eq, h.id_eq, h.idsRead_eq⟩
    exact leads_subscribePending hnext (hlen ▸ hk) hnil hst

/-- The Report Reference that is found for a report is read, and gives ID 1. -/
theorem shows_identified (horder : InHandleOrder table) (hk : k < (pendingOf table).length)
    {d : Attr} (hd : (searchWindow table k uuidHidsReportRef).next table = some d) :
    Shows table (Searching .ccc k 1 [((pendingOf table).getD k 0, d.handle, 1)]) := by
  -- the read is accepted
  have hreading : Shows table fun m log => Unsubscribed k 0 [] m log ∧
      m.discState = .reportRef ∧ m.procs = [.readRef d.handle] := by
    refine (shows_turn horder hk (Or.inl rfl)).deliver horder ?_
    intro m log h hinv
    rcases h.probing with ⟨q, hprobe⟩
    rcases hprobe.up with ⟨l, hl, hup⟩
    have hq : q = searchWindow table k uuidHidsReportRef := by
      rcases (stage_reportRef (c := cursor m) hprobe.state).mp (hinv.up l hl hup).stage with
        ⟨-, ⟨hprocs, -⟩ | ⟨d, -, hprocs⟩⟩
      · have heq := (List.cons_eq_cons.mp (hprobe.procs.symm.trans hprocs)).1
        rw [← h.idx_eq]
        exact Proc.discover.inj heq
      · exact absurd (hprobe.procs.symm.trans hprocs) (by simp)
    subst hq
    refine ⟨_, _, d, hprobe, hd, ?_⟩
    rcases hprobe.taken with ⟨hnil, hstate⟩
    have hnote : noteEvent m (.discovered 0) log = log := if_neg (by rw [hprobe.state]; simp)
    rw [hnote, Leads, BleHidHost.deliver, canEnd_bind, discoverFunc, discovered, canEnd_bind,
      canEnd_look, hstate]
    rw [canEnd_bind, readReportRef]
    exact leads_askOr_success
      ⟨⟨h.up, h.idx_eq, h.subCount_eq, h.id_eq, h.idsRead_eq⟩, hstate, congrArg (· ++ _) hnil⟩
  -- and its response is this ID
  refine hreading.enter horder ?_
  rintro m log ⟨h, hstate, hprocs⟩ hinv
  rcases h.up with ⟨l, hl, hup⟩
  rcases (stage_reportRef (c := cursor m) hstate).mp (hinv.up l hl hup).stage with ⟨hcur, -⟩
  have hvalue : pendingReport m = (pendingOf table).getD k 0 := by
    rw [← h.idx_eq]
    exact hcur.pendingReport_eq
  have hnil : (takeProc 0 m).procs = [] := congrArg (List.eraseIdx · 0) hprocs
  refine ⟨.readResponse 0 false [1], takeProc 0 m, respondRef false [1], rfl, fun io => ?_, ?_⟩
  · simp [BleHidHost.enter, upLink_eq hl hup, hprocs, enterProc]
  · have hnote : noteEvent m (.readResponse 0 false [1]) log =
        { log with idsRead := [((pendingOf table).getD k 0, d.handle, 1)] } := by
      simp [noteEvent, hprocs, noteResponse, h.idsRead_eq, hvalue]
    rw [hnote, Leads, respondRef, canEnd_bind, reportRefReadCb, canEnd_bind, canEnd_assign]
    rw [canEnd_bind]
    have hnext : Unsubscribed k 1 [((pendingOf table).getD k 0, d.handle, 1)]
        { takeProc 0 m with curReportId := 1 }
        { log with idsRead := [((pendingOf table).getD k 0, d.handle, 1)] } :=
      ⟨h.up, h.idx_eq, h.subCount_eq, rfl, rfl⟩
    exact leads_discoverCcc hnext hnil

/-- The CCC that is found for a report is subscribed with, and discovery ends. -/
theorem shows_subscribed (horder : InHandleOrder table) (h : Shows table (Searching .ccc k id ids))
    {a : Attr} (ha : (searchWindow table k uuidGattCcc).next table = some a) :
    Shows table (Ended [⟨(pendingOf table).getD k 0, a.handle, id⟩] ids) := by
  refine h.deliver horder ?_
  intro m log h hinv
  rcases h.probing with ⟨q, hprobe⟩
  rcases hprobe.up with ⟨l, hl, hup⟩
  rcases (stage_ccc (c := cursor m) hprobe.state).mp (hinv.up l hl hup).stage with ⟨hcur, -, hprocs⟩
  have hq : q = searchWindow table k uuidGattCcc := by
    have heq := (List.cons_eq_cons.mp (hprobe.procs.symm.trans hprocs)).1
    rw [← h.idx_eq]
    exact Proc.discover.inj heq
  subst hq
  have hvalue : pendingReport m = (pendingOf table).getD k 0 := by
    rw [← h.idx_eq]
    exact hcur.pendingReport_eq
  rcases hprobe.taken with ⟨hnil, hstate⟩
  have hnote : noteEvent m (.discovered 0) log =
      { log with found := log.found ++ [pendingReport m] } := if_pos hprobe.state
  refine ⟨_, _, a, hprobe, ha, ?_⟩
  rw [hnote, Leads, BleHidHost.deliver, canEnd_bind, discoverFunc, discovered, canEnd_bind,
    canEnd_look, hstate]
  rw [canEnd_bind]
  have hbefore : Unsubscribed k id ids (takeProc 0 m)
      { log with found := log.found ++ [pendingReport m] } :=
    ⟨h.up, h.idx_eq, h.subCount_eq, h.id_eq, h.idsRead_eq⟩
  rw [← hvalue]
  exact leads_wireReport hbefore hnil hcur.progress.lengths.subs a

end Shows

end BleHidHost
