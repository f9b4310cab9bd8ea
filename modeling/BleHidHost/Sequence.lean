import BleHidHost.Rules

/-!
# Discovery is sequential

The discovery parameters, the read parameters and the buffer of the Report Map are
shared, so only one GATT procedure may be outstanding, and `disc_state` has to tell
what its result is.  Every callback of a procedure starts the next one after its own
has completed.  The one callback that starts a procedure without having completed
one is `security_changed`, which the stack enters at every encryption change.

## Main definitions

* `Sequential` — at most one procedure is outstanding, and `disc_state` names it.
* `restartsAlone` — success of a security procedure is only reported while no
  procedure is outstanding.

## Main results

* `sequential_of_restartsAlone` — **a run in which security restarts alone is
  sequential.**
* `second_success_overlaps` — a second report of success starts a second discovery.
-/

namespace BleHidHost

open Lib Lib.Prog

/-- What a discovery started in this state looks for. -/
def discKind : DiscState → Option (DiscoverType × U16)
  | .idle => none
  | .hidsPrimary => some (.primary, uuidHids)
  | .reportMapChrc => some (.characteristic, uuidHidsReportMap)
  | .reportChrc => some (.characteristic, uuidHidsReport)
  | .reportRef => some (.descriptor, uuidHidsReportRef)
  | .ccc => some (.descriptor, uuidGattCcc)

/-- The state names the kind of the procedure's result. -/
def Names (state : DiscState) : Proc → Prop
  | .discover p => discKind state = some (p.type, p.uuid)
  | .readMap _ _ => state = .reportMapChrc
  | .readRef _ => state = .reportRef

/-- At most one procedure is outstanding, and `disc_state` names it. -/
structure Sequential (m : Central) : Prop where
  one : m.procs.length ≤ 1
  named : ∀ p ∈ m.procs, Names m.discState p

/-- The states of a discovery before its Report Map is read. -/
def DiscState.isEarly : DiscState → Bool
  | .hidsPrimary => true
  | .reportMapChrc => true
  | _ => false

/-- What a callback leaves: it is back before the read of the Report Map only if it was
so `early` before. -/
structure Follows (early : Bool) (m : Central) : Prop extends Sequential m where
  late : m.discState.isEarly → early

/-- Success of a security procedure is reported while no procedure is outstanding. -/
def restartsAlone : Condition where
  onAnswer _ _ _ := true
  onEvent m e :=
    match e with
    | .securityChanged level err => !reportsSecured level err || m.procs.isEmpty
    | _ => true
  onWork _ _ := true

/-- The same, at every action. -/
def sequentially (m : Central) (_ : Pipeline) : Prop := Sequential m

variable {cfg : Setup} {P : Condition} {m : Central} {Q : Unit → Central → Prop}

/-- No procedure is outstanding. -/
theorem Sequential.of_nil (h : m.procs = []) : Sequential m where
  one := by simp [h]
  named p hp := by simp [h] at hp

/-- One procedure is outstanding. -/
theorem Sequential.of_singleton {p : Proc} (h : m.procs = [p]) (hp : Names m.discState p) :
    Sequential m where
  one := by simp [h]
  named q hq := by
    rw [h, List.mem_singleton] at hq
    rwa [hq]

/-- The outstanding procedure is taken when its callback is entered. -/
theorem Sequential.take (h : Sequential m) {n : ℕ} {p : Proc} (hp : m.procs[n]? = some p) :
    (takeProc n m).procs = [] ∧ Names m.discState p := by
  refine ⟨?_, h.named p (List.mem_of_getElem? hp)⟩
  -- it was the only one
  have hlt : n < m.procs.length := (List.getElem?_eq_some_iff.mp hp).choose
  have hone : m.procs.length = 1 := by
    have := h.one
    omega
  apply List.eq_nil_of_length_eq_zero
  rw [takeProc, List.length_eraseIdx_of_lt hlt, hone]

/-! ### Callbacks that start the next procedure -/

/-- An assignment while no procedure is outstanding. -/
theorem safe_assign_alone {f : Central → Central} (h : (f m).procs = []) (hQ : Q () (f m)) :
    (assign f).Safe (central cfg) P sequentially Q m :=
  (safe_assign f).mpr ⟨fun _ _ => .of_nil h, hQ⟩

/-- What follows is sequential. -/
theorem safe_sequential {p : Callback Unit} {early : Bool}
    (h : p.Safe (central cfg) P sequentially (fun _ => Follows early) m) :
    p.Safe (central cfg) P sequentially (fun _ => Sequential) m :=
  h.mono fun _ _ hfollows => hfollows.toSequential

/-- A procedure that the state names may be started while no other is outstanding. -/
theorem safe_askOr_alone {c : Request} {p : Proc} {q : Callback Unit}
    (hc : c = .gattRead p ∨ ∃ d, c = .gattDiscover d ∧ p = .discover d) (h : m.procs = [])
    (hp : Names m.discState p)
    (hQ : Sequential { m with procs := m.procs ++ [p] } → Q () { m with procs := m.procs ++ [p] })
    (hq : q.Safe (central cfg) P sequentially Q m) :
    (askOr c q).Safe (central cfg) P sequentially Q m := by
  have hnext : Sequential { m with procs := m.procs ++ [p] } :=
    .of_singleton (p := p) (by rw [h, List.nil_append]) hp
  rcases hc with rfl | ⟨d, rfl, rfl⟩
  · exact (safe_askOr (by simp) (by simp) q).mpr
      ⟨fun _ => ⟨fun _ _ => hnext, hQ hnext⟩, fun _ _ _ => hq⟩
  · exact (safe_askOr (by simp) (by simp) q).mpr
      ⟨fun _ => ⟨fun _ _ => hnext, hQ hnext⟩, fun _ _ _ => hq⟩

/-- A discovery for what the state names. -/
theorem safe_discoverOr_alone {q : Callback Unit} (h : m.procs = [])
    (hkind : discKind m.discState = some (m.discoverParams.type, m.discoverParams.uuid))
    (hQ : ∀ p, Sequential { m with procs := m.procs ++ [p] } →
      Q () { m with procs := m.procs ++ [p] })
    (hq : q.Safe (central cfg) P sequentially Q m) :
    (discoverOr q).Safe (central cfg) P sequentially Q m := by
  rw [discoverOr, safe_bind, safe_look]
  exact safe_askOr_alone (Or.inr ⟨_, rfl, rfl⟩) h hkind (hQ _) hq

theorem safe_discIdle_alone (h : m.procs = []) :
    discIdle.Safe (central cfg) P sequentially (fun _ => Follows false) m :=
  safe_assign_alone h ⟨.of_nil h, (absurd · Bool.false_ne_true)⟩

theorem safe_discoverCcc_alone (h : m.procs = []) :
    discoverCcc.Safe (central cfg) P sequentially (fun _ => Follows false) m := by
  rw [discoverCcc, safe_bind]
  apply safe_assign_alone h
  exact safe_discoverOr_alone h rfl (fun _ hseq => ⟨hseq, (absurd · Bool.false_ne_true)⟩)
    (safe_discIdle_alone h)

theorem safe_subscribePending_alone (h : m.procs = []) :
    subscribePending.Safe (central cfg) P sequentially (fun _ => Follows false) m := by
  rw [subscribePending, safe_bind, safe_look, safe_ite, discoverReportRef, safe_bind]
  refine ⟨fun _ => safe_discIdle_alone h, fun _ => safe_assign_alone h ?_⟩
  exact safe_discoverOr_alone h rfl (fun _ hseq => ⟨hseq, (absurd · Bool.false_ne_true)⟩)
    (safe_discoverCcc_alone h)

theorem safe_startReportDiscovery_alone (h : m.procs = []) :
    startReportDiscovery.Safe (central cfg) P sequentially (fun _ => Follows false) m := by
  simp only [startReportDiscovery, safe_bind]
  refine safe_assign_alone h (safe_assign_alone h (safe_assign_alone h ?_))
  exact safe_discoverOr_alone h rfl (fun _ hseq => ⟨hseq, (absurd · Bool.false_ne_true)⟩)
    (safe_discIdle_alone h)

theorem safe_startDiscovery_alone (h : m.procs = []) :
    startDiscovery.Safe (central cfg) P sequentially (fun _ => Sequential) m := by
  simp only [startDiscovery, safe_bind]
  refine safe_assign_alone h (safe_assign_alone h ?_)
  exact safe_discoverOr_alone h rfl (fun _ hseq => hseq) (Sequential.of_nil h)

theorem safe_discoverReportMap_alone (h : m.procs = []) (a : Attr) :
    (discoverReportMap a).Safe (central cfg) P sequentially (fun _ => Sequential) m := by
  rw [discoverReportMap, safe_bind]
  refine safe_assign_alone h (safe_discoverOr_alone h rfl (fun _ hseq => hseq) ?_)
  exact safe_sequential (safe_discIdle_alone h)

theorem safe_readReportMap_alone (h : m.procs = []) (hstate : m.discState = .reportMapChrc)
    (handle : U16) :
    (readReportMap handle).Safe (central cfg) P sequentially (fun _ => Sequential) m := by
  rw [readReportMap, safe_bind]
  refine safe_assign_alone h (safe_askOr_alone (Or.inl rfl) h hstate (fun hseq => hseq) ?_)
  exact safe_sequential (safe_startReportDiscovery_alone h)

theorem safe_readReportRef_alone (h : m.procs = []) (hstate : m.discState = .reportRef)
    (handle : U16) :
    (readReportRef handle).Safe (central cfg) P sequentially (fun _ => Follows false) m := by
  refine safe_askOr_alone (Or.inl rfl) h hstate (fun hseq => ⟨hseq, fun hearly => ?_⟩) ?_
  · rw [hstate] at hearly
    cases hearly
  · rw [safe_bind]
    exact safe_assign_alone h (safe_discoverCcc_alone h)

theorem safe_subscribeReport_alone (h : m.procs = []) (a : Attr)
    (hQ : ∀ m' : Central, m'.procs = [] → Q () m') :
    (subscribeReport a).Safe (central cfg) P sequentially Q m := by
  rw [subscribeReport, safe_bind, safe_look, safe_ite, safe_bind]
  refine ⟨fun _ => safe_assign_alone h ?_, fun _ => hQ m h⟩
  rw [safe_bind, safe_ask, central_answer]
  intro err m' _ hans
  have hprocs : m'.procs = [] := by
    cases err <;> cases hans <;> exact h
  refine ⟨fun _ _ => .of_nil hprocs, ?_⟩
  rw [safe_ite]
  exact ⟨fun _ => hQ m' hprocs, fun _ => safe_assign_alone hprocs (hQ _ hprocs)⟩

theorem safe_wireReport_alone (h : m.procs = []) (a : Attr) :
    (wireReport a).Safe (central cfg) P sequentially (fun _ => Follows false) m := by
  rw [wireReport, safe_bind]
  apply safe_subscribeReport_alone h a
  intro m' hm'
  rw [safe_bind]
  exact safe_assign_alone hm' (safe_subscribePending_alone hm')

/-! ### Callbacks of procedures -/

theorem Follows.weaken (h : Follows false m) (early : Bool) : Follows early m :=
  ⟨h.toSequential, fun hearly => absurd (h.late hearly) Bool.false_ne_true⟩

/-- A callback that lets its procedure go on has left the state alone. -/
def resumes (state : DiscState) : Iter → Central → Prop
  | .continue, m => m.procs = [] ∧ m.discState = state
  | .stop, m => Follows state.isEarly m

theorem safe_stop_alone {p : Callback Unit} {state : DiscState}
    (hp : p.Safe (central cfg) P sequentially (fun _ => Follows state.isEarly) m) :
    (do p; pure Iter.stop : Callback Iter).Safe (central cfg) P sequentially (resumes state) m := by
  rw [safe_bind]
  exact hp

theorem safe_discovered_alone (h : m.procs = []) (a : Attr) {state : DiscState}
    (hstate : m.discState = state) :
    (discovered a).Safe (central cfg) P sequentially (resumes state) m := by
  rw [discovered, safe_bind, safe_look, hstate]
  cases state with
  | idle => exact ⟨.of_nil h, fun hearly => by rwa [hstate] at hearly⟩
  | hidsPrimary =>
    exact safe_stop_alone
      ((safe_discoverReportMap_alone h a).mono fun _ _ hseq => ⟨hseq, fun _ => rfl⟩)
  | reportMapChrc =>
    exact safe_stop_alone
      ((safe_readReportMap_alone h hstate _).mono fun _ _ hseq => ⟨hseq, fun _ => rfl⟩)
  | reportChrc =>
    -- the pass goes on, in the same state
    have hcollect : (collectReport a m).procs = [] ∧
        (collectReport a m).discState = .reportChrc := by
      unfold collectReport
      split <;> exact ⟨h, hstate⟩
    rw [safe_bind]
    exact safe_assign_alone hcollect.1 hcollect
  | reportRef => exact safe_stop_alone (safe_readReportRef_alone h hstate _)
  | ccc => exact safe_stop_alone (safe_wireReport_alone h a)

theorem safe_finishDiscover_alone (h : m.procs = []) :
    finishDiscover.Safe (central cfg) P sequentially (fun _ => Follows m.discState.isEarly) m := by
  simp only [finishDiscover, discoverFunc, discoverDone, safe_bind, safe_look]
  cases hstate : m.discState with
  | idle => exact ⟨.of_nil h, fun hearly => by rwa [hstate] at hearly⟩
  | hidsPrimary => exact ⟨.of_nil h, fun _ => rfl⟩
  | reportMapChrc =>
    exact (safe_startReportDiscovery_alone h).mono fun _ _ hfollows => hfollows.weaken _
  | reportChrc =>
    show Prog.Safe _ _ _ reportsCollected _ m
    rw [reportsCollected, safe_bind, safe_look, safe_ite, safe_bind]
    exact ⟨fun _ => safe_discIdle_alone h, fun _ =>
      safe_assign_alone h (safe_subscribePending_alone h)⟩
  | reportRef => exact safe_discoverCcc_alone h
  | ccc =>
    show Prog.Safe _ _ _ _ _ m
    rw [safe_bind]
    exact safe_assign_alone h (safe_subscribePending_alone h)

theorem safe_writeLayouts_alone (h : m.procs = []) (ls : List ReportLayout)
    (hQ : ∀ m' : Central, m'.procs = [] → Q () m') :
    (writeLayouts ls).Safe (central cfg) P sequentially Q m := by
  induction ls generalizing m with
  | nil => exact hQ m h
  | cons l ls ih =>
    rw [writeLayouts, safe_bind]
    exact safe_assign_alone h (ih h)

theorem safe_parseReportMap_alone (h : m.procs = [])
    (hQ : ∀ m' : Central, m'.procs = [] → Q () m') :
    (parseReportMap cfg).Safe (central cfg) P sequentially Q m := by
  rw [parseReportMap, safe_bind, safe_look, safe_bind]
  apply safe_writeLayouts_alone h _
  intro m' hm'
  rw [safe_bind]
  apply safe_assign_alone hm'
  rw [safe_ite]
  exact ⟨fun _ => safe_assign_alone hm' (hQ _ hm'), fun _ => hQ _ hm'⟩

/-- A procedure goes on. -/
theorem safe_resume_alone {p : Proc} (h : m.procs = []) (hp : Names m.discState p) :
    (assign fun m : Central => { m with procs := m.procs ++ [p] } : Callback Unit).Safe
      (central cfg) P sequentially (fun _ => Follows m.discState.isEarly) m := by
  have hnext : Sequential { m with procs := m.procs ++ [p] } :=
    .of_singleton (p := p) (by rw [h, List.nil_append]) hp
  exact (safe_assign _).mpr ⟨fun _ _ => hnext, hnext, fun hearly => hearly⟩

theorem safe_deliver_alone (h : m.procs = []) {q : DiscoverParams}
    (hq : Names m.discState (.discover q)) (a : Attr) :
    (deliver q a).Safe (central cfg) P sequentially (fun _ => Follows m.discState.isEarly) m := by
  rw [deliver, safe_bind]
  apply (safe_discovered_alone h a rfl).mono
  intro i m' hm'
  cases i with
  | stop => exact hm'
  | «continue» =>
    -- what is left of the discovery is of the same kind
    rw [← hm'.2]
    apply safe_resume_alone hm'.1
    rw [hm'.2, DiscoverParams.after]
    split <;> exact hq

/-- The end of a Report Map read, with or without an error. -/
theorem safe_respondMap_end (h : m.procs = []) (handle : U16) (received : List U8) (err : Bool)
    {data : List U8} (hend : err ∨ data = []) :
    (respondMap cfg handle received err data).Safe (central cfg) P sequentially
      (fun _ => Follows false) m := by
  rw [respondMap, safe_bind, reportMapReadCb, safe_ite, safe_ite]
  refine ⟨fun _ => ?_, fun herr => ⟨fun hdata => ?_, fun _ => ?_⟩⟩
  · -- an error: the reports are discovered without a layout
    rw [safe_bind]
    exact safe_startReportDiscovery_alone h
  · exact absurd (hend.resolve_left herr) hdata
  · -- the value is complete
    rw [safe_bind]
    apply safe_parseReportMap_alone h
    intro m' hm'
    rw [safe_bind]
    exact safe_startReportDiscovery_alone hm'

/-- A chunk of a Report Map: the read goes on. -/
theorem respondMap_chunk (handle : U16) (received : List U8) {data : List U8} (hdata : data ≠ []) :
    respondMap cfg handle received false data = (do
      assign fun m => storeChunk m data
      assign fun m => { m with procs := m.procs ++ [.readMap handle (received ++ data)] }) := by
  rw [respondMap, reportMapReadCb, if_neg Bool.false_ne_true, if_pos hdata]
  rfl

theorem safe_respondMap_alone (h : m.procs = []) (hstate : m.discState = .reportMapChrc)
    (handle : U16) (received : List U8) (err : Bool) (data : List U8) :
    (respondMap cfg handle received err data).Safe (central cfg) P sequentially
      (fun _ => Sequential) m := by
  by_cases hend : err ∨ data = []
  · exact safe_sequential (safe_respondMap_end h handle received err hend)
  · push Not at hend
    rw [Bool.eq_false_of_not_eq_true hend.1, respondMap_chunk handle received hend.2, safe_bind]
    apply safe_assign_alone h
    exact safe_sequential (safe_resume_alone h hstate)

theorem safe_respondRef_alone (h : m.procs = []) (err : Bool) (data : List U8) :
    (respondRef err data).Safe (central cfg) P sequentially (fun _ => Follows false) m := by
  simp only [respondRef, reportRefReadCb, safe_bind]
  exact safe_assign_alone h (safe_discoverCcc_alone h)

/-! ### Callbacks of the connection -/

/-- The connection callbacks neither start procedures nor move the state. -/
theorem Sequential.congr {m' : Central} (h : Sequential m) (hprocs : m'.procs = m.procs)
    (hstate : m'.discState = m.discState) : Sequential m' where
  one := by
    rw [hprocs]
    exact h.one
  named := by
    rw [hprocs, hstate]
    exact h.named

theorem sequentially_offLink {m' : Central} {io : Pipeline} (heq : offLink m' = offLink m)
    (h : sequentially m io) : sequentially m' io := by
  have hleft {α : Type} (f : Central → α) : f (offLink m') = f (offLink m) := by rw [heq]
  exact Sequential.congr h (hleft (·.procs)) (hleft (·.discState))

theorem sequentially_offScan {m' : Central} {io : Pipeline} (heq : offScan m' = offScan m)
    (h : sequentially m io) : sequentially m' io :=
  sequentially_offLink (offLink_eq_of_offScan heq) h

theorem Sequential.safe_keeps (h : Sequential m) {p : Callback Unit}
    (hp : p.Keeps (central cfg) P sequentially) :
    p.Safe (central cfg) P sequentially (fun _ => Sequential) m :=
  Keeps.safe (I := Sequential) hp h

theorem safe_disconnected_alone (h : m.procs = []) (conn : ℕ) :
    (disconnected cfg conn).Safe (central cfg) P sequentially (fun _ => Sequential) m := by
  rw [disconnected, safe_bind, safe_look, safe_ite]
  refine ⟨fun _ => .of_nil h, ?_⟩
  intro _
  simp only [unrefDefaultConn, invalidateLayout, safe_bind, safe_emit]
  refine safe_assign_alone h (safe_assign_alone h (safe_assign_alone h (safe_assign_alone h ?_)))
  refine ⟨fun _ _ => .of_nil h, safe_assign_alone h ⟨fun _ _ => .of_nil h, fun _ hJ => hJ, ?_⟩⟩
  refine Sequential.safe_keeps ?_ (keeps_startScan_offScan sequentially_offScan)
  exact .of_nil h

/-! ### Runs -/

/-- **Each event is survived.** -/
theorem Sequential.safe_enter (h : Sequential m) {e : Event} {m' : Central} {io io' : Pipeline}
    {p : Callback Unit} (hok : restartsAlone.onEvent m e) (henter : Entered cfg m io e m' io' p) :
    Sequential m' ∧ p.Safe (central cfg) P sequentially (fun _ => Sequential) m' := by
  cases henter with
  | advertise addr type ad =>
    refine ⟨h, h.safe_keeps ?_⟩
    exact keeps_deviceFound (J := sequentially) sequentially_offScan addr type ad
  | scanRetry =>
    have hretry : Sequential { m with retryPending := false } := h.congr rfl rfl
    exact ⟨hretry, hretry.safe_keeps (keeps_scanRetryHandler sequentially_offScan)⟩
  | @connected err l =>
    have hlink : Sequential { m with link := if err then none else some { l with up := true } } :=
      h.congr rfl rfl
    exact ⟨hlink, hlink.safe_keeps (keeps_connected (J := sequentially) sequentially_offScan err)⟩
  | @securityChanged level err l =>
    have hlink : Sequential { m with
        link := some { l with
          securing := false
          secured := l.secured || reportsSecured level err } } := h.congr rfl rfl
    refine ⟨hlink, ?_⟩
    rw [securityChanged, safe_ite]
    refine ⟨fun _ => hlink.safe_keeps
      (keeps_securityFailed (J := sequentially) sequentially_offLink _), ?_⟩
    intro hsecured
    -- the condition: no procedure is outstanding here
    refine safe_startDiscovery_alone (List.isEmpty_iff.mp ?_)
    have hreports : reportsSecured level err = true := reportsSecured_iff.mpr hsecured
    simpa [restartsAlone, hreports] using hok
  | disconnected => exact ⟨.of_nil rfl, safe_disconnected_alone rfl _⟩
  | discovered n hl hup hq =>
    obtain ⟨hnil, hnames⟩ := h.take hq
    exact ⟨.of_nil hnil, safe_sequential (safe_deliver_alone hnil hnames _)⟩
  | discoverDone n hl hup hq =>
    obtain ⟨hnil, -⟩ := h.take hq
    exact ⟨.of_nil hnil, safe_sequential (safe_finishDiscover_alone hnil)⟩
  | readMap n err data hl hup hq =>
    obtain ⟨hnil, hnames⟩ := h.take hq
    refine ⟨.of_nil hnil, safe_respondMap_alone ?_ ?_ _ _ err data⟩
    · exact hnil
    · exact hnames
  | readRef n err data hl hup hq =>
    obtain ⟨hnil, -⟩ := h.take hq
    exact ⟨.of_nil hnil, safe_sequential (safe_respondRef_alone hnil err data)⟩
  | notified slot data =>
    exact ⟨h, h.safe_keeps ((keeps_emit _ _).mpr fun _ _ h => h.congr rfl rfl)⟩
  | unsubscribed slot =>
    have hsub : Sequential { m with subscribed := m.subscribed.erase slot } := h.congr rfl rfl
    exact ⟨hsub, hsub.safe_keeps ((keeps_assign _).mpr fun _ _ h => h.congr rfl rfl)⟩
  | timePasses => exact ⟨h.congr rfl rfl, h.congr rfl rfl⟩
  | bonded => exact ⟨h.congr rfl rfl, h.congr rfl rfl⟩

/-- Every state reached is sequential. -/
theorem sequential_of_reachable {s : System} (h : Reachable cfg restartsAlone s) :
    Sequential s.main := by
  obtain ⟨bonds, uptime, accepts, hreach⟩ := h
  have hstart : Sequential (Central.start bonds uptime) := .of_nil rfl
  refine (Machine.invariant (I := Sequential) (J := sequentially)
    ?_ (fun _ _ h _ => h) (fun e m io m' io' p hI _ hok henter => ?_) hreach).1
  · exact ⟨hstart, hstart.safe_keeps (keeps_startScan_offScan sequentially_offScan)⟩
  · exact hI.safe_enter hok (entered_of_enter henter)

/-- **Discovery is sequential** in a run where success of a security procedure is only
reported while no procedure is outstanding: in every state at most one is, its kind
is that of `disc_state`, and so is that of each attribute it can deliver. -/
theorem sequential_of_restartsAlone {s : System} (h : Reachable cfg restartsAlone s) :
    Sequential s.main ∧
      ∀ (n : ℕ) (q : DiscoverParams) (table : List Attr) (a : Attr),
        s.main.procs[n]? = some (.discover q) → q.next table = some a →
          discKind s.main.discState = some (a.type, a.uuid) := by
  have hseq := sequential_of_reachable h
  refine ⟨hseq, ?_⟩
  intro n q table a hq ha
  -- what the discovery delivers is of the kind that it looks for
  have hfinds : q.Finds a := (DiscoverParams.next_eq_some ha).2
  rw [hfinds.1, hfinds.2.1]
  exact hseq.named _ (List.mem_of_getElem? hq)

/-! ### Overlapping discoveries -/

/-- A security procedure reports success again while the first discovery is
outstanding. -/
def securedTwice : List (Action Errno Event) :=
  connectRun ++ [.answer .success, .event (.securityChanged 2 false)] ++ succeedsAfter 3

/-- After the first report of success, one discovery is outstanding. -/
theorem first_success_sequential :
    ∃ s, stateAfter (.plain []) (connectRun ++ [.answer .success]) = some s ∧
      s.main.procs.length = 1 ∧ Sequential s.main := by
  have hmeets : Meeting (.plain []) restartsAlone (connectRun ++ [.answer .success]) := by decide
  have hprocs : (stateAfter (.plain []) (connectRun ++ [.answer .success])).map
      (fun s => s.main.procs.length) = some 1 := by decide
  obtain ⟨s, hs, hone⟩ := Option.map_eq_some_iff.mp hprocs
  exact ⟨s, hs, hone, (sequential_of_restartsAlone (reachable_stateAfter hmeets hs)).1⟩

/-- A second report of success starts a second discovery over the first. -/
theorem second_success_overlaps :
    ∃ s, stateAfter (.plain []) securedTwice = some s ∧ Reachable (.plain []) Policy.any s ∧
      s.main.procs.length = 2 ∧ ¬ Sequential s.main := by
  have hmeets : Meeting (.plain []) Policy.any securedTwice := by decide
  have hprocs : (stateAfter (.plain []) securedTwice).map
      (fun s => s.main.procs.length) = some 2 := by decide
  obtain ⟨s, hs, htwo⟩ := Option.map_eq_some_iff.mp hprocs
  refine ⟨s, hs, reachable_stateAfter hmeets hs, htwo, ?_⟩
  intro hseq
  have hone : s.main.procs.length ≤ 1 := hseq.one
  omega

end BleHidHost
