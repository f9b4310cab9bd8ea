import BleHidHost.Scanning

/-!
# No silently dead link

A link the central holds should always be on its way to a subscription: something
is outstanding on it, or a report is subscribed.  A failed pairing is answered by a
disconnect, after which the central scans again.  Other dead ends of the discovery
are only logged, and the link stays up with nothing left to happen on it.

## Main definitions

* `Live` — the link is not dead.
* `noDeadEnd` — no step is a dead end on a link that nothing else keeps alive.

## Main results

* `subscribed_of_noDeadEnd` — **without dead ends, a link on which nothing is
  outstanding has a subscription.**
* `refused_discovery_rests` — a refused discovery leaves a dead link.
-/

namespace BleHidHost

open Lib Lib.Prog

/-- The link is being established or closed, or a security procedure runs on it. -/
def Link.pending (l : Link) : Bool := !l.up || l.securing || l.disconnecting

/-- Something that the central has started is outstanding on its link. -/
def Outstanding (m : Central) : Prop := m.procs ≠ [] ∨ m.link.any Link.pending

instance (m : Central) : Decidable (Outstanding m) := inferInstanceAs (Decidable (_ ∨ _))

/-- The central holds no link, or one that something is outstanding on, or one with a
subscription. -/
def Live (m : Central) : Prop := m.defaultConn = none ∨ Outstanding m ∨ 1 ≤ m.subCount

instance (m : Central) : Decidable (Live m) := inferInstanceAs (Decidable (_ ∨ _))

/-! ### Dead ends -/

/-- The callback takes this answer for a refusal. -/
def isRefusal : Request → Errno → Bool
  | .gattSubscribe _, .already => false
  | _, err => err != .success

/-- The callback starts nothing else where this call is refused. -/
def endsIfRefused (m : Central) : Request → Bool
  | .connSetSecurity => true
  | .connDisconnect => true
  | .gattDiscover _ => m.discState != .reportRef
  | .gattSubscribe _ => m.pendingCount ≤ m.pendingIdx + 1
  | _ => false

/-- The callback starts nothing where a pass ends in this state. -/
def endsWithPass (m : Central) : Bool :=
  match m.discState with
  | .idle => true
  | .hidsPrimary => true
  | .reportMapChrc => false
  | .reportChrc => m.pendingCount = 0
  | .reportRef => false
  | .ccc => m.pendingCount ≤ m.pendingIdx + 1

/-- No step is a dead end, unless something else keeps the link alive. -/
def noDeadEnd : Condition where
  onAnswer m c err := decide (isRefusal c err → endsIfRefused m c → Live m)
  onEvent m e :=
    match e with
    | .discovered n => decide (m.discState = .idle → Live (takeProc n m))
    | .discoverDone n => decide (endsWithPass m → Live (takeProc n m))
    | _ => true
  onWork _ _ := true

variable {cfg : Setup} {m : Central} {Q : Unit → Central → Prop}

/-- `Live` speaks of these variables only. -/
theorem Live.congr {m' : Central} (h : Live m) (hconn : m'.defaultConn = m.defaultConn)
    (hlink : m'.link = m.link) (hprocs : m'.procs = m.procs) (hsubs : m'.subCount = m.subCount) :
    Live m' := by
  unfold Live Outstanding
  rw [hconn, hlink, hprocs, hsubs]
  exact h

theorem live_of_procs {p : Proc} : Live { m with procs := m.procs ++ [p] } :=
  Or.inr (Or.inl (Or.inl (by simp)))

/-- The callback returns to a live link, if no dead end is taken. -/
abbrev SafeLive (cfg : Setup) (p : Callback Unit) (m : Central) : Prop :=
  p.Safe (central cfg) noDeadEnd (fun _ _ => True) (fun _ => Live) m

/-! ### Callbacks of procedures -/

/-- An assignment, with nothing to keep. -/
theorem safe_assign_free {P : Condition} {f : Central → Central} (hQ : Q () (f m)) :
    (assign f).Safe (central cfg) P (fun _ _ => True) Q m :=
  (safe_assign f).mpr ⟨fun _ _ => trivial, hQ⟩

/-- A call that starts something, and what follows where it is refused. -/
theorem safeLive_askOr {c : Request} {q : Callback Unit} (hscan : c ≠ .leScanStart)
    (hsub : ∀ n, c ≠ .gattSubscribe n) (hc : Live (granted c m))
    (hq : (endsIfRefused m c → Live m) → SafeLive cfg q m) : SafeLive cfg (askOr c q) m := by
  refine (safe_askOr hscan hsub q).mpr ⟨fun _ => ⟨fun _ _ => trivial, hc⟩, ?_⟩
  intro err herr hok
  -- any answer but success is a refusal, which the condition admits on a live link only
  have hrefusal : isRefusal c err := by
    cases c with
    | gattSubscribe n => exact absurd rfl (hsub n)
    | _ => simpa [isRefusal] using herr
  exact hq (of_decide_eq_true hok hrefusal)

theorem safeLive_discoverOr {q : Callback Unit}
    (hq : (m.discState ≠ .reportRef → Live m) → SafeLive cfg q m) :
    SafeLive cfg (discoverOr q) m := by
  rw [SafeLive, discoverOr, safe_bind, safe_look]
  apply safeLive_askOr (by simp) (by simp) live_of_procs
  intro hend
  apply hq
  intro hstate
  apply hend
  simpa [endsIfRefused] using hstate

theorem safeLive_discIdle (h : Live m) : SafeLive cfg discIdle m :=
  safe_assign_free (h.congr rfl rfl rfl rfl)

theorem safeLive_discoverCcc : SafeLive cfg discoverCcc m := by
  rw [SafeLive, discoverCcc, safe_bind]
  exact safe_assign_free (safeLive_discoverOr fun hend => safeLive_discIdle (hend (by simp)))

theorem safeLive_subscribePending (h : m.pendingCount ≤ m.pendingIdx → Live m) :
    SafeLive cfg subscribePending m := by
  rw [SafeLive, subscribePending, safe_bind, safe_look, safe_ite]
  refine ⟨fun hdone => safeLive_discIdle (h hdone), ?_⟩
  intro _
  -- a refused search for the Report Reference falls back to the CCC
  rw [discoverReportRef, safe_bind]
  exact safe_assign_free (safeLive_discoverOr fun _ => safeLive_discoverCcc)

theorem safeLive_startReportDiscovery : SafeLive cfg startReportDiscovery m := by
  simp only [SafeLive, startReportDiscovery, safe_bind]
  refine safe_assign_free (safe_assign_free (safe_assign_free ?_))
  exact safeLive_discoverOr fun hend => safeLive_discIdle (hend (by simp))

theorem safeLive_startDiscovery : SafeLive cfg startDiscovery m := by
  simp only [SafeLive, startDiscovery, safe_bind]
  refine safe_assign_free (safe_assign_free ?_)
  exact safeLive_discoverOr fun hend => hend (by simp)

theorem safeLive_readReportMap (handle : U16) : SafeLive cfg (readReportMap handle) m := by
  rw [SafeLive, readReportMap, safe_bind]
  apply safe_assign_free
  exact safeLive_askOr (by simp) (by simp) live_of_procs fun _ => safeLive_startReportDiscovery

theorem safeLive_readReportRef (handle : U16) : SafeLive cfg (readReportRef handle) m := by
  refine safeLive_askOr (by simp) (by simp) live_of_procs ?_
  intro _
  rw [SafeLive, safe_bind]
  exact safe_assign_free safeLive_discoverCcc

/-- A report is subscribed, or the next one has its turn. -/
theorem safeLive_wireReport (a : Attr) : SafeLive cfg (wireReport a) m := by
  have hnext {m' : Central} (h : m'.pendingCount ≤ m'.pendingIdx + 1 → Live m') :
      Prog.Safe (central cfg) noDeadEnd (fun _ _ => True) (do
        assign fun m : Central => { m with pendingIdx := m.pendingIdx + 1 }
        subscribePending) (fun _ => Live) m' := by
    rw [safe_bind]
    exact safe_assign_free (safeLive_subscribePending fun hle => (h hle).congr rfl rfl rfl rfl)
  rw [SafeLive, wireReport, safe_bind, subscribeReport, safe_bind, safe_look, safe_ite]
  constructor
  · -- there is room for a subscription
    intro _
    rw [safe_bind]
    apply safe_assign_free
    rw [safe_bind, safe_ask, central_answer]
    intro err m' hok hans
    refine ⟨fun _ _ => trivial, ?_⟩
    rw [safe_ite]
    refine ⟨fun hrefused => hnext fun hle => ?_, fun _ => safe_assign_free (hnext fun _ => ?_)⟩
    · -- refused for the last report: a dead end
      cases err with
      | success => exact absurd rfl hrefused.1
      | already => exact absurd rfl hrefused.2
      | failure =>
        cases hans
        exact of_decide_eq_true hok rfl (decide_eq_true hle)
    · exact Or.inr (Or.inr (Nat.le_add_left 1 _))
  · -- no room, as all subscriptions are made
    intro hfull
    refine hnext fun _ => Or.inr (Or.inr ?_)
    have hmax : 1 ≤ maxReports := by decide
    omega

/-- A callback that ends its procedure has left a live link. -/
def stopsLive : Iter → Central → Prop
  | .continue, _ => True
  | .stop, m => Live m

theorem safe_stop_live {p : Callback Unit} (hp : SafeLive cfg p m) :
    (do p; pure Iter.stop : Callback Iter).Safe (central cfg) noDeadEnd (fun _ _ => True)
      stopsLive m := by
  rw [safe_bind]
  exact hp

theorem safe_discovered_live (a : Attr) (h : m.discState = .idle → Live m) :
    (discovered a).Safe (central cfg) noDeadEnd (fun _ _ => True) stopsLive m := by
  rw [discovered, safe_bind, safe_look]
  cases hstate : m.discState with
  | idle => exact h hstate
  | hidsPrimary =>
    apply safe_stop_live
    rw [SafeLive, discoverReportMap, safe_bind]
    exact safe_assign_free (safeLive_discoverOr fun hend => safeLive_discIdle (hend (by simp)))
  | reportMapChrc => exact safe_stop_live (safeLive_readReportMap _)
  | reportChrc => exact ⟨fun _ _ => trivial, trivial⟩
  | reportRef => exact safe_stop_live (safeLive_readReportRef _)
  | ccc => exact safe_stop_live (safeLive_wireReport a)

theorem safeLive_deliver (q : DiscoverParams) (a : Attr) (h : m.discState = .idle → Live m) :
    SafeLive cfg (deliver q a) m := by
  rw [SafeLive, deliver, safe_bind]
  apply (safe_discovered_live a h).mono
  intro i m' hm'
  cases i with
  | stop => exact hm'
  | «continue» => exact safe_assign_free live_of_procs

theorem safeLive_finishDiscover (h : endsWithPass m → Live m) :
    SafeLive cfg finishDiscover m := by
  simp only [SafeLive, finishDiscover, discoverFunc, safe_bind, discoverDone, safe_look]
  unfold endsWithPass at h
  cases hstate : m.discState with
  | idle => exact h (by rw [hstate])
  | hidsPrimary => exact h (by rw [hstate])
  | reportMapChrc => exact safeLive_startReportDiscovery
  | reportChrc =>
    show Prog.Safe _ _ _ reportsCollected _ m
    rw [reportsCollected, safe_bind, safe_look, safe_ite]
    refine ⟨fun hnone => safeLive_discIdle (h ?_), fun hsome => ?_⟩
    · -- no notifiable report: a dead end
      rw [hstate]
      exact decide_eq_true hnone
    · rw [safe_bind]
      refine safe_assign_free (safeLive_subscribePending fun hle => absurd hle ?_)
      simp only [Nat.le_zero]
      exact hsome
  | reportRef => exact safeLive_discoverCcc
  | ccc =>
    show Prog.Safe _ _ _ _ _ m
    rw [safe_bind]
    refine safe_assign_free (safeLive_subscribePending fun hle => ?_)
    refine (h ?_).congr rfl rfl rfl rfl
    rw [hstate]
    exact decide_eq_true hle

theorem safe_writeLayouts_free {P : Condition} (ls : List ReportLayout) (hQ : ∀ m, Q () m) :
    (writeLayouts ls).Safe (central cfg) P (fun _ _ => True) Q m := by
  induction ls generalizing m with
  | nil => exact hQ m
  | cons l ls ih =>
    rw [writeLayouts, safe_bind]
    exact safe_assign_free ih

theorem safeLive_respondMap (handle : U16) (received : List U8) (err : Bool) (data : List U8) :
    SafeLive cfg (respondMap cfg handle received err data) m := by
  rw [SafeLive, respondMap, safe_bind, reportMapReadCb, safe_ite, safe_ite]
  refine ⟨fun _ => ?_, fun _ => ⟨fun _ => ?_, fun _ => ?_⟩⟩
  · rw [safe_bind]
    exact safeLive_startReportDiscovery
  · -- the read goes on
    rw [safe_bind]
    apply safe_assign_free
    rw [safe_pure]
    exact safe_assign_free live_of_procs
  · simp only [safe_bind, parseReportMap, safe_look]
    refine safe_writeLayouts_free _ fun m' => safe_assign_free ?_
    rw [safe_ite]
    exact ⟨fun _ => safe_assign_free safeLive_startReportDiscovery,
      fun _ => safeLive_startReportDiscovery⟩

theorem safeLive_respondRef (err : Bool) (data : List U8) :
    SafeLive cfg (respondRef err data) m := by
  simp only [SafeLive, respondRef, reportRefReadCb, safe_bind]
  exact safe_assign_free safeLive_discoverCcc

/-! ### Callbacks of the connection -/

/-- A central without a link is live, whatever it scans. -/
theorem safeLive_startScan {P : Condition} (h : Live m) :
    startScan.Safe (central cfg) P (fun _ _ => True) (fun _ => Live) m :=
  have hkeeps : startScan.Keeps (central cfg) P fun m _ => Live m :=
    keeps_startScan (fun _ _ _ h => h.congr rfl rfl rfl rfl) fun _ _ h => h.congr rfl rfl rfl rfl
  (hkeeps.safe h).keeping (keeps_startScan (fun _ _ _ _ => trivial) fun _ _ _ => trivial)

theorem live_of_link {l : Link} (hl : m.link = some l) (hpending : l.pending) : Live m := by
  refine Or.inr (Or.inl (Or.inr ?_))
  rw [hl]
  exact hpending

theorem safeLive_deviceFound (h : Live m) (addr : Addr) (type : AdvType) (ad : List BtData) :
    SafeLive cfg (deviceFound cfg addr type ad) m := by
  rw [SafeLive, deviceFound, safe_bind, safe_look, safe_ite]
  refine ⟨fun _ => ?_, fun _ => h⟩
  rw [connectTo, safe_bind, safe_ask, central_answer]
  intro err m' _ hans
  have hm' : Live m' := by
    cases err <;> cases hans <;> exact h.congr rfl rfl rfl rfl
  refine ⟨fun _ _ => trivial, ?_⟩
  rw [safe_ite]
  refine ⟨fun _ => hm', ?_⟩
  intro _
  -- a created connection is being established
  exact safeLive_askOr (by simp) (by simp) (live_of_link rfl rfl) fun _ =>
    safeLive_startScan hm'

theorem safeLive_connected (err : Bool) {l : Link} :
    SafeLive cfg (connected err)
      { m with link := if err then none else some { l with up := true } } := by
  rw [SafeLive, connected, safe_ite]
  constructor
  · intro _
    simp only [unrefDefaultConn, safe_bind]
    exact safe_assign_free (safe_assign_free (safeLive_startScan (Or.inl rfl)))
  · intro herr
    rw [if_neg herr]
    exact safeLive_askOr (by simp) (by simp)
      (live_of_link (l := { l with up := true, securing := true }) rfl (by simp [Link.pending]))
      fun hend => hend rfl

theorem safeLive_securityChanged (peer : Addr) (level : ℕ) (err : Bool) {l : Link}
    (hl : m.link = some l) : SafeLive cfg (securityChanged peer level err) m := by
  rw [SafeLive, securityChanged, safe_ite]
  refine ⟨fun _ => ?_, fun _ => safeLive_startDiscovery⟩
  rw [securityFailed, safe_bind]
  refine safe_assign_free (safeLive_askOr (by simp) (by simp) ?_ fun hend => hend rfl)
  refine live_of_link (l := { l with disconnecting := true }) ?_ (by simp [Link.pending])
  simp [granted, hl]

theorem safeLive_disconnected {l : Link} (hconn : m.defaultConn = some l.conn) :
    SafeLive cfg (disconnected cfg l.conn) m := by
  rw [SafeLive, disconnected, safe_bind, safe_look, safe_ite]
  refine ⟨fun hne => absurd hconn hne, ?_⟩
  intro _
  simp only [unrefDefaultConn, invalidateLayout, safe_bind, safe_assign, safe_emit, implies_true,
    true_and]
  exact safeLive_startScan (Or.inl rfl)

/-! ### Runs -/

/-- **Each event is survived.** -/
theorem Live.safe_enter (h : Live m) (htracked : Tracked m) {e : Event} {m' : Central}
    {io io' : Pipeline} {p : Callback Unit} (hok : noDeadEnd.onEvent m e)
    (henter : Entered cfg m io e m' io' p) : SafeLive cfg p m' := by
  cases henter with
  | advertise addr type ad => exact safeLive_deviceFound h addr type ad
  | scanRetry =>
    rw [SafeLive, scanRetryHandler, safe_bind, safe_look, safe_ite]
    have hretry : Live { m with retryPending := false } := h.congr rfl rfl rfl rfl
    exact ⟨fun _ => safeLive_startScan hretry, fun _ => hretry⟩
  | connected err => exact safeLive_connected err
  | securityChanged level err => exact safeLive_securityChanged _ level err rfl
  | disconnected hl =>
    apply safeLive_disconnected
    show m.defaultConn = _
    rw [← htracked.link_eq, hl, Option.map_some]
  | discovered n => exact safeLive_deliver _ _ (of_decide_eq_true hok)
  | discoverDone n => exact safeLive_finishDiscover (of_decide_eq_true hok)
  | readMap => exact safeLive_respondMap _ _ _ _
  | readRef => exact safeLive_respondRef _ _
  | notified =>
    exact (safe_emit _ _).mpr ⟨fun _ _ => trivial, h.congr rfl rfl rfl rfl⟩
  | unsubscribed => exact safe_assign_free (h.congr rfl rfl rfl rfl)
  | timePasses => exact h.congr rfl rfl rfl rfl
  | bonded => exact h.congr rfl rfl rfl rfl

/-- **No silently dead link** in a run that takes no dead end: where nothing is
outstanding on the link that the central holds, a report is subscribed. -/
theorem subscribed_of_noDeadEnd {s : System} (h : Reachable cfg noDeadEnd s) (hidle : s.Idle)
    (hconn : s.main.defaultConn ≠ none) (hrest : ¬ Outstanding s.main) : 1 ≤ s.main.subCount := by
  obtain ⟨bonds, uptime, accepts, hreach⟩ := h
  have hinv : Tracked s.main ∧ Live s.main := by
    refine Machine.invariant_idle (I := fun m => Tracked m ∧ Live m) ?_
      (fun e m io m' io' p hI hok henter => ?_) hreach hidle
    · have hstart : Unconnected (Central.start bonds uptime) := ⟨rfl, rfl, fun k => rfl⟩
      exact hstart.safe_startScan.and (safeLive_startScan (Or.inl rfl))
    · have hentered : Entered cfg m io e m' io' p := entered_of_enter henter
      exact (hI.1.safe_enter hentered).and (hI.2.safe_enter hI.1 hok hentered)
  rcases hinv.2 with hnone | hout | hsub
  · exact absurd hnone hconn
  · exact absurd hout hrest
  · exact hsub

/-- The discovery of a peer with one report ends with its subscription. -/
theorem subscribeRun_subscribed :
    ∃ s, stateAfter (.plain (reportTable [4])) (subscribeRun 1 1) = some s ∧
      s.main.procs = [] ∧ 1 ≤ s.main.subCount := by
  have hmeets : Meeting (.plain (reportTable [4])) noDeadEnd (subscribeRun 1 1) := by
    decide +kernel
  have hstate : (stateAfter (.plain (reportTable [4])) (subscribeRun 1 1)).map
      (fun s => (s.isIdle, s.main.defaultConn, s.main.procs, s.main.link.any Link.pending)) =
        some (true, some 0, [], false) := by decide +kernel
  obtain ⟨s, hs, heq⟩ := Option.map_eq_some_iff.mp hstate
  simp only [Prod.mk.injEq] at heq
  obtain ⟨hidle, hconn, hprocs, hlink⟩ := heq
  refine ⟨s, hs, hprocs, subscribed_of_noDeadEnd (reachable_stateAfter hmeets hs)
    (Configuration.isIdle_iff.mp hidle) (by simp [hconn]) ?_⟩
  simp [Outstanding, hprocs, hlink]

/-- The first discovery is refused, as it was on the device for want of a buffer: the
central rests on the link, with nothing outstanding and nothing subscribed. -/
theorem refused_discovery_rests :
    ∃ s, stateAfter (.plain []) (connectRun ++ [.answer .failure]) = some s ∧
      Reachable (.plain []) Policy.any s ∧ s.Idle ∧ s.main.defaultConn ≠ none ∧
      ¬ Outstanding s.main ∧ ¬ s.main.scanning ∧ ¬ 1 ≤ s.main.subCount := by
  have hmeets : Meeting (.plain []) Policy.any (connectRun ++ [.answer .failure]) := by decide
  have hstate : (stateAfter (.plain []) (connectRun ++ [.answer .failure])).map
      (fun s => (s.isIdle, s.main.defaultConn, s.main.procs, s.main.link.any Link.pending,
        s.main.scanning, s.main.subCount)) = some (true, some 0, [], false, false, 0) := by decide
  obtain ⟨s, hs, heq⟩ := Option.map_eq_some_iff.mp hstate
  simp only [Prod.mk.injEq] at heq
  obtain ⟨hidle, hconn, hprocs, hlink, hscan, hsubs⟩ := heq
  refine ⟨s, hs, reachable_stateAfter hmeets hs, Configuration.isIdle_iff.mp hidle, ?_, ?_, ?_, ?_⟩
  · simp [hconn]
  · simp [Outstanding, hprocs, hlink]
  · simp [hscan]
  · simp [hsubs]

end BleHidHost
