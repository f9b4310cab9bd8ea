import BleHidHost.Lib.Calls
import BleHidHost.Scanning

/-!
# Every call into the stack is in order

The callbacks call into the Bluetooth stack from many places, and whether a call is in
order depends on what happened before.  The scanner is only started without a connection,
and only stopped, and a connection only requested, for the advertiser that is a target;
the link is secured before anything else is done on it; the GATT server of the peer is
asked nothing before the link is encrypted.

## Main definitions

* `Proper` — the call is in order.
* `Gated` — no procedure and no subscription but on a secured link.
* `CausedReachable` — the states of runs, with the event whose callback is running.

## Main results

* `proper_of_reachable` — **every call of a run is in order**, whatever fails, comes late
  or comes twice.
* `secured_of_notified` — every notification comes in on a secured link.
-/

namespace BleHidHost

open Lib Lib.Prog

variable {cfg : Setup} {P : Condition} {m : Central} {cause : Option Event}

/-! ### Calls that are in order -/

/-- The link is encrypted, and it is that of the connection held. -/
def OnSecuredLink (m : Central) : Prop :=
  ∃ l, m.link = some l ∧ l.up ∧ l.secured ∧ m.defaultConn = some l.conn

/-- The call is in order in this state, in the callback of this event. -/
def Proper (cfg : Setup) (cause : Option Event) (m : Central) : Request → Prop
  -- no scan while there is a connection
  | .leScanStart => m.defaultConn = none ∧ m.link = none
  | .leScanStop => ∃ addr type ad, cause = some (.advertise addr type ad) ∧
      isTarget cfg m addr type ad
  -- a connection to a target, and no other, with the scanner off
  | .connLeCreate peer => m.link = none ∧ ¬ m.scanning ∧
      ∃ type ad, cause = some (.advertise peer type ad) ∧ isTarget cfg m peer type ad
  -- security comes first on the link
  | .connSetSecurity => cause = some (.connected false) ∧ (∃ l, m.link = some l ∧ l.up ∧
      ¬ l.secured ∧ m.defaultConn = some l.conn) ∧ m.procs = [] ∧ m.subscribed = []
  -- a disconnect where security has failed, which is remembered
  | .connDisconnect => (∃ level err, cause = some (.securityChanged level err) ∧
      (err ∨ level < 2)) ∧ ∃ l, m.link = some l ∧ l.up ∧ m.defaultConn = some l.conn ∧
        m.lastFailedAddr = l.peer ∧ m.lastFailedMs = kUptimeGet32 m
  | .gattDiscover _ => OnSecuredLink m
  | .gattRead _ => OnSecuredLink m
  | .gattSubscribe _ => OnSecuredLink m

/-- The calls that need a secured link. -/
def Request.OnGatt : Request → Prop
  | .gattDiscover _ => True
  | .gattRead _ => True
  | .gattSubscribe _ => True
  | _ => False

/-- No procedure is outstanding and no slot subscribed but on a secured link. -/
structure Gated (m : Central) : Prop where
  secured_up : ∀ l, m.link = some l → l.secured → l.up
  gated : m.procs ≠ [] ∨ m.subscribed ≠ [] → ∃ l, m.link = some l ∧ l.secured

/-! ### The calls of the GATT callbacks -/

/-- Every call of the program needs a secured link. -/
abbrev UsesGatt {α : Type} (p : Callback α) : Prop := p.Uses Request.OnGatt

theorem usesGatt_askOr {c : Request} (hc : c.OnGatt) {q : Callback Unit} (hq : UsesGatt q) :
    UsesGatt (askOr c q) :=
  (uses_ask hc).bind fun _ => .ite hq (uses_pure ())

theorem usesGatt_discoverOr {q : Callback Unit} (hq : UsesGatt q) : UsesGatt (discoverOr q) :=
  uses_look.bind fun _ => usesGatt_askOr (by trivial) hq

theorem usesGatt_discIdle : UsesGatt discIdle := uses_assign _

theorem usesGatt_discoverCcc : UsesGatt discoverCcc :=
  (uses_assign _).bind fun _ => usesGatt_discoverOr usesGatt_discIdle

theorem usesGatt_subscribePending : UsesGatt subscribePending :=
  uses_look.bind fun _ => .ite usesGatt_discIdle <|
    (uses_assign _).bind fun _ => usesGatt_discoverOr usesGatt_discoverCcc

theorem usesGatt_startReportDiscovery : UsesGatt startReportDiscovery :=
  (uses_assign _).bind fun _ => (uses_assign _).bind fun _ => (uses_assign _).bind fun _ =>
    usesGatt_discoverOr usesGatt_discIdle

theorem usesGatt_startDiscovery : UsesGatt startDiscovery :=
  (uses_assign _).bind fun _ => (uses_assign _).bind fun _ => usesGatt_discoverOr (uses_pure ())

theorem usesGatt_readReportMap (handle : U16) : UsesGatt (readReportMap handle) :=
  (uses_assign _).bind fun _ => usesGatt_askOr (by trivial) usesGatt_startReportDiscovery

theorem usesGatt_readReportRef (handle : U16) : UsesGatt (readReportRef handle) :=
  usesGatt_askOr (by trivial) ((uses_assign _).bind fun _ => usesGatt_discoverCcc)

theorem usesGatt_wireReport (a : Attr) : UsesGatt (wireReport a) := by
  have hsubscribe : UsesGatt (subscribeReport a) := by
    refine uses_look.bind fun m => .ite ?_ (uses_pure ())
    refine (uses_assign _).bind fun _ => (uses_ask (by trivial)).bind fun err => ?_
    exact .ite (uses_pure ()) (uses_assign _)
  exact hsubscribe.bind fun _ => (uses_assign _).bind fun _ => usesGatt_subscribePending

theorem usesGatt_discovered (a : Attr) : UsesGatt (discovered a) := by
  refine uses_look.bind fun m => ?_
  cases m.discState with
  | idle => exact uses_pure _
  | hidsPrimary =>
    refine Uses.bind ?_ fun _ => uses_pure _
    exact (uses_assign _).bind fun _ => usesGatt_discoverOr usesGatt_discIdle
  | reportMapChrc => exact (usesGatt_readReportMap _).bind fun _ => uses_pure _
  | reportChrc => exact (uses_assign _).bind fun _ => uses_pure _
  | reportRef => exact (usesGatt_readReportRef _).bind fun _ => uses_pure _
  | ccc => exact (usesGatt_wireReport a).bind fun _ => uses_pure _

theorem usesGatt_deliver (q : DiscoverParams) (a : Attr) : UsesGatt (deliver q a) := by
  refine (usesGatt_discovered a).bind fun i => ?_
  cases i with
  | «continue» => exact uses_assign _
  | stop => exact uses_pure ()

theorem usesGatt_finishDiscover : UsesGatt finishDiscover := by
  suffices hdone : UsesGatt discoverDone from
    (hdone.bind fun _ => uses_pure _).bind fun _ => uses_pure ()
  refine uses_look.bind fun m => ?_
  cases m.discState with
  | idle => exact uses_pure _
  | hidsPrimary => exact uses_pure _
  | reportMapChrc => exact usesGatt_startReportDiscovery
  | reportChrc =>
    refine uses_look.bind fun m => .ite usesGatt_discIdle ?_
    exact (uses_assign _).bind fun _ => usesGatt_subscribePending
  | reportRef => exact usesGatt_discoverCcc
  | ccc => exact (uses_assign _).bind fun _ => usesGatt_subscribePending

theorem usesGatt_parseReportMap : UsesGatt (parseReportMap cfg) := by
  have hwrite (ls : List ReportLayout) : UsesGatt (writeLayouts ls) := by
    induction ls with
    | nil => exact uses_pure ()
    | cons l ls ih => exact (uses_assign _).bind fun _ => ih
  refine uses_look.bind fun m => (hwrite _).bind fun _ => (uses_assign _).bind fun _ => ?_
  exact .ite (uses_assign _) (uses_pure ())

theorem usesGatt_respondMap (handle : U16) (received : List U8) (err : Bool) (data : List U8) :
    UsesGatt (respondMap cfg handle received err data) := by
  refine Uses.bind (.ite ?_ (.ite ?_ ?_)) fun i => ?_
  · exact usesGatt_startReportDiscovery.bind fun _ => uses_pure _
  · exact (uses_assign _).bind fun _ => uses_pure _
  · exact usesGatt_parseReportMap.bind fun _ =>
      usesGatt_startReportDiscovery.bind fun _ => uses_pure _
  · cases i with
    | «continue» => exact uses_assign _
    | stop => exact uses_pure ()

theorem usesGatt_respondRef (err : Bool) (data : List U8) : UsesGatt (respondRef err data) :=
  ((uses_assign _).bind fun _ => usesGatt_discoverCcc.bind fun _ => uses_pure _).bind
    fun _ => uses_pure ()

/-! ### The callbacks -/

/-- What holds between two callbacks. -/
abbrev Asking (cfg : Setup) (P : Condition) (cause : Option Event) (p : Callback Unit)
    (m : Central) : Prop :=
  p.Asks (central cfg) P (Proper cfg cause) (fun _ => Gated) m

theorem Gated.congr {m' : Central} (h : Gated m) (hlink : m'.link = m.link)
    (hprocs : m'.procs = m.procs) (hsubs : m'.subscribed = m.subscribed) : Gated m' where
  secured_up := by
    rw [hlink]
    exact h.secured_up
  gated := by
    rw [hlink, hprocs, hsubs]
    exact h.gated

/-- On a secured link anything may be outstanding. -/
theorem Gated.of_secured {l : Link} (hl : m.link = some l) (hup : l.up) (hsecured : l.secured) :
    Gated m where
  secured_up l' hl' _ := by
    cases hl.symm.trans hl'
    exact hup
  gated _ := ⟨l, hl, hsecured⟩

/-- Without a secured link nothing is outstanding. -/
theorem Gated.nothing (h : Gated m) (hopen : ∀ l, m.link = some l → ¬ l.secured) :
    m.procs = [] ∧ m.subscribed = [] := by
  by_contra hne
  have hor : m.procs ≠ [] ∨ m.subscribed ≠ [] := by tauto
  obtain ⟨l, hl, hsecured⟩ := h.gated hor
  exact hopen l hl hsecured

theorem Gated.of_nothing (hup : ∀ l, m.link = some l → l.secured → l.up) (hprocs : m.procs = [])
    (hsubs : m.subscribed = []) : Gated m where
  secured_up := hup
  gated hor := by
    rcases hor with hne | hne
    · exact absurd hprocs hne
    · exact absurd hsubs hne

/-- The link's flags may change, but for its being up and secured. -/
theorem Gated.mapLink (h : Gated m) {f : Link → Link} (hup : ∀ l, (f l).up = l.up)
    (hsecured : ∀ l, (f l).secured = l.secured) : Gated { m with link := m.link.map f } where
  secured_up l' hl' := by
    obtain ⟨l, hl, rfl⟩ := Option.map_eq_some_iff.mp hl'
    rw [hup, hsecured]
    exact h.secured_up l hl
  gated hor := by
    obtain ⟨l, hl, hs⟩ := h.gated hor
    exact ⟨f l, Option.map_eq_some_iff.mpr ⟨l, hl, rfl⟩, (hsecured l).trans hs⟩

/-- **A callback of a procedure** asks the peer's GATT server on a secured link. -/
theorem asking_gatt {p : Callback Unit} (hp : UsesGatt p) (hleaves : Leaves cfg P linkPart p)
    {l : Link} (hl : m.link = some l) (hup : l.up) (hsecured : l.secured)
    (hconn : m.defaultConn = some l.conn) : Asking cfg P cause p m := by
  have hpart {m' : Central} (h : linkPart m' = linkPart m) :
      m'.link = some l ∧ m'.defaultConn = some l.conn := by
    simp only [linkPart, Prod.mk.injEq] at h
    exact ⟨h.2.1.trans hl, h.1.trans hconn⟩
  have hasks := Keeps.asks (M := central cfg) (P := P) (R := Proper cfg cause) (m := m)
    (I := fun m' => linkPart m' = linkPart m) (hleaves.spares (linkPart m)) hp
    (fun m' c hm' hc => ?_) rfl
  · refine hasks.mono fun _ m' hm' => ?_
    exact .of_secured (hpart hm').1 hup hsecured
  · have hon : OnSecuredLink m' := ⟨l, (hpart hm').1, hup, hsecured, (hpart hm').2⟩
    cases c with
    | gattDiscover | gattRead | gattSubscribe => exact hon
    | _ => exact hc.elim

/-- A scan start without a connection. -/
theorem asking_startScan (h : Gated m) (hnone : m.defaultConn = none) (hlink : m.link = none) :
    Asking cfg P cause startScan m := by
  rw [startScan, Asking, asks_bind, asks_ask]
  refine ⟨⟨hnone, hlink⟩, fun err m' _ hans => ?_⟩
  have hgated : Gated m' := by
    cases err with
    | success | failure =>
      cases hans
      exact h.congr rfl rfl rfl
    | already =>
      obtain ⟨-, heq⟩ := Option.ite_none_right_eq_some.mp hans
      cases heq
      exact h
  simp only [asks_ite, asks_pure, asks_assign]
  exact ⟨fun _ => hgated, fun _ => ⟨fun _ => hgated.congr rfl rfl rfl, fun _ => hgated⟩⟩

theorem Gated.asking_deviceFound (h : Gated m) (htracked : Tracked m) (addr : Addr)
    (type : AdvType) (ad : List BtData) :
    Asking cfg P (some (.advertise addr type ad)) (deviceFound cfg addr type ad) m := by
  rw [deviceFound, Asking, asks_bind, asks_look, asks_ite]
  refine ⟨fun htarget => ?_, fun _ => h⟩
  have hlink : m.link = none := (htracked.unconnected htarget.1).link_eq
  rw [connectTo, asks_bind, asks_ask]
  refine ⟨⟨addr, type, ad, rfl, htarget⟩, fun err m' _ hans => ?_⟩
  have hm' : Gated m' ∧ m'.link = none ∧ m'.defaultConn = none ∧
      isTarget cfg m' addr type ad := by
    cases err <;> cases hans <;> exact ⟨h.congr rfl rfl rfl, hlink, htarget.1, htarget⟩
  obtain ⟨hgated, hlink', hnone', htarget'⟩ := hm'
  rw [asks_ite]
  refine ⟨fun _ => hgated, fun herr => ?_⟩
  -- the scanner has been stopped
  have hoff : ¬ m'.scanning := by
    rw [not_not.mp herr] at hans
    cases hans
    exact Bool.false_ne_true
  rw [askOr, asks_bind, asks_ask]
  refine ⟨⟨hlink', hoff, type, ad, rfl, htarget'⟩, fun err m'' _ hans' => ?_⟩
  rw [asks_ite]
  have hnothing : m'.procs = [] ∧ m'.subscribed = [] := hgated.nothing fun l hl => by
    rw [hlink'] at hl
    cases hl
  constructor
  · intro hfail
    have heq : m'' = m' := Option.some_inj.mp
      (hans'.symm.trans (answer_refused (by simp) (by simp) hfail m'))
    rw [heq]
    exact asking_startScan hgated hnone' hlink'
  · intro hok
    rw [not_not.mp hok] at hans'
    cases hans'
    refine .of_nothing (fun l hl hsecured => ?_) hnothing.1 hnothing.2
    cases hl
    cases hsecured

theorem Gated.asking_connected (h : Gated m) (htracked : Tracked m) {l : Link}
    (hl : m.link = some l) (hup : ¬ l.up) (err : Bool) :
    Asking cfg P (some (.connected err)) (connected err)
      { m with link := if err then none else some { l with up := true } } := by
  have hopen : ¬ l.secured := fun hsecured => hup (h.secured_up l hl hsecured)
  obtain ⟨hprocs, hsubs⟩ := h.nothing fun l' hl' => by
    cases hl.symm.trans hl'
    exact hopen
  rw [connected, Asking, asks_ite]
  constructor
  · intro herr
    simp only [unrefDefaultConn, asks_bind, asks_assign]
    refine asking_startScan ?_ rfl (if_pos herr)
    refine .of_nothing (fun l' hl' => ?_) hprocs hsubs
    rw [if_pos herr] at hl'
    cases hl'
  · intro herr
    have hfalse : err = false := Bool.eq_false_of_not_eq_true herr
    subst hfalse
    rw [askOr, asks_bind, asks_ask]
    have hconn : m.defaultConn = some l.conn := by rw [← htracked.link_eq, hl, Option.map_some]
    have hgated : Gated { m with link := some { l with up := true } } :=
      .of_nothing (fun l' hl' _ => by cases hl'; rfl) hprocs hsubs
    refine ⟨⟨rfl, ⟨_, rfl, rfl, hopen, hconn⟩, hprocs, hsubs⟩, fun err m' _ hans => ?_⟩
    have hgated' : Gated m' := by
      cases err <;> cases hans
      · exact hgated.mapLink (fun _ => rfl) fun _ => rfl
      · exact hgated
      · exact hgated
    rw [asks_ite]
    exact ⟨fun _ => hgated', fun _ => hgated'⟩

theorem Gated.asking_securityChanged (h : Gated m) (htracked : Tracked m) {l : Link}
    (hl : m.link = some l) (hup : l.up) (level : ℕ) (err : Bool) :
    Asking cfg P (some (.securityChanged level err)) (securityChanged l.peer level err)
      { m with
        link := some { l with
          securing := false
          secured := l.secured || reportsSecured level err } } := by
  have hconn : m.defaultConn = some l.conn := by rw [← htracked.link_eq, hl, Option.map_some]
  rw [securityChanged, Asking, asks_ite]
  constructor
  · intro hfail
    have hreports : reportsSecured level err = false :=
      Bool.eq_false_of_not_eq_true fun hreports => reportsSecured_iff.mp hreports hfail
    have hgated : Gated { m with
        link := some { l with
          securing := false
          secured := l.secured || reportsSecured level err } } := by
      rw [hreports, Bool.or_false]
      have hmap := h.mapLink (f := fun l => { l with securing := false }) (fun _ => rfl)
        fun _ => rfl
      rwa [hl] at hmap
    rw [securityFailed, asks_bind, asks_assign, askOr, asks_bind, asks_ask]
    refine ⟨⟨⟨level, err, rfl, hfail⟩, _, rfl, hup, hconn, rfl, rfl⟩, fun err m' _ hans => ?_⟩
    have hgated' : Gated m' := by
      cases err <;> cases hans
      · exact (hgated.congr rfl rfl rfl : Gated { m with
          link := some { l with
            securing := false
            secured := l.secured || reportsSecured level err }
          lastFailedAddr := l.peer
          lastFailedMs := kUptimeGet32 m }).mapLink (fun _ => rfl) fun _ => rfl
      · exact hgated.congr rfl rfl rfl
      · exact hgated.congr rfl rfl rfl
    rw [asks_ite]
    exact ⟨fun _ => hgated', fun _ => hgated'⟩
  · intro hsecured
    have hreports : reportsSecured level err = true := reportsSecured_iff.mpr hsecured
    refine asking_gatt usesGatt_startDiscovery (leaves_startDiscovery linkPart_eq) rfl hup ?_ hconn
    rw [hreports, Bool.or_true]

theorem Gated.asking_disconnected (htracked : Tracked m) {l : Link} (hl : m.link = some l) :
    Asking cfg P cause (disconnected cfg l.conn)
      { m with link := none, procs := [], subscribed := [] } := by
  have hconn : m.defaultConn = some l.conn := by rw [← htracked.link_eq, hl, Option.map_some]
  rw [disconnected, Asking, asks_bind, asks_look, asks_ite]
  refine ⟨fun hne => absurd hconn hne, fun _ => ?_⟩
  simp only [unrefDefaultConn, invalidateLayout, asks_bind, asks_assign, asks_emit]
  refine asking_startScan ?_ rfl rfl
  exact .of_nothing (fun l hl => absurd hl (Option.some_ne_none l).symm) rfl rfl

/-! ### Runs -/

/-- A procedure that completes is one of a secured link. -/
theorem Gated.proc (h : Gated m) (htracked : Tracked m) {l : Link} (hl : m.link = some l) {n : ℕ}
    {p : Proc} (hp : m.procs[n]? = some p) : l.secured ∧ m.defaultConn = some l.conn := by
  have hne : m.procs ≠ [] := fun hnil => by
    rw [hnil] at hp
    cases hp
  obtain ⟨l', hl', hsecured⟩ := h.gated (Or.inl hne)
  cases hl.symm.trans hl'
  refine ⟨hsecured, ?_⟩
  rw [← htracked.link_eq, hl, Option.map_some]

/-- **Each event enters a callback whose calls are in order.** -/
theorem Gated.asking_enter (h : Gated m) (htracked : Tracked m) {e : Event} {m' : Central}
    {io io' : Pipeline} {p : Callback Unit} (henter : Entered cfg m io e m' io' p) :
    Asking cfg P (some e) p m' := by
  cases henter with
  | advertise addr type ad => exact h.asking_deviceFound htracked addr type ad
  | scanRetry =>
    have hretry : Gated { m with retryPending := false } := h.congr rfl rfl rfl
    rw [scanRetryHandler, Asking, asks_bind, asks_look, asks_ite]
    refine ⟨fun hnone => ?_, fun _ => hretry⟩
    exact asking_startScan hretry hnone (htracked.unconnected hnone).link_eq
  | connected err hl hup => exact h.asking_connected htracked hl hup err
  | securityChanged level err hl hup => exact h.asking_securityChanged htracked hl hup level err
  | disconnected hl => exact Gated.asking_disconnected htracked hl
  | discovered n hl hup hq ha =>
    obtain ⟨hsecured, hconn⟩ := h.proc htracked hl hq
    exact asking_gatt (usesGatt_deliver _ _) (leaves_deliver (eq_of_offMap linkPart_eq) _ _) hl hup
      hsecured hconn
  | discoverDone n hl hup hq =>
    obtain ⟨hsecured, hconn⟩ := h.proc htracked hl hq
    exact asking_gatt usesGatt_finishDiscover (leaves_finishDiscover linkPart_eq_of_offCursor) hl
      hup hsecured hconn
  | readMap n err data hl hup hq =>
    obtain ⟨hsecured, hconn⟩ := h.proc htracked hl hq
    exact asking_gatt (usesGatt_respondMap _ _ err data) (leaves_respondMap linkPart_eq _ _ _ _) hl
      hup hsecured hconn
  | readRef n err data hl hup hq =>
    obtain ⟨hsecured, hconn⟩ := h.proc htracked hl hq
    exact asking_gatt (usesGatt_respondRef err data)
      (leaves_respondRef linkPart_eq_of_offCursor err data) hl hup hsecured hconn
  | notified => exact h.congr rfl rfl rfl
  | unsubscribed slot =>
    refine ⟨h.secured_up, fun hor => h.gated (hor.imp_right fun hne hnil => hne ?_)⟩
    show m.subscribed.erase slot = []
    rw [hnil]
    rfl
  | timePasses => exact h.congr rfl rfl rfl
  | bonded => exact h.congr rfl rfl rfl

/-- A state that a run reaches whose steps all meet the condition, with the event whose
callback is running, or ran last. -/
def CausedReachable (cfg : Setup) (P : Condition) (s : System) (cause : Option Event) : Prop :=
  ∃ bonds uptime accepts,
    (central cfg).LoggedUnder P lastEvent (start bonds uptime accepts) none s cause

/-- The callback that runs makes its calls in order. -/
theorem asking_of_reachable {s : System} (h : CausedReachable cfg P s cause) :
    Asking cfg P cause s.running s.main := by
  obtain ⟨bonds, uptime, accepts, hreach⟩ := h
  have hstart : Gated (Central.start bonds uptime) :=
    .of_nothing (fun l hl => absurd hl (Option.some_ne_none l).symm) rfl rfl
  refine Machine.asks_of_logged (K := Tracked) (asking_startScan hstart rfl rfl) ?_ ?_ hreach
  · exact fun t ht hidle => tracked_of_reachable ⟨bonds, uptime, accepts, ht⟩ hidle
  · intro e m io m' io' p htracked hgated _ henter
    exact hgated.asking_enter htracked (entered_of_enter henter)

/-- **Every call of a run is in order**, whatever fails, comes late or comes twice: without
a connection the scanner is started, for a target it is stopped and a connection is
requested, on the new link security is requested before anything else, and the GATT server
of the peer is asked nothing before that has succeeded. -/
theorem proper_of_reachable {s : System} (h : CausedReachable cfg P s cause) {c : Request}
    (hcall : s.calling = some c) : Proper cfg cause s.main c := by
  obtain ⟨k, hrunning⟩ := Configuration.calling_eq_some.mp hcall
  have hasks := asking_of_reachable h
  rw [hrunning] at hasks
  exact hasks.1

/-- Every run has a last event. -/
theorem exists_causedReachable {s : System} (h : Reachable cfg P s) :
    ∃ cause, CausedReachable cfg P s cause := by
  obtain ⟨bonds, uptime, accepts, hreach⟩ := h
  obtain ⟨cause, hcaused⟩ := (Machine.reachedUnder_iff_loggedUnder lastEvent none).mp hreach
  exact ⟨cause, bonds, uptime, accepts, hcaused⟩

/-- **Every notification comes in on a secured link.** -/
theorem secured_of_notified {s : System} (h : Reachable cfg P s) (hidle : s.Idle) {slot : ℕ}
    {data : List U8} {next : Central × Pipeline × Callback Unit}
    (henter : enter cfg (.notified slot data) s.main s.io = some next) : OnSecuredLink s.main := by
  obtain ⟨cause, hcaused⟩ := exists_causedReachable h
  have hgated : Gated s.main := by
    have hasks := asking_of_reachable hcaused
    rw [hidle] at hasks
    exact hasks
  obtain ⟨m', io', p⟩ := next
  have htracked : Tracked s.main := tracked_of_reachable h hidle
  cases entered_of_enter henter with
  | notified slot data hl hup hslot =>
    obtain ⟨l, hl', hsecured⟩ := hgated.gated (Or.inr (List.ne_nil_of_mem hslot))
    exact ⟨l, hl', hgated.secured_up l hl' hsecured, hsecured, by
      rw [← htracked.link_eq, hl', Option.map_some]⟩

/-- The first discovery of a connection is asked for on a secured link. -/
theorem connectRun_proper :
    ∃ s, stateAfter (.plain (reportTable [4])) connectRun = some s ∧
      s.calling = some (.gattDiscover ⟨uuidHids, 1, 0xffff, .primary⟩) ∧ OnSecuredLink s.main := by
  have hstate : (stateAfter (.plain (reportTable [4])) connectRun).map Configuration.calling =
      some (some (.gattDiscover ⟨uuidHids, 1, 0xffff, .primary⟩)) := by decide +kernel
  obtain ⟨s, hs, hcall⟩ := Option.map_eq_some_iff.mp hstate
  have hreach : Reachable (.plain (reportTable [4])) Policy.any s :=
    reachable_stateAfter (Along.of_forall (fun s a => Machine.meets_any s a) _ _) hs
  obtain ⟨cause, hcaused⟩ := exists_causedReachable hreach
  exact ⟨s, hs, hcall, proper_of_reachable hcaused hcall⟩

end BleHidHost
