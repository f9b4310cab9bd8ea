import BleHidHost.Reassembly

/-!
# What a disconnect leaves

A connection's variables outlive it.  Between two callbacks, a central without a link
that is up has cleared all that says how far a discovery has come; what is left in the
buffers is left in arrays that have kept their lengths.

## Main definitions

* `Wide` — the arrays have their lengths.
* `Cleared` — no discovery has begun, and nothing is subscribed or queued.

## Main results

* `wide_of_reachable` — the arrays keep their lengths in every run.
* `cleared_of_reachable` — **without a link that is up, all is cleared.**
-/

namespace BleHidHost

open Lib Lib.Prog

variable {cfg : Setup} {P : Condition} {m : Central} {io : Pipeline}

/-! ### Arrays -/

/-- The arrays of the reports and of the subscriptions have their lengths. -/
def Wide (m : Central) : Prop :=
  m.pendingReports.length = maxReports ∧ m.subs.length = maxReports

/-- The same, at every action. -/
def widely (m : Central) (_ : Pipeline) : Prop := Wide m

theorem widely_offLink {m' : Central} {io : Pipeline} (h : offLink m' = offLink m)
    (hm : widely m io) : widely m' io := by
  have hleft {α : Type} (f : Central → α) : f (offLink m') = f (offLink m) := by rw [h]
  exact ⟨(hleft (·.pendingReports.length)).trans hm.1, (hleft (·.subs.length)).trans hm.2⟩

theorem widely_offScan {m' : Central} {io : Pipeline} (h : offScan m' = offScan m)
    (hm : widely m io) : widely m' io :=
  widely_offLink (offLink_eq_of_offScan h) hm

/-- The program keeps the lengths. -/
abbrev KeepsWide {α : Type} (cfg : Setup) (P : Condition) (p : Callback α) : Prop :=
  p.Keeps (central cfg) P widely

/-- An assignment that does not touch the arrays. -/
theorem keepsWide_emit {f : Central → Central} {g : Central → Pipeline → Pipeline}
    (hf : ∀ m, Wide m → Wide (f m)) : KeepsWide cfg P (emit f g) :=
  (keeps_emit f g).mpr fun m _ hm => hf m hm

theorem keepsWide_discoverOr {q : Callback Unit} (hq : KeepsWide cfg P q) :
    KeepsWide cfg P (discoverOr q) :=
  .bind keeps_look fun _ => keeps_askOr (by simp) (by simp) (fun _ _ hm => hm) hq

theorem keepsWide_discIdle : KeepsWide cfg P discIdle := keepsWide_emit fun _ hm => hm

theorem keepsWide_discoverCcc : KeepsWide cfg P discoverCcc :=
  .bind (keepsWide_emit fun _ hm => hm) fun _ => keepsWide_discoverOr keepsWide_discIdle

theorem keepsWide_subscribePending : KeepsWide cfg P subscribePending := by
  refine .bind keeps_look fun _ => .ite keepsWide_discIdle ?_
  exact .bind (keepsWide_emit fun _ hm => hm) fun _ => keepsWide_discoverOr keepsWide_discoverCcc

theorem keepsWide_startReportDiscovery : KeepsWide cfg P startReportDiscovery := by
  refine .bind (keepsWide_emit fun _ hm => hm) fun _ => ?_
  refine .bind (keepsWide_emit fun _ hm => hm) fun _ => ?_
  exact .bind (keepsWide_emit fun _ hm => hm) fun _ => keepsWide_discoverOr keepsWide_discIdle

theorem keepsWide_readReportMap (handle : U16) : KeepsWide cfg P (readReportMap handle) := by
  refine .bind (keepsWide_emit fun _ hm => hm) fun _ => ?_
  exact keeps_askOr (by simp) (by simp) (fun _ _ hm => hm) keepsWide_startReportDiscovery

theorem keepsWide_readReportRef (handle : U16) : KeepsWide cfg P (readReportRef handle) := by
  refine keeps_askOr (by simp) (by simp) (fun _ _ hm => hm) ?_
  exact .bind (keepsWide_emit fun _ hm => hm) fun _ => keepsWide_discoverCcc

/-- A subscription overwrites an entry. -/
theorem keepsWide_subscribeReport (a : Attr) : KeepsWide cfg P (subscribeReport a) := by
  refine .bind keeps_look fun m => .ite ?_ (keeps_pure ())
  refine .bind (keepsWide_emit fun m' hm => ⟨hm.1, ?_⟩) fun _ => ?_
  · rw [List.length_set]
    exact hm.2
  refine .bind ((keeps_ask _).mpr ?_) fun _ => ?_
  · intro m err m' io _ hans hm
    cases err <;> cases hans <;> exact hm
  · exact .ite (keeps_pure ()) (keepsWide_emit fun _ hm => hm)

theorem keepsWide_wireReport (a : Attr) : KeepsWide cfg P (wireReport a) :=
  .bind (keepsWide_subscribeReport a) fun _ =>
    .bind (keepsWide_emit fun _ hm => hm) fun _ => keepsWide_subscribePending

/-- A report that is collected overwrites an entry. -/
theorem Wide.collectReport (hm : Wide m) (a : Attr) : Wide (collectReport a m) := by
  unfold BleHidHost.collectReport
  split
  · refine ⟨?_, hm.2⟩
    rw [List.length_set]
    exact hm.1
  · exact hm

theorem keepsWide_deliver (q : DiscoverParams) (a : Attr) : KeepsWide cfg P (deliver q a) := by
  refine .bind (.bind keeps_look fun m => ?_) fun i => ?_
  · cases m.discState with
    | idle => exact keeps_pure _
    | hidsPrimary =>
      refine .bind (.bind (keepsWide_emit fun _ hm => hm) fun _ => ?_) fun _ => keeps_pure _
      exact keepsWide_discoverOr keepsWide_discIdle
    | reportMapChrc => exact .bind (keepsWide_readReportMap _) fun _ => keeps_pure _
    | reportChrc =>
      exact .bind (keepsWide_emit fun _ hm => hm.collectReport a) fun _ => keeps_pure _
    | reportRef => exact .bind (keepsWide_readReportRef _) fun _ => keeps_pure _
    | ccc => exact .bind (keepsWide_wireReport a) fun _ => keeps_pure _
  · cases i with
    | «continue» => exact keepsWide_emit fun _ hm => hm
    | stop => exact keeps_pure ()

theorem keepsWide_finishDiscover : KeepsWide cfg P finishDiscover := by
  refine .bind (.bind (.bind keeps_look fun m => ?_) fun _ => keeps_pure _) fun _ => keeps_pure ()
  cases m.discState with
  | idle => exact keeps_pure ()
  | hidsPrimary => exact keeps_pure ()
  | reportMapChrc => exact keepsWide_startReportDiscovery
  | reportChrc =>
    refine .bind keeps_look fun _ => .ite keepsWide_discIdle ?_
    exact .bind (keepsWide_emit fun _ hm => hm) fun _ => keepsWide_subscribePending
  | reportRef => exact keepsWide_discoverCcc
  | ccc => exact .bind (keepsWide_emit fun _ hm => hm) fun _ => keepsWide_subscribePending

theorem keepsWide_writeLayouts (ls : List ReportLayout) : KeepsWide cfg P (writeLayouts ls) := by
  induction ls with
  | nil => exact keeps_pure ()
  | cons l ls ih => exact .bind (keepsWide_emit fun _ hm => hm) fun _ => ih

theorem keepsWide_respondMap (handle : U16) (received : List U8) (err : Bool) (data : List U8) :
    KeepsWide cfg P (respondMap cfg handle received err data) := by
  refine .bind (.ite ?_ (.ite ?_ ?_)) fun i => ?_
  · exact .bind keepsWide_startReportDiscovery fun _ => keeps_pure _
  · exact .bind (keepsWide_emit fun _ hm => hm) fun _ => keeps_pure _
  · refine .bind (.bind keeps_look fun _ => .bind (keepsWide_writeLayouts _) fun _ => ?_) fun _ =>
      .bind keepsWide_startReportDiscovery fun _ => keeps_pure _
    exact .bind (keepsWide_emit fun _ hm => hm) fun _ =>
      .ite (keepsWide_emit fun _ hm => hm) (keeps_pure ())
  · cases i with
    | «continue» => exact keepsWide_emit fun _ hm => hm
    | stop => exact keeps_pure ()

theorem keepsWide_disconnected (conn : ℕ) : KeepsWide cfg P (disconnected cfg conn) := by
  refine .bind keeps_look fun _ => .ite (keeps_pure ()) ?_
  refine .bind (keepsWide_emit fun _ hm => hm) fun _ => ?_
  refine .bind (keepsWide_emit fun _ hm => hm) fun _ => ?_
  refine .bind (keepsWide_emit fun _ hm => hm) fun _ => ?_
  refine .bind (keepsWide_emit fun _ hm => hm) fun _ => ?_
  refine .bind (keepsWide_emit fun _ hm => hm) fun _ => ?_
  refine .bind (keepsWide_emit fun _ hm => hm) fun _ => ?_
  refine .bind (keepsWide_emit fun _ hm => hm) fun _ => ?_
  refine .bind (keepsWide_emit fun _ hm => hm) fun _ => ?_
  exact keeps_startScan_offScan widely_offScan

/-- Each event keeps the lengths, and so does the callback it enters. -/
theorem Wide.enter (hm : Wide m) {e : Event} {m' : Central} {io' : Pipeline} {p : Callback Unit}
    (henter : Entered cfg m io e m' io' p) : Wide m' ∧ KeepsWide cfg P p := by
  cases henter with
  | advertise addr type ad =>
    exact ⟨hm, keeps_deviceFound (J := widely) widely_offScan addr type ad⟩
  | scanRetry => exact ⟨hm, keeps_scanRetryHandler (J := widely) widely_offScan⟩
  | connected err => exact ⟨hm, keeps_connected (J := widely) widely_offScan err⟩
  | securityChanged level err =>
    refine ⟨hm, .ite (keeps_securityFailed (J := widely) widely_offLink _) ?_⟩
    refine .bind (keepsWide_emit fun _ hm => hm) fun _ => ?_
    exact .bind (keepsWide_emit fun _ hm => hm) fun _ => keepsWide_discoverOr (keeps_pure ())
  | disconnected => exact ⟨hm, keepsWide_disconnected _⟩
  | discovered => exact ⟨hm, keepsWide_deliver _ _⟩
  | discoverDone => exact ⟨hm, keepsWide_finishDiscover⟩
  | readMap n err data => exact ⟨hm, keepsWide_respondMap _ _ err data⟩
  | readRef n err data =>
    refine ⟨hm, .bind (.bind (keepsWide_emit fun _ hm => hm) fun _ => ?_) fun _ =>
      keeps_pure ()⟩
    exact .bind keepsWide_discoverCcc fun _ => keeps_pure _
  | notified slot data => exact ⟨hm, keepsWide_emit fun _ hm => hm⟩
  | unsubscribed slot =>
    refine ⟨hm, keepsWide_emit fun _ hm => ⟨hm.1, ?_⟩⟩
    rw [List.length_modify]
    exact hm.2
  | timePasses => exact ⟨hm, keeps_pure ()⟩
  | bonded => exact ⟨hm, keeps_pure ()⟩

/-- **The arrays keep their lengths** in every run. -/
theorem wide_of_reachable {s : System} (h : Reachable cfg P s) : Wide s.main := by
  obtain ⟨bonds, uptime, accepts, hreach⟩ := h
  have hinit : Wide (Central.start bonds uptime) := ⟨List.length_replicate, List.length_replicate⟩
  have hscan : KeepsWide cfg P startScan := keeps_startScan_offScan widely_offScan
  have hstart : widely (start bonds uptime accepts).main (start bonds uptime accepts).io ∧
      (start bonds uptime accepts).running.Safe (central cfg) P widely (fun _ => Wide)
        (start bonds uptime accepts).main :=
    ⟨hinit, Keeps.safe (I := Wide) hscan hinit⟩
  refine (Machine.invariant hstart (fun _ _ hm _ => hm) ?_ hreach).1
  intro e m io m' io' p hm _ _ henter
  obtain ⟨hm', hp⟩ := hm.enter (P := P) (entered_of_enter henter)
  exact ⟨hm', Keeps.safe (I := Wide) hp hm'⟩

/-! ### The cursor -/

/-- A descriptor of a report is looked for, or read. -/
def DiscState.wires : DiscState → Bool
  | .reportRef => true
  | .ccc => true
  | _ => false

/-- A report that is wired is one of those counted. -/
def Aimed (m : Central) : Prop := m.discState.wires → m.pendingIdx < m.pendingCount

/-! ### Variables -/

/-- How far the discovery of the peer has come, and what is known of it. -/
structure PeerState where
  layoutValid : Bool
  rmLen : ℕ
  discState : DiscState
  pendingCount : ℕ
  pendingIdx : ℕ
  subCount : ℕ
  procs : List Proc
  subscribed : List ℕ
  mayQueue : Bool
  lastMap : Option (ℕ × List U8)

/-- These variables of a state. -/
def peerState (m : Central) : PeerState :=
  ⟨m.layoutValid, m.rmLen, m.discState, m.pendingCount, m.pendingIdx, m.subCount, m.procs,
    m.subscribed, m.mayQueue, m.lastMap⟩

/-- No discovery has begun, and nothing is subscribed or queued. -/
def Cleared (m : Central) : Prop :=
  peerState m = ⟨false, 0, .idle, 0, 0, 0, [], [], false, none⟩

/-- The same, at every action. -/
def clearedly (m : Central) (_ : Pipeline) : Prop := Cleared m

/-- The link is up. -/
def LinkUp (m : Central) : Prop := ∃ l, m.link = some l ∧ l.up

/-- Without a link that is up, all is cleared. -/
def ClearedDown (m : Central) : Prop := ¬ LinkUp m → Cleared m

theorem ClearedDown.of_up (h : LinkUp m) : ClearedDown m := fun hdown => absurd h hdown

theorem ClearedDown.of_cleared (h : Cleared m) : ClearedDown m := fun _ => h

/-- The connection callbacks do not touch what is known of the peer. -/
theorem clearedly_offScan {m' : Central} {io : Pipeline} (h : offScan m' = offScan m)
    (hm : clearedly m io) : clearedly m' io := by
  have heq : peerState (offScan m') = peerState (offScan m) := by rw [h]
  exact Eq.trans heq hm

/-- What a callback restores, whatever it does in between. -/
abbrev SafeCleared (cfg : Setup) (P : Condition) (p : Callback Unit) (m : Central) : Prop :=
  p.Safe (central cfg) P (fun _ _ => True) (fun _ => ClearedDown) m

/-- A callback that keeps all cleared. -/
theorem Cleared.safe_keeps {p : Callback Unit} (h : Cleared m)
    (hp : p.Keeps (central cfg) P clearedly) :
    p.Safe (central cfg) P (fun _ _ => True) (fun _ => Cleared) m :=
  (Keeps.safe (I := Cleared) hp h).forget

theorem Cleared.safe {p : Callback Unit} (h : Cleared m) (hp : p.Keeps (central cfg) P clearedly) :
    SafeCleared cfg P p m :=
  (h.safe_keeps hp).mono fun _ _ => .of_cleared

/-- A callback that leaves the link alone, while it is up. -/
theorem LinkUp.safe {p : Callback Unit} (h : LinkUp m) (hp : Leaves cfg P linkPart p) :
    SafeCleared cfg P p m := by
  apply hp.safe.mono
  intro _ m' heq
  have hlink : m'.link = m.link := congrArg (·.2.1) heq
  refine .of_up ?_
  unfold LinkUp
  rwa [hlink]

/-! ### Callbacks -/

theorem safeCleared_deviceFound (htracked : Tracked m) (h : ClearedDown m) (addr : Addr)
    (type : AdvType) (ad : List BtData) : SafeCleared cfg P (deviceFound cfg addr type ad) m := by
  by_cases hup : LinkUp m
  · -- the connection is held, and the advertiser is no target
    obtain ⟨l, hl, -⟩ := hup
    have hconn : m.defaultConn = some l.conn := by rw [← htracked.link_eq, hl, Option.map_some]
    rw [SafeCleared, deviceFound, safe_bind, safe_look, safe_ite]
    refine ⟨fun htarget => ?_, fun _ => h⟩
    exact absurd (hconn.symm.trans htarget.1) (Option.some_ne_none _)
  · exact (h hup).safe (keeps_deviceFound (J := clearedly) clearedly_offScan addr type ad)

/-- The scan retry touches neither the link nor what is known of the peer. -/
theorem safeCleared_scanRetryHandler (h : ClearedDown m) :
    SafeCleared cfg P scanRetryHandler m := by
  by_cases hup : LinkUp m
  · obtain ⟨l, hl, hlup⟩ := hup
    have hkeeps : scanRetryHandler.Keeps (central cfg) P fun m _ => m.link = some l := by
      refine .bind keeps_look fun _ => .ite ?_ (keeps_pure ())
      exact keeps_startScan (fun _ _ _ hm => hm) fun _ _ hm => hm
    exact ((Keeps.safe (I := fun m => m.link = some l) hkeeps hl).mono
      fun _ _ hm => .of_up ⟨l, hm, hlup⟩).forget
  · exact (h hup).safe (keeps_scanRetryHandler (J := clearedly) clearedly_offScan)

theorem safeCleared_securityChanged (hup : LinkUp m) (peer : Addr) (level : ℕ) (err : Bool) :
    SafeCleared cfg P (securityChanged peer level err) m := by
  rw [SafeCleared, securityChanged, safe_ite]
  refine ⟨fun _ => ?_, fun _ => hup.safe (leaves_startDiscovery linkPart_eq)⟩
  -- a disconnect that is requested leaves the link up
  obtain ⟨l, hl, hlup⟩ := hup
  rw [securityFailed, safe_bind, safe_assign]
  refine ⟨fun _ _ => trivial, (safe_askOr (by simp) (by simp) _).mpr
    ⟨fun _ => ⟨fun _ _ => trivial, .of_up ?_⟩, fun _ _ _ => .of_up ⟨l, hl, hlup⟩⟩⟩
  refine ⟨{ l with disconnecting := true }, ?_, hlup⟩
  show m.link.map _ = _
  rw [hl, Option.map_some]

/-- **A disconnect clears all.** -/
theorem cleared_disconnected {conn : ℕ} (hconn : m.defaultConn = some conn)
    (hprocs : m.procs = []) (hsub : m.subscribed = []) :
    (disconnected cfg conn).Safe (central cfg) P (fun _ _ => True) (fun _ => Cleared) m := by
  rw [disconnected, safe_bind, safe_look, safe_ite]
  refine ⟨fun hne => absurd hconn hne, fun _ => ?_⟩
  simp only [unrefDefaultConn, invalidateLayout, safe_bind, safe_assign, safe_emit, implies_true,
    true_and]
  refine Cleared.safe_keeps ?_ (keeps_startScan_offScan clearedly_offScan)
  unfold Cleared peerState
  rw [hprocs, hsub]
  rfl

/-- **Each event is survived.** -/
theorem ClearedDown.safe_enter (h : ClearedDown m) (htracked : Tracked m) {e : Event}
    {m' : Central} {io io' : Pipeline} {p : Callback Unit} (henter : Entered cfg m io e m' io' p) :
    SafeCleared cfg P p m' := by
  have hup {l : Link} (hl : m.link = some l) (hlup : l.up) (n : ℕ) : LinkUp (takeProc n m) :=
    ⟨l, hl, hlup⟩
  cases henter with
  | advertise addr type ad => exact safeCleared_deviceFound htracked h addr type ad
  | scanRetry => exact safeCleared_scanRetryHandler h
  | @connected err l hl hdown =>
    -- the link was not up, and nothing was known of the peer
    have hcleared : Cleared m := h fun ⟨l', hl', hlup⟩ => by
      cases hl.symm.trans hl'
      exact hdown hlup
    exact Cleared.safe hcleared (keeps_connected (J := clearedly) clearedly_offScan err)
  | securityChanged level err hl hlup =>
    refine safeCleared_securityChanged ⟨_, rfl, ?_⟩ _ level err
    exact hlup
  | @disconnected l hl =>
    have hconn : m.defaultConn = some l.conn := by rw [← htracked.link_eq, hl, Option.map_some]
    have hcleared : (disconnected cfg l.conn).Safe (central cfg) P (fun _ _ => True)
        (fun _ => Cleared) { m with link := none, procs := [], subscribed := [] } :=
      cleared_disconnected hconn rfl rfl
    exact hcleared.mono fun _ _ => .of_cleared
  | discovered n hl hlup =>
    exact (hup hl hlup n).safe (leaves_deliver (eq_of_offMap linkPart_eq) _ _)
  | discoverDone n hl hlup =>
    exact (hup hl hlup n).safe (leaves_finishDiscover linkPart_eq_of_offCursor)
  | readMap n err data hl hlup =>
    exact LinkUp.safe ⟨_, hl, hlup⟩ (leaves_respondMap linkPart_eq _ _ err data)
  | readRef n err data hl hlup =>
    exact (hup hl hlup n).safe (leaves_respondRef linkPart_eq_of_offCursor err data)
  | notified slot data hl hlup =>
    exact (safe_emit _ _).mpr ⟨fun _ _ => trivial, .of_up ⟨_, hl, hlup⟩⟩
  | unsubscribed slot hslot =>
    -- without a link nothing would be subscribed
    have hlink : LinkUp m := by
      by_contra hdown
      have hnil : m.subscribed = [] := congrArg PeerState.subscribed (h hdown)
      rw [hnil] at hslot
      cases hslot
    obtain ⟨l, hl, hlup⟩ := hlink
    exact LinkUp.safe ⟨l, hl, hlup⟩ (leaves_unsubscribed linkPart_eq_of_offCursor slot)
  | timePasses => exact h
  | bonded => exact h

/-- **Without a link that is up, all is cleared** between two callbacks. -/
theorem cleared_of_reachable {s : System} (h : Reachable cfg P s) (hidle : s.Idle) :
    ClearedDown s.main := by
  obtain ⟨bonds, uptime, accepts, hreach⟩ := h
  have hstart : Cleared (Central.start bonds uptime) := rfl
  have hun : Unconnected (Central.start bonds uptime) := ⟨rfl, rfl, fun _ => rfl⟩
  have hscan : startScan.Keeps (central cfg) P clearedly :=
    keeps_startScan_offScan clearedly_offScan
  refine (Machine.invariant_idle (I := fun m => Tracked m ∧ ClearedDown m)
    (hun.safe_startScan.and (hstart.safe hscan)) ?_ hreach hidle).2
  intro e m io m' io' p hI _ henter
  obtain ⟨htracked, hcleared⟩ := hI
  exact (htracked.safe_enter (entered_of_enter henter)).and
    (hcleared.safe_enter htracked (entered_of_enter henter))

end BleHidHost
