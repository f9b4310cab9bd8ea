import BleHidHost.Effort
import BleHidHost.Showing
import BleHidHost.Lib.Courses

/-!
# No state is a trap

Calls are refused, responses fail, and a link may be left on which nothing is outstanding
and nothing is subscribed.  But from wherever a run has come to it can go on to a
connection that works: what is running returns, the link comes to its end, the scanner comes
on, and a peer that is recognised is heard, connected, discovered and subscribed to.

## Main definitions

* `Peer`, `obliging` — a peer with its answers, and the condition that nothing fails.
* `subscriptionsOf` — the subscriptions that a table and its Report References call for.
* `Working` — a connection to the peer with these subscriptions and its layout.

## Main results

* `comesTo_unlinked`, `comesTo_scanning`, `comesTo_target`, `comesTo_secured`,
  `comesTo_parsed`, `comesTo_finished` — the stages of the way.
* `comesTo_working` — **from every reachable state a run leads to a connection that works.**
-/

namespace BleHidHost

open Lib Lib.Prog

/-! ### A peer and its answers -/

/-- A peer: its address, what it advertises, and what it responds with. -/
structure Peer where
  addr : Addr
  ad : List BtData
  /-- The value of its Report Map. -/
  map : List U8
  /-- The Report ID in the Report Reference at this handle. -/
  ids : U16 → U8

/-- The response of the peer to a read. -/
def Peer.Responds (peer : Peer) (data : List U8) : Proc → Prop
  | .discover _ => False
  -- the value comes in one chunk, and then the end
  | .readMap _ received => data = if received = [] then peer.map else []
  | .readRef handle => data = [peer.ids handle]

instance (peer : Peer) (data : List U8) (p : Proc) : Decidable (peer.Responds data p) := by
  cases p
  · exact inferInstanceAs (Decidable False)
  · exact inferInstanceAs (Decidable (_ = _))
  · exact inferInstanceAs (Decidable (_ = _))

/-- No call is refused, and nothing happens but that time passes, that the scan is retried,
that a link that is up comes to its end, that a link is established and encrypted as it was
requested, and that this peer responds, and advertises to a scanner that is on. -/
def obliging (cfg : Setup) (peer : Peer) : Condition where
  onAnswer _ _ err := err == .success
  onEvent m e :=
    match e with
    | .advertise addr type ad =>
      m.scanning && decide (addr = peer.addr ∧ type = .advInd ∧ ad = peer.ad)
    | .scanRetry => true
    | .connected err => !err
    | .securityChanged level err => reportsSecured level err && (upLink m).any Link.securing
    | .disconnected => (upLink m).isSome
    | .discovered _ => true
    | .discoverDone n => passEnded cfg m n
    | .readResponse n err data => !err && (m.procs[n]?).any fun p => decide (peer.Responds data p)
    | .timePasses _ => true
    | _ => false
  onWork _ _ := true

/-- Where the Report Map is looked for in a service. -/
def reportMapParams (service : Attr) : DiscoverParams :=
  ⟨uuidHidsReportMap, service.handle + 1, service.value, .characteristic⟩

/-- A table with a HID service that has a Report Map. -/
structure Discoverable (table : List Attr) : Prop where
  order : InHandleOrder table
  found : ∃ service ∈ hidsParams.next table, ((reportMapParams service).next table).isSome

/-- The Report ID of the `k`-th pending report: 0 without a Report Reference. -/
def reportIdOf (table : List Attr) (ids : U16 → U8) (k : ℕ) : U8 :=
  ((searchWindow table k uuidHidsReportRef).next table).elim 0 fun ref => ids ref.handle

/-- The subscription that the `k`-th pending report calls for: none without a CCC. -/
def subscriptionOf (table : List Attr) (ids : U16 → U8) (k : ℕ) : Option HidSubscription :=
  ((searchWindow table k uuidGattCcc).next table).map fun ccc =>
    ⟨(pendingOf table).getD k 0, ccc.handle, reportIdOf table ids k⟩

/-- The subscriptions of the first `k` pending reports. -/
def subscriptionsUpTo (table : List Attr) (ids : U16 → U8) (k : ℕ) : List HidSubscription :=
  (List.range k).filterMap (subscriptionOf table ids)

/-- The subscriptions of all pending reports. -/
def subscriptionsOf (table : List Attr) (ids : U16 → U8) : List HidSubscription :=
  subscriptionsUpTo table ids (pendingOf table).length

/-- The layout that the map is parsed to, and the service that was found, on this link. -/
structure Parsed (cfg : Setup) (peer : Peer) (l : Link) (m : Central) : Prop where
  link_eq : m.link = some l
  valid : m.layoutValid
  layout_eq : m.layout = (zmkHidParseReportMap (peer.map.take reportMapMax)).2
  ends : m.hidsEndHandle = serviceEnd (cfg.table l.conn)

/-- The wiring has come to the `k`-th report: those before it are subscribed to as they
call for. -/
structure Reached (table : List Attr) (ids : U16 → U8) (k : ℕ) (m : Central) : Prop where
  lengths : Lengths (tally m)
  pending : m.pendingReports.take m.pendingCount = pendingOf table
  count_le : m.pendingCount ≤ maxReports
  idx_eq : m.pendingIdx = k
  subCount_le : m.subCount ≤ k
  subs_eq : m.subs.take m.subCount = subscriptionsUpTo table ids k
  subscribed_eq : m.subscribed = (List.range m.subCount).reverse

/-- The peer is connected on a link that is encrypted, its map is parsed, discovery rests,
and every pending report that can be is subscribed to, with its own Report ID. -/
structure Working (cfg : Setup) (peer : Peer) (m : Central) : Prop where
  secured : ∃ l, Parsed cfg peer l m ∧ (l.peer = peer.addr ∧ l.up ∧ l.secured) ∧
    m.subs.take m.subCount = subscriptionsOf (cfg.table l.conn) peer.ids
  subscribed_eq : m.subscribed = (List.range m.subCount).reverse
  rests : m.procs = [] ∧ m.discState = .idle

variable {cfg : Setup} {P : Condition} {peer : Peer} {m : Central} {s : System} {l : Link}
  {Q : Central → Prop}

/-- What is known of the link, the map and the service. -/
def parsedPart (m : Central) : Option Link × Bool × ReportLayout × U16 :=
  (m.link, m.layoutValid, m.layout, m.hidsEndHandle)

/-- An assignment that touches nothing of that. -/
theorem Parsed.congr {m' : Central} (h : Parsed cfg peer l m) (heq : parsedPart m' = parsedPart m) :
    Parsed cfg peer l m' := by
  simp only [parsedPart, Prod.mk.injEq] at heq
  obtain ⟨hlink, hvalid, hlayout, hends⟩ := heq
  exact ⟨hlink.trans h.link_eq, hvalid ▸ h.valid, hlayout.trans h.layout_eq, hends.trans h.ends⟩

/-- An assignment that touches neither the arrays of the wiring nor what is subscribed. -/
theorem Reached.congr {m' : Central} {table : List Attr} {ids : U16 → U8} {k : ℕ}
    (h : Reached table ids k m) (heq : (tally m', m'.subscribed) = (tally m, m.subscribed)) :
    Reached table ids k m' := by
  simp only [tally, Prod.mk.injEq, Tally.mk.injEq] at heq
  obtain ⟨⟨hpending, hcount, hidx, hsubs, hsubCount⟩, hsubscribed⟩ := heq
  refine ⟨⟨?_, ?_⟩, ?_, hcount.trans_le h.count_le, hidx.trans h.idx_eq,
    hsubCount.trans_le h.subCount_le, ?_, ?_⟩
  · exact (congrArg List.length hpending).trans h.lengths.pending
  · exact (congrArg List.length hsubs).trans h.lengths.subs
  · rw [hpending, hcount, h.pending]
  · rw [hsubs, hsubCount, h.subs_eq]
  · rw [hsubscribed, hsubCount, h.subscribed_eq]

/-! ### Obliging runs -/

/-- From here an obliging run comes to rest in such a state. -/
abbrev Leading (cfg : Setup) (peer : Peer) (s : System) (Q : Central → Prop) : Prop :=
  (central cfg).ComesTo (obliging cfg peer) s Q

/-- In an obliging run the callback returns in such a state. -/
abbrev Obliged (cfg : Setup) (peer : Peer) (p : Callback Unit) (Q : Central → Prop) (m : Central) :
    Prop :=
  p.Safe (central cfg) (obliging cfg peer) (fun _ _ => True) (fun _ => Q) m

theorem answered_obliging (cfg : Setup) (peer : Peer) :
    (central cfg).Answered (obliging cfg peer) :=
  fun m c => ⟨.success, granted c m, rfl, answer_success c m⟩

theorem eq_success_of_obliging {c : Request} {err : Errno}
    (h : (obliging cfg peer).onAnswer m c err) : err = .success := eq_of_beq h

/-- A run goes on from a reachable state to reachable states. -/
theorem Reachable.goOn {t : System} (h : Reachable cfg .any s)
    (ht : (central cfg).ReachedUnder (obliging cfg peer) s t) : Reachable cfg .any t := by
  obtain ⟨bonds, uptime, accepts, hreach⟩ := h
  exact ⟨bonds, uptime, accepts, hreach.trans (ht.of_stricter (stricter_any _))⟩

/-- **An event leads on**, through the callback that it enters. -/
theorem leading_event {e : Event} {m' : Central} {io' : Pipeline} {p : Callback Unit}
    (hidle : s.Idle) (hok : (obliging cfg peer).onEvent s.main e)
    (henter : enter cfg e s.main s.io = some (m', io', p)) (hp : Obliged cfg peer p Q m') :
    Leading cfg peer s Q :=
  Machine.comesTo_event (answered_obliging cfg peer) hidle hok henter hp

/-- A call succeeds. -/
theorem obliged_askOr {c : Request} {q : Callback Unit} (h : Q (granted c m)) :
    Obliged cfg peer (askOr c q) Q m := by
  rw [Obliged, askOr, safe_bind, safe_ask, central_answer]
  intro err m' hok hans
  obtain rfl := eq_success_of_obliging hok
  cases (answer_success c m).symm.trans hans
  exact ⟨fun _ _ => trivial, h⟩

theorem obliged_discoverOr {q : Callback Unit}
    (h : Q { m with procs := m.procs ++ [.discover m.discoverParams] }) :
    Obliged cfg peer (discoverOr q) Q m := by
  rw [Obliged, discoverOr, safe_bind, safe_look]
  exact obliged_askOr h

/-! ### Bonds -/

/-- The bonds of a central. -/
def bondsOf (m : Central) : List Addr := m.bonds

/-- What agrees in a part that has the bonds has the same bonds. -/
theorem bondsOf_eq {m m' : Central} {f : Central → Central} (hf : ∀ m, bondsOf (f m) = bondsOf m)
    (h : f m' = f m) : bondsOf m' = bondsOf m := by
  rw [← hf m', h, hf m]

theorem bondsOf_offCursor {m m' : Central} (h : offCursor m' = offCursor m) :
    bondsOf m' = bondsOf m := bondsOf_eq (f := offCursor) (fun _ => rfl) h

theorem bondsOf_offMap {m m' : Central} (h : offMap m' = offMap m) :
    bondsOf m' = bondsOf m := bondsOf_eq (f := offMap) (fun _ => rfl) h

theorem bondsOf_offDiscovery {m m' : Central} (h : offDiscovery m' = offDiscovery m) :
    bondsOf m' = bondsOf m := bondsOf_eq (f := offDiscovery) (fun _ => rfl) h

theorem bondsOf_offLink {m m' : Central} {b : List Addr} (h : offLink m' = offLink m)
    (hm : bondsOf m = b) : bondsOf m' = b := (bondsOf_eq (f := offLink) (fun _ => rfl) h).trans hm

theorem bondsOf_offScan {m m' : Central} {b : List Addr} (h : offScan m' = offScan m)
    (hm : bondsOf m = b) : bondsOf m' = b :=
  bondsOf_offLink (offLink_eq_of_offScan h) hm

theorem spares_bonds_disconnected (conn : ℕ) : Spares cfg P bondsOf (disconnected cfg conn) := by
  refine fun b => .bind keeps_look fun _ => .ite (keeps_pure ()) ?_
  refine .bind ((keeps_assign _).mpr fun _ _ h => h) fun _ => ?_
  refine .bind ((keeps_assign _).mpr fun _ _ h => h) fun _ => ?_
  refine .bind ((keeps_assign _).mpr fun _ _ h => h) fun _ => ?_
  refine .bind ((keeps_assign _).mpr fun _ _ h => h) fun _ => ?_
  refine .bind ((keeps_emit _ _).mpr fun _ _ h => h) fun _ => ?_
  refine .bind ((keeps_assign _).mpr fun _ _ h => h) fun _ => ?_
  refine .bind ((keeps_emit _ _).mpr fun _ _ h => h) fun _ => ?_
  refine .bind ((keeps_emit _ _).mpr fun _ _ h => h) fun _ => ?_
  exact keeps_startScan_offScan bondsOf_offScan

/-- No callback touches the bonds. -/
theorem spares_bonds_entered {io io' : Pipeline} {e : Event} {m' : Central} {p : Callback Unit}
    (h : Entered cfg m io e m' io' p) : Spares cfg P bondsOf p := by
  cases h with
  | advertise addr type ad => exact fun _ => keeps_deviceFound bondsOf_offScan addr type ad
  | scanRetry => exact fun _ => keeps_scanRetryHandler bondsOf_offScan
  | connected err => exact fun _ => keeps_connected bondsOf_offScan err
  | securityChanged level err =>
    refine fun b => .ite (keeps_securityFailed bondsOf_offLink _) ?_
    exact (leaves_startDiscovery bondsOf_offDiscovery).spares b
  | disconnected => exact spares_bonds_disconnected _
  | discovered => exact (leaves_deliver bondsOf_offMap _ _).spares
  | discoverDone => exact (leaves_finishDiscover bondsOf_offCursor).spares
  | readMap n err data => exact (leaves_respondMap bondsOf_offDiscovery _ _ err data).spares
  | readRef n err data => exact (leaves_respondRef bondsOf_offCursor err data).spares
  | notified slot data => exact fun b => (keeps_emit _ _).mpr fun _ _ h => h
  | unsubscribed slot => exact (leaves_unsubscribed bondsOf_offCursor slot).spares
  | timePasses => exact fun b => keeps_pure ()
  | bonded => exact fun b => keeps_pure ()

/-- What is left of a callback that runs leaves the bonds alone. -/
theorem spares_bonds_of_reachable {P' : Condition} (h : Reachable cfg P' s) :
    Spares cfg P bondsOf s.running := by
  obtain ⟨bonds, uptime, accepts, hreach⟩ := h
  have hscan : Spares cfg P bondsOf startScan := fun _ => keeps_startScan_offScan bondsOf_offScan
  refine Reaches.invariant hreach (I := fun s => Spares cfg P bondsOf s.running) hscan ?_
  rintro ⟨m, io, p⟩ a t hspares - hstep
  cases a with
  | work =>
    cases hstep
    exact hspares
  | tick =>
    cases p with
    | act f g k =>
      cases hstep
      exact fun b => (hspares b).2 (f m)
    | ret => cases hstep
    | call => cases hstep
  | answer r =>
    cases p with
    | call c k =>
      obtain ⟨m', -, rfl⟩ := Option.map_eq_some_iff.mp hstep
      exact fun b => (hspares b).2 r
    | ret => cases hstep
    | act => cases hstep
  | event e =>
    cases p with
    | ret u =>
      obtain ⟨⟨m', io', p'⟩, hm, rfl⟩ := Option.map_eq_some_iff.mp hstep
      exact spares_bonds_entered (entered_of_enter hm)
    | act => cases hstep
    | call => cases hstep

/-! ### The link comes to its end -/

/-- What is running returns. -/
theorem leading_idle (h : Reachable cfg .any s) :
    Leading cfg peer s fun m => m.bonds = s.main.bonds :=
  Machine.comesTo_of_safe (answered_obliging cfg peer) (spares_bonds_of_reachable h).safe

/-- A link that is up comes to its end. -/
theorem leading_disconnected (h : Reachable cfg .any s) (hidle : s.Idle)
    (hl : s.main.link = some l) (hup : l.up) :
    Leading cfg peer s fun m => m.link = none ∧ m.bonds = s.main.bonds := by
  have hconn : s.main.defaultConn = some l.conn := by
    rw [← (tracked_of_reachable h hidle).link_eq, hl, Option.map_some]
  have hlink : upLink s.main = some l := upLink_eq hl hup
  have hok : (obliging cfg peer).onEvent s.main .disconnected = true := by
    show (upLink s.main).isSome = true
    rw [hlink]
    rfl
  have henter : enter cfg .disconnected s.main s.io =
      some ({ s.main with link := none, procs := [], subscribed := [] }, s.io,
        disconnected cfg l.conn) := by
    simp only [enter, hl, Option.map_some]
  refine leading_event hidle hok henter ?_
  rw [Obliged, disconnected, safe_bind, safe_look, safe_ite]
  refine ⟨fun hne => absurd hconn hne, fun _ => ?_⟩
  simp only [unrefDefaultConn, invalidateLayout, safe_bind, safe_assign, safe_emit, implies_true,
    true_and]
  have hscan : startScan.Keeps (central cfg) (obliging cfg peer) fun (m : Central) _ =>
      m.link = none ∧ m.bonds = s.main.bonds :=
    keeps_startScan (fun _ _ _ hm => hm) fun _ _ hm => hm
  refine Safe.forget (Keeps.safe (I := fun m : Central =>
    m.link = none ∧ m.bonds = s.main.bonds) hscan ?_)
  exact ⟨rfl, rfl⟩

/-- The connection that was requested is established. -/
theorem leading_connected (hidle : s.Idle) (hl : s.main.link = some l) (hdown : ¬ l.up) :
    Leading cfg peer s fun m => m.link = some { l with up := true, securing := true } ∧
      m.procs = s.main.procs ∧ m.subscribed = s.main.subscribed ∧ m.bonds = s.main.bonds := by
  have henter : enter cfg (.connected false) s.main s.io =
      some ({ s.main with link := some { l with up := true } }, s.io, connected false) := by
    simp only [enter, hl, Option.bind_some, if_neg hdown, Bool.false_eq_true, if_false]
  refine leading_event (e := .connected false) hidle rfl henter ?_
  exact obliged_askOr ⟨rfl, rfl, rfl, rfl⟩

/-- **No link is kept**, whatever state it is in. -/
theorem comesTo_unlinked (h : Reachable cfg .any s) :
    Leading cfg peer s fun m => m.link = none ∧ m.bonds = s.main.bonds := by
  refine (leading_idle h).next fun t ht hidle hbonds => ?_
  have hreach : Reachable cfg .any t := h.goOn ht
  cases hl : t.main.link with
  | none => exact .rest hidle ⟨hl, hbonds⟩
  | some l =>
    by_cases hup : l.up
    · refine (leading_disconnected hreach hidle hl hup).mono fun m hm => ?_
      exact ⟨hm.1, hm.2.trans hbonds⟩
    · refine (leading_connected hidle hl hup).next fun u hu hidle' hm => ?_
      refine (leading_disconnected (hreach.goOn hu) hidle' hm.1 rfl).mono fun m hm' => ?_
      exact ⟨hm'.1, hm'.2.trans (hm.2.2.2.trans hbonds)⟩

/-! ### The peer is connected -/

/-- The central takes the peer for one that it may connect to. -/
def Recognised (cfg : Setup) (peer : Peer) (m : Central) : Prop :=
  peer.addr ∈ m.bonds ∨ (parseAd cfg.nameFilter peer.ad).isMatch

/-- Once the cooldown is over nothing is in the way. -/
theorem not_inCooldown_later (h : inCooldown m peer.addr) :
    ¬ inCooldown { m with uptime := m.uptime + 8000 } peer.addr := by
  rintro ⟨-, hlater⟩
  have hnow : kUptimeGet32 m - m.lastFailedMs < failCooldownMs := h.2
  have hclock : kUptimeGet32 { m with uptime := m.uptime + 8000 } = kUptimeGet32 m + 8000 := by
    simp only [kUptimeGet32, BitVec.ofNat_add]
    rfl
  rw [hclock] at hlater
  have hsame : ({ m with uptime := m.uptime + 8000 } : Central).lastFailedMs = m.lastFailedMs := rfl
  rw [hsame] at hlater
  unfold failCooldownMs at *
  bv_omega

/-- A scan start succeeds, and touches nothing else. -/
theorem obliged_startScan {l : Option Link} {b : List Addr} (hl : m.link = l) (hb : m.bonds = b) :
    Obliged cfg peer startScan (fun m => m.scanning ∧ m.link = l ∧ m.bonds = b) m := by
  rw [Obliged, startScan, safe_bind, safe_ask, central_answer]
  intro err m' hok hans
  obtain rfl := eq_success_of_obliging hok
  cases hans
  rw [if_neg (by simp), if_neg (by simp)]
  exact ⟨fun _ _ => trivial, rfl, hl, hb⟩

/-- **Without a link the scanner comes on**, if need be at the retry. -/
theorem comesTo_scanning (h : Reachable cfg .any s) (hidle : s.Idle) (hl : s.main.link = none) :
    Leading cfg peer s fun m => m.scanning ∧ m.link = none ∧ m.bonds = s.main.bonds := by
  have htracked : Tracked s.main := tracked_of_reachable h hidle
  have hfree : s.main.defaultConn = none := by
    rw [← htracked.link_eq, hl, Option.map_none]
  rcases htracked.hears with hconn | hscan | hretry
  · exact absurd hfree hconn
  · exact .rest hidle ⟨hscan, hl, rfl⟩
  · have henter : enter cfg .scanRetry s.main s.io =
        some ({ s.main with retryPending := false }, s.io, scanRetryHandler) := if_pos hretry
    refine leading_event (e := .scanRetry) hidle rfl henter ?_
    rw [Obliged, scanRetryHandler, safe_bind, safe_look, if_pos hfree]
    exact obliged_startScan hl rfl

/-- **The peer becomes a target**, if need be when its cooldown is over. -/
theorem comesTo_target (h : Reachable cfg .any s) (hidle : s.Idle) (hl : s.main.link = none)
    (hscan : s.main.scanning) (hseen : Recognised cfg peer s.main) :
    Leading cfg peer s fun m => m.scanning ∧ isTarget cfg m peer.addr .advInd peer.ad := by
  have hfree : s.main.defaultConn = none := by
    rw [← (tracked_of_reachable h hidle).link_eq, hl, Option.map_none]
  have hseen' : addrIsBonded s.main peer.addr ∨ (parseAd cfg.nameFilter peer.ad).isMatch :=
    hseen.imp_left List.contains_iff_mem.mpr
  by_cases hcool : inCooldown s.main peer.addr
  · have henter : enter cfg (.timePasses 8000) s.main s.io =
        some ({ s.main with uptime := s.main.uptime + 8000 }, s.io, pure ()) := rfl
    refine leading_event (e := .timePasses 8000) hidle rfl henter ?_
    exact ⟨hscan, hfree, by simp, hseen', fun hc => not_inCooldown_later hcool hc.2⟩
  · exact .rest hidle ⟨hscan, hfree, by simp, hseen', fun hc => hcool hc.2⟩

/-- The peer advertises, and a connection to it is requested. -/
theorem leading_requested (hidle : s.Idle) (hscan : s.main.scanning)
    (htarget : isTarget cfg s.main peer.addr .advInd peer.ad) :
    Leading cfg peer s fun m =>
      ∃ conn, m.link = some ⟨conn, peer.addr, false, false, false, false⟩ := by
  have hok : (obliging cfg peer).onEvent s.main (.advertise peer.addr .advInd peer.ad) = true :=
    Bool.and_eq_true_iff.mpr ⟨hscan, decide_eq_true ⟨rfl, rfl, rfl⟩⟩
  refine leading_event hidle hok rfl ?_
  rw [Obliged, deviceFound, safe_bind, safe_look, if_pos htarget, connectTo, safe_bind, safe_ask,
    central_answer]
  intro err m' herr hans
  obtain rfl := eq_success_of_obliging herr
  cases hans
  rw [if_neg (by simp)]
  exact ⟨fun _ _ => trivial, obliged_askOr ⟨_, rfl⟩⟩

/-- The stack takes the one procedure back when it has a result. -/
theorem procs_takeProc {p : Proc} (h : m.procs = [p]) : (takeProc 0 m).procs = [] :=
  congrArg (List.eraseIdx · 0) h

/-- On this link, in this state of the discovery, this procedure is the only one, and
nothing is subscribed. -/
structure Pursuing (l : Link) (st : DiscState) (p : Proc) (m : Central) : Prop where
  link_eq : m.link = some l
  state_eq : m.discState = st
  procs_eq : m.procs = [p]
  subscribed_eq : m.subscribed = []

/-- What the stack leaves when it has taken the procedure back. -/
theorem Pursuing.taken {st : DiscState} {p : Proc} (h : Pursuing l st p m) :
    (takeProc 0 m).discState = st ∧ (takeProc 0 m).procs = [] :=
  ⟨h.state_eq, procs_takeProc h.procs_eq⟩

/-- **The peer is connected, and the link encrypted**: the search for the HID service begins. -/
theorem comesTo_secured (h : Reachable cfg .any s) (hidle : s.Idle) (hscan : s.main.scanning)
    (htarget : isTarget cfg s.main peer.addr .advInd peer.ad) :
    Leading cfg peer s fun m => ∃ l : Link, (l.peer = peer.addr ∧ l.up ∧ l.secured) ∧
      Pursuing l .hidsPrimary (.discover hidsParams) m := by
  refine (leading_requested hidle hscan htarget).next fun t ht hidle' hlink => ?_
  obtain ⟨conn, hl⟩ := hlink
  have hreach : Reachable cfg .any t := h.goOn ht
  -- nothing is known of the peer while the link is not up
  have hcleared : Cleared t.main := cleared_of_reachable hreach hidle' fun hup => by
    obtain ⟨l', hl', hup⟩ := hup
    cases hl.symm.trans hl'
    exact Bool.false_ne_true hup
  have hprocs : t.main.procs = [] := congrArg PeerState.procs hcleared
  have hsub : t.main.subscribed = [] := congrArg PeerState.subscribed hcleared
  refine (leading_connected hidle' hl Bool.false_ne_true).next fun u hu hidle'' hm => ?_
  obtain ⟨hl', hprocs', hsub', -⟩ := hm
  have hup : upLink u.main = some ⟨conn, peer.addr, true, true, false, false⟩ :=
    upLink_eq hl' rfl
  have henter : enter cfg (.securityChanged 2 false) u.main u.io =
      some ({ u.main with link := some ⟨conn, peer.addr, true, false, false, true⟩ }, u.io,
        securityChanged peer.addr 2 false) := by
    simp only [enter, hup, Option.map_some]
    rfl
  have hok : (obliging cfg peer).onEvent u.main (.securityChanged 2 false) = true := by
    show (true && (upLink u.main).any Link.securing) = true
    rw [hup]
    rfl
  refine leading_event hidle'' hok henter ?_
  rw [securityChanged, if_neg (by simp), startDiscovery]
  simp only [Obliged, safe_bind, safe_assign, implies_true, true_and]
  refine obliged_discoverOr ⟨_, ⟨rfl, rfl, rfl⟩, rfl, rfl, ?_, hsub'.trans hsub⟩
  show u.main.procs ++ [.discover hidsParams] = _
  rw [hprocs', hprocs, List.nil_append]

/-! ### Events of the procedures -/

section Procedures

variable {q : DiscoverParams} {handle : U16}

/-- The discovery delivers an attribute. -/
theorem leading_discovered (hidle : s.Idle) (hl : s.main.link = some l) (hup : l.up)
    (hprocs : s.main.procs = [.discover q]) {a : Attr} (ha : q.next (cfg.table l.conn) = some a)
    (hp : Obliged cfg peer (deliver q a) Q (takeProc 0 s.main)) : Leading cfg peer s Q := by
  have hlink : upLink s.main = some l := upLink_eq hl hup
  have henter : enter cfg (.discovered 0) s.main s.io =
      some (takeProc 0 s.main, s.io, deliver q a) := by
    simp [enter, hlink, hprocs, enterProc, ha]
  exact leading_event (e := .discovered 0) hidle rfl henter hp

/-- The discovery has delivered all there is. -/
theorem leading_discoverDone (hidle : s.Idle) (hl : s.main.link = some l) (hup : l.up)
    (hprocs : s.main.procs = [.discover q]) (hnone : q.next (cfg.table l.conn) = none)
    (hp : Obliged cfg peer finishDiscover Q (takeProc 0 s.main)) : Leading cfg peer s Q := by
  have hlink : upLink s.main = some l := upLink_eq hl hup
  have hok : (obliging cfg peer).onEvent s.main (.discoverDone 0) = true := by
    simp [obliging, passEnded, hl, hprocs, hnone]
  have henter : enter cfg (.discoverDone 0) s.main s.io =
      some (takeProc 0 s.main, s.io, finishDiscover) := by
    simp [enter, hlink, hprocs, enterProc]
  exact leading_event hidle hok henter hp

/-- The read of the Report Map has a response. -/
theorem leading_mapResponse (hidle : s.Idle) (hl : s.main.link = some l) (hup : l.up)
    {received data : List U8} (hprocs : s.main.procs = [.readMap handle received])
    (hdata : peer.Responds data (.readMap handle received))
    (hp : Obliged cfg peer (respondMap cfg handle received false data) Q
      (noteMapRead l.conn received false data (takeProc 0 s.main))) : Leading cfg peer s Q := by
  have hlink : upLink s.main = some l := upLink_eq hl hup
  have hok : (obliging cfg peer).onEvent s.main (.readResponse 0 false data) = true := by
    simp [obliging, hprocs, hdata]
  have henter : enter cfg (.readResponse 0 false data) s.main s.io =
      some (noteMapRead l.conn received false data (takeProc 0 s.main),
        recordMapRead l.conn received false data s.io,
        respondMap cfg handle received false data) := by
    simp [enter, hlink, hprocs, enterProc]
  exact leading_event hidle hok henter hp

/-- The read of a Report Reference has a response. -/
theorem leading_refResponse (hidle : s.Idle) (hl : s.main.link = some l) (hup : l.up)
    (hprocs : s.main.procs = [.readRef handle])
    (hp : Obliged cfg peer (respondRef false [peer.ids handle]) Q (takeProc 0 s.main)) :
    Leading cfg peer s Q := by
  have hlink : upLink s.main = some l := upLink_eq hl hup
  have hok : (obliging cfg peer).onEvent s.main (.readResponse 0 false [peer.ids handle]) =
      true := by
    simp [obliging, hprocs, Peer.Responds]
  have henter : enter cfg (.readResponse 0 false [peer.ids handle]) s.main s.io =
      some (takeProc 0 s.main, s.io, respondRef false [peer.ids handle]) := by
    simp [enter, hlink, hprocs, enterProc]
  exact leading_event hidle hok henter hp

end Procedures

/-! ### The Report Map is parsed -/

/-- The service is found, and the Report Map is looked for in it. -/
theorem leading_reportMapChrc (hidle : s.Idle) (hup : l.up)
    (hpur : Pursuing l .hidsPrimary (.discover hidsParams) s.main) {service : Attr}
    (hservice : hidsParams.next (cfg.table l.conn) = some service) :
    Leading cfg peer s fun m => Pursuing l .reportMapChrc (.discover (reportMapParams service)) m ∧
      m.hidsEndHandle = service.value := by
  refine leading_discovered hidle hpur.link_eq hup hpur.procs_eq hservice ?_
  obtain ⟨hstate, hnil⟩ := hpur.taken
  rw [Obliged, deliver, safe_bind, discoverFunc, discovered, safe_bind, safe_look, hstate]
  rw [safe_bind, discoverReportMap, safe_bind, safe_assign]
  refine ⟨fun _ _ => trivial, obliged_discoverOr ⟨⟨hpur.link_eq, rfl, ?_, hpur.subscribed_eq⟩, rfl⟩⟩
  exact congrArg (· ++ _) hnil

/-- The Report Map is found, and read. -/
theorem leading_readMap (hidle : s.Idle) (hup : l.up) {q : DiscoverParams}
    (hpur : Pursuing l .reportMapChrc (.discover q) s.main) {a : Attr}
    (ha : q.next (cfg.table l.conn) = some a) :
    Leading cfg peer s fun m => Pursuing l .reportMapChrc (.readMap a.value []) m ∧
      m.hidsEndHandle = s.main.hidsEndHandle ∧ m.rmLen = 0 := by
  refine leading_discovered hidle hpur.link_eq hup hpur.procs_eq ha ?_
  obtain ⟨hstate, hnil⟩ := hpur.taken
  rw [Obliged, deliver, safe_bind, discoverFunc, discovered, safe_bind, safe_look, hstate]
  rw [safe_bind, readReportMap, safe_bind, safe_assign]
  refine ⟨fun _ _ => trivial, obliged_askOr ⟨⟨hpur.link_eq, hstate, ?_, hpur.subscribed_eq⟩, rfl,
    rfl⟩⟩
  exact congrArg (· ++ _) hnil

/-- Its value comes, and what there is room for is stored. -/
theorem leading_stored (h : Reachable cfg .any s) (hidle : s.Idle) (hup : l.up) {handle : U16}
    (hpur : Pursuing l .reportMapChrc (.readMap handle []) s.main) (hlen : s.main.rmLen = 0)
    (hmap : peer.map ≠ []) :
    Leading cfg peer s fun m => Pursuing l .reportMapChrc (.readMap handle peer.map) m ∧
      m.hidsEndHandle = s.main.hidsEndHandle ∧ reportMap m = peer.map.take reportMapMax := by
  refine leading_mapResponse hidle hpur.link_eq hup hpur.procs_eq rfl ?_
  have hnil : (takeProc 0 s.main).procs = [] := procs_takeProc hpur.procs_eq
  have hbuf : s.main.rmBuf.length = reportMapMax ∧ s.main.rmLen ≤ reportMapMax :=
    bounded_of_reachable h
  have hempty : reportMap s.main = [] := by
    rw [reportMap, hlen, List.take_zero]
  have hempty' : reportMap (noteMapRead l.conn [] false peer.map (takeProc 0 s.main)) =
      ([] : List U8).take reportMapMax := hempty
  obtain ⟨-, hstored⟩ := reportMap_storeChunk hbuf hempty' peer.map
  rw [if_pos rfl, Obliged, respondMap_chunk handle [] hmap, safe_bind, safe_assign, safe_assign]
  refine ⟨fun _ _ => trivial, fun _ _ => trivial,
    ⟨hpur.link_eq, hpur.state_eq, ?_, hpur.subscribed_eq⟩, rfl, hstored⟩
  exact congrArg (· ++ _) hnil

/-- The map is parsed, and the reports are being collected: what is kept and what `q` has
still to deliver are the reports of the table. -/
structure Gathering (cfg : Setup) (peer : Peer) (l : Link) (q : DiscoverParams) (m : Central) :
    Prop where
  parsed : Parsed cfg peer l m
  pursuing : Pursuing l .reportChrc (.discover q) m
  names : Names .reportChrc (.discover q)
  collecting : Collecting (cfg.table l.conn) (tally m) .start q

/-- The read has come to its end: what is stored is parsed, and the reports are looked for. -/
theorem leading_gathering (h : Reachable cfg .any s) (hidle : s.Idle) (hup : l.up) {handle : U16}
    (hpur : Pursuing l .reportMapChrc (.readMap handle peer.map) s.main)
    (hends : s.main.hidsEndHandle = serviceEnd (cfg.table l.conn))
    (hstored : reportMap s.main = peer.map.take reportMapMax) (hne : peer.map ≠ [])
    (hmap : makesValid (peer.map.take reportMapMax)) :
    Leading cfg peer s (Gathering cfg peer l (reportParams (serviceEnd (cfg.table l.conn)))) := by
  refine leading_mapResponse hidle hpur.link_eq hup hpur.procs_eq (if_neg hne).symm ?_
  have hnil : (takeProc 0 s.main).procs = [] := procs_takeProc hpur.procs_eq
  rw [Obliged, respondMap, safe_bind, reportMapReadCb, if_neg Bool.false_ne_true,
    if_neg (by simp), safe_bind]
  refine safe_parseReportMap ?_
  have hstored' : reportMap (noteMapRead l.conn peer.map false [] (takeProc 0 s.main)) =
      peer.map.take reportMapMax := hstored
  rw [hstored', hmap, Bool.or_true]
  simp only [startReportDiscovery, safe_bind, safe_assign, implies_true, true_and]
  obtain ⟨hpending, hsubs⟩ := wide_of_reachable h
  refine obliged_discoverOr ⟨⟨hpur.link_eq, rfl, rfl, hends⟩,
    ⟨hpur.link_eq, rfl, ?_, hpur.subscribed_eq⟩, rfl,
    ⟨hpending, hsubs⟩, Nat.zero_le _, rfl, rfl, rfl, rfl, rfl, rfl, rfl⟩
  rw [reportParams, ← hends]
  exact congrArg (· ++ _) hnil

/-- **The Report Map is read and parsed**, and the reports are looked for. -/
theorem comesTo_parsed (h : Reachable cfg .any s) (hidle : s.Idle) (hup : l.up)
    (hpur : Pursuing l .hidsPrimary (.discover hidsParams) s.main)
    (htable : Discoverable (cfg.table l.conn)) (hmap : makesValid (peer.map.take reportMapMax)) :
    Leading cfg peer s (Gathering cfg peer l (reportParams (serviceEnd (cfg.table l.conn)))) := by
  obtain ⟨service, hservice, hfound⟩ := htable.found
  obtain ⟨a, ha⟩ := Option.isSome_iff_exists.mp hfound
  have hne : peer.map ≠ [] := by
    intro hnil
    rw [hnil] at hmap
    exact absurd hmap (by decide)
  have hends : service.value = serviceEnd (cfg.table l.conn) := by
    rw [serviceEnd, hservice]
    rfl
  apply (leading_reportMapChrc hidle hup hpur hservice).next
  rintro t ht hidle ⟨hpur, hend⟩
  have ht : Reachable cfg .any t := h.goOn ht
  apply (leading_readMap hidle hup hpur ha).next
  rintro u hu hidle ⟨hpur, hend', hlen⟩
  have hu : Reachable cfg .any u := ht.goOn hu
  apply (leading_stored hu hidle hup hpur hlen hne).next
  rintro v hv hidle ⟨hpur, hend'', hstored⟩
  have hsame : v.main.hidsEndHandle = serviceEnd (cfg.table l.conn) :=
    hend''.trans (hend'.trans (hend.trans hends))
  exact leading_gathering (hu.goOn hv) hidle hup hpur hsame hstored hne hmap

/-! ### The reports are wired -/

/-- The wiring stands at the `k`-th report. -/
structure Turning (cfg : Setup) (peer : Peer) (l : Link) (k : ℕ) (m : Central) : Prop where
  parsed : Parsed cfg peer l m
  reached : Reached (cfg.table l.conn) peer.ids k m
  lt : k < (pendingOf (cfg.table l.conn)).length

/-- The reports are done with, and discovery rests. -/
structure Finished (cfg : Setup) (peer : Peer) (l : Link) (m : Central) : Prop where
  parsed : Parsed cfg peer l m
  reached : Reached (cfg.table l.conn) peer.ids (pendingOf (cfg.table l.conn)).length m
  rests : m.procs = [] ∧ m.discState = .idle

/-- The stages of a discovery behind its Report Map. -/
inductive Underway (cfg : Setup) (peer : Peer) (l : Link) (m : Central) : Prop
  | gathering {q : DiscoverParams} (h : Gathering cfg peer l q m)
  /-- The Report Reference is looked for. -/
  | looking {k : ℕ} (h : Turning cfg peer l k m) (hstate : m.discState = .reportRef)
    (hid : m.curReportId = 0)
    (hprocs : m.procs = [.discover (searchWindow (cfg.table l.conn) k uuidHidsReportRef)])
  /-- It is read. -/
  | reading {k : ℕ} {d : Attr} (h : Turning cfg peer l k m) (hstate : m.discState = .reportRef)
    (hd : (searchWindow (cfg.table l.conn) k uuidHidsReportRef).next (cfg.table l.conn) = some d)
    (hprocs : m.procs = [.readRef d.handle])
  /-- The CCC is looked for. -/
  | searching {k : ℕ} (h : Turning cfg peer l k m) (hstate : m.discState = .ccc)
    (hid : m.curReportId = reportIdOf (cfg.table l.conn) peer.ids k)
    (hprocs : m.procs = [.discover (searchWindow (cfg.table l.conn) k uuidGattCcc)])
  | finished (h : Finished cfg peer l m)

section Wiring

variable {table : List Attr} {ids : U16 → U8} {k : ℕ}

theorem Reached.length_eq (h : Reached table ids k m) :
    (pendingOf table).length = m.pendingCount := by
  have hlen : m.pendingReports.length = maxReports := h.lengths.pending
  rw [← h.pending, List.length_take, hlen, Nat.min_eq_left h.count_le]

/-- The descriptors of a report are looked for in its window. -/
theorem Reached.descriptorParams_eq (h : Reached table ids k m)
    (hlt : k < (pendingOf table).length) (hend : m.hidsEndHandle = serviceEnd table) (uuid : U16) :
    descriptorParams m uuid = searchWindow table k uuid ∧
      pendingReport m = (pendingOf table).getD k 0 := by
  have hidx : m.pendingIdx = k := h.idx_eq
  have hcount : k < m.pendingCount := h.length_eq ▸ hlt
  -- neither depends on the subscriptions, so it may be as if there were none
  have hcurrent : Current table (cursor { m with subCount := 0 })
      { WiringLog.start with collected := true, visited := (pendingOf table).take (k + 1) } := by
    refine ⟨hend, hidx ▸ hcount, ⟨h.lengths.pending, h.lengths.subs⟩, rfl, h.count_le, ?_,
      Nat.zero_le _, h.pending, ?_, List.nil_sublist _, rfl, fun s hs => absurd hs List.not_mem_nil,
      fun _ => List.nil_sublist _⟩
    · exact hidx.trans_le hcount.le
    · show _ = (pendingOf table).take (m.pendingIdx + 1)
      rw [hidx]
  have hwindow : descriptorParams m uuid = searchWindow table m.pendingIdx uuid :=
    BleHidHost.descriptorParams_eq hcurrent uuid
  have hreport : pendingReport m = (pendingOf table).getD m.pendingIdx 0 :=
    hcurrent.pendingReport_eq
  rw [← hidx]
  exact ⟨hwindow, hreport⟩

/-- What is left of the table decides what the next report adds. -/
theorem subscriptionsUpTo_succ (table : List Attr) (ids : U16 → U8) (k : ℕ) :
    subscriptionsUpTo table ids (k + 1) =
      subscriptionsUpTo table ids k ++ (subscriptionOf table ids k).toList := by
  rw [subscriptionsUpTo, List.range_succ, List.filterMap_append]
  cases h : subscriptionOf table ids k <;> simp [subscriptionsUpTo, h]

/-- A report that calls for nothing is skipped. -/
theorem Reached.skip (h : Reached table ids k m) (hnone : subscriptionOf table ids k = none) :
    Reached table ids (k + 1) { m with pendingIdx := m.pendingIdx + 1 } where
  lengths := ⟨h.lengths.pending, h.lengths.subs⟩
  pending := h.pending
  count_le := h.count_le
  idx_eq := congrArg (· + 1) h.idx_eq
  subCount_le := Nat.le_succ_of_le h.subCount_le
  subs_eq := by
    rw [subscriptionsUpTo_succ, hnone, Option.toList_none, List.append_nil]
    exact h.subs_eq
  subscribed_eq := h.subscribed_eq

/-- A report is subscribed to as it calls for. -/
theorem Reached.wire (h : Reached table ids k m) (hlt : k < (pendingOf table).length)
    {sub : HidSubscription} (hsub : subscriptionOf table ids k = some sub) :
    Reached table ids (k + 1) { m with
      subs := m.subs.set m.subCount sub
      subscribed := m.subCount :: m.subscribed
      subCount := m.subCount + 1
      pendingIdx := m.pendingIdx + 1 } := by
  have hsubs : m.subs.length = maxReports := h.lengths.subs
  have hroom : m.subCount < m.subs.length := by
    have hcount : m.pendingCount ≤ maxReports := h.count_le
    have hle : m.subCount ≤ k := h.subCount_le
    rw [hsubs]
    have hlen := h.length_eq
    omega
  -- the subscription stands behind those that were made
  have hmade : (m.subs.set m.subCount sub).take (m.subCount + 1) =
      m.subs.take m.subCount ++ [sub] := by
    rw [List.take_succ_eq_append_getElem (by rw [List.length_set]; exact hroom),
      List.take_set_of_le (Nat.le_refl _), List.getElem_set_self]
  refine ⟨⟨h.lengths.pending, (List.length_set ..).trans hsubs⟩, h.pending, h.count_le,
    congrArg (· + 1) h.idx_eq, Nat.succ_le_succ h.subCount_le, ?_, ?_⟩
  · show (m.subs.set m.subCount sub).take (m.subCount + 1) = _
    rw [hmade, h.subs_eq, subscriptionsUpTo_succ, hsub, Option.toList_some]
  · show m.subCount :: m.subscribed = _
    rw [h.subscribed_eq, List.range_succ, List.reverse_append]
    rfl

end Wiring

/-! ### One callback after the other -/

section Underway

variable {k : ℕ}

theorem Turning.idx_lt (h : Turning cfg peer l k m) : m.pendingIdx < m.pendingCount := by
  have hidx : m.pendingIdx = k := h.reached.idx_eq
  rw [hidx, ← h.reached.length_eq]
  exact h.lt

theorem Turning.aimed (h : Turning cfg peer l k m) : Aimed m := fun _ => h.idx_lt

theorem Turning.congr {m' : Central} (h : Turning cfg peer l k m)
    (hpart : parsedPart m' = parsedPart m)
    (htally : (tally m', m'.subscribed) = (tally m, m.subscribed)) : Turning cfg peer l k m' :=
  ⟨h.parsed.congr hpart, h.reached.congr htally, h.lt⟩

/-- A procedure that is taken leaves the wiring where it stands. -/
theorem Turning.taken (h : Turning cfg peer l k m) : Turning cfg peer l k (takeProc 0 m) :=
  h.congr rfl rfl

/-- The search for the CCC of the report that the wiring stands at. -/
theorem Turning.obliged_discoverCcc (h : Turning cfg peer l k m) (hnil : m.procs = [])
    (hid : m.curReportId = reportIdOf (cfg.table l.conn) peer.ids k) :
    Obliged cfg peer discoverCcc (Underway cfg peer l) m := by
  obtain ⟨hwindow, -⟩ := h.reached.descriptorParams_eq h.lt h.parsed.ends uuidGattCcc
  rw [Obliged, discoverCcc, safe_bind, safe_assign, hwindow]
  refine ⟨fun _ _ => trivial, obliged_discoverOr ?_⟩
  have hnext : Turning cfg peer l k { m with
      discoverParams := searchWindow (cfg.table l.conn) k uuidGattCcc
      discState := .ccc
      procs := m.procs ++ [.discover (searchWindow (cfg.table l.conn) k uuidGattCcc)] } :=
    h.congr rfl rfl
  exact .searching hnext rfl hid (congrArg (· ++ _) hnil)

/-- The Report Reference that is found is read. -/
theorem Turning.obliged_readReportRef (h : Turning cfg peer l k m)
    (hstate : m.discState = .reportRef) (hnil : m.procs = []) {q : DiscoverParams} {d : Attr}
    (hd : (searchWindow (cfg.table l.conn) k uuidHidsReportRef).next (cfg.table l.conn) = some d) :
    Obliged cfg peer (deliver q d) (Underway cfg peer l) m := by
  rw [Obliged, deliver, safe_bind, discoverFunc, discovered, safe_bind, safe_look, hstate]
  rw [safe_bind, readReportRef]
  refine obliged_askOr (c := .gattRead (.readRef d.handle)) ?_
  have hnext : Turning cfg peer l k { m with procs := m.procs ++ [.readRef d.handle] } :=
    h.congr rfl rfl
  exact .reading hnext hstate hd (congrArg (· ++ _) hnil)

/-- What is read is the Report ID. -/
theorem Turning.obliged_respondRef (h : Turning cfg peer l k m) (hnil : m.procs = []) {d : Attr}
    (hd : (searchWindow (cfg.table l.conn) k uuidHidsReportRef).next (cfg.table l.conn) = some d) :
    Obliged cfg peer (respondRef false [peer.ids d.handle]) (Underway cfg peer l) m := by
  rw [Obliged, respondRef, safe_bind, reportRefReadCb, safe_bind, safe_assign, safe_bind]
  have hnext : Turning cfg peer l k { m with curReportId := peer.ids d.handle } :=
    h.congr rfl rfl
  refine ⟨fun _ _ => trivial, hnext.obliged_discoverCcc hnil ?_⟩
  rw [reportIdOf, hd]
  rfl

/-- The next report has its turn, or all are done with. -/
theorem obliged_subscribePending (hparsed : Parsed cfg peer l m)
    (h : Reached (cfg.table l.conn) peer.ids k m)
    (hle : k ≤ (pendingOf (cfg.table l.conn)).length) (hnil : m.procs = []) :
    Obliged cfg peer subscribePending (Underway cfg peer l) m := by
  have hlen := h.length_eq
  have hidx : m.pendingIdx = k := h.idx_eq
  rw [Obliged, subscribePending, safe_bind, safe_look, safe_ite]
  constructor
  · intro hdone
    have hk : k = (pendingOf (cfg.table l.conn)).length := by omega
    subst hk
    rw [discIdle, safe_assign]
    exact ⟨fun _ _ => trivial, .finished ⟨hparsed.congr rfl, h.congr rfl, hnil, rfl⟩⟩
  · intro hleft
    have hlt : k < (pendingOf (cfg.table l.conn)).length := by omega
    obtain ⟨hwindow, -⟩ := h.descriptorParams_eq hlt hparsed.ends uuidHidsReportRef
    rw [discoverReportRef, safe_bind, safe_assign, hwindow]
    refine ⟨fun _ _ => trivial, obliged_discoverOr ?_⟩
    have hnext : Turning cfg peer l k { m with
        curReportId := 0
        discoverParams := searchWindow (cfg.table l.conn) k uuidHidsReportRef
        discState := .reportRef
        procs := m.procs ++ [.discover (searchWindow (cfg.table l.conn) k uuidHidsReportRef)] } :=
      ⟨hparsed.congr rfl, h.congr rfl, hlt⟩
    exact .looking hnext rfl rfl (congrArg (· ++ _) hnil)

/-- **A report without a CCC is skipped.** -/
theorem Turning.obliged_skip (h : Turning cfg peer l k m) (hnil : m.procs = [])
    (hnone : subscriptionOf (cfg.table l.conn) peer.ids k = none) :
    Obliged cfg peer (do
      assign fun m : Central => { m with pendingIdx := m.pendingIdx + 1 }
      subscribePending) (Underway cfg peer l) m := by
  rw [Obliged, safe_bind, safe_assign]
  have hparsed : Parsed cfg peer l { m with pendingIdx := m.pendingIdx + 1 } :=
    h.parsed.congr rfl
  exact ⟨fun _ _ => trivial, obliged_subscribePending hparsed (h.reached.skip hnone) h.lt hnil⟩

/-- **A report whose CCC is found is subscribed to**, and the next one has its turn. -/
theorem Turning.obliged_wireReport (h : Turning cfg peer l k m) (hnil : m.procs = [])
    (hid : m.curReportId = reportIdOf (cfg.table l.conn) peer.ids k) {a : Attr}
    (ha : (searchWindow (cfg.table l.conn) k uuidGattCcc).next (cfg.table l.conn) = some a) :
    Obliged cfg peer (wireReport a) (Underway cfg peer l) m := by
  obtain ⟨-, hreport⟩ := h.reached.descriptorParams_eq h.lt h.parsed.ends uuidGattCcc
  have hsub : subscriptionOf (cfg.table l.conn) peer.ids k =
      some ⟨pendingReport m, a.handle, m.curReportId⟩ := by
    rw [subscriptionOf, ha, Option.map_some, hreport, hid]
  have hroom : m.subCount < maxReports := by
    have hlen := h.reached.length_eq
    have hcount : m.pendingCount ≤ maxReports := h.reached.count_le
    have hle : m.subCount ≤ k := h.reached.subCount_le
    have hlt := h.lt
    omega
  rw [Obliged, wireReport, safe_bind, subscribeReport, safe_bind, safe_look, if_pos hroom,
    safe_bind, safe_assign, safe_bind, safe_ask, central_answer]
  refine ⟨fun _ _ => trivial, ?_⟩
  intro err m' hok hans
  obtain rfl := eq_success_of_obliging hok
  cases hans
  rw [if_neg (by simp), safe_assign, safe_bind, safe_assign]
  have hparsed : Parsed cfg peer l { m with
      subs := m.subs.set m.subCount ⟨pendingReport m, a.handle, m.curReportId⟩
      subscribed := m.subCount :: m.subscribed
      subCount := m.subCount + 1
      pendingIdx := m.pendingIdx + 1 } :=
    h.parsed.congr rfl
  exact ⟨fun _ _ => trivial, fun _ _ => trivial, fun _ _ => trivial,
    obliged_subscribePending hparsed (h.reached.wire h.lt hsub) h.lt hnil⟩

/-- A report that is delivered is kept, if it notifies and there is room. -/
theorem Gathering.collect {q : DiscoverParams} (h : Gathering cfg peer l q m)
    (horder : InHandleOrder (cfg.table l.conn)) {a : Attr}
    (ha : q.next (cfg.table l.conn) = some a) :
    Obliged cfg peer (deliver q a) (Underway cfg peer l) (takeProc 0 m) := by
  obtain ⟨hstate, hnil⟩ := h.pursuing.taken
  have hparsed : Parsed cfg peer l (takeProc 0 m) :=
    h.parsed.congr rfl
  have hnext : Collecting (cfg.table l.conn) (tally (collectReport a (takeProc 0 m))) .start
      (q.after a) := Collecting.collect (m := takeProc 0 m) h.collecting horder ha
  have hkept : Parsed cfg peer l (collectReport a (takeProc 0 m)) ∧
      (collectReport a (takeProc 0 m)).discState = .reportChrc ∧
      (collectReport a (takeProc 0 m)).procs = [] ∧
      (collectReport a (takeProc 0 m)).subscribed = [] := by
    unfold collectReport
    split
    · exact ⟨hparsed.congr rfl, hstate, hnil, h.pursuing.subscribed_eq⟩
    · exact ⟨hparsed, hstate, hnil, h.pursuing.subscribed_eq⟩
  have hnames : Names .reportChrc (.discover (q.after a)) := by
    have hsame : (q.after a).type = q.type ∧ (q.after a).uuid = q.uuid := by
      unfold DiscoverParams.after
      split <;> exact ⟨rfl, rfl⟩
    have hq : discKind .reportChrc = some (q.type, q.uuid) := h.names
    show discKind .reportChrc = some ((q.after a).type, (q.after a).uuid)
    rw [hsame.1, hsame.2, hq]
  obtain ⟨hparsed', hstate', hnil', hsub'⟩ := hkept
  rw [Obliged, deliver, safe_bind, discoverFunc, discovered, safe_bind, safe_look, hstate]
  rw [safe_bind, safe_assign, safe_pure, safe_assign]
  refine ⟨fun _ _ => trivial, fun _ _ => trivial, .gathering (q := q.after a) ?_⟩
  exact ⟨hparsed'.congr rfl, ⟨hparsed'.link_eq, hstate', congrArg (· ++ _) hnil', hsub'⟩,
    hnames, hnext⟩

/-- Where all are collected the first has its turn. -/
theorem Gathering.finish {q : DiscoverParams} (h : Gathering cfg peer l q m)
    (hnone : q.next (cfg.table l.conn) = none) :
    Obliged cfg peer finishDiscover (Underway cfg peer l) (takeProc 0 m) := by
  obtain ⟨hstate, hnil⟩ := h.pursuing.taken
  have hprog := h.collecting.progress hnone
  have hsubCount : m.subCount = 0 := h.collecting.subCount_eq
  have hfirst : Reached (cfg.table l.conn) peer.ids 0 { takeProc 0 m with pendingIdx := 0 } := by
    refine ⟨⟨hprog.lengths.pending, hprog.lengths.subs⟩, hprog.pending, hprog.count_le, rfl,
      hsubCount.le, ?_, ?_⟩
    · show m.subs.take m.subCount = _
      rw [hsubCount]
      rfl
    · show m.subscribed = (List.range m.subCount).reverse
      rw [hsubCount, h.pursuing.subscribed_eq]
      rfl
  have hlen := hfirst.length_eq
  simp only [Obliged, finishDiscover, discoverFunc, discoverDone, safe_bind, safe_look, hstate]
  rw [reportsCollected, safe_bind, safe_look, safe_ite, discIdle, safe_assign, safe_bind,
    safe_assign]
  constructor
  · intro hzero
    -- there is no report, and nothing to be done
    have hnone' : (pendingOf (cfg.table l.conn)).length = 0 := hlen.trans hzero
    have hidx : m.pendingIdx = 0 := h.collecting.idx_eq
    refine ⟨fun _ _ => trivial, .finished ⟨h.parsed.congr rfl, ?_, hnil, rfl⟩⟩
    rw [hnone']
    exact ⟨⟨hfirst.lengths.pending, hfirst.lengths.subs⟩, hfirst.pending, hfirst.count_le, hidx,
      hfirst.subCount_le, hfirst.subs_eq, hfirst.subscribed_eq⟩
  · intro _
    have hparsed : Parsed cfg peer l { takeProc 0 m with pendingIdx := 0 } :=
      h.parsed.congr rfl
    exact ⟨fun _ _ => trivial, obliged_subscribePending hparsed hfirst (Nat.zero_le _) hnil⟩

/-- A callback that spends one is taken further, with less left to do. -/
theorem obliged_spending {p : Callback Unit} {q : Proc} (hprocs : m.procs = [q])
    (h : Obliged cfg peer p (Underway cfg peer l) (takeProc 0 m))
    (hspends : Spends cfg (obliging cfg peer) (cfg.table l.conn) p
      (q.effort (cfg.table l.conn) (takeProc 0 m)) (takeProc 0 m)) :
    Obliged cfg peer p (fun m' => Underway cfg peer l m' ∧
      effort (cfg.table l.conn) m' < effort (cfg.table l.conn) m) (takeProc 0 m) := by
  have heffort : effort (cfg.table l.conn) m = q.effort (cfg.table l.conn) (takeProc 0 m) := by
    rw [effort_singleton hprocs]
    cases q <;> rfl
  rw [heffort]
  exact (h.and hspends).mono fun _ _ hm => ⟨hm.1, hm.2.1⟩

/-- A discovery either delivers an attribute or has delivered all there is: where both lead
on, it goes on with less left to do. -/
theorem leading_pass (hidle : s.Idle) (hup : l.up) (hl : s.main.link = some l) {q : DiscoverParams}
    (hprocs : s.main.procs = [.discover q]) (hcount : s.main.pendingCount ≤ maxReports)
    (haimed : Aimed (takeProc 0 s.main))
    (hnames : Names (takeProc 0 s.main).discState (.discover q))
    (hdeliver : ∀ a, q.next (cfg.table l.conn) = some a →
      Obliged cfg peer (deliver q a) (Underway cfg peer l) (takeProc 0 s.main))
    (hfinish : q.next (cfg.table l.conn) = none →
      Obliged cfg peer finishDiscover (Underway cfg peer l) (takeProc 0 s.main)) :
    Leading cfg peer s fun m => Underway cfg peer l m ∧
      effort (cfg.table l.conn) m < effort (cfg.table l.conn) s.main := by
  have hnil : (takeProc 0 s.main).procs = [] := procs_takeProc hprocs
  cases ha : q.next (cfg.table l.conn) with
  | some a =>
    refine leading_discovered hidle hl hup hprocs ha ?_
    exact obliged_spending hprocs (hdeliver a ha) (spends_deliver hnil hcount haimed hnames ha)
  | none =>
    refine leading_discoverDone hidle hl hup hprocs ha ?_
    exact obliged_spending hprocs (hfinish ha) (spends_finishDiscover hnil hcount haimed hnames)

/-- **A discovery that is not over goes on**, and less is left of it. -/
theorem Underway.leading (h : Underway cfg peer l s.main) (hidle : s.Idle) (hup : l.up)
    (horder : InHandleOrder (cfg.table l.conn)) :
    Finished cfg peer l s.main ∨ Leading cfg peer s fun m => Underway cfg peer l m ∧
      effort (cfg.table l.conn) m < effort (cfg.table l.conn) s.main := by
  cases h with
  | finished h => exact Or.inl h
  | @gathering q h =>
    right
    obtain ⟨hstate, -⟩ := h.pursuing.taken
    have haimed : Aimed (takeProc 0 s.main) := by
      intro hwires
      rw [hstate] at hwires
      cases hwires
    refine leading_pass hidle hup h.pursuing.link_eq h.pursuing.procs_eq h.collecting.count_le
      haimed ?_ (fun a ha => h.collect horder ha) h.finish
    rw [hstate]
    exact h.names
  | @looking k h hstate hid hprocs =>
    right
    have hnil : (takeProc 0 s.main).procs = [] := procs_takeProc hprocs
    have hturn : Turning cfg peer l k (takeProc 0 s.main) := h.taken
    have hstate' : (takeProc 0 s.main).discState = .reportRef := hstate
    refine leading_pass hidle hup h.parsed.link_eq hprocs h.reached.count_le hturn.aimed ?_ ?_ ?_
    · rw [hstate']
      rfl
    · intro d hd
      exact hturn.obliged_readReportRef hstate hnil hd
    · intro hnone
      have hid' : s.main.curReportId = reportIdOf (cfg.table l.conn) peer.ids k := by
        rw [hid, reportIdOf, hnone]
        rfl
      simp only [Obliged, finishDiscover, discoverFunc, discoverDone, safe_bind, safe_look, hstate']
      exact hturn.obliged_discoverCcc hnil hid'
  | @reading k d h hstate hd hprocs =>
    right
    have hnil : (takeProc 0 s.main).procs = [] := procs_takeProc hprocs
    have hturn : Turning cfg peer l k (takeProc 0 s.main) := h.taken
    have hidx : (takeProc 0 s.main).pendingIdx < (takeProc 0 s.main).pendingCount := hturn.idx_lt
    refine leading_refResponse hidle h.parsed.link_eq hup hprocs ?_
    refine obliged_spending hprocs ?_
      (spends_respondRef hnil h.reached.count_le hidx d.handle false [peer.ids d.handle])
    exact hturn.obliged_respondRef hnil hd
  | @searching k h hstate hid hprocs =>
    right
    have hnil : (takeProc 0 s.main).procs = [] := procs_takeProc hprocs
    have hturn : Turning cfg peer l k (takeProc 0 s.main) := h.taken
    have hstate' : (takeProc 0 s.main).discState = .ccc := hstate
    refine leading_pass hidle hup h.parsed.link_eq hprocs h.reached.count_le hturn.aimed ?_ ?_ ?_
    · rw [hstate']
      rfl
    · intro a ha
      rw [Obliged, deliver, safe_bind, discoverFunc, discovered, safe_bind, safe_look, hstate']
      rw [safe_bind]
      exact hturn.obliged_wireReport hnil hid ha
    · intro hdone
      have hnone : subscriptionOf (cfg.table l.conn) peer.ids k = none := by
        rw [subscriptionOf, hdone, Option.map_none]
      simp only [Obliged, finishDiscover, discoverFunc, discoverDone, safe_bind, safe_look, hstate']
      exact hturn.obliged_skip hnil hnone

end Underway

/-! ### Every state -/

/-- **A discovery comes to its end**, with all reports done with. -/
theorem comesTo_finished (hidle : s.Idle) (hup : l.up) (horder : InHandleOrder (cfg.table l.conn))
    (h : Underway cfg peer l s.main) : Leading cfg peer s (Finished cfg peer l) := by
  refine Machine.ComesTo.of_measure (effort (cfg.table l.conn)) (.rest hidle h) ?_
  intro t _ hidle' ht
  exact ht.leading hidle' hup horder

/-- **No state is a trap.**  From every reachable state, whatever has failed, a run leads to
a connection that works, with nothing but an end of the link, a retry of the scan and the
answers of a peer that the central recognises: no call is refused, and the peer advertises
only to a scanner that is on. -/
theorem comesTo_working (h : Reachable cfg .any s) (hseen : Recognised cfg peer s.main)
    (htable : ∀ conn, Discoverable (cfg.table conn))
    (hmap : makesValid (peer.map.take reportMapMax)) :
    ∃ t, (central cfg).ReachedUnder (obliging cfg peer) s t ∧ t.Idle ∧ Working cfg peer t.main ∧
      t.io.queue = [] := by
  have hcome : Leading cfg peer s (Working cfg peer) := by
    apply (comesTo_unlinked h).next
    rintro t ht hidle ⟨hl, hbonds⟩
    have ht : Reachable cfg .any t := h.goOn ht
    apply (comesTo_scanning ht hidle hl).next
    rintro r hr hidle ⟨hscan, hl, hbonds'⟩
    have hr : Reachable cfg .any r := ht.goOn hr
    have hseen' : Recognised cfg peer r.main :=
      hseen.imp_left fun hmem => hbonds'.trans hbonds ▸ hmem
    apply (comesTo_target hr hidle hl hscan hseen').next
    rintro u hu hidle ⟨hscan, htarget⟩
    have hu : Reachable cfg .any u := hr.goOn hu
    apply (comesTo_secured hu hidle hscan htarget).next
    rintro v hv hidle ⟨l, hpeer, hpur⟩
    have hv : Reachable cfg .any v := hu.goOn hv
    apply (comesTo_parsed hv hidle hpeer.2.1 hpur (htable l.conn) hmap).next
    intro w _ hidle hgather
    refine (comesTo_finished hidle hpeer.2.1 (htable l.conn).order (.gathering hgather)).mono ?_
    intro m hm
    exact ⟨⟨l, hm.parsed, hpeer, hm.reached.subs_eq⟩, hm.reached.subscribed_eq, hm.rests⟩
  obtain ⟨t, ht, hidle, hworking⟩ := hcome
  -- what is still queued is taken by the handler
  have hdrained : (central cfg).ReachedUnder (obliging cfg peer) s
      { t with io := reportWorkHandler cfg t.main t.io } := by
    refine Reaches.of_run ht ?_ (reportWorkHandler_eq_run cfg t)
    exact Machine.along_work (fun _ _ => rfl) _ _
  exact ⟨_, hdrained, hidle, hworking, reportWorkHandler_queue cfg t.main t.io⟩

/-- A mouse whose reports have the IDs 1 and 2. -/
def twoReports : Peer :=
  ⟨7, [⟨.gapAppearance, [0xC2, 0x03]⟩], pointerMap, fun handle => if handle = 6 then 1 else 2⟩

/-- The link that a refused search has left without a subscription is got over. -/
theorem strandingRun_working :
    ∃ s t, stateAfter (.plain (reportTable [4, 8])) strandingRun = some s ∧
      (s.main.procs = [] ∧ s.main.subCount = 0 ∧ s.main.link.any Link.up) ∧
      (central (.plain (reportTable [4, 8]))).ReachedUnder
        (obliging (.plain (reportTable [4, 8])) twoReports) s t ∧ t.Idle ∧ t.io.queue = [] ∧
      t.main.layoutValid ∧ t.main.subscribed = (List.range t.main.subCount).reverse ∧
      t.main.subs.take t.main.subCount = [⟨5, 7, 1⟩, ⟨9, 11, 2⟩] := by
  have hstate : (stateAfter (.plain (reportTable [4, 8])) strandingRun).map
      (fun s => (s.main.procs, s.main.subCount, s.main.link.any Link.up)) = some ([], 0, true) := by
    decide +kernel
  obtain ⟨s, hs, heq⟩ := Option.map_eq_some_iff.mp hstate
  simp only [Prod.mk.injEq] at heq
  have hmeets : Meeting (.plain (reportTable [4, 8])) .any strandingRun :=
    .of_forall Machine.meets_any _ _
  have hseen : Recognised (.plain (reportTable [4, 8])) twoReports s.main := Or.inr (by decide)
  have hfound : Discoverable (reportTable [4, 8]) :=
    ⟨by decide, ⟨1, .primary, uuidHids, 32, 0⟩, rfl, rfl⟩
  have hmap : makesValid (twoReports.map.take reportMapMax) = true := by decide +kernel
  obtain ⟨t, ht, hidle, ⟨⟨l, hparsed, -, hsubs⟩, hsubscribed, -⟩, hqueue⟩ :=
    comesTo_working (reachable_stateAfter hmeets hs) hseen (fun _ => hfound) hmap
  have hcalled : subscriptionsOf (reportTable [4, 8]) twoReports.ids =
      [⟨5, 7, 1⟩, ⟨9, 11, 2⟩] := by decide
  exact ⟨s, t, hs, heq, ht, hidle, hqueue, hparsed.valid, hsubscribed, hsubs.trans hcalled⟩

end BleHidHost
