import BleHidHost.Rules

/-!
# The central never goes deaf

Between two callbacks the central is connected, or scanning, or about to scan
again, whatever fails and whatever comes late.  It never scans while it is
connected.  The reference it holds is that of the connection that has not ended, and it
has released each of the others once.

## Main definitions

* `Listening` — what holds between two callbacks.

## Main results

* `listening_of_reachable` — **every state between two callbacks is listening.**
-/

namespace BleHidHost

open Lib Lib.Prog

/-- The central can be reached by a peer, and keeps account of its connections. -/
structure Listening (m : Central) : Prop where
  /-- The central is connected, or scanning, or the retry is pending. -/
  hears : m.defaultConn ≠ none ∨ m.scanning ∨ m.retryPending
  /-- The scanner is off while the central is connected. -/
  quiet : m.defaultConn ≠ none → ¬ m.scanning
  /-- The connection held is the one that was requested and has had no end: from its
  callback on nothing is held. -/
  link_eq : m.link.map Link.conn = m.defaultConn
  /-- Each connection created was released once, but for the one that is held. -/
  released : ∀ k, m.unrefs.count k = if k < m.nextConn ∧ m.defaultConn ≠ some k then 1 else 0

/-- The invariant: the connection held was created. -/
structure Tracked (m : Central) : Prop extends Listening m where
  lt_next : ∀ k, m.defaultConn = some k → k < m.nextConn

/-- The state before a scan start: no connection is held, and all are released. -/
structure Unconnected (m : Central) : Prop where
  defaultConn_eq : m.defaultConn = none
  link_eq : m.link = none
  released : ∀ k, m.unrefs.count k = if k < m.nextConn then 1 else 0

/-- What the scan and connection callbacks work on. -/
def linkPart (m : Central) : Option ℕ × Option Link × ℕ × Bool × Bool × List ℕ :=
  (m.defaultConn, m.link, m.nextConn, m.scanning, m.retryPending, m.unrefs)

/-- Discovery does not touch the connection. -/
theorem linkPart_eq {m m' : Central} (h : offDiscovery m' = offDiscovery m) :
    linkPart m' = linkPart m := by
  show linkPart (offDiscovery m') = linkPart (offDiscovery m)
  rw [h]

theorem linkPart_eq_of_offCursor {m m' : Central} (h : offCursor m' = offCursor m) :
    linkPart m' = linkPart m :=
  eq_of_offCursor (eq_of_offMap linkPart_eq) h

variable {cfg : Setup} {P : Condition} {m : Central}

/-- The invariant speaks of the connection only. -/
theorem Tracked.congr {m' : Central} (h : Tracked m) (heq : linkPart m' = linkPart m) :
    Tracked m' := by
  simp only [linkPart, Prod.mk.injEq] at heq
  obtain ⟨hconn, hlink, hnext, hscan, hretry, hunrefs⟩ := heq
  refine ⟨⟨?_, ?_, ?_, ?_⟩, ?_⟩
  · rw [hconn, hscan, hretry]
    exact h.hears
  · rw [hconn, hscan]
    exact h.quiet
  · rw [hconn, hlink]
    exact h.link_eq
  · rw [hconn, hnext, hunrefs]
    exact h.released
  · rw [hconn, hnext]
    exact h.lt_next

/-- A program that leaves the connection alone keeps the invariant. -/
theorem Tracked.safe {p : Callback Unit} {m' : Central} (h : Tracked m)
    (heq : linkPart m' = linkPart m) (hp : Leaves cfg P linkPart p) :
    p.Safe (central cfg) P (fun _ _ => True) (fun _ => Tracked) m' :=
  hp.safe.mono fun _ _ hkept => h.congr (hkept.trans heq)

/-- The unconnected central, once it can hear. -/
theorem Unconnected.tracked (h : Unconnected m) (hears : m.scanning ∨ m.retryPending) :
    Tracked m where
  hears := Or.inr hears
  quiet hne := absurd h.defaultConn_eq hne
  released k := by
    have hne : m.defaultConn ≠ some k := h.defaultConn_eq ▸ (Option.some_ne_none k).symm
    simp only [h.released k, hne, ne_eq, not_false_eq_true, and_true]
  link_eq := by rw [h.link_eq, h.defaultConn_eq, Option.map_none]
  lt_next k heq := absurd (heq.symm.trans h.defaultConn_eq) (Option.some_ne_none k)

theorem Tracked.unconnected (h : Tracked m) (hnone : m.defaultConn = none) : Unconnected m where
  defaultConn_eq := hnone
  link_eq := Option.map_eq_none_iff.mp (h.link_eq.trans hnone)
  released k := by
    have hne : m.defaultConn ≠ some k := hnone ▸ (Option.some_ne_none k).symm
    simp only [h.released k, hne, ne_eq, not_false_eq_true, and_true]

/-- The release of the connection held leaves the central unconnected. -/
theorem Tracked.unref (h : Tracked m) {k : ℕ} (hk : m.defaultConn = some k) (j : ℕ) :
    (m.unrefs ++ m.defaultConn.toList).count j = if j < m.nextConn then 1 else 0 := by
  have hlt : k < m.nextConn := h.lt_next k hk
  rw [hk, Option.toList_some, List.count_append, List.count_singleton, h.released j, hk]
  by_cases hjk : j = k
  · subst hjk
    simp [hlt]
  · have hkj : k ≠ j := fun heq => hjk heq.symm
    simp [hkj]

/-! ### The callbacks -/

/-- A scan start by an unconnected central. -/
theorem Unconnected.safe_startScan (h : Unconnected m) :
    startScan.Safe (central cfg) P (fun _ _ => True) (fun _ => Tracked) m := by
  obtain ⟨hconn, hlink, hreleased⟩ := h
  refine BleHidHost.safe_startScan ⟨fun _ _ => trivial, ?_⟩ (fun hscan => ?_)
    ⟨fun _ _ => trivial, fun _ _ => trivial, ?_⟩
  · exact Unconnected.tracked ⟨hconn, hlink, hreleased⟩ (Or.inl rfl)
  · exact Unconnected.tracked ⟨hconn, hlink, hreleased⟩ (Or.inl hscan)
  · exact Unconnected.tracked ⟨hconn, hlink, hreleased⟩ (Or.inr rfl)

/-- A connection created by an unconnected central that has stopped scanning. -/
theorem Unconnected.tracked_create (h : Unconnected m) (hscan : ¬ m.scanning) (peer : Addr) :
    Tracked (granted (.connLeCreate peer) m) where
  hears := Or.inl (Option.some_ne_none _)
  quiet _ := hscan
  released k := by
    have hcount : (granted (.connLeCreate peer) m).unrefs.count k =
        if k < m.nextConn then 1 else 0 := h.released k
    rw [hcount]
    -- the new connection is the one below the next number that is not released
    refine if_congr ?_ rfl rfl
    simp only [granted, ne_eq, Option.some.injEq]
    omega
  link_eq := rfl
  lt_next k heq := by
    cases heq
    exact Nat.lt_succ_self _

theorem Tracked.safe_deviceFound (h : Tracked m) (addr : Addr) (type : AdvType) (ad : List BtData) :
    (deviceFound cfg addr type ad).Safe (central cfg) P (fun _ _ => True) (fun _ => Tracked) m := by
  rw [deviceFound, safe_bind, safe_look, safe_ite]
  refine ⟨?_, fun _ => h⟩
  intro htarget
  -- a late report finds the connection held, and is no target
  have hun : Unconnected m := h.unconnected htarget.1
  rw [connectTo, safe_bind, safe_ask]
  intro err m' _ hans
  rw [central_answer] at hans
  refine ⟨fun _ _ => trivial, ?_⟩
  rw [safe_ite]
  constructor
  · intro herr
    -- a stop that fails leaves everything as it was
    have heq : m' = m :=
      Option.some_inj.mp (hans.symm.trans (answer_refused (by simp) (by simp) herr m))
    rw [heq]
    exact h
  · intro herr
    -- the scanner is off: the connection is created, or the scan starts again
    rw [not_not.mp herr, answer_success, Option.some_inj] at hans
    subst hans
    have hoff : Unconnected (granted .leScanStop m) := ⟨hun.1, hun.2, hun.3⟩
    refine (safe_askOr (by simp) (by simp) _).mpr
      ⟨fun _ => ⟨fun _ _ => trivial, ?_⟩, fun _ _ _ => hoff.safe_startScan⟩
    exact hoff.tracked_create Bool.false_ne_true addr

/-- The link's flags may change. -/
theorem Tracked.setLink (h : Tracked m) {l l' : Link} (hl : m.link = some l)
    (hconn : l'.conn = l.conn) : Tracked { m with link := some l' } where
  hears := h.hears
  quiet := h.quiet
  released := h.released
  link_eq := by
    have heq := h.link_eq
    rw [hl, Option.map_some] at heq
    rw [Option.map_some, hconn]
    exact heq
  lt_next := h.lt_next

/-- A call that marks the link. -/
theorem Tracked.mapLink (h : Tracked m) {f : Link → Link} (hf : ∀ l, (f l).conn = l.conn) :
    Tracked { m with link := m.link.map f } where
  hears := h.hears
  quiet := h.quiet
  released := h.released
  link_eq := by
    have hcomp : Link.conn ∘ f = Link.conn := funext hf
    rw [Option.map_map, hcomp]
    exact h.link_eq
  lt_next := h.lt_next

/-- The end of a connection, once its reference is released. -/
theorem Tracked.unconnected_unref (h : Tracked m) {l : Link} (hl : m.link = some l) :
    Unconnected { m with
      link := none
      defaultConn := none
      unrefs := m.unrefs ++ m.defaultConn.toList } where
  defaultConn_eq := rfl
  link_eq := rfl
  released := by
    have hconn : m.defaultConn = some l.conn := by rw [← h.link_eq, hl, Option.map_some]
    exact h.unref hconn

theorem Tracked.safe_connected (h : Tracked m) {l : Link} (hl : m.link = some l) (err : Bool) :
    (connected err).Safe (central cfg) P (fun _ _ => True) (fun _ => Tracked)
      { m with link := if err then none else some { l with up := true } } := by
  rw [connected, safe_ite]
  constructor
  · -- the connection has failed: its reference is released, and the scan starts
    intro herr
    simp only [unrefDefaultConn, safe_bind, safe_assign, implies_true, true_and]
    rw [if_pos herr]
    obtain ⟨hconn, hlink, hreleased⟩ := h.unconnected_unref hl
    exact Unconnected.safe_startScan ⟨hconn, hlink, hreleased⟩
  · intro herr
    rw [if_neg herr]
    have hup : Tracked { m with link := some { l with up := true } } := h.setLink hl rfl
    refine (safe_askOr (by simp) (by simp) _).mpr
      ⟨fun _ => ⟨fun _ _ => trivial, ?_⟩, fun _ _ _ => hup⟩
    exact hup.mapLink fun _ => rfl

theorem Tracked.safe_securityChanged (h : Tracked m) (peer : Addr) (level : ℕ) (err : Bool) :
    (securityChanged peer level err).Safe (central cfg) P (fun _ _ => True) (fun _ => Tracked)
      m := by
  rw [securityChanged, safe_ite]
  refine ⟨?_, fun _ => h.safe rfl (leaves_startDiscovery linkPart_eq)⟩
  intro _
  rw [securityFailed, safe_bind, safe_assign]
  refine ⟨fun _ _ => trivial, ?_⟩
  have hfailed : Tracked { m with lastFailedAddr := peer, lastFailedMs := kUptimeGet32 m } :=
    h.congr rfl
  exact (safe_askOr (by simp) (by simp) _).mpr
    ⟨fun _ => ⟨fun _ _ => trivial, hfailed.mapLink fun _ => rfl⟩, fun _ _ _ => hfailed⟩

theorem Tracked.safe_disconnected (h : Tracked m) {l : Link} (hl : m.link = some l) :
    (disconnected cfg l.conn).Safe (central cfg) P (fun _ _ => True) (fun _ => Tracked)
      { m with link := none, procs := [], subscribed := [] } := by
  have hconn : m.defaultConn = some l.conn := by rw [← h.link_eq, hl, Option.map_some]
  rw [disconnected, safe_bind, safe_look, safe_ite]
  refine ⟨fun hne => absurd hconn hne, ?_⟩
  intro _
  simp only [unrefDefaultConn, invalidateLayout, safe_bind, safe_assign, safe_emit, implies_true,
    true_and]
  obtain ⟨hnone, hlink, hreleased⟩ := h.unconnected_unref hl
  exact Unconnected.safe_startScan ⟨hnone, hlink, hreleased⟩

theorem Tracked.safe_scanRetryHandler (h : Tracked m) :
    scanRetryHandler.Safe (central cfg) P (fun _ _ => True) (fun _ => Tracked)
      { m with retryPending := false } := by
  rw [scanRetryHandler, safe_bind, safe_look, safe_ite]
  constructor
  · intro hnone
    obtain ⟨hnone, hlink, hreleased⟩ := h.unconnected hnone
    exact Unconnected.safe_startScan ⟨hnone, hlink, hreleased⟩
  · -- the retry came late, and the connection is kept
    intro hconn
    exact ⟨⟨Or.inl hconn, h.quiet, h.link_eq, h.released⟩, h.lt_next⟩

/-! ### Runs -/

/-- **Each event is survived**: the callback it enters restores the invariant. -/
theorem Tracked.safe_enter (h : Tracked m) {e : Event} {m' : Central} {io io' : Pipeline}
    {p : Callback Unit} (henter : Entered cfg m io e m' io' p) :
    p.Safe (central cfg) P (fun _ _ => True) (fun _ => Tracked) m' := by
  cases henter with
  | advertise addr type ad => exact h.safe_deviceFound addr type ad
  | scanRetry => exact h.safe_scanRetryHandler
  | connected err hl => exact h.safe_connected hl err
  | securityChanged level err hl =>
    refine Tracked.safe_securityChanged ?_ _ level err
    exact h.setLink hl rfl
  | disconnected hl => exact h.safe_disconnected hl
  | discovered => exact h.safe rfl (leaves_deliver (eq_of_offMap linkPart_eq) _ _)
  | discoverDone => exact h.safe rfl (leaves_finishDiscover linkPart_eq_of_offCursor)
  | readMap => exact h.safe rfl (leaves_respondMap linkPart_eq _ _ _ _)
  | readRef => exact h.safe rfl (leaves_respondRef linkPart_eq_of_offCursor _ _)
  | notified => exact (safe_emit _ _).mpr ⟨fun _ _ => trivial, h.congr rfl⟩
  | unsubscribed slot => exact h.safe rfl (leaves_unsubscribed linkPart_eq_of_offCursor slot)
  | timePasses => exact h.congr rfl
  | bonded => exact h.congr rfl

/-- Every state between two callbacks is tracked, under any condition. -/
theorem tracked_of_reachable {s : System} (h : Reachable cfg P s) (hidle : s.Idle) :
    Tracked s.main := by
  obtain ⟨bonds, uptime, accepts, hreach⟩ := h
  have hstart : Unconnected (Central.start bonds uptime) := ⟨rfl, rfl, fun k => rfl⟩
  exact Machine.invariant_idle hstart.safe_startScan
    (fun e m io m' io' p hI _ henter => hI.safe_enter (entered_of_enter henter)) hreach hidle

/-- **The central never goes deaf while unconnected**: every state between two
callbacks is listening. -/
theorem listening_of_reachable {s : System} (h : Reachable cfg Policy.any s) (hidle : s.Idle) :
    Listening s.main :=
  (tracked_of_reachable h hidle).toListening

/-- A scan start fails and is retried, a connection request fails, and then a connection is
established and ends. -/
def retriedScan : List (Action Errno Event) :=
  [.answer .failure, .tick, .event .scanRetry, .tick, .answer .success,
   .event (.advertise 7 .advInd [⟨.gapAppearance, [0xC2, 0x03]⟩]), .tick, .answer .success,
   .answer .success, .event (.connected true), .tick, .tick, .answer .success,
   .event (.advertise 7 .advInd [⟨.gapAppearance, [0xC2, 0x03]⟩]), .tick, .answer .success,
   .answer .success, .event (.connected false), .answer .success, .event .disconnected] ++
    ticks 9 ++ [.answer .failure, .tick]

/-- Both connections were released, and the scan is to be retried. -/
theorem retriedScan_listening :
    ∃ s, stateAfter (.plain []) retriedScan = some s ∧ s.main.nextConn = 2 ∧
      s.main.unrefs = [0, 1] ∧ ¬ s.main.scanning ∧ Listening s.main := by
  have hmeets : Meeting (.plain []) Policy.any retriedScan :=
    .of_forall Machine.meets_any _ _
  have hstate : (stateAfter (.plain []) retriedScan).map
      (fun s => (s.main.nextConn, s.main.unrefs, s.main.scanning, s.isIdle)) =
        some (2, [0, 1], false, true) := by decide +kernel
  obtain ⟨s, hs, heq⟩ := Option.map_eq_some_iff.mp hstate
  simp only [Prod.mk.injEq] at heq
  obtain ⟨hnext, hunrefs, hscan, hidle⟩ := heq
  exact ⟨s, hs, hnext, hunrefs, ne_true_of_eq_false hscan,
    listening_of_reachable (reachable_stateAfter hmeets hs) (Configuration.isIdle_iff.mp hidle)⟩

end BleHidHost
