import BleHidHost.System

/-!
# Rules for the central's callbacks

What the calls of the callbacks may do, as rules for `Safe`, and what no discovery
callback changes.

## Main results

* `safe_askOr` — the rule for a call that may be refused.
* `safe_startScan` — the rule for a scan start.
* `Leaves` — what the GATT callbacks leave alone.
* `entered_of_enter` — **what each event does, with its guard.**
-/

namespace BleHidHost

open Lib Lib.Prog

variable {cfg : Setup} {P : Condition} {J : Central → Pipeline → Prop} {m : Central}
  {Q : Unit → Central → Prop}

/-! ### Calls -/

@[simp] theorem central_answer (cfg : Setup) : (central cfg).answer = answer := rfl

@[simp] theorem central_work (cfg : Setup) : (central cfg).work = reportWorkTurn cfg := rfl

@[simp] theorem central_enter (cfg : Setup) : (central cfg).enter = enter cfg := rfl

theorem answer_success (c : Request) (m : Central) : answer c .success m = some (granted c m) := by
  cases c <;> rfl

/-- A call changes nothing where it fails, but for the two that are treated apart. -/
theorem answer_refused {c : Request} (hscan : c ≠ .leScanStart) (hsub : ∀ n, c ≠ .gattSubscribe n)
    {err : Errno} (herr : err ≠ .success) (m : Central) : answer c err m = some m := by
  cases c with
  | leScanStart => exact absurd rfl hscan
  | gattSubscribe n => exact absurd rfl (hsub n)
  | _ => cases err <;> first | rfl | exact absurd rfl herr

/-- **The rule for a call that may be refused.** -/
@[simp] theorem safe_askOr {c : Request} (hscan : c ≠ .leScanStart)
    (hsub : ∀ n, c ≠ .gattSubscribe n) (q : Callback Unit) :
    (askOr c q).Safe (central cfg) P J Q m ↔
      (P.onAnswer m c .success → (∀ io, J m io → J (granted c m) io) ∧ Q () (granted c m)) ∧
        ∀ err, err ≠ .success → P.onAnswer m c err → q.Safe (central cfg) P J Q m := by
  simp only [askOr, safe_bind, safe_ask, safe_ite, safe_pure, central_answer, not_not]
  constructor
  · intro h
    constructor
    · intro hP
      obtain ⟨hJ, -, hQ⟩ := h .success _ hP (answer_success c m)
      exact ⟨hJ, hQ rfl⟩
    · intro err herr hP
      exact (h err m hP (answer_refused hscan hsub herr m)).2.1 herr
  · rintro ⟨hsucc, hrefused⟩ err m' hP hm
    by_cases herr : err = .success
    · subst herr
      cases (answer_success c m).symm.trans hm
      exact ⟨(hsucc hP).1, fun hne => absurd rfl hne, fun _ => (hsucc hP).2⟩
    · cases (answer_refused hscan hsub herr m).symm.trans hm
      exact ⟨fun _ hJ => hJ, fun _ => hrefused err herr hP, fun h => absurd h herr⟩

/-- The rule for a scan start: the scanner runs, or the retry is pending. -/
theorem safe_startScan
    (hon : (∀ io, J m io → J { m with scanning := true } io) ∧ Q () { m with scanning := true })
    (hrunning : m.scanning → Q () m)
    (hoff : (∀ io, J m io → J { m with scanning := false } io) ∧
      (∀ io, J { m with scanning := false } io →
        J { m with scanning := false, retryPending := true } io) ∧
      Q () { m with scanning := false, retryPending := true }) :
    startScan.Safe (central cfg) P J Q m := by
  simp only [startScan, safe_bind, safe_ask, safe_ite, safe_pure, safe_assign, central_answer,
    not_not]
  intro err m' _ hm
  cases err with
  | success =>
    cases hm
    exact ⟨hon.1, by simp, fun _ => ⟨fun h => absurd rfl h, fun _ => hon.2⟩⟩
  | already =>
    -- the stack answers so only where the scanner is on
    by_cases hscan : m.scanning
    · cases (if_pos hscan).symm.trans hm
      exact ⟨fun _ hJ => hJ, fun _ => hrunning hscan, fun h => absurd rfl h⟩
    · cases (if_neg hscan).symm.trans hm
  | failure =>
    cases hm
    exact ⟨hoff.1, by simp, fun _ => ⟨fun _ => hoff.2, by simp⟩⟩

/-- A relation that does not speak of the scanner is kept by a scan start. -/
theorem keeps_startScan (hscan : ∀ m b io, J m io → J { m with scanning := b } io)
    (hretry : ∀ m io, J m io → J { m with retryPending := true } io) :
    startScan.Keeps (central cfg) P J := by
  refine .bind ((keeps_ask _).mpr fun m err m' io _ hans h => ?_) fun err => ?_
  · cases err with
    | success | failure =>
      cases hans
      exact hscan m _ io h
    | already =>
      -- the scanner is on, and nothing changes
      obtain ⟨-, heq⟩ := Option.ite_none_right_eq_some.mp hans
      cases heq
      exact h
  · exact .ite (keeps_pure _) (.ite ((keeps_assign _).mpr hretry) (keeps_pure _))

/-- A relation that is kept where a call succeeds, and by what is done where it is
refused. -/
theorem keeps_askOr {c : Request} {q : Callback Unit} (hscan : c ≠ .leScanStart)
    (hsub : ∀ n, c ≠ .gattSubscribe n) (hc : ∀ m io, J m io → J (granted c m) io)
    (hq : q.Keeps (central cfg) P J) : (askOr c q).Keeps (central cfg) P J := by
  refine .bind ((keeps_ask c).mpr fun m err m' io _ hans h => ?_) fun _ => .ite hq (keeps_pure _)
  by_cases herr : err = .success
  · rw [herr, central_answer, answer_success, Option.some_inj] at hans
    subst hans
    exact hc m io h
  · rw [central_answer, answer_refused hscan hsub herr, Option.some_inj] at hans
    subst hans
    exact h

/-! ### Callbacks of the connection -/

/-- The state without the connection and the scanner. -/
def offLink (m : Central) : Central :=
  { m with
    defaultConn := none
    lastFailedAddr := 0
    lastFailedMs := 0
    nextConn := 0
    link := none
    scanning := false
    retryPending := false
    unrefs := [] }

/-- The same with the failure that is remembered. -/
def offScan (m : Central) : Central :=
  { m with
    defaultConn := none
    nextConn := 0
    link := none
    scanning := false
    retryPending := false
    unrefs := [] }

theorem offLink_eq_of_offScan {m m' : Central} (h : offScan m' = offScan m) :
    offLink m' = offLink m :=
  congrArg (fun c : Central => { c with lastFailedAddr := 0, lastFailedMs := 0 }) h

section Link

variable (hJ : ∀ {m m' : Central} {io : Pipeline}, offScan m' = offScan m → J m io → J m' io)

include hJ

/-- A relation that does not speak of the connection is kept by a scan start. -/
theorem keeps_startScan_offScan : startScan.Keeps (central cfg) P J :=
  keeps_startScan (fun _ _ _ => hJ (by rfl)) fun _ _ => hJ (by rfl)

theorem keeps_scanRetryHandler : scanRetryHandler.Keeps (central cfg) P J :=
  .bind keeps_look fun _ => .ite (keeps_startScan_offScan hJ) (keeps_pure _)

theorem keeps_deviceFound (addr : Addr) (type : AdvType) (ad : List BtData) :
    (deviceFound cfg addr type ad).Keeps (central cfg) P J := by
  refine .bind keeps_look fun m => .ite ?_ (keeps_pure _)
  refine .bind ((keeps_ask _).mpr fun m err m' io _ hans h => ?_) fun err => ?_
  · cases err <;> cases hans
    · exact hJ (by rfl) h
    · exact h
    · exact h
  · refine .ite (keeps_pure _) (keeps_askOr (by simp) (by simp) ?_ (keeps_startScan_offScan hJ))
    exact fun _ _ => hJ (by rfl)

theorem keeps_connected (err : Bool) : (connected err).Keeps (central cfg) P J := by
  refine .ite ?_ (keeps_askOr (by simp) (by simp) (fun _ _ => hJ (by rfl)) (keeps_pure _))
  refine .bind ((keeps_assign _).mpr fun _ _ => hJ (by rfl)) fun _ => ?_
  exact .bind ((keeps_assign _).mpr fun _ _ => hJ (by rfl)) fun _ => keeps_startScan_offScan hJ

end Link

/-- A failure is remembered, and a disconnect is requested. -/
theorem keeps_securityFailed
    (hJ : ∀ {m m' : Central} {io : Pipeline}, offLink m' = offLink m → J m io → J m' io)
    (peer : Addr) : (securityFailed peer).Keeps (central cfg) P J := by
  refine .bind ((keeps_assign _).mpr fun _ _ => hJ (by rfl)) fun _ => ?_
  exact keeps_askOr (by simp) (by simp) (fun _ _ => hJ (by rfl)) (keeps_pure _)

/-! ### What the GATT callbacks leave alone -/

/-- The state without the variables that discovery moves through a GATT table. -/
def offCursor (m : Central) : Central :=
  { m with
    discoverParams := default
    discState := .idle
    hidsEndHandle := 0
    pendingReports := []
    pendingCount := 0
    pendingIdx := 0
    curReportId := 0
    subs := []
    subCount := 0
    procs := m.procs.filter Proc.isMap
    subscribed := [] }

/-- The state without these and the read of the Report Map. -/
def offMap (m : Central) : Central := { offCursor m with rmBuf := [], rmLen := 0, procs := [] }

/-- The state without these and the layout. -/
def offDiscovery (m : Central) : Central := { offMap m with layout := .zero, layoutValid := false }

/-- The calls of the GATT callbacks that do not read the Report Map. -/
def Request.isGatt : Request → Bool
  | .gattDiscover _ => true
  | .gattRead p => !p.isMap
  | .gattSubscribe _ => true
  | _ => false

theorem offCursor_startProc {p : Proc} (hp : p.isMap = false) (m : Central) :
    offCursor { m with procs := m.procs ++ [p] } = offCursor m := by
  simp [offCursor, hp]

theorem offCursor_answer {c : Request} (hc : c.isGatt) {err : Errno} {m m' : Central}
    (h : answer c err m = some m') : offCursor m' = offCursor m := by
  cases c with
  | gattDiscover p =>
    cases err with
    | success =>
      cases h
      exact offCursor_startProc rfl m
    | already | failure =>
      cases h
      rfl
  | gattRead p =>
    cases err with
    | success =>
      cases h
      exact offCursor_startProc (by simpa [Request.isGatt] using hc) m
    | already | failure =>
      cases h
      rfl
  | gattSubscribe => cases err <;> cases h <;> rfl
  | _ => cases hc

/-- The program leaves this part of the state alone, and all of the pipeline. -/
def Leaves {α γ : Type} (cfg : Setup) (P : Condition) (φ : Central → γ) (p : Callback α) : Prop :=
  ∀ c d, p.Keeps (central cfg) P fun m io => φ m = c ∧ io = d

section Leaves

variable {α β γ : Type} {φ : Central → γ}

/-- A relation between that part and the pipeline is kept. -/
theorem Leaves.keeps {p : Callback α} (h : Leaves cfg P φ p) {S : γ → Pipeline → Prop} :
    p.Keeps (central cfg) P fun m io => S (φ m) io := by
  -- the part and the pipeline stand for the constants of `Leaves`
  induction p with
  | ret a => trivial
  | act f g k ih =>
    refine ⟨?_, fun m => ih m fun c d => (h c d).2 m⟩
    intro m io hS
    obtain ⟨hφ, hio⟩ := (h (φ m) io).1 m io ⟨rfl, rfl⟩
    rw [hφ, hio]
    exact hS
  | call c k ih =>
    refine ⟨?_, fun r => ih r fun c d => (h c d).2 r⟩
    intro m r m' io hr hm hS
    obtain ⟨hφ, -⟩ := (h (φ m) io).1 m r m' io hr hm ⟨rfl, rfl⟩
    rw [hφ]
    exact hS

/-- That part is the same at the end. -/
theorem Leaves.safe {p : Callback α} (h : Leaves cfg P φ p) :
    p.Safe (central cfg) P (fun _ _ => True) (fun _ m' => φ m' = φ m) m :=
  ((h.keeps (S := fun x _ => x = φ m)).safe rfl).keeping (Leaves.keeps (S := fun _ _ => True) h)

/-- The program leaves this part of the state alone, whatever it does to the pipeline. -/
def Spares (cfg : Setup) (P : Condition) (φ : Central → γ) (p : Callback α) : Prop :=
  ∀ c, p.Keeps (central cfg) P fun m _ => φ m = c

/-- What leaves the part and the pipeline alone spares the part. -/
theorem Leaves.spares {p : Callback α} (h : Leaves cfg P φ p) : Spares cfg P φ p :=
  fun c => h.keeps (S := fun x _ => x = c)

/-- What is spared is the same at the end. -/
theorem Spares.safe {p : Callback α} (h : Spares cfg P φ p) :
    p.Safe (central cfg) P (fun m' _ => φ m' = φ m) (fun _ m' => φ m' = φ m) m :=
  (h (φ m)).safe rfl

/-- What is said of a part that is spared is kept. -/
theorem Spares.keeps {p : Callback α} (h : Spares cfg P φ p) (S : γ → Prop) :
    p.Keeps (central cfg) P fun m _ => S (φ m) :=
  .of_eq h S

namespace Leaves

theorem pure (a : α) : Leaves cfg P φ (pure a : Callback α) := fun _ _ => keeps_pure a

theorem bind {p : Callback α} {q : α → Callback β} (hp : Leaves cfg P φ p)
    (hq : ∀ a, Leaves cfg P φ (q a)) : Leaves cfg P φ (p >>= q) :=
  fun c d => (hp c d).bind fun a => hq a c d

theorem ite {c : Prop} [Decidable c] {p q : Callback α} (hp : Leaves cfg P φ p)
    (hq : Leaves cfg P φ q) : Leaves cfg P φ (if c then p else q) :=
  fun c d => (hp c d).ite (hq c d)

theorem look_bind {q : Central → Callback α} (hq : ∀ m, Leaves cfg P φ (q m)) :
    Leaves cfg P φ (look >>= q) :=
  fun c d => keeps_look.bind fun m => hq m c d

theorem assign {f : Central → Central} (h : ∀ m, φ (f m) = φ m) : Leaves cfg P φ (assign f) :=
  fun _ _ => (keeps_assign f).mpr fun m _ hm => ⟨(h m).trans hm.1, hm.2⟩

end Leaves

/-! ### Callbacks that leave all but the cursor alone -/

variable (hφ : ∀ {m m' : Central}, offCursor m' = offCursor m → φ m' = φ m)

include hφ

theorem Leaves.ask {c : Request} (hc : c.isGatt) : Leaves cfg P φ (ask c) :=
  fun _ _ => (keeps_ask c).mpr fun _ _ _ _ _ hans hm =>
    ⟨(hφ (offCursor_answer hc hans)).trans hm.1, hm.2⟩

theorem Leaves.askOr {c : Request} {q : Callback Unit} (hc : c.isGatt) (hq : Leaves cfg P φ q) :
    Leaves cfg P φ (askOr c q) :=
  (Leaves.ask hφ hc).bind fun _ => hq.ite (.pure ())

theorem Leaves.discoverOr {q : Callback Unit} (hq : Leaves cfg P φ q) :
    Leaves cfg P φ (discoverOr q) :=
  .look_bind fun _ => .askOr hφ rfl hq

theorem leaves_discIdle : Leaves cfg P φ discIdle := .assign fun _ => hφ (by rfl)

theorem leaves_discoverCcc : Leaves cfg P φ discoverCcc :=
  (Leaves.assign fun _ => hφ (by rfl)).bind fun _ => .discoverOr hφ (leaves_discIdle hφ)

theorem leaves_subscribePending : Leaves cfg P φ subscribePending := by
  refine .look_bind fun m => (leaves_discIdle hφ).ite ?_
  exact (Leaves.assign fun _ => hφ (by rfl)).bind fun _ => .discoverOr hφ (leaves_discoverCcc hφ)

theorem leaves_startReportDiscovery : Leaves cfg P φ startReportDiscovery := by
  refine (Leaves.assign fun _ => hφ (by rfl)).bind fun _ => ?_
  refine (Leaves.assign fun _ => hφ (by rfl)).bind fun _ => ?_
  exact (Leaves.assign fun _ => hφ (by rfl)).bind fun _ => .discoverOr hφ (leaves_discIdle hφ)

theorem leaves_reportRefReadCb (err : Bool) (data : List U8) :
    Leaves cfg P φ (reportRefReadCb err data) := by
  refine (Leaves.assign fun _ => hφ (by rfl)).bind fun _ => ?_
  exact (leaves_discoverCcc hφ).bind fun _ => .pure _

theorem leaves_readReportRef (h : U16) : Leaves cfg P φ (readReportRef h) := by
  refine .askOr hφ rfl ?_
  exact (Leaves.assign fun _ => hφ (by rfl)).bind fun _ => leaves_discoverCcc hφ

theorem leaves_subscribeReport (a : Attr) : Leaves cfg P φ (subscribeReport a) := by
  refine .look_bind fun m => .ite ?_ (.pure ())
  refine (Leaves.assign fun _ => hφ (by rfl)).bind fun _ => (Leaves.ask hφ rfl).bind fun _ => ?_
  exact .ite (.pure ()) (.assign fun _ => hφ (by rfl))

theorem leaves_wireReport (a : Attr) : Leaves cfg P φ (wireReport a) := by
  refine (leaves_subscribeReport hφ a).bind ?_
  intro _
  exact (Leaves.assign fun _ => hφ (by rfl)).bind fun _ => leaves_subscribePending hφ

theorem leaves_discoverReportMap (a : Attr) : Leaves cfg P φ (discoverReportMap a) :=
  (Leaves.assign fun _ => hφ (by rfl)).bind fun _ => .discoverOr hφ (leaves_discIdle hφ)

theorem leaves_collectReport (a : Attr) : Leaves cfg P φ (Prog.assign (collectReport a)) := by
  refine .assign fun m => hφ ?_
  unfold collectReport
  split <;> rfl

theorem leaves_discoverDone : Leaves cfg P φ discoverDone := by
  refine .look_bind ?_
  intro m
  cases m.discState with
  | idle => exact .pure _
  | hidsPrimary => exact .pure _
  | reportMapChrc => exact leaves_startReportDiscovery hφ
  | reportChrc =>
    refine .look_bind fun m => (leaves_discIdle hφ).ite ?_
    exact (Leaves.assign fun _ => hφ (by rfl)).bind fun _ => leaves_subscribePending hφ
  | reportRef => exact leaves_discoverCcc hφ
  | ccc => exact (Leaves.assign fun _ => hφ (by rfl)).bind fun _ => leaves_subscribePending hφ

theorem leaves_finishDiscover : Leaves cfg P φ finishDiscover :=
  ((leaves_discoverDone hφ).bind fun _ => .pure _).bind fun _ => .pure ()

theorem leaves_respondRef (err : Bool) (data : List U8) : Leaves cfg P φ (respondRef err data) :=
  (leaves_reportRefReadCb hφ err data).bind fun _ => .pure ()

theorem leaves_unsubscribed (slot : ℕ) : Leaves cfg P φ (unsubscribed slot) :=
  .assign fun _ => hφ (by rfl)

end Leaves

/-! ### Callbacks that move the cursor and read the Report Map -/

section LeavesMap

variable {γ : Type} {φ : Central → γ}
  (hφ : ∀ {m m' : Central}, offMap m' = offMap m → φ m' = φ m)

include hφ

/-- What leaves the read out leaves the cursor out. -/
theorem eq_of_offCursor {m m' : Central} (h : offCursor m' = offCursor m) : φ m' = φ m :=
  hφ (congrArg (fun c : Central => { c with rmBuf := [], rmLen := 0, procs := [] }) h)

theorem leaves_readReportMap (h : U16) : Leaves cfg P φ (readReportMap h) := by
  refine (Leaves.assign fun _ => hφ (by rfl)).bind fun _ => ?_
  refine .bind (fun c d => (keeps_ask _).mpr fun m err m' io _ hans hm => ⟨?_, hm.2⟩) fun _ => ?_
  · refine (hφ ?_).trans hm.1
    cases err <;> cases hans <;> rfl
  · exact (leaves_startReportDiscovery (eq_of_offCursor hφ)).ite (.pure ())

theorem leaves_discovered (a : Attr) : Leaves cfg P φ (discovered a) := by
  refine .look_bind ?_
  intro m
  cases m.discState with
  | idle => exact .pure _
  | hidsPrimary => exact (leaves_discoverReportMap (eq_of_offCursor hφ) a).bind fun _ => .pure _
  | reportMapChrc => exact (leaves_readReportMap hφ _).bind fun _ => .pure _
  | reportChrc => exact (leaves_collectReport (eq_of_offCursor hφ) a).bind fun _ => .pure _
  | reportRef => exact (leaves_readReportRef (eq_of_offCursor hφ) _).bind fun _ => .pure _
  | ccc => exact (leaves_wireReport (eq_of_offCursor hφ) a).bind fun _ => .pure _

theorem leaves_deliver (q : DiscoverParams) (a : Attr) : Leaves cfg P φ (deliver q a) := by
  apply (leaves_discovered hφ a).bind
  intro i
  cases i with
  | «continue» => exact .assign fun _ => hφ (by rfl)
  | stop => exact .pure ()

end LeavesMap

/-! ### Callbacks that also write the layout -/

section LeavesLayout

variable {γ : Type} {φ : Central → γ}
  (hφ : ∀ {m m' : Central}, offDiscovery m' = offDiscovery m → φ m' = φ m)

include hφ

theorem leaves_writeLayouts (ls : List ReportLayout) : Leaves cfg P φ (writeLayouts ls) := by
  induction ls with
  | nil => exact .pure ()
  | cons l ls ih => exact (Leaves.assign fun _ => hφ (by rfl)).bind fun _ => ih

theorem leaves_parseReportMap : Leaves cfg P φ (parseReportMap cfg) := by
  refine .look_bind fun m => (leaves_writeLayouts hφ _).bind fun _ => ?_
  refine (Leaves.assign fun _ => hφ (by rfl)).bind fun _ => ?_
  exact .ite (.assign fun _ => hφ (by rfl)) (.pure ())

/-- What leaves the layout out leaves the read out. -/
theorem eq_of_offMap {m m' : Central} (h : offMap m' = offMap m) : φ m' = φ m :=
  hφ (congrArg (fun c : Central => { c with layout := .zero, layoutValid := false }) h)

theorem leaves_respondMap (h : U16) (received : List U8) (err : Bool) (data : List U8) :
    Leaves cfg P φ (respondMap cfg h received err data) := by
  have hstart : Leaves cfg P φ startReportDiscovery :=
    leaves_startReportDiscovery (eq_of_offCursor (eq_of_offMap hφ))
  refine .bind ?_ fun i => ?_
  · -- an error, a chunk, or the end of the value
    unfold reportMapReadCb
    refine .ite (hstart.bind fun _ => .pure _) (.ite ?_ ?_)
    · exact (Leaves.assign fun _ => hφ (by rfl)).bind fun _ => .pure _
    · exact (leaves_parseReportMap hφ).bind fun _ => hstart.bind fun _ => .pure _
  · cases i with
    | «continue» => exact .assign fun _ => hφ (by rfl)
    | stop => exact .pure ()

theorem leaves_startDiscovery : Leaves cfg P φ startDiscovery := by
  refine (Leaves.assign fun _ => hφ (by rfl)).bind fun _ => ?_
  refine (Leaves.assign fun _ => hφ (by rfl)).bind fun _ => ?_
  exact .discoverOr (eq_of_offCursor (eq_of_offMap hφ)) (.pure ())

end LeavesLayout

/-! ### Events -/

/-- What each event does at once, and the callback it enters, with its guard. -/
inductive Entered (cfg : Setup) (m : Central) (io : Pipeline) :
    Event → Central → Pipeline → Callback Unit → Prop
  | advertise (addr : Addr) (type : AdvType) (ad : List BtData) :
    Entered cfg m io (.advertise addr type ad) m io (deviceFound cfg addr type ad)
  | scanRetry (h : m.retryPending) :
    Entered cfg m io .scanRetry { m with retryPending := false } io scanRetryHandler
  | connected (err : Bool) {l : Link} (hl : m.link = some l) (hup : ¬ l.up) :
    Entered cfg m io (.connected err)
      { m with link := if err then none else some { l with up := true } } io (connected err)
  | securityChanged (level : ℕ) (err : Bool) {l : Link} (hl : m.link = some l) (hup : l.up) :
    Entered cfg m io (.securityChanged level err)
      { m with
        link := some { l with
          securing := false
          secured := l.secured || reportsSecured level err } } io
      (securityChanged l.peer level err)
  | disconnected {l : Link} (hl : m.link = some l) :
    Entered cfg m io .disconnected { m with link := none, procs := [], subscribed := [] } io
      (disconnected cfg l.conn)
  | discovered (n : ℕ) {l : Link} (hl : m.link = some l) (hup : l.up) {q : DiscoverParams}
      (hq : m.procs[n]? = some (.discover q)) {a : Attr} (ha : q.next (cfg.table l.conn) = some a) :
    Entered cfg m io (.discovered n) (takeProc n m) io (deliver q a)
  | discoverDone (n : ℕ) {l : Link} (hl : m.link = some l) (hup : l.up) {q : DiscoverParams}
      (hq : m.procs[n]? = some (.discover q)) :
    Entered cfg m io (.discoverDone n) (takeProc n m) io finishDiscover
  | readMap (n : ℕ) (err : Bool) (data : List U8) {l : Link} (hl : m.link = some l) (hup : l.up)
      {handle : U16} {received : List U8} (hq : m.procs[n]? = some (.readMap handle received)) :
    Entered cfg m io (.readResponse n err data)
      (noteMapRead l.conn received err data (takeProc n m))
      (recordMapRead l.conn received err data io) (respondMap cfg handle received err data)
  | readRef (n : ℕ) (err : Bool) (data : List U8) {l : Link} (hl : m.link = some l) (hup : l.up)
      {handle : U16} (hq : m.procs[n]? = some (.readRef handle)) :
    Entered cfg m io (.readResponse n err data) (takeProc n m) io (respondRef err data)
  | notified (slot : ℕ) (data : List U8) {l : Link} (hl : m.link = some l) (hup : l.up)
      (hslot : slot ∈ m.subscribed) :
    Entered cfg m io (.notified slot data) m io (notifyCb l.conn slot data)
  | unsubscribed (slot : ℕ) (hslot : slot ∈ m.subscribed) :
    Entered cfg m io (.unsubscribed slot) { m with subscribed := m.subscribed.erase slot } io
      (unsubscribed slot)
  | timePasses (ms : ℕ) :
    Entered cfg m io (.timePasses ms) { m with uptime := m.uptime + ms } io (pure ())
  | bonded (bonds : List Addr) :
    Entered cfg m io (.bonded bonds) { m with bonds := bonds } io (pure ())

/-- The test of `security_changed`. -/
theorem reportsSecured_iff {level : ℕ} {err : Bool} :
    reportsSecured level err ↔ ¬ (err ∨ level < 2) := by
  rw [reportsSecured, Bool.and_eq_true, Bool.not_eq_true', decide_eq_true_eq, not_or, Nat.not_lt,
    Bool.not_eq_true]

theorem upLink_eq_some {m : Central} {l : Link} (h : upLink m = some l) :
    m.link = some l ∧ l.up :=
  Option.filter_eq_some_iff.mp h

/-- The events of the procedures. -/
theorem entered_of_enterProc {n : ℕ} {p : Proc} {l : Link} {e : Event} {m m' : Central}
    {io io' : Pipeline} {q : Callback Unit} (hl : m.link = some l) (hup : l.up)
    (hp : m.procs[n]? = some p) (hn : e = .discovered n ∨ e = .discoverDone n ∨
      ∃ err data, e = .readResponse n err data)
    (h : enterProc cfg l.conn n p e m io = some (m', io', q)) :
    Entered cfg m io e m' io' q := by
  rcases hn with rfl | rfl | ⟨err, data, rfl⟩
  · cases p with
    | discover d =>
      obtain ⟨a, ha, heq⟩ := Option.map_eq_some_iff.mp h
      cases heq
      exact .discovered n hl hup hp ha
    | readMap | readRef => cases h
  · cases p with
    | discover d =>
      cases h
      exact .discoverDone n hl hup hp
    | readMap | readRef => cases h
  · cases p with
    | discover d => cases h
    | readMap handle received =>
      cases h
      exact .readMap n err data hl hup hp
    | readRef handle =>
      cases h
      exact .readRef n err data hl hup hp

/-- **Every event is one of these.** -/
theorem entered_of_enter {e : Event} {m m' : Central} {io io' : Pipeline} {p : Callback Unit}
    (h : enter cfg e m io = some (m', io', p)) : Entered cfg m io e m' io' p := by
  -- the events of a procedure first find its link and its place
  have hproc {n : ℕ} (hn : e = .discovered n ∨ e = .discoverDone n ∨
      ∃ err data, e = .readResponse n err data)
      (hbind : (upLink m).bind (fun l => m.procs[n]?.bind fun q =>
        enterProc cfg l.conn n q e m io) = some (m', io', p)) : Entered cfg m io e m' io' p := by
    obtain ⟨l, hl, hbind⟩ := Option.bind_eq_some_iff.mp hbind
    obtain ⟨q, hq, hbind⟩ := Option.bind_eq_some_iff.mp hbind
    obtain ⟨hl, hup⟩ := upLink_eq_some hl
    exact entered_of_enterProc hl hup hq hn hbind
  cases e with
  | advertise addr type ad =>
    cases h
    exact .advertise addr type ad
  | scanRetry =>
    obtain ⟨hretry, heq⟩ := Option.ite_none_right_eq_some.mp h
    cases heq
    exact .scanRetry hretry
  | connected err =>
    obtain ⟨l, hl, hbind⟩ := Option.bind_eq_some_iff.mp h
    obtain ⟨hup, heq⟩ := Option.ite_none_left_eq_some.mp hbind
    cases heq
    exact .connected err hl hup
  | securityChanged level err =>
    obtain ⟨l, hl, heq⟩ := Option.map_eq_some_iff.mp h
    obtain ⟨hl, hup⟩ := upLink_eq_some hl
    cases heq
    exact .securityChanged level err hl hup
  | disconnected =>
    obtain ⟨l, hl, heq⟩ := Option.map_eq_some_iff.mp h
    cases heq
    exact .disconnected hl
  | discovered n => exact hproc (Or.inl rfl) h
  | discoverDone n => exact hproc (Or.inr (Or.inl rfl)) h
  | readResponse n err data => exact hproc (Or.inr (Or.inr ⟨err, data, rfl⟩)) h
  | notified slot data =>
    obtain ⟨l, hl, hbind⟩ := Option.bind_eq_some_iff.mp h
    obtain ⟨hslot, heq⟩ := Option.ite_none_right_eq_some.mp hbind
    obtain ⟨hl, hup⟩ := upLink_eq_some hl
    cases heq
    exact .notified slot data hl hup hslot
  | unsubscribed slot =>
    obtain ⟨hslot, heq⟩ := Option.ite_none_right_eq_some.mp h
    cases heq
    exact .unsubscribed slot hslot
  | timePasses ms =>
    cases h
    exact .timePasses ms
  | bonded bonds =>
    cases h
    exact .bonded bonds

end BleHidHost
