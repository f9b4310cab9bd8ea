import BleHidHost.Fresh
import BleHidHost.Sequence
import BleHidHost.Tables
import BleHidHost.Lib.Log

/-!
# A discovery ends

Each callback of a discovery spends some of what is left to do: of the four passes and
the read of the Report Map, of the Report characteristics that the third pass delivers,
and of the three results for each report that is wired.  Only a chunk of the Report Map
spends nothing.  So a peer with `R` Report characteristics is discovered in at most
`4 + R + 3 * min(12, R)` callbacks, whatever it answers.

## Main definitions

* `Proc.effort` — the callbacks that a procedure, and what follows it, can still enter.
* `discoveryScribe` — counts the callbacks since the discovery was started.
* `wholeEffort` — the bound.

## Main results

* `spends_deliver`, `spends_finishDiscover`, `spends_respondMap`, `spends_respondRef` — each
  callback spends one.
* `callbacks_le` — **a discovery enters no more callbacks than the bound.**
-/

namespace BleHidHost

open Lib Lib.Prog

variable {cfg : Setup} {P : Condition} {m : Central} {io : Pipeline} {table : List Attr} {b : ℕ}

/-! ### What is left to do -/

/-- The attributes that a discovery can still deliver. -/
def DiscoverParams.left (q : DiscoverParams) (table : List Attr) : ℕ :=
  table.countP fun a => q.Finds a

/-- The Report characteristics of a table. -/
def reportChrcs (table : List Attr) : ℕ :=
  table.countP fun a => a.type = .characteristic ∧ a.uuid = uuidHidsReport

/-- What the pass over the Report characteristics, and the wiring behind it, can still enter:
each of `n` characteristics, the end of the pass, and three results for each report. -/
def passEffort (n collected : ℕ) : ℕ := n + 1 + 3 * min maxReports (collected + n)

/-- The results of the reports that are left to wire. -/
def wiringEffort (m : Central) : ℕ := 3 * (m.pendingCount - m.pendingIdx)

/-- The callbacks that this procedure, and what follows it, can still enter. -/
def Proc.effort (table : List Attr) (m : Central) : Proc → ℕ
  | .discover q =>
    match m.discState with
    | .hidsPrimary => passEffort (reportChrcs table) 0 + 3
    | .reportMapChrc => passEffort (reportChrcs table) 0 + 2
    | .reportChrc => passEffort (q.left table) m.pendingCount
    | .reportRef => wiringEffort m
    | .ccc => wiringEffort m - 2
    | .idle => 0
  | .readMap _ _ => passEffort (reportChrcs table) 0 + 1
  | .readRef _ => wiringEffort m - 1

/-- The callbacks that all outstanding procedures can still enter. -/
def effort (table : List Attr) (m : Central) : ℕ := (m.procs.map (Proc.effort table m)).sum

/-- The callbacks of a whole discovery. -/
def wholeEffort (table : List Attr) : ℕ := passEffort (reportChrcs table) 0 + 3

theorem effort_nil (h : m.procs = []) : effort table m = 0 := by rw [effort, h]; rfl

theorem effort_singleton {p : Proc} (h : m.procs = [p]) : effort table m = p.effort table m := by
  simp [effort, h]

/-- A wider pass takes more. -/
theorem passEffort_mono {n n' c c' : ℕ} (hn : n ≤ n') (hc : c + n ≤ c' + n') :
    passEffort n c ≤ passEffort n' c' := by
  unfold passEffort
  omega

/-- What a search for Reports finds are Report characteristics. -/
theorem left_le_reportChrcs {q : DiscoverParams} (htype : q.type = .characteristic)
    (huuid : q.uuid = uuidHidsReport) : q.left table ≤ reportChrcs table := by
  refine List.countP_mono_left fun a _ ha => ?_
  obtain ⟨ht, hu, -⟩ := of_decide_eq_true ha
  simp [ht, hu, htype, huuid]

/-- **An attribute that is delivered leaves fewer.** -/
theorem left_after_lt {q : DiscoverParams} {a : Attr} (h : q.next table = some a) :
    (q.after a).left table < q.left table := by
  obtain ⟨hmem, hfinds⟩ := DiscoverParams.next_eq_some h
  have himp (c : Attr) (hc : decide ((q.after a).Finds c) = true) : decide (q.Finds c) = true :=
    decide_eq_true ((finds_after_iff hfinds).mp (of_decide_eq_true hc)).1
  have hself : ¬ (q.after a).Finds a := fun hc =>
    absurd ((finds_after_iff hfinds).mp hc).2 (by simp)
  obtain ⟨pre, post, rfl⟩ := List.append_of_mem hmem
  have hpre := List.countP_mono_left (l := pre) fun c _ => himp c
  have hpost := List.countP_mono_left (l := post) fun c _ => himp c
  simp only [DiscoverParams.left, List.countP_append, List.countP_cons, hfinds, hself, decide_true,
    decide_false, if_true, Bool.false_eq_true, if_false]
  omega

/-! ### Callbacks -/

/-- No more is left to do than `b`, and the reports are counted as they should be. -/
def Leaving (table : List Attr) (b : ℕ) (m : Central) : Prop :=
  effort table m ≤ b ∧ m.pendingCount ≤ maxReports ∧ Aimed m

/-- Less is left to do than `b`. -/
def Spending (table : List Attr) (b : ℕ) (m : Central) : Prop :=
  effort table m < b ∧ m.pendingCount ≤ maxReports ∧ Aimed m

theorem Leaving.mono {b' : ℕ} (h : Leaving table b m) (hb : b ≤ b') : Leaving table b' m :=
  ⟨h.1.trans hb, h.2⟩

theorem Leaving.spending {b' : ℕ} (h : Leaving table b m) (hb : b < b') : Spending table b' m :=
  ⟨h.1.trans_lt hb, h.2⟩

/-- The callback returns with no more left to do. -/
abbrev EndsWithin (cfg : Setup) (P : Condition) (table : List Attr) (p : Callback Unit) (b : ℕ)
    (m : Central) : Prop :=
  p.Safe (central cfg) P (fun _ _ => True) (fun _ => Leaving table b) m

/-- The callback returns with less left to do. -/
abbrev Spends (cfg : Setup) (P : Condition) (table : List Attr) (p : Callback Unit) (b : ℕ)
    (m : Central) : Prop :=
  p.Safe (central cfg) P (fun _ _ => True) (fun _ => Spending table b) m

theorem spends_of_endsWithin {p : Callback Unit} {b' : ℕ} (h : EndsWithin cfg P table p b m)
    (hb : b < b') : Spends cfg P table p b' m :=
  h.mono fun _ _ hleaving => hleaving.spending hb

theorem endsWithin_mono {p : Callback Unit} {b' : ℕ} (h : EndsWithin cfg P table p b m)
    (hb : b ≤ b') : EndsWithin cfg P table p b' m :=
  h.mono fun _ _ hleaving => hleaving.mono hb

/-- No procedure is outstanding, and no report is wired. -/
theorem leaving_nil (h : m.procs = []) (hcount : m.pendingCount ≤ maxReports)
    (hwires : m.discState.wires = false) : Leaving table b m := by
  refine ⟨by simp [effort_nil h], hcount, fun hw => ?_⟩
  rw [hwires] at hw
  cases hw

/-- The discovery is given up. -/
theorem endsWithin_discIdle (h : m.procs = []) (hcount : m.pendingCount ≤ maxReports) :
    EndsWithin cfg P table discIdle b m :=
  (safe_assign _).mpr ⟨fun _ _ => trivial, leaving_nil h hcount rfl⟩

/-- A procedure is started, or what is done instead. -/
theorem endsWithin_askOr {c : Request} {p : Proc} {q : Callback Unit}
    (hc : c = .gattRead p ∨ ∃ d, c = .gattDiscover d ∧ p = .discover d) (h : m.procs = [])
    (hb : p.effort table m ≤ b) (hcount : m.pendingCount ≤ maxReports) (haimed : Aimed m)
    (hq : EndsWithin cfg P table q b m) : EndsWithin cfg P table (askOr c q) b m := by
  have hnext : Leaving table b { m with procs := m.procs ++ [p] } := by
    refine ⟨?_, hcount, haimed⟩
    rw [effort_singleton (p := p) (by rw [h, List.nil_append])]
    -- the effort of a procedure does not depend on what is outstanding
    cases p <;> exact hb
  rcases hc with rfl | ⟨d, rfl, rfl⟩
  · exact (safe_askOr (by simp) (by simp) q).mpr
      ⟨fun _ => ⟨fun _ _ => trivial, hnext⟩, fun _ _ _ => hq⟩
  · exact (safe_askOr (by simp) (by simp) q).mpr
      ⟨fun _ => ⟨fun _ _ => trivial, hnext⟩, fun _ _ _ => hq⟩

/-- A discovery is started, or what is done instead. -/
theorem endsWithin_discoverOr {q : Callback Unit} (h : m.procs = [])
    (hb : (Proc.discover m.discoverParams).effort table m ≤ b)
    (hcount : m.pendingCount ≤ maxReports) (haimed : Aimed m) (hq : EndsWithin cfg P table q b m) :
    EndsWithin cfg P table (discoverOr q) b m := by
  rw [EndsWithin, discoverOr, safe_bind, safe_look]
  exact endsWithin_askOr (Or.inr ⟨_, rfl, rfl⟩) h hb hcount haimed hq

theorem endsWithin_discoverCcc (h : m.procs = []) (hcount : m.pendingCount ≤ maxReports)
    (hidx : m.pendingIdx < m.pendingCount) :
    EndsWithin cfg P table discoverCcc (wiringEffort m - 2) m := by
  rw [EndsWithin, discoverCcc, safe_bind, safe_assign]
  refine ⟨fun _ _ => trivial, endsWithin_discoverOr h le_rfl hcount (fun _ => hidx) ?_⟩
  exact endsWithin_discIdle h hcount

theorem endsWithin_subscribePending (h : m.procs = []) (hcount : m.pendingCount ≤ maxReports) :
    EndsWithin cfg P table subscribePending (wiringEffort m) m := by
  rw [EndsWithin, subscribePending, safe_bind, safe_look, safe_ite, discoverReportRef, safe_bind,
    safe_assign]
  refine ⟨fun _ => endsWithin_discIdle h hcount, fun hleft => ⟨fun _ _ => trivial, ?_⟩⟩
  have hidx : m.pendingIdx < m.pendingCount := Nat.lt_of_not_le hleft
  refine endsWithin_discoverOr h le_rfl hcount (fun _ => hidx) ?_
  exact endsWithin_mono (endsWithin_discoverCcc h hcount hidx) (Nat.sub_le _ _)

theorem endsWithin_startReportDiscovery (h : m.procs = []) :
    EndsWithin cfg P table startReportDiscovery (passEffort (reportChrcs table) 0) m := by
  simp only [EndsWithin, startReportDiscovery, safe_bind, safe_assign, implies_true, true_and]
  refine endsWithin_discoverOr h ?_ (Nat.zero_le _) (absurd · Bool.false_ne_true)
    (endsWithin_discIdle h (Nat.zero_le _))
  have hle : (DiscoverParams.mk uuidHidsReport firstAttributeHandle m.hidsEndHandle
      .characteristic).left table ≤ reportChrcs table := left_le_reportChrcs rfl rfl
  exact passEffort_mono hle (Nat.add_le_add_left hle 0)

theorem endsWithin_readReportMap (h : m.procs = []) (hcount : m.pendingCount ≤ maxReports)
    (hstate : m.discState = .reportMapChrc) (handle : U16) :
    EndsWithin cfg P table (readReportMap handle) (passEffort (reportChrcs table) 0 + 1) m := by
  rw [EndsWithin, readReportMap, safe_bind, safe_assign]
  refine ⟨fun _ _ => trivial, endsWithin_askOr (Or.inl rfl) h le_rfl hcount (fun hwires => ?_) ?_⟩
  · rw [hstate] at hwires
    cases hwires
  · exact endsWithin_mono (endsWithin_startReportDiscovery h) (Nat.le_succ _)

theorem endsWithin_readReportRef (h : m.procs = []) (hcount : m.pendingCount ≤ maxReports)
    (hidx : m.pendingIdx < m.pendingCount) (handle : U16) :
    EndsWithin cfg P table (readReportRef handle) (wiringEffort m - 1) m := by
  refine endsWithin_askOr (Or.inl rfl) h le_rfl hcount (fun _ => hidx) ?_
  rw [EndsWithin, safe_bind, safe_assign]
  refine ⟨fun _ _ => trivial, endsWithin_mono (endsWithin_discoverCcc h hcount hidx) ?_⟩
  exact Nat.sub_le_sub_left (Nat.le_succ 1) _

/-- A subscription moves nothing that counts. -/
theorem safe_subscribeReport_cursor (a : Attr) {Q : Unit → Central → Prop}
    (hQ : ∀ m', m'.procs = m.procs → m'.pendingCount = m.pendingCount →
      m'.pendingIdx = m.pendingIdx → Q () m') :
    (subscribeReport a).Safe (central cfg) P (fun _ _ => True) Q m := by
  rw [subscribeReport, safe_bind, safe_look, safe_ite, safe_bind, safe_assign]
  refine ⟨fun _ => ⟨fun _ _ => trivial, ?_⟩, fun _ => hQ m rfl rfl rfl⟩
  rw [safe_bind, safe_ask, central_answer]
  intro err m' _ hans
  have hsame : m'.procs = m.procs ∧ m'.pendingCount = m.pendingCount ∧
      m'.pendingIdx = m.pendingIdx := by
    cases err <;> cases hans <;> exact ⟨rfl, rfl, rfl⟩
  obtain ⟨hprocs, hcount, hidx⟩ := hsame
  rw [safe_ite]
  exact ⟨fun _ _ => trivial, fun _ => hQ m' hprocs hcount hidx,
    fun _ => ⟨fun _ _ => trivial, hQ _ hprocs hcount hidx⟩⟩

/-- One report is done with. -/
theorem endsWithin_next (h : m.procs = []) (hcount : m.pendingCount ≤ maxReports) :
    EndsWithin cfg P table (do
      assign fun m => { m with pendingIdx := m.pendingIdx + 1 }
      subscribePending) (wiringEffort m - 3) m := by
  rw [EndsWithin, safe_bind, safe_assign]
  refine ⟨fun _ _ => trivial, endsWithin_mono (endsWithin_subscribePending h hcount) ?_⟩
  unfold wiringEffort
  show 3 * (m.pendingCount - (m.pendingIdx + 1)) ≤ _
  omega

theorem endsWithin_wireReport (h : m.procs = []) (hcount : m.pendingCount ≤ maxReports) (a : Attr) :
    EndsWithin cfg P table (wireReport a) (wiringEffort m - 3) m := by
  rw [EndsWithin, wireReport, safe_bind]
  refine safe_subscribeReport_cursor a fun m' hprocs' hcount' hidx' => ?_
  have heffort : wiringEffort m = wiringEffort m' := by
    rw [wiringEffort, wiringEffort, hcount', hidx']
  rw [heffort]
  exact endsWithin_next (hprocs'.trans h) (hcount'.trans_le hcount)

/-! ### Callbacks of procedures -/

/-- **An attribute that is delivered spends one.** -/
theorem spends_deliver (h : m.procs = []) (hcount : m.pendingCount ≤ maxReports)
    (haimed : Aimed m) {q : DiscoverParams} (hq : Names m.discState (.discover q)) {a : Attr}
    (ha : q.next table = some a) :
    Spends cfg P table (deliver q a) ((Proc.discover q).effort table m) m := by
  rw [Spends, deliver, safe_bind]
  show (discovered a).Safe _ _ _ _ m
  rw [discovered, safe_bind, safe_look]
  simp only [Proc.effort]
  cases hstate : m.discState with
  | idle =>
    rw [hstate] at hq
    cases hq
  | hidsPrimary =>
    refine (safe_bind _ _).mpr (spends_of_endsWithin (b := passEffort (reportChrcs table) 0 + 2) ?_
      (Nat.lt_succ_self _))
    rw [EndsWithin, discoverReportMap, safe_bind, safe_assign]
    exact ⟨fun _ _ => trivial, endsWithin_discoverOr h le_rfl hcount (absurd · Bool.false_ne_true)
      (endsWithin_discIdle h hcount)⟩
  | reportMapChrc =>
    exact (safe_bind _ _).mpr
      (spends_of_endsWithin (endsWithin_readReportMap h hcount hstate _) (Nat.lt_succ_self _))
  | reportRef =>
    have hidx := haimed (by rw [hstate]; rfl)
    refine (safe_bind _ _).mpr (spends_of_endsWithin (endsWithin_readReportRef h hcount hidx _) ?_)
    show wiringEffort m - 1 < wiringEffort m
    unfold wiringEffort
    omega
  | ccc =>
    have hidx := haimed (by rw [hstate]; rfl)
    refine (safe_bind _ _).mpr (spends_of_endsWithin (endsWithin_wireReport h hcount a) ?_)
    show wiringEffort m - 3 < wiringEffort m - 2
    unfold wiringEffort
    omega
  | reportChrc =>
    -- the pass goes on with fewer, one of which may have been collected
    have hlt := left_after_lt ha
    have hcollect : (collectReport a m).procs = m.procs ∧
        (collectReport a m).discState = m.discState ∧
        (collectReport a m).pendingCount ≤ maxReports ∧
        (collectReport a m).pendingCount ≤ m.pendingCount + 1 := by
      unfold collectReport
      split
      · next hroom => exact ⟨rfl, rfl, hroom.2, le_rfl⟩
      · exact ⟨rfl, rfl, hcount, Nat.le_succ _⟩
    obtain ⟨hprocs, hsame, hmax, hone⟩ := hcollect
    refine (safe_bind _ _).mpr ⟨fun _ _ => trivial, ?_⟩
    refine ⟨fun _ _ => trivial, ?_, hmax, fun hwires => ?_⟩
    · rw [effort_singleton (p := .discover (q.after a)) (by simp [hprocs, h])]
      simp only [Proc.effort, hsame, hstate]
      unfold passEffort
      omega
    · have hwires' : (collectReport a m).discState.wires := hwires
      rw [hsame, hstate] at hwires'
      cases hwires'

/-- **The end of a discovery spends one.** -/
theorem spends_finishDiscover (h : m.procs = []) (hcount : m.pendingCount ≤ maxReports)
    (haimed : Aimed m) {q : DiscoverParams} (hq : Names m.discState (.discover q)) :
    Spends cfg P table finishDiscover ((Proc.discover q).effort table m) m := by
  simp only [Spends, finishDiscover, discoverFunc, discoverDone, safe_bind, safe_look, Proc.effort]
  cases hstate : m.discState with
  | idle =>
    rw [hstate] at hq
    cases hq
  | hidsPrimary =>
    exact (leaving_nil h hcount (by rw [hstate]; rfl)).spending (b := 0) (Nat.succ_pos _)
  | reportMapChrc =>
    exact spends_of_endsWithin (endsWithin_startReportDiscovery h)
      (Nat.lt_add_of_pos_right (Nat.succ_pos 1))
  | reportChrc =>
    show Prog.Safe _ _ _ reportsCollected _ m
    rw [reportsCollected, safe_bind, safe_look, safe_ite, safe_bind, safe_assign]
    have hleft : 3 * (m.pendingCount - 0) < passEffort (q.left table) m.pendingCount := by
      unfold passEffort
      omega
    refine ⟨fun _ => ?_, fun _ => ⟨fun _ _ => trivial, ?_⟩⟩
    · exact spends_of_endsWithin (endsWithin_discIdle h hcount) ((Nat.zero_le _).trans_lt hleft)
    · exact spends_of_endsWithin (endsWithin_subscribePending h hcount) hleft
  | reportRef =>
    have hidx := haimed (by rw [hstate]; rfl)
    refine spends_of_endsWithin (endsWithin_discoverCcc h hcount hidx) ?_
    show wiringEffort m - 2 < wiringEffort m
    unfold wiringEffort
    omega
  | ccc =>
    have hidx := haimed (by rw [hstate]; rfl)
    refine spends_of_endsWithin (endsWithin_next h hcount) ?_
    show wiringEffort m - 3 < wiringEffort m - 2
    unfold wiringEffort
    omega

/-- The parse of the Report Map moves nothing that counts. -/
theorem endsWithin_parseReportMap (h : m.procs = []) :
    (parseReportMap cfg).Safe (central cfg) P (fun _ _ => True) (fun _ m' => m'.procs = []) m :=
  (safe_parseReportMap_alone h fun _ hm' => hm').forget

/-- **The end of the Report Map spends one.** -/
theorem spends_respondMap (h : m.procs = []) (handle : U16) (received : List U8) (err : Bool)
    {data : List U8} (hend : err ∨ data = []) :
    Spends cfg P table (respondMap cfg handle received err data)
      ((Proc.readMap handle received).effort table m) m := by
  rw [Spends, respondMap, safe_bind, reportMapReadCb, safe_ite, safe_ite]
  refine ⟨fun _ => ?_, fun herr => ⟨fun hdata => ?_, fun _ => ?_⟩⟩
  · rw [safe_bind]
    exact spends_of_endsWithin (endsWithin_startReportDiscovery h) (Nat.lt_succ_self _)
  · exact absurd (hend.resolve_left herr) hdata
  · rw [safe_bind]
    refine (endsWithin_parseReportMap h).mono fun _ m' hm' => ?_
    rw [safe_bind]
    exact spends_of_endsWithin (endsWithin_startReportDiscovery hm') (Nat.lt_succ_self _)

/-- A chunk of the Report Map spends nothing. -/
theorem endsWithin_respondMap_chunk (h : m.procs = []) (hcount : m.pendingCount ≤ maxReports)
    (haimed : Aimed m) (handle : U16) (received : List U8) {data : List U8} (hdata : data ≠ []) :
    EndsWithin cfg P table (respondMap cfg handle received false data)
      ((Proc.readMap handle received).effort table m) m := by
  rw [EndsWithin, respondMap_chunk handle received hdata, safe_bind, safe_assign, safe_assign]
  refine ⟨fun _ _ => trivial, fun _ _ => trivial, ?_, hcount, haimed⟩
  rw [effort_singleton (p := .readMap handle (received ++ data)) (by simp [storeChunk, h])]
  exact le_rfl

/-- **A Report Reference spends one.** -/
theorem spends_respondRef (h : m.procs = []) (hcount : m.pendingCount ≤ maxReports)
    (hidx : m.pendingIdx < m.pendingCount) (handle : U16) (err : Bool) (data : List U8) :
    Spends cfg P table (respondRef err data) ((Proc.readRef handle).effort table m) m := by
  simp only [Spends, respondRef, reportRefReadCb, safe_bind, safe_assign, safe_pure]
  refine ⟨fun _ _ => trivial, spends_of_endsWithin (endsWithin_discoverCcc h hcount hidx) ?_⟩
  simp only [Proc.effort, wiringEffort]
  omega

/-- A discovery is started. -/
theorem endsWithin_startDiscovery (h : m.procs = []) (hcount : m.pendingCount ≤ maxReports) :
    EndsWithin cfg P table startDiscovery (wholeEffort table) m := by
  simp only [EndsWithin, startDiscovery, safe_bind, safe_assign, implies_true, true_and]
  exact endsWithin_discoverOr h le_rfl hcount (absurd · Bool.false_ne_true)
    ((safe_pure _).mpr (leaving_nil h hcount rfl))

/-! ### Counting -/

/-- The callbacks since the discovery of a connection was started. -/
structure DiscoveryLog where
  conn : ℕ
  callbacks : ℕ

/-- Nothing was discovered. -/
def DiscoveryLog.start : DiscoveryLog := ⟨0, 0⟩

/-- The event is one of a procedure, and no chunk of the Report Map. -/
def spendsOne (m : Central) : Event → Bool
  | .discovered _ => true
  | .discoverDone _ => true
  | .readResponse n err data => err || data.isEmpty || !(m.procs[n]?).any Proc.isMap
  | _ => false

/-- The callbacks are counted from each success of a security procedure. -/
def discoveryScribe : Scribe Central Request Errno Event DiscoveryLog where
  onAnswer _ _ _ log := log
  onEvent m e log :=
    match e with
    | .securityChanged level err =>
      if reportsSecured level err then ⟨((upLink m).map Link.conn).getD 0, 0⟩ else log
    | _ => if spendsOne m e then { log with callbacks := log.callbacks + 1 } else log

/-- The callbacks are within the bound. -/
def WithinBound (cfg : Setup) (log : DiscoveryLog) : Prop :=
  log.callbacks ≤ wholeEffort (cfg.table log.conn)

/-- With all that can still be entered the callbacks are within the bound. -/
def Budgeted (cfg : Setup) (m : Central) (log : DiscoveryLog) : Prop :=
  (log.callbacks + effort (cfg.table log.conn) m ≤ wholeEffort (cfg.table log.conn) ∧
    m.pendingCount ≤ maxReports ∧ Aimed m) ∧
      ∀ l, m.link = some l → m.procs ≠ [] → l.conn = log.conn

variable {log : DiscoveryLog}

/-- Nothing is left where all is cleared. -/
theorem budgeted_of_cleared (hlog : WithinBound cfg log) (h : Cleared m) : Budgeted cfg m log := by
  have hprocs : m.procs = [] := congrArg PeerState.procs h
  have hcount : m.pendingCount = 0 := congrArg PeerState.pendingCount h
  have hstate : m.discState = .idle := congrArg PeerState.discState h
  refine ⟨⟨?_, ?_, fun hwires => ?_⟩, fun _ _ hne => absurd hprocs hne⟩
  · rw [effort_nil hprocs]
    exact hlog
  · rw [hcount]
    exact Nat.zero_le _
  · rw [hstate] at hwires
    cases hwires

/-- The callback returns within the budget. -/
abbrev StaysWithin (cfg : Setup) (p : Callback Unit) (m : Central) (log : DiscoveryLog) : Prop :=
  p.Logged (central cfg) restartsAlone discoveryScribe (WithinBound cfg)
    (fun _ => Budgeted cfg) m log

/-- Nothing is written at answers. -/
theorem staysWithin_of_safe {p : Callback Unit} (hlog : WithinBound cfg log)
    (h : p.Safe (central cfg) restartsAlone (fun _ _ => True)
      (fun _ m' => Budgeted cfg m' log) m) : StaysWithin cfg p m log :=
  Logged.of_safe (fun _ _ _ _ => rfl) hlog h

/-- A callback while nothing is known of the peer. -/
theorem staysWithin_of_cleared {p : Callback Unit} (hlog : WithinBound cfg log) (h : Cleared m)
    (hp : p.Keeps (central cfg) restartsAlone clearedly) : StaysWithin cfg p m log :=
  staysWithin_of_safe hlog ((h.safe_keeps hp).mono fun _ _ => budgeted_of_cleared hlog)

/-- What is outstanding can still enter a callback. -/
theorem Proc.effort_pos {p : Proc} (hp : Names m.discState p) (haimed : Aimed m) :
    0 < p.effort table m := by
  cases p with
  | discover q =>
    simp only [Proc.effort]
    cases hstate : m.discState with
    | idle =>
      rw [hstate] at hp
      cases hp
    | hidsPrimary => exact Nat.succ_pos _
    | reportMapChrc => exact Nat.succ_pos _
    | reportChrc =>
      show 0 < passEffort (q.left table) m.pendingCount
      unfold passEffort
      omega
    | reportRef =>
      have hidx := haimed (by rw [hstate]; rfl)
      show 0 < wiringEffort m
      unfold wiringEffort
      omega
    | ccc =>
      have hidx := haimed (by rw [hstate]; rfl)
      show 0 < wiringEffort m - 2
      unfold wiringEffort
      omega
  | readMap => exact Nat.succ_pos _
  | readRef =>
    have hstate : m.discState = .reportRef := hp
    have hidx := haimed (by rw [hstate]; rfl)
    show 0 < wiringEffort m - 1
    unfold wiringEffort
    omega

/-- The procedure whose callback is entered is the only one. -/
theorem Sequential.procs_eq (h : Sequential m) {n : ℕ} {p : Proc} (hp : m.procs[n]? = some p) :
    m.procs = [p] := by
  have hmem := List.mem_of_getElem? hp
  have hone := h.one
  cases hprocs : m.procs with
  | nil =>
    rw [hprocs] at hmem
    cases hmem
  | cons q qs =>
    rw [hprocs] at hmem hone
    obtain rfl : qs = [] := List.eq_nil_of_length_eq_zero (by simpa using hone)
    rw [List.mem_singleton.mp hmem]

section Procedures

variable {n : ℕ} {p : Proc} {q : Callback Unit} {m' : Central}

/-- **A callback that spends one is within the budget.** -/
theorem Budgeted.spend (h : Budgeted cfg m log) (hseq : Sequential m) (hp : m.procs[n]? = some p)
    (hlink : m'.link = m.link) (hleaves : Leaves cfg restartsAlone linkPart q)
    (hspends : Spends cfg restartsAlone (cfg.table log.conn) q
      (p.effort (cfg.table log.conn) m) m') :
    WithinBound cfg { log with callbacks := log.callbacks + 1 } ∧
      StaysWithin cfg q m' { log with callbacks := log.callbacks + 1 } := by
  obtain ⟨⟨hbudget, hcount, haimed⟩, hconn⟩ := h
  have hprocs := hseq.procs_eq hp
  rw [effort_singleton hprocs] at hbudget
  have hpos : 0 < p.effort (cfg.table log.conn) m :=
    Proc.effort_pos (hseq.named p (List.mem_of_getElem? hp)) haimed
  have hwithin : WithinBound cfg { log with callbacks := log.callbacks + 1 } := by
    show log.callbacks + 1 ≤ wholeEffort (cfg.table log.conn)
    omega
  refine ⟨hwithin, staysWithin_of_safe hwithin ((hspends.and hleaves.safe).mono ?_)⟩
  rintro _ m'' ⟨⟨hless, hcount', haimed'⟩, hpart⟩
  refine ⟨⟨?_, hcount', haimed'⟩, fun l hl _ => ?_⟩
  · show log.callbacks + 1 + effort (cfg.table log.conn) m'' ≤ wholeEffort (cfg.table log.conn)
    omega
  · have hsame : m''.link = m'.link := congrArg (·.2.1) hpart
    exact hconn l (by rw [← hlink, ← hsame, hl]) (by rw [hprocs]; exact List.cons_ne_nil _ _)

/-- A chunk of the Report Map is within the budget. -/
theorem Budgeted.chunk (h : Budgeted cfg m log) (hseq : Sequential m) (hp : m.procs[n]? = some p)
    (hlink : m'.link = m.link) (hleaves : Leaves cfg restartsAlone linkPart q)
    (hends : EndsWithin cfg restartsAlone (cfg.table log.conn) q
      (p.effort (cfg.table log.conn) m) m') :
    WithinBound cfg log ∧ StaysWithin cfg q m' log := by
  obtain ⟨⟨hbudget, hcount, haimed⟩, hconn⟩ := h
  have hprocs := hseq.procs_eq hp
  rw [effort_singleton hprocs] at hbudget
  have hwithin : WithinBound cfg log := (Nat.le_add_right _ _).trans hbudget
  refine ⟨hwithin, staysWithin_of_safe hwithin ((hends.and hleaves.safe).mono ?_)⟩
  rintro _ m'' ⟨⟨hless, hcount', haimed'⟩, hpart⟩
  refine ⟨⟨(Nat.add_le_add_left hless _).trans hbudget, hcount', haimed'⟩, fun l hl _ => ?_⟩
  have hsame : m''.link = m'.link := congrArg (·.2.1) hpart
  exact hconn l (by rw [← hlink, ← hsame, hl]) (by rw [hprocs]; exact List.cons_ne_nil _ _)

end Procedures

/-! ### Runs -/

/-- An assignment that moves nothing that counts. -/
theorem Budgeted.congr {m' : Central} (h : Budgeted cfg m log) (hprocs : m'.procs = m.procs)
    (hstate : m'.discState = m.discState) (hcount : m'.pendingCount = m.pendingCount)
    (hidx : m'.pendingIdx = m.pendingIdx)
    (hlink : m'.link.map Link.conn = m.link.map Link.conn) : Budgeted cfg m' log := by
  obtain ⟨⟨hbudget, hmax, haimed⟩, hconn⟩ := h
  have heffort (p : Proc) : p.effort (cfg.table log.conn) m' = p.effort (cfg.table log.conn) m := by
    cases p <;> simp only [Proc.effort, wiringEffort, hstate, hcount, hidx]
  refine ⟨⟨?_, hcount.trans_le hmax, ?_⟩, fun l hl hne => ?_⟩
  · rwa [effort, hprocs, List.map_congr_left fun p _ => heffort p]
  · rw [Aimed, hstate, hcount, hidx]
    exact haimed
  · obtain ⟨l', hl', heq⟩ := Option.map_eq_some_iff.mp
      ((hlink.symm.trans (by rw [hl, Option.map_some])) : m.link.map Link.conn = some l.conn)
    exact heq.symm.trans (hconn l' hl' (by rwa [hprocs] at hne))

/-- An action of a callback that moves nothing that counts. -/
theorem Budgeted.staysWithin (h : Budgeted cfg m log) (hlog : WithinBound cfg log)
    {p : Callback Unit}
    (hp : p.Keeps (central cfg) restartsAlone fun m _ => Budgeted cfg m log) :
    StaysWithin cfg p m log :=
  staysWithin_of_safe hlog (Keeps.safe (I := fun m => Budgeted cfg m log) hp h).forget

/-- A failed security procedure may request a disconnect. -/
theorem staysWithin_securityFailed (h : Budgeted cfg m log) (hlog : WithinBound cfg log)
    (peer : Addr) : StaysWithin cfg (securityFailed peer) m log := by
  apply h.staysWithin hlog
  refine .bind ((keeps_assign _).mpr fun _ _ hm => hm) fun _ => ?_
  refine keeps_askOr (by simp) (by simp) (fun m _ hm => ?_) (keeps_pure _)
  refine hm.congr (by rfl) (by rfl) (by rfl) (by rfl) ?_
  show (m.link.map _).map _ = _
  rw [Option.map_map]
  rfl

/-- **Each event stays within the budget**, and so does the callback it enters. -/
theorem Budgeted.enter (h : Budgeted cfg m log) (hlog : WithinBound cfg log)
    (htracked : Tracked m) (hdown : ClearedDown m) (hseq : Sequential m) {e : Event}
    (hok : restartsAlone.onEvent m e) {m' : Central} {io' : Pipeline} {p : Callback Unit}
    (henter : Entered cfg m io e m' io' p) :
    WithinBound cfg (discoveryScribe.onEvent m e log) ∧
      StaysWithin cfg p m' (discoveryScribe.onEvent m e log) := by
  have hconn {l : Link} (hl : m.link = some l) {n : ℕ} {q : Proc} (hq : m.procs[n]? = some q) :
      l.conn = log.conn := h.2 l hl (by rw [hseq.procs_eq hq]; exact List.cons_ne_nil _ _)
  cases henter with
  | advertise addr type ad =>
    refine ⟨hlog, ?_⟩
    by_cases hup : LinkUp m
    · -- the connection is held, and the advertiser is no target
      obtain ⟨l, hl, -⟩ := hup
      have hheld : m.defaultConn = some l.conn := by
        rw [← htracked.link_eq, hl, Option.map_some]
      apply staysWithin_of_safe hlog
      rw [deviceFound, safe_bind, safe_look, safe_ite]
      refine ⟨fun htarget => ?_, fun _ => h⟩
      exact absurd (hheld.symm.trans htarget.1) (Option.some_ne_none _)
    · exact staysWithin_of_cleared hlog (hdown hup)
        (keeps_deviceFound (J := clearedly) clearedly_offScan addr type ad)
  | scanRetry =>
    have hretry : Budgeted cfg { m with retryPending := false } log := h
    refine ⟨hlog, hretry.staysWithin hlog (.bind keeps_look fun _ => .ite ?_ (keeps_pure ()))⟩
    exact keeps_startScan (fun _ _ _ hm => hm) fun _ _ hm => hm
  | @connected err l hl hlup =>
    have hcleared : Cleared m := by
      apply hdown
      rintro ⟨l', hl', hup⟩
      cases hl.symm.trans hl'
      exact hlup hup
    refine ⟨hlog, staysWithin_of_cleared hlog ?_
      (keeps_connected (J := clearedly) clearedly_offScan err)⟩
    exact hcleared
  | @securityChanged level err l hl hlup =>
    have hlink : Budgeted cfg { m with
        link := some { l with
          securing := false
          secured := l.secured || reportsSecured level err } } log := by
      refine h.congr (by rfl) (by rfl) (by rfl) (by rfl) ?_
      rw [hl]
      rfl
    by_cases hsecured : reportsSecured level err
    · have hnil : m.procs = [] := by simpa [restartsAlone, hsecured] using hok
      have hwritten : discoveryScribe.onEvent m (.securityChanged level err) log =
          ⟨l.conn, 0⟩ := by
        have hup : upLink m = some l := Option.filter_eq_some_iff.mpr ⟨hl, hlup⟩
        simp only [discoveryScribe, if_pos hsecured, hup, Option.map_some, Option.getD_some]
      have hzero : WithinBound cfg ⟨l.conn, 0⟩ := Nat.zero_le _
      rw [hwritten, securityChanged, if_neg (reportsSecured_iff.mp hsecured)]
      have hends : EndsWithin cfg restartsAlone (cfg.table l.conn) startDiscovery
          (wholeEffort (cfg.table l.conn)) { m with
            link := some { l with
              securing := false
              secured := l.secured || reportsSecured level err } } :=
        endsWithin_startDiscovery hnil h.1.2.1
      have hleaves : Leaves cfg restartsAlone linkPart startDiscovery :=
        leaves_startDiscovery linkPart_eq
      refine ⟨hzero, staysWithin_of_safe hzero ((hends.and hleaves.safe).mono ?_)⟩
      rintro _ m'' ⟨⟨hless, hcount, haimed⟩, hpart⟩
      refine ⟨⟨?_, hcount, haimed⟩, fun l' hl' _ => ?_⟩
      · rw [Nat.zero_add]
        exact hless
      · have hsame : m''.link = some { l with
            securing := false
            secured := l.secured || reportsSecured level err } := congrArg (·.2.1) hpart
        cases hsame.symm.trans hl'
        rfl
    · have hwritten : discoveryScribe.onEvent m (.securityChanged level err) log = log := by
        simp only [discoveryScribe, if_neg hsecured]
      rw [hwritten, securityChanged, if_pos (not_not.mp (mt reportsSecured_iff.mpr hsecured))]
      exact ⟨hlog, staysWithin_securityFailed hlink hlog _⟩
  | @disconnected l hl =>
    have hheld : m.defaultConn = some l.conn := by rw [← htracked.link_eq, hl, Option.map_some]
    have hcleared : (disconnected cfg l.conn).Safe (central cfg) restartsAlone (fun _ _ => True)
        (fun _ => Cleared) { m with link := none, procs := [], subscribed := [] } :=
      cleared_disconnected hheld rfl rfl
    exact ⟨hlog, staysWithin_of_safe hlog (hcleared.mono fun _ _ => budgeted_of_cleared hlog)⟩
  | @discovered n l hl hlup q hq a ha =>
    obtain ⟨hnil, hnames⟩ := hseq.take hq
    refine h.spend hseq hq rfl (leaves_deliver (eq_of_offMap linkPart_eq) q a) ?_
    exact spends_deliver hnil h.1.2.1 h.1.2.2 hnames (hconn hl hq ▸ ha)
  | discoverDone n hl hlup hq =>
    obtain ⟨hnil, hnames⟩ := hseq.take hq
    refine h.spend hseq hq rfl (leaves_finishDiscover linkPart_eq_of_offCursor) ?_
    exact spends_finishDiscover hnil h.1.2.1 h.1.2.2 hnames
  | @readMap n err data l hl hlup handle received hq =>
    have hnil : (noteMapRead l.conn received err data (takeProc n m)).procs = [] :=
      (hseq.take hq).1
    have hleaves : Leaves cfg restartsAlone linkPart (respondMap cfg handle received err data) :=
      leaves_respondMap linkPart_eq handle received err data
    by_cases hend : err ∨ data = []
    · have hspends : spendsOne m (.readResponse n err data) = true := by
        rcases hend with rfl | rfl <;> simp [spendsOne]
      simp only [discoveryScribe, if_pos hspends]
      refine h.spend hseq hq rfl hleaves ?_
      exact spends_respondMap hnil handle received err hend
    · push Not at hend
      have hspends : ¬ spendsOne m (.readResponse n err data) := by
        simp [spendsOne, hend.1, hend.2, hq, Proc.isMap]
      simp only [discoveryScribe, if_neg hspends]
      refine h.chunk hseq hq rfl hleaves ?_
      obtain rfl : err = false := Bool.eq_false_of_not_eq_true hend.1
      exact endsWithin_respondMap_chunk hnil h.1.2.1 h.1.2.2 handle received hend.2
  | @readRef n err data l hl hlup handle hq =>
    obtain ⟨hnil, hnames⟩ := hseq.take hq
    have hspends : spendsOne m (.readResponse n err data) = true := by
      simp [spendsOne, hq, Proc.isMap]
    have hstate : m.discState = .reportRef := hnames
    simp only [discoveryScribe, if_pos hspends]
    refine h.spend hseq hq rfl (leaves_respondRef linkPart_eq_of_offCursor err data) ?_
    exact spends_respondRef hnil h.1.2.1 (h.1.2.2 (by rw [hstate]; rfl)) handle err data
  | notified slot data =>
    exact ⟨hlog, h.staysWithin hlog ((keeps_emit _ _).mpr fun _ _ hm => hm)⟩
  | unsubscribed slot =>
    have herase : Budgeted cfg { m with subscribed := m.subscribed.erase slot } log := h
    exact ⟨hlog, herase.staysWithin hlog ((keeps_assign _).mpr fun _ _ hm => hm)⟩
  | timePasses ms =>
    have htime : Budgeted cfg { m with uptime := m.uptime + ms } log := h
    exact ⟨hlog, htime.staysWithin hlog (keeps_pure _)⟩
  | bonded bonds =>
    have hbonds : Budgeted cfg { m with bonds := bonds } log := h
    exact ⟨hlog, hbonds.staysWithin hlog (keeps_pure _)⟩

/-- **A discovery enters no more callbacks than the bound**, but for the chunks of the Report
Map, in a run where success of a security procedure is only reported while no procedure is
outstanding: whatever the peer and the stack answer, it comes to its end. -/
theorem callbacks_le {bonds : List Addr} {uptime : ℕ} {accepts : ℕ → Bool} {s : System}
    (h : (central cfg).LoggedUnder restartsAlone discoveryScribe (start bonds uptime accepts)
      .start s log) :
    log.callbacks ≤ 4 + reportChrcs (cfg.table log.conn) +
      3 * min maxReports (reportChrcs (cfg.table log.conn)) := by
  have hstart : WithinBound cfg .start := Nat.zero_le _
  have hinv := Machine.logged_invariant (J := WithinBound cfg) (I := Budgeted cfg)
    (K := fun m => Tracked m ∧ ClearedDown m ∧ Sequential m)
    ⟨hstart, staysWithin_of_cleared (m := .start bonds uptime) hstart rfl
      (keeps_startScan_offScan clearedly_offScan)⟩
    (fun s hs hidle => ?_) (fun e m io m' io' p log hK hI hJ hok henter => ?_) h
  · have hwithin : log.callbacks ≤ wholeEffort (cfg.table log.conn) := hinv.1
    unfold wholeEffort passEffort at hwithin
    omega
  · have hreach : Reachable cfg restartsAlone s := ⟨bonds, uptime, accepts, hs⟩
    exact ⟨tracked_of_reachable hreach hidle, cleared_of_reachable hreach hidle,
      sequential_of_reachable hreach⟩
  · obtain ⟨htracked, hdown, hseq⟩ := hK
    exact hI.enter hJ htracked hdown hseq hok (entered_of_enter henter)

/-- A peer with one report takes the eight callbacks that the bound allows. -/
theorem subscribeRun_callbacks :
    ∃ s log, (central (.plain (reportTable [4]))).LoggedUnder restartsAlone discoveryScribe
        (start [] 0 fun _ => true) .start s log ∧
      log.callbacks = 8 ∧ s.main.procs = [] ∧ s.main.subscribed = [0] ∧
      reportChrcs (reportTable [4]) = 1 ∧
      log.callbacks ≤ 4 + reportChrcs (reportTable [4]) +
        3 * min maxReports (reportChrcs (reportTable [4])) := by
  have hmeets : Along ((central (.plain (reportTable [4]))).loggedStep discoveryScribe)
      (fun s a => Machine.meets restartsAlone s.1 a) (subscribeRun 1 1)
      (start [] 0 fun _ => true, .start) := by decide +kernel
  have hruns : (run ((central (.plain (reportTable [4]))).loggedStep discoveryScribe)
      (subscribeRun 1 1) (start [] 0 fun _ => true, .start)).map (fun s => decide (
        s.2.callbacks = 8 ∧ s.1.main.procs = [] ∧ s.1.main.subscribed = [0])) =
      some true := by decide +kernel
  obtain ⟨⟨s, log⟩, hrun, heq⟩ := Option.map_eq_some_iff.mp hruns
  obtain ⟨hcallbacks, hprocs, hsubscribed⟩ := of_decide_eq_true heq
  have hlogged : (central (.plain (reportTable [4]))).LoggedUnder restartsAlone discoveryScribe
      (start [] 0 fun _ => true) .start s log := Reaches.refl.of_run hmeets hrun
  exact ⟨s, log, hlogged, hcallbacks, hprocs, hsubscribed, by decide, callbacks_le hlogged⟩

end BleHidHost
