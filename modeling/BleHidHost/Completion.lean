import BleHidHost.Isolation
import BleHidHost.WiringRun

/-!
# The wiring is completed

A failure at one report does not cost the others, but for one: where the search for a CCC
is refused the loop ends, and the reports behind it are never wired.

## Main definitions

* `WiringInv` — what holds of the wiring between two callbacks.

## Main results

* `wiringInv_of_loggedReachable` — **the stages of a run.**
* `inTurn_of_cccAccepted` — where no search for a CCC is refused every report gets its turn.
* `refused_ccc_strands` — the refusal of one search leaves the report behind it unwired.
-/

namespace BleHidHost

open Lib Lib.Prog

variable {cfg : Setup} {P : Condition} {m : Central} {log : WiringLog}

/-- The same, of a cursor. -/
def Cursor.tearDown (c : Cursor) (slot : ℕ) : Cursor := { c with tally := c.tally.tearDown slot }

/-- A subscription that ends leaves the stage as it is. -/
theorem Wired.tearDown {table : List Attr} {c : Cursor} (h : Wired P table c log) (slot : ℕ) :
    Wired P table (c.tearDown slot) { log with tornDown := true } := by
  have hrest (hr : log.collected = true → Rest P table c.tally log)
      (hcol : log.collected = true) :
      Rest P table (c.tally.tearDown slot) { log with tornDown := true } := by
    rcases hr hcol with ⟨k, hprog, hend⟩
    exact ⟨k, hprog.tearDown slot, hend⟩
  have hcur (hc : Current table c log) :
      Current table (c.tearDown slot) { log with tornDown := true } :=
    ⟨hc.ends, hc.lt, hc.progress.tearDown slot⟩
  have hstage := h.stage
  refine ⟨h.lengths.tearDown slot, h.fresh, ?_⟩
  cases hs : c.discState with
  | idle => exact (stage_idle (c := c.tearDown slot) hs).mpr (hrest ((stage_idle hs).mp hstage))
  | hidsPrimary =>
    rcases (stage_hidsPrimary hs).mp hstage with ⟨hprocs, hr⟩
    exact (stage_hidsPrimary (c := c.tearDown slot) hs).mpr ⟨hprocs, hrest hr⟩
  | reportMapChrc =>
    rcases (stage_reportMapChrc hs).mp hstage with ⟨hend, hr⟩
    exact (stage_reportMapChrc (c := c.tearDown slot) hs).mpr ⟨hend, hrest hr⟩
  | reportChrc =>
    rcases (stage_reportChrc hs).mp hstage with ⟨hend, q, hprocs, hc⟩
    exact (stage_reportChrc (c := c.tearDown slot) hs).mpr ⟨hend, q, hprocs,
      hc.lengths.tearDown slot, hc.count_le, hc.idx_eq, hc.subCount_eq, hc.fills, hc.visited,
      hc.found, hc.matched, hc.fresh⟩
  | reportRef =>
    rcases (stage_reportRef hs).mp hstage with ⟨hc, hprocs⟩
    exact (stage_reportRef (c := c.tearDown slot) hs).mpr ⟨hcur hc, hprocs⟩
  | ccc =>
    rcases (stage_ccc hs).mp hstage with ⟨hc, hid, hprocs⟩
    exact (stage_ccc (c := c.tearDown slot) hs).mpr ⟨hcur hc, hid.mono fun _ hr => hr, hprocs⟩

/-! ### Between two callbacks -/

/-- Nothing is collected, and nothing is subscribed. -/
structure Unwired (c : Cursor) (log : WiringLog) : Prop where
  lengths : Lengths c.tally
  subCount_eq : c.tally.subCount = 0
  idle : c.discState = .idle
  blank : log.collected = false

/-- Then there is nothing to say of the stage. -/
theorem Unwired.wired {c : Cursor} (h : Unwired c log) (table : List Attr) :
    Wired P table c log where
  lengths := h.lengths
  fresh _ := h.subCount_eq
  stage := (stage_idle h.idle).mpr fun hcol => absurd (h.blank.symm.trans hcol) (by decide)

/-- On a link that is up the wiring follows its peer's table, and else nothing is wired. -/
structure WiringInv (cfg : Setup) (P : Condition) (m : Central) (log : WiringLog) : Prop where
  up : ∀ l, m.link = some l → l.up → Wired P (cfg.table l.conn) (cursor m) log
  down : (∀ l, m.link = some l → ¬ l.up) → Unwired (cursor m) log

/-- A callback restores the invariant. -/
abbrev Restores (cfg : Setup) (P : Condition) (p : Callback Unit) (m : Central)
    (log : WiringLog) : Prop :=
  p.Logged (central cfg) P wiringScribe InBounds (fun _ => WiringInv cfg P) m log

/-- The invariant speaks of the link and of the cursor. -/
theorem WiringInv.congr {m' : Central} (h : WiringInv cfg P m log) (hlink : m'.link = m.link)
    (hcursor : cursor m' = cursor m) : WiringInv cfg P m' log where
  up := by
    rw [hlink, hcursor]
    exact h.up
  down := by
    rw [hlink, hcursor]
    exact h.down

/-- The arrays have their sizes, on a link or not. -/
theorem WiringInv.lengths (h : WiringInv cfg P m log) : Lengths (tally m) := by
  by_cases hup : ∃ l, m.link = some l ∧ l.up
  · rcases hup with ⟨l, hl, hup⟩
    exact (h.up l hl hup).lengths
  · exact (h.down fun l hl hu => hup ⟨l, hl, hu⟩).lengths

/-- Without a link that is up. -/
theorem WiringInv.of_unwired (hdown : ∀ l, m.link = some l → ¬ l.up)
    (h : Unwired (cursor m) log) : WiringInv cfg P m log where
  up l hl hup := absurd hup (hdown l hl)
  down _ := h

/-- On a link that is up. -/
theorem WiringInv.of_wired {l : Link} (hl : m.link = some l) (hup : l.up)
    (h : Wired P (cfg.table l.conn) (cursor m) log) : WiringInv cfg P m log where
  up l' hl' _ := by
    cases hl.symm.trans hl'
    exact h
  down hdown := absurd hup (hdown l hl)

/-- A callback of the wiring leaves the link alone. -/
theorem restores_of_wires {p : Callback Unit} {l : Link}
    (h : Wires cfg P (cfg.table l.conn) p m log) (hp : Leaves cfg P linkPart p)
    (hl : m.link = some l) (hup : l.up) : Restores cfg P p m log := by
  refine (h.and_safe hp.safe).mono ?_
  rintro _ m' log' ⟨hwired, hlink⟩
  have hl' : m'.link = some l := (congrArg (fun x => x.2.1) hlink).trans hl
  exact .of_wired hl' hup hwired

/-! ### Callbacks of the connection -/

theorem WiringInv.restores_startScan (h : WiringInv cfg P m log) (hJ : InBounds log) :
    Restores cfg P startScan m log := by
  rw [Restores, startScan, logged_bind, logged_ask, central_answer]
  intro err m' _ hans
  have hm' : m'.link = m.link ∧ cursor m' = cursor m := by
    cases err with
    | success | failure =>
      cases hans
      exact ⟨rfl, rfl⟩
    | already =>
      rcases Option.ite_none_right_eq_some.mp hans with ⟨-, heq⟩
      cases heq
      exact ⟨rfl, rfl⟩
  have hnext : WiringInv cfg P m' log := h.congr hm'.1 hm'.2
  refine ⟨hJ, ?_⟩
  simp only [logged_ite, logged_pure, logged_assign]
  exact ⟨fun _ => hnext, fun _ => ⟨fun _ => hnext.congr rfl rfl, fun _ => hnext⟩⟩

theorem WiringInv.restores_scanRetryHandler (h : WiringInv cfg P m log) (hJ : InBounds log) :
    Restores cfg P scanRetryHandler m log := by
  rw [Restores, scanRetryHandler, logged_bind, logged_look, logged_ite]
  exact ⟨fun _ => h.restores_startScan hJ, fun _ => h⟩

/-- A connection is created while nothing is wired. -/
theorem WiringInv.restores_deviceFound (h : WiringInv cfg P m log) (htracked : Tracked m)
    (hJ : InBounds log) (addr : Addr) (type : AdvType) (ad : List BtData) :
    Restores cfg P (deviceFound cfg addr type ad) m log := by
  rw [Restores, deviceFound, logged_bind, logged_look, logged_ite]
  refine ⟨?_, fun _ => h⟩
  intro htarget
  have hlink : m.link = none := (htracked.unconnected htarget.1).link_eq
  have hunwired : Unwired (cursor m) log :=
    h.down fun l hl => absurd (hlink.symm.trans hl) (by simp)
  rw [connectTo, logged_bind, logged_ask, central_answer]
  intro err m' _ hans
  have hm' : m'.link = m.link ∧ cursor m' = cursor m := by
    cases err <;> cases hans <;> exact ⟨rfl, rfl⟩
  have hnext : WiringInv cfg P m' log := h.congr hm'.1 hm'.2
  refine ⟨hJ, ?_⟩
  rw [logged_ite, logged_pure]
  refine ⟨fun _ => hnext, fun _ => logged_askOr (by simp) (by simp) hJ ?_ fun _ _ _ =>
    hnext.restores_startScan hJ⟩
  -- the new link is not up
  refine .of_unwired (fun l hl => ?_) ?_
  · cases hl
    exact Bool.false_ne_true
  · show Unwired (cursor m') log
    rw [hm'.2]
    exact hunwired

/-- The link comes up, or is given up, while nothing is wired. -/
theorem WiringInv.restores_connected (h : WiringInv cfg P m log) {l : Link} (hl : m.link = some l)
    (hup : ¬ l.up) (hJ : InBounds log) (err : Bool) : Restores cfg P (connected err)
      { m with link := if err then none else some { l with up := true } } log := by
  have hunwired : Unwired (cursor m) log := h.down fun l' hl' => by
    cases hl.symm.trans hl'
    exact hup
  rw [Restores, connected, logged_ite]
  constructor
  · intro herr
    rw [if_pos herr]
    simp only [unrefDefaultConn, logged_bind, logged_assign]
    have hnone : WiringInv cfg P { m with
        link := none
        unrefs := m.unrefs ++ m.defaultConn.toList
        defaultConn := none } log :=
      .of_unwired (fun l' hl' => by cases hl') hunwired
    exact hnone.restores_startScan hJ
  · intro herr
    rw [if_neg herr]
    refine logged_askOr (by simp) (by simp) hJ ?_ fun _ _ _ => ?_
    · exact .of_wired (l := { l with up := true, securing := true }) rfl rfl (hunwired.wired _)
    · exact .of_wired (l := { l with up := true }) rfl rfl (hunwired.wired _)

/-- Where no procedure is outstanding no report is being collected or wired. -/
theorem Wired.isResting {table : List Attr} (h : Wired P table (cursor m) log)
    (hnil : m.procs = []) : m.discState.isResting := by
  have hstage := h.stage
  cases hs : m.discState with
  | reportChrc =>
    rcases (stage_reportChrc (c := cursor m) hs).mp hstage with ⟨-, q, hprocs, -⟩
    exact absurd (hnil.symm.trans hprocs) (by simp)
  | reportRef =>
    rcases (stage_reportRef (c := cursor m) hs).mp hstage with ⟨-, ⟨hprocs, -⟩ | ⟨d, -, hprocs⟩⟩
    · exact absurd (hnil.symm.trans hprocs) (by simp)
    · exact absurd (hnil.symm.trans hprocs) (by simp)
  | ccc =>
    rcases (stage_ccc (c := cursor m) hs).mp hstage with ⟨-, -, hprocs⟩
    exact absurd (hnil.symm.trans hprocs) (by simp)
  | _ => rfl

/-- A discovery begins where no procedure is outstanding. -/
theorem WiringInv.restores_securityChanged (h : WiringInv cfg P m log) {l : Link}
    (hl : m.link = some l) (hup : l.up) (hJ : InBounds log) (level : ℕ) (err : Bool)
    (halone : restartsAlone.onEvent m (.securityChanged level err)) :
    Restores cfg P (securityChanged l.peer level err)
      { m with
        link := some { l with
          securing := false
          secured := l.secured || reportsSecured level err } } log := by
  have hwired := h.up l hl hup
  have hnext : WiringInv cfg P { m with
      link := some { l with
        securing := false
        secured := l.secured || reportsSecured level err } } log :=
    .of_wired rfl hup hwired
  rw [Restores, securityChanged, logged_ite]
  constructor
  · intro _
    rw [securityFailed, logged_bind, logged_assign]
    refine logged_askOr (by simp) (by simp) hJ ?_ fun _ _ _ => hnext.congr rfl rfl
    exact .of_wired (l := { l with
      securing := false
      secured := l.secured || reportsSecured level err
      disconnecting := true }) rfl hup hwired
  · intro hsecured
    -- the condition: no procedure is outstanding here
    have hreports : reportsSecured level err = true := reportsSecured_iff.mpr hsecured
    have hnil : m.procs = [] := by simpa [restartsAlone, hreports] using halone
    have hrest := hwired.stage.rest (hwired.isResting hnil)
    refine restores_of_wires (l := { l with
      securing := false
      secured := l.secured || reportsSecured level err }) ?_ (leaves_startDiscovery linkPart_eq) rfl
      hup
    exact wires_startDiscovery (m := { m with
      link := some { l with
        securing := false
        secured := l.secured || reportsSecured level err } }) hwired hrest hnil hJ

/-- A disconnect leaves nothing wired. -/
theorem WiringInv.restores_disconnected (h : WiringInv cfg P m log) (htracked : Tracked m)
    {l : Link} (hl : m.link = some l) (hJ : InBounds log) :
    Restores cfg P (disconnected cfg l.conn)
      { m with link := none, procs := [], subscribed := [] } log.restart := by
  have hconn : m.defaultConn = some l.conn := by rw [← htracked.link_eq, hl, Option.map_some]
  have hlen := h.lengths
  rw [Restores, disconnected, logged_bind, logged_look, logged_ite]
  refine ⟨fun hne => absurd hconn hne, ?_⟩
  intro _
  simp only [unrefDefaultConn, invalidateLayout, logged_bind, logged_assign, logged_emit]
  refine WiringInv.restores_startScan (.of_unwired (fun l' hl' => by cases hl') ?_) hJ
  exact ⟨⟨hlen.pending, hlen.subs⟩, rfl, rfl, rfl⟩

/-! ### Runs -/

/-- What is written at an event keeps the reads in bounds. -/
theorem WiringInv.inBounds_noteEvent (h : WiringInv cfg P m log) (hJ : InBounds log) (e : Event) :
    InBounds (noteEvent m e log) := by
  by_cases hup : ∃ l, m.link = some l ∧ l.up
  · rcases hup with ⟨l, hl, hup⟩
    exact (h.up l hl hup).inBounds_noteEvent hJ e
  · have hunwired := h.down fun l hl hu => hup ⟨l, hl, hu⟩
    exact (hunwired.wired (P := P) []).inBounds_noteEvent hJ e

/-- **Each event is survived.** -/
theorem WiringInv.restores_enter (h : WiringInv cfg P m log) (hseq : Sequential m)
    (htracked : Tracked m) (horder : ∀ conn, InHandleOrder (cfg.table conn)) (hJ : InBounds log)
    {e : Event} {m' : Central} {io io' : Pipeline} {p : Callback Unit}
    (halone : restartsAlone.onEvent m e) (hwhole : (collectsWhole cfg).onEvent m e)
    (henter : Entered cfg m io e m' io' p) : Restores cfg P p m' (noteEvent m e log) := by
  cases henter with
  | advertise addr type ad => exact h.restores_deviceFound htracked hJ addr type ad
  | scanRetry =>
    have hretry : WiringInv cfg P { m with retryPending := false } log := h.congr rfl rfl
    exact hretry.restores_scanRetryHandler hJ
  | connected err hl hup => exact h.restores_connected hl hup hJ err
  | securityChanged level err hl hup => exact h.restores_securityChanged hl hup hJ level err halone
  | disconnected hl => exact h.restores_disconnected htracked hl hJ
  | @discovered n l hl hup q hq a ha =>
    rcases hseq.take hq with ⟨hnil, -⟩
    exact restores_of_wires ((h.up l hl hup).wires_deliver (horder l.conn) hJ hq hnil ha)
      (leaves_deliver (eq_of_offMap linkPart_eq) q a) hl hup
  | @discoverDone n l hl hup q hq =>
    rcases hseq.take hq with ⟨hnil, -⟩
    -- the condition: the pass over the reports has delivered them all
    have hended : m.discState = .reportChrc → q.next (cfg.table l.conn) = none := by
      intro hs
      have hend := of_decide_eq_true hwhole hs
      rw [passEnded, hl, hq] at hend
      exact Option.isNone_iff_eq_none.mp hend
    exact restores_of_wires ((h.up l hl hup).wires_finishDiscover hJ hq hnil hended)
      (leaves_finishDiscover linkPart_eq_of_offCursor) hl hup
  | @readMap n err data l hl hup handle received hq =>
    rcases hseq.take hq with ⟨hnil, hnames⟩
    have hs : m.discState = .reportMapChrc := hnames
    have hwired := (h.up l hl hup).take hnil (by rw [hs]; rfl)
    rcases (stage_reportMapChrc (c := cursor m) hs).mp (h.up l hl hup).stage with ⟨hend, hrest⟩
    have hnote : noteEvent m (.readResponse n err data) log = log := by
      simp only [noteEvent, hq]
      rfl
    rw [hnote]
    exact restores_of_wires (m := noteMapRead l.conn received err data (takeProc n m))
      (wires_respondMap (m := noteMapRead l.conn received err data (takeProc n m)) hwired hs hend
        hrest hnil hJ handle received err data)
      (leaves_respondMap linkPart_eq handle received err data) hl hup
  | @readRef n err data l hl hup handle hq =>
    rcases hseq.take hq with ⟨hnil, hnames⟩
    have hs : m.discState = .reportRef := hnames
    rcases (stage_reportRef (c := cursor m) hs).mp (h.up l hl hup).stage with
      ⟨hcur, ⟨hprocs, -⟩ | ⟨d, hd, hprocs⟩⟩
    · exact absurd (eq_of_singleton hprocs hq) (by simp)
    · have hnote : noteEvent m (.readResponse n err data) log =
          noteResponse (takeProc n m) err data log (.readRef d.handle) := by
        rw [← eq_of_singleton hprocs hq]
        simp only [noteEvent, hq]
        rfl
      rw [hnote]
      exact restores_of_wires (m := takeProc n m)
        (wires_respondRef (m := takeProc n m) ⟨hcur.ends, hcur.lt, hcur.progress⟩ hnil hd hJ err
          data) (leaves_respondRef linkPart_eq_of_offCursor err data) hl hup
  | notified slot data =>
    rw [Restores, notifyCb, logged_emit]
    exact h.congr rfl rfl
  | unsubscribed slot hslot =>
    rw [Restores, unsubscribed, logged_assign]
    constructor
    · intro l hl hup
      exact (h.up l hl hup).tearDown slot
    · intro hdown
      have hunwired := h.down hdown
      exact ⟨hunwired.lengths.tearDown slot, hunwired.subCount_eq, hunwired.idle, hunwired.blank⟩
  | timePasses => exact h.congr rfl rfl
  | bonded => exact h.congr rfl rfl

/-- In these runs discovery is sequential, and success of a security procedure is only
reported while no procedure is outstanding. -/
def Orderly (cfg : Setup) (P : Condition) : Prop :=
  ∀ s, Reachable cfg P s → s.Idle →
    Sequential s.main ∧ ∀ e, P.onEvent s.main e → restartsAlone.onEvent s.main e

theorem orderly_of_restartsAlone (h : P.Stricter restartsAlone) : Orderly cfg P := by
  rintro s ⟨bonds, uptime, accepts, hreach⟩ -
  exact ⟨sequential_of_reachable ⟨bonds, uptime, accepts, hreach.of_stricter h⟩,
    h.onEvent s.main⟩

/-- Where success is reported once per connection no procedure has begun before it. -/
theorem orderly_of_securedOnce (h : P.Stricter securedOnce) : Orderly cfg P := by
  rintro s ⟨bonds, uptime, accepts, hreach⟩ hidle
  have hsep : Separated s.main :=
    (separated_of_reachable ⟨bonds, uptime, accepts, hreach.of_stricter h⟩).2 hidle
  refine ⟨hsep.sequential, fun e he => ?_⟩
  have honce := h.onEvent s.main e he
  cases e with
  | securityChanged level err =>
    cases hreports : reportsSecured level err with
    | false => simp [restartsAlone, hreports]
    | true =>
      have hnil : s.main.procs = [] := hsep.fresh fun l hl => by
        simpa [securedOnce, hreports, hl] using honce
      simp [restartsAlone, hnil]
  | _ => rfl

/-- **The stages of a run** where the reports are collected to the end. -/
theorem wiringInv_of_loggedReachable {s : System}
    (horder : ∀ conn, InHandleOrder (cfg.table conn)) (horderly : Orderly cfg P)
    (hwhole : P.Stricter (collectsWhole cfg)) (h : LoggedReachable cfg P s log) :
    InBounds log ∧ (s.Idle → WiringInv cfg P s.main log) := by
  rcases h with ⟨bonds, uptime, accepts, hlogged⟩
  have hunwired : Unwired (cursor (Central.start bonds uptime)) .start :=
    ⟨⟨List.length_replicate, List.length_replicate⟩, rfl, rfl, rfl⟩
  have hstart : WiringInv cfg P (Central.start bonds uptime) .start :=
    .of_unwired (fun l hl => by cases hl) hunwired
  have hempty : InBounds .start := fun r hr => absurd hr List.not_mem_nil
  have hinv := Machine.logged_invariant (J := InBounds) (I := WiringInv cfg P)
    (K := fun m => (Sequential m ∧ ∀ e, P.onEvent m e → restartsAlone.onEvent m e) ∧ Tracked m)
    ⟨hempty, hstart.restores_startScan hempty⟩
    (fun t ht hidle => ?_) (fun e m io m' io' p l hK hI hJ hok henter => ?_) hlogged
  · refine ⟨hinv.1, fun hidle => ?_⟩
    have hend := hinv.2
    rw [hidle] at hend
    exact hend
  · have hreach : Reachable cfg P t := ⟨bonds, uptime, accepts, ht⟩
    exact ⟨horderly t hreach hidle, tracked_of_reachable hreach hidle⟩
  · rcases hK with ⟨⟨hseq, halone⟩, htracked⟩
    exact ⟨hI.inBounds_noteEvent hJ e,
      hI.restores_enter hseq htracked horder hJ (halone e hok) (hwhole.onEvent m e hok)
        (entered_of_enter henter)⟩

/-! ### Every report in its turn -/

/-- The reports of a table were wired in their turn. -/
structure InTurn (table : List Attr) (m : Central) (log : WiringLog) : Prop where
  /-- They are visited in handle order, -/
  visited : log.visited <+: reportHandles table
  /-- each once. -/
  increasing : log.visited.Pairwise (· < ·)
  /-- There was one attempt to subscribe for each whose CCC was found. -/
  attempted : log.attempted = log.found
  once : log.attempted.Nodup
  /-- No two subscriptions are for one report. -/
  distinct : log.tornDown = false →
    ((m.subs.take m.subCount).map HidSubscription.valueHandle).Nodup
  /-- The loop ends when none is left. -/
  complete : m.procs = [] → m.pendingIdx = m.pendingCount ∧ log.visited = reportHandles table

theorem Progress.inTurn {table : List Attr} {k : ℕ} (h : Progress table (tally m) log k)
    (htable : GattTable table) (hmax : (reportHandles table).length ≤ maxReports)
    (hcomplete : m.procs = [] → k = m.pendingCount ∧ m.pendingIdx = m.pendingCount) :
    InTurn table m log := by
  have hall : pendingOf table = reportHandles table := List.take_of_length_le hmax
  have hincr : (reportHandles table).Pairwise (· < ·) := reportHandles_pairwise htable
  have hnodup : (reportHandles table).Nodup := hincr.imp fun hlt heq => by
    rw [heq] at hlt
    exact absurd hlt (BitVec.lt_irrefl _)
  have hlen : (reportHandles table).length = m.pendingCount := by
    rw [← hall]
    exact h.length_eq
  have hvisited := h.visited
  have hfound := h.found
  rw [hall] at hvisited hfound
  refine ⟨?_, ?_, h.matched, ?_, fun hkept => ?_, fun hnil => ?_⟩
  · rw [hvisited]
    exact List.take_prefix k _
  · rw [hvisited]
    exact hincr.sublist (List.take_sublist k _)
  · rw [h.matched]
    exact hnodup.sublist (hfound.trans (List.take_sublist _ _))
  · have hsub := h.distinct hkept
    rw [hall] at hsub
    exact hnodup.sublist (hsub.trans (List.take_sublist _ _))
  · rcases hcomplete hnil with ⟨hk, hidx⟩
    refine ⟨hidx, ?_⟩
    rw [hvisited, hk, ← hlen, List.take_length]

/-- **A failure at one report never costs the others**, in a run where no search for a CCC
is refused: the reports of the table are visited in handle order, each once, and all of
them before the central rests; `pending_reports` is read below `pending_count` only; and
there is one attempt to subscribe for each report whose CCC was found. -/
theorem inTurn_of_cccAccepted {s : System} (htable : ∀ conn, GattTable (cfg.table conn))
    (hmax : ∀ conn, (reportHandles (cfg.table conn)).length ≤ maxReports)
    (h : LoggedReachable cfg ((securedOnce.inter (collectsWhole cfg)).inter cccAccepted) s log) :
    InBounds log ∧ ∀ l, s.Idle → s.main.link = some l → log.collected →
      InTurn (cfg.table l.conn) s.main log := by
  obtain ⟨hbounds, hinv⟩ := wiringInv_of_loggedReachable (fun conn => (htable conn).order)
    (orderly_of_securedOnce (.inter_left (.inter_left (.refl _))))
    (.inter_left (.inter_right (.refl _))) h
  refine ⟨hbounds, fun l hidle hl hcol => ?_⟩
  have hinv := hinv hidle
  have hup : l.up := by
    by_contra hdown
    have hunwired := hinv.down fun l' hl' => by
      cases hl.symm.trans hl'
      exact hdown
    exact absurd (hunwired.blank.symm.trans hcol) (by decide)
  have hwired := hinv.up l hl hup
  by_cases hrest : s.main.discState.isResting
  · rcases hwired.stage.rest hrest hcol with ⟨k, hprog, hend⟩
    exact hprog.inTurn (htable _) (hmax _) fun _ => hend (.inter_right (.refl _))
  · -- a report is being wired, so a procedure is outstanding
    have hbusy (hnil : s.main.procs = []) : False := hrest (hwired.isResting hnil)
    cases hs : s.main.discState with
    | reportChrc =>
      rcases (stage_reportChrc (c := cursor s.main) hs).mp hwired.stage with ⟨-, q, -, hcollect⟩
      exact absurd (hcollect.fresh.symm.trans hcol) (by decide)
    | reportRef =>
      have hcur := ((stage_reportRef (c := cursor s.main) hs).mp hwired.stage).1
      exact hcur.progress.inTurn (htable _) (hmax _) fun hnil => (hbusy hnil).elim
    | ccc =>
      have hcur := ((stage_ccc (c := cursor s.main) hs).mp hwired.stage).1
      exact hcur.progress.inTurn (htable _) (hmax _) fun hnil => (hbusy hnil).elim
    | _ =>
      rw [hs] at hrest
      exact absurd rfl hrest

/-! ### Two reports -/

/-- The reports of a peer with `n` are collected, and the Report Reference of the first is
looked for. -/
def collectRun (n : ℕ) : List (Action Errno Event) :=
  parseRun ++ (List.replicate n (.event (.discovered 0) :: ticks 3)).flatten ++
    [.event (.discoverDone 0)] ++ succeedsAfter 6

/-- The first of two reports has no Report Reference, and its subscription is refused; the
read of the second one's fails, and it is subscribed. -/
def failingRun : List (Action Errno Event) :=
  collectRun 2 ++ [.event (.discoverDone 0)] ++ succeedsAfter 3 ++ [.event (.discovered 0)] ++
    ticks 3 ++ [.answer .failure] ++ succeedsAfter 4 ++ [.event (.discovered 0)] ++
    succeedsAfter 1 ++ [.event (.readResponse 0 true [])] ++ succeedsAfter 3 ++
    [.event (.discovered 0)] ++ succeedsAfter 3 ++ ticks 4

/-- Both had their turn. -/
theorem failingRun_inTurn :
    ∃ s log, loggedAfter (.plain (reportTable [4, 8])) failingRun = some (s, log) ∧
      s.main.procs = [] ∧ s.main.subs.take s.main.subCount = [⟨9, 11, 0⟩] ∧
      InTurn (reportTable [4, 8]) s.main log := by
  have hmeets : LoggedMeeting (.plain (reportTable [4, 8]))
      ((securedOnce.inter (collectsWhole (.plain (reportTable [4, 8])))).inter cccAccepted)
      failingRun := by decide +kernel
  have hstate : (loggedAfter (.plain (reportTable [4, 8])) failingRun).map
      (fun x => (x.1.isIdle, x.1.main.link, x.1.main.procs,
        x.1.main.subs.take x.1.main.subCount, x.2.collected)) =
        some (true, some ⟨0, 7, true, false, false, true⟩, [], [⟨9, 11, 0⟩], true) := by
    decide +kernel
  have hgatt : GattTable (reportTable [4, 8]) := by decide
  have htable : ∀ conn, GattTable ((Setup.plain (reportTable [4, 8])).table conn) := fun _ => hgatt
  have hmax : ∀ conn, (reportHandles ((Setup.plain (reportTable [4, 8])).table conn)).length ≤
      maxReports := by
    intro _
    exact of_decide_eq_true rfl
  rcases Option.map_eq_some_iff.mp hstate with ⟨⟨s, log⟩, hs, heq⟩
  simp only [Prod.mk.injEq] at heq
  rcases heq with ⟨hidle, hlink, hprocs, hsubs, hcol⟩
  have hreach := loggedReachable_loggedAfter hmeets hs
  have hturn := (inTurn_of_cccAccepted htable hmax hreach).2 _
    (Configuration.isIdle_iff.mp hidle) hlink hcol
  exact ⟨s, log, hs, hprocs, hsubs, hturn⟩

/-- The search for the first report's CCC is refused. -/
def strandingRun : List (Action Errno Event) :=
  collectRun 2 ++ [.event (.discoverDone 0)] ++ ticks 3 ++ [.answer .failure] ++ ticks 1

/-- **The refusal of one search for a CCC leaves the report behind it unwired**: the central
rests on the link with one of two reports visited and none subscribed. -/
theorem refused_ccc_strands :
    GattTable (reportTable [4, 8]) ∧ reportHandles (reportTable [4, 8]) = [5, 9] ∧
      ∃ s log, loggedAfter (.plain (reportTable [4, 8])) strandingRun = some (s, log) ∧
        LoggedReachable (.plain (reportTable [4, 8]))
          (securedOnce.inter (collectsWhole (.plain (reportTable [4, 8])))) s log ∧
        s.Idle ∧ s.main.link.any Link.up ∧ log.collected ∧ s.main.procs = [] ∧
        log.visited = [5] ∧ s.main.pendingIdx = 0 ∧ s.main.pendingCount = 2 ∧
        s.main.subCount = 0 ∧ ¬ InTurn (reportTable [4, 8]) s.main log := by
  have hmeets : LoggedMeeting (.plain (reportTable [4, 8]))
      (securedOnce.inter (collectsWhole (.plain (reportTable [4, 8])))) strandingRun := by
    decide +kernel
  have hstate : (loggedAfter (.plain (reportTable [4, 8])) strandingRun).map
      (fun x => (x.1.isIdle && (x.1.main.link.any Link.up && x.2.collected), x.1.main.procs,
        x.2.visited, x.1.main.pendingIdx, x.1.main.pendingCount, x.1.main.subCount)) =
        some (true, [], [5], 0, 2, 0) := by decide +kernel
  rcases Option.map_eq_some_iff.mp hstate with ⟨⟨s, log⟩, hs, heq⟩
  simp only [Prod.mk.injEq, Bool.and_eq_true] at heq
  rcases heq with ⟨⟨hidle, hup, hcol⟩, hprocs, hvisited, hidx, hcount, hsub⟩
  refine ⟨by decide +kernel, by decide +kernel, s, log, hs, loggedReachable_loggedAfter hmeets hs,
    Configuration.isIdle_iff.mp hidle, hup, hcol, hprocs, hvisited, hidx, hcount, hsub, ?_⟩
  intro hturn
  have hend := (hturn.complete hprocs).1
  rw [hidx, hcount] at hend
  cases hend

end BleHidHost
