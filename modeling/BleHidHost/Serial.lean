import BleHidHost.Labels
import BleHidHost.Lib.Reduction

/-!
# The handler cuts into nothing

The Bluetooth callbacks and the work handler run on two threads, and the handler may take
its turn between any two actions of a callback: while the parser writes the layout, while
`disconnected` clears what it relies on, while a subscription is counted.  What is reached
so between two callbacks is reached as well by a run in which the handler never cuts in.

Each callback has one action at which it takes effect, and the handler's turns are moved
in front of the callback or behind it.  `disconnected` has two, and in between, turns may
drop reports that the purge would drop later.

## Main definitions

* `handlerView` — what the handler reads of the central.
* `AtomicCallback` — turns can be moved out of the callback.
* `SeriallyReachable` — the states that runs reach in which the handler never cuts in.

## Main results

* `Resting.atomicCallback` — **every event enters an atomic callback.**
* `seriallyReachable_iff` — **what is reached between two callbacks is reached without
  the handler cutting in.**
-/

namespace BleHidHost

open Lib Lib.Prog

variable {cfg : Setup} {P : Condition} {m m' : Central} {io io' : Pipeline}

/-! ### What the handler reads -/

/-- What the handler reads of the central. -/
def handlerView (m : Central) : Bool × ReportLayout × ℕ := (m.layoutValid, m.layout, m.subCount)

/-- The handler does the same where it reads the same. -/
theorem reportWorkTurn_congr (cfg : Setup) (h : handlerView m' = handlerView m) :
    reportWorkTurn cfg m' = reportWorkTurn cfg m := by
  simp only [handlerView, Prod.mk.injEq] at h
  obtain ⟨hvalid, hlayout, hcount⟩ := h
  have hdecode : handlerDecode m' = handlerDecode m := by
    funext evt
    have hiff : isPointerReport m' evt ↔ isPointerReport m evt := by
      simp only [isPointerReport, hvalid, hlayout, hcount]
    rw [handlerDecode, handlerDecode, hlayout]
    exact if_congr hiff rfl rfl
  funext io
  simp only [reportWorkTurn, publishReport, hdecode, hvalid, hlayout]

/-- Where no report counts, a turn takes one from the queue. -/
theorem reportWorkTurn_of_none (h : ∀ q ∈ io.queue, handlerDecode m q.2 = none) :
    reportWorkTurn cfg m io = { io with queue := io.queue.tail } := by
  cases hqueue : io.queue with
  | nil =>
    rw [reportWorkTurn_nil hqueue, List.tail_nil, ← hqueue]
  | cons q rest =>
    obtain ⟨conn, evt⟩ := q
    rw [reportWorkTurn_none hqueue (h (conn, evt) (by rw [hqueue]; exact List.mem_cons_self)),
      List.tail_cons]

/-- No report counts while the layout is not valid. -/
theorem handlerDecode_of_invalid (hinvalid : ¬ m.layoutValid) (evt : ReportEvt) :
    handlerDecode m evt = none :=
  if_neg fun h => hinvalid h.1

theorem reportWorkTurn_of_invalid (hinvalid : ¬ m.layoutValid) (io : Pipeline) :
    reportWorkTurn cfg m io = { io with queue := io.queue.tail } :=
  reportWorkTurn_of_none fun q _ => handlerDecode_of_invalid hinvalid q.2

/-- The handler does the same where it decodes the same of what is queued. -/
theorem reportWorkTurn_eq_of_decode (hvalid : m'.layoutValid = m.layoutValid)
    (hlayout : m'.layout = m.layout)
    (h : ∀ q ∈ io.queue, handlerDecode m' q.2 = handlerDecode m q.2) :
    reportWorkTurn cfg m' io = reportWorkTurn cfg m io := by
  cases hqueue : io.queue with
  | nil => rw [reportWorkTurn_nil hqueue, reportWorkTurn_nil hqueue]
  | cons q rest =>
    have hq : handlerDecode m' q.2 = handlerDecode m q.2 :=
      h q (by rw [hqueue]; exact List.mem_cons_self)
    simp only [reportWorkTurn, publishReport, hqueue, hq, hvalid, hlayout]

/-! ### Callbacks that the handler does not notice -/

/-- The pipelines differ in nothing but the queue. -/
def SameButQueue (io io' : Pipeline) : Prop := { io with queue := [] } = { io' with queue := [] }

/-- An action that the handler does not notice. -/
theorem swaps_of_view {J : Central → Pipeline → Prop} (hview : handlerView m' = handlerView m)
    (hJ : ∀ io, J m io → J m' io) : Swaps (central cfg) J m m' id := by
  intro io h
  refine ⟨hJ io h, ?_⟩
  rw [central_work, reportWorkTurn_congr cfg hview]
  rfl

/-- The program does not touch what the handler reads. -/
abbrev Unnoticed {α : Type} (cfg : Setup) (P : Condition) (p : Callback α) : Prop :=
  Leaves cfg P handlerView p

/-- A search goes unnoticed. -/
theorem Searches.unnoticed {α : Type} {p : Callback α} (h : Searches cfg P p) :
    Unnoticed cfg P p :=
  Leaves.comp h handlerView

/-- So does what changes the connection and the scanner only. -/
theorem unnoticed_of_offScan {c : Bool × ReportLayout × ℕ} {d : Pipeline} {m m' : Central}
    {io : Pipeline} (heq : offScan m' = offScan m) (h : handlerView m = c ∧ io = d) :
    handlerView m' = c ∧ io = d := by
  refine ⟨Eq.trans ?_ h.1, h.2⟩
  show handlerView (offScan m') = handlerView (offScan m)
  rw [heq]

theorem unnoticed_startScan : Unnoticed cfg P startScan :=
  fun _ _ => keeps_startScan_offScan unnoticed_of_offScan

/-- Turns commute with a program that they do not notice. -/
theorem Unnoticed.commutes {α : Type} {p : Callback α} (h : Unnoticed cfg P p)
    {S : Bool × ReportLayout × ℕ → Pipeline → Prop} :
    p.Commutes (central cfg) P (fun m io => S (handlerView m) io) (fun _ _ => True) m :=
  Keeps.commutes h (fun _ _ heq => reportWorkTurn_congr cfg heq)
    (Safe.mono (Leaves.safe h) fun _ _ _ => trivial)

/-! ### Atomic callbacks -/

/-- Turns commute with the program, whatever the pipeline. -/
abbrev CommutesFreely {α : Type} (cfg : Setup) (P : Condition) (p : Callback α) (m : Central) :
    Prop :=
  p.Commutes (central cfg) P (fun _ _ => True) (fun _ _ => True) m

/-- The program takes effect at one action, whatever the pipeline. -/
abbrev AtomicFreely {α : Type} (cfg : Setup) (P : Condition) (p : Callback α) (m : Central) :
    Prop :=
  p.Atomic (central cfg) P (fun _ _ => True) SameButQueue (fun _ _ => True) (fun _ _ => True) m

theorem Unnoticed.freely {α : Type} {p : Callback α} (h : Unnoticed cfg P p) :
    CommutesFreely cfg P p m :=
  Unnoticed.commutes h (S := fun _ _ => True)

theorem Unnoticed.atomic {α : Type} {p : Callback α} (h : Unnoticed cfg P p) :
    AtomicFreely cfg P p m :=
  (Unnoticed.freely h).atomic

theorem swaps_freely (h : handlerView m' = handlerView m) :
    Swaps (central cfg) (fun _ _ => True) m m' id :=
  swaps_of_view h fun _ _ => trivial

/-- An atomic program before one that goes unnoticed. -/
theorem AtomicFreely.bind_unnoticed {α β : Type} {p : Callback α} {q : α → Callback β}
    (hp : AtomicFreely cfg P p m) (hq : ∀ a, Unnoticed cfg P (q a)) :
    AtomicFreely cfg P (p >>= q) m :=
  .bind (hp.mono (fun a _ _ => (hq a).atomic) fun a _ _ => (hq a).freely)

/-- The discovery of the reports takes effect where no slot is counted any more. -/
theorem atomic_startReportDiscovery : AtomicFreely cfg P startReportDiscovery m := by
  rw [startReportDiscovery]
  refine atomic_swap (swaps_freely rfl) (atomic_commit (fun _ _ => trivial) ?_)
  exact (Searches.unnoticed <| .bind (.assign fun _ => rfl) fun _ =>
    searches_discoverOr searches_discIdle).freely

/-- Where no slot is counted, it has no effect. -/
theorem commutes_startReportDiscovery (hzero : m.subCount = 0) :
    CommutesFreely cfg P startReportDiscovery m := by
  rw [startReportDiscovery, CommutesFreely, commutes_bind, commutes_assign]
  refine ⟨swaps_freely rfl, ?_⟩
  rw [commutes_bind, commutes_assign]
  refine ⟨swaps_freely ?_, ?_⟩
  · rw [handlerView, handlerView, hzero]
  · exact (Searches.unnoticed <| .bind (.assign fun _ => rfl) fun _ =>
      searches_discoverOr searches_discIdle).freely

/-- A call changes nothing that the handler reads. -/
theorem handlerView_answer {c : Request} {err : Errno} (h : answer c err m = some m') :
    handlerView m' = handlerView m := by
  cases c with
  | leScanStart =>
    cases err with
    | already =>
      obtain ⟨-, heq⟩ := Option.ite_none_right_eq_some.mp h
      cases heq
      rfl
    | success | failure =>
      cases h
      rfl
  | _ => cases err <;> cases h <;> rfl

/-- A subscription takes effect where its slot is counted. -/
theorem atomic_subscribeReport (a : Attr) : AtomicFreely cfg P (subscribeReport a) m := by
  rw [subscribeReport]
  apply atomic_look_bind
  split
  · refine atomic_swap (swaps_freely rfl) ?_
    intro err m' _ hans
    refine ⟨swaps_freely (handlerView_answer hans), ?_⟩
    show AtomicFreely cfg P (if _ then _ else _) m'
    split
    · trivial
    · exact Or.inr ⟨fun _ _ => trivial, Or.inl trivial⟩
  · trivial

theorem atomic_wireReport (a : Attr) : AtomicFreely cfg P (wireReport a) m :=
  (atomic_subscribeReport a).bind_unnoticed fun _ =>
    Searches.unnoticed (.bind (.assign fun _ => rfl) fun _ => searches_subscribePending)

/-- A read that is refused takes effect in the discovery of the reports. -/
theorem atomic_readReportMap (handle : U16) : AtomicFreely cfg P (readReportMap handle) m := by
  rw [readReportMap]
  refine atomic_swap (swaps_freely rfl) ?_
  intro err m' _ hans
  refine ⟨swaps_freely (handlerView_answer hans), ?_⟩
  show AtomicFreely cfg P (if _ then _ else _) m'
  split
  · exact atomic_startReportDiscovery
  · trivial

theorem atomic_discovered (a : Attr) : AtomicFreely cfg P (discovered a) m := by
  rw [discovered]
  apply atomic_look_bind
  cases m.discState with
  | idle => trivial
  | hidsPrimary =>
    exact (searches_discoverReportMap a).unnoticed.atomic.bind_unnoticed fun _ => .pure _
  | reportMapChrc => exact (atomic_readReportMap _).bind_unnoticed fun _ => .pure _
  | reportChrc =>
    exact (searches_collectReport a).unnoticed.atomic.bind_unnoticed fun _ => .pure _
  | reportRef =>
    exact (searches_readReportRef _).unnoticed.atomic.bind_unnoticed fun _ => .pure _
  | ccc => exact (atomic_wireReport a).bind_unnoticed fun _ => .pure _

theorem atomic_deliver (q : DiscoverParams) (a : Attr) : AtomicFreely cfg P (deliver q a) m := by
  refine (atomic_discovered a).bind_unnoticed fun i => ?_
  cases i with
  | «continue» => exact (searches_resume _).unnoticed
  | stop => exact .pure ()

theorem atomic_finishDiscover : AtomicFreely cfg P finishDiscover m := by
  suffices hdone : AtomicFreely cfg P discoverDone m from
    (hdone.bind_unnoticed fun _ => .pure _).bind_unnoticed fun _ => .pure ()
  rw [discoverDone]
  apply atomic_look_bind
  cases m.discState with
  | idle => trivial
  | hidsPrimary => trivial
  | reportMapChrc => exact atomic_startReportDiscovery
  | reportChrc => exact searches_reportsCollected.unnoticed.atomic
  | reportRef => exact searches_discoverCcc.unnoticed.atomic
  | ccc =>
    exact (Searches.unnoticed (.bind (.assign fun _ => rfl) fun _ =>
      searches_subscribePending)).atomic

/-- The parser's writes go unnoticed while the layout is not valid. -/
theorem atomic_parseReportMap {Q Q' : Unit → Central → Prop} (hinvalid : ¬ m.layoutValid)
    (hQ : ∀ l, Q () { m with layout := l })
    (hQ' : ∀ l, Q' () { m with layout := l, layoutValid := true }) :
    (parseReportMap cfg).Atomic (central cfg) P (fun _ _ => True) SameButQueue Q Q' m := by
  have hswap (l l' : ReportLayout) :
      Swaps (central cfg) (fun _ _ => True) { m with layout := l } { m with layout := l' } id := by
    intro io _
    refine ⟨trivial, ?_⟩
    rw [central_work, reportWorkTurn_of_invalid (m := { m with layout := l }) hinvalid,
      reportWorkTurn_of_invalid (m := { m with layout := l' }) hinvalid]
    rfl
  have hwrite (ls : List ReportLayout) (l : ReportLayout) {R R' : Unit → Central → Prop}
      (hR : ∀ l, R () { m with layout := l }) :
      (writeLayouts ls).Atomic (central cfg) P (fun _ _ => True) SameButQueue R R'
        { m with layout := l } := by
    induction ls generalizing l with
    | nil => exact hR l
    | cons l' ls ih => exact atomic_swap (hswap l l') (ih l')
  rw [parseReportMap]
  refine atomic_look_bind (.bind (hwrite _ m.layout fun l => ?_))
  refine atomic_swap (hswap l _) ?_
  split
  · exact Or.inr ⟨fun _ _ => trivial, Or.inl (hQ' _)⟩
  · exact hQ _

/-- **A response of the Report Map read is atomic**: the layout is made valid at its end. -/
theorem atomic_respondMap (hinvalid : ¬ m.layoutValid) (hzero : m.subCount = 0) (handle : U16)
    (received : List U8) (err : Bool) (data : List U8) :
    AtomicFreely cfg P (respondMap cfg handle received err data) m := by
  have hread : AtomicFreely cfg P (reportMapReadCb cfg err data) m := by
    unfold reportMapReadCb
    split
    · exact atomic_startReportDiscovery.bind_unnoticed fun _ => .pure _
    · split
      · exact (searches_storeChunk data).unnoticed.atomic.bind_unnoticed fun _ => .pure _
      · refine .bind (atomic_parseReportMap hinvalid (fun l => ?_) fun l => ?_)
        · exact atomic_startReportDiscovery.bind_unnoticed fun _ => .pure _
        · rw [commutes_bind]
          refine (commutes_startReportDiscovery ?_).mono fun _ _ _ => trivial
          exact hzero
  refine hread.bind_unnoticed fun i => ?_
  cases i with
  | «continue» => exact (searches_resume _).unnoticed
  | stop => exact .pure ()

/-- A discovery takes effect where it makes the layout not valid. -/
theorem atomic_startDiscovery : AtomicFreely cfg P startDiscovery m := by
  rw [startDiscovery]
  refine atomic_commit (fun _ _ => trivial) (Unnoticed.freely (Searches.unnoticed ?_))
  exact .bind (.assign fun _ => rfl) fun _ => searches_discoverOr (.pure ())

/-! ### The disconnect -/

/-- The queue is empty where none may be queued, and every report in it has an id that is
admitted. -/
def Admitted (ids : U8 → Prop) (m : Central) (io : Pipeline) : Prop :=
  (¬ m.mayQueue → io.queue = []) ∧ ∀ q ∈ io.queue, ids q.2.reportId

theorem Admitted.turn {ids : U8 → Prop} (h : Admitted ids m io) :
    Admitted ids m (reportWorkTurn cfg m io) := by
  constructor
  · intro hmay
    rw [reportWorkTurn_queue, h.1 hmay]
    rfl
  · intro q hq
    rw [reportWorkTurn_queue] at hq
    exact h.2 q (List.mem_of_mem_tail hq)

/-- A turn that only takes a report from the queue. -/
theorem sameButQueue_of_none {ids : U8 → Prop}
    (h : ∀ evt, ids evt.reportId → handlerDecode m evt = none) {io : Pipeline}
    (hio : Admitted ids m io) : SameButQueue io ((central cfg).work m io) := by
  rw [central_work, reportWorkTurn_of_none fun q hq => h q.2 (hio.2 q hq)]
  rfl

/-- Behind the purge there is nothing to be taken. -/
theorem commutes_purged {ids : U8 → Prop} (hmay : ¬ m.mayQueue) :
    (do emit id fun _ io => { io with host := bleHidHostReset cfg.wheelKeys io.host }
        startScan : Callback Unit).Commutes (central cfg) P (Admitted ids) (fun _ _ => True) m := by
  rw [commutes_bind, commutes_emit]
  constructor
  · intro io hio
    refine ⟨hio, ?_⟩
    have hnil : io.queue = [] := hio.1 hmay
    rw [central_work, reportWorkTurn_nil hnil]
    exact reportWorkTurn_nil hnil
  · have hleaves : Leaves cfg P (fun m => (handlerView m, m.mayQueue)) startScan := fun c d =>
      keeps_startScan_offScan fun {m m' io} heq h => by
        refine ⟨Eq.trans ?_ h.1, h.2⟩
        show (handlerView (offScan m'), (offScan m').mayQueue) =
          (handlerView (offScan m), (offScan m).mayQueue)
        rw [heq]
    exact Keeps.commutes hleaves (fun _ _ heq => reportWorkTurn_congr cfg (Prod.mk.inj heq).1)
      (S := fun x io => (¬ x.2 → io.queue = []) ∧ ∀ q ∈ io.queue, ids q.2.reportId)
      (Safe.mono (Leaves.safe hleaves) fun _ _ _ => trivial)

/-- Once the layout is not valid, what turns take is what the purge would take. -/
theorem covers_invalidated {ids : U8 → Prop} (hinvalid : ¬ m.layoutValid) :
    (do assign fun m => { m with rmLen := 0 }
        emit (fun m => { m with mayQueue := false }) fun _ io => { io with queue := [] }
        emit id fun _ io => { io with host := bleHidHostReset cfg.wheelKeys io.host }
        startScan : Callback Unit).Covers (central cfg) P (Admitted ids) SameButQueue
          (fun _ _ => True) m := by
  refine covers_keep (fun io hio => ?_) (fun io hio => hio) (fun io io' hsame => hsame) ?_
  · exact sameButQueue_of_none (fun evt _ => handlerDecode_of_invalid hinvalid evt) hio
  refine covers_undo (fun io hio => ?_) (fun io hio => ?_) (fun io io' hsame => hsame) ?_
  · exact sameButQueue_of_none (m := { m with rmLen := 0 })
      (fun evt _ => handlerDecode_of_invalid hinvalid evt) hio
  · exact ⟨fun _ => rfl, fun q hq => absurd hq List.not_mem_nil⟩
  · exact commutes_purged Bool.false_ne_true

/-- **A disconnect is atomic**: turns that it is cut into by are moved in front of it as long
as the layout is valid, and what they drop between the two actions at which it takes
effect is what the purge would drop. -/
theorem atomic_disconnected {ids : U8 → Prop} {conn : ℕ} (hconn : m.defaultConn = some conn)
    (hids : m.subCount = 1 → ∃ id, ∀ i, ids i → i = id) :
    (disconnected cfg conn).Atomic (central cfg) P (Admitted ids) SameButQueue
      (fun _ _ => True) (fun _ _ => True) m := by
  rw [disconnected]
  refine atomic_look_bind ?_
  rw [if_neg (not_not.mpr hconn)]
  refine atomic_swap (swaps_of_view rfl fun io hio => hio) ?_
  refine atomic_swap (swaps_of_view rfl fun io hio => hio) ?_
  let c : Central := { m with
    unrefs := m.unrefs ++ m.defaultConn.toList
    defaultConn := none
    subCount := 0 }
  by_cases hdrops : ∀ evt, ids evt.reportId → handlerDecode c evt = none
  · -- from here on turns only take reports from the queue
    refine atomic_cover (fun io hio => hio) ?_
    refine covers_keep (fun io hio => ?_) (fun io hio => hio) (fun io io' hsame => hsame) ?_
    · exact sameButQueue_of_none (m := c) hdrops hio
    refine covers_keep (fun io hio => ?_) (fun io hio => hio) (fun io io' hsame => ?_) ?_
    · exact sameButQueue_of_none
        (m := { c with pendingCount := 0, pendingIdx := 0, discState := .idle }) hdrops hio
    · exact congrArg (fun io : Pipeline =>
        { io with trace := io.trace ++ [Observation.invalidated conn] }) hsame
    · exact covers_invalidated Bool.false_ne_true
  · -- the handler decodes as it did before the slots were cleared
    have hsame : ∀ evt, ids evt.reportId → handlerDecode c evt = handlerDecode m evt := by
      push Not at hdrops
      obtain ⟨evt₀, hevt₀, hdecode⟩ := hdrops
      obtain ⟨r, hr⟩ := Option.ne_none_iff_exists'.mp hdecode
      have hmatch : evt₀.reportId = m.layout.reportId := by
        by_contra hne
        exact (isPointerReport_of_handlerDecode hr).2 ⟨Nat.zero_ne_one, hne⟩
      intro evt hevt
      have hiff : isPointerReport c evt ↔ isPointerReport m evt := by
        by_cases hone : m.subCount = 1
        · -- all that is queued has one id, and that is the layout's
          obtain ⟨id, hid⟩ := hids hone
          have hevt' : evt.reportId = m.layout.reportId :=
            (hid _ hevt).trans ((hid _ hevt₀).symm.trans hmatch)
          simp only [isPointerReport, hevt']
          tauto
        · simp only [isPointerReport]
          tauto
      exact if_congr hiff rfl rfl
    have hturn (io : Pipeline) (hids : ∀ q ∈ io.queue, ids q.2.reportId) :
        reportWorkTurn cfg c io = reportWorkTurn cfg m io :=
      reportWorkTurn_eq_of_decode rfl rfl fun q hq => hsame q.2 (hids q hq)
    refine atomic_swap (fun io hio => ⟨hio, hturn io hio.2⟩) ?_
    refine atomic_swap (swaps_of_view rfl fun io hio => hio) ?_
    refine atomic_cover (fun io hio => hio) ?_
    exact covers_invalidated Bool.false_ne_true

/-! ### Events -/

/-- An event that an inversion finds occurs. -/
theorem enter_of_entered {e : Event} {p : Callback Unit} (h : Entered cfg m io e m' io' p) :
    enter cfg e m io = some (m', io', p) := by
  have hlink {l : Link} (hl : m.link = some l) (hup : l.up) : upLink m = some l := by
    rw [upLink, hl, Option.filter_some, if_pos hup]
  cases h with
  | advertise => rfl
  | scanRetry h => exact if_pos h
  | connected err hl hup => rw [enter, hl, Option.bind_some, if_neg hup]
  | securityChanged level err hl hup => rw [enter, hlink hl hup, Option.map_some]
  | disconnected hl => rw [enter, hl, Option.map_some]
  | discovered n hl hup hq ha =>
    rw [enter, hlink hl hup, Option.bind_some, hq, Option.bind_some, enterProc, ha, Option.map_some]
  | discoverDone n hl hup hq =>
    rw [enter, hlink hl hup, Option.bind_some, hq, Option.bind_some, enterProc]
  | readMap n err data hl hup hq =>
    rw [enter, hlink hl hup, Option.bind_some, hq, Option.bind_some, enterProc]
  | readRef n err data hl hup hq =>
    rw [enter, hlink hl hup, Option.bind_some, hq, Option.bind_some, enterProc]
  | notified slot data hl hup hslot =>
    rw [enter, hlink hl hup, Option.bind_some, if_pos hslot]
  | unsubscribed slot hslot => exact if_pos hslot
  | timePasses => rfl
  | bonded => rfl

/-- What holds between two callbacks, of the central and of its pipeline. -/
structure Resting (m : Central) (io : Pipeline) : Prop extends Tallied m where
  labelled : Labelled m io
  separated : Separated m
  tracked : Tracked m

/-- While a Report Map is read, the layout is not valid and no slot is counted. -/
theorem Resting.reading (h : Resting m io) {n : ℕ} {handle : U16} {received : List U8}
    (hq : m.procs[n]? = some (.readMap handle received)) : ¬ m.layoutValid ∧ m.subCount = 0 := by
  have hstate : m.discState = .reportMapChrc := (h.separated.sequential.take hq).2
  have hearly : m.discState.isEarly := by
    rw [hstate]
    rfl
  exact ⟨h.separated.early hearly, (h.early hearly).1⟩

/-- **A turn that is taken before an event may be taken behind it.** -/
theorem Resting.entered_turn (h : Resting m io) {e : Event} {p : Callback Unit}
    (henter : Entered cfg m io e m' io' p) :
    Entered cfg m (reportWorkTurn cfg m io) e m' (reportWorkTurn cfg m' io') p := by
  -- the events change nothing that the handler reads
  have hview {m' : Central} (heq : handlerView m' = handlerView m) :
      reportWorkTurn cfg m io = reportWorkTurn cfg m' io := by rw [reportWorkTurn_congr cfg heq]
  cases henter with
  | advertise addr type ad => exact .advertise addr type ad
  | scanRetry hretry =>
    rw [hview rfl]
    exact .scanRetry hretry
  | connected err hl hup =>
    rw [hview rfl]
    exact .connected err hl hup
  | securityChanged level err hl hup =>
    rw [hview rfl]
    exact .securityChanged level err hl hup
  | disconnected hl =>
    rw [hview rfl]
    exact .disconnected hl
  | discovered n hl hup hq ha =>
    rw [hview rfl]
    exact .discovered n hl hup hq ha
  | discoverDone n hl hup hq =>
    rw [hview rfl]
    exact .discoverDone n hl hup hq
  | @readMap n err data l hl hup handle received hq =>
    -- the read is recorded where no report counts
    have hinvalid : ¬ m.layoutValid := (h.reading hq).1
    have hswap : reportWorkTurn cfg (noteMapRead l.conn received err data (takeProc n m))
        (recordMapRead l.conn received err data io) =
        recordMapRead l.conn received err data (reportWorkTurn cfg m io) := by
      rw [reportWorkTurn_of_invalid hinvalid, reportWorkTurn_of_invalid
        (m := noteMapRead l.conn received err data (takeProc n m)) hinvalid]
      unfold recordMapRead
      split <;> rfl
    rw [hswap]
    exact .readMap n err data hl hup hq
  | readRef n err data hl hup hq =>
    rw [hview rfl]
    exact .readRef n err data hl hup hq
  | notified slot data hl hup hslot => exact .notified slot data hl hup hslot
  | unsubscribed slot hslot =>
    rw [hview rfl]
    exact .unsubscribed slot hslot
  | timePasses ms =>
    rw [hview rfl]
    exact .timePasses ms
  | bonded bonds =>
    rw [hview rfl]
    exact .bonded bonds

/-- Turns can be moved out of the callback. -/
abbrev AtomicCallback (cfg : Setup) (P : Condition) (p : Callback Unit) (m : Central)
    (io : Pipeline) : Prop :=
  Machine.EntersAtomic (central cfg) P SameButQueue p m io

theorem AtomicFreely.callback {p : Callback Unit} (h : AtomicFreely cfg P p m) :
    AtomicCallback cfg P p m io :=
  ⟨fun _ _ => True, fun _ _ _ => trivial, trivial, h⟩

/-- **Every event enters an atomic callback.** -/
theorem Resting.atomicCallback (h : Resting m io) {e : Event} {p : Callback Unit}
    (henter : Entered cfg m io e m' io' p) : AtomicCallback cfg P p m' io' := by
  cases henter with
  | advertise addr type ad =>
    have hleaves : Unnoticed cfg P (deviceFound cfg addr type ad) :=
      fun c d => keeps_deviceFound (J := fun m io => handlerView m = c ∧ io = d)
        unnoticed_of_offScan addr type ad
    exact (Unnoticed.atomic hleaves).callback
  | scanRetry =>
    have hleaves : Unnoticed cfg P scanRetryHandler :=
      fun _ _ => keeps_scanRetryHandler unnoticed_of_offScan
    exact (Unnoticed.atomic hleaves).callback
  | connected err =>
    have hleaves : Unnoticed cfg P (BleHidHost.connected err) :=
      fun c d => keeps_connected (J := fun m io => handlerView m = c ∧ io = d)
        unnoticed_of_offScan err
    exact (Unnoticed.atomic hleaves).callback
  | @securityChanged level err l =>
    rw [BleHidHost.securityChanged]
    split
    · have hleaves : Unnoticed cfg P (securityFailed l.peer) := fun _ _ =>
        keeps_securityFailed (fun {m m' io} heq h => by
          refine ⟨Eq.trans ?_ h.1, h.2⟩
          show handlerView (offLink m') = handlerView (offLink m)
          rw [heq]) _
      exact (Unnoticed.atomic hleaves).callback
    · exact atomic_startDiscovery.callback
  | @disconnected l hl =>
    have hconn : m.defaultConn = some l.conn := by
      rw [← h.tracked.link_eq, hl, Option.map_some]
    -- the ids that may be queued: that of the one slot, where one is counted
    let ids (i : U8) : Prop := m.subCount = 1 → i = (subscription m 0).reportId
    refine ⟨Admitted ids, fun _ _ h => h.turn, ⟨h.labelled.empty, fun q hq hone => ?_⟩,
      atomic_disconnected (m := { m with link := none, procs := [], subscribed := [] }) hconn
        fun hone => ⟨_, fun i hi => hi hone⟩⟩
    obtain ⟨slot, hlt, hid⟩ := h.labelled.labels (by rw [hl]; rfl) q hq
    have hzero : slot = 0 := by omega
    rw [hid, hzero]
  | discovered n hl hup hq ha => exact (atomic_deliver _ _).callback
  | discoverDone => exact atomic_finishDiscover.callback
  | @readMap n err data l hl hup handle received hq =>
    obtain ⟨hinvalid, hzero⟩ := h.reading hq
    exact (atomic_respondMap (m := noteMapRead l.conn received err data (takeProc n m)) hinvalid
      hzero handle received err data).callback
  | readRef n err data => exact (searches_respondRef err data).unnoticed.atomic.callback
  | @notified slot data l =>
    -- the copy is one action
    refine AtomicFreely.callback ?_
    exact Or.inr ⟨fun _ _ => trivial, Or.inl trivial⟩
  | unsubscribed slot =>
    have hleaves : Unnoticed cfg P (BleHidHost.unsubscribed slot) := .assign fun _ => rfl
    exact (Unnoticed.atomic hleaves).callback
  | timePasses => exact (Unnoticed.atomic (.pure ())).callback
  | bonded => exact (Unnoticed.atomic (.pure ())).callback

/-! ### Runs -/

/-- A state that a run reaches in which the handler takes its turns between callbacks only,
and whose steps all meet the condition. -/
def SeriallyReachable (cfg : Setup) (P : Condition) (s : System) : Prop :=
  ∃ bonds uptime accepts, (central cfg).SeriallyUnder P (start bonds uptime accepts) s

/-- **What is reached between two callbacks is reached without the handler cutting in**: in a
run where success of a security procedure is reported once per connection, whatever the
handler does in the middle of a callback, it might have done before or behind it. -/
theorem seriallyReachable_iff {s : System} (hidle : s.Idle) :
    SeriallyReachable cfg securedOnce s ↔ Reachable cfg securedOnce s := by
  constructor
  · rintro ⟨bonds, uptime, accepts, hserial⟩
    exact ⟨bonds, uptime, accepts, hserial.reachedUnder⟩
  · rintro ⟨bonds, uptime, accepts, hreach⟩
    refine ⟨bonds, uptime, accepts, ?_⟩
    have hempty : reportWorkTurn cfg (start bonds uptime accepts).main
        (start bonds uptime accepts).io = (start bonds uptime accepts).io := reportWorkTurn_nil rfl
    refine Machine.seriallyUnder_of_reached (K := Resting) (E := SameButQueue) (fun _ => rfl)
      (fun _ _ _ h h' => h.trans h') (fun _ _ => rfl) hempty
      (Unnoticed.atomic unnoticed_startScan).callback (fun t ht hidle => ?_) ?_ hreach hidle
    · have hlabelled := labelled_of_reachable (s := t) ⟨bonds, uptime, accepts, ht⟩
      obtain ⟨htallied, hsep, htracked⟩ := hlabelled.2 hidle
      exact ⟨htallied, hlabelled.1, hsep, htracked⟩
    · intro e m io m' io' p hresting _ henter
      have hentered : Entered cfg m io e m' io' p := entered_of_enter henter
      exact ⟨enter_of_entered (hresting.entered_turn hentered), hresting.atomicCallback hentered⟩

/-- Two reports are queued, and the handler cuts twice into the disconnect: the first report
is published as the slots are cleared, and the second is dropped. -/
def preemptedRun : List (Action Errno Event) :=
  subscribeRun 1 1 ++ [.event (.notified 0 [3, 4]), .tick, .event (.notified 0 [5, 6]), .tick,
    .event .disconnected] ++ ticks 4 ++ [.work] ++ ticks 2 ++ [.work] ++ ticks 3 ++
    [.answer .success]

/-- The same is reached without the handler cutting in. -/
theorem preemptedRun_serially :
    ∃ s, stateAfter (.plain (reportTable [4])) preemptedRun = some s ∧
      s.io.trace = [.mapRead 0 pointerMap,
        .published 0 ⟨5, 1, [3, 4]⟩ true (zmkHidParseReportMap pointerMap).2, .invalidated 0] ∧
      SeriallyReachable (.plain (reportTable [4])) securedOnce s := by
  have hmeets : Meeting (.plain (reportTable [4])) securedOnce preemptedRun := by decide +kernel
  have hstate : (stateAfter (.plain (reportTable [4])) preemptedRun).map
      (fun s => (s.isIdle, s.io.trace)) = some (true, [.mapRead 0 pointerMap,
        .published 0 ⟨5, 1, [3, 4]⟩ true (zmkHidParseReportMap pointerMap).2,
        .invalidated 0]) := by decide +kernel
  obtain ⟨s, hs, heq⟩ := Option.map_eq_some_iff.mp hstate
  obtain ⟨hidle, htrace⟩ := Prod.mk.inj heq
  exact ⟨s, hs, htrace, (seriallyReachable_iff (Configuration.isIdle_iff.mp hidle)).mpr
    (reachable_stateAfter hmeets hs)⟩

end BleHidHost
