import Mathlib.Data.List.Induction
import BleHidHost.Scanning
import BleHidHost.Sequence

/-!
# Connections are isolated

A report is decoded with the layout of the connection it came in on.  The work
handler may cut into any callback, also into a disconnect, and the queue, the layout
and its flag outlive a connection; what keeps the reports of one connection from the
layout of another is the order in which `disconnected` clears them.

## Main definitions

* `Isolated` — what a trace says of each report that was published.
* `securedOnce` — success of a security procedure is reported once per connection.
* `Sound` — what relates the queue and the trace to the layout at every moment.
* `Separated` — what holds of the variables between two callbacks.

## Main results

* `isolated_of_securedOnce` — **every report published was received on the
  connection whose Report Map produced its layout.**
-/

namespace BleHidHost

open Lib Lib.Prog

/-! ### Traces -/

/-- An observation's effect on the Report Map read that counts. -/
def lastMapStep (last : Option (ℕ × List U8)) : Observation → Option (ℕ × List U8)
  | .mapRead conn bytes => some (conn, bytes)
  | .published _ _ _ _ => last
  | .invalidated _ => none

/-- The Report Map read that was completed last, unless a disconnect has invalidated
it since. -/
def lastMapRead (trace : List Observation) : Option (ℕ × List U8) := trace.foldl lastMapStep none

/-- This layout is what the parser makes of the value of the Report Map. -/
def ParsesTo (bytes : List U8) (l : ReportLayout) : Prop :=
  zmkHidParseReportMap (bytes.take reportMapMax) = (0, l)

/-- A report is published with a valid layout, parsed from the Report Map that was last
read, and read on the report's connection, which has not ended. -/
def Licensed (before : List Observation) : Observation → Prop
  | .published conn _ valid layout =>
    valid ∧ (∃ bytes, lastMapRead before = some (conn, bytes) ∧ ParsesTo bytes layout) ∧
      ∀ k, .invalidated k ∈ before → k < conn
  | _ => True

/-- Every report that was published was licensed. -/
def Isolated (trace : List Observation) : Prop := Throughout Licensed trace

theorem lastMapRead_concat (trace : List Observation) (o : Observation) :
    lastMapRead (trace ++ [o]) = lastMapStep (lastMapRead trace) o := by
  rw [lastMapRead, List.foldl_append]
  rfl

/-- The read that counts was recorded after the last disconnect. -/
theorem mem_of_lastMapRead {trace : List Observation} {conn : ℕ} {bytes : List U8}
    (h : lastMapRead trace = some (conn, bytes)) : .mapRead conn bytes ∈ trace := by
  induction trace using List.reverseRecOn with
  | nil => cases h
  | append_singleton trace o ih =>
    rw [lastMapRead_concat] at h
    cases o with
    | mapRead k b =>
      cases h
      simp
    | published => exact List.mem_append_left _ (ih h)
    | invalidated => cases h

/-- A disconnect makes what was read before it irrelevant. -/
theorem lastMapRead_invalidated (before after : List Observation) (k : ℕ) :
    lastMapRead (before ++ .invalidated k :: after) = lastMapRead after := by
  rw [lastMapRead, List.foldl_append]
  rfl

/-! ### What the handler relies on -/

/-- The variables that relate the queue and the trace to the layout. -/
structure Guard where
  nextConn : ℕ
  linked : Bool
  mayQueue : Bool
  layoutValid : Bool
  layout : ReportLayout
  lastMap : Option (ℕ × List U8)

/-- The guard of a state. -/
def guard (m : Central) : Guard :=
  ⟨m.nextConn, m.link.isSome, m.mayQueue, m.layoutValid, m.layout, m.lastMap⟩

/-- The queue holds reports of the latest connection only, a valid layout was parsed
from the Report Map read on that connection, and what was invalidated was before it. -/
structure Sound (g : Guard) (io : Pipeline) : Prop where
  tags : ∀ q ∈ io.queue, q.1 + 1 = g.nextConn
  empty : ¬ g.mayQueue → io.queue = []
  last : lastMapRead io.trace = g.lastMap
  parsed : g.layoutValid → ∃ conn bytes, g.lastMap = some (conn, bytes) ∧
    conn + 1 = g.nextConn ∧ ParsesTo bytes g.layout
  stale : ∀ k, .invalidated k ∈ io.trace →
    k < g.nextConn ∧ (g.linked ∨ g.layoutValid → k + 1 < g.nextConn)
  isolated : Isolated io.trace

/-- The same, of a state. -/
def soundly (m : Central) (io : Pipeline) : Prop := Sound (guard m) io

variable {cfg : Setup} {P : Condition} {m : Central} {io : Pipeline}

/-- **A turn of the handler publishes under licence.** -/
theorem soundly_reportWorkTurn (h : soundly m io) : soundly m (reportWorkTurn cfg m io) := by
  have htail : (reportWorkTurn cfg m io).queue = io.queue.tail := reportWorkTurn_queue cfg m io
  have htags : ∀ q ∈ (reportWorkTurn cfg m io).queue, q.1 + 1 = m.nextConn := by
    rw [htail]
    intro q hq
    exact h.tags q (List.mem_of_mem_tail hq)
  have hempty : ¬ m.mayQueue → (reportWorkTurn cfg m io).queue = [] := by
    intro hmay
    rw [htail, h.empty hmay, List.tail_nil]
  have htrace : lastMapRead (reportWorkTurn cfg m io).trace = m.lastMap ∧
      (∀ k, .invalidated k ∈ (reportWorkTurn cfg m io).trace → .invalidated k ∈ io.trace) ∧
        Isolated (reportWorkTurn cfg m io).trace := by
    unfold reportWorkTurn
    split
    · exact ⟨h.last, fun _ hk => hk, h.isolated⟩
    · next conn evt rest hqueue =>
      split
      · exact ⟨h.last, fun _ hk => hk, h.isolated⟩
      · next r hdecode =>
        -- the report and the layout are both of the latest connection
        have hvalid : m.layoutValid := (isPointerReport_of_handlerDecode hdecode).1
        obtain ⟨k, bytes, hlast, hk, hparse⟩ := h.parsed hvalid
        have hconn : conn = k := by
          have htag : conn + 1 = m.nextConn := h.tags (conn, evt) (by rw [hqueue]; simp)
          have hk' : k + 1 = m.nextConn := hk
          omega
        subst hconn
        refine ⟨(lastMapRead_concat _ _).trans h.last, ?_, ?_⟩
        · intro _ hmem
          simpa [publishReport] using hmem
        · apply throughout_concat h.isolated
          refine ⟨hvalid, ⟨bytes, h.last.trans hlast, hparse⟩, ?_⟩
          -- and what was invalidated was before it
          intro j hj
          have hlt : j + 1 < m.nextConn := (h.stale j hj).2 (Or.inr hvalid)
          have hk' : conn + 1 = m.nextConn := hk
          omega
  exact ⟨htags, hempty, htrace.1, h.parsed, fun k hk => h.stale k (htrace.2.1 k hk), htrace.2.2⟩

/-- What leaves all but the read of the Report Map alone leaves the guard alone. -/
theorem guard_eq {m m' : Central} (h : offMap m' = offMap m) : guard m' = guard m := by
  show guard (offMap m') = guard (offMap m)
  rw [h]

theorem guard_eq_of_offCursor {m m' : Central} (h : offCursor m' = offCursor m) :
    guard m' = guard m :=
  eq_of_offCursor guard_eq h

/-! ### What the callbacks' actions keep -/

/-- While the layout is not valid, the parser may write to it. -/
theorem soundly_layout (hinvalid : ¬ m.layoutValid) (l : ReportLayout) (h : soundly m io) :
    soundly { m with layout := l } io :=
  ⟨h.tags, h.empty, h.last, fun hvalid => absurd hvalid hinvalid, h.stale, h.isolated⟩

/-- On a link, a layout parsed from its Report Map may be made valid. -/
theorem soundly_validate (h : soundly m io) (hlink : m.link.isSome) {conn : ℕ} {bytes : List U8}
    (hlast : m.lastMap = some (conn, bytes)) (hconn : conn + 1 = m.nextConn)
    (hparse : ParsesTo bytes m.layout) : soundly { m with layoutValid := true } io where
  tags := h.tags
  empty := h.empty
  last := h.last
  parsed _ := ⟨conn, bytes, hlast, hconn, hparse⟩
  stale k hk := ⟨(h.stale k hk).1, fun _ => (h.stale k hk).2 (Or.inl hlink)⟩
  isolated := h.isolated

/-- A discovery begins by making the layout not valid. -/
theorem soundly_unvalidate (h : soundly m io) : soundly { m with layoutValid := false } io where
  tags := h.tags
  empty := h.empty
  last := h.last
  parsed := (absurd · Bool.false_ne_true)
  stale k hk := ⟨(h.stale k hk).1, fun hlinked =>
    (h.stale k hk).2 (Or.inl (hlinked.resolve_right Bool.false_ne_true))⟩
  isolated := h.isolated

/-- The link may change where there is one. -/
theorem soundly_setLink {l : Link} (hl : m.link = some l) (link : Option Link) (h : soundly m io) :
    soundly { m with link := link } io where
  tags := h.tags
  empty := h.empty
  last := h.last
  parsed := h.parsed
  stale k hk := ⟨(h.stale k hk).1, fun _ =>
    (h.stale k hk).2 (Or.inl (Option.isSome_iff_exists.mpr ⟨l, hl⟩))⟩
  isolated := h.isolated

/-- A connection is created behind an empty queue and a layout that is not valid. -/
theorem soundly_create (h : soundly m io) (hmay : ¬ m.mayQueue) (hinvalid : ¬ m.layoutValid)
    (peer : Addr) : soundly (granted (.connLeCreate peer) m) io where
  tags q hq := by
    rw [h.empty hmay] at hq
    cases hq
  empty := h.empty
  last := h.last
  parsed hvalid := absurd hvalid hinvalid
  stale k hk := ⟨Nat.lt_succ_of_lt (h.stale k hk).1, fun _ => Nat.succ_lt_succ (h.stale k hk).1⟩
  isolated := h.isolated

/-- Without a link, the layout of a connection that was created is invalidated. -/
theorem soundly_invalidate (h : soundly m io) (hlink : m.link = none) {conn : ℕ}
    (hconn : conn < m.nextConn) :
    soundly { m with layoutValid := false, lastMap := none }
      { io with trace := io.trace ++ [.invalidated conn] } where
  tags := h.tags
  empty := h.empty
  last := lastMapRead_concat _ _
  parsed := (absurd · Bool.false_ne_true)
  stale k hk := by
    refine ⟨?_, fun hlinked => absurd hlinked (by simp [guard, hlink])⟩
    rcases List.mem_append.mp hk with hk | hk
    · exact (h.stale k hk).1
    · cases List.mem_singleton.mp hk
      exact hconn
  isolated := throughout_concat h.isolated trivial

/-- The queue may be purged. -/
theorem soundly_purge (h : soundly m io) :
    soundly { m with mayQueue := false } { io with queue := [] } where
  tags _ hq := absurd hq List.not_mem_nil
  empty _ := rfl
  last := h.last
  parsed := h.parsed
  stale := h.stale
  isolated := h.isolated

/-- A report of the latest connection may be queued. -/
theorem soundly_msgqPut (h : soundly m io) {conn : ℕ} (hconn : conn + 1 = m.nextConn)
    (evt : ReportEvt) : soundly { m with mayQueue := true } (msgqPut conn evt io) := by
  unfold msgqPut
  split
  · refine ⟨?_, fun hmay => absurd rfl hmay, h.last, h.parsed, h.stale, h.isolated⟩
    intro q hq
    rcases List.mem_append.mp hq with hq | hq
    · exact h.tags q hq
    · rw [List.mem_singleton.mp hq]
      exact hconn
  · exact ⟨h.tags, fun hmay => absurd rfl hmay, h.last, h.parsed, h.stale, h.isolated⟩

/-- The response that a Report Map read gets is recorded as it is noted. -/
theorem soundly_recordMapRead (h : soundly m io) (hinvalid : ¬ m.layoutValid) (conn : ℕ)
    (received : List U8) (err : Bool) (data : List U8) :
    soundly (noteMapRead conn received err data m) (recordMapRead conn received err data io) := by
  unfold recordMapRead noteMapRead
  split
  · refine ⟨h.tags, h.empty, lastMapRead_concat _ _, fun hvalid => absurd hvalid hinvalid, ?_,
      throughout_concat h.isolated trivial⟩
    intro k hk
    exact h.stale k (by simpa using hk)
  · exact h

/-! ### Between two callbacks -/

/-- Success of a security procedure is reported at most once per connection. -/
def securedOnce : Condition where
  onAnswer _ _ _ := true
  onEvent m e :=
    match e with
    | .securityChanged level err => !reportsSecured level err || !m.link.any Link.secured
    | _ => true
  onWork _ _ := true

/-- What holds of discovery: the layout is not valid until the Report Map is parsed, and
`rm_buf` holds what its read has delivered. -/
structure GattSide (m : Central) : Prop where
  sequential : Sequential m
  early : m.discState.isEarly → ¬ m.layoutValid
  buffer : m.rmBuf.length = reportMapMax ∧ m.rmLen ≤ reportMapMax
  received : ∀ h r, .readMap h r ∈ m.procs → reportMap m = r.take reportMapMax

/-- What holds of the link: without one that is up, the layout is not valid and no
report is queued, and without one that is secured no discovery has begun. -/
structure LinkSide (m : Central) : Prop where
  current : ∀ l, m.link = some l → l.conn + 1 = m.nextConn
  secured_up : ∀ l, m.link = some l → l.secured → l.up
  cleared : (∀ l, m.link = some l → ¬ l.up) → ¬ m.mayQueue ∧ ¬ m.layoutValid
  fresh : (∀ l, m.link = some l → ¬ l.secured) → m.procs = []

/-- What holds between two callbacks. -/
structure Separated (m : Central) : Prop extends GattSide m, LinkSide m

theorem GattSide.congr {m' : Central} (h : GattSide m) (hprocs : m'.procs = m.procs)
    (hstate : m'.discState = m.discState) (hvalid : m'.layoutValid = m.layoutValid)
    (hbuf : m'.rmBuf = m.rmBuf) (hlen : m'.rmLen = m.rmLen) : GattSide m' where
  sequential := h.sequential.congr hprocs hstate
  early := by
    rw [hstate, hvalid]
    exact h.early
  buffer := by
    rw [hbuf, hlen]
    exact h.buffer
  received := by
    rw [hprocs, reportMap, hbuf, hlen]
    exact h.received

theorem LinkSide.congr {m' : Central} (h : LinkSide m) (hlink : m'.link = m.link)
    (hnext : m'.nextConn = m.nextConn) (hmay : m'.mayQueue = m.mayQueue)
    (hvalid : m'.layoutValid = m.layoutValid) (hprocs : m'.procs = m.procs) : LinkSide m' where
  current := by
    rw [hlink, hnext]
    exact h.current
  secured_up := by
    rw [hlink]
    exact h.secured_up
  cleared := by
    rw [hlink, hmay, hvalid]
    exact h.cleared
  fresh := by
    rw [hlink, hprocs]
    exact h.fresh

/-- A secured link says all there is to say of the link. -/
theorem LinkSide.of_secured {l : Link} (hl : m.link = some l) (hconn : l.conn + 1 = m.nextConn)
    (hup : l.up) (hsecured : l.secured) : LinkSide m where
  current l' hl' := by
    cases hl.symm.trans hl'
    exact hconn
  secured_up l' hl' _ := by
    cases hl.symm.trans hl'
    exact hup
  cleared hdown := absurd hup (hdown l hl)
  fresh hopen := absurd hsecured (hopen l hl)

/-- Without a link, all is cleared. -/
theorem LinkSide.of_none (hl : m.link = none) (hclear : ¬ m.mayQueue ∧ ¬ m.layoutValid)
    (hnil : m.procs = []) : LinkSide m where
  current l hl' := absurd (hl'.symm.trans hl) (Option.some_ne_none l)
  secured_up l hl' := absurd (hl'.symm.trans hl) (Option.some_ne_none l)
  cleared _ := hclear
  fresh _ := hnil

/-- A procedure is outstanding on a secured link only. -/
theorem LinkSide.secured_of_proc (h : LinkSide m) {l : Link} (hl : m.link = some l) {n : ℕ}
    {p : Proc} (hp : m.procs[n]? = some p) : l.secured := by
  by_contra hopen
  have hnil : m.procs = [] := h.fresh fun l' hl' => by
    cases hl.symm.trans hl'
    exact hopen
  rw [hnil] at hp
  cases hp

/-- A callback that leaves all but the cursor alone, and comes back before the read of
the Report Map only where the layout is not valid. -/
theorem GattSide.of_follows {m' : Central} {early : Bool} (hnil : m.procs = [])
    (hbuf : m.rmBuf.length = reportMapMax ∧ m.rmLen ≤ reportMapMax)
    (hinvalid : early → ¬ m.layoutValid) (hfollows : Follows early m')
    (heq : offCursor m' = offCursor m) : GattSide m' := by
  have hleft {α : Type} (f : Central → α) : f (offCursor m') = f (offCursor m) := by rw [heq]
  have hvalid : m'.layoutValid = m.layoutValid := hleft (·.layoutValid)
  have hbuf' : m'.rmBuf = m.rmBuf := hleft (·.rmBuf)
  have hlen : m'.rmLen = m.rmLen := hleft (·.rmLen)
  have hmap : m'.procs.filter Proc.isMap = m.procs.filter Proc.isMap := hleft (·.procs)
  refine ⟨hfollows.toSequential, ?_, ?_, ?_⟩
  · intro hearly
    rw [hvalid]
    exact hinvalid (hfollows.late hearly)
  · rw [hbuf', hlen]
    exact hbuf
  · -- no read of the Report Map has been started
    intro handle r hr
    have hmem : .readMap handle r ∈ m'.procs.filter Proc.isMap := List.mem_filter.mpr ⟨hr, rfl⟩
    rw [hmap, hnil] at hmem
    cases hmem

/-- The procedure is taken. -/
theorem GattSide.take (h : GattSide m) {n : ℕ} {p : Proc} (hp : m.procs[n]? = some p) :
    GattSide (takeProc n m) where
  sequential := .of_nil (h.sequential.take hp).1
  early := h.early
  buffer := h.buffer
  received handle r hr := by
    rw [(h.sequential.take hp).1] at hr
    cases hr

/-! ### GATT callbacks -/

/-- What a GATT callback restores, whatever it leaves alone of the link. -/
abbrev SafeGatt (cfg : Setup) (P : Condition) (p : Callback Unit) (m : Central) : Prop :=
  p.Safe (central cfg) P soundly (fun _ => GattSide) m

/-- A program that moves nothing but the cursor. -/
theorem safeGatt_of_follows (early : Bool) (hnil : m.procs = [])
    (hbuf : m.rmBuf.length = reportMapMax ∧ m.rmLen ≤ reportMapMax)
    (hinvalid : early → ¬ m.layoutValid) {p : Callback Unit}
    (hkeeps : p.Keeps (central cfg) P soundly)
    (hfollows : p.Safe (central cfg) P sequentially (fun _ => Follows early) m)
    (hleft : p.Safe (central cfg) P (fun _ _ => True) (fun _ m' => offCursor m' = offCursor m) m) :
    SafeGatt cfg P p m := by
  apply ((hfollows.and hleft).keeping hkeeps).mono
  intro _ m' hm'
  exact .of_follows hnil hbuf hinvalid hm'.1 hm'.2

theorem safeGatt_startReportDiscovery (hnil : m.procs = [])
    (hbuf : m.rmBuf.length = reportMapMax ∧ m.rmLen ≤ reportMapMax) :
    SafeGatt cfg P startReportDiscovery m :=
  safeGatt_of_follows false hnil hbuf (absurd · Bool.false_ne_true)
    (Leaves.keeps (S := Sound) (leaves_startReportDiscovery guard_eq_of_offCursor))
    (safe_startReportDiscovery_alone hnil) (leaves_startReportDiscovery fun h => h).safe

theorem GattSide.safe_respondRef (h : GattSide m) (hnil : m.procs = []) (err : Bool)
    (data : List U8) : SafeGatt cfg P (respondRef err data) m :=
  safeGatt_of_follows false hnil h.buffer (absurd · Bool.false_ne_true)
    (Leaves.keeps (S := Sound) (leaves_respondRef guard_eq_of_offCursor err data))
    (safe_respondRef_alone hnil err data) (leaves_respondRef (fun h => h) err data).safe

theorem GattSide.safe_finishDiscover (h : GattSide m) (hnil : m.procs = []) :
    SafeGatt cfg P finishDiscover m :=
  safeGatt_of_follows _ hnil h.buffer h.early
    (Leaves.keeps (S := Sound) (leaves_finishDiscover guard_eq_of_offCursor))
    (safe_finishDiscover_alone hnil) (leaves_finishDiscover fun h => h).safe

/-- A result that is not the Report Map's characteristic moves nothing but the cursor. -/
theorem safe_deliver_cursor (hstate : m.discState ≠ .reportMapChrc) (q : DiscoverParams)
    (a : Attr) :
    (deliver q a).Safe (central cfg) P (fun _ _ => True) (fun _ m' => offCursor m' = offCursor m)
      m := by
  have hstop {p : Callback Unit} (hp : Leaves cfg P offCursor p) :
      (do p; pure Iter.stop : Callback Iter).Safe (central cfg) P (fun _ _ => True)
        (fun i m' => i = .stop ∧ offCursor m' = offCursor m) m := by
    rw [safe_bind]
    exact hp.safe.mono fun _ _ hm' => ⟨rfl, hm'⟩
  have hdiscovered : (discovered a).Safe (central cfg) P (fun _ _ => True)
      (fun _ m' => offCursor m' = offCursor m) m := by
    rw [discovered, safe_bind, safe_look]
    cases hm : m.discState with
    | idle => rfl
    | hidsPrimary => exact (hstop (leaves_discoverReportMap (fun h => h) a)).mono fun _ _ h => h.2
    | reportMapChrc => exact absurd hm hstate
    | reportChrc =>
      rw [safe_bind]
      exact (leaves_collectReport (fun h => h) a).safe
    | reportRef => exact (hstop (leaves_readReportRef (fun h => h) _)).mono fun _ _ h => h.2
    | ccc => exact (hstop (leaves_wireReport (fun h => h) a)).mono fun _ _ h => h.2
  rw [deliver, safe_bind]
  apply hdiscovered.mono
  intro i m' hm'
  cases i with
  | «continue» => exact ⟨fun _ _ => trivial, (offCursor_startProc rfl m').trans hm'⟩
  | stop => exact hm'

/-- A read of the Report Map that begins or goes on. -/
theorem GattSide.of_readMap (hnil : m.procs = []) (hstate : m.discState = .reportMapChrc)
    (hinvalid : ¬ m.layoutValid) (hbuf : m.rmBuf.length = reportMapMax ∧ m.rmLen ≤ reportMapMax)
    {received : List U8} (hreceived : reportMap m = received.take reportMapMax) (handle : U16) :
    GattSide { m with procs := m.procs ++ [.readMap handle received] } where
  sequential := .of_singleton (p := .readMap handle received) (by rw [hnil, List.nil_append]) hstate
  early _ := hinvalid
  buffer := hbuf
  received handle' r hr := by
    rw [hnil, List.nil_append, List.mem_singleton] at hr
    cases hr
    exact hreceived

theorem GattSide.safe_readReportMap (h : GattSide m) (hnil : m.procs = [])
    (hstate : m.discState = .reportMapChrc) (handle : U16) :
    SafeGatt cfg P (readReportMap handle) m := by
  have hinvalid : ¬ m.layoutValid := h.early (by rw [hstate]; rfl)
  have hbuf : m.rmBuf.length = reportMapMax ∧ 0 ≤ reportMapMax := ⟨h.buffer.1, Nat.zero_le _⟩
  rw [readReportMap, SafeGatt, safe_bind, safe_assign]
  refine ⟨fun _ hJ => hJ, (safe_askOr (by simp) (by simp) _).mpr ⟨fun _ => ⟨fun _ hJ => hJ, ?_⟩,
    fun _ _ _ => safeGatt_startReportDiscovery hnil hbuf⟩⟩
  have hempty : reportMap { m with rmLen := 0 } = List.take reportMapMax [] := rfl
  exact .of_readMap (m := { m with rmLen := 0 }) hnil hstate hinvalid hbuf hempty handle

theorem GattSide.safe_deliver (h : GattSide m) (hnil : m.procs = []) {q : DiscoverParams}
    (hq : Names m.discState (.discover q)) (a : Attr) : SafeGatt cfg P (deliver q a) m := by
  by_cases hstate : m.discState = .reportMapChrc
  · rw [SafeGatt, deliver, safe_bind, discoverFunc, discovered, safe_bind, safe_look, hstate,
      safe_bind]
    exact h.safe_readReportMap hnil hstate _
  · exact safeGatt_of_follows _ hnil h.buffer h.early
      (Leaves.keeps (S := Sound) (leaves_deliver guard_eq q a))
      (safe_deliver_alone hnil hq a) (safe_deliver_cursor hstate q a)

/-- A chunk of the Report Map is stored behind what the read has delivered, as far as
there is room. -/
theorem reportMap_storeChunk (hbuf : m.rmBuf.length = reportMapMax ∧ m.rmLen ≤ reportMapMax)
    {received : List U8} (hreceived : reportMap m = received.take reportMapMax) (data : List U8) :
    ((storeChunk m data).rmBuf.length = reportMapMax ∧ (storeChunk m data).rmLen ≤ reportMapMax) ∧
      reportMap (storeChunk m data) = (received ++ data).take reportMapMax := by
  obtain ⟨hlength, hle⟩ := hbuf
  -- the room is that of the buffer: the subtraction does not wrap
  have hroom : (reportMapMax + 2 ^ 16 - m.rmLen) % 2 ^ 16 = reportMapMax - m.rmLen := by
    unfold reportMapMax at *
    omega
  have hlen : m.rmLen = min reportMapMax received.length := by
    have heq := congrArg List.length hreceived
    rw [reportMap, List.length_take, List.length_take, hlength] at heq
    omega
  have hnext : (storeChunk m data).rmLen = m.rmLen + min data.length (reportMapMax - m.rmLen) := by
    rw [storeChunk, hroom]
  have hmap : reportMap (storeChunk m data) =
      reportMap m ++ data.take (reportMapMax - m.rmLen) := by
    rw [reportMap, hnext, storeChunk, hroom, reportMap,
      List.take_eq_take_min (i := reportMapMax - m.rmLen), min_comm data.length]
    apply List.take_left'
    rw [List.length_append, List.length_take, List.length_take]
    omega
  refine ⟨⟨?_, ?_⟩, ?_⟩
  · simp only [storeChunk, hroom, List.length_append, List.length_take, List.length_drop]
    omega
  · omega
  · have hrest : reportMapMax - m.rmLen = reportMapMax - received.length := by omega
    rw [hmap, hreceived, List.take_append, hrest]

/-- The parser's writes. -/
theorem safe_writeLayouts_soundly (hinvalid : ¬ m.layoutValid) {Q : Unit → Central → Prop}
    (hQ : ∀ l, Q () { m with layout := l }) (ls : List ReportLayout) :
    (writeLayouts ls).Safe (central cfg) P soundly Q m := by
  induction ls generalizing m with
  | nil => exact hQ m.layout
  | cons l ls ih =>
    rw [writeLayouts, safe_bind, safe_assign]
    exact ⟨fun _ => soundly_layout hinvalid l, ih hinvalid hQ⟩

/-- **The parse makes the layout valid once it is written.** -/
theorem safe_parseReportMap_soundly (hinvalid : ¬ m.layoutValid) {conn : ℕ} {received : List U8}
    (hlast : m.lastMap = some (conn, received)) (hconn : conn + 1 = m.nextConn)
    (hlink : m.link.isSome) (hreceived : reportMap m = received.take reportMapMax)
    {Q : Unit → Central → Prop} (hQ : ∀ l b, Q () { m with layout := l, layoutValid := b }) :
    (parseReportMap cfg).Safe (central cfg) P soundly Q m := by
  rw [parseReportMap, safe_bind, safe_look, safe_bind]
  refine safe_writeLayouts_soundly hinvalid (fun l => ?_) _
  rw [safe_bind, safe_assign]
  refine ⟨fun _ => soundly_layout (m := { m with layout := l }) hinvalid _, ?_⟩
  rw [safe_ite]
  refine ⟨fun hparsed => ⟨fun io hJ => ?_, hQ _ _⟩, fun _ => ?_⟩
  · -- `layout` is what the parser makes of the buffer, and that of the value read
    have hparse : ParsesTo received (zmkHidParseReportMap (reportMap m)).2 := by
      rw [ParsesTo, ← hreceived]
      exact Prod.ext hparsed.1 rfl
    exact soundly_validate hJ hlink hlast hconn hparse
  · have heq := hQ (zmkHidParseReportMap (reportMap m)).2 m.layoutValid
    exact heq

/-- A response of the Report Map read that goes on. -/
theorem safeGatt_respondMap_chunk (hnil : m.procs = []) (hstate : m.discState = .reportMapChrc)
    (hinvalid : ¬ m.layoutValid) (hbuf : m.rmBuf.length = reportMapMax ∧ m.rmLen ≤ reportMapMax)
    {received : List U8} (hreceived : reportMap m = received.take reportMapMax) (handle : U16)
    {data : List U8} (hdata : data ≠ []) :
    SafeGatt cfg P (respondMap cfg handle received false data) m := by
  obtain ⟨hbuf', hreceived'⟩ := reportMap_storeChunk hbuf hreceived data
  rw [respondMap_chunk handle received hdata, SafeGatt, safe_bind, safe_assign]
  refine ⟨fun _ hJ => hJ, fun _ hJ => hJ, ?_⟩
  exact .of_readMap (m := storeChunk m data) hnil hstate hinvalid hbuf' hreceived' handle

/-- The response that ends the Report Map read. -/
theorem safeGatt_respondMap_end (hnil : m.procs = []) (hinvalid : ¬ m.layoutValid)
    (hbuf : m.rmBuf.length = reportMapMax ∧ m.rmLen ≤ reportMapMax) {conn : ℕ} {received : List U8}
    (hlast : m.lastMap = some (conn, received)) (hconn : conn + 1 = m.nextConn)
    (hlink : m.link.isSome) (hreceived : reportMap m = received.take reportMapMax) (handle : U16) :
    SafeGatt cfg P (respondMap cfg handle received false []) m := by
  rw [SafeGatt, respondMap, safe_bind, reportMapReadCb, if_neg Bool.false_ne_true, if_neg (by simp),
    safe_bind]
  apply safe_parseReportMap_soundly hinvalid hlast hconn hlink hreceived
  intro l b
  rw [safe_bind]
  exact safeGatt_startReportDiscovery hnil hbuf

/-- The response that ends the Report Map read with an error. -/
theorem safeGatt_respondMap_err (hnil : m.procs = [])
    (hbuf : m.rmBuf.length = reportMapMax ∧ m.rmLen ≤ reportMapMax) (handle : U16)
    (received data : List U8) : SafeGatt cfg P (respondMap cfg handle received true data) m := by
  rw [SafeGatt, respondMap, safe_bind, reportMapReadCb, if_pos rfl, safe_bind]
  exact safeGatt_startReportDiscovery hnil hbuf

/-- A discovery begins by making the layout not valid. -/
theorem GattSide.safe_startDiscovery (h : GattSide m) (hnil : m.procs = []) :
    SafeGatt cfg P startDiscovery m := by
  have hstart : startDiscovery.Safe (central cfg) P sequentially (fun _ => Sequential) m :=
    safe_startDiscovery_alone hnil
  rw [startDiscovery, safe_bind, safe_assign] at hstart
  rw [SafeGatt, startDiscovery, safe_bind, safe_assign]
  refine ⟨fun _ => soundly_unvalidate, ?_⟩
  -- what follows moves nothing but the cursor
  have hleaves {γ : Type} {φ : Central → γ}
      (hφ : ∀ {m m' : Central}, offCursor m' = offCursor m → φ m' = φ m) :
      Leaves cfg P φ (do
        assign fun m => { m with
          hidsEndHandle := 0
          discoverParams := ⟨uuidHids, firstAttributeHandle, lastAttributeHandle, .primary⟩
          discState := .hidsPrimary }
        discoverOr (pure ())) :=
    (Leaves.assign fun _ => hφ (by rfl)).bind fun _ => .discoverOr hφ (.pure ())
  refine safeGatt_of_follows true (m := { m with layoutValid := false }) hnil h.buffer
    (fun _ => Bool.false_ne_true) (Leaves.keeps (S := Sound) (hleaves guard_eq_of_offCursor)) ?_
    (hleaves fun h => h).safe
  exact hstart.2.mono fun _ _ hseq => ⟨hseq, fun _ => rfl⟩

/-! ### Callbacks of the connection -/

/-- What a callback restores between two others. -/
abbrev SafeSeparated (cfg : Setup) (P : Condition) (p : Callback Unit) (m : Central) : Prop :=
  p.Safe (central cfg) P soundly (fun _ => Separated) m

/-- What the GATT callbacks leave alone of the link. -/
def linkState (m : Central) : Option Link × ℕ := (m.link, m.nextConn)

theorem linkState_eq {m m' : Central} (h : offDiscovery m' = offDiscovery m) :
    linkState m' = linkState m := by
  show linkState (offDiscovery m') = linkState (offDiscovery m)
  rw [h]

theorem linkState_eq_of_offCursor {m m' : Central} (h : offCursor m' = offCursor m) :
    linkState m' = linkState m :=
  eq_of_offCursor (eq_of_offMap linkState_eq) h

/-- A GATT callback on a secured link. -/
theorem safeSeparated_of_safeGatt {p : Callback Unit} (h : SafeGatt cfg P p m)
    (hleaves : Leaves cfg P linkState p) {l : Link} (hl : m.link = some l)
    (hconn : l.conn + 1 = m.nextConn) (hup : l.up) (hsecured : l.secured) :
    SafeSeparated cfg P p m := by
  apply (Safe.and h hleaves.safe).mono
  intro _ m' hm'
  obtain ⟨hgatt, heq⟩ := hm'
  obtain ⟨hlink, hnext⟩ := Prod.mk.inj heq
  exact ⟨hgatt, .of_secured (hlink.trans hl) (hconn.trans hnext.symm) hup hsecured⟩

theorem Separated.congr {m' : Central} (h : Separated m) (hprocs : m'.procs = m.procs)
    (hstate : m'.discState = m.discState) (hvalid : m'.layoutValid = m.layoutValid)
    (hbuf : m'.rmBuf = m.rmBuf) (hlen : m'.rmLen = m.rmLen) (hlink : LinkSide m') :
    Separated m' :=
  ⟨h.toGattSide.congr hprocs hstate hvalid hbuf hlen, hlink⟩

/-- A scan start changes nothing that counts here. -/
theorem Separated.safe_startScan (h : Separated m) : SafeSeparated cfg P startScan m := by
  have hsound : startScan.Keeps (central cfg) P soundly :=
    keeps_startScan (fun _ _ _ hJ => hJ) fun _ _ hJ => hJ
  have hkeeps : startScan.Keeps (central cfg) P fun m _ => Separated m :=
    keeps_startScan
      (fun _ _ _ h => h.congr rfl rfl rfl rfl rfl (h.toLinkSide.congr rfl rfl rfl rfl rfl))
      fun _ _ h => h.congr rfl rfl rfl rfl rfl (h.toLinkSide.congr rfl rfl rfl rfl rfl)
  exact (hkeeps.safe h).keeping hsound

/-- The link's flags may change, but for its being up and secured. -/
theorem LinkSide.mapLink (h : LinkSide m) {f : Link → Link} (hconn : ∀ l, (f l).conn = l.conn)
    (hup : ∀ l, (f l).up = l.up) (hsecured : ∀ l, (f l).secured = l.secured) :
    LinkSide { m with link := m.link.map f } where
  current l' hl' := by
    obtain ⟨l, hl, rfl⟩ := Option.map_eq_some_iff.mp hl'
    rw [hconn]
    exact h.current l hl
  secured_up l' hl' := by
    obtain ⟨l, hl, rfl⟩ := Option.map_eq_some_iff.mp hl'
    rw [hup, hsecured]
    exact h.secured_up l hl
  cleared hdown := h.cleared fun l hl => by
    rw [← hup]
    exact hdown (f l) (Option.map_eq_some_iff.mpr ⟨l, hl, rfl⟩)
  fresh hopen := h.fresh fun l hl => by
    rw [← hsecured]
    exact hopen (f l) (Option.map_eq_some_iff.mpr ⟨l, hl, rfl⟩)

/-- A connection is created while there is no link, and so behind an empty queue. -/
theorem Separated.safe_deviceFound (h : Separated m) (htracked : Tracked m) (addr : Addr)
    (type : AdvType) (ad : List BtData) : SafeSeparated cfg P (deviceFound cfg addr type ad) m := by
  rw [SafeSeparated, deviceFound, safe_bind, safe_look, safe_ite]
  refine ⟨?_, fun _ => h⟩
  intro htarget
  have hlink : m.link = none := (htracked.unconnected htarget.1).link_eq
  rw [connectTo, safe_bind, safe_ask]
  intro err m' _ hans
  have hlink' : m'.link = none := by
    cases err <;> cases hans <;> exact hlink
  have hsep : Separated m' := by
    cases err <;> cases hans <;>
      exact h.congr rfl rfl rfl rfl rfl (h.toLinkSide.congr rfl rfl rfl rfl rfl)
  have hsound (io : Pipeline) (hJ : soundly m io) : soundly m' io := by
    cases err <;> cases hans <;> exact hJ
  refine ⟨hsound, ?_⟩
  rw [safe_ite]
  refine ⟨fun _ => hsep, fun _ => (safe_askOr (by simp) (by simp) _).mpr
    ⟨fun _ => ?_, fun _ _ _ => hsep.safe_startScan⟩⟩
  have hnone (l : Link) : m'.link ≠ some l := hlink' ▸ (Option.some_ne_none l).symm
  obtain ⟨hmay, hinvalid⟩ := hsep.cleared fun l hl => absurd hl (hnone l)
  have hnil : m'.procs = [] := hsep.fresh fun l hl => absurd hl (hnone l)
  refine ⟨fun io hJ => soundly_create hJ hmay hinvalid addr, hsep.congr rfl rfl rfl rfl rfl ?_⟩
  -- the new link is neither up nor secured
  refine ⟨?_, ?_, fun _ => ⟨hmay, hinvalid⟩, fun _ => hnil⟩
  · intro l hl
    cases hl
    rfl
  · intro l hl hsecured
    cases hl
    cases hsecured

theorem Separated.safe_connected (h : Separated m) {l : Link} (hl : m.link = some l) (hup : ¬ l.up)
    (err : Bool) : SafeSeparated cfg P (connected err)
      { m with link := if err then none else some { l with up := true } } := by
  have hsecured : ¬ l.secured := fun hsecured => hup (h.secured_up l hl hsecured)
  have hcleared : ¬ m.mayQueue ∧ ¬ m.layoutValid := h.cleared fun l' hl' => by
    cases hl.symm.trans hl'
    exact hup
  have hnil : m.procs = [] := h.fresh fun l' hl' => by
    cases hl.symm.trans hl'
    exact hsecured
  rw [SafeSeparated, connected, safe_ite]
  constructor
  · intro herr
    rw [if_pos herr]
    simp only [unrefDefaultConn, safe_bind, safe_assign]
    refine ⟨fun _ hJ => hJ, fun _ hJ => hJ, ?_⟩
    have hlink : LinkSide { m with
        link := none
        unrefs := m.unrefs ++ m.defaultConn.toList
        defaultConn := none } := .of_none rfl hcleared hnil
    exact Separated.safe_startScan (h.congr rfl rfl rfl rfl rfl hlink)
  · intro herr
    rw [if_neg herr]
    have hlink : LinkSide { m with link := some { l with up := true } } := by
      refine ⟨?_, ?_, fun hdown => absurd rfl (hdown _ rfl), fun _ => hnil⟩
      · intro l' hl'
        cases hl'
        exact h.current l hl
      · intro l' hl' _
        cases hl'
        rfl
    have hsep : Separated { m with link := some { l with up := true } } :=
      h.congr rfl rfl rfl rfl rfl hlink
    apply (safe_askOr (by simp) (by simp) _).mpr
    refine ⟨fun _ => ⟨fun _ hJ => hJ, ?_⟩, fun _ _ _ => hsep⟩
    exact hsep.congr rfl rfl rfl rfl rfl
      (hlink.mapLink (fun _ => rfl) (fun _ => rfl) fun _ => rfl)

/-- A report of success finds no discovery begun, and a failure leaves it alone. -/
theorem Separated.safe_securityChanged (h : Separated m) {l : Link} (hl : m.link = some l)
    (hup : l.up) (level : ℕ) (err : Bool)
    (honce : securedOnce.onEvent m (.securityChanged level err)) :
    SafeSeparated cfg P (securityChanged l.peer level err)
      { m with
        link := some { l with
          securing := false
          secured := l.secured || reportsSecured level err } } := by
  rw [SafeSeparated, securityChanged, safe_ite]
  constructor
  · -- the link is marked, and a disconnect is requested
    intro hfail
    have hreports : reportsSecured level err = false :=
      Bool.eq_false_of_not_eq_true fun hreports => reportsSecured_iff.mp hreports hfail
    have hlink : LinkSide { m with
        link := some { l with
          securing := false
          secured := l.secured || reportsSecured level err } } := by
      rw [hreports, Bool.or_false]
      have hmap := h.toLinkSide.mapLink (f := fun l => { l with securing := false })
        (fun _ => rfl) (fun _ => rfl) fun _ => rfl
      rwa [hl, Option.map_some] at hmap
    have hfailed : LinkSide { m with
        link := some { l with
          securing := false
          secured := l.secured || reportsSecured level err }
        lastFailedAddr := l.peer
        lastFailedMs := kUptimeGet32 m } := hlink.congr rfl rfl rfl rfl rfl
    rw [securityFailed, safe_bind, safe_assign]
    refine ⟨fun _ hJ => hJ, (safe_askOr (by simp) (by simp) _).mpr
      ⟨fun _ => ⟨fun _ hJ => hJ, ?_⟩, fun _ _ _ => h.congr rfl rfl rfl rfl rfl hfailed⟩⟩
    exact h.congr rfl rfl rfl rfl rfl
      (hfailed.mapLink (f := fun l => { l with disconnecting := true })
        (fun _ => rfl) (fun _ => rfl) fun _ => rfl)
  · -- the first success on this link, so that no procedure is outstanding
    intro hsucc
    have hreports : reportsSecured level err = true := reportsSecured_iff.mpr hsucc
    have hopen : ¬ l.secured := by simpa [securedOnce, hreports, hl] using honce
    have hnil : m.procs = [] := h.fresh fun l' hl' => by
      cases hl.symm.trans hl'
      exact hopen
    refine safeSeparated_of_safeGatt (GattSide.safe_startDiscovery ?_ hnil)
      (leaves_startDiscovery linkState_eq) rfl (h.current l hl) hup ?_
    · exact h.toGattSide.congr rfl rfl rfl rfl rfl
    · rw [hreports, Bool.or_true]

/-- **A disconnect** ends what the layout and the queue hold of the connection, whatever
the handler does between its assignments. -/
theorem Separated.safe_disconnected (h : Separated m) (htracked : Tracked m) {l : Link}
    (hl : m.link = some l) : SafeSeparated cfg P (disconnected cfg l.conn)
      { m with link := none, procs := [], subscribed := [] } := by
  have hconn : m.defaultConn = some l.conn := by rw [← htracked.link_eq, hl, Option.map_some]
  rw [SafeSeparated, disconnected, safe_bind, safe_look, safe_ite]
  refine ⟨fun hne => absurd hconn hne, ?_⟩
  intro _
  have hlt : l.conn < m.nextConn := Nat.lt_of_succ_le (h.current l hl).le
  simp only [unrefDefaultConn, invalidateLayout, safe_bind, safe_assign, safe_emit]
  -- the order counts: the layout is invalidated first, and the queue is purged behind it
  refine ⟨fun _ hJ => hJ, fun _ hJ => hJ, fun _ hJ => hJ, fun _ hJ => hJ,
    fun _ hJ => soundly_invalidate hJ rfl hlt, fun _ hJ => hJ, fun _ hJ => soundly_purge hJ,
    fun _ hJ => ⟨hJ.tags, hJ.empty, hJ.last, hJ.parsed, hJ.stale, hJ.isolated⟩, ?_⟩
  refine Separated.safe_startScan ⟨⟨.of_nil rfl, fun _ => Bool.false_ne_true,
    ⟨h.buffer.1, Nat.zero_le _⟩, fun _ _ hr => absurd hr List.not_mem_nil⟩, ?_⟩
  exact .of_none rfl ⟨Bool.false_ne_true, Bool.false_ne_true⟩ rfl

/-- A notification is queued under its connection. -/
theorem Separated.safe_notifyCb (h : Separated m) {l : Link} (hl : m.link = some l) (hup : l.up)
    (slot : ℕ) (data : List U8) : SafeSeparated cfg P (notifyCb l.conn slot data) m := by
  rw [SafeSeparated, notifyCb, safe_emit]
  refine ⟨fun _ hJ => soundly_msgqPut hJ (h.current l hl) _, h.congr rfl rfl rfl rfl rfl ?_⟩
  exact ⟨h.current, h.secured_up, fun hdown => absurd hup (hdown l hl), h.fresh⟩

/-! ### Runs -/

/-- **Each event is survived.** -/
theorem Separated.safe_enter (h : Separated m) (htracked : Tracked m) {e : Event} {m' : Central}
    {io' : Pipeline} {p : Callback Unit} (hok : securedOnce.onEvent m e) (hJ : soundly m io)
    (henter : Entered cfg m io e m' io' p) : soundly m' io' ∧ SafeSeparated cfg P p m' := by
  cases henter with
  | advertise addr type ad => exact ⟨hJ, h.safe_deviceFound htracked addr type ad⟩
  | scanRetry =>
    refine ⟨hJ, ?_⟩
    have hretry : Separated { m with retryPending := false } :=
      h.congr rfl rfl rfl rfl rfl (h.toLinkSide.congr rfl rfl rfl rfl rfl)
    rw [SafeSeparated, scanRetryHandler, safe_bind, safe_look, safe_ite]
    exact ⟨fun _ => hretry.safe_startScan, fun _ => hretry⟩
  | connected err hl hup => exact ⟨soundly_setLink hl _ hJ, h.safe_connected hl hup err⟩
  | securityChanged level err hl hup =>
    exact ⟨soundly_setLink hl _ hJ, h.safe_securityChanged hl hup level err hok⟩
  | disconnected hl => exact ⟨soundly_setLink hl none hJ, h.safe_disconnected htracked hl⟩
  | @discovered n l hl hup q hq a =>
    obtain ⟨hnil, hnames⟩ := h.sequential.take hq
    exact ⟨hJ, safeSeparated_of_safeGatt ((h.toGattSide.take hq).safe_deliver hnil hnames a)
      (leaves_deliver (eq_of_offMap linkState_eq) q a) hl (h.current l hl) hup
      (h.secured_of_proc hl hq)⟩
  | @discoverDone n l hl hup q hq =>
    obtain ⟨hnil, -⟩ := h.sequential.take hq
    exact ⟨hJ, safeSeparated_of_safeGatt ((h.toGattSide.take hq).safe_finishDiscover hnil)
      (leaves_finishDiscover linkState_eq_of_offCursor) hl (h.current l hl) hup
      (h.secured_of_proc hl hq)⟩
  | @readMap n err data l hl hup handle received hq =>
    obtain ⟨hnil, hnames⟩ := h.sequential.take hq
    have hstate : m.discState = .reportMapChrc := hnames
    have hinvalid : ¬ m.layoutValid := h.early (by rw [hstate]; rfl)
    have hreceived : reportMap m = received.take reportMapMax :=
      h.received handle received (List.mem_of_getElem? hq)
    refine ⟨soundly_recordMapRead (m := takeProc n m) hJ hinvalid l.conn received err data, ?_⟩
    refine safeSeparated_of_safeGatt ?_ (leaves_respondMap linkState_eq handle received err data) hl
      (h.current l hl) hup (h.secured_of_proc hl hq)
    have hnil' : (noteMapRead l.conn received err data (takeProc n m)).procs = [] := hnil
    cases err with
    | true => exact safeGatt_respondMap_err hnil' h.buffer handle received data
    | false =>
      by_cases hdata : data = []
      · subst hdata
        exact safeGatt_respondMap_end hnil' hinvalid h.buffer rfl (h.current l hl)
          (Option.isSome_iff_exists.mpr ⟨l, hl⟩) hreceived handle
      · exact safeGatt_respondMap_chunk hnil' hstate hinvalid h.buffer hreceived handle hdata
  | @readRef n err data l hl hup handle hq =>
    obtain ⟨hnil, -⟩ := h.sequential.take hq
    exact ⟨hJ, safeSeparated_of_safeGatt ((h.toGattSide.take hq).safe_respondRef hnil err data)
      (leaves_respondRef linkState_eq_of_offCursor err data) hl (h.current l hl) hup
      (h.secured_of_proc hl hq)⟩
  | notified slot data hl hup => exact ⟨hJ, h.safe_notifyCb hl hup slot data⟩
  | unsubscribed slot =>
    refine ⟨hJ, ?_⟩
    have hsub : Separated { m with subscribed := m.subscribed.erase slot } :=
      h.congr rfl rfl rfl rfl rfl (h.toLinkSide.congr rfl rfl rfl rfl rfl)
    rw [SafeSeparated, unsubscribed, safe_assign]
    refine ⟨fun _ hJ => hJ, ?_⟩
    exact hsub.congr rfl rfl rfl rfl rfl (hsub.toLinkSide.congr rfl rfl rfl rfl rfl)
  | timePasses =>
    exact ⟨hJ, h.congr rfl rfl rfl rfl rfl (h.toLinkSide.congr rfl rfl rfl rfl rfl)⟩
  | bonded =>
    exact ⟨hJ, h.congr rfl rfl rfl rfl rfl (h.toLinkSide.congr rfl rfl rfl rfl rfl)⟩

/-- Every state reached is sound, and separated between two callbacks. -/
theorem separated_of_reachable {s : System} (h : Reachable cfg securedOnce s) :
    soundly s.main s.io ∧ (s.Idle → Separated s.main) := by
  obtain ⟨bonds, uptime, accepts, hreach⟩ := h
  have hstart : Unconnected (Central.start bonds uptime) := ⟨rfl, rfl, fun _ => rfl⟩
  have hsep : Separated (Central.start bonds uptime) := by
    refine ⟨⟨.of_nil rfl, fun _ => Bool.false_ne_true, ?_,
      fun _ _ hr => absurd hr List.not_mem_nil⟩,
      .of_none rfl ⟨Bool.false_ne_true, Bool.false_ne_true⟩ rfl⟩
    exact ⟨List.length_replicate, Nat.zero_le _⟩
  have hinit : soundly (Central.start bonds uptime) (Pipeline.start accepts) :=
    ⟨fun q hq => absurd hq List.not_mem_nil, fun _ => rfl, rfl, (absurd · Bool.false_ne_true),
      fun k hk => absurd hk List.not_mem_nil, throughout_nil⟩
  have hinv := Machine.invariant (I := fun m => Separated m ∧ Tracked m) (J := soundly)
    ⟨hinit, Safe.and hsep.safe_startScan hstart.safe_startScan⟩
    (fun m io hJ _ => soundly_reportWorkTurn hJ) (fun e m io m' io' p hI hJ hok henter => ?_) hreach
  · refine ⟨hinv.1, fun hidle => ?_⟩
    have hend := hinv.2
    rw [hidle] at hend
    exact hend.1
  · obtain ⟨hsep, htracked⟩ := hI
    have hentered : Entered cfg m io e m' io' p := entered_of_enter henter
    obtain ⟨hJ', hsafe⟩ := hsep.safe_enter htracked hok hJ hentered
    exact ⟨hJ', Safe.and hsafe (htracked.safe_enter hentered)⟩

/-- **Connections are isolated** in a run where success of a security procedure is
reported once per connection: every report that was published was received on the
connection whose Report Map, read to its end, was parsed to the layout it was decoded
with; and behind a disconnect that connection is a later one, and its read too. -/
theorem isolated_of_securedOnce {s : System} (h : Reachable cfg securedOnce s)
    {before after : List Observation} {conn : ℕ} {evt : ReportEvt} {valid : Bool}
    {layout : ReportLayout}
    (htrace : s.io.trace = before ++ .published conn evt valid layout :: after) :
    valid ∧ ∃ bytes, ParsesTo bytes layout ∧ .mapRead conn bytes ∈ before ∧
      ∀ old k new, before = old ++ .invalidated k :: new →
        k < conn ∧ .mapRead conn bytes ∈ new := by
  have hisolated : Isolated s.io.trace := (separated_of_reachable h).1.isolated
  obtain ⟨hvalid, ⟨bytes, hlast, hparse⟩, hlater⟩ := hisolated before _ after htrace
  refine ⟨hvalid, bytes, hparse, mem_of_lastMapRead hlast, ?_⟩
  intro old k new hsplit
  refine ⟨hlater k (by rw [hsplit]; simp), ?_⟩
  -- a read that a disconnect invalidated would not count
  rw [hsplit, lastMapRead_invalidated] at hlast
  exact mem_of_lastMapRead hlast

/-- A report is published, the peer disconnects, and a second connection is set up and
reports. -/
def reconnectRun : List (Action Errno Event) :=
  subscribeRun 1 1 ++ notifiedTurn 0 [3, 4] ++ [.event .disconnected] ++ ticks 9 ++
    subscribeRun 1 1 ++ notifiedTurn 0 [5, 6]

/-- What that run observes before the second report. -/
def reconnectTrace : List Observation :=
  [.mapRead 0 pointerMap,
   .published 0 ⟨5, 1, [3, 4]⟩ true (zmkHidParseReportMap pointerMap).2,
   .invalidated 0,
   .mapRead 1 pointerMap]

/-- The second report is decoded with the Report Map that was read after the first
connection had ended. -/
theorem reconnectRun_isolated :
    ∃ s, stateAfter (.plain (reportTable [4])) reconnectRun = some s ∧
      s.io.trace = reconnectTrace ++
        [.published 1 ⟨5, 1, [5, 6]⟩ true (zmkHidParseReportMap pointerMap).2] ∧
      ∃ bytes, ParsesTo bytes (zmkHidParseReportMap pointerMap).2 ∧
        .mapRead 1 bytes ∈ reconnectTrace ∧
          ∀ old k new, reconnectTrace = old ++ .invalidated k :: new →
            k < 1 ∧ .mapRead 1 bytes ∈ new := by
  have hmeets : Meeting (.plain (reportTable [4])) securedOnce reconnectRun := by decide +kernel
  have htrace : (stateAfter (.plain (reportTable [4])) reconnectRun).map (fun s => s.io.trace) =
      some (reconnectTrace ++
        [.published 1 ⟨5, 1, [5, 6]⟩ true (zmkHidParseReportMap pointerMap).2]) := by decide +kernel
  obtain ⟨s, hs, heq⟩ := Option.map_eq_some_iff.mp htrace
  exact ⟨s, hs, heq, (isolated_of_securedOnce (reachable_stateAfter hmeets hs) heq).2⟩

end BleHidHost
