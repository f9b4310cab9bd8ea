import BleHidHost.Isolation
import BleHidHost.Lib.Log

/-!
# The Report Map is reassembled

The stack delivers the value of the Report Map in chunks, as long as its MTU allows, and
then calls back once more without data.  The chunks are collected in a buffer of 512
bytes that outlives reads and connections, and what does not fit is cut off.

## Main definitions

* `Delivery`, `deliveryScribe` — the chunks that a run has delivered.
* `oneRead` — the condition that no other read begins, and that none is invalidated.
* `ReadSide` — the variables of the read.
* `Reassembled` — what holds of them between two callbacks.

## Main results

* `bounded_of_reachable` — **no state reached has used more than the buffer.**
* `reassembled_of_delivered` — **the layout is that of the value's first 512 bytes,
  however the value was delivered.**
* `exists_delivery` — some run delivers it in any given chunks.
-/

namespace BleHidHost

open Lib Lib.Prog

variable {cfg : Setup} {P : Condition} {m : Central} {io : Pipeline}

/-! ### The variables of the read -/

/-- The buffer, the layout, and the reads of the Report Map that are outstanding. -/
structure ReadSide where
  rmBuf : List U8
  rmLen : ℕ
  layout : ReportLayout
  layoutValid : Bool
  reads : List Proc

/-- The variables of the read in a state. -/
def readSide (m : Central) : ReadSide :=
  ⟨m.rmBuf, m.rmLen, m.layout, m.layoutValid, m.procs.filter Proc.isMap⟩

/-- The buffer has its size, and what is in use of it lies inside. -/
def ReadSide.Bounded (r : ReadSide) : Prop :=
  r.rmBuf.length = reportMapMax ∧ r.rmLen ≤ reportMapMax

theorem readSide_eq_of_offCursor {m m' : Central} (h : offCursor m' = offCursor m) :
    readSide m' = readSide m := by
  have hof (m : Central) : readSide m = ⟨(offCursor m).rmBuf, (offCursor m).rmLen,
      (offCursor m).layout, (offCursor m).layoutValid, (offCursor m).procs⟩ := rfl
  rw [hof m', hof m, h]

theorem readSide_eq_of_offLink {m m' : Central} (h : offLink m' = offLink m) :
    readSide m' = readSide m := by
  show readSide (offLink m') = readSide (offLink m)
  rw [h]

/-- The procedure that is taken is missed among the reads if it is one. -/
theorem reads_takeProc {n : ℕ} {p : Proc} (hq : m.procs[n]? = some p) :
    ∃ before after, (readSide m).reads = before ++ ([p].filter Proc.isMap ++ after) ∧
      (readSide (takeProc n m)).reads = before ++ after := by
  obtain ⟨hlt, hget⟩ := List.getElem?_eq_some_iff.mp hq
  refine ⟨(m.procs.take n).filter Proc.isMap, (m.procs.drop (n + 1)).filter Proc.isMap, ?_, ?_⟩
  · have hsplit : m.procs = m.procs.take n ++ ([p] ++ m.procs.drop (n + 1)) := by
      conv_lhs => rw [← List.take_append_drop n m.procs, List.drop_eq_getElem_cons hlt, hget]
      rfl
    rw [← List.filter_append, ← List.filter_append, ← hsplit]
    rfl
  · rw [← List.filter_append, ← List.eraseIdx_eq_take_drop_succ]
    rfl

/-- A procedure that is none is not missed. -/
theorem readSide_takeProc {n : ℕ} {p : Proc} (hq : m.procs[n]? = some p) (hp : p.isMap = false) :
    readSide (takeProc n m) = readSide m := by
  obtain ⟨before, after, hreads, htaken⟩ := reads_takeProc hq
  have heq : (readSide (takeProc n m)).reads = (readSide m).reads := by
    rw [hreads, htaken, List.filter_cons_of_neg (by simp [hp]), List.filter_nil, List.nil_append]
  simp only [readSide, ReadSide.mk.injEq] at heq ⊢
  exact ⟨rfl, rfl, rfl, rfl, heq⟩

/-! ### Events -/

/-- What only concerns the link spares the read. -/
theorem spared_of_offLink {m m' : Central} {r : ReadSide} (h : offLink m' = offLink m)
    (hr : readSide m = r) : readSide m' = r :=
  (readSide_eq_of_offLink h).trans hr

theorem spared_of_offScan {m m' : Central} {r : ReadSide} (h : offScan m' = offScan m)
    (hr : readSide m = r) : readSide m' = r :=
  spared_of_offLink (offLink_eq_of_offScan h) hr

/-- The response is one to a read of the Report Map. -/
def isMapResponse (m : Central) : Event → Bool
  | .readResponse n _ _ => (m.procs[n]?).any Proc.isMap
  | _ => false

/-- What an event does to a read of the Report Map: it leaves it alone, or it is one of
those that begin a read, end it or take it further. -/
inductive ReadStep (cfg : Setup) (P : Condition) (m : Central) :
    Event → Central → Callback Unit → Prop
  | apart {e : Event} {m' : Central} {p : Callback Unit} (hside : readSide m' = readSide m)
      (hp : Spares cfg P readSide p) (hmap : isMapResponse m e = false) : ReadStep cfg P m e m' p
  | ended {m' : Central} (conn : ℕ) (hbuf : m'.rmBuf = m.rmBuf) (hlen : m'.rmLen = m.rmLen) :
    ReadStep cfg P m .disconnected m' (disconnected cfg conn)
  | secured {level : ℕ} {err : Bool} {m' : Central} (hok : reportsSecured level err)
      (hside : readSide m' = readSide m) :
    ReadStep cfg P m (.securityChanged level err) m' startDiscovery
  | found {n : ℕ} {m' : Central} (hside : readSide m' = readSide m)
      (hstate : m'.discState = m.discState) (q : DiscoverParams) (a : Attr) :
    ReadStep cfg P m (.discovered n) m' (deliver q a)
  | responded {n : ℕ} (conn : ℕ) (handle : U16) (received : List U8)
      (hq : m.procs[n]? = some (.readMap handle received)) (err : Bool) (data : List U8) :
    ReadStep cfg P m (.readResponse n err data)
      (noteMapRead conn received err data (takeProc n m)) (respondMap cfg handle received err data)

/-- **Every event is one of these.** -/
theorem readStep_of_entered {e : Event} {m' : Central} {io' : Pipeline} {p : Callback Unit}
    (h : Entered cfg m io e m' io' p) : ReadStep cfg P m e m' p := by
  cases h with
  | advertise addr type ad =>
    exact .apart rfl (fun _ => keeps_deviceFound spared_of_offScan addr type ad) rfl
  | scanRetry => exact .apart rfl (fun _ => keeps_scanRetryHandler spared_of_offScan) rfl
  | connected err => exact .apart rfl (fun _ => keeps_connected spared_of_offScan err) rfl
  | securityChanged level err =>
    by_cases hok : reportsSecured level err
    · simp only [securityChanged, if_neg (reportsSecured_iff.mp hok)]
      exact .secured hok rfl
    · simp only [securityChanged, if_pos (not_not.mp (mt reportsSecured_iff.mpr hok))]
      exact .apart rfl (fun _ => keeps_securityFailed spared_of_offLink _) rfl
  | @disconnected l hl => exact .ended l.conn rfl rfl
  | discovered n hl hup hq ha => exact .found (readSide_takeProc hq rfl) rfl _ _
  | discoverDone n hl hup hq =>
    exact .apart (readSide_takeProc hq rfl)
      (leaves_finishDiscover readSide_eq_of_offCursor).spares rfl
  | readMap n err data hl hup hq => exact .responded _ _ _ hq err data
  | readRef n err data hl hup hq =>
    refine .apart (readSide_takeProc hq rfl)
      (leaves_respondRef readSide_eq_of_offCursor err data).spares ?_
    simp only [isMapResponse, hq]
    rfl
  | notified slot data =>
    exact .apart rfl (fun _ => (keeps_emit _ _).mpr fun _ _ hm => hm) rfl
  | unsubscribed slot =>
    exact .apart rfl (leaves_unsubscribed readSide_eq_of_offCursor slot).spares rfl
  | timePasses => exact .apart rfl (fun _ => keeps_pure ()) rfl
  | bonded => exact .apart rfl (fun _ => keeps_pure ()) rfl

/-! ### The buffer is not exceeded -/

/-- The buffer is not exceeded. -/
def bounded (m : Central) (_ : Pipeline) : Prop := (readSide m).Bounded

theorem bounded_of_readSide {m m' : Central} {io' : Pipeline} (h : readSide m' = readSide m)
    (hm : bounded m io) : bounded m' io' := by
  unfold bounded
  rwa [h]

/-- A chunk does not exceed the buffer, whatever it holds. -/
theorem bounded_storeChunk (hm : bounded m io) (data : List U8) :
    bounded (storeChunk m data) io := by
  have hfits : (reportMap m).length ≤ reportMapMax :=
    (List.length_take_le _ _).trans hm.2
  exact (reportMap_storeChunk hm (List.take_of_length_le hfits).symm data).1

theorem keeps_startReportDiscovery : startReportDiscovery.Keeps (central cfg) P bounded :=
  (leaves_startReportDiscovery readSide_eq_of_offCursor).spares.keeps ReadSide.Bounded

theorem keeps_writeLayouts (ls : List ReportLayout) :
    (writeLayouts ls).Keeps (central cfg) P bounded := by
  induction ls with
  | nil => exact keeps_pure ()
  | cons l ls ih => exact .bind ((keeps_assign _).mpr fun _ _ hm => hm) fun _ => ih

theorem keeps_parseReportMap : (parseReportMap cfg).Keeps (central cfg) P bounded := by
  refine .bind keeps_look fun m => .bind (keeps_writeLayouts _) fun _ => ?_
  refine .bind ((keeps_assign _).mpr fun _ _ hm => hm) fun _ => ?_
  exact .ite ((keeps_assign _).mpr fun _ _ hm => hm) (keeps_pure ())

theorem keeps_respondMap (handle : U16) (received : List U8) (err : Bool) (data : List U8) :
    (respondMap cfg handle received err data).Keeps (central cfg) P bounded := by
  refine .bind (.ite ?_ (.ite ?_ ?_)) ?_
  · exact .bind keeps_startReportDiscovery fun _ => keeps_pure _
  · exact .bind ((keeps_assign _).mpr fun _ _ hm => bounded_storeChunk hm data)
      fun _ => keeps_pure _
  · refine .bind keeps_parseReportMap fun _ => ?_
    exact .bind keeps_startReportDiscovery fun _ => keeps_pure _
  · intro i
    cases i with
    | «continue» => exact (keeps_assign _).mpr fun _ _ hm => hm
    | stop => exact keeps_pure ()

theorem keeps_readReportMap (handle : U16) :
    (readReportMap handle).Keeps (central cfg) P bounded := by
  refine .bind ((keeps_assign _).mpr fun _ _ hm => ⟨hm.1, Nat.zero_le _⟩) fun _ => ?_
  exact keeps_askOr (by simp) (by simp) (fun _ _ hm => hm) keeps_startReportDiscovery

theorem keeps_deliver (q : DiscoverParams) (a : Attr) :
    (deliver q a).Keeps (central cfg) P bounded := by
  have hstop {p : Callback Unit} (hp : Leaves cfg P readSide p) :
      (do p; pure Iter.stop : Callback Iter).Keeps (central cfg) P bounded :=
    .bind (hp.spares.keeps ReadSide.Bounded) fun _ => keeps_pure _
  have hside {m m' : Central} : offCursor m' = offCursor m → readSide m' = readSide m :=
    readSide_eq_of_offCursor
  refine .bind (.bind keeps_look fun m => ?_) fun i => ?_
  · cases m.discState with
    | idle => exact keeps_pure _
    | hidsPrimary => exact hstop (leaves_discoverReportMap hside a)
    | reportMapChrc => exact .bind (keeps_readReportMap _) fun _ => keeps_pure _
    | reportChrc =>
      exact .bind ((leaves_collectReport hside a).spares.keeps ReadSide.Bounded) fun _ => keeps_pure _
    | reportRef => exact hstop (leaves_readReportRef hside _)
    | ccc => exact hstop (leaves_wireReport hside a)
  · cases i with
    | «continue» => exact (keeps_assign _).mpr fun _ _ hm => hm
    | stop => exact keeps_pure ()

theorem keeps_startDiscovery : startDiscovery.Keeps (central cfg) P bounded := by
  refine .bind ((keeps_assign _).mpr fun _ _ hm => hm) fun _ => ?_
  refine .bind ((keeps_assign _).mpr fun _ _ hm => hm) fun _ => ?_
  exact .bind keeps_look fun _ =>
    keeps_askOr (by simp) (by simp) (fun _ _ hm => hm) (keeps_pure ())

theorem keeps_disconnected (conn : ℕ) :
    (disconnected cfg conn).Keeps (central cfg) P bounded := by
  have hassign {f : Central → Central} {g : Central → Pipeline → Pipeline}
      (hf : ∀ m io, bounded m io → bounded (f m) io) :
      (emit f g : Callback Unit).Keeps (central cfg) P bounded :=
    (keeps_emit f g).mpr hf
  refine .bind keeps_look fun _ => .ite (keeps_pure ()) ?_
  refine .bind (hassign fun _ _ hm => hm) fun _ => ?_
  refine .bind (hassign fun _ _ hm => hm) fun _ => ?_
  refine .bind (hassign fun _ _ hm => hm) fun _ => ?_
  refine .bind (hassign fun _ _ hm => hm) fun _ => ?_
  refine .bind (hassign fun _ _ hm => hm) fun _ => ?_
  refine .bind (hassign fun _ _ hm => ⟨hm.1, Nat.zero_le _⟩) fun _ => ?_
  refine .bind (hassign fun _ _ hm => hm) fun _ => ?_
  refine .bind (hassign fun _ _ hm => hm) fun _ => ?_
  exact keeps_startScan (fun _ _ _ hm => hm) fun _ _ hm => hm

/-- **Each event keeps the buffer bounded.** -/
theorem ReadStep.bounded {e : Event} {m' : Central} {io' : Pipeline} {p : Callback Unit}
    (h : ReadStep cfg P m e m' p) (hm : bounded m io) :
    bounded m' io' ∧ p.Keeps (central cfg) P bounded := by
  cases h with
  | apart hside hp _ => exact ⟨bounded_of_readSide hside hm, hp.keeps ReadSide.Bounded⟩
  | ended conn hbuf hlen =>
    refine ⟨?_, keeps_disconnected conn⟩
    exact ⟨(congrArg List.length hbuf).trans hm.1, hlen.le.trans hm.2⟩
  | secured _ hside => exact ⟨bounded_of_readSide hside hm, keeps_startDiscovery⟩
  | found hside _ q a => exact ⟨bounded_of_readSide hside hm, keeps_deliver q a⟩
  | responded conn handle received _ err data =>
    exact ⟨hm, keeps_respondMap handle received err data⟩

/-- **The buffer is never exceeded**, in whatever order the stack calls back. -/
theorem bounded_of_reachable {s : System} (h : Reachable cfg P s) : (readSide s.main).Bounded := by
  obtain ⟨bonds, uptime, accepts, hreach⟩ := h
  have hsafe {m : Central} {p : Callback Unit} (hp : p.Keeps (central cfg) P bounded)
      (hm : (readSide m).Bounded) :
      p.Safe (central cfg) P bounded (fun _ m' => (readSide m').Bounded) m :=
    Keeps.safe hp hm
  have hinit : bounded (Central.start bonds uptime) (Pipeline.start accepts) :=
    ⟨List.length_replicate, Nat.zero_le _⟩
  have hscan : startScan.Safe (central cfg) P bounded (fun _ m' => (readSide m').Bounded)
      (Central.start bonds uptime) :=
    hsafe (keeps_startScan (fun _ _ _ hm => hm) fun _ _ hm => hm) hinit
  refine (Machine.invariant (I := fun m => (readSide m).Bounded) (J := bounded)
    ⟨hinit, hscan⟩ (fun _ _ hm _ => hm) ?_ hreach).1
  intro e m io m' io' p hm hJ _ henter
  obtain ⟨hm', hp⟩ := (readStep_of_entered (P := P) (entered_of_enter henter)).bounded hJ
  exact ⟨hm', hsafe hp hm'⟩

/-! ### What is delivered -/

/-- What the stack has delivered of a Report Map: the chunks, one call each, and whether
the call without data has ended them. -/
structure Delivery where
  chunks : List (List U8)
  ended : Bool
  deriving DecidableEq

/-- The value as far as it has been delivered. -/
def Delivery.value (d : Delivery) : List U8 := d.chunks.flatten

/-- One more call. -/
def Delivery.respond (d : Delivery) (data : List U8) : Delivery :=
  if data = [] then { d with ended := true } else { d with chunks := d.chunks ++ [data] }

/-- What a response delivers is written down; an error delivers nothing. -/
def deliveryScribe : Scribe Central Request Errno Event Delivery where
  onAnswer _ _ _ d := d
  onEvent m e d :=
    match e with
    | .readResponse _ false data => if isMapResponse m e then d.respond data else d
    | _ => d

/-- No other read of a Report Map begins, and no disconnect and no new discovery makes the
layout not valid. -/
def oneRead : Condition where
  onAnswer _ _ _ := true
  onEvent m e :=
    match e with
    | .disconnected => false
    | .securityChanged level err => !reportsSecured level err
    | .discovered _ => m.discState != .reportMapChrc
    | _ => true
  onWork _ _ := true

/-- The parser accepts this map, and finds a pointer in it. -/
def makesValid (map : List U8) : Bool :=
  decide ((zmkHidParseReportMap map).1 = 0 ∧ (zmkHidParseReportMap map).2.valid)

/-- The buffer holds what was delivered, as far as it fits, and behind the end the layout
is the one that is parsed from that; `valid` is the flag as it was before the read. -/
structure Reassembled (valid : Bool) (r : ReadSide) (d : Delivery) : Prop where
  bounded : r.Bounded
  map : r.rmBuf.take r.rmLen = d.value.take reportMapMax
  pending : ¬ d.ended → r.reads.length ≤ 1 ∧ r.layoutValid = valid
  parsed : d.ended → r.reads = [] ∧
    r.layout = (zmkHidParseReportMap (d.value.take reportMapMax)).2 ∧
    r.layoutValid = (valid || makesValid (d.value.take reportMapMax))

variable {valid : Bool} {d : Delivery}

/-- A callback restores that. -/
abbrev Reassembles (cfg : Setup) (P : Condition) (valid : Bool) (p : Callback Unit) (m : Central)
    (d : Delivery) : Prop :=
  p.Logged (central cfg) P deliveryScribe (fun _ => True)
    (fun _ m' d' => Reassembled valid (readSide m') d') m d

theorem reassembles_of_safe {p : Callback Unit} {J : Central → Pipeline → Prop}
    (h : p.Safe (central cfg) P J (fun _ m' => Reassembled valid (readSide m') d) m) :
    Reassembles cfg P valid p m d :=
  .of_safe (fun _ _ _ _ => rfl) trivial h

/-- A callback that leaves the variables of the read as they are. -/
theorem reassembles_of_readSide {p : Callback Unit} {J : Central → Pipeline → Prop}
    (h : Reassembled valid (readSide m) d)
    (hp : p.Safe (central cfg) P J (fun _ m' => readSide m' = readSide m) m) :
    Reassembles cfg P valid p m d := by
  apply reassembles_of_safe (hp.mono _)
  intro _ m' heq
  rwa [heq]

/-- The search for the reports moves nothing but the cursor. -/
theorem reassembles_startReportDiscovery (h : Reassembled valid (readSide m) d) :
    Reassembles cfg P valid startReportDiscovery m d :=
  reassembles_of_readSide h (leaves_startReportDiscovery readSide_eq_of_offCursor).safe

/-- The parser's writes to the layout. -/
theorem safe_writeLayouts {Q : Unit → Central → Prop} (hQ : ∀ l, Q () { m with layout := l })
    (ls : List ReportLayout) :
    (writeLayouts ls).Safe (central cfg) P (fun _ _ => True) Q m := by
  induction ls generalizing m with
  | nil => exact hQ m.layout
  | cons l ls ih =>
    simp only [writeLayouts, safe_bind, safe_assign]
    exact ⟨fun _ _ => trivial, ih hQ⟩

/-- **What the parse leaves** depends on the bytes in use of the buffer only. -/
theorem safe_parseReportMap {Q : Unit → Central → Prop}
    (hQ : Q () { m with
      layout := (zmkHidParseReportMap (reportMap m)).2
      layoutValid := m.layoutValid || makesValid (reportMap m) }) :
    (parseReportMap cfg).Safe (central cfg) P (fun _ _ => True) Q m := by
  rw [parseReportMap, safe_bind, safe_look, safe_bind]
  refine safe_writeLayouts (fun l => ?_) _
  rw [safe_bind, safe_assign, safe_ite]
  refine ⟨fun _ _ => trivial, fun hvalid => ?_, fun hinvalid => ?_⟩
  · rw [safe_assign]
    have hmakes : makesValid (reportMap m) = true := decide_eq_true hvalid
    rw [hmakes, Bool.or_true] at hQ
    exact ⟨fun _ _ => trivial, hQ⟩
  · have hmakes : makesValid (reportMap m) = false := decide_eq_false hinvalid
    rw [hmakes, Bool.or_false] at hQ
    exact hQ

/-- A read that is outstanding was the only one, and has not ended. -/
theorem Reassembled.of_getElem? (h : Reassembled valid (readSide m) d) {n : ℕ} {handle : U16}
    {received : List U8} (hq : m.procs[n]? = some (.readMap handle received)) :
    ¬ d.ended ∧ (readSide (takeProc n m)).reads = [] := by
  obtain ⟨before, after, hreads, htaken⟩ := reads_takeProc hq
  rw [List.filter_cons_of_pos rfl, List.filter_nil] at hreads
  have hopen : ¬ d.ended := by
    intro hended
    have hnil := (h.parsed hended).1
    simp [hreads] at hnil
  refine ⟨hopen, ?_⟩
  have hone := (h.pending hopen).1
  simp only [hreads, List.length_append, List.length_cons, List.length_nil] at hone
  rw [htaken, List.append_eq_nil_iff]
  constructor
  · apply List.eq_nil_of_length_eq_zero
    omega
  · apply List.eq_nil_of_length_eq_zero
    omega

/-- **A response is collected, or ends the read.** -/
theorem Reassembled.respond (h : Reassembled valid (readSide m) d) {n : ℕ} {handle : U16}
    {received : List U8} (hq : m.procs[n]? = some (.readMap handle received)) (conn : ℕ)
    (err : Bool) (data : List U8) :
    Reassembles cfg P valid (respondMap cfg handle received err data)
      (noteMapRead conn received err data (takeProc n m)) (if err then d else d.respond data) := by
  obtain ⟨hopen, hnil⟩ := h.of_getElem? hq
  obtain ⟨hone, hvalid⟩ := h.pending hopen
  cases err with
  | true =>
    -- the read is given up
    have htaken : Reassembled valid
        (readSide (noteMapRead conn received true data (takeProc n m))) d :=
      ⟨h.bounded, h.map, fun _ => ⟨(congrArg List.length hnil).le.trans zero_le_one, hvalid⟩,
        fun hended => absurd hended hopen⟩
    rw [Reassembles, respondMap, logged_bind, reportMapReadCb, if_pos rfl, logged_bind]
    exact reassembles_startReportDiscovery htaken
  | false =>
    rw [if_neg Bool.false_ne_true]
    by_cases hdata : data = []
    · -- the end: what is in use of the buffer is parsed
      subst hdata
      have hend : d.respond [] = { d with ended := true } := rfl
      rw [Reassembles, respondMap, logged_bind, reportMapReadCb, if_neg Bool.false_ne_true,
        if_neg (by simp), logged_bind, hend]
      refine Logged.mono (.of_safe (fun _ _ _ _ => rfl) trivial (safe_parseReportMap
        (Q := fun _ m' => Reassembled valid (readSide m') { d with ended := true }) ?_)) ?_
      · have hmap : reportMap (noteMapRead conn received false [] (takeProc n m)) =
            d.value.take reportMapMax := h.map
        rw [hmap]
        refine ⟨h.bounded, h.map, fun hpending => absurd rfl hpending, fun _ => ?_⟩
        exact ⟨hnil, rfl, congrArg (· || makesValid (d.value.take reportMapMax)) hvalid⟩
      · intro _ m' d' hm'
        rw [logged_bind]
        exact reassembles_startReportDiscovery hm'
    · -- a chunk: the read goes on
      have hchunk : d.respond data = { d with chunks := d.chunks ++ [data] } := if_neg hdata
      have hvalue : (d.respond data).value = d.value ++ data := by
        rw [hchunk, Delivery.value, List.flatten_concat]
        rfl
      obtain ⟨hbounded, hmap⟩ := reportMap_storeChunk h.bounded h.map data
      rw [respondMap_chunk handle received hdata]
      apply reassembles_of_safe (J := fun _ _ => True)
      rw [safe_bind, safe_assign, safe_assign]
      refine ⟨fun _ _ => trivial, fun _ _ => trivial, hbounded, ?_, fun _ => ⟨?_, hvalid⟩, ?_⟩
      · rw [hvalue]
        exact hmap
      · have hnone : (takeProc n m).procs.filter Proc.isMap = [] := hnil
        show (((takeProc n m).procs ++ [_]).filter Proc.isMap).length ≤ 1
        rw [List.filter_append, hnone]
        exact le_rfl
      · intro hended
        rw [hchunk] at hended
        exact absurd hended hopen

/-- **Each event of a single read restores what holds between two callbacks.** -/
theorem Reassembled.enter {e : Event} {m' : Central} {p : Callback Unit}
    (h : Reassembled valid (readSide m) d) (hok : oneRead.onEvent m e)
    (hstep : ReadStep cfg P m e m' p) :
    Reassembles cfg P valid p m' (deliveryScribe.onEvent m e d) := by
  cases hstep with
  | apart hside hp hmap =>
    have hlog : deliveryScribe.onEvent m e d = d := by
      unfold deliveryScribe
      dsimp only
      split
      · rw [if_neg (Bool.eq_false_iff.mp hmap)]
      · rfl
    rw [hlog]
    exact reassembles_of_readSide (hside ▸ h) hp.safe
  | ended => cases hok
  | secured hsecured =>
    rw [oneRead] at hok
    dsimp only at hok
    rw [hsecured] at hok
    cases hok
  | found hside hstate q a =>
    have hne : m'.discState ≠ .reportMapChrc := by
      rw [hstate]
      exact bne_iff_ne.mp hok
    apply reassembles_of_readSide (hside ▸ h)
    exact (safe_deliver_cursor hne q a).mono fun _ _ => readSide_eq_of_offCursor
  | @responded n conn handle received hq err data =>
    have hmap : isMapResponse m (.readResponse n err data) = true := by
      simp only [isMapResponse, hq]
      rfl
    have hresp : Reassembles cfg P valid (respondMap cfg handle received err data)
        (noteMapRead conn received err data (takeProc n m)) (if err then d else d.respond data) :=
      h.respond hq conn err data
    cases err with
    | true => exact hresp
    | false =>
      unfold deliveryScribe
      dsimp only
      rw [if_pos hmap]
      exact hresp

/-- The read begins with an empty buffer, whatever was left in it. -/
theorem reassembles_deliver (hbounded : (readSide m).Bounded)
    (hstate : m.discState = .reportMapChrc) (hreads : (readSide m).reads = [])
    (q : DiscoverParams) (a : Attr) :
    Reassembles cfg P m.layoutValid (deliver q a) m ⟨[], false⟩ := by
  have hempty (m' : Central) (hbuf : m'.rmBuf = m.rmBuf) (hlen : m'.rmLen = 0)
      (hvalid : m'.layoutValid = m.layoutValid) (hone : (readSide m').reads.length ≤ 1) :
      Reassembled m.layoutValid (readSide m') ⟨[], false⟩ := by
    refine ⟨⟨(congrArg List.length hbuf).trans hbounded.1, hlen.le.trans (Nat.zero_le _)⟩, ?_,
      fun _ => ⟨hone, hvalid⟩, fun h => absurd h Bool.false_ne_true⟩
    show m'.rmBuf.take m'.rmLen = _
    rw [hlen]
    rfl
  have hnil : m.procs.filter Proc.isMap = [] := hreads
  rw [Reassembles, deliver, logged_bind, discoverFunc, discovered, logged_bind, logged_look, hstate,
    logged_bind, readReportMap, logged_bind, logged_assign]
  refine (reassembles_of_safe (J := fun _ _ => True)
    ((safe_askOr (by simp) (by simp) _).mpr ⟨fun _ => ⟨fun _ _ => trivial, ?_⟩, fun _ _ _ => ?_⟩))
  · refine hempty _ ?_ ?_ ?_ ?_
    · rfl
    · rfl
    · rfl
    · show ((m.procs ++ [_]).filter Proc.isMap).length ≤ 1
      rw [List.filter_append, hnil]
      exact le_rfl
  · apply (leaves_startReportDiscovery readSide_eq_of_offCursor).safe.mono
    intro _ m' heq
    rw [heq]
    exact hempty _ rfl rfl rfl ((congrArg List.length hnil).le.trans zero_le_one)

/-! ### Every chunking is delivered by some run -/

/-- The link is up, and a read of the Report Map that has delivered this is outstanding. -/
structure Receiving (handle : U16) (received : List U8) (m : Central) : Prop where
  up : ∃ l, upLink m = some l
  read : ∃ n : ℕ, m.procs[n]? = some (.readMap handle received)

/-- Calls that succeed lead a callback to its end. -/
theorem canEnd_of_success {α : Type} (p : Callback α) (m : Central) (d : Delivery) :
    p.CanEnd (central cfg) oneRead deliveryScribe (fun _ _ d' => d' = d) m d := by
  induction p generalizing m with
  | ret a => rfl
  | act f g k ih => exact ih (f m) (f m)
  | call c k ih => exact ⟨.success, granted c m, rfl, answer_success c m, ih .success _⟩

section Delivered

variable {s₀ s : System} {d₀ : Delivery} {handle : U16} {received : List U8}

/-- **A response may come** with any data. -/
theorem exists_response (h : (central cfg).LoggedUnder oneRead deliveryScribe s₀ d₀ s d)
    (hidle : s.Idle) (hrecv : Receiving handle received s.main) (data : List U8)
    {Q : Central → Delivery → Prop}
    (hp : ∀ m', upLink m' = upLink s.main → (respondMap cfg handle received false data).CanEnd
      (central cfg) oneRead deliveryScribe (fun _ => Q) m' (d.respond data)) :
    ∃ s' d', (central cfg).LoggedUnder oneRead deliveryScribe s₀ d₀ s' d' ∧ s'.Idle ∧
      Q s'.main d' := by
  obtain ⟨m, io, p⟩ := s
  cases hidle
  obtain ⟨⟨l, hl⟩, n, hq⟩ := hrecv
  have hmap : isMapResponse m (.readResponse n false data) = true := by
    simp only [isMapResponse, hq]
    rfl
  have henter : enter cfg (.readResponse n false data) m io =
      some (noteMapRead l.conn received false data (takeProc n m),
        recordMapRead l.conn received false data io, respondMap cfg handle received false data) := by
    simp only [enter, hl, hq, Option.bind_some, enterProc]
  have hentered : (central cfg).LoggedUnder oneRead deliveryScribe s₀ d₀
      ⟨noteMapRead l.conn received false data (takeProc n m),
        recordMapRead l.conn received false data io, respondMap cfg handle received false data⟩
      (d.respond data) := by
    refine Reaches.tail (a := .event (.readResponse n false data)) h rfl ?_
    simp only [Machine.loggedStep, Machine.step, central_enter, henter, Option.map_some,
      Scribe.write, deliveryScribe, hmap, if_true]
  obtain ⟨m', io', d', hend, hQ⟩ := hentered.exists_of_canEnd (hp _ rfl)
  exact ⟨⟨m', io', .ret ()⟩, d', hend, rfl, hQ⟩

/-- **Every chunking is delivered by some run**, and the call at its end returns. -/
theorem exists_delivery (h : (central cfg).LoggedUnder oneRead deliveryScribe s₀ d₀ s d)
    (hidle : s.Idle) (hrecv : Receiving handle received s.main) {chunks : List (List U8)}
    (hchunks : ∀ c ∈ chunks, c ≠ []) :
    ∃ s', (central cfg).LoggedUnder oneRead deliveryScribe s₀ d₀ s' ⟨d.chunks ++ chunks, true⟩ ∧
      s'.Idle := by
  induction chunks generalizing s d received with
  | nil =>
    obtain ⟨s', d', hend, hidle', hd'⟩ := exists_response (Q := fun _ d' => d' = d.respond [])
      h hidle hrecv [] fun m' _ => canEnd_of_success _ m' _
    rw [List.append_nil]
    rw [hd'] at hend
    exact ⟨s', hend, hidle'⟩
  | cons c cs ih =>
    have hc : c ≠ [] := hchunks c (List.mem_cons_self ..)
    have hresp : d.respond c = { d with chunks := d.chunks ++ [c] } := if_neg hc
    obtain ⟨s', d', hnext, hidle', hrecv', hd'⟩ := exists_response
      (Q := fun m' d' => Receiving handle (received ++ c) m' ∧ d' = d.respond c)
      h hidle hrecv c fun m' hup => by
        rw [respondMap_chunk handle received hc, canEnd_bind, canEnd_assign, canEnd_assign]
        refine ⟨⟨?_, m'.procs.length, ?_⟩, rfl⟩
        · obtain ⟨l, hl⟩ := hrecv.up
          exact ⟨l, hup.trans hl⟩
        · exact List.getElem?_concat_length ..
    rw [hd', hresp] at hnext
    have hrest := ih hnext hidle' hrecv' fun c' hc' => hchunks c' (List.mem_cons_of_mem c hc')
    rwa [List.append_assoc] at hrest

end Delivered

/-! ### Runs -/

theorem stricter_any (P : Condition) : P.Stricter .any :=
  ⟨fun _ _ _ _ => rfl, fun _ _ _ => rfl, fun _ _ _ => rfl⟩

/-- **The Report Map is reassembled**, whatever the buffer held before and in whatever
chunks the stack delivers the value, among the events that begin no other read: never is
more in use than the buffer, and once the call at the end has returned the buffer holds the
value's first 512 bytes, and the layout is the one parsed from them. -/
theorem reassembled_of_delivered {s₀ s : System} {q : DiscoverParams} {a : Attr} {d : Delivery}
    (hreach : Reachable cfg .any s₀) (hrunning : s₀.running = deliver q a)
    (hstate : s₀.main.discState = .reportMapChrc) (hreads : ∀ p ∈ s₀.main.procs, ¬ p.isMap)
    (h : (central cfg).LoggedUnder oneRead deliveryScribe s₀ ⟨[], false⟩ s d) :
    (s.main.rmBuf.length = reportMapMax ∧ s.main.rmLen ≤ reportMapMax) ∧
      (d.ended → s.Idle →
        reportMap s.main = d.chunks.flatten.take reportMapMax ∧
          s.main.layout = (zmkHidParseReportMap (d.chunks.flatten.take reportMapMax)).2 ∧
          s.main.layoutValid =
            (s₀.main.layoutValid || makesValid (d.chunks.flatten.take reportMapMax))) := by
  have hbounded : (readSide s₀.main).Bounded := bounded_of_reachable hreach
  have hs : Reachable cfg .any s := by
    obtain ⟨bonds, uptime, accepts, hreach⟩ := hreach
    exact ⟨bonds, uptime, accepts, hreach.trans (h.reachedUnder.of_stricter (stricter_any oneRead))⟩
  refine ⟨bounded_of_reachable hs, fun hended hidle => ?_⟩
  have hnil : (readSide s₀.main).reads = [] := List.filter_eq_nil_iff.mpr hreads
  have hinit : Reassembles cfg oneRead s₀.main.layoutValid s₀.running s₀.main ⟨[], false⟩ := by
    rw [hrunning]
    exact reassembles_deliver hbounded hstate hnil q a
  have hinv := Machine.logged_invariant (J := fun _ => True) (K := fun _ => True)
    (I := fun m d => Reassembled s₀.main.layoutValid (readSide m) d) ⟨trivial, hinit⟩
    (fun _ _ _ => trivial)
    (fun e m io m' io' p d _ hI _ hok henter =>
      ⟨trivial, hI.enter hok (readStep_of_entered (entered_of_enter henter))⟩) h
  have hend := hinv.2
  rw [hidle] at hend
  have hrest : Reassembled s₀.main.layoutValid (readSide s.main) d := hend
  exact ⟨hrest.map, (hrest.parsed hended).2⟩

/-- On to the callback that delivers the Report Map's characteristic. -/
def foundRun : List (Action Errno Event) :=
  connectRun ++ [.answer .success, .event (.discovered 0)] ++ succeedsAfter 3 ++
    [.event (.discovered 0)]

/-- The Report Map comes in two chunks, and time passes between them. -/
def twoChunks : List (Action Errno Event) :=
  succeedsAfter 2 ++ [.event (.readResponse 0 false (pointerMap.take 8))] ++ ticks 2 ++
    [.event (.timePasses 30), .event (.readResponse 0 false (pointerMap.drop 8))] ++ ticks 2 ++
    [.event (.readResponse 0 false [])] ++ succeedsAfter 7

/-- What was delivered. -/
def twoChunksDelivery : Delivery := ⟨[pointerMap.take 8, pointerMap.drop 8], true⟩

/-- Two chunks make the layout that the whole makes. -/
theorem twoChunks_reassembled :
    ∃ s₀ s, stateAfter (.plain (reportTable [4])) foundRun = some s₀ ∧
      run ((central (.plain (reportTable [4]))).loggedStep deliveryScribe) twoChunks
        (s₀, ⟨[], false⟩) = some (s, twoChunksDelivery) ∧
      reportMap s.main = pointerMap ∧ s.main.layout = (zmkHidParseReportMap pointerMap).2 ∧
        s.main.layoutValid = true := by
  have hmeets : Meeting (.plain (reportTable [4])) .any foundRun := by decide +kernel
  have hfound : (stateAfter (.plain (reportTable [4])) foundRun).map
      (fun s => s.running) = some (deliver ⟨uuidHidsReportMap, 2, 32, .characteristic⟩
        ⟨2, .characteristic, uuidHidsReportMap, 3, 0x02⟩) := rfl
  have hrest : (stateAfter (.plain (reportTable [4])) foundRun).bind (fun s₀ =>
      (run ((central (.plain (reportTable [4]))).loggedStep deliveryScribe) twoChunks
        (s₀, ⟨[], false⟩)).map fun t =>
          (s₀.main.discState, s₀.main.procs, s₀.main.layoutValid,
            decide (Along ((central (.plain (reportTable [4]))).loggedStep deliveryScribe)
              (fun s a => Machine.meets oneRead s.1 a) twoChunks (s₀, ⟨[], false⟩)),
            t.1.isIdle, t.2)) =
        some (.reportMapChrc, [], false, true, true, twoChunksDelivery) := by decide +kernel
  obtain ⟨s₀, hs₀, hrunning⟩ := Option.map_eq_some_iff.mp hfound
  rw [hs₀, Option.bind_some] at hrest
  obtain ⟨⟨s, d⟩, hrun, heq⟩ := Option.map_eq_some_iff.mp hrest
  simp only [Prod.mk.injEq, decide_eq_true_eq] at heq
  obtain ⟨hstate, hprocs, hvalid, halong, hidle, rfl⟩ := heq
  refine ⟨s₀, s, hs₀, hrun, ?_⟩
  have hreads : ∀ p ∈ s₀.main.procs, ¬ p.isMap := by simp [hprocs]
  have hread := (reassembled_of_delivered (reachable_stateAfter hmeets hs₀) hrunning hstate hreads
    (Reaches.refl.of_run halong hrun)).2 rfl (Configuration.isIdle_iff.mp hidle)
  have hvalue : twoChunksDelivery.chunks.flatten.take reportMapMax = pointerMap := by decide
  have hmakes : makesValid pointerMap = true := by decide +kernel
  rw [hvalue, hmakes, hvalid] at hread
  exact hread

end BleHidHost
