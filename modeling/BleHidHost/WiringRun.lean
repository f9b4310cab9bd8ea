import BleHidHost.Scanning
import BleHidHost.Wiring

/-!
# The wiring loop

Between two callbacks `disc_state` tells how far the wiring has come.  Each callback of a
discovery takes the loop from one such stage to the next, whatever the stack answers, so
every report is visited in its turn.  The one answer that ends the loop early is the
refusal of the search for a CCC.

## Main definitions

* `Stage`, `Wired` — how far the wiring has come, by `disc_state`.
* `Wires` — a callback leads from one stage to another.

## Main results

* `wires_subscribePending`, `wires_wireReport`, `wires_skip` — **one round of the loop.**
* `Wired.wires_deliver`, `Wired.wires_finishDiscover` — the events of a discovery.
-/

namespace BleHidHost

open Lib Lib.Prog

/-! ### Stages -/

/-- The variables that the stages speak of. -/
structure Cursor where
  discState : DiscState
  hidsEndHandle : U16
  curReportId : U8
  procs : List Proc
  tally : Tally

/-- The cursor of a state. -/
def cursor (m : Central) : Cursor :=
  ⟨m.discState, m.hidsEndHandle, m.curReportId, m.procs, tally m⟩

/-- The wiring is over: all reports are done with, if no search for a CCC is refused. -/
def Rest (P : Condition) (table : List Attr) (t : Tally) (log : WiringLog) : Prop :=
  ∃ k, Progress table t log k ∧
    (P.Stricter cccAccepted → k = t.pendingCount ∧ t.pendingIdx = t.pendingCount)

/-- The reports are being collected: those that are kept and those that the discovery has
still to deliver are the reports of the table. -/
structure Collecting (table : List Attr) (t : Tally) (log : WiringLog) (q : DiscoverParams) :
    Prop where
  lengths : Lengths t
  count_le : t.pendingCount ≤ maxReports
  idx_eq : t.pendingIdx = 0
  subCount_eq : t.subCount = 0
  fills : (t.pendingReports.take t.pendingCount ++ collectable q table).take maxReports =
    pendingOf table
  visited : log.visited = []
  found : log.found = []
  matched : log.attempted = []
  fresh : log.collected = false

/-- A report is being wired. -/
structure Current (table : List Attr) (c : Cursor) (log : WiringLog) : Prop where
  ends : c.hidsEndHandle = serviceEnd table
  lt : c.tally.pendingIdx < c.tally.pendingCount
  progress : Progress table c.tally log (c.tally.pendingIdx + 1)

/-- How far the wiring has come, by `disc_state`. -/
def Stage (P : Condition) (table : List Attr) (c : Cursor) (log : WiringLog) : Prop :=
  match c.discState with
  | .idle => log.collected = true → Rest P table c.tally log
  | .hidsPrimary =>
    (∀ p ∈ c.procs, p = .discover hidsParams) ∧ (log.collected = true → Rest P table c.tally log)
  | .reportMapChrc =>
    c.hidsEndHandle = serviceEnd table ∧ (log.collected = true → Rest P table c.tally log)
  | .reportChrc =>
    c.hidsEndHandle = serviceEnd table ∧
      ∃ q, c.procs = [.discover q] ∧ Collecting table c.tally log q
  | .reportRef =>
    Current table c log ∧
      ((c.procs = [.discover (searchWindow table c.tally.pendingIdx uuidHidsReportRef)] ∧
          c.curReportId = 0) ∨
        ∃ d, (searchWindow table c.tally.pendingIdx uuidHidsReportRef).next table = some d ∧
          c.procs = [.readRef d.handle])
  | .ccc =>
    Current table c log ∧ IdSourced table log c.tally.pendingIdx c.curReportId ∧
      c.procs = [.discover (searchWindow table c.tally.pendingIdx uuidGattCcc)]

section Stage

variable {P : Condition} {table : List Attr} {c : Cursor} {log : WiringLog}

theorem stage_idle (h : c.discState = .idle) :
    Stage P table c log ↔ (log.collected = true → Rest P table c.tally log) := by
  rw [Stage, h]

theorem stage_hidsPrimary (h : c.discState = .hidsPrimary) :
    Stage P table c log ↔ (∀ p ∈ c.procs, p = .discover hidsParams) ∧
      (log.collected = true → Rest P table c.tally log) := by
  rw [Stage, h]

theorem stage_reportMapChrc (h : c.discState = .reportMapChrc) :
    Stage P table c log ↔ c.hidsEndHandle = serviceEnd table ∧
      (log.collected = true → Rest P table c.tally log) := by
  rw [Stage, h]

theorem stage_reportChrc (h : c.discState = .reportChrc) :
    Stage P table c log ↔ c.hidsEndHandle = serviceEnd table ∧
      ∃ q, c.procs = [.discover q] ∧ Collecting table c.tally log q := by
  rw [Stage, h]

theorem stage_reportRef (h : c.discState = .reportRef) :
    Stage P table c log ↔ Current table c log ∧
      ((c.procs = [.discover (searchWindow table c.tally.pendingIdx uuidHidsReportRef)] ∧
          c.curReportId = 0) ∨
        ∃ d, (searchWindow table c.tally.pendingIdx uuidHidsReportRef).next table = some d ∧
          c.procs = [.readRef d.handle]) := by
  rw [Stage, h]

theorem stage_ccc (h : c.discState = .ccc) :
    Stage P table c log ↔ Current table c log ∧
      IdSourced table log c.tally.pendingIdx c.curReportId ∧
        c.procs = [.discover (searchWindow table c.tally.pendingIdx uuidGattCcc)] := by
  rw [Stage, h]

end Stage

/-- The stage of a cursor, with arrays of their sizes, and nothing subscribed before the
reports are collected. -/
structure Wired (P : Condition) (table : List Attr) (c : Cursor) (log : WiringLog) : Prop where
  lengths : Lengths c.tally
  fresh : log.collected = false → c.tally.subCount = 0
  stage : Stage P table c log

variable {cfg : Setup} {P : Condition} {table : List Attr} {m : Central} {log : WiringLog}

/-- The callback leads to one of the stages. -/
abbrev Wires (cfg : Setup) (P : Condition) (table : List Attr) (p : Callback Unit) (m : Central)
    (log : WiringLog) : Prop :=
  p.Logged (central cfg) P wiringScribe InBounds (fun _ m' log' => Wired P table (cursor m') log')
    m log

/-! ### Calls -/

/-- **The rule for a call that may be refused.** -/
theorem logged_askOr {c : Request} {q : Callback Unit} {Q : Unit → Central → WiringLog → Prop}
    (hscan : c ≠ .leScanStart) (hsub : ∀ n, c ≠ .gattSubscribe n)
    (hJ : InBounds (noteCall m c log)) (hsucc : Q () (granted c m) (noteCall m c log))
    (hrefused : ∀ err, err ≠ .success → P.onAnswer m c err →
      q.Logged (central cfg) P wiringScribe InBounds Q m (noteCall m c log)) :
    (askOr c q).Logged (central cfg) P wiringScribe InBounds Q m log := by
  rw [askOr, logged_bind, logged_ask, central_answer]
  intro err m' hP hans
  refine ⟨hJ, ?_⟩
  rw [logged_ite]
  by_cases herr : err = .success
  · subst herr
    cases (answer_success c m).symm.trans hans
    exact ⟨fun hne => absurd rfl hne, fun _ => hsucc⟩
  · cases (answer_refused hscan hsub herr m).symm.trans hans
    exact ⟨fun _ => hrefused err herr hP, fun h => absurd herr h⟩

theorem logged_discoverOr {q : Callback Unit} {Q : Unit → Central → WiringLog → Prop}
    {log' : WiringLog} (hnote : noteCall m (.gattDiscover m.discoverParams) log = log')
    (hJ : InBounds log')
    (hsucc : Q () { m with procs := m.procs ++ [.discover m.discoverParams] } log')
    (hrefused : ∀ err, err ≠ .success → P.onAnswer m (.gattDiscover m.discoverParams) err →
      q.Logged (central cfg) P wiringScribe InBounds Q m log') :
    (discoverOr q).Logged (central cfg) P wiringScribe InBounds Q m log := by
  subst hnote
  rw [discoverOr, logged_bind, logged_look]
  exact logged_askOr (by simp) (by simp) hJ hsucc hrefused

/-- Writing to the log does not matter for what was in bounds. -/
theorem InBounds.readWindow (h : InBounds log) (hidx : m.pendingIdx < m.pendingCount) :
    InBounds (log.readWindow m) := by
  intro r hr
  rcases List.mem_append.mp hr with hold | hnew
  · exact h r hold
  · rcases List.mem_cons.mp hnew with rfl | hnext
    · exact hidx
    · split at hnext
      · next hlt =>
        rw [List.mem_singleton.mp hnext]
        exact hlt
      · exact absurd hnext List.not_mem_nil

theorem InBounds.read (h : InBounds log) (hidx : m.pendingIdx < m.pendingCount) :
    InBounds (log.read m) := by
  intro r hr
  rcases List.mem_append.mp hr with hold | hnew
  · exact h r hold
  · rw [List.mem_singleton.mp hnew]
    exact hidx

theorem noteCall_ccc (m' : Central) (p : DiscoverParams) (hp : p.uuid = uuidGattCcc) :
    noteCall m' (.gattDiscover p) log = log.readWindow m' := by
  simp only [noteCall, hp]
  rfl

theorem noteCall_ref (m' : Central) (p : DiscoverParams) (hp : p.uuid = uuidHidsReportRef) :
    noteCall m' (.gattDiscover p) log =
      { log.readWindow m' with visited := log.visited ++ [pendingReport m'] } := by
  simp only [noteCall, hp]
  rfl

/-! ### The stages of the loop -/

/-- The report that is wired is the current one of the table. -/
theorem Current.pendingReport_eq (h : Current table (cursor m) log) :
    pendingReport m = (pendingOf table).getD m.pendingIdx 0 := h.progress.getD h.lt

/-- The search for a descriptor of the current report covers its window. -/
theorem descriptorParams_eq (h : Current table (cursor m) log) (uuid : U16) :
    descriptorParams m uuid = searchWindow table m.pendingIdx uuid := by
  have hprog := h.progress
  have hlen : (pendingOf table).length = m.pendingCount := hprog.length_eq
  have hcur := h.pendingReport_eq
  have hend : curReportEndHandle m = (searchWindow table m.pendingIdx uuid).endHandle := by
    unfold curReportEndHandle searchWindow
    rw [hlen]
    split
    · next hnext =>
      have hget : m.pendingReports.getD (m.pendingIdx + 1) 0 =
          (pendingOf table).getD (m.pendingIdx + 1) 0 := hprog.getD hnext
      rw [hget]
    · exact h.ends
  rw [descriptorParams, hend, hcur]
  rfl

/-- The discovery is over. -/
theorem wires_discIdle (hlen : Lengths (tally m))
    (hfresh : log.collected = false → m.subCount = 0)
    (hrest : log.collected = true → Rest P table (tally m) log) :
    Wires cfg P table discIdle m log := by
  rw [Wires, discIdle, logged_assign]
  exact ⟨hlen, hfresh, hrest⟩

/-- A report that is being wired is collected. -/
theorem Current.fresh {c : Cursor} (h : Current table c log) {n : Prop}
    (hfresh : log.collected = false) : n :=
  absurd (h.progress.collected.symm.trans hfresh) (by decide)

/-- **The search for the CCC.**  Its refusal ends the loop. -/
theorem wires_discoverCcc (h : Current table (cursor m) log) (hnil : m.procs = [])
    (hid : IdSourced table log m.pendingIdx m.curReportId) (hJ : InBounds log) :
    Wires cfg P table discoverCcc m log := by
  rw [Wires, discoverCcc, logged_bind, logged_assign]
  have hcur : Current table (cursor { m with
      discoverParams := descriptorParams m uuidGattCcc
      discState := .ccc }) (log.readWindow m) :=
    ⟨h.ends, h.lt, h.progress.reads _⟩
  refine logged_discoverOr (noteCall_ccc _ _ rfl) (hJ.readWindow h.lt) ?_ ?_
  · refine ⟨h.progress.lengths, hcur.fresh, ⟨hcur.ends, hcur.lt, hcur.progress⟩, hid, ?_⟩
    show m.procs ++ [.discover (descriptorParams m uuidGattCcc)] = _
    rw [hnil, descriptorParams_eq h]
    rfl
  · intro err herr hP
    -- where the searches are accepted this is not the answer
    exact wires_discIdle h.progress.lengths hcur.fresh fun _ =>
      ⟨_, hcur.progress, fun hacc => absurd (eq_success_of_cccAccepted hacc rfl hP) herr⟩

/-- What precedes a round of the loop: a report is left, and the next one has its turn. -/
structure Turn (table : List Attr) (c : Cursor) (log : WiringLog) : Prop where
  ends : c.hidsEndHandle = serviceEnd table
  progress : Progress table c.tally log c.tally.pendingIdx

/-- **The search for the Report Reference.**  Its refusal falls back to the CCC. -/
theorem wires_discoverReportRef (h : Turn table (cursor m) log)
    (hidx : m.pendingIdx < m.pendingCount) (hnil : m.procs = []) (hJ : InBounds log) :
    Wires cfg P table discoverReportRef m log := by
  have hvisit : Progress table (tally m)
      { log.readWindow m with visited := log.visited ++ [pendingReport m] } (m.pendingIdx + 1) :=
    h.progress.visit hidx _
  have hcur : Current table (cursor { m with
      curReportId := 0
      discoverParams := descriptorParams m uuidHidsReportRef
      discState := .reportRef })
      { log.readWindow m with visited := log.visited ++ [pendingReport m] } :=
    ⟨h.ends, hidx, hvisit⟩
  have hwindow : descriptorParams m uuidHidsReportRef =
      searchWindow table m.pendingIdx uuidHidsReportRef := descriptorParams_eq hcur _
  have hJ' : InBounds { log.readWindow m with visited := log.visited ++ [pendingReport m] } :=
    hJ.readWindow hidx
  rw [Wires, discoverReportRef, logged_bind, logged_assign]
  refine logged_discoverOr (noteCall_ref _ _ rfl) hJ' ?_ fun _ _ _ => ?_
  · refine ⟨hvisit.lengths, hcur.fresh, ⟨hcur.ends, hcur.lt, hcur.progress⟩, Or.inl ⟨?_, rfl⟩⟩
    show m.procs ++ [.discover (descriptorParams m uuidHidsReportRef)] = _
    rw [hnil, hwindow]
    rfl
  · exact wires_discoverCcc hcur hnil (Or.inl rfl) hJ'

/-- **The next report has its turn, or none is left.** -/
theorem wires_subscribePending (h : Turn table (cursor m) log) (hnil : m.procs = [])
    (hJ : InBounds log) : Wires cfg P table subscribePending m log := by
  have hprog := h.progress
  rw [Wires, subscribePending, logged_bind, logged_look, logged_ite]
  constructor
  · intro hdone
    have hidx : m.pendingIdx = m.pendingCount := Nat.le_antisymm hprog.idx_le hdone
    have hfresh : log.collected = false → m.subCount = 0 := fun hno =>
      absurd (hprog.collected.symm.trans hno) (by decide)
    exact wires_discIdle hprog.lengths hfresh fun _ => ⟨_, hprog, fun _ => ⟨hidx, hidx⟩⟩
  · intro hleft
    exact wires_discoverReportRef h (Nat.lt_of_not_le hleft) hnil hJ

/-! ### The Report Reference and the CCC -/

/-- The Report Reference is read.  Where the read is refused the ID is 0. -/
theorem wires_readReportRef (h : Current table (cursor m) log) (hstate : m.discState = .reportRef)
    (hnil : m.procs = []) {d : Attr}
    (hd : (searchWindow table m.pendingIdx uuidHidsReportRef).next table = some d)
    (hJ : InBounds log) : Wires cfg P table (readReportRef d.handle) m log := by
  refine logged_askOr (by simp) (by simp) hJ ?_ fun _ _ _ => ?_
  · have hproc : m.procs ++ [.readRef d.handle] = [.readRef d.handle] := by
      rw [hnil, List.nil_append]
    exact ⟨h.progress.lengths, h.fresh,
      (stage_reportRef hstate).mpr ⟨⟨h.ends, h.lt, h.progress⟩, Or.inr ⟨d, hd, hproc⟩⟩⟩
  · rw [logged_bind, logged_assign]
    exact wires_discoverCcc ⟨h.ends, h.lt, h.progress⟩ hnil (Or.inl rfl) hJ

/-- The response of the Report Reference, with or without an error, gives the ID. -/
theorem wires_respondRef (h : Current table (cursor m) log) (hnil : m.procs = []) {d : Attr}
    (hd : (searchWindow table m.pendingIdx uuidHidsReportRef).next table = some d)
    (hJ : InBounds log) (err : Bool) (data : List U8) :
    Wires cfg P table (respondRef err data) m
      (noteResponse m err data log (.readRef d.handle)) := by
  simp only [Wires, respondRef, reportRefReadCb, logged_bind, logged_assign, logged_pure]
  have hread := h.pendingReport_eq
  refine wires_discoverCcc ⟨h.ends, h.lt, h.progress.readId _⟩ hnil (Or.inr ⟨d, hd, ?_⟩) hJ
  rw [← hread]
  exact List.mem_append_right _ (List.mem_singleton_self _)

/-- **The subscription is attempted**, with the parameters just written; it counts where it
is accepted. -/
theorem logged_subscribeReport {a : Attr} {Q : Unit → Central → WiringLog → Prop}
    (hroom : m.subCount < maxReports) (hlen : m.subs.length = maxReports)
    (hJ : InBounds (log.read m))
    (hQ : ∀ m', m'.subCount = m.subCount ∨ m'.subCount = m.subCount + 1 →
      cursor m' = { cursor m with
        tally := { tally m with
          subs := m.subs.set m.subCount ⟨pendingReport m, a.handle, m.curReportId⟩
          subCount := m'.subCount } } →
      Q () m' { log.read m with attempted := log.attempted ++ [pendingReport m] }) :
    (subscribeReport a).Logged (central cfg) P wiringScribe InBounds Q m log := by
  have hslot : subscription { m with
      subs := m.subs.set m.subCount ⟨pendingReport m, a.handle, m.curReportId⟩ } m.subCount =
        ⟨pendingReport m, a.handle, m.curReportId⟩ := by
    have hlt : m.subCount < m.subs.length := hlen ▸ hroom
    rw [subscription, List.getD_eq_getElem?_getD, List.getElem?_set_self hlt, Option.getD_some]
  simp only [subscribeReport, logged_bind, logged_look, logged_ite, logged_assign, logged_ask,
    central_answer, logged_pure]
  refine ⟨fun _ => ?_, fun hfull => absurd hroom hfull⟩
  intro err m' _ hans
  -- the report that is named in the log is the one of the slot
  have hnote : wiringScribe.onAnswer { m with
      subs := m.subs.set m.subCount ⟨pendingReport m, a.handle, m.curReportId⟩ }
      (.gattSubscribe m.subCount) err log =
        { log.read m with attempted := log.attempted ++ [pendingReport m] } := by
    show noteCall _ (.gattSubscribe m.subCount) _ = _
    rw [noteCall, hslot]
    rfl
  rw [hnote]
  have hm' : m'.subCount = m.subCount ∧ cursor m' = { cursor m with
      tally := { tally m with
        subs := m.subs.set m.subCount ⟨pendingReport m, a.handle, m.curReportId⟩ } } := by
    cases err <;> cases hans <;> exact ⟨rfl, rfl⟩
  rcases hm' with ⟨hcount, hcursor⟩
  refine ⟨hJ, fun _ => hQ m' (Or.inl hcount) ?_, fun _ => hQ _ (Or.inr ?_) ?_⟩
  · rw [hcursor, hcount]
    rfl
  · exact congrArg (· + 1) hcount
  · have hcursor' : cursor { m' with subCount := m'.subCount + 1 } =
        { cursor m' with tally := { tally m' with subCount := m'.subCount + 1 } } := rfl
    have htally : tally m' = _ := congrArg Cursor.tally hcursor
    rw [hcursor', htally, hcursor]

/-- **The CCC is found**: the report is subscribed, and the next one has its turn. -/
theorem wires_wireReport (h : Current table (cursor m) log) (hnil : m.procs = [])
    (hid : IdSourced table log m.pendingIdx m.curReportId) {a : Attr}
    (ha : (searchWindow table m.pendingIdx uuidGattCcc).next table = some a) (hJ : InBounds log) :
    Wires cfg P table (wireReport a) m { log with found := log.found ++ [pendingReport m] } := by
  have hprog := h.progress
  have hlen : (pendingOf table).length = m.pendingCount := hprog.length_eq
  have hidx : m.pendingIdx < m.pendingCount := h.lt
  have hroom : m.subCount < maxReports := by
    have hsub : m.subCount ≤ m.pendingIdx := hprog.subCount_le
    have hcount : m.pendingCount ≤ maxReports := hprog.count_le
    omega
  have hsrc : SourcedAt table log m.pendingIdx ⟨pendingReport m, a.handle, m.curReportId⟩ :=
    ⟨hlen ▸ hidx, h.pendingReport_eq, ⟨a, ha, rfl⟩, hid⟩
  have hread : InBounds ({ log with found := log.found ++ [pendingReport m] }.read m) :=
    InBounds.read hJ hidx
  rw [Wires, wireReport, logged_bind]
  refine logged_subscribeReport hroom hprog.lengths.subs hread ?_
  intro m' hcount hcursor
  have htally : tally m' = _ := congrArg Cursor.tally hcursor
  have hpos : m'.pendingIdx = m.pendingIdx := congrArg Tally.pendingIdx htally
  have hprocs : m'.procs = m.procs := congrArg Cursor.procs hcursor
  have hend : m'.hidsEndHandle = m.hidsEndHandle := congrArg Cursor.hidsEndHandle hcursor
  rw [logged_bind, logged_assign]
  refine wires_subscribePending ⟨hend.trans h.ends, ?_⟩ (hprocs.trans hnil) hread
  have hnext : tally { m' with pendingIdx := m'.pendingIdx + 1 } =
      { tally m' with pendingIdx := m.pendingIdx + 1 } := by
    rw [← hpos]
    rfl
  show Progress table (tally { m' with pendingIdx := m'.pendingIdx + 1 }) _ (m'.pendingIdx + 1)
  rw [hnext, htally, hpos]
  exact hprog.wire hidx hsrc _ hcount

/-- A report without a CCC is skipped. -/
theorem wires_skip (h : Current table (cursor m) log) (hnil : m.procs = []) (hJ : InBounds log) :
    Wires cfg P table (do
      assign fun m : Central => { m with pendingIdx := m.pendingIdx + 1 }
      subscribePending) m (log.read m) := by
  rw [Wires, logged_bind, logged_assign]
  have hskip : Progress table { tally m with pendingIdx := m.pendingIdx + 1 } (log.read m)
      (m.pendingIdx + 1) := (h.progress.skip h.lt).reads _
  exact wires_subscribePending ⟨h.ends, hskip⟩ hnil (hJ.read h.lt)

/-! ### Collecting the reports -/

/-- **A characteristic that is delivered is kept**, if it notifies and there is room. -/
theorem Collecting.collect {q : DiscoverParams} {a : Attr}
    (h : Collecting table (tally m) log q) (horder : InHandleOrder table)
    (ha : q.next table = some a) :
    Collecting table (tally (collectReport a m)) log (q.after a) := by
  have hrest := collectable_next horder ha
  have hfills : (m.pendingReports.take m.pendingCount ++ collectable q table).take maxReports =
      pendingOf table := h.fills
  have hlen : m.pendingReports.length = maxReports := h.lengths.pending
  have hle : m.pendingCount ≤ maxReports := h.count_le
  unfold collectReport
  split
  · next hkeep =>
    rcases hkeep with ⟨hnotify, hroom⟩
    have hnotifies : a.Notifies := hnotify
    rw [hrest, if_pos hnotifies, ← List.append_assoc] at hfills
    refine ⟨⟨?_, h.lengths.subs⟩, hroom, h.idx_eq, h.subCount_eq, ?_, h.visited, h.found,
      h.matched, h.fresh⟩
    · exact (List.length_set ..).trans hlen
    · -- the value stands behind those that were kept
      have hset : (m.pendingReports.set m.pendingCount a.value).take (m.pendingCount + 1) =
          m.pendingReports.take m.pendingCount ++ [a.value] := by
        rw [List.take_succ_eq_append_getElem (by rw [List.length_set]; omega),
          List.take_set_of_le (Nat.le_refl _), List.getElem_set_self]
      show ((m.pendingReports.set m.pendingCount a.value).take (m.pendingCount + 1) ++
        collectable (q.after a) table).take maxReports = pendingOf table
      rw [hset]
      exact hfills
  · next hdrop =>
    refine ⟨h.lengths, hle, h.idx_eq, h.subCount_eq, ?_, h.visited, h.found, h.matched, h.fresh⟩
    show (m.pendingReports.take m.pendingCount ++ collectable (q.after a) table).take maxReports =
      pendingOf table
    by_cases hnotifies : a.Notifies
    · -- the array is full, and what follows is cut off
      have hfull : (m.pendingReports.take m.pendingCount).length = maxReports := by
        have hnot : ¬ m.pendingCount < maxReports := fun hlt => hdrop ⟨hnotifies, hlt⟩
        rw [List.length_take]
        omega
      rw [List.take_left' hfull] at hfills ⊢
      exact hfills
    · rw [hrest, if_neg hnotifies] at hfills
      exact hfills

/-- Where nothing is left to collect, the wiring begins. -/
theorem Collecting.progress {t : Tally} {q : DiscoverParams} (h : Collecting table t log q)
    (hnone : q.next table = none) : Progress table t { log with collected := true } 0 := by
  have hfills := h.fills
  rw [collectable_eq_nil hnone, List.append_nil, List.take_take,
    Nat.min_eq_right h.count_le] at hfills
  refine ⟨h.lengths, rfl, h.count_le, ?_, ?_, hfills, h.visited, ?_, ?_, ?_, ?_⟩
  · rw [h.idx_eq]
    exact Nat.zero_le _
  · rw [h.subCount_eq]
    exact Nat.zero_le _
  · simp only [h.found]
    exact List.nil_sublist _
  · exact h.matched.trans h.found.symm
  · intro s hs
    rw [h.subCount_eq] at hs
    exact absurd hs List.not_mem_nil
  · intro _
    rw [h.subCount_eq]
    exact List.nil_sublist _

/-- The pass over the Report characteristics begins. -/
theorem wires_startReportDiscovery (hlen : Lengths (tally m))
    (hend : m.hidsEndHandle = serviceEnd table) (hnil : m.procs = []) (hJ : InBounds log) :
    Wires cfg P table startReportDiscovery m log := by
  simp only [Wires, startReportDiscovery, logged_bind, logged_assign]
  have hnote (m' : Central) (p : DiscoverParams) (hp : p.uuid = uuidHidsReport) :
      noteCall m' (.gattDiscover p) log = log.restart := if_pos hp
  refine logged_discoverOr (hnote _ _ rfl) hJ ?_ fun _ _ _ => ?_
  · refine ⟨⟨hlen.pending, hlen.subs⟩, fun _ => rfl, hend, reportParams (serviceEnd table), ?_, ?_⟩
    · show m.procs ++ [.discover ⟨uuidHidsReport, firstAttributeHandle, m.hidsEndHandle,
        .characteristic⟩] = _
      rw [hnil, hend]
      rfl
    · exact ⟨⟨hlen.pending, hlen.subs⟩, Nat.zero_le _, rfl, rfl, rfl, rfl, rfl, rfl, rfl⟩
  · exact wires_discIdle ⟨hlen.pending, hlen.subs⟩ (fun _ => rfl) fun hc => by cases hc

/-- The pass ends: the first report has its turn. -/
theorem wires_reportsCollected {q : DiscoverParams} (h : Collecting table (tally m) log q)
    (hend : m.hidsEndHandle = serviceEnd table) (hnone : q.next table = none) (hnil : m.procs = [])
    (hJ : InBounds log) : Wires cfg P table reportsCollected m { log with collected := true } := by
  have hprog := h.progress hnone
  have hidx : m.pendingIdx = 0 := h.idx_eq
  rw [Wires, reportsCollected, logged_bind, logged_look, logged_ite]
  constructor
  · intro hzero
    refine wires_discIdle hprog.lengths (fun hc => by cases hc) fun _ => ⟨0, hprog, fun _ => ?_⟩
    exact ⟨hzero.symm, hidx.trans hzero.symm⟩
  · intro _
    rw [logged_bind, logged_assign]
    have htally : tally { m with pendingIdx := 0 } = tally m := by
      simp only [tally, hidx]
    have hturn : Progress table (tally { m with pendingIdx := 0 }) { log with collected := true }
        0 := by
      rw [htally]
      exact hprog
    exact wires_subscribePending ⟨hend, hturn⟩ hnil hJ

/-! ### Before the reports -/

/-- The service is found: the Report Map is looked for. -/
theorem wires_discoverReportMap (h : Wired P table (cursor m) log)
    (hrest : log.collected = true → Rest P table (tally m) log) {a : Attr}
    (ha : hidsParams.next table = some a) (hJ : InBounds log) :
    Wires cfg P table (discoverReportMap a) m log := by
  have hend : a.value = serviceEnd table := by
    rw [serviceEnd, ha]
    rfl
  rw [Wires, discoverReportMap, logged_bind, logged_assign]
  refine logged_discoverOr (rfl : _ = log) hJ ⟨h.lengths, h.fresh, hend, hrest⟩ ?_
  intro _ _ _
  exact wires_discIdle h.lengths h.fresh hrest

/-- The Report Map is read, or passed over. -/
theorem wires_readReportMap (h : Wired P table (cursor m) log)
    (hstate : m.discState = .reportMapChrc) (hend : m.hidsEndHandle = serviceEnd table)
    (hrest : log.collected = true → Rest P table (tally m) log) (hnil : m.procs = [])
    (hJ : InBounds log) (handle : U16) : Wires cfg P table (readReportMap handle) m log := by
  rw [Wires, readReportMap, logged_bind, logged_assign]
  refine logged_askOr (by simp) (by simp) hJ
    ⟨h.lengths, h.fresh, (stage_reportMapChrc hstate).mpr ⟨hend, hrest⟩⟩ fun _ _ _ => ?_
  exact wires_startReportDiscovery h.lengths hend hnil hJ

/-- The parse of the Report Map writes the layout only. -/
theorem logged_parseReportMap {Q : Unit → Central → WiringLog → Prop}
    (hQ : ∀ l b, Q () { m with layout := l, layoutValid := b } log) :
    (parseReportMap cfg).Logged (central cfg) P wiringScribe InBounds Q m log := by
  have hwrite (ls : List ReportLayout) {Q' : Unit → Central → WiringLog → Prop} {m : Central}
      (hQ' : ∀ l, Q' () { m with layout := l } log) :
      (writeLayouts ls).Logged (central cfg) P wiringScribe InBounds Q' m log := by
    induction ls generalizing m with
    | nil => exact hQ' m.layout
    | cons l ls ih =>
      rw [writeLayouts, logged_bind, logged_assign]
      exact ih fun l' => hQ' l'
  rw [parseReportMap, logged_bind, logged_look, logged_bind]
  refine hwrite _ ?_
  intro l
  simp only [logged_bind, logged_assign, logged_ite, logged_pure]
  exact ⟨fun _ => hQ _ true, fun _ => hQ _ m.layoutValid⟩

/-- A response of the Report Map: the read goes on, or the reports are discovered. -/
theorem wires_respondMap (h : Wired P table (cursor m) log) (hstate : m.discState = .reportMapChrc)
    (hend : m.hidsEndHandle = serviceEnd table)
    (hrest : log.collected = true → Rest P table (tally m) log) (hnil : m.procs = [])
    (hJ : InBounds log) (handle : U16) (received : List U8) (err : Bool) (data : List U8) :
    Wires cfg P table (respondMap cfg handle received err data) m log := by
  rw [Wires, respondMap, logged_bind, reportMapReadCb, logged_ite, logged_ite]
  refine ⟨fun _ => ?_, fun _ => ⟨fun _ => ?_, fun _ => ?_⟩⟩
  · rw [logged_bind]
    exact wires_startReportDiscovery h.lengths hend hnil hJ
  · -- a chunk: the read goes on, at the same stage
    rw [logged_bind, logged_assign, logged_pure, logged_assign]
    exact ⟨h.lengths, h.fresh, (stage_reportMapChrc hstate).mpr ⟨hend, hrest⟩⟩
  · rw [logged_bind]
    refine logged_parseReportMap ?_
    intro l b
    rw [logged_bind]
    exact wires_startReportDiscovery h.lengths hend hnil hJ

/-- The discovery begins with the service. -/
theorem wires_startDiscovery (h : Wired P table (cursor m) log)
    (hrest : log.collected = true → Rest P table (tally m) log) (hnil : m.procs = [])
    (hJ : InBounds log) : Wires cfg P table startDiscovery m log := by
  simp only [Wires, startDiscovery, logged_bind, logged_assign]
  refine logged_discoverOr (rfl : _ = log) hJ ⟨h.lengths, h.fresh, ?_, hrest⟩ fun _ _ _ => ?_
  · intro p hp
    have hmem : p ∈ m.procs ++ [.discover hidsParams] := hp
    rw [hnil] at hmem
    exact List.mem_singleton.mp hmem
  · refine ⟨h.lengths, h.fresh, fun p hp => ?_, hrest⟩
    have hmem : p ∈ m.procs := hp
    rw [hnil] at hmem
    exact absurd hmem List.not_mem_nil

/-! ### Events of the procedures -/

/-- The stages at which no report is being collected or wired. -/
def DiscState.isResting : DiscState → Bool
  | .idle => true
  | .hidsPrimary => true
  | .reportMapChrc => true
  | _ => false

/-- There the wiring is over, or has not begun. -/
theorem Stage.rest {c : Cursor} (h : Stage P table c log) (hstate : c.discState.isResting)
    (hcol : log.collected = true) : Rest P table c.tally log := by
  cases hs : c.discState with
  | idle => exact (stage_idle hs).mp h hcol
  | hidsPrimary => exact ((stage_hidsPrimary hs).mp h).2 hcol
  | reportMapChrc => exact ((stage_reportMapChrc hs).mp h).2 hcol
  | _ =>
    rw [hs] at hstate
    cases hstate

/-- There a procedure that is taken leaves the stage as it is. -/
theorem Wired.take (h : Wired P table (cursor m) log) {n : ℕ} (hnil : (takeProc n m).procs = [])
    (hstate : m.discState.isResting) : Wired P table (cursor (takeProc n m)) log := by
  refine ⟨h.lengths, h.fresh, ?_⟩
  cases hs : m.discState with
  | idle =>
    have hrest := (stage_idle (c := cursor m) hs).mp h.stage
    exact (stage_idle hs).mpr hrest
  | hidsPrimary =>
    refine (stage_hidsPrimary hs).mpr ⟨fun p hp => ?_,
      ((stage_hidsPrimary (c := cursor m) hs).mp h.stage).2⟩
    have hmem : p ∈ (takeProc n m).procs := hp
    rw [hnil] at hmem
    exact absurd hmem List.not_mem_nil
  | reportMapChrc =>
    have hstage := (stage_reportMapChrc (c := cursor m) hs).mp h.stage
    exact (stage_reportMapChrc hs).mpr hstage
  | _ =>
    rw [hs] at hstate
    cases hstate

/-- The one procedure that is outstanding is the one of the event. -/
theorem eq_of_singleton {n : ℕ} {p p' : Proc} (hprocs : m.procs = [p])
    (hp' : m.procs[n]? = some p') : p' = p := by
  have hmem := List.mem_of_getElem? hp'
  rw [hprocs] at hmem
  exact List.mem_singleton.mp hmem

/-- **An attribute is delivered.** -/
theorem Wired.wires_deliver (h : Wired P table (cursor m) log) (horder : InHandleOrder table)
    (hJ : InBounds log) {n : ℕ} {q : DiscoverParams} (hq : m.procs[n]? = some (.discover q))
    (hnil : (takeProc n m).procs = []) {a : Attr} (ha : q.next table = some a) :
    Wires cfg P table (deliver q a) (takeProc n m) (noteEvent m (.discovered n) log) := by
  have hstage := h.stage
  have hsame (hne : m.discState ≠ .ccc) : noteEvent m (.discovered n) log = log := if_neg hne
  have hstate : (takeProc n m).discState = m.discState := rfl
  rw [Wires, deliver, logged_bind, discoverFunc, discovered, logged_bind, logged_look, hstate]
  cases hs : m.discState with
  | idle =>
    rw [hsame (by rw [hs]; decide)]
    exact h.take hnil (by rw [hs]; rfl)
  | hidsPrimary =>
    rcases (stage_hidsPrimary (c := cursor m) hs).mp hstage with ⟨hfirst, hrest⟩
    cases Proc.discover.inj (hfirst _ (List.mem_of_getElem? hq))
    rw [hsame (by rw [hs]; decide), logged_bind]
    exact wires_discoverReportMap (h.take hnil (by rw [hs]; rfl)) hrest ha hJ
  | reportMapChrc =>
    rcases (stage_reportMapChrc (c := cursor m) hs).mp hstage with ⟨hend, hrest⟩
    rw [hsame (by rw [hs]; decide), logged_bind]
    exact wires_readReportMap (h.take hnil (by rw [hs]; rfl)) hs hend hrest hnil hJ _
  | reportChrc =>
    rcases (stage_reportChrc (c := cursor m) hs).mp hstage with ⟨hend, q', hprocs, hcollect⟩
    cases Proc.discover.inj (eq_of_singleton hprocs hq)
    have hnext : Collecting table (tally (collectReport a (takeProc n m))) log (q.after a) :=
      Collecting.collect (m := takeProc n m) hcollect horder ha
    have hkept : (collectReport a (takeProc n m)).discState = .reportChrc ∧
        (collectReport a (takeProc n m)).hidsEndHandle = serviceEnd table ∧
        (collectReport a (takeProc n m)).procs = [] := by
      unfold collectReport
      split <;> exact ⟨hs, hend, hnil⟩
    have hprocs' : (collectReport a (takeProc n m)).procs ++ [.discover (q.after a)] =
        [.discover (q.after a)] := by
      rw [hkept.2.2, List.nil_append]
    rw [hsame (by rw [hs]; decide), logged_bind, logged_assign, logged_pure, logged_assign]
    exact ⟨hnext.lengths, fun _ => hnext.subCount_eq,
      (stage_reportChrc hkept.1).mpr ⟨hkept.2.1, q.after a, hprocs', hnext⟩⟩
  | reportRef =>
    rcases (stage_reportRef (c := cursor m) hs).mp hstage with ⟨hcur, ⟨hprocs, -⟩ | ⟨d, -, hprocs⟩⟩
    · cases Proc.discover.inj (eq_of_singleton hprocs hq)
      rw [hsame (by rw [hs]; decide), logged_bind]
      exact wires_readReportRef (m := takeProc n m) ⟨hcur.ends, hcur.lt, hcur.progress⟩ hs hnil
        ha hJ
    · exact absurd (eq_of_singleton hprocs hq) (by simp)
  | ccc =>
    rcases (stage_ccc (c := cursor m) hs).mp hstage with ⟨hcur, hid, hprocs⟩
    cases Proc.discover.inj (eq_of_singleton hprocs hq)
    have hfound : noteEvent m (.discovered n) log =
        { log with found := log.found ++ [pendingReport (takeProc n m)] } := if_pos hs
    rw [hfound, logged_bind]
    exact wires_wireReport (m := takeProc n m) ⟨hcur.ends, hcur.lt, hcur.progress⟩ hnil hid ha hJ

/-- **A discovery ends.** -/
theorem Wired.wires_finishDiscover (h : Wired P table (cursor m) log) (hJ : InBounds log) {n : ℕ}
    {q : DiscoverParams} (hq : m.procs[n]? = some (.discover q)) (hnil : (takeProc n m).procs = [])
    (hwhole : m.discState = .reportChrc → q.next table = none) :
    Wires cfg P table finishDiscover (takeProc n m) (noteEvent m (.discoverDone n) log) := by
  have hstage := h.stage
  have hstate : (takeProc n m).discState = m.discState := rfl
  simp only [Wires, finishDiscover, discoverFunc, discoverDone, logged_bind, logged_look,
    logged_pure, noteEvent, hstate]
  cases hs : m.discState with
  | idle => exact h.take hnil (by rw [hs]; rfl)
  | hidsPrimary => exact h.take hnil (by rw [hs]; rfl)
  | reportMapChrc =>
    have hend := ((stage_reportMapChrc (c := cursor m) hs).mp hstage).1
    exact wires_startReportDiscovery (m := takeProc n m) h.lengths hend hnil hJ
  | reportChrc =>
    rcases (stage_reportChrc (c := cursor m) hs).mp hstage with ⟨hend, q', hprocs, hcollect⟩
    cases Proc.discover.inj (eq_of_singleton hprocs hq)
    exact wires_reportsCollected (m := takeProc n m) hcollect hend (hwhole hs) hnil hJ
  | reportRef =>
    rcases (stage_reportRef (c := cursor m) hs).mp hstage with ⟨hcur, ⟨-, hid⟩ | ⟨d, -, hprocs⟩⟩
    · exact wires_discoverCcc (m := takeProc n m) ⟨hcur.ends, hcur.lt, hcur.progress⟩ hnil
        (Or.inl hid) hJ
    · exact absurd (eq_of_singleton hprocs hq) (by simp)
  | ccc =>
    rcases (stage_ccc (c := cursor m) hs).mp hstage with ⟨hcur, -, -⟩
    exact wires_skip (m := takeProc n m) ⟨hcur.ends, hcur.lt, hcur.progress⟩ hnil hJ

/-- What is written at an event keeps the reads in bounds. -/
theorem Wired.inBounds_noteEvent (h : Wired P table (cursor m) log) (hJ : InBounds log)
    (e : Event) : InBounds (noteEvent m e log) := by
  cases e with
  | discovered n =>
    simp only [noteEvent]
    split <;> exact hJ
  | discoverDone n =>
    simp only [noteEvent]
    split
    · exact hJ
    · next hs =>
      -- the report that is skipped is a pending one
      exact hJ.read ((stage_ccc (c := cursor m) hs).mp h.stage).1.lt
    · exact hJ
  | readResponse n err data =>
    simp only [noteEvent]
    cases m.procs[n]? with
    | none => exact hJ
    | some p => cases p <;> exact hJ
  | _ => exact hJ

/-! ### Subscriptions that end -/

/-- The subscription in this slot ends. -/
def Tally.tearDown (t : Tally) (slot : ℕ) : Tally :=
  { t with subs := t.subs.modify slot fun s => { s with valueHandle := 0 } }

theorem Lengths.tearDown {t : Tally} (h : Lengths t) (slot : ℕ) : Lengths (t.tearDown slot) :=
  ⟨h.pending, (List.length_modify ..).trans h.subs⟩

/-- Its parameters are marked. -/
theorem Progress.tearDown {t : Tally} {k : ℕ} (h : Progress table t log k) (slot : ℕ) :
    Progress table (t.tearDown slot) { log with tornDown := true } k where
  lengths := h.lengths.tearDown slot
  collected := h.collected
  count_le := h.count_le
  idx_le := h.idx_le
  subCount_le := h.subCount_le
  pending := h.pending
  visited := h.visited
  found := h.found
  matched := h.matched
  sources s hs := by
    rcases List.mem_iff_getElem?.mp hs with ⟨i, hi⟩
    change ((t.subs.modify slot fun s => { s with valueHandle := 0 }).take t.subCount)[i]? =
      some s at hi
    have hlt : i < t.subCount := by
      by_contra hge
      rw [List.getElem?_take_eq_none (Nat.le_of_not_lt hge)] at hi
      cases hi
    rw [List.getElem?_take_of_lt hlt, List.getElem?_modify] at hi
    rcases Option.map_eq_some_iff.mp hi with ⟨s', hs', rfl⟩
    split
    · exact Or.inl rfl
    · refine (h.sources s' ?_).imp_right fun hsrc => hsrc.mono fun _ hr => hr
      exact List.mem_of_getElem? ((List.getElem?_take_of_lt hlt).trans hs')
  distinct hkept := by cases hkept

end BleHidHost
