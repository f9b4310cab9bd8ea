import BleHidHost.Fresh
import BleHidHost.Lib.Relational

/-!
# A reconnect is as good as a restart

The buffers of a connection are not cleared when it ends: the Report Map, the layout,
the pending reports and the subscriptions of the last peer are still there when the next
one connects.  They are never read before they have been written again.  So whatever
happens after a disconnect might as well happen after bring-up.

## Main definitions

* `Leftovers` — the variables that a disconnect does not clear.
* `Matches` — leftovers that agree with the state's own wherever those can be read.
* `Twin` — two states that differ in nothing but such leftovers.
* `Central.restarted` — the state of bring-up, with what is known of the stack.

## Main results

* `agree_entered` — every callback does the same in twins, and leaves twins.
* `run_restarted` — **what happens after a disconnect might as well happen after
  bring-up.**
-/

namespace BleHidHost

open Lib Lib.Prog

variable {cfg : Setup} {P : Condition} {m n : Central} {io : Pipeline}

/-! ### Leftovers -/

/-- The variables that a disconnect does not clear. -/
structure Leftovers where
  discoverParams : DiscoverParams
  hidsEndHandle : U16
  rmBuf : List U8
  layout : ReportLayout
  pendingReports : List U16
  curReportId : U8
  subs : List HidSubscription

/-- The state with other leftovers. -/
def Central.withLeftovers (m : Central) (o : Leftovers) : Central :=
  { m with
    discoverParams := o.discoverParams
    hidsEndHandle := o.hidsEndHandle
    rmBuf := o.rmBuf
    layout := o.layout
    pendingReports := o.pendingReports
    curReportId := o.curReportId
    subs := o.subs }

/-- The leftovers agree with the state's own wherever those can still be read. -/
structure Matches (m : Central) (o : Leftovers) : Prop where
  /-- The layout is read where it is valid. -/
  layout : m.layoutValid → o.layout = m.layout
  /-- The end of the service is read while a discovery goes on. -/
  service : m.discState ≠ .idle → o.hidsEndHandle = m.hidsEndHandle
  /-- The buffer is read as far as it is used. -/
  map : o.rmBuf.take m.rmLen = m.rmBuf.take m.rmLen
  rmLen_le : m.rmLen ≤ m.rmBuf.length
  rmBuf_length : o.rmBuf.length = m.rmBuf.length
  /-- The reports are read as far as they are counted. -/
  pending : ∀ i < m.pendingCount, o.pendingReports.getD i 0 = m.pendingReports.getD i 0
  pending_length : o.pendingReports.length = m.pendingReports.length
  /-- The Report ID is read while a report is wired. -/
  reportId : m.discState.wires → o.curReportId = m.curReportId
  /-- A subscription is read on a notification. -/
  subs : ∀ slot ∈ m.subscribed, o.subs.getD slot ⟨0, 0, 0⟩ = m.subs.getD slot ⟨0, 0, 0⟩
  subs_length : o.subs.length = m.subs.length

/-- The states differ in nothing but leftovers that cannot be read. -/
def Twin (m n : Central) : Prop := ∃ o, Matches m o ∧ n = m.withLeftovers o

/-- What holds of twins between two callbacks. -/
structure Paired (m n : Central) : Prop where
  twin : Twin m n
  aimed : Aimed m

/-- The state without what the leftovers need not match. -/
def offMatched (m : Central) : Central :=
  { offLink m with
    discoverParams := default
    pendingIdx := 0
    subCount := 0
    procs := []
    bonds := []
    uptime := 0
    mayQueue := false
    lastMap := none }

/-- What only concerns the link need not be matched. -/
theorem offMatched_eq_of_offLink {m' : Central} (h : offLink m' = offLink m) :
    offMatched m' = offMatched m :=
  congrArg (fun c : Central =>
    { c with
      discoverParams := default
      pendingIdx := 0
      subCount := 0
      procs := []
      bonds := []
      uptime := 0
      mayQueue := false
      lastMap := none }) h

/-- An assignment that leaves alone what the leftovers must match. -/
theorem Matches.congr {m' : Central} {o : Leftovers} (h : Matches m o)
    (heq : offMatched m' = offMatched m) : Matches m' o := by
  have hleft {α : Type} (f : Central → α) : f (offMatched m') = f (offMatched m) := by rw [heq]
  have hvalid : m'.layoutValid = m.layoutValid := hleft (·.layoutValid)
  have hlayout : m'.layout = m.layout := hleft (·.layout)
  have hstate : m'.discState = m.discState := hleft (·.discState)
  have hend : m'.hidsEndHandle = m.hidsEndHandle := hleft (·.hidsEndHandle)
  have hlen : m'.rmLen = m.rmLen := hleft (·.rmLen)
  have hbuf : m'.rmBuf = m.rmBuf := hleft (·.rmBuf)
  have hcount : m'.pendingCount = m.pendingCount := hleft (·.pendingCount)
  have hpending : m'.pendingReports = m.pendingReports := hleft (·.pendingReports)
  have hid : m'.curReportId = m.curReportId := hleft (·.curReportId)
  have hsubscribed : m'.subscribed = m.subscribed := hleft (·.subscribed)
  have hsubs : m'.subs = m.subs := hleft (·.subs)
  refine ⟨?_, ?_, ?_, ?_, ?_, ?_, ?_, ?_, ?_, ?_⟩
  · rw [hvalid, hlayout]
    exact h.layout
  · rw [hstate, hend]
    exact h.service
  · rw [hlen, hbuf]
    exact h.map
  · rw [hlen, hbuf]
    exact h.rmLen_le
  · rw [hbuf]
    exact h.rmBuf_length
  · rw [hcount, hpending]
    exact h.pending
  · rw [hpending]
    exact h.pending_length
  · rw [hstate, hid]
    exact h.reportId
  · rw [hsubscribed, hsubs]
    exact h.subs
  · rw [hsubs]
    exact h.subs_length

/-- Where the layout is valid, it is the same. -/
theorem Twin.layout_eq (h : Twin m n) (hvalid : m.layoutValid) : n.layout = m.layout := by
  obtain ⟨o, ho, rfl⟩ := h
  exact ho.layout hvalid

/-- **The handler does not tell twins apart.** -/
theorem Twin.sameWork (h : Twin m n) : (central cfg).SameWork m n := by
  intro io
  have hlayout := h.layout_eq
  obtain ⟨o, -, rfl⟩ := h
  show reportWorkTurn cfg m io = reportWorkTurn cfg (m.withLeftovers o) io
  cases hqueue : io.queue with
  | nil => rw [reportWorkTurn_nil hqueue, reportWorkTurn_nil hqueue]
  | cons q rest =>
    obtain ⟨conn, evt⟩ := q
    by_cases hvalid : m.layoutValid
    · have heq : (m.withLeftovers o).layout = m.layout := hlayout hvalid
      have hdecode : handlerDecode (m.withLeftovers o) evt = handlerDecode m evt := by
        simp only [handlerDecode, isPointerReport, heq]
        rfl
      cases hevt : handlerDecode m evt with
      | none =>
        rw [reportWorkTurn_none hqueue hevt, reportWorkTurn_none hqueue (hdecode.trans hevt)]
      | some r =>
        rw [reportWorkTurn_some hqueue hevt, reportWorkTurn_some hqueue (hdecode.trans hevt),
          publishReport, publishReport, heq]
        rfl
    · -- without a valid layout the report is dropped
      have hnone (m' : Central) (hm' : ¬ m'.layoutValid) : handlerDecode m' evt = none :=
        if_neg fun hpointer => hm' hpointer.1
      have hboth : handlerDecode (m.withLeftovers o) evt = none := hnone _ hvalid
      rw [reportWorkTurn_none hqueue (hnone m hvalid), reportWorkTurn_none hqueue hboth]

/-! ### Rules -/

/-- The callback does the same from both states, with this relation behind it. -/
abbrev ActsAlike {α : Type} (cfg : Setup) (P : Condition) (p : Callback α)
    (Q : α → Central → Central → Prop) (m n : Central) : Prop :=
  Agree (central cfg) P Q p p m n

/-- A call has the same effect on twins. -/
theorem answer_withLeftovers (c : Request) (err : Errno) (m : Central) (o : Leftovers) :
    answer c err (m.withLeftovers o) = (answer c err m).map (·.withLeftovers o) := by
  cases c with
  | leScanStart =>
    cases err with
    | already =>
      show (if m.scanning then _ else _) = Option.map _ (if m.scanning then _ else _)
      split <;> rfl
    | success | failure => rfl
  | _ => cases err <;> rfl

/-- The rule for a call behind which the leftovers match. -/
theorem actsAlike_ask {c : Request} {o : Leftovers} {Q : Errno → Central → Central → Prop}
    (hmatch : ∀ err m', answer c err m = some m' → Matches m' o)
    (hQ : ∀ err m', answer c err m = some m' → Q err m' (m'.withLeftovers o)) :
    ActsAlike cfg P (ask c) Q m (m.withLeftovers o) := by
  refine agree_ask ?_ ?_
  · intro err _
    rw [central_answer, answer_withLeftovers]
    cases hm : answer c err m with
    | none => exact .none
    | some m' => exact .some (Twin.sameWork ⟨o, hmatch err m' hm, rfl⟩)
  · intro err m' n' _ hm hn
    rw [central_answer] at hm
    rw [central_answer, answer_withLeftovers, hm] at hn
    cases hn
    exact hQ err m' hm

/-- The rule for a call that may be refused. -/
theorem actsAlike_askOr {c : Request} {q : Callback Unit} {Q : Unit → Central → Central → Prop}
    (hscan : c ≠ .leScanStart) (hsub : ∀ slot, c ≠ .gattSubscribe slot) (h : Twin m n)
    (hmatch : ∀ o, Matches m o → Matches (granted c m) o)
    (hQ : ∀ n', Twin (granted c m) n' → Q () (granted c m) n')
    (hq : ∀ n', Twin m n' → ActsAlike cfg P q Q m n') : ActsAlike cfg P (askOr c q) Q m n := by
  have hcases {err : Errno} {m' : Central} (hans : answer c err m = some m') :
      (err = .success ∧ m' = granted c m) ∨ (err ≠ .success ∧ m' = m) := by
    by_cases herr : err = .success
    · subst herr
      rw [answer_success, Option.some_inj] at hans
      exact Or.inl ⟨rfl, hans.symm⟩
    · rw [answer_refused hscan hsub herr, Option.some_inj] at hans
      exact Or.inr ⟨herr, hans.symm⟩
  obtain ⟨o, ho, rfl⟩ := h
  refine agree_bind (actsAlike_ask ?_ ?_)
  · intro err m' hans
    rcases hcases hans with ⟨-, rfl⟩ | ⟨-, rfl⟩
    · exact hmatch o ho
    · exact ho
  · intro err m' hans
    rcases hcases hans with ⟨rfl, rfl⟩ | ⟨herr, rfl⟩
    · exact .ret (hQ _ ⟨o, hmatch o ho, rfl⟩)
    · exact agree_ite Iff.rfl (fun _ => hq _ ⟨o, ho, rfl⟩) fun hsucc => absurd herr hsucc

/-- The rule for an assignment that commutes with the leftovers. -/
theorem actsAlike_assign {f : Central → Central} {Q : Unit → Central → Central → Prop}
    (h : Twin (f m) (f n)) (hQ : Q () (f m) (f n)) : ActsAlike cfg P (assign f) Q m n :=
  agree_assign h.sameWork hQ

/-- The rule for an action behind which the leftovers match. -/
theorem agree_emit_leftovers {α : Type} {f : Central → Central} {g : Central → Pipeline → Pipeline}
    {o : Leftovers} {q q' : Callback α} {Q : α → Central → Central → Prop}
    (hio : ∀ io, g m io = g n io) (heq : f n = (f m).withLeftovers o) (hmatch : Matches (f m) o)
    (h : Agree (central cfg) P Q q q' (f m) ((f m).withLeftovers o)) :
    Agree (central cfg) P Q (do emit f g; q) (do emit f g; q') m n := by
  rw [← heq] at h
  exact agree_bind (agree_emit hio (Twin.sameWork ⟨o, hmatch, heq⟩) h)

/-- The rule for an assignment behind which the leftovers match. -/
theorem agree_assign_leftovers {α : Type} {f : Central → Central} {o : Leftovers}
    {q q' : Callback α} {Q : α → Central → Central → Prop} (heq : f n = (f m).withLeftovers o)
    (hmatch : Matches (f m) o)
    (h : Agree (central cfg) P Q q q' (f m) ((f m).withLeftovers o)) :
    Agree (central cfg) P Q (do assign f; q) (do assign f; q') m n :=
  agree_emit_leftovers (fun _ => rfl) heq hmatch h

/-- An assignment that only concerns the link. -/
theorem Twin.offLink {f : Central → Central} (h : Twin m n)
    (hcomm : ∀ m o, f (m.withLeftovers o) = (f m).withLeftovers o)
    (hoff : ∀ m, BleHidHost.offLink (f m) = BleHidHost.offLink m) : Twin (f m) (f n) := by
  obtain ⟨o, ho, rfl⟩ := h
  exact ⟨o, ho.congr (offMatched_eq_of_offLink (hoff m)), hcomm m o⟩

theorem Aimed.congr {m' : Central} (h : Aimed m) (heq : offLink m' = offLink m) : Aimed m' := by
  have hof (m : Central) : Aimed m = Aimed (BleHidHost.offLink m) := rfl
  rw [hof, heq]
  exact h

theorem Paired.offLink {f : Central → Central} (h : Paired m n)
    (hcomm : ∀ m o, f (m.withLeftovers o) = (f m).withLeftovers o)
    (hoff : ∀ m, BleHidHost.offLink (f m) = BleHidHost.offLink m) : Paired (f m) (f n) :=
  ⟨h.twin.offLink hcomm hoff, h.aimed.congr (hoff m)⟩

/-- The rule for an assignment that only concerns the link. -/
theorem actsAlike_assign_offLink {f : Central → Central} (h : Paired m n)
    (hcomm : ∀ m o, f (m.withLeftovers o) = (f m).withLeftovers o)
    (hoff : ∀ m, offLink (f m) = offLink m) :
    ActsAlike cfg P (assign f) (fun _ => Paired) m n :=
  actsAlike_assign (h.offLink hcomm hoff).twin (h.offLink hcomm hoff)

/-- The same, with what follows. -/
theorem actsAlike_assign_offLink_bind {f : Central → Central} {q : Callback Unit}
    {Q : Unit → Central → Central → Prop} (h : Paired m n)
    (hcomm : ∀ m o, f (m.withLeftovers o) = (f m).withLeftovers o)
    (hoff : ∀ m, offLink (f m) = offLink m)
    (hq : ∀ m' n', Paired m' n' → ActsAlike cfg P q Q m' n') :
    ActsAlike cfg P (do assign f; q) Q m n :=
  agree_bind ((actsAlike_assign_offLink h hcomm hoff).mono fun _ m' n' hpair => hq m' n' hpair)

/-- The rule for a call that only concerns the link. -/
theorem actsAlike_ask_offLink {c : Request} (h : Paired m n)
    (hoff : ∀ err m', answer c err m = some m' → offLink m' = offLink m) :
    ActsAlike cfg P (ask c) (fun _ => Paired) m n := by
  obtain ⟨⟨o, ho, rfl⟩, haimed⟩ := h
  have hmatch (err : Errno) (m' : Central) (hans : answer c err m = some m') : Matches m' o :=
    ho.congr (offMatched_eq_of_offLink (hoff err m' hans))
  refine actsAlike_ask hmatch fun err m' hans => ?_
  exact ⟨⟨o, hmatch err m' hans, rfl⟩, haimed.congr (hoff err m' hans)⟩

/-! ### Callbacks of the connection -/

theorem actsAlike_startScan (h : Paired m n) : ActsAlike cfg P startScan (fun _ => Paired) m n := by
  refine agree_bind ((actsAlike_ask_offLink h ?_).mono ?_)
  · intro err m' hans
    cases err with
    | success | failure =>
      cases hans
      rfl
    | already =>
      obtain ⟨-, heq⟩ := Option.ite_none_right_eq_some.mp hans
      cases heq
      rfl
  · intro err m' n' hpair
    refine agree_ite Iff.rfl (fun _ => .ret hpair) fun _ => ?_
    exact agree_ite Iff.rfl
      (fun _ => actsAlike_assign_offLink hpair (fun _ _ => rfl) fun _ => rfl) fun _ => .ret hpair

theorem actsAlike_scanRetryHandler (h : Paired m n) :
    ActsAlike cfg P scanRetryHandler (fun _ => Paired) m n := by
  have hconn : m.defaultConn = n.defaultConn := by
    obtain ⟨o, -, rfl⟩ := h.twin
    rfl
  refine agree_look h.twin.sameWork (agree_ite ?_ (fun _ => actsAlike_startScan h) fun _ => .ret h)
  rw [hconn]

theorem actsAlike_deviceFound (h : Paired m n) (addr : Addr) (type : AdvType) (ad : List BtData) :
    ActsAlike cfg P (deviceFound cfg addr type ad) (fun _ => Paired) m n := by
  have htarget : isTarget cfg m addr type ad ↔ isTarget cfg n addr type ad := by
    obtain ⟨o, -, rfl⟩ := h.twin
    exact Iff.rfl
  refine agree_look h.twin.sameWork (agree_ite htarget (fun _ => ?_) fun _ => .ret h)
  refine agree_bind ((actsAlike_ask_offLink h ?_).mono ?_)
  · intro err m' hans
    cases err <;> cases hans <;> rfl
  · intro err m' n' hpair
    refine agree_ite Iff.rfl (fun _ => .ret hpair) fun _ => ?_
    refine actsAlike_askOr (by simp) (by simp) hpair.twin (fun _ ho => ho.congr rfl) ?_ ?_
    · intro n'' htwin
      exact ⟨htwin, hpair.aimed.congr rfl⟩
    · intro n'' htwin
      exact actsAlike_startScan ⟨htwin, hpair.aimed⟩

theorem actsAlike_connected (h : Paired m n) (err : Bool) :
    ActsAlike cfg P (connected err) (fun _ => Paired) m n := by
  refine agree_ite Iff.rfl (fun _ => ?_) fun _ => ?_
  · refine actsAlike_assign_offLink_bind h (fun _ _ => rfl) (fun _ => rfl) fun m' n' hpair => ?_
    refine actsAlike_assign_offLink_bind hpair (fun _ _ => rfl) (fun _ => rfl) fun _ _ hpair' => ?_
    exact actsAlike_startScan hpair'
  · refine actsAlike_askOr (by simp) (by simp) h.twin (fun _ ho => ho.congr rfl) ?_ ?_
    · intro n' htwin
      exact ⟨htwin, h.aimed.congr rfl⟩
    · intro n' htwin
      exact .ret ⟨htwin, h.aimed⟩

theorem actsAlike_securityFailed (h : Paired m n) (peer : Addr) :
    ActsAlike cfg P (securityFailed peer) (fun _ => Paired) m n := by
  refine actsAlike_assign_offLink_bind h (fun _ _ => rfl) (fun _ => rfl) fun m' n' hpair => ?_
  refine actsAlike_askOr (by simp) (by simp) hpair.twin (fun _ ho => ho.congr rfl) ?_ ?_
  · intro n'' htwin
    exact ⟨htwin, hpair.aimed.congr rfl⟩
  · intro n'' htwin
    exact .ret ⟨htwin, hpair.aimed⟩

/-! ### Wiring -/

/-- A discovery that finds the same parameters. -/
theorem actsAlike_discoverOr {q : Callback Unit} (h : Twin m n) (haimed : Aimed m)
    (hparams : n.discoverParams = m.discoverParams)
    (hq : ∀ n', Twin m n' → ActsAlike cfg P q (fun _ => Paired) m n') :
    ActsAlike cfg P (discoverOr q) (fun _ => Paired) m n := by
  refine agree_look h.sameWork ?_
  rw [hparams]
  refine actsAlike_askOr (by simp) (by simp) h (fun _ ho => ho.congr rfl) ?_ hq
  intro n' htwin
  exact ⟨htwin, haimed⟩

/-- The end of a discovery leaves nothing to match of it. -/
theorem Twin.idle (h : Twin m n) :
    Paired { m with discState := .idle } { n with discState := .idle } := by
  obtain ⟨o, ho, rfl⟩ := h
  refine ⟨⟨o, ?_, rfl⟩, (absurd · Bool.false_ne_true)⟩
  exact ⟨ho.layout, fun hne => absurd rfl hne, ho.map, ho.rmLen_le, ho.rmBuf_length, ho.pending,
    ho.pending_length, (absurd · Bool.false_ne_true), ho.subs, ho.subs_length⟩

theorem actsAlike_discIdle (h : Twin m n) : ActsAlike cfg P discIdle (fun _ => Paired) m n :=
  actsAlike_assign h.idle.twin h.idle

/-- The search for a descriptor of a report that is counted reads nothing left over. -/
theorem descriptorParams_withLeftovers {o : Leftovers} (ho : Matches m o)
    (hstate : m.discState ≠ .idle) (hidx : m.pendingIdx < m.pendingCount) (uuid : U16) :
    descriptorParams (m.withLeftovers o) uuid = descriptorParams m uuid := by
  have hreport : pendingReport (m.withLeftovers o) = pendingReport m := ho.pending _ hidx
  have hend : curReportEndHandle (m.withLeftovers o) = curReportEndHandle m := by
    unfold curReportEndHandle
    by_cases hnext : m.pendingIdx + 1 < m.pendingCount
    · have hpending := ho.pending _ hnext
      simp only [Central.withLeftovers, if_pos hnext, hpending]
    · have hservice := ho.service hstate
      simp only [Central.withLeftovers, if_neg hnext, hservice]
  rw [descriptorParams, descriptorParams, hreport, hend]

/-- The parameters of a search are written, and the state of the discovery moves on. -/
theorem Matches.search {o : Leftovers} (ho : Matches m o) (hstate : m.discState ≠ .idle)
    (q : DiscoverParams) (state : DiscState)
    (hwires : state.wires → o.curReportId = m.curReportId) :
    Matches { m with discoverParams := q, discState := state } { o with discoverParams := q } :=
  ⟨ho.layout, fun _ => ho.service hstate, ho.map, ho.rmLen_le, ho.rmBuf_length, ho.pending,
    ho.pending_length, hwires, ho.subs, ho.subs_length⟩

/-- The CCC of a report that is counted, whose Report ID is the same. -/
theorem actsAlike_discoverCcc (h : Twin m n) (hstate : m.discState ≠ .idle)
    (hidx : m.pendingIdx < m.pendingCount) (hid : n.curReportId = m.curReportId) :
    ActsAlike cfg P discoverCcc (fun _ => Paired) m n := by
  obtain ⟨o, ho, rfl⟩ := h
  have hparams := descriptorParams_withLeftovers ho hstate hidx uuidGattCcc
  have htwin : Twin { m with discoverParams := descriptorParams m uuidGattCcc, discState := .ccc }
      { m.withLeftovers o with
        discoverParams := descriptorParams (m.withLeftovers o) uuidGattCcc
        discState := .ccc } := by
    refine ⟨_, ho.search hstate (descriptorParams m uuidGattCcc) .ccc (fun _ => hid), ?_⟩
    rw [hparams]
    rfl
  refine agree_bind (actsAlike_assign htwin ?_)
  refine actsAlike_discoverOr htwin (fun _ => hidx) hparams ?_
  intro n' htwin'
  exact actsAlike_discIdle htwin'

theorem actsAlike_discoverReportRef (h : Twin m n) (hstate : m.discState ≠ .idle)
    (hidx : m.pendingIdx < m.pendingCount) :
    ActsAlike cfg P discoverReportRef (fun _ => Paired) m n := by
  obtain ⟨o, ho, rfl⟩ := h
  have hparams := descriptorParams_withLeftovers ho hstate hidx uuidHidsReportRef
  have htwin : Twin
      { m with
        curReportId := 0
        discoverParams := descriptorParams m uuidHidsReportRef
        discState := .reportRef }
      { m.withLeftovers o with
        curReportId := 0
        discoverParams := descriptorParams (m.withLeftovers o) uuidHidsReportRef
        discState := .reportRef } := by
    refine ⟨{ o with discoverParams := descriptorParams m uuidHidsReportRef, curReportId := 0 },
      ⟨ho.layout, fun _ => ho.service hstate, ho.map, ho.rmLen_le, ho.rmBuf_length, ho.pending,
        ho.pending_length, fun _ => rfl, ho.subs, ho.subs_length⟩, ?_⟩
    rw [hparams]
    rfl
  refine agree_bind (actsAlike_assign htwin ?_)
  refine actsAlike_discoverOr htwin (fun _ => hidx) hparams ?_
  intro n' htwin'
  obtain ⟨o', ho', rfl⟩ := htwin'
  exact actsAlike_discoverCcc ⟨o', ho', rfl⟩ (by simp) hidx (ho'.reportId rfl)

theorem actsAlike_subscribePending (h : Twin m n) (hstate : m.discState ≠ .idle) :
    ActsAlike cfg P subscribePending (fun _ => Paired) m n := by
  refine agree_look h.sameWork (agree_ite ?_ (fun _ => actsAlike_discIdle h) fun hleft => ?_)
  · obtain ⟨o, -, rfl⟩ := h
    exact Iff.rfl
  · exact actsAlike_discoverReportRef h hstate (Nat.lt_of_not_le hleft)

theorem actsAlike_startReportDiscovery (h : Twin m n) (hstate : m.discState ≠ .idle) :
    ActsAlike cfg P startReportDiscovery (fun _ => Paired) m n := by
  obtain ⟨o, ho, rfl⟩ := h
  have hcounts : Matches { m with pendingCount := 0, pendingIdx := 0 } o :=
    ⟨ho.layout, ho.service, ho.map, ho.rmLen_le, ho.rmBuf_length,
      fun _ hi => absurd hi (Nat.not_lt_zero _), ho.pending_length, ho.reportId, ho.subs,
      ho.subs_length⟩
  have hsubs : Matches { m with pendingCount := 0, pendingIdx := 0, subCount := 0 } o :=
    ⟨ho.layout, ho.service, ho.map, ho.rmLen_le, ho.rmBuf_length,
      fun _ hi => absurd hi (Nat.not_lt_zero _), ho.pending_length, ho.reportId, ho.subs,
      ho.subs_length⟩
  refine agree_bind (actsAlike_assign ⟨o, hcounts, rfl⟩ ?_)
  refine agree_bind (actsAlike_assign ⟨o, hsubs, rfl⟩ ?_)
  have hparams : DiscoverParams.mk uuidHidsReport firstAttributeHandle o.hidsEndHandle
        .characteristic =
      ⟨uuidHidsReport, firstAttributeHandle, m.hidsEndHandle, .characteristic⟩ := by
    rw [ho.service hstate]
  have htwin : Twin
      { m with
        pendingCount := 0
        pendingIdx := 0
        subCount := 0
        discoverParams := ⟨uuidHidsReport, firstAttributeHandle, m.hidsEndHandle, .characteristic⟩
        discState := .reportChrc }
      { m.withLeftovers o with
        pendingCount := 0
        pendingIdx := 0
        subCount := 0
        discoverParams := ⟨uuidHidsReport, firstAttributeHandle, o.hidsEndHandle, .characteristic⟩
        discState := .reportChrc } := by
    refine ⟨_, hsubs.search hstate ⟨uuidHidsReport, firstAttributeHandle, m.hidsEndHandle,
      .characteristic⟩ .reportChrc (absurd · Bool.false_ne_true), ?_⟩
    rw [hparams]
    rfl
  refine agree_bind (actsAlike_assign htwin ?_)
  refine actsAlike_discoverOr htwin (absurd · Bool.false_ne_true) hparams ?_
  intro n' htwin'
  exact actsAlike_discIdle htwin'

/-! ### Discovery results -/

theorem actsAlike_discoverReportMap (h : Twin m n) (a : Attr) :
    ActsAlike cfg P (discoverReportMap a) (fun _ => Paired) m n := by
  obtain ⟨o, ho, rfl⟩ := h
  have htwin : Twin
      { m with
        hidsEndHandle := a.value
        discoverParams := ⟨uuidHidsReportMap, a.handle + 1, a.value, .characteristic⟩
        discState := .reportMapChrc }
      { m.withLeftovers o with
        hidsEndHandle := a.value
        discoverParams := ⟨uuidHidsReportMap, a.handle + 1, a.value, .characteristic⟩
        discState := .reportMapChrc } :=
    ⟨{ o with
        hidsEndHandle := a.value
        discoverParams := ⟨uuidHidsReportMap, a.handle + 1, a.value, .characteristic⟩ },
      ⟨ho.layout, fun _ => rfl, ho.map, ho.rmLen_le, ho.rmBuf_length, ho.pending,
        ho.pending_length, (absurd · Bool.false_ne_true), ho.subs, ho.subs_length⟩, rfl⟩
  refine agree_bind (actsAlike_assign htwin ?_)
  refine actsAlike_discoverOr htwin (absurd · Bool.false_ne_true) rfl ?_
  intro n' htwin'
  exact actsAlike_discIdle htwin'

theorem actsAlike_readReportMap (h : Twin m n) (hstate : m.discState = .reportMapChrc)
    (handle : U16) : ActsAlike cfg P (readReportMap handle) (fun _ => Paired) m n := by
  obtain ⟨o, ho, rfl⟩ := h
  have htwin : Twin { m with rmLen := 0 } { m.withLeftovers o with rmLen := 0 } :=
    ⟨o, ⟨ho.layout, ho.service, rfl, Nat.zero_le _, ho.rmBuf_length, ho.pending,
      ho.pending_length, ho.reportId, ho.subs, ho.subs_length⟩, rfl⟩
  have haimed : Aimed { m with rmLen := 0 } := by
    intro hwires
    rw [hstate] at hwires
    exact absurd hwires Bool.false_ne_true
  refine agree_bind (actsAlike_assign htwin (actsAlike_askOr (by simp) (by simp) htwin ?_ ?_ ?_))
  · intro o' ho'
    exact ho'.congr rfl
  · intro n' htwin'
    exact ⟨htwin', haimed⟩
  · intro n' htwin'
    refine actsAlike_startReportDiscovery htwin' ?_
    simp [hstate]

theorem actsAlike_readReportRef (h : Twin m n) (hstate : m.discState = .reportRef)
    (hidx : m.pendingIdx < m.pendingCount) (handle : U16) :
    ActsAlike cfg P (readReportRef handle) (fun _ => Paired) m n := by
  refine actsAlike_askOr (by simp) (by simp) h (fun _ ho => ho.congr rfl) ?_ ?_
  · intro n' htwin
    exact ⟨htwin, fun _ => hidx⟩
  · rintro n' ⟨o, ho, rfl⟩
    have htwin : Twin { m with curReportId := 0 } { m.withLeftovers o with curReportId := 0 } :=
      ⟨{ o with curReportId := 0 }, ⟨ho.layout, ho.service, ho.map, ho.rmLen_le, ho.rmBuf_length,
        ho.pending, ho.pending_length, fun _ => rfl, ho.subs, ho.subs_length⟩, rfl⟩
    refine agree_bind (actsAlike_assign htwin (actsAlike_discoverCcc htwin ?_ hidx rfl))
    simp [hstate]

/-- An entry that is written is the same whatever was there before. -/
theorem getD_set_eq {α : Type} {xs ys : List α} (hlen : ys.length = xs.length) {i : ℕ} {d : α}
    (k : ℕ) (v : α) (h : i ≠ k → ys.getD i d = xs.getD i d) :
    (ys.set k v).getD i d = (xs.set k v).getD i d := by
  simp only [List.getD_eq_getElem?_getD, List.getElem?_set, hlen] at h ⊢
  by_cases hi : k = i
  · rw [if_pos hi, if_pos hi]
  · rw [if_neg hi, if_neg hi]
    exact h (Ne.symm hi)

theorem Twin.collectReport (h : Twin m n) (a : Attr) :
    Twin (BleHidHost.collectReport a m) (BleHidHost.collectReport a n) := by
  obtain ⟨o, ho, rfl⟩ := h
  unfold BleHidHost.collectReport
  split
  · refine ⟨{ o with pendingReports := o.pendingReports.set m.pendingCount a.value }, ?_, ?_⟩
    · refine ⟨ho.layout, ho.service, ho.map, ho.rmLen_le, ho.rmBuf_length, ?_, ?_, ho.reportId,
        ho.subs, ho.subs_length⟩
      · intro i hi
        refine getD_set_eq ho.pending_length _ _ fun hne => ho.pending i ?_
        exact Nat.lt_of_le_of_ne (Nat.le_of_lt_succ hi) hne
      · rw [List.length_set, List.length_set]
        exact ho.pending_length
    · next hc => rw [if_pos (show _ ∧ (m.withLeftovers o).pendingCount < _ from hc)]
                 rfl
  · next hc =>
    rw [if_neg (show ¬ (_ ∧ (m.withLeftovers o).pendingCount < _) from hc)]
    exact ⟨o, ho, rfl⟩

/-- The entry of a subscription is written. -/
theorem Matches.setSub {o : Leftovers} (ho : Matches m o) (sub : HidSubscription) :
    Matches { m with subs := m.subs.set m.subCount sub }
      { o with subs := o.subs.set m.subCount sub } := by
  refine ⟨ho.layout, ho.service, ho.map, ho.rmLen_le, ho.rmBuf_length, ho.pending,
    ho.pending_length, ho.reportId, ?_, ?_⟩
  · intro slot hslot
    exact getD_set_eq ho.subs_length _ _ fun _ => ho.subs slot hslot
  · rw [List.length_set, List.length_set]
    exact ho.subs_length

/-- A subscription is registered whose entry is the same. -/
theorem Matches.subscribe {o : Leftovers} {slot : ℕ} {err : Errno} {m' : Central}
    (ho : Matches m o) (hentry : o.subs.getD slot ⟨0, 0, 0⟩ = m.subs.getD slot ⟨0, 0, 0⟩)
    (hans : answer (.gattSubscribe slot) err m = some m') : Matches m' o := by
  have hsub : Matches (granted (.gattSubscribe slot) m) o := by
    refine ⟨ho.layout, ho.service, ho.map, ho.rmLen_le, ho.rmBuf_length, ho.pending,
      ho.pending_length, ho.reportId, ?_, ho.subs_length⟩
    intro slot' hslot'
    rcases List.mem_cons.mp hslot' with rfl | hslot'
    · exact hentry
    · exact ho.subs slot' hslot'
  cases err with
  | success | already =>
    cases hans
    exact hsub
  | failure =>
    cases hans
    exact ho

/-- A report that is counted is subscribed with what was found of it. -/
theorem actsAlike_subscribeReport (h : Twin m n) (hstate : m.discState = .ccc)
    (hidx : m.pendingIdx < m.pendingCount) (a : Attr) :
    ActsAlike cfg P (subscribeReport a) (fun _ m n => Twin m n ∧ m.discState = .ccc) m n := by
  obtain ⟨o, ho, rfl⟩ := h
  have hreport : pendingReport (m.withLeftovers o) = pendingReport m := ho.pending _ hidx
  have hid : o.curReportId = m.curReportId := ho.reportId (by rw [hstate]; rfl)
  have hsub : HidSubscription.mk (pendingReport (m.withLeftovers o)) a.handle o.curReportId =
      ⟨pendingReport m, a.handle, m.curReportId⟩ := by rw [hreport, hid]
  have hset := ho.setSub ⟨pendingReport m, a.handle, m.curReportId⟩
  refine agree_look (Twin.sameWork ⟨o, ho, rfl⟩) (agree_ite Iff.rfl (fun _ => ?_) fun _ => ?_)
  · refine agree_assign_leftovers
      (o := { o with subs := o.subs.set m.subCount ⟨pendingReport m, a.handle, m.curReportId⟩ })
      ?_ hset ?_
    · rw [← hsub]
      rfl
    · have hentry : ({ o with subs := o.subs.set m.subCount _ } : Leftovers).subs.getD m.subCount
          ⟨0, 0, 0⟩ = (m.subs.set m.subCount ⟨pendingReport m, a.handle, m.curReportId⟩).getD
            m.subCount ⟨0, 0, 0⟩ := getD_set_eq ho.subs_length _ _ fun hne => absurd rfl hne
      refine agree_bind (actsAlike_ask (c := .gattSubscribe m.subCount) (fun err m' hans => ?_)
        fun err m' hans => ?_)
      · exact hset.subscribe hentry hans
      · have hmatch := hset.subscribe hentry hans
        have hstate' : m'.discState = .ccc := by
          cases err <;> cases hans <;> exact hstate
        refine agree_ite Iff.rfl (fun _ => .ret ⟨⟨_, hmatch, rfl⟩, hstate'⟩) fun _ => ?_
        have hcount : Matches { m' with subCount := m'.subCount + 1 } _ :=
          hmatch.congr rfl
        exact actsAlike_assign ⟨_, hcount, rfl⟩ ⟨⟨_, hcount, rfl⟩, hstate'⟩
  · exact .ret ⟨⟨o, ho, rfl⟩, hstate⟩

theorem actsAlike_wireReport (h : Paired m n) (hstate : m.discState = .ccc) (a : Attr) :
    ActsAlike cfg P (wireReport a) (fun _ => Paired) m n := by
  have hidx : m.pendingIdx < m.pendingCount := h.aimed (by rw [hstate]; rfl)
  refine agree_bind ((actsAlike_subscribeReport h.twin hstate hidx a).mono ?_)
  rintro _ m' n' ⟨⟨o, ho, rfl⟩, hstate'⟩
  have hnext : Matches { m' with pendingIdx := m'.pendingIdx + 1 } o := ho.congr rfl
  refine agree_assign_leftovers (o := o) rfl hnext (actsAlike_subscribePending ⟨o, hnext, rfl⟩ ?_)
  simp [hstate']

/-- A result is told alike, and so is whether the discovery goes on. -/
theorem actsAlike_discovered (h : Paired m n) (a : Attr) :
    ActsAlike cfg P (discovered a) (fun _ => Paired) m n := by
  have hstop {p : Callback Unit} (hp : ActsAlike cfg P p (fun _ => Paired) m n) :
      ActsAlike cfg P (do p; pure Iter.stop : Callback Iter) (fun _ => Paired) m n :=
    agree_bind (hp.mono fun _ _ _ hpair => .ret hpair)
  have heq : n.discState = m.discState := by
    obtain ⟨o, -, rfl⟩ := h.twin
    rfl
  refine agree_look h.twin.sameWork ?_
  rw [heq]
  cases hstate : m.discState with
  | idle => exact .ret h
  | hidsPrimary => exact hstop (actsAlike_discoverReportMap h.twin a)
  | reportMapChrc => exact hstop (actsAlike_readReportMap h.twin hstate _)
  | reportChrc =>
    have hpair : Paired (collectReport a m) (collectReport a n) := by
      refine ⟨h.twin.collectReport a, fun hwires => ?_⟩
      -- the pass does not wire
      have hsame : (collectReport a m).discState = m.discState := by
        unfold collectReport
        split <;> rfl
      rw [hsame, hstate] at hwires
      exact absurd hwires Bool.false_ne_true
    exact agree_bind (actsAlike_assign hpair.twin (.ret hpair))
  | reportRef =>
    exact hstop (actsAlike_readReportRef h.twin hstate (h.aimed (by rw [hstate]; rfl)) _)
  | ccc => exact hstop (actsAlike_wireReport h hstate a)

/-- A procedure goes on. -/
theorem actsAlike_resume (h : Paired m n) (p : Proc) :
    ActsAlike cfg P (assign fun m => { m with procs := m.procs ++ [p] }) (fun _ => Paired) m n := by
  obtain ⟨⟨o, ho, rfl⟩, haimed⟩ := h
  have htwin : Twin { m with procs := m.procs ++ [p] } _ := ⟨o, ho.congr rfl, rfl⟩
  exact actsAlike_assign htwin ⟨htwin, haimed⟩

theorem actsAlike_deliver (h : Paired m n) (q : DiscoverParams) (a : Attr) :
    ActsAlike cfg P (deliver q a) (fun _ => Paired) m n := by
  refine agree_bind ((actsAlike_discovered h a).mono ?_)
  intro i m' n' hpair
  cases i with
  | «continue» => exact actsAlike_resume hpair _
  | stop => exact .ret hpair

theorem actsAlike_finishDiscover (h : Paired m n) :
    ActsAlike cfg P finishDiscover (fun _ => Paired) m n := by
  have hidle (hstate : m.discState = .ccc ∨ m.discState = .reportRef) : m.discState.wires := by
    rcases hstate with hstate | hstate <;> rw [hstate] <;> rfl
  have hdone : ActsAlike cfg P discoverDone (fun _ => Paired) m n := by
    have heq : n.discState = m.discState := by
      obtain ⟨o, -, rfl⟩ := h.twin
      rfl
    refine agree_look h.twin.sameWork ?_
    rw [heq]
    cases hstate : m.discState with
    | idle => exact .ret h
    | hidsPrimary => exact .ret h
    | reportMapChrc => exact actsAlike_startReportDiscovery h.twin (by simp [hstate])
    | reportChrc =>
      have hcount : n.pendingCount = m.pendingCount := by
        obtain ⟨o, -, rfl⟩ := h.twin
        rfl
      refine agree_look h.twin.sameWork (agree_ite (by rw [hcount]) (fun _ => ?_) fun _ => ?_)
      · exact actsAlike_discIdle h.twin
      · obtain ⟨⟨o, ho, rfl⟩, -⟩ := h
        have hfirst : Matches { m with pendingIdx := 0 } o := ho.congr rfl
        refine agree_assign_leftovers (o := o) rfl hfirst
          (actsAlike_subscribePending ⟨o, hfirst, rfl⟩ ?_)
        simp [hstate]
    | reportRef =>
      obtain ⟨⟨o, ho, rfl⟩, haimed⟩ := h
      exact actsAlike_discoverCcc ⟨o, ho, rfl⟩ (by simp [hstate]) (haimed (hidle (Or.inr hstate)))
        (ho.reportId (hidle (Or.inr hstate)))
    | ccc =>
      obtain ⟨⟨o, ho, rfl⟩, -⟩ := h
      have hnext : Matches { m with pendingIdx := m.pendingIdx + 1 } o := ho.congr rfl
      refine agree_assign_leftovers (o := o) rfl hnext ?_
      exact actsAlike_subscribePending ⟨o, hnext, rfl⟩ (by simp [hstate])
  refine agree_bind (agree_bind (hdone.mono ?_))
  intro _ m' n' hpair
  exact .ret (.ret hpair)

/-! ### Reads -/

/-- What a buffer holds behind a chunk: what was used of it, and the chunk. -/
theorem take_collected {buf data : List U8} {used k : ℕ} (hused : used ≤ buf.length)
    (hk : k ≤ data.length) :
    (buf.take used ++ data.take k ++ buf.drop (used + k)).take (used + k) =
      buf.take used ++ data.take k := by
  have hlen : (buf.take used ++ data.take k).length = used + k := by
    rw [List.length_append, List.length_take_of_le hused, List.length_take_of_le hk]
  rw [← hlen, List.take_left]

theorem length_collected {buf data : List U8} {used k : ℕ} (hused : used ≤ buf.length)
    (hk : k ≤ data.length) :
    (buf.take used ++ data.take k ++ buf.drop (used + k)).length =
      used + k + (buf.length - (used + k)) := by
  rw [List.length_append, List.length_append, List.length_take_of_le hused,
    List.length_take_of_le hk, List.length_drop]

/-- **A chunk is collected behind the bytes that are used**, whatever is behind them. -/
theorem Twin.storeChunk (h : Twin m n) (data : List U8) :
    Twin (BleHidHost.storeChunk m data) (BleHidHost.storeChunk n data) := by
  obtain ⟨o, ho, rfl⟩ := h
  have hused : m.rmLen ≤ m.rmBuf.length := ho.rmLen_le
  have hused' : m.rmLen ≤ o.rmBuf.length := ho.rmBuf_length.symm ▸ hused
  have hk : min data.length ((reportMapMax + 2 ^ 16 - m.rmLen) % 2 ^ 16) ≤ data.length :=
    min_le_left _ _
  refine ⟨{ o with rmBuf := (BleHidHost.storeChunk (m.withLeftovers o) data).rmBuf }, ?_, rfl⟩
  refine ⟨ho.layout, ho.service, ?_, ?_, ?_, ho.pending, ho.pending_length, ho.reportId, ho.subs,
    ho.subs_length⟩
  · exact (take_collected hused' hk).trans
      ((congrArg (· ++ data.take _) ho.map).trans (take_collected hused hk).symm)
  · exact (Nat.le_add_right _ _).trans (length_collected hused hk).ge
  · refine (length_collected hused' hk).trans (Eq.trans ?_ (length_collected hused hk).symm)
    rw [ho.rmBuf_length]

/-- The parser's writes to the layout, while it is not valid or the same. -/
theorem agree_writeLayouts {α : Type} {o : Leftovers} {q q' : Callback α}
    {Q : α → Central → Central → Prop} (ho : Matches m o) (ls : List ReportLayout)
    (h : ∀ l l', Matches { m with layout := l } { o with layout := l' } →
      Agree (central cfg) P Q q q' { m with layout := l }
        (Central.withLeftovers { m with layout := l } { o with layout := l' })) :
    Agree (central cfg) P Q (do writeLayouts ls; q) (do writeLayouts ls; q') m
      (m.withLeftovers o) := by
  refine agree_bind ?_
  induction ls generalizing m o with
  | nil => exact .ret (h m.layout o.layout ho)
  | cons l ls ih =>
    have hwrite : Matches { m with layout := l } { o with layout := l } :=
      ⟨fun _ => rfl, ho.service, ho.map, ho.rmLen_le, ho.rmBuf_length, ho.pending,
        ho.pending_length, ho.reportId, ho.subs, ho.subs_length⟩
    refine agree_assign_leftovers (o := { o with layout := l }) rfl hwrite (ih hwrite ?_)
    intro l' l'' hmatch
    exact h l' l'' hmatch

/-- **The parse reads the buffer as far as it is used**, and leaves twins. -/
theorem actsAlike_parseReportMap (h : Twin m n) (hstate : m.discState ≠ .idle) :
    ActsAlike cfg P (parseReportMap cfg) (fun _ m n => Twin m n ∧ m.discState ≠ .idle) m n := by
  obtain ⟨o, ho, rfl⟩ := h
  have hmap : reportMap (m.withLeftovers o) = reportMap m := ho.map
  refine agree_look (Twin.sameWork ⟨o, ho, rfl⟩) ?_
  rw [hmap]
  refine agree_writeLayouts ho _ fun l l' hwrite => ?_
  have hparsed : Matches { m with layout := (zmkHidParseReportMap (reportMap m)).2 }
      { o with layout := (zmkHidParseReportMap (reportMap m)).2 } :=
    ⟨fun _ => rfl, ho.service, ho.map, ho.rmLen_le, ho.rmBuf_length, ho.pending,
      ho.pending_length, ho.reportId, ho.subs, ho.subs_length⟩
  refine agree_assign_leftovers (o := { o with layout := (zmkHidParseReportMap (reportMap m)).2 })
    ?_ hparsed (agree_ite Iff.rfl (fun _ => ?_) fun _ => .ret ⟨⟨_, hparsed, rfl⟩, hstate⟩)
  · exact congrArg (fun r => Central.withLeftovers
      { m with layout := (zmkHidParseReportMap (reportMap m)).2 }
      { o with layout := (zmkHidParseReportMap r).2 }) hmap
  have hvalid : Twin
      { m with layout := (zmkHidParseReportMap (reportMap m)).2, layoutValid := true } _ :=
    ⟨{ o with layout := (zmkHidParseReportMap (reportMap m)).2 },
      ⟨fun _ => rfl, ho.service, ho.map, ho.rmLen_le, ho.rmBuf_length, ho.pending,
        ho.pending_length, ho.reportId, ho.subs, ho.subs_length⟩, rfl⟩
  exact actsAlike_assign hvalid ⟨hvalid, hstate⟩

theorem actsAlike_respondMap (h : Paired m n) (hstate : m.discState = .reportMapChrc) (handle : U16)
    (received : List U8) (err : Bool) (data : List U8) :
    ActsAlike cfg P (respondMap cfg handle received err data) (fun _ => Paired) m n := by
  have hne : m.discState ≠ .idle := by simp [hstate]
  refine agree_bind (Agree.mono (Q := fun _ => Paired) ?_ ?_)
  · refine agree_ite Iff.rfl (fun _ => ?_) fun _ => agree_ite Iff.rfl (fun _ => ?_) fun _ => ?_
    · exact agree_bind ((actsAlike_startReportDiscovery h.twin hne).mono fun _ _ _ hp => .ret hp)
    · have hstored : (BleHidHost.storeChunk m data).discState = m.discState := rfl
      refine agree_bind (actsAlike_assign (h.twin.storeChunk data)
        (.ret ⟨h.twin.storeChunk data, fun hwires => ?_⟩))
      rw [hstored, hstate] at hwires
      exact absurd hwires Bool.false_ne_true
    · refine agree_bind ((actsAlike_parseReportMap h.twin hne).mono ?_)
      rintro _ m' n' ⟨htwin, hne'⟩
      exact agree_bind ((actsAlike_startReportDiscovery htwin hne').mono fun _ _ _ hp => .ret hp)
  · intro i m' n' hpair
    cases i with
    | «continue» => exact actsAlike_resume hpair _
    | stop => exact .ret hpair

theorem actsAlike_respondRef (h : Paired m n) (hstate : m.discState = .reportRef) (err : Bool)
    (data : List U8) : ActsAlike cfg P (respondRef err data) (fun _ => Paired) m n := by
  have hidx : m.pendingIdx < m.pendingCount := h.aimed (by rw [hstate]; rfl)
  obtain ⟨⟨o, ho, rfl⟩, -⟩ := h
  have hid : Matches { m with curReportId := if err then 0 else data.headD 0 }
      { o with curReportId := if err then 0 else data.headD 0 } :=
    ⟨ho.layout, ho.service, ho.map, ho.rmLen_le, ho.rmBuf_length, ho.pending, ho.pending_length,
      fun _ => rfl, ho.subs, ho.subs_length⟩
  refine agree_bind (agree_assign_leftovers rfl hid (agree_bind
    ((actsAlike_discoverCcc ⟨_, hid, rfl⟩ ?_ hidx rfl).mono ?_)))
  · simp [hstate]
  · intro _ m' n' hpair
    exact .ret (.ret hpair)

/-! ### The rest of the callbacks -/

theorem actsAlike_startDiscovery (h : Twin m n) :
    ActsAlike cfg P startDiscovery (fun _ => Paired) m n := by
  obtain ⟨o, ho, rfl⟩ := h
  have hinvalid : Matches { m with layoutValid := false } o :=
    ⟨(absurd · Bool.false_ne_true), ho.service, ho.map, ho.rmLen_le, ho.rmBuf_length, ho.pending,
      ho.pending_length, ho.reportId, ho.subs, ho.subs_length⟩
  refine agree_assign_leftovers rfl hinvalid ?_
  have hsearch : Twin
      { m with
        layoutValid := false
        hidsEndHandle := 0
        discoverParams := ⟨uuidHids, firstAttributeHandle, lastAttributeHandle, .primary⟩
        discState := .hidsPrimary } _ :=
    ⟨{ o with
        hidsEndHandle := 0
        discoverParams := ⟨uuidHids, firstAttributeHandle, lastAttributeHandle, .primary⟩ },
      ⟨(absurd · Bool.false_ne_true), fun _ => rfl, ho.map, ho.rmLen_le, ho.rmBuf_length,
        ho.pending, ho.pending_length, (absurd · Bool.false_ne_true), ho.subs, ho.subs_length⟩, rfl⟩
  refine agree_bind (actsAlike_assign hsearch ?_)
  refine actsAlike_discoverOr hsearch (absurd · Bool.false_ne_true) rfl ?_
  intro n' htwin
  exact .ret ⟨htwin, (absurd · Bool.false_ne_true)⟩

/-- What a disconnect clears need not be matched any more. -/
theorem Matches.clearCursor {o : Leftovers} (ho : Matches m o) :
    Matches { m with pendingCount := 0, pendingIdx := 0, discState := .idle } o :=
  ⟨ho.layout, fun hne => absurd rfl hne, ho.map, ho.rmLen_le, ho.rmBuf_length,
    fun _ hi => absurd hi (Nat.not_lt_zero _), ho.pending_length, (absurd · Bool.false_ne_true),
    ho.subs, ho.subs_length⟩

theorem Matches.clearLayout {o : Leftovers} (ho : Matches m o) :
    Matches { m with layoutValid := false, lastMap := none } o :=
  ⟨(absurd · Bool.false_ne_true), ho.service, ho.map, ho.rmLen_le, ho.rmBuf_length, ho.pending,
    ho.pending_length, ho.reportId, ho.subs, ho.subs_length⟩

theorem Matches.clearMap {o : Leftovers} (ho : Matches m o) : Matches { m with rmLen := 0 } o :=
  ⟨ho.layout, ho.service, rfl, Nat.zero_le _, ho.rmBuf_length, ho.pending, ho.pending_length,
    ho.reportId, ho.subs, ho.subs_length⟩

theorem actsAlike_disconnected (h : Paired m n) (conn : ℕ) :
    ActsAlike cfg P (disconnected cfg conn) (fun _ => Paired) m n := by
  have hconn : n.defaultConn = m.defaultConn := by
    obtain ⟨o, -, rfl⟩ := h.twin
    rfl
  refine agree_look h.twin.sameWork (agree_ite (by rw [hconn]) (fun _ => .ret h) fun _ => ?_)
  obtain ⟨⟨o, ho, rfl⟩, -⟩ := h
  have hsubs : Matches { m with
      unrefs := m.unrefs ++ m.defaultConn.toList
      defaultConn := none
      subCount := 0 } o := ho.congr rfl
  refine agree_assign_leftovers (o := o) rfl (ho.congr rfl) ?_
  refine agree_assign_leftovers (o := o) rfl (ho.congr rfl) ?_
  refine agree_assign_leftovers (o := o) rfl hsubs ?_
  refine agree_assign_leftovers (o := o) rfl hsubs.clearCursor ?_
  refine agree_emit_leftovers (o := o) (fun _ => rfl) rfl hsubs.clearCursor.clearLayout ?_
  have hclear := hsubs.clearCursor.clearLayout.clearMap
  refine agree_assign_leftovers (o := o) rfl hclear ?_
  refine agree_emit_leftovers (o := o) (fun _ => rfl) rfl (hclear.congr rfl) ?_
  refine agree_emit_leftovers (o := o) (fun _ => rfl) rfl (hclear.congr rfl) ?_
  exact actsAlike_startScan ⟨⟨o, hclear.congr rfl, rfl⟩, (absurd · Bool.false_ne_true)⟩

/-- A notification is copied from a subscription that is the same. -/
theorem actsAlike_notifyCb (h : Paired m n) (conn : ℕ) {slot : ℕ} (hslot : slot ∈ m.subscribed)
    (data : List U8) : ActsAlike cfg P (notifyCb conn slot data) (fun _ => Paired) m n := by
  obtain ⟨⟨o, ho, rfl⟩, haimed⟩ := h
  have hqueue : Twin { m with mayQueue := true } _ := ⟨o, ho.congr rfl, rfl⟩
  refine agree_emit (fun io => ?_) hqueue.sameWork ⟨hqueue, haimed⟩
  have hsub : subscription (m.withLeftovers o) slot = subscription m slot := ho.subs slot hslot
  rw [hsub]

/-- An entry that is modified is the same where it was. -/
theorem getD_modify_eq {α : Type} {xs ys : List α} (hlen : ys.length = xs.length) {i : ℕ} {d : α}
    (k : ℕ) (f : α → α) (h : ys.getD i d = xs.getD i d) :
    (ys.modify k f).getD i d = (xs.modify k f).getD i d := by
  by_cases hi : i < xs.length
  · have hi' : i < ys.length := hlen ▸ hi
    simp only [List.getD_eq_getElem?_getD, List.getElem?_modify, List.getElem?_eq_getElem hi,
      List.getElem?_eq_getElem hi', Option.getD_some] at h ⊢
    rw [h]
  · have hnone (zs : List α) (hzs : zs.length = xs.length) : (zs.modify k f).getD i d = d := by
      rw [List.getD_eq_getElem?_getD, List.getElem?_eq_none, Option.getD_none]
      rw [List.length_modify, hzs]
      exact Nat.le_of_not_lt hi
    rw [hnone ys hlen, hnone xs rfl]

theorem actsAlike_unsubscribed (h : Paired m n) (slot : ℕ) :
    ActsAlike cfg P (unsubscribed slot) (fun _ => Paired) m n := by
  obtain ⟨⟨o, ho, rfl⟩, haimed⟩ := h
  have hmodify : Matches
      { m with subs := m.subs.modify slot fun s => { s with valueHandle := 0 } }
      { o with subs := o.subs.modify slot fun s => { s with valueHandle := 0 } } := by
    refine ⟨ho.layout, ho.service, ho.map, ho.rmLen_le, ho.rmBuf_length, ho.pending,
      ho.pending_length, ho.reportId, fun slot' hslot' => ?_, ?_⟩
    · exact getD_modify_eq ho.subs_length slot _ (ho.subs slot' hslot')
    · simp only [List.length_modify]
      exact ho.subs_length
  have htwin : Twin _ (Central.withLeftovers _ _) := ⟨_, hmodify, rfl⟩
  exact actsAlike_assign htwin ⟨htwin, haimed⟩

/-! ### Events -/

theorem enterProc_withLeftovers (conn k : ℕ) (p : Proc) (e : Event) (m : Central) (o : Leftovers)
    (io : Pipeline) : enterProc cfg conn k p e (m.withLeftovers o) io =
      (enterProc cfg conn k p e m io).map fun x => (x.1.withLeftovers o, x.2.1, x.2.2) := by
  cases p with
  | discover q =>
    cases e with
    | discovered =>
      show (q.next (cfg.table conn)).map _ = ((q.next (cfg.table conn)).map _).map _
      rw [Option.map_map]
      rfl
    | _ => rfl
  | readMap => cases e <;> rfl
  | readRef => cases e <;> rfl

/-- **An event finds the same in both states**, and enters the same callback. -/
theorem enter_withLeftovers (e : Event) (m : Central) (o : Leftovers) (io : Pipeline) :
    enter cfg e (m.withLeftovers o) io =
      (enter cfg e m io).map fun x => (x.1.withLeftovers o, x.2.1, x.2.2) := by
  have hproc (k : ℕ) : ((upLink m).bind fun l => m.procs[k]?.bind fun p =>
      enterProc cfg l.conn k p e (m.withLeftovers o) io) =
        ((upLink m).bind fun l => m.procs[k]?.bind fun p => enterProc cfg l.conn k p e m io).map
          fun x => (x.1.withLeftovers o, x.2.1, x.2.2) := by
    simp only [enterProc_withLeftovers, Option.map_bind, Function.comp_def]
  cases e with
  | discovered k => exact hproc k
  | discoverDone k => exact hproc k
  | readResponse k => exact hproc k
  | scanRetry =>
    show (if m.retryPending then _ else _) = Option.map _ (if m.retryPending then _ else _)
    split <;> rfl
  | connected err =>
    show m.link.bind _ = (m.link.bind _).map _
    cases m.link with
    | none => rfl
    | some l =>
      show (if l.up then _ else _) = Option.map _ (if l.up then _ else _)
      split <;> rfl
  | securityChanged level err =>
    show (upLink m).map _ = ((upLink m).map _).map _
    rw [Option.map_map]
    rfl
  | disconnected =>
    show m.link.map _ = (m.link.map _).map _
    rw [Option.map_map]
    rfl
  | notified slot data =>
    show (upLink m).bind _ = ((upLink m).bind _).map _
    cases upLink m with
    | none => rfl
    | some l =>
      show (if slot ∈ m.subscribed then _ else _) =
        Option.map _ (if slot ∈ m.subscribed then _ else _)
      split <;> rfl
  | unsubscribed slot =>
    show (if slot ∈ m.subscribed then _ else _) =
      Option.map _ (if slot ∈ m.subscribed then _ else _)
    split <;> rfl
  | advertise | timePasses | bonded => rfl

/-- What holds of twins in a run where a discovery is restarted only behind another. -/
structure Bound (m n : Central) : Prop extends Paired m n where
  sequential : Sequential m

/-- **Every callback does the same in twins**, and leaves twins. -/
theorem agree_entered (h : Bound m n) {e : Event} {m' : Central} {io' : Pipeline}
    {p : Callback Unit} (henter : Entered cfg m io e m' io' p) {o : Leftovers} (ho : Matches m o) :
    Matches m' o ∧ ActsAlike cfg P p (fun _ => Paired) m' (m'.withLeftovers o) := by
  have haimed : Aimed m := h.aimed
  cases henter with
  | advertise addr type ad =>
    exact ⟨ho, actsAlike_deviceFound ⟨⟨o, ho, rfl⟩, haimed⟩ addr type ad⟩
  | scanRetry =>
    have hretry : Matches { m with retryPending := false } o := ho.congr rfl
    exact ⟨hretry, actsAlike_scanRetryHandler ⟨⟨o, hretry, rfl⟩, haimed⟩⟩
  | @connected err l hl =>
    have hlink : Matches { m with link := if err then none else some { l with up := true } } o :=
      ho.congr rfl
    exact ⟨hlink, actsAlike_connected ⟨⟨o, hlink, rfl⟩, haimed⟩ err⟩
  | @securityChanged level err l hl =>
    have hlink : Matches { m with
        link := some { l with
          securing := false
          secured := l.secured || reportsSecured level err } } o := ho.congr rfl
    refine ⟨hlink, agree_ite Iff.rfl (fun _ => ?_) fun _ => ?_⟩
    · exact actsAlike_securityFailed ⟨⟨o, hlink, rfl⟩, haimed⟩ _
    · exact actsAlike_startDiscovery ⟨o, hlink, rfl⟩
  | @disconnected l hl =>
    have hdown : Matches { m with link := none, procs := [], subscribed := [] } o :=
      ⟨ho.layout, ho.service, ho.map, ho.rmLen_le, ho.rmBuf_length, ho.pending, ho.pending_length,
        ho.reportId, fun _ hslot => absurd hslot List.not_mem_nil, ho.subs_length⟩
    exact ⟨hdown, actsAlike_disconnected ⟨⟨o, hdown, rfl⟩, haimed⟩ _⟩
  | discovered k hl hup hq =>
    have htaken : Matches (takeProc k m) o := ho.congr rfl
    exact ⟨htaken, actsAlike_deliver ⟨⟨o, htaken, rfl⟩, haimed⟩ _ _⟩
  | discoverDone k hl hup hq =>
    have htaken : Matches (takeProc k m) o := ho.congr rfl
    exact ⟨htaken, actsAlike_finishDiscover ⟨⟨o, htaken, rfl⟩, haimed⟩⟩
  | @readMap k err data l hl hup handle received hq =>
    have hnoted : Matches (noteMapRead l.conn received err data (takeProc k m)) o := ho.congr rfl
    have hstate : m.discState = .reportMapChrc := (h.sequential.take hq).2
    exact ⟨hnoted, actsAlike_respondMap ⟨⟨o, hnoted, rfl⟩, haimed⟩ hstate _ _ err data⟩
  | readRef k err data hl hup hq =>
    have htaken : Matches (takeProc k m) o := ho.congr rfl
    have hstate : m.discState = .reportRef := (h.sequential.take hq).2
    exact ⟨htaken, actsAlike_respondRef ⟨⟨o, htaken, rfl⟩, haimed⟩ hstate err data⟩
  | notified slot data hl hup hslot =>
    exact ⟨ho, actsAlike_notifyCb ⟨⟨o, ho, rfl⟩, haimed⟩ _ hslot data⟩
  | unsubscribed slot =>
    have herase : Matches { m with subscribed := m.subscribed.erase slot } o :=
      ⟨ho.layout, ho.service, ho.map, ho.rmLen_le, ho.rmBuf_length, ho.pending, ho.pending_length,
        ho.reportId, fun slot' hslot' => ho.subs slot' (List.mem_of_mem_erase hslot'),
        ho.subs_length⟩
    exact ⟨herase, actsAlike_unsubscribed ⟨⟨o, herase, rfl⟩, haimed⟩ slot⟩
  | timePasses ms =>
    have htime : Matches { m with uptime := m.uptime + ms } o := ho.congr rfl
    exact ⟨htime, .ret ⟨⟨o, htime, rfl⟩, haimed⟩⟩
  | bonded bonds =>
    have hbonds : Matches { m with bonds := bonds } o := ho.congr rfl
    exact ⟨hbonds, .ret ⟨⟨o, hbonds, rfl⟩, haimed⟩⟩

/-- **An event is possible in both states or in neither**, and enters callbacks that agree. -/
theorem enterAlike_of_bound (h : Bound m n) {e : Event} (hok : restartsAlone.onEvent m e) :
    Option.Rel (Machine.EnterAlike (central cfg) restartsAlone Bound) (enter cfg e m io)
      (enter cfg e n io) := by
  obtain ⟨o, ho, rfl⟩ := h.twin
  rw [enter_withLeftovers]
  cases henter : enter cfg e m io with
  | none => exact .none
  | some x =>
    obtain ⟨m', io', p⟩ := x
    have hentered := entered_of_enter henter
    obtain ⟨hmatch, hagree⟩ := agree_entered (P := restartsAlone) h hentered ho
    obtain ⟨-, hseq⟩ := h.sequential.safe_enter (P := restartsAlone) hok hentered
    refine .some ⟨rfl, Twin.sameWork ⟨o, hmatch, rfl⟩, ?_⟩
    exact (hagree.and_safe hseq).mono fun _ _ _ hend => ⟨hend.1, hend.2⟩

/-! ### Runs -/

/-- The state of bring-up, with what is known of the stack, of the peer that failed, and
of the connections that have ended. -/
def Central.restarted (m : Central) : Central :=
  { Central.start m.bonds m.uptime with
    lastFailedAddr := m.lastFailedAddr
    lastFailedMs := m.lastFailedMs
    nextConn := m.nextConn
    scanning := m.scanning
    retryPending := m.retryPending
    unrefs := m.unrefs }

/-- A state of the system with the central restarted. -/
def restartedSystem (s : System) : System := { s with main := s.main.restarted }

/-- What is left over when all is cleared cannot be read. -/
theorem bound_restarted (hun : Unconnected m) (hclear : Cleared m) (hwide : Wide m)
    (hbounded : (readSide m).Bounded) : Bound m m.restarted := by
  have hcleared : m.layoutValid = false ∧ m.rmLen = 0 ∧ m.discState = .idle ∧
      m.pendingCount = 0 ∧ m.pendingIdx = 0 ∧ m.subCount = 0 ∧ m.procs = [] ∧
      m.subscribed = [] ∧ m.mayQueue = false ∧ m.lastMap = none := by
    simpa [Cleared, peerState] using hclear
  obtain ⟨hvalid, hlen, hstate, hcount, hidx, hsub, hprocs, hsubscribed, hqueue, hmap⟩ := hcleared
  have heq : m.restarted = m.withLeftovers ⟨⟨0, 0, 0, .primary⟩, 0, List.replicate reportMapMax 0,
      .zero, List.replicate maxReports 0, 0, List.replicate maxReports ⟨0, 0, 0⟩⟩ := by
    obtain ⟨hconn, hlink, -⟩ := hun
    obtain ⟨globals, stack⟩ := m
    cases globals
    cases stack
    simp only at hconn hlink hvalid hlen hstate hcount hidx hsub hprocs hsubscribed hqueue hmap
    subst hconn hlink hvalid hlen hstate hcount hidx hsub hprocs hsubscribed hqueue hmap
    rfl
  have hmatch : Matches m ⟨⟨0, 0, 0, .primary⟩, 0, List.replicate reportMapMax 0, .zero,
      List.replicate maxReports 0, 0, List.replicate maxReports ⟨0, 0, 0⟩⟩ := by
    refine ⟨?_, fun hne => absurd hstate hne, ?_, ?_, ?_, ?_, ?_, ?_, ?_, ?_⟩
    · rw [hvalid]
      exact (absurd · Bool.false_ne_true)
    · rw [hlen, List.take_zero, List.take_zero]
    · exact hbounded.2.trans_eq hbounded.1.symm
    · exact List.length_replicate.trans hbounded.1.symm
    · rw [hcount]
      exact fun _ hi => absurd hi (Nat.not_lt_zero _)
    · exact List.length_replicate.trans hwide.1.symm
    · rw [hstate]
      exact (absurd · Bool.false_ne_true)
    · rw [hsubscribed]
      exact fun _ hslot => absurd hslot List.not_mem_nil
    · exact List.length_replicate.trans hwide.2.symm
  have haimed : Aimed m := by
    rw [Aimed, hstate]
    exact (absurd · Bool.false_ne_true)
  exact ⟨⟨⟨_, hmatch, heq⟩, haimed⟩, .of_nil hprocs⟩

/-- **A reconnect is as good as a restart.**  Between two callbacks, in a state without a
connection that any run has reached, whatever happens next has the same effect as in a
central that has just been brought up: the same is possible, and the same is recorded,
queued and told to the host. -/
theorem run_restarted {s : System} (h : Reachable cfg P s) (hidle : s.Idle)
    (hfree : s.main.defaultConn = none) {as : List (Action Errno Event)}
    (hok : Along (central cfg).step (fun s a => Machine.meets restartsAlone s a) as s) :
    (run (central cfg).step as s).map Configuration.io =
      (run (central cfg).step as (restartedSystem s)).map Configuration.io := by
  have hun : Unconnected s.main := (tracked_of_reachable h hidle).unconnected hfree
  have hdown : ¬ LinkUp s.main := by
    rintro ⟨l, hl, -⟩
    exact Option.some_ne_none l (hl.symm.trans hun.link_eq)
  have hbound : Bound s.main s.main.restarted :=
    bound_restarted hun (cleared_of_reachable h hidle hdown) (wide_of_reachable h)
      (bounded_of_reachable h)
  have halike : Machine.Alike (central cfg) restartsAlone Bound s (restartedSystem s) := by
    refine ⟨rfl, hbound.twin.sameWork, ?_⟩
    show Agree _ _ _ s.running s.running _ _
    rw [hidle]
    exact .ret hbound
  have hruns := Machine.alike_run (fun e m n io hI hok => enterAlike_of_bound hI hok) halike hok
  generalize run (central cfg).step as s = x at hruns ⊢
  generalize run (central cfg).step as (restartedSystem s) = y at hruns ⊢
  cases hruns with
  | none => rfl
  | some hend => exact congrArg some hend.io_eq

/-- A connection that reports and ends, up to the scan behind it. -/
def endedRun : List (Action Errno Event) :=
  subscribeRun 1 1 ++ notifiedTurn 0 [3, 4] ++ [.event .disconnected] ++ ticks 9 ++ succeedsAfter 0

/-- What is left of the first connection does not show in the second. -/
theorem endedRun_restarted :
    ∃ s, stateAfter (.plain (reportTable [4])) endedRun = some s ∧
      s.main.layout ≠ s.main.restarted.layout ∧
      let next := (subscribeRun 1 1).drop 1 ++ notifiedTurn 0 [5, 6]
      (run (central (.plain (reportTable [4]))).step next s).isSome ∧
      (run (central (.plain (reportTable [4]))).step next s).map Configuration.io =
        (run (central (.plain (reportTable [4]))).step next (restartedSystem s)).map
          Configuration.io := by
  have hmeets : Meeting (.plain (reportTable [4])) restartsAlone endedRun := by decide +kernel
  have hruns : (stateAfter (.plain (reportTable [4])) endedRun).map (fun s => decide (
      s.isIdle ∧ s.main.defaultConn = none ∧ s.main.layout ≠ s.main.restarted.layout ∧
      (run (central (.plain (reportTable [4]))).step
        ((subscribeRun 1 1).drop 1 ++ notifiedTurn 0 [5, 6]) s).isSome ∧
      Along (central (.plain (reportTable [4]))).step (fun s a => Machine.meets restartsAlone s a)
        ((subscribeRun 1 1).drop 1 ++ notifiedTurn 0 [5, 6]) s)) = some true := by decide +kernel
  obtain ⟨s, hs, heq⟩ := Option.map_eq_some_iff.mp hruns
  obtain ⟨hidle, hfree, hlayout, hsome, halong⟩ := of_decide_eq_true heq
  exact ⟨s, hs, hlayout, hsome, run_restarted (reachable_stateAfter hmeets hs)
    (Configuration.isIdle_iff.mp hidle) hfree halong⟩

end BleHidHost
