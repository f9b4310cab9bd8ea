import BleHidHost.PipelineRules
import BleHidHost.Lib.Ledger

/-!
# What becomes of every report

A report that is received is put in the queue, or rejected for want of room.  The handler
takes it from there and publishes or discards it, unless a disconnect purges the queue first.
A journal is kept of what a run does with its reports: which the handler takes and does not
decode, which are in the queue when a disconnect empties it, and which find the queue full.
The ledger of the queue has an entry for each report, in the order of their receipt, and its
entries are those of the journal.

## Main definitions

* `Journal`, `journalist` — what a run does with its reports, and how it is written down.
* `publishedReports` — the reports of a trace that were published.
* `Tallies`, `Accounted` — a ledger accounts for the reports that were received.

## Main results

* `accounted_of_chronicled` — **a ledger accounts for every report, in every run.**
* `Accounted.inOrder`, `Accounted.length_eq` — no report is published twice or out of order,
  and none is lost.
-/

namespace BleHidHost

open Lib Lib.Prog

/-- A report, and the connection it was received on. -/
abbrev Receipt := ℕ × ReportEvt

/-! ### The journal -/

/-- What a run has done with its reports so far. -/
structure Journal where
  /-- The event whose callback was entered last. -/
  entered : Option Event
  /-- The notifications, as the central copies them. -/
  received : List Receipt
  /-- Those that the handler took and did not publish. -/
  discarded : List Receipt
  /-- Those that were queued when a disconnect emptied the queue. -/
  purged : List Receipt
  /-- Those that a full queue turned away. -/
  rejected : List Receipt

/-- Nothing has happened. -/
def Journal.blank : Journal := ⟨none, [], [], [], []⟩

/-- The report that an event delivers. -/
def receipts (m : Central) : Event → List Receipt
  | .notified slot data =>
    (upLink m).toList.map fun l => (l.conn, reportEvt (subscription m slot) data)
  | _ => []

/-- A notification is written down when its callback is entered. -/
def Journal.note (m : Central) (e : Event) (J : Journal) : Journal :=
  { J with entered := some e, received := J.received ++ receipts m e }

/-- An action of a callback.  A notification is rejected where the queue was full and another
loss is counted, and a disconnect that leaves the queue empty has purged what was in it. -/
def Journal.act (io io' : Pipeline) (J : Journal) : Journal :=
  match J.entered with
  | some (.notified _ _) =>
    if reportQueueMax ≤ io.queue.length ∧ io.dropped < io'.dropped then
      { J with rejected := J.rejected ++ J.received.getLast?.toList }
    else J
  | some .disconnected => if io'.queue = [] then { J with purged := J.purged ++ io.queue } else J
  | _ => J

/-- The report that the handler is about to take, where it will not publish it. -/
def discards (m : Central) (io : Pipeline) : List Receipt :=
  (io.queue.head?.filter fun q => (handlerDecode m q.2).isNone).toList

/-- A turn of the handler. -/
def Journal.work (m : Central) (io : Pipeline) (J : Journal) : Journal :=
  { J with discarded := J.discarded ++ discards m io }

/-- All this is written down. -/
def journalist : Chronicler Central Pipeline Event Journal where
  onEvent := Journal.note
  onAct := Journal.act
  onWork := Journal.work

/-- The reports that were published, in the order of their publication. -/
def publishedReports (io : Pipeline) : List Receipt :=
  io.trace.filterMap fun o =>
    match o with
    | .published conn evt _ _ => some (conn, evt)
    | _ => none

/-- The entries of the ledger are those of the journal and of the pipeline. -/
structure Tallies (L : Ledger Receipt reportQueueMax) (received : List Receipt) (J : Journal)
    (io : Pipeline) : Prop where
  items : L.items = received
  waiting : L.those .waiting = io.queue
  published : L.those (.taken true) = publishedReports io
  discarded : L.those (.taken false) = J.discarded
  purged : L.those .purged = J.purged
  rejected : L.those .rejected = J.rejected
  dropped : J.rejected.length = io.dropped

/-- A ledger accounts for these reports. -/
def Accounted (received : List Receipt) (J : Journal) (io : Pipeline) : Prop :=
  ∃ L, Tallies L received J io

variable {cfg : Setup} {P : Condition} {m : Central} {io io' : Pipeline} {J : Journal}
  {received : List Receipt}

/-! ### What a ledger says -/

/-- What was published and what is queued stand in the order of their receipt, each once for
each time it was received. -/
theorem Accounted.inOrder (h : Accounted received J io) :
    (publishedReports io ++ io.queue).Sublist received := by
  obtain ⟨L, hL⟩ := h
  rw [← hL.waiting, ← hL.published, ← hL.items]
  exact L.used_waiting_sublist

/-- Every report has one fate. -/
theorem Accounted.length_eq (h : Accounted received J io) :
    received.length = io.queue.length + (publishedReports io).length + J.discarded.length +
      J.purged.length + io.dropped := by
  obtain ⟨L, hL⟩ := h
  rw [← hL.items, L.length_items, hL.waiting, hL.published, hL.discarded, hL.purged, hL.rejected,
    hL.dropped]

/-! ### What changes it -/

/-- What the pipeline shows of its reports is all that counts. -/
theorem Tallies.congr {L : Ledger Receipt reportQueueMax} (h : Tallies L received J io)
    (hqueue : io'.queue = io.queue) (hpublished : publishedReports io' = publishedReports io)
    (hdropped : io'.dropped = io.dropped) : Tallies L received J io' where
  items := h.items
  waiting := h.waiting.trans hqueue.symm
  published := h.published.trans hpublished.symm
  discarded := h.discarded
  purged := h.purged
  rejected := h.rejected
  dropped := h.dropped.trans hdropped.symm

theorem Accounted.congr (h : Accounted received J io) (hqueue : io'.queue = io.queue)
    (hpublished : publishedReports io' = publishedReports io)
    (hdropped : io'.dropped = io.dropped) : Accounted received J io' := by
  obtain ⟨L, hL⟩ := h
  exact ⟨L, hL.congr hqueue hpublished hdropped⟩

/-- So are the fates that the journal has. -/
theorem Accounted.note {e : Option Event} {all : List Receipt} (h : Accounted received J io) :
    Accounted received { J with entered := e, received := all } io := by
  obtain ⟨L, hL⟩ := h
  exact ⟨L, hL.items, hL.waiting, hL.published, hL.discarded, hL.purged, hL.rejected, hL.dropped⟩

/-- Nothing was received. -/
theorem accounted_start (accepts : ℕ → Bool) : Accounted [] .blank (.start accepts) :=
  ⟨.empty _ _, rfl, rfl, rfl, rfl, rfl, rfl, rfl⟩

/-- The first that waits is taken and discarded. -/
theorem Tallies.discard {L : Ledger Receipt reportQueueMax} (h : Tallies L received J io)
    {q : Receipt} {rest : List Receipt} (hqueue : io.queue = q :: rest) :
    Tallies (L.take false) received { J with discarded := J.discarded ++ [q] }
      { io with queue := rest } where
  items := (L.items_take false).trans h.items
  waiting := by rw [L.waiting_take, h.waiting, hqueue, List.tail_cons]
  published := (L.those_take (by simp) (by simp)).trans h.published
  discarded := by
    rw [L.taken_take, h.discarded, h.waiting, hqueue, List.head?_cons, Option.toList_some]
  purged := (L.those_take (by simp) (by simp)).trans h.purged
  rejected := (L.those_take (by simp) (by simp)).trans h.rejected
  dropped := h.dropped

/-- The first that waits is taken and published. -/
theorem Tallies.publish {L : Ledger Receipt reportQueueMax} (h : Tallies L received J io)
    {conn : ℕ} {evt : ReportEvt} {rest : List Receipt} (hqueue : io.queue = (conn, evt) :: rest)
    (r : PointerReport) :
    Tallies (L.take true) received J
      (publishReport cfg m conn evt r { io with queue := rest }) where
  items := (L.items_take true).trans h.items
  waiting := by
    rw [L.waiting_take, h.waiting, hqueue, List.tail_cons]
    rfl
  published := by
    rw [L.taken_take, h.published, h.waiting, hqueue]
    simp [publishedReports, publishReport]
  discarded := (L.those_take (by simp) (by simp)).trans h.discarded
  purged := (L.those_take (by simp) (by simp)).trans h.purged
  rejected := (L.those_take (by simp) (by simp)).trans h.rejected
  dropped := h.dropped

/-- **A turn of the handler** takes the first that waits, and publishes or discards it. -/
theorem Accounted.reportWorkTurn (h : Accounted received J io) :
    Accounted received (J.work m io) (reportWorkTurn cfg m io) := by
  obtain ⟨L, hL⟩ := h
  cases hqueue : io.queue with
  | nil =>
    have hnone : discards m io = [] := by simp [discards, hqueue]
    rw [reportWorkTurn_nil hqueue, Journal.work, hnone, List.append_nil]
    exact ⟨L, hL⟩
  | cons q rest =>
    obtain ⟨conn, evt⟩ := q
    cases hdecode : handlerDecode m evt with
    | none =>
      have hfirst : discards m io = [(conn, evt)] := by simp [discards, hqueue, hdecode]
      rw [reportWorkTurn_none hqueue hdecode, Journal.work, hfirst]
      exact ⟨L.take false, hL.discard hqueue⟩
    | some r =>
      have hnone : discards m io = [] := by simp [discards, hqueue, hdecode]
      rw [reportWorkTurn_some hqueue hdecode, Journal.work, hnone, List.append_nil]
      exact ⟨L.take true, hL.publish hqueue r⟩

/-- An action that leaves the queue and the count alone is not written down. -/
theorem Journal.act_of_eq (hqueue : io'.queue = io.queue) (hdropped : io'.dropped = io.dropped)
    (J : Journal) : J.act io io' = J := by
  unfold Journal.act
  split
  · rw [if_neg]
    rw [hdropped]
    exact fun h => Nat.lt_irrefl _ h.2
  · split
    · next hnil => rw [← hqueue, hnil, List.append_nil]
    · rfl
  · rfl

/-- A put finds room. -/
theorem Tallies.enqueue {L : Ledger Receipt reportQueueMax} (h : Tallies L received J io)
    (q : Receipt) (hverdict : L.verdict = .waiting) :
    Tallies (L.put q) (received ++ [q]) J { io with queue := io.queue ++ [q] } where
  items := by rw [L.items_put, h.items]
  waiting := by simp [hverdict, h.waiting]
  published := by
    rw [L.those_put, hverdict, h.published]
    exact List.append_nil _
  discarded := by simpa [hverdict] using h.discarded
  purged := by simpa [hverdict] using h.purged
  rejected := by simpa [hverdict] using h.rejected
  dropped := h.dropped

/-- A put is rejected. -/
theorem Tallies.reject {L : Ledger Receipt reportQueueMax} (h : Tallies L received J io)
    (q : Receipt) (hverdict : L.verdict = .rejected) :
    Tallies (L.put q) (received ++ [q]) { J with rejected := J.rejected ++ [q] }
      { io with dropped := io.dropped + 1 } where
  items := by rw [L.items_put, h.items]
  waiting := by simpa [hverdict] using h.waiting
  published := by
    rw [L.those_put, hverdict, h.published]
    exact List.append_nil _
  discarded := by simpa [hverdict] using h.discarded
  purged := by simpa [hverdict] using h.purged
  rejected := by simp [hverdict, h.rejected]
  dropped := by rw [List.length_append, h.dropped, List.length_singleton]

/-- **A put** finds room, or is rejected. -/
theorem Accounted.msgqPut {q : Receipt} (h : Accounted received J io)
    (hreceived : J.received = received ++ [q]) {slot : ℕ} {data : List U8}
    (hentered : J.entered = some (.notified slot data)) :
    Accounted (received ++ [q]) (J.act io (msgqPut q.1 q.2 io)) (msgqPut q.1 q.2 io) := by
  obtain ⟨L, hL⟩ := h
  refine ⟨L.put q, ?_⟩
  by_cases hroom : io.queue.length < reportQueueMax
  · have hwritten (io' : Pipeline) : J.act io io' = J := by
      simp only [Journal.act, hentered]
      exact if_neg fun h => absurd h.1 (Nat.not_le.mpr hroom)
    rw [hwritten, BleHidHost.msgqPut, if_pos hroom]
    exact hL.enqueue q (L.verdict_of_lt (by rwa [hL.waiting]))
  · have hwritten : J.act io { io with dropped := io.dropped + 1 } =
        { J with rejected := J.rejected ++ [q] } := by
      simp only [Journal.act, hentered, hreceived, List.getLast?_concat, Option.toList_some]
      exact if_pos ⟨Nat.not_lt.mp hroom, Nat.lt_succ_self _⟩
    rw [BleHidHost.msgqPut, if_neg hroom, hwritten]
    exact hL.reject q (L.verdict_of_not_lt (by rwa [hL.waiting]))

/-- What a purge writes down. -/
theorem Journal.act_purge (hentered : J.entered = some .disconnected) :
    J.act io { io with queue := [] } = { J with purged := J.purged ++ io.queue } := by
  simp only [Journal.act, hentered, if_true]

/-- **A purge** leaves nothing in the queue. -/
theorem Tallies.purge {L : Ledger Receipt reportQueueMax} (h : Tallies L received J io) :
    Tallies L.purge received { J with purged := J.purged ++ io.queue }
      { io with queue := [] } where
  items := L.items_purge.trans h.items
  waiting := L.waiting_purge
  published := (L.those_purge (by simp) (by simp)).trans h.published
  discarded := (L.those_purge (by simp) (by simp)).trans h.discarded
  purged := by rw [L.purged_purge, h.purged, h.waiting]
  rejected := (L.those_purge (by simp) (by simp)).trans h.rejected
  dropped := h.dropped

/-! ### Runs -/

/-- The reports that were received are accounted for, but for one whose callback is running. -/
def AccountedSoFar (J : Journal) (io : Pipeline) : Prop :=
  ∃ before, (J.received = before ∨ ∃ q, J.received = before ++ [q]) ∧ Accounted before J io

/-- All that were received are accounted for. -/
def AllAccounted (J : Journal) (io : Pipeline) : Prop := Accounted J.received J io

/-- They stay so wherever the handler runs. -/
theorem stands_allAccounted (m : Central) :
    Stands (central cfg) journalist AccountedSoFar m AllAccounted where
  claims J _ h := ⟨J.received, Or.inl rfl, h⟩
  work _ _ h := h.reportWorkTurn

/-- An action that leaves the queue, the count and the publications alone does nothing to
them. -/
theorem AllAccounted.act (h : AllAccounted J io) (hqueue : io'.queue = io.queue)
    (hpublished : publishedReports io' = publishedReports io)
    (hdropped : io'.dropped = io.dropped) : AllAccounted (J.act io io') io' := by
  rw [Journal.act_of_eq hqueue hdropped]
  exact Accounted.congr h hqueue hpublished hdropped

/-- **The outline of a notification**: its report is not accounted for until it is put in the
queue. -/
theorem outlinedTo_notifyCb {conn slot : ℕ} {data : List U8} (h : Accounted received J io)
    (hreceived : J.received = received ++ [(conn, reportEvt (subscription m slot) data)])
    (hentered : J.entered = some (.notified slot data)) :
    Machine.OutlinedTo (central cfg) P journalist AccountedSoFar AllAccounted
      (notifyCb conn slot data) m J io := by
  generalize hq : (conn, reportEvt (subscription m slot) data) = q at hreceived
  refine ⟨fun J io => Accounted received J io ∧ J.received = received ++ [q] ∧
    J.entered = some (.notified slot data), ⟨h, hreceived, hentered⟩, ⟨?_, ?_⟩, ?_⟩
  · exact fun J io hJ => ⟨received, Or.inr ⟨q, hJ.2.1⟩, hJ.1⟩
  · exact fun J io hJ => ⟨hJ.1.reportWorkTurn, hJ.2⟩
  refine outlined_emit AllAccounted ?_ (stands_allAccounted _) fun _ _ hJ => hJ
  intro J io hJ
  obtain ⟨haccounted, hreceived, hentered⟩ := hJ
  have hsame (io' : Pipeline) : (J.act io io').received = J.received := by
    simp only [Journal.act, hentered]
    split <;> rfl
  show Accounted (J.act io _).received _ _
  rw [hsame, hreceived, ← hq]
  rw [← hq] at hreceived
  exact haccounted.msgqPut hreceived hentered

/-- All are accounted for, in a disconnect. -/
def EndAccounted (J : Journal) (io : Pipeline) : Prop :=
  AllAccounted J io ∧ J.entered = some .disconnected

theorem stands_endAccounted (m : Central) :
    Stands (central cfg) journalist AccountedSoFar m EndAccounted where
  claims J _ h := ⟨J.received, Or.inl rfl, h.1⟩
  work J io h := ⟨(stands_allAccounted m).work J io h.1, h.2⟩

theorem EndAccounted.act (h : EndAccounted J io) (hqueue : io'.queue = io.queue)
    (hpublished : publishedReports io' = publishedReports io)
    (hdropped : io'.dropped = io.dropped) : EndAccounted (J.act io io') io' :=
  ⟨h.1.act hqueue hpublished hdropped, by rw [Journal.act_of_eq hqueue hdropped]; exact h.2⟩

/-- **The outline of a disconnect**: all are accounted for throughout, and only the purge is
written down. -/
theorem EndAccounted.outlinedTo {conn : ℕ} (h : EndAccounted J io) :
    Machine.OutlinedTo (central cfg) P journalist AccountedSoFar AllAccounted
      (disconnected cfg conn) m J io := by
  refine outlinedTo_disconnected (A := EndAccounted) (B := EndAccounted) stands_endAccounted ?_
    (fun m _ => stands_endAccounted m) ?_ ?_ ?_ ?_ (fun _ _ hJ => hJ.1) h
  · exact fun _ _ hJ => hJ.act rfl rfl rfl
  · exact fun _ _ hJ => hJ.act rfl rfl rfl
  · rintro J io _ hJ rfl
    exact hJ.act rfl (by simp [publishedReports]) rfl
  · rintro J io _ hJ rfl
    show EndAccounted (J.act io _) _
    rw [Journal.act_purge hJ.2]
    obtain ⟨L, hL⟩ := hJ.1
    exact ⟨⟨L.purge, hL.purge⟩, hJ.2⟩
  · rintro J io _ hJ rfl
    exact hJ.act rfl rfl rfl

/-- **Every callback has an outline** from what is accounted for when it is entered. -/
theorem AllAccounted.outlinedTo (h : AllAccounted J io) {e : Event} {m' : Central}
    {p : Callback Unit} (henter : Entered cfg m io e m' io' p) :
    Machine.OutlinedTo (central cfg) P journalist AccountedSoFar AllAccounted p m'
      (J.note m e) io' := by
  by_cases hnotified : ∃ slot data, e = .notified slot data
  · obtain ⟨slot, data, rfl⟩ := hnotified
    cases henter with
    | @notified _ _ l hl hup =>
      have hlink : upLink m = some l := Option.filter_eq_some_iff.mpr ⟨hl, hup⟩
      refine outlinedTo_notifyCb (Accounted.note h) ?_ rfl
      simp [Journal.note, receipts, hlink]
  -- nothing else is received
  have hnone : receipts m e = [] := by
    cases e with
    | notified slot data => exact absurd ⟨slot, data, rfl⟩ hnotified
    | _ => rfl
  have hentered : AllAccounted (J.note m e) io := by
    rw [AllAccounted, Journal.note, hnone, List.append_nil]
    exact Accounted.note h
  by_cases hend : e = .disconnected
  · subst hend
    cases henter with
    | disconnected hl => exact EndAccounted.outlinedTo ⟨hentered, rfl⟩
  refine outlinedTo_enter henter (fun slot data heq => hnotified ⟨slot, data, heq⟩) hend
    stands_allAccounted (fun _ _ hJ => hJ.act rfl rfl rfl) ?_
  rcases pipeline_enter henter with rfl | ⟨conn, bytes, rfl⟩
  · exact hentered
  · exact Accounted.congr hentered rfl (by simp [publishedReports]) rfl

/-- **A ledger accounts for every report** that a run has received, but for one whose
callback is running: it was published, or taken by the handler and discarded, or in the queue
when a disconnect purged it, or rejected by a full queue, or is in the queue, and nothing
overtakes another. -/
theorem accounted_of_chronicled {bonds : List Addr} {uptime : ℕ} {accepts : ℕ → Bool} {s : System}
    (h : (central cfg).ChronicledUnder P journalist (start bonds uptime accepts) .blank s J) :
    AccountedSoFar J s.io ∧ (s.Idle → Accounted J.received J s.io) := by
  have hstart : AllAccounted .blank (.start accepts) := accounted_start accepts
  refine Machine.outlined_invariant (A := AllAccounted) ?_ ?_ h
  · exact outlinedTo_startScan stands_allAccounted (fun _ _ hJ => hJ.act rfl rfl rfl) hstart
  · intro e m io m' io' p J hJ _ henter
    exact hJ.outlinedTo (entered_of_enter henter)

/-- A report that is too short and twenty others are received at once, the handler takes three
turns, one more report is received, and the link ends. -/
def burstRun : List (Action Errno Event) :=
  subscribeRun 1 1 ++ [.event (.notified 0 [5]), .tick] ++
    (List.replicate 20 [.event (.notified 0 [3, 4]), .tick]).flatten ++
    [.work, .work, .work, .event (.notified 0 [3, 4]), .tick, .event .disconnected] ++
    succeedsAfter 9

/-- Of that burst one report is discarded and two are published, five find no room, and
fourteen are purged. -/
theorem burstRun_accounted :
    ∃ s J, (central (.plain (reportTable [4]))).ChronicledUnder .any journalist
        (start [] 0 fun _ => true) .blank s J ∧
      J.received.length = 22 ∧ J.discarded = [(0, ⟨5, 1, [5]⟩)] ∧
      (publishedReports s.io).length = 2 ∧ J.purged.length = 14 ∧ J.rejected.length = 5 ∧
      Accounted J.received J s.io := by
  have hruns : (run ((central (.plain (reportTable [4]))).chronicledStep journalist) burstRun
      (start [] 0 fun _ => true, .blank)).map (fun s => decide (s.1.isIdle ∧
        s.2.received.length = 22 ∧ s.2.discarded = [(0, ⟨5, 1, [5]⟩)] ∧
        (publishedReports s.1.io).length = 2 ∧ s.2.purged.length = 14 ∧
        s.2.rejected.length = 5)) = some true := by decide +kernel
  obtain ⟨⟨s, J⟩, hrun, heq⟩ := Option.map_eq_some_iff.mp hruns
  obtain ⟨hidle, hreceived, hdiscarded, hpublished, hpurged, hrejected⟩ := of_decide_eq_true heq
  have hchronicled : (central (.plain (reportTable [4]))).ChronicledUnder .any journalist
      (start [] 0 fun _ => true) .blank s J := by
    refine Reaches.refl.of_run (Along.of_forall ?_ _ _) hrun
    intro s a
    exact Machine.meets_any s.1 a
  exact ⟨s, J, hchronicled, hreceived, hdiscarded, hpublished, hpurged, hrejected,
    (accounted_of_chronicled hchronicled).2 (Configuration.isIdle_iff.mp hidle)⟩

end BleHidHost
