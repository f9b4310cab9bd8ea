import BleHidHost.Rules

/-!
# Only the pointer report becomes motion

A report is passed on when its id is that of the pointer layout.  With exactly one
notifiable report there is nothing to disambiguate, and it is passed on whatever its
id.  The handler takes the number of subscriptions made so far for the number of
notifiable reports, and while the discovery goes on that number is still growing.

## Main definitions

* `notifiableReports` — the notifiable reports of a peer's HID service.
* `OnlyPointer` — what a trace says of the reports that were published.
* `disambiguates` — the handler's exception is used for a single report only.

## Main results

* `onlyPointer_iff` — **only the pointer report becomes motion in a run exactly when
  the exception is used for a single report only.**
* `growing_subscriptions_leak` — the first of two subscribed reports becomes motion.
-/

namespace BleHidHost

open Lib Lib.Prog

/-! ### Single reports -/

/-- The HID service of a peer: the first that the discovery delivers. -/
def hidService (table : List Attr) : Option Attr :=
  DiscoverParams.next ⟨uuidHids, firstAttributeHandle, lastAttributeHandle, .primary⟩ table

/-- The attribute is a Report characteristic of this service that notifies. -/
def IsNotifiableReport (service a : Attr) : Prop :=
  a.type = .characteristic ∧ a.uuid = uuidHidsReport ∧ service.handle ≤ a.handle ∧
    a.handle ≤ service.value ∧ a.properties &&& chrcNotify ≠ 0

instance (service a : Attr) : Decidable (IsNotifiableReport service a) :=
  inferInstanceAs (Decidable (_ ∧ _ ∧ _ ∧ _ ∧ _))

/-- The notifiable reports of a peer's HID service. -/
def notifiableReports (table : List Attr) : List Attr :=
  match hidService table with
  | none => []
  | some service => table.filter fun a => IsNotifiableReport service a

/-- The peer has exactly one notifiable report. -/
def HasSingleReport (table : List Attr) : Prop := (notifiableReports table).length = 1

instance (table : List Attr) : Decidable (HasSingleReport table) :=
  inferInstanceAs (Decidable (_ = _))

/-- A report may become motion with this layout: its id is that of the pointer, or
there is nothing to disambiguate. -/
def MayPublish (cfg : Setup) : Observation → Prop
  | .published conn evt valid layout =>
    valid ∧ (evt.reportId = layout.reportId ∨ HasSingleReport (cfg.table conn))
  | _ => True

/-- Whatever was published might be. -/
def OnlyPointer (cfg : Setup) (trace : List Observation) : Prop := ∀ o ∈ trace, MayPublish cfg o

/-- The report at the head of the queue, if it is decoded while one subscription is
made, is the pointer's, or the peer's only one. -/
def Disambiguated (cfg : Setup) (m : Central) (queue : List (ℕ × ReportEvt)) : Prop :=
  ∀ q ∈ queue.head?, m.subCount = 1 → (handlerDecode m q.2).isSome →
    q.2.reportId = m.layout.reportId ∨ HasSingleReport (cfg.table q.1)

instance (cfg : Setup) (m : Central) (queue : List (ℕ × ReportEvt)) :
    Decidable (Disambiguated cfg m queue) :=
  inferInstanceAs (Decidable (∀ q ∈ queue.head?, _ → _ → _))

/-- The handler's exception is used for a single report only. -/
def disambiguates (cfg : Setup) : Condition where
  onAnswer _ _ _ := true
  onEvent _ _ := true
  onWork m io := decide (Disambiguated cfg m io.queue)

variable {cfg : Setup} {P : Condition} {m : Central} {io : Pipeline}

/-! ### The handler -/

/-- What is recorded of publications. -/
def publications (io : Pipeline) : List Observation :=
  io.trace.filter fun o => o matches .published _ _ _ _

/-- Only publications count. -/
theorem onlyPointer_publications :
    OnlyPointer cfg (publications io) ↔ OnlyPointer cfg io.trace := by
  constructor
  · intro h o ho
    cases o with
    | published conn evt valid layout => exact h _ (List.mem_filter.mpr ⟨ho, rfl⟩)
    | mapRead => trivial
    | invalidated => trivial
  · intro h o ho
    exact h o (List.mem_filter.mp ho).1

/-- **A turn of the handler publishes what it may exactly where it disambiguates.** -/
theorem onlyPointer_reportWorkTurn :
    OnlyPointer cfg (reportWorkTurn cfg m io).trace ↔
      OnlyPointer cfg io.trace ∧ Disambiguated cfg m io.queue := by
  cases hqueue : io.queue with
  | nil =>
    rw [reportWorkTurn_nil hqueue]
    exact (and_iff_left fun q hq => absurd hq (Option.not_mem_none q)).symm
  | cons q rest =>
    obtain ⟨conn, evt⟩ := q
    have hhead : Disambiguated cfg m ((conn, evt) :: rest) ↔
        (m.subCount = 1 → (handlerDecode m evt).isSome →
          evt.reportId = m.layout.reportId ∨ HasSingleReport (cfg.table conn)) := by
      simp [Disambiguated]
    rw [hhead]
    cases hdecode : handlerDecode m evt with
    | none =>
      rw [reportWorkTurn_none hqueue hdecode]
      exact (and_iff_left fun _ hsome => absurd hsome Bool.false_ne_true).symm
    | some r =>
      rw [reportWorkTurn_some hqueue hdecode]
      obtain ⟨hvalid, hid⟩ := isPointerReport_of_handlerDecode hdecode
      have htrace : OnlyPointer cfg (io.trace ++ [.published conn evt m.layoutValid m.layout]) ↔
          OnlyPointer cfg io.trace ∧
            MayPublish cfg (.published conn evt m.layoutValid m.layout) := by
        simp only [OnlyPointer, List.forall_mem_append, List.forall_mem_singleton]
      refine htrace.trans (and_congr_right fun _ => ?_)
      constructor
      · intro hmay _ _
        exact hmay.2
      · -- with another number of subscriptions the filter compares the ids
        intro hsingle
        refine ⟨hvalid, ?_⟩
        by_cases hone : m.subCount = 1
        · exact hsingle hone rfl
        · exact Or.inl (by_contra fun hne => hid ⟨hone, hne⟩)

/-! ### The callbacks -/

/-- The callback publishes nothing. -/
abbrev PublishesNothing (cfg : Setup) (p : Callback Unit) : Prop :=
  p.Silent (central cfg) publications

/-- What leaves the pipeline alone publishes nothing. -/
theorem publishesNothing_of_leaves {γ : Type} {φ : Central → γ} {p : Callback Unit}
    (h : Leaves cfg Policy.any φ p) : PublishesNothing cfg p :=
  fun c => Leaves.keeps (S := fun _ io => publications io = c) h

theorem publishesNothing_securityChanged (peer : Addr) (level : ℕ) (err : Bool) :
    PublishesNothing cfg (securityChanged peer level err) := by
  intro c
  have hstart : PublishesNothing cfg startDiscovery :=
    publishesNothing_of_leaves (φ := fun _ => ()) (leaves_startDiscovery fun _ => rfl)
  exact .ite (keeps_securityFailed (fun _ h => h) peer) (hstart c)

theorem publishesNothing_disconnected (conn : ℕ) :
    PublishesNothing cfg (disconnected cfg conn) := by
  intro c
  refine .bind keeps_look fun m => .ite (keeps_pure _) ?_
  refine .bind ((keeps_assign _).mpr fun _ _ h => h) fun _ => ?_
  refine .bind ((keeps_assign _).mpr fun _ _ h => h) fun _ => ?_
  refine .bind ((keeps_assign _).mpr fun _ _ h => h) fun _ => ?_
  refine .bind ((keeps_assign _).mpr fun _ _ h => h) fun _ => ?_
  refine .bind ((keeps_emit _ _).mpr fun _ io h => ?_) fun _ => ?_
  · -- the end of the layout is recorded, but it is no publication
    simpa [publications] using h
  refine .bind ((keeps_assign _).mpr fun _ _ h => h) fun _ => ?_
  refine .bind ((keeps_emit _ _).mpr fun _ _ h => h) fun _ => ?_
  exact .bind ((keeps_emit _ _).mpr fun _ _ h => h) fun _ =>
    keeps_startScan_offScan fun _ h => h

theorem publishesNothing_notifyCb (conn slot : ℕ) (data : List U8) :
    PublishesNothing cfg (notifyCb conn slot data) := by
  intro c
  apply (keeps_emit _ _).mpr
  intro m io h
  unfold msgqPut
  split
  · exact h
  · exact h

/-- **No event publishes anything**, and no callback. -/
theorem publishesNothing_enter {e : Event} {m' : Central} {io' : Pipeline} {p : Callback Unit}
    (henter : Entered cfg m io e m' io' p) :
    publications io' = publications io ∧ PublishesNothing cfg p := by
  have hgatt {q : Callback Unit} (hq : Leaves cfg Policy.any (fun _ => ()) q) :
      PublishesNothing cfg q := publishesNothing_of_leaves hq
  cases henter with
  | advertise addr type ad => exact ⟨rfl, fun _ => keeps_deviceFound (fun _ h => h) addr type ad⟩
  | scanRetry => exact ⟨rfl, fun _ => keeps_scanRetryHandler fun _ h => h⟩
  | connected err => exact ⟨rfl, fun _ => keeps_connected (fun _ h => h) err⟩
  | securityChanged level err => exact ⟨rfl, publishesNothing_securityChanged _ level err⟩
  | disconnected => exact ⟨rfl, publishesNothing_disconnected _⟩
  | discovered => exact ⟨rfl, hgatt (leaves_deliver (fun _ => rfl) _ _)⟩
  | discoverDone => exact ⟨rfl, hgatt (leaves_finishDiscover fun _ => rfl)⟩
  | readMap n err data =>
    refine ⟨?_, hgatt (leaves_respondMap (fun _ => rfl) _ _ err data)⟩
    unfold recordMapRead
    split
    · simp [publications]
    · rfl
  | readRef n err data => exact ⟨rfl, hgatt (leaves_respondRef (fun _ => rfl) err data)⟩
  | notified slot data => exact ⟨rfl, publishesNothing_notifyCb _ slot data⟩
  | unsubscribed slot => exact ⟨rfl, hgatt (leaves_unsubscribed (fun _ => rfl) slot)⟩
  | timePasses => exact ⟨rfl, fun _ => keeps_pure _⟩
  | bonded => exact ⟨rfl, fun _ => keeps_pure _⟩

/-! ### Runs -/

/-- **Only the pointer report becomes motion in a run exactly when the handler's
exception is used for a single report only.** -/
theorem onlyPointer_iff {bonds : List Addr} {uptime : ℕ} {accepts : ℕ → Bool}
    {as : List (Action Errno Event)} {s : System}
    (hrun : run (central cfg).step as (start bonds uptime accepts) = some s) :
    OnlyPointer cfg s.io.trace ↔
      Along (central cfg).step (fun s a => Machine.meets (disambiguates cfg) s a) as
        (start bonds uptime accepts) := by
  have hstart : OnlyPointer cfg (publications (Pipeline.start accepts)) := by
    intro o ho
    exact absurd ho List.not_mem_nil
  have hiff := Machine.along_iff (φ := publications) (K := OnlyPointer cfg) (P := disambiguates cfg)
    (fun e m io m' io' p henter => publishesNothing_enter (entered_of_enter henter))
    (fun m io => ?_) (fun _ _ _ => rfl) (fun _ _ => rfl)
    (fun _ => keeps_startScan_offScan fun _ h => h) hrun
  · rw [← onlyPointer_publications, hiff]
    exact and_iff_right hstart
  · simp only [onlyPointer_publications, central_work, disambiguates, decide_eq_true_eq]
    exact onlyPointer_reportWorkTurn

/-- A peer whose only report has another id than the pointer's layout. -/
def singleReportRun : List (Action Errno Event) := subscribeRun 1 2 ++ notifiedTurn 0 [3, 4]

/-- Its report becomes motion, as it may. -/
theorem singleReportRun_onlyPointer :
    ∃ s, stateAfter (.plain (reportTable [4])) singleReportRun = some s ∧
      publications s.io =
        [.published 0 ⟨5, 2, [3, 4]⟩ true (zmkHidParseReportMap pointerMap).2] ∧
      OnlyPointer (.plain (reportTable [4])) s.io.trace := by
  have hmeets : Meeting (.plain (reportTable [4])) (disambiguates (.plain (reportTable [4])))
      singleReportRun := by decide +kernel
  have htrace : (stateAfter (.plain (reportTable [4])) singleReportRun).map
      (fun s => publications s.io) =
        some [.published 0 ⟨5, 2, [3, 4]⟩ true (zmkHidParseReportMap pointerMap).2] := by
    decide +kernel
  obtain ⟨s, hs, heq⟩ := Option.map_eq_some_iff.mp htrace
  exact ⟨s, hs, heq, (onlyPointer_iff hs).mpr hmeets⟩

/-- A peer with two reports, of which the first is not the pointer's.  It reports while
the second is not yet subscribed. -/
def growingRun : List (Action Errno Event) :=
  subscribeRun 2 2 ++ succeedsAfter 1 ++ notifiedTurn 0 [3, 4]

/-- The first of two subscribed reports becomes motion, although its id is not that of
the pointer's layout. -/
theorem growing_subscriptions_leak :
    ∃ s, stateAfter (.plain (reportTable [4, 8])) growingRun = some s ∧
      (notifiableReports (reportTable [4, 8])).length = 2 ∧
      publications s.io =
        [.published 0 ⟨5, 2, [3, 4]⟩ true (zmkHidParseReportMap pointerMap).2] ∧
      ¬ OnlyPointer (.plain (reportTable [4, 8])) s.io.trace := by
  have htrace : (stateAfter (.plain (reportTable [4, 8])) growingRun).map
      (fun s => publications s.io) =
        some [.published 0 ⟨5, 2, [3, 4]⟩ true (zmkHidParseReportMap pointerMap).2] := by
    decide +kernel
  obtain ⟨s, hs, heq⟩ := Option.map_eq_some_iff.mp htrace
  refine ⟨s, hs, by decide, heq, ?_⟩
  intro hpointer
  rw [← onlyPointer_publications, heq] at hpointer
  have hmay : MayPublish (.plain (reportTable [4, 8]))
      (.published 0 ⟨5, 2, [3, 4]⟩ true (zmkHidParseReportMap pointerMap).2) :=
    hpointer _ List.mem_cons_self
  rcases hmay.2 with hid | hsingle
  · exact absurd hid (by decide)
  · exact absurd hsingle (by decide)

end BleHidHost
