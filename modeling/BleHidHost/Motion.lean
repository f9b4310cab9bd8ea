import BleHidHost.HostEvents
import BleHidHost.Rules

/-!
# From notifications to motion

Between a notification and the host lie the copy that is clamped to 32 bytes, the
queue, the filter, the decoder and the publish.  Reports arrive while the handler
runs, and yet the host is told what a fold over the notifications tells it.

## Main definitions

* `motion` — the decoded report of a notification, if it counts.
* `IsTraffic` — notifications, and turns of the handler.
* `Serving` — what holds between two steps of traffic.
* `backlog` — the reports that are still on their way.

## Main results

* `publishAll_backlog` — **what was published and what is on its way make up what has
  arrived**, at every step.
* `host_of_drained` — **once the queue has drained, the host was told exactly the
  reports that count, in the order of their arrival.**
-/

namespace BleHidHost

open Lib Lib.Prog

/-! ### Notifications -/

/-- The slot of the subscription a notification arrives on, and its data. -/
abbrev Notification := ℕ × List U8

/-- The decoded report of a notification, if it counts: its id is that of the layout, or
one subscription is made, and its first 32 bytes decode. -/
def motion (m : Central) (n : Notification) : Option PointerReport :=
  if (subscription m n.1).reportId = m.layout.reportId ∨ m.subCount = 1 then
    zmkHidDecodeReport m.layout (n.2.take reportDataMax)
  else none

/-- The notification that an action delivers. -/
def arrival : Action Errno Event → Option Notification
  | .event (.notified slot data) => some (slot, data)
  | _ => none

/-- The decoded reports of the notifications that count, in the order of arrival. -/
def motions (m : Central) (as : List (Action Errno Event)) : List PointerReport :=
  (as.filterMap arrival).filterMap (motion m)

/-- Notifications arrive, their callback runs, and the handler takes its turns. -/
def IsTraffic : Action Errno Event → Prop
  | .event e => ∃ slot data, e = .notified slot data
  | .tick => True
  | .work => True
  | .answer _ => False

/-- What the handler decodes of a notification's copy. -/
theorem handlerDecode_reportEvt {m : Central} (hvalid : m.layoutValid) (slot : ℕ) (data : List U8) :
    handlerDecode m (reportEvt (subscription m slot) data) = motion m (slot, data) := by
  have hiff : isPointerReport m (reportEvt (subscription m slot) data) ↔
      (subscription m slot).reportId = m.layout.reportId ∨ m.subCount = 1 := by
    simp only [isPointerReport, hvalid, reportEvt, true_and]
    tauto
  rw [handlerDecode, motion]
  exact if_congr hiff rfl rfl

/-! ### Traffic -/

/-- Between two steps of traffic the central is as it was, and at most one notification
is being copied. -/
structure Serving (m : Central) (s : System) (pending : List Notification) : Prop where
  main_eq : s.main = { m with mayQueue := s.main.mayQueue }
  running : (s.running = .ret () ∧ pending = []) ∨
    ∃ conn slot data, s.running = notifyCb conn slot data ∧ pending = [(slot, data)]

/-- The decoded reports that are still on their way: first the queue, then the copy. -/
def backlog (m : Central) (io : Pipeline) (pending : List Notification) : List PointerReport :=
  io.queue.filterMap (fun q => handlerDecode m q.2) ++ pending.filterMap (motion m)

theorem publishAll_append (cfg : WheelKeys) (h : Host) (rs rs' : List PointerReport) :
    publishAll cfg h (rs ++ rs') = publishAll cfg (publishAll cfg h rs) rs' :=
  List.foldl_append

variable {cfg : Setup} {m : Central} {s s' : System} {pending : List Notification}

/-- The handler decodes as it did before the traffic. -/
theorem Serving.handlerDecode_eq (h : Serving m s pending) (evt : ReportEvt) :
    handlerDecode s.main evt = handlerDecode m evt := by
  rw [h.main_eq]
  rfl

/-- A turn of the handler publishes the head of the backlog. -/
theorem publishAll_reportWorkTurn (cfg : Setup) {c : Central}
    (hc : ∀ evt, handlerDecode c evt = handlerDecode m evt) (io : Pipeline)
    (pending : List Notification) :
    (reportWorkTurn cfg c io).dropped = io.dropped ∧
      publishAll cfg.wheelKeys (reportWorkTurn cfg c io).host
          (backlog m (reportWorkTurn cfg c io) pending) =
        publishAll cfg.wheelKeys io.host (backlog m io pending) := by
  cases hqueue : io.queue with
  | nil =>
    rw [reportWorkTurn_nil hqueue]
    exact ⟨rfl, rfl⟩
  | cons q rest =>
    obtain ⟨conn, evt⟩ := q
    cases hdecode : handlerDecode m evt with
    | none =>
      rw [reportWorkTurn_none hqueue ((hc evt).trans hdecode), backlog, backlog, hqueue,
        List.filterMap_cons, hdecode]
      exact ⟨rfl, rfl⟩
    | some r =>
      rw [reportWorkTurn_some hqueue ((hc evt).trans hdecode), backlog, backlog, hqueue,
        List.filterMap_cons, hdecode]
      exact ⟨rfl, rfl⟩

/-- The copy of a notification goes to the end of the queue, unless the queue is full. -/
theorem publishAll_msgqPut (cfg : Setup) (hvalid : m.layoutValid) (conn slot : ℕ) (data : List U8)
    (io : Pipeline) :
    let io' := msgqPut conn (reportEvt (subscription m slot) data) io
    io.dropped ≤ io'.dropped ∧
      (io'.dropped = io.dropped →
        publishAll cfg.wheelKeys io'.host (backlog m io' []) =
          publishAll cfg.wheelKeys io.host (backlog m io [(slot, data)])) := by
  unfold msgqPut
  simp only
  split
  · -- the copy moves from the end of the backlog's one part to the end of the other
    refine ⟨le_rfl, fun _ => congrArg (publishAll cfg.wheelKeys io.host) ?_⟩
    rw [backlog, backlog, List.filterMap_append, List.filterMap_nil, List.append_nil]
    congr 1
    rw [List.filterMap_cons, List.filterMap_cons, handlerDecode_reportEvt hvalid]
    rfl
  · exact ⟨Nat.le_succ _, fun hkept => absurd hkept (Nat.succ_ne_self _)⟩

/-- **One step of traffic** loses nothing: what was published and what is on its way make
up what has arrived. -/
theorem Serving.step (h : Serving m s pending) (hvalid : m.layoutValid)
    {a : Action Errno Event} (htraffic : IsTraffic a) (hstep : (central cfg).step s a = some s') :
    ∃ pending', Serving m s' pending' ∧ s.io.dropped ≤ s'.io.dropped ∧
      (s'.io.dropped = s.io.dropped →
        publishAll cfg.wheelKeys s'.io.host (backlog m s'.io pending') =
          publishAll cfg.wheelKeys s.io.host (backlog m s.io pending ++ motions m [a])) := by
  have hdecode : ∀ evt, handlerDecode s.main evt = handlerDecode m evt := h.handlerDecode_eq
  obtain ⟨c, io, p⟩ := s
  obtain ⟨hmain, hrunning⟩ := h
  cases a with
  | work =>
    -- the head of the backlog is published, or dropped from it as it does not count
    cases hstep
    obtain ⟨hdropped, hhost⟩ := publishAll_reportWorkTurn cfg hdecode io pending
    refine ⟨pending, ⟨hmain, hrunning⟩, hdropped.ge, ?_⟩
    intro _
    rw [show motions m [.work] = [] from rfl, List.append_nil]
    exact hhost
  | tick =>
    rcases hrunning with ⟨hp, -⟩ | ⟨conn, slot, data, hp, rfl⟩
    · subst hp
      cases hstep
    · -- `notify_cb` copies: only the queue and its flag change
      subst hp
      cases hstep
      have hmain' : c = { m with mayQueue := c.mayQueue } := hmain
      have hsub : subscription { c with mayQueue := true } slot = subscription m slot := by
        rw [hmain']
        rfl
      obtain ⟨hle, hhost⟩ := publishAll_msgqPut cfg hvalid conn slot data io
      rw [← hsub] at hle hhost
      refine ⟨[], ⟨?_, Or.inl ⟨rfl, rfl⟩⟩, hle, fun hkept => ?_⟩
      · show { c with mayQueue := true } = { m with mayQueue := true }
        rw [hmain']
      · rw [show motions m [.tick] = [] from rfl, List.append_nil]
        exact hhost hkept
  | event e =>
    obtain ⟨slot, data, rfl⟩ := htraffic
    rcases hrunning with ⟨hp, rfl⟩ | ⟨conn, slot', data', hp, rfl⟩
    · subst hp
      obtain ⟨⟨m', io', p'⟩, henter, rfl⟩ := Option.map_eq_some_iff.mp hstep
      have hentered : Entered cfg c io (.notified slot data) m' io' p' := entered_of_enter henter
      cases hentered with
      | @notified _ _ l =>
        -- one more notification has arrived, and it is the one being copied
        refine ⟨[(slot, data)], ⟨hmain, Or.inr ⟨l.conn, slot, data, rfl, rfl⟩⟩, le_rfl, ?_⟩
        intro _
        simp only [backlog, List.filterMap_nil, List.append_nil]
        rfl
    · -- no event while a callback runs
      subst hp
      cases hstep
  | answer => cases htraffic

/-- **A run of traffic** loses nothing, as long as the queue rejects nothing. -/
theorem Serving.run (h : Serving m s pending) (hvalid : m.layoutValid)
    {as : List (Action Errno Event)} (htraffic : ∀ a ∈ as, IsTraffic a)
    (hrun : run (central cfg).step as s = some s') :
    ∃ pending', Serving m s' pending' ∧ s.io.dropped ≤ s'.io.dropped ∧
      (s'.io.dropped = s.io.dropped →
        publishAll cfg.wheelKeys s'.io.host (backlog m s'.io pending') =
          publishAll cfg.wheelKeys s.io.host (backlog m s.io pending ++ motions m as)) := by
  induction as generalizing s pending with
  | nil =>
    cases hrun
    exact ⟨pending, h, le_rfl, fun _ => by rw [show motions m [] = [] from rfl, List.append_nil]⟩
  | cons a as ih =>
    obtain ⟨t, ht, hrun⟩ := run_cons_eq_some.mp hrun
    obtain ⟨htraffic_a, htraffic_as⟩ := List.forall_mem_cons.mp htraffic
    obtain ⟨pending_t, hserving, hle, hfirst⟩ := h.step hvalid htraffic_a ht
    obtain ⟨pending', hserving', hle', hrest⟩ := ih hserving htraffic_as hrun
    refine ⟨pending', hserving', hle.trans hle', ?_⟩
    intro hkept
    -- nothing rejected in all: nothing rejected on the way
    have hkept_t : t.io.dropped = s.io.dropped := by omega
    have hsplit : motions m (a :: as) = motions m [a] ++ motions m as := by
      rw [motions, ← List.singleton_append, List.filterMap_append, List.filterMap_append]
      rfl
    rw [hrest (by omega), publishAll_append, hfirst hkept_t, ← publishAll_append, hsplit,
      List.append_assoc]

/-- **From notifications to motion.**  Let no report be on its way, and `prev_buttons` be
what the host was told.  Behind any interleaving of notifications and turns of the
handler in which no queue rejects anything, once the queue has drained, the host was told
exactly the reports that count, in the order of their arrival.  Without wheel taps these
add up to their deltas and leave the buttons of the last, and each contributes one sync
event, its last. -/
theorem host_of_drained {as : List (Action Errno Event)} (hidle : s.Idle)
    (hvalid : s.main.layoutValid) (hqueue : s.io.queue = []) (hsync : InSync s.io.host)
    (htraffic : ∀ a ∈ as, IsTraffic a) (hrun : run (central cfg).step as s = some s')
    (hidle' : s'.Idle) (hqueue' : s'.io.queue = []) (hkept : s'.io.dropped = s.io.dropped)
    (haccepted : AllAccepted s.io.host s'.io.host) :
    s'.io.host = publishAll cfg.wheelKeys s.io.host (motions s.main as) ∧
      (cfg.wheelKeys = wheelsOff →
        ∃ blocks, s'.io.host.events = s.io.host.events ++ blocks.flatten ∧
          List.Forall₂ Contributes (motions s.main as) blocks ∧
          (∀ code, relSum code blocks.flatten =
            ((motions s.main as).map (PointerReport.delta · code)).sum) ∧
          ∀ r, (motions s.main as).getLast? = some r → ∀ i < publishBtns,
            isPressed s'.io.host.events (.button i) = r.buttons.getLsbD i) := by
  have hstart : Serving s.main s [] := ⟨rfl, Or.inl ⟨hidle, rfl⟩⟩
  obtain ⟨pending', hserving, -, hfold⟩ := hstart.run hvalid htraffic hrun
  -- between two callbacks no notification is being copied
  have hpending : pending' = [] := by
    rcases hserving.running with ⟨-, hnil⟩ | ⟨conn, slot, data, hcopy, -⟩
    · exact hnil
    · rw [hidle'] at hcopy
      cases hcopy
  have hhost : s'.io.host = publishAll cfg.wheelKeys s.io.host (motions s.main as) := by
    have heq := hfold hkept
    rwa [hpending, backlog, backlog, hqueue, hqueue'] at heq
  refine ⟨hhost, ?_⟩
  intro hwheels
  rw [hwheels] at hhost
  rw [hhost] at haccepted ⊢
  obtain ⟨blocks, hoffers, hblocks⟩ := offers_publishAll s.io.host (motions s.main as)
  exact ⟨blocks, hoffers.events_eq haccepted, hblocks, relSum_flatten hblocks,
    fun r hr i hi => isPressed_publishAll hsync haccepted hr hi⟩

/-- Two reports and one that is too short, with turns of the handler in between. -/
def traffic : List (Action Errno Event) :=
  [.event (.notified 0 [3, 4]), .tick, .event (.notified 0 [9]), .work, .tick,
   .event (.notified 0 [5, 0]), .tick, .work, .work]

/-- Behind the discovery of a peer with one report, the two reports are told to the
host, and what is too short is not. -/
theorem traffic_host :
    ∃ s s', stateAfter (.plain (reportTable [4])) (subscribeRun 1 1) = some s ∧
      run (central (.plain (reportTable [4]))).step traffic s = some s' ∧
      s'.io.host.events = [.rel .x 3 false, .rel .y 4 false, .rel .wheel 0 true,
        .rel .x 5 false, .rel .wheel 0 true] ∧
      s'.io.host = publishAll wheelsOff s.io.host [⟨3, 4, 0, 0, 0⟩, ⟨5, 0, 0, 0, 0⟩] := by
  have hruns : (stateAfter (.plain (reportTable [4])) (subscribeRun 1 1)).bind (fun s =>
      (run (central (.plain (reportTable [4]))).step traffic s).map fun s' => decide (
        (s.isIdle ∧ s.main.layoutValid ∧ s.io.queue = [] ∧ s.io.host.prevButtons = 0 ∧
          s.io.host.events = []) ∧
        (s'.isIdle ∧ s'.io.queue = [] ∧ s'.io.dropped = s.io.dropped ∧
          s'.io.host.events = [.rel .x 3 false, .rel .y 4 false, .rel .wheel 0 true,
            .rel .x 5 false, .rel .wheel 0 true]) ∧
        motions s.main traffic = [⟨3, 4, 0, 0, 0⟩, ⟨5, 0, 0, 0, 0⟩] ∧
        ∀ n < s'.io.host.offered, s.io.host.offered ≤ n → s.io.host.accepts n)) =
      some true := by decide +kernel
  obtain ⟨s, hs, hrun⟩ := Option.bind_eq_some_iff.mp hruns
  obtain ⟨s', hs', heq⟩ := Option.map_eq_some_iff.mp hrun
  obtain ⟨⟨hidle, hvalid, hqueue, hprev, hnone⟩, ⟨hidle', hqueue', hkept, hevents⟩, hmotions,
    haccepted⟩ := of_decide_eq_true heq
  have hsync : InSync s.io.host := fun i => by simp [hprev, hnone]
  have htraffic : ∀ a ∈ traffic, IsTraffic a := by simp [traffic, IsTraffic]
  have hhost := (host_of_drained (Configuration.isIdle_iff.mp hidle) hvalid hqueue hsync htraffic
    hs' (Configuration.isIdle_iff.mp hidle') hqueue' hkept fun n hle hlt => haccepted n hlt hle).1
  rw [hmotions] at hhost
  exact ⟨s, s', hs, hs', hevents, hhost⟩

end BleHidHost
