import BleHidHost.PipelineRules
import BleHidHost.WheelTaps

/-!
# The host device in a run

The device is called by the handler, for each report that decodes, and by a disconnect.
Its input queue may drop any event, and what is dropped is gone, but for the edges that are
offered again.  So the motion it passes on is that of the reports that were published, in
their order, with parts missing; and reports that the queue takes in full put right whatever
was dropped before them.

## Main definitions

* `hostCalls`, `hostReports` — the calls that a trace shows, and the reports of them.
* `CalledFor` — the device is behind the calls of a trace.
* `TapBlind` — a relation that does not see taps.
* `moved`, `reportMotion` — the motion that the host was told of, and that of a report.
* `TapsReleased`, `Told` — no code is left pressed; the host knows what is believed of a
  button.

## Main results

* `calledFor_of_reachable` — **the device is behind the calls of the trace, in any run.**
* `moved_of_reachable` — **no motion is invented, doubled or reordered, in any run.**
* `told_publishAll_iff` — what reports that are accepted in full tell of a button.
* `healed_of_reachable` — **such reports release every wheel tap, and put right the buttons
  that they move, and no others.**
-/

namespace BleHidHost

open Lib Lib.Prog

variable {cfg : Setup} {P : Condition} {keys : WheelKeys} {h h' h'' : Host}

/-! ### Calls -/

/-- The report of a call. -/
def Call.report? : Call → Option PointerReport
  | .publish r => some r
  | .reset => none

/-- The report that an observation passes to the device. -/
def Observation.report? : Observation → Option PointerReport
  | .published _ evt _ layout => zmkHidDecodeReport layout evt.data
  | _ => none

/-- The call that an observation stands for: the layout ends with a reset. -/
def Observation.call? : Observation → Option Call
  | .published _ evt _ layout => (zmkHidDecodeReport layout evt.data).map .publish
  | .invalidated _ => some .reset
  | .mapRead _ _ => none

/-- The calls that a trace shows. -/
def hostCalls (trace : List Observation) : List Call := trace.filterMap Observation.call?

/-- The reports that a trace passes to the device. -/
def hostReports (io : Pipeline) : List PointerReport := io.trace.filterMap Observation.report?

theorem hostCalls_concat (trace : List Observation) (o : Observation) :
    hostCalls (trace ++ [o]) = hostCalls trace ++ o.call?.toList := by
  rw [hostCalls, List.filterMap_append]
  cases ho : o.call? <;> simp [hostCalls, ho]

/-- The reports are those of the calls. -/
theorem report_hostCalls (trace : List Observation) :
    (hostCalls trace).filterMap Call.report? = trace.filterMap Observation.report? := by
  rw [hostCalls, List.filterMap_filterMap]
  apply List.filterMap_congr
  intro o _
  cases o with
  | published conn evt valid layout =>
    show ((zmkHidDecodeReport layout evt.data).map Call.publish).bind Call.report? =
      zmkHidDecodeReport layout evt.data
    cases zmkHidDecodeReport layout evt.data <;> rfl
  | mapRead | invalidated => rfl

/-- The device is behind the calls of a trace. -/
def CalledFor (keys : WheelKeys) (trace : List Observation) (h : Host) : Prop :=
  ∃ accepts, h = hostAfter keys accepts (hostCalls trace)

/-- The device is behind the calls of the trace, but for the reset of a disconnect that is
running. -/
def CalledSoFar (keys : WheelKeys) (io : Pipeline) : Prop :=
  ∃ before, (io.trace = before ∨ ∃ conn, io.trace = before ++ [.invalidated conn]) ∧
    CalledFor keys before io.host

/-- One more call. -/
theorem CalledFor.call {trace : List Observation} (hcalled : CalledFor keys trace h)
    {o : Observation} {c : Call} (ho : o.call? = some c) :
    CalledFor keys (trace ++ [o]) (c.run keys h) := by
  obtain ⟨accepts, rfl⟩ := hcalled
  refine ⟨accepts, ?_⟩
  rw [hostCalls_concat, ho, Option.toList_some, hostAfter_concat]

/-- What stands for no call. -/
theorem CalledFor.pass {trace : List Observation} (hcalled : CalledFor keys trace h)
    {o : Observation} (ho : o.call? = none) : CalledFor keys (trace ++ [o]) h := by
  obtain ⟨accepts, rfl⟩ := hcalled
  refine ⟨accepts, ?_⟩
  rw [hostCalls_concat, ho, Option.toList_none, List.append_nil]

/-! ### The outline of the calls -/

/-- A turn of the handler makes a call for a report that decodes, and records it. -/
theorem calledFor_reportWorkTurn {m : Central} {io : Pipeline}
    (hio : CalledFor cfg.wheelKeys io.trace io.host) :
    CalledFor cfg.wheelKeys (reportWorkTurn cfg m io).trace (reportWorkTurn cfg m io).host := by
  cases hqueue : io.queue with
  | nil => rwa [reportWorkTurn_nil hqueue]
  | cons q rest =>
    obtain ⟨conn, evt⟩ := q
    cases hdecode : handlerDecode m evt with
    | none =>
      rw [reportWorkTurn_none hqueue hdecode]
      exact hio
    | some r =>
      have hr : zmkHidDecodeReport m.layout evt.data = some r :=
        (Option.ite_none_right_eq_some.mp hdecode).2
      rw [reportWorkTurn_some hqueue hdecode]
      exact hio.call (c := .publish r) (by simp [Observation.call?, hr])

/-- Without a layout it makes none. -/
theorem sameHost_reportWorkTurn (cfg : Setup) {m : Central} (hlayout : m.layoutValid = false)
    (io : Pipeline) :
    (reportWorkTurn cfg m io).trace = io.trace ∧ (reportWorkTurn cfg m io).host = io.host := by
  cases hqueue : io.queue with
  | nil =>
    rw [reportWorkTurn_nil hqueue]
    exact ⟨rfl, rfl⟩
  | cons q rest =>
    obtain ⟨conn, evt⟩ := q
    have hdecode : handlerDecode m evt = none := by simp [handlerDecode, isPointerReport, hlayout]
    rw [reportWorkTurn_none hqueue hdecode]
    exact ⟨rfl, rfl⟩

/-- Between two callbacks, and in most. -/
def Called (keys : WheelKeys) (_ : Unit) (io : Pipeline) : Prop := CalledFor keys io.trace io.host

/-- Between the end of a layout and the reset. -/
def ResetDue (keys : WheelKeys) (conn : ℕ) (_ : Unit) (io : Pipeline) : Prop :=
  ∃ before, io.trace = before ++ [.invalidated conn] ∧ CalledFor keys before io.host

theorem stands_called (m : Central) : Stands (central cfg) .silent
    (fun _ => CalledSoFar cfg.wheelKeys) m (Called cfg.wheelKeys) where
  claims _ io hio := ⟨io.trace, Or.inl rfl, hio⟩
  work _ _ hio := calledFor_reportWorkTurn hio

theorem stands_resetDue (conn : ℕ) {m : Central} (hlayout : m.layoutValid = false) :
    Stands (central cfg) .silent (fun _ => CalledSoFar cfg.wheelKeys) m
      (ResetDue cfg.wheelKeys conn) where
  claims _ io hio := by
    obtain ⟨before, htrace, hcalled⟩ := hio
    exact ⟨before, Or.inr ⟨conn, htrace⟩, hcalled⟩
  work _ io hio := by
    obtain ⟨before, htrace, hcalled⟩ := hio
    obtain ⟨hsame, hhost⟩ := sameHost_reportWorkTurn cfg hlayout io
    exact ⟨before, hsame.trans htrace, hhost.symm ▸ hcalled⟩

/-- **The outline of a disconnect**: its reset is due from the end of the layout on. -/
theorem Called.outlinedTo_disconnected {m : Central} {io : Pipeline} {conn : ℕ}
    (hio : Called cfg.wheelKeys () io) :
    Machine.OutlinedTo (central cfg) P .silent (fun _ => CalledSoFar cfg.wheelKeys)
      (Called cfg.wheelKeys) (disconnected cfg conn) m () io := by
  refine BleHidHost.outlinedTo_disconnected (B := ResetDue cfg.wheelKeys conn) stands_called
    (fun _ _ h => h) (fun _ => stands_resetDue conn) (fun _ _ h => h) ?_ ?_ ?_ (fun _ _ h => h) hio
  · rintro _ io _ hio rfl
    exact ⟨io.trace, rfl, hio⟩
  · rintro _ io _ hio rfl
    exact hio
  · rintro _ io _ hio rfl
    obtain ⟨before, htrace, hcalled⟩ := hio
    show CalledFor cfg.wheelKeys io.trace _
    rw [htrace]
    exact hcalled.call (c := .reset) rfl

/-- **The device is behind the calls of the trace**, in any run: a publish for each report that
was published, and a reset for each layout that ended. -/
theorem calledFor_of_reachable {s : System} (hs : Reachable cfg P s) :
    CalledSoFar cfg.wheelKeys s.io ∧ (s.Idle → CalledFor cfg.wheelKeys s.io.trace s.io.host) := by
  obtain ⟨bonds, uptime, accepts, hreach⟩ := hs
  obtain ⟨⟨⟩, hrun⟩ := (Machine.reachedUnder_iff_chronicledUnder .silent ()).mp hreach
  refine Machine.outlined_invariant (G := fun _ => CalledSoFar cfg.wheelKeys)
    (A := Called cfg.wheelKeys) ?_ ?_ hrun
  · exact outlinedTo_startScan stands_called (fun _ _ h => h) ⟨accepts, rfl⟩
  intro e m io m' io' p l hio _ henter
  have hentered : Entered cfg m io e m' io' p := entered_of_enter henter
  by_cases hnotified : ∃ slot data, e = .notified slot data
  · obtain ⟨slot, data, rfl⟩ := hnotified
    cases hentered with
    | notified =>
      refine ⟨Called cfg.wheelKeys, hio, stands_called m,
        outlined_emit _ ?_ (stands_called _) fun _ _ h => h⟩
      intro l io hio
      unfold msgqPut
      split
      · exact hio
      · exact hio
  by_cases hend : e = .disconnected
  · subst hend
    cases hentered with
    | disconnected hl => exact hio.outlinedTo_disconnected
  refine outlinedTo_enter hentered (fun slot data heq => hnotified ⟨slot, data, heq⟩) hend
    stands_called (fun _ _ h => h) ?_
  rcases pipeline_enter hentered with rfl | ⟨conn, bytes, rfl⟩
  · exact hio
  · exact CalledFor.pass hio rfl

/-- The reports of the calls are those of the trace, whether a reset is due or not. -/
theorem hostAfter_of_reachable {s : System} (hs : Reachable cfg P s) :
    ∃ accepts calls, s.io.host = hostAfter cfg.wheelKeys accepts calls ∧
      calls.filterMap Call.report? = hostReports s.io := by
  obtain ⟨before, hlag, accepts, hhost⟩ := (calledFor_of_reachable hs).1
  refine ⟨accepts, hostCalls before, hhost, ?_⟩
  rw [report_hostCalls, hostReports]
  rcases hlag with heq | ⟨conn, heq⟩
  · rw [heq]
  · rw [heq, List.filterMap_append]
    exact (List.append_nil _).symm

/-! ### Taps -/

/-- A relation between states of the device that does not see taps. -/
structure TapBlind (R : Host → Host → Prop) : Prop where
  refl (h : Host) : R h h
  trans {h h' h'' : Host} : R h h' → R h' h'' → R h h''
  report (h : Host) (idx : DpadIdx) (pressed : Bool) :
    R h (h.report (.key (.dpad idx) pressed false))
  pending {h h' : Host} (bits : U8) : R h h' → R h { h' with pendingDpadRelease := bits }

variable {R : Host → Host → Prop}

theorem TapBlind.tapBtn (hR : TapBlind R) (h : Host) (idx : DpadIdx) : R h (tapBtn h idx) := by
  have hpress := hR.report h idx true
  have hboth := hR.trans hpress (hR.report _ idx false)
  unfold BleHidHost.tapBtn
  simp only
  split
  · exact hpress
  · split
    · exact hR.pending _ hboth
    · exact hboth

theorem TapBlind.flushDpad (hR : TapBlind R) (h : Host) (idx : DpadIdx) :
    R h (flushDpad h idx) := by
  have hrelease := hR.report h idx false
  unfold BleHidHost.flushDpad
  simp only
  split
  · split
    · exact hR.pending _ hrelease
    · exact hrelease
  · exact hR.refl h

/-- Nor does it see the retries of their releases. -/
theorem TapBlind.flushKeyed (hR : TapBlind R) (keys : WheelKeys) (h : Host) :
    R h (flushKeyed keys h) := by
  unfold BleHidHost.flushKeyed
  split
  · unfold flushPendingDpadReleases
    induction dpadIdxs generalizing h with
    | nil => exact hR.refl h
    | cons idx idxs ih => exact hR.trans (hR.flushDpad h idx) (ih _)
  · exact hR.refl h

/-! ### Motion -/

/-- What an event moves. -/
def InputEvent.moved? : InputEvent → Option (RelCode × ℤ)
  | .rel code value _ => if value ≠ 0 then some (code, value) else none
  | .key _ _ _ => none

/-- The motion that the host was told of. -/
def moved (events : List InputEvent) : List (RelCode × ℤ) := events.filterMap InputEvent.moved?

/-- The motion on one axis. -/
def axisMotion (code : RelCode) (value : ℤ) : List (RelCode × ℤ) :=
  if value ≠ 0 then [(code, value)] else []

/-- The motion of a report.  A wheel whose ticks are taps does not scroll. -/
def reportMotion (keys : WheelKeys) (r : PointerReport) : List (RelCode × ℤ) :=
  axisMotion .x r.dx ++ axisMotion .y r.dy ++
    axisMotion .hwheel (if keys.hwheelAsKeys then 0 else r.hwheel) ++
      axisMotion .wheel (if keys.wheelAsKeys then 0 else r.wheel)

/-- The host is told of some of this motion, in its order, and of no other. -/
def Moves (h h' : Host) (ps : List (RelCode × ℤ)) : Prop :=
  ∃ qs, qs.Sublist ps ∧ moved h'.events = moved h.events ++ qs

theorem Moves.refl (h : Host) : Moves h h [] := ⟨[], .slnil, (List.append_nil _).symm⟩

theorem Moves.trans {ps ps' : List (RelCode × ℤ)} (hfirst : Moves h h' ps)
    (hrest : Moves h' h'' ps') : Moves h h'' (ps ++ ps') := by
  obtain ⟨qs, hqs, heq⟩ := hfirst
  obtain ⟨qs', hqs', heq'⟩ := hrest
  exact ⟨qs ++ qs', hqs.append hqs', by rw [heq', heq, List.append_assoc]⟩

/-- Behind what moves nothing. -/
theorem Moves.still_trans {ps : List (RelCode × ℤ)} (hfirst : Moves h h' [])
    (hrest : Moves h' h'' ps) : Moves h h'' ps :=
  hfirst.trans hrest

/-- **An event is passed on or dropped.** -/
theorem moves_report (h : Host) (ev : InputEvent) : Moves h (h.report ev) ev.moved?.toList := by
  unfold Host.report
  by_cases hacc : h.accepting
  · refine ⟨ev.moved?.toList, .refl _, ?_⟩
    rw [if_pos hacc, moved, List.filterMap_append]
    cases hev : ev.moved? <;> simp [hev, moved]
  · refine ⟨[], List.nil_sublist _, ?_⟩
    rw [if_neg hacc, List.append_nil]

theorem moves_key (h : Host) (code : KeyCode) (pressed sync : Bool) :
    Moves h (h.report (.key code pressed sync)) [] :=
  moves_report h _

theorem moves_rel (h : Host) (code : RelCode) (value : ℤ) (sync : Bool) :
    Moves h (h.report (.rel code value sync)) (axisMotion code value) := by
  have hmoves := moves_report h (.rel code value sync)
  have heq : (InputEvent.rel code value sync).moved?.toList = axisMotion code value := by
    show (if value ≠ 0 then some (code, value) else none).toList = _
    unfold axisMotion
    split <;> rfl
  rwa [heq] at hmoves

theorem moves_reportDelta (code : RelCode) (value : ℤ) (h : Host) :
    Moves h (reportDelta code value h) (axisMotion code value) := by
  unfold reportDelta
  split
  · exact moves_rel h code value false
  · next hzero =>
    rw [axisMotion, if_neg hzero]
    exact .refl h

/-- Taps move nothing. -/
theorem tapBlind_moves : TapBlind fun h h' => Moves h h' [] where
  refl := .refl
  trans hfirst hrest := hfirst.still_trans hrest
  report h idx pressed := moves_key h (.dpad idx) pressed false
  pending _ hmoves := hmoves

/-- A loop whose rounds move nothing moves nothing. -/
theorem moves_foldl {α : Type} {f : Host → α → Host} (hf : ∀ h a, Moves h (f h a) [])
    (as : List α) (h : Host) : Moves h (as.foldl f h) [] := by
  induction as generalizing h with
  | nil => exact .refl h
  | cons a as ih => exact (hf h a).still_trans (ih (f h a))

theorem moves_publishButtons (h : Host) (r : PointerReport) :
    Moves h (publishButtons h r) [] := by
  have hloop (is : List ℕ) (s : Host × U32) : Moves s.1
      (is.foldl (publishButton r (r.buttons ^^^ h.prevButtons)) s).1 [] := by
    induction is generalizing s with
    | nil => exact .refl _
    | cons i is ih =>
      refine Moves.still_trans ?_ (ih _)
      unfold publishButton
      split
      · exact moves_key s.1 _ _ _
      · exact .refl _
  exact hloop (List.range publishBtns) (h, 0)

theorem moves_publishHwheel (keys : WheelKeys) (r : PointerReport) (h : Host) :
    Moves h (publishHwheel keys r h)
      (axisMotion .hwheel (if keys.hwheelAsKeys then 0 else r.hwheel)) := by
  unfold publishHwheel
  split
  · split
    · exact tapBlind_moves.tapBtn h .left
    · split
      · exact tapBlind_moves.tapBtn h .right
      · exact .refl h
  · exact moves_reportDelta .hwheel r.hwheel h

theorem moves_publishWheel (keys : WheelKeys) (r : PointerReport) (h : Host) :
    Moves h (publishWheel keys r h)
      (axisMotion .wheel (if keys.wheelAsKeys then 0 else r.wheel)) := by
  unfold publishWheel
  split
  · refine Moves.still_trans ?_ (moves_rel _ .wheel 0 true)
    split
    · exact tapBlind_moves.tapBtn h .up
    · split
      · exact tapBlind_moves.tapBtn h .down
      · exact .refl h
  · exact moves_rel h .wheel r.wheel true

/-- **A publish moves what the report moves**, or less. -/
theorem moves_publish (keys : WheelKeys) (h : Host) (r : PointerReport) :
    Moves h (bleHidHostPublish keys h r) (reportMotion keys r) := by
  have hopen := (tapBlind_moves.flushKeyed keys h).still_trans
    (moves_publishButtons (flushKeyed keys h) r)
  exact (((hopen.still_trans (moves_reportDelta .x r.dx _)).trans
    (moves_reportDelta .y r.dy _)).trans (moves_publishHwheel keys r _)).trans
      (moves_publishWheel keys r _)

/-- A reset moves nothing. -/
theorem moves_reset (keys : WheelKeys) (h : Host) : Moves h (bleHidHostReset keys h) [] := by
  unfold bleHidHostReset
  simp only
  split
  · exact tapBlind_moves.flushKeyed keys h
  · refine (tapBlind_moves.flushKeyed keys h).still_trans ?_
    refine moves_foldl (fun h i => ?_) (List.range publishBtns) (flushKeyed keys h)
    unfold releaseButton
    split
    · exact moves_key h _ _ _
    · exact .refl h

/-- **The motion behind a sequence of calls** is that of their reports, with parts missing. -/
theorem moved_hostAfter (keys : WheelKeys) (accepts : ℕ → Bool) (calls : List Call) :
    (moved (hostAfter keys accepts calls).events).Sublist
      ((calls.filterMap Call.report?).flatMap (reportMotion keys)) := by
  induction calls using List.reverseRecOn with
  | nil => exact .slnil
  | append_singleton calls c ih =>
    rw [hostAfter_concat, List.filterMap_append, List.flatMap_append]
    cases c with
    | publish r =>
      obtain ⟨qs, hqs, heq⟩ := moves_publish keys (hostAfter keys accepts calls) r
      have hreport : [Call.publish r].filterMap Call.report? = [r] := rfl
      rw [Call.run, heq, hreport, List.flatMap_singleton]
      exact ih.append hqs
    | reset =>
      obtain ⟨qs, hqs, heq⟩ := moves_reset keys (hostAfter keys accepts calls)
      rw [Call.run, heq]
      exact ih.append hqs

/-- **No motion is invented, doubled or reordered**, in any run, whatever the input queue
drops: the motion that the host was told of is that of the reports that were published, axis
by axis in their order, with parts missing. -/
theorem moved_of_reachable {s : System} (hs : Reachable cfg P s) :
    (moved s.io.host.events).Sublist
      ((hostReports s.io).flatMap (reportMotion cfg.wheelKeys)) := by
  obtain ⟨accepts, calls, hhost, hreports⟩ := hostAfter_of_reachable hs
  rw [hhost, ← hreports]
  exact moved_hostAfter cfg.wheelKeys accepts calls

/-- A run without a condition reaches where it leads. -/
theorem reachable_any_of_run {accepts : ℕ → Bool} {as : List (Action Errno Event)} {s : System}
    (hrun : run (central cfg).step as (start [] 0 accepts) = some s) : Reachable cfg .any s :=
  ⟨[], 0, accepts,
    Reaches.refl.of_run (Along.of_forall (fun s a => Machine.meets_any s a) _ _) hrun⟩

/-- The wheel event between two motions is dropped with the first vertical motion. -/
theorem moved_of_lossy_traffic :
    ∃ s, Reachable (.plain (reportTable [4])) .any s ∧
      (hostReports s.io).flatMap (reportMotion wheelsOff) = [(.x, 3), (.y, 4), (.x, 5), (.y, 6)] ∧
      moved s.io.host.events = [(.x, 3), (.x, 5), (.y, 6)] ∧
      (moved s.io.host.events).Sublist ((hostReports s.io).flatMap (reportMotion wheelsOff)) := by
  have hruns : (run (central (.plain (reportTable [4]))).step
      (subscribeRun 1 1 ++ notifiedTurn 0 [3, 4] ++ notifiedTurn 0 [5, 6])
      (start [] 0 fun n => n != 1 && n != 2)).map (fun s => decide (
        (hostReports s.io).flatMap (reportMotion wheelsOff) =
          [(.x, 3), (.y, 4), (.x, 5), (.y, 6)] ∧
        moved s.io.host.events = [(.x, 3), (.x, 5), (.y, 6)])) = some true := by decide +kernel
  obtain ⟨s, hrun, heq⟩ := Option.map_eq_some_iff.mp hruns
  obtain ⟨hreports, hmoved⟩ := of_decide_eq_true heq
  have hs : Reachable (.plain (reportTable [4])) .any s :=
    reachable_any_of_run hrun
  exact ⟨s, hs, hreports, hmoved, moved_of_reachable hs⟩

/-! ### What is put right -/

/-- The device has offered more since. -/
def Ahead (h h' : Host) : Prop := h'.accepts = h.accepts ∧ h.offered ≤ h'.offered

theorem Ahead.refl (h : Host) : Ahead h h := ⟨rfl, le_rfl⟩

theorem Ahead.trans (hfirst : Ahead h h') (hrest : Ahead h' h'') : Ahead h h'' :=
  ⟨hrest.1.trans hfirst.1, hfirst.2.trans hrest.2⟩

/-- What is accepted in all is accepted in part. -/
theorem AllAccepted.first (hall : AllAccepted h h'') (hrest : Ahead h' h'') : AllAccepted h h' :=
  fun n hn hlt => hall n hn (hlt.trans_le hrest.2)

theorem AllAccepted.rest (hall : AllAccepted h h'') (hfirst : Ahead h h') :
    AllAccepted h' h'' := by
  intro n hn hlt
  rw [hfirst.1]
  exact hall n (hfirst.2.trans hn) hlt

instance (h h' : Host) : Decidable (AllAccepted h h') :=
  decidable_of_iff (∀ n < h'.offered, h.offered ≤ n → h.accepts n)
    ⟨fun hall n hn hlt => hall n hlt hn, fun hall n hlt hn => hall n hn hlt⟩

theorem Offers.ahead {es : List InputEvent} (ho : Offers h h' es) : Ahead h h' :=
  ⟨ho.accepts_eq, ho.offered_eq ▸ Nat.le_add_right _ _⟩

theorem ahead_flushKeyed (keys : WheelKeys) (h : Host) : Ahead h (flushKeyed keys h) :=
  ⟨(sameButtons_flushKeyed keys h).2.1, by
    rw [flushKeyed_offered]
    exact Nat.le_add_right _ _⟩

theorem ahead_tapBtn (h : Host) (idx : DpadIdx) : Ahead h (tapBtn h idx) :=
  ⟨accepts_tapBtn h idx, by
    rw [offered_tapBtn]
    exact Nat.le_add_right _ _⟩

theorem ahead_publishHwheel (keys : WheelKeys) (r : PointerReport) (h : Host) :
    Ahead h (publishHwheel keys r h) := by
  obtain ⟨haccepts, hoffered⟩ := publishHwheel_spec keys r h
  exact ⟨haccepts, hoffered ▸ Nat.le_add_right _ _⟩

theorem ahead_elim_tapBtn (tap : Option DpadIdx) (h : Host) : Ahead h (tap.elim h (tapBtn h)) := by
  cases tap with
  | none => exact .refl h
  | some idx => exact ahead_tapBtn h idx

theorem ahead_publishWheel (keys : WheelKeys) (r : PointerReport) (h : Host) :
    Ahead h (publishWheel keys r h) := by
  rw [publishWheel_eq]
  exact (ahead_elim_tapBtn _ h).trans (offers_report _ _).ahead

/-- The wheels and the motion come behind the buttons. -/
theorem ahead_publishButtons (keys : WheelKeys) (h : Host) (r : PointerReport) :
    Ahead (publishButtons (flushKeyed keys h) r) (beforeWheels keys h r) :=
  (offers_reportDelta .x r.dx _).ahead.trans (offers_reportDelta .y r.dy _).ahead

theorem ahead_beforeWheels (keys : WheelKeys) (h : Host) (r : PointerReport) :
    Ahead (beforeWheels keys h r) (bleHidHostPublish keys h r) :=
  (ahead_publishHwheel keys r _).trans (ahead_publishWheel keys r _)

theorem ahead_publish (keys : WheelKeys) (h : Host) (r : PointerReport) :
    Ahead h (bleHidHostPublish keys h r) :=
  ((ahead_flushKeyed keys h).trans (offers_publishButtons _ r).1.ahead).trans
    ((ahead_publishButtons keys h r).trans (ahead_beforeWheels keys h r))

theorem ahead_publishAll (keys : WheelKeys) (rs : List PointerReport) (h : Host) :
    Ahead h (publishAll keys h rs) := by
  induction rs generalizing h with
  | nil => exact .refl h
  | cons r rs ih => exact (ahead_publish keys h r).trans (ih _)

/-! ### Wheel taps -/

/-- A code that is left pressed is owed its release, and will be retried. -/
def TapsTracked (keys : WheelKeys) (h : Host) : Prop :=
  ∀ idx, (h.tapKey idx).latched →
    (keys.hwheelAsKeys || keys.wheelAsKeys) = true ∧ (h.tapKey idx).owed

/-- No code is left pressed. -/
def TapsReleased (h : Host) : Prop := ∀ idx, (h.tapKey idx).latched = false

theorem TapsReleased.congr (hr : TapsReleased h) (hsame : SameTaps h h') : TapsReleased h' := by
  intro idx
  rw [hsame idx]
  exact hr idx

/-- Without the options no code is ever tapped. -/
theorem tapsTracked_hostAfter (keys : WheelKeys) (accepts : ℕ → Bool) (calls : List Call) :
    TapsTracked keys (hostAfter keys accepts calls) := by
  intro idx hlatched
  refine ⟨?_, covered_hostAfter keys accepts calls idx hlatched⟩
  by_contra hoff
  have hstill : (hostAfter keys accepts calls).tapKey idx = (Host.start accepts).tapKey idx := by
    clear hlatched
    induction calls using List.reverseRecOn with
    | nil => rfl
    | append_singleton calls c ih =>
      have hnot : ¬ c.Taps keys idx := by
        cases c with
        | publish r => exact fun htaps => hoff (Taps.keyed htaps)
        | reset => exact id
      rw [hostAfter_concat, (tapKey_run keys _ c idx).2 hnot, tapKey_flushKeyed, if_neg hoff, ih]
  rw [hstill, tapKey_start] at hlatched
  cases hlatched

/-- The retry of a code that is owed is one of those that the flush offers. -/
theorem retryAt_lt {idx : DpadIdx} (hkeyed : (keys.hwheelAsKeys || keys.wheelAsKeys) = true)
    (howes : h.owes idx = true) : retryAt h idx < (flushKeyed keys h).offered := by
  have hmem : idx ∈ dpadIdxs.dropWhile (· ≠ idx) := by cases idx <;> decide
  have hpos : 0 < ((dpadIdxs.dropWhile (· ≠ idx)).filter h.owes).length :=
    List.length_pos_of_mem (List.mem_filter.mpr ⟨hmem, howes⟩)
  have hsplit : pendingCount keys h = ((dpadIdxs.takeWhile (· ≠ idx)).filter h.owes).length +
      ((dpadIdxs.dropWhile (· ≠ idx)).filter h.owes).length := by
    rw [pendingCount, if_pos hkeyed, ← List.length_append, ← List.filter_append,
      List.takeWhile_append_dropWhile]
    rfl
  rw [flushKeyed_offered, retryAt]
  omega

/-- **A flush that is accepted releases every code.** -/
theorem tapsReleased_flushKeyed (htracked : TapsTracked keys h)
    (hall : AllAccepted h (flushKeyed keys h)) : TapsReleased (flushKeyed keys h) := by
  intro idx
  rw [tapKey_flushKeyed]
  by_cases hlatched : (h.tapKey idx).latched = true
  · obtain ⟨hkeyed, howed⟩ := htracked idx hlatched
    have hacc := hall (retryAt h idx) (Nat.le_add_right _ _) (retryAt_lt hkeyed howed)
    rw [if_pos hkeyed, TapKey.latched_retry, howed, hacc, Bool.and_true, Bool.not_true,
      Bool.and_false]
  · have hreleased : (h.tapKey idx).latched = false := Bool.not_eq_true _ ▸ hlatched
    split
    · rw [TapKey.latched_retry, hreleased, Bool.false_and]
    · exact hreleased

/-- A tap that is accepted leaves its code released. -/
theorem tapsReleased_tapBtn {idx : DpadIdx} (hr : TapsReleased h)
    (hall : AllAccepted h (tapBtn h idx)) : TapsReleased (tapBtn h idx) := by
  have hoffered := offered_tapBtn h idx
  have hpress : h.accepting = true :=
    hall h.offered le_rfl (by rw [hoffered]; split <;> omega)
  rw [hpress, if_pos rfl] at hoffered
  have hrelease : h.accepts (h.offered + 1) = true := hall _ (Nat.le_succ _) (by omega)
  intro idx'
  rw [tapKey_tapBtn, hpress, hrelease]
  split
  · simp [TapKey.tap, TapKey.latched]
  · exact hr idx'

theorem tapsReleased_elim_tapBtn {tap : Option DpadIdx} (hr : TapsReleased h)
    (hr' : TapsReleased h') (hall : AllAccepted h (tap.elim h' (tapBtn h))) :
    TapsReleased (tap.elim h' (tapBtn h)) := by
  cases tap with
  | none => exact hr'
  | some idx => exact tapsReleased_tapBtn hr hall

/-- **A publish that is accepted releases every code**, those that it taps as well. -/
theorem tapsReleased_publish {r : PointerReport} (htracked : TapsTracked keys h)
    (hall : AllAccepted h (bleHidHostPublish keys h r)) :
    TapsReleased (bleHidHostPublish keys h r) := by
  have hopen : Ahead (flushKeyed keys h) (bleHidHostPublish keys h r) :=
    ((offers_publishButtons _ r).1.ahead.trans (ahead_publishButtons keys h r)).trans
      (ahead_beforeWheels keys h r)
  have hflush := tapsReleased_flushKeyed htracked (hall.first hopen)
  have hbefore := hflush.congr (beforeWheels_spec keys h r).2.2
  -- the two wheels tap one code each at most
  have hwheels := hall.rest (((ahead_flushKeyed keys h).trans
    (offers_publishButtons _ r).1.ahead).trans (ahead_publishButtons keys h r))
  have hhwheel := hwheels.first (ahead_publishWheel keys r _)
  have hwheel := hwheels.rest (ahead_publishHwheel keys r _)
  have hhreleased : TapsReleased (publishHwheel keys r (beforeWheels keys h r)) := by
    rw [publishHwheel_eq] at hhwheel ⊢
    refine tapsReleased_elim_tapBtn hbefore ?_ hhwheel
    split
    · exact hbefore
    · exact hbefore.congr (sameTaps_reportDelta _ _ _)
  have hend : AllAccepted (publishHwheel keys r (beforeWheels keys h r))
      (publishWheel keys r (publishHwheel keys r (beforeWheels keys h r))) := hwheel
  show TapsReleased (publishWheel keys r (publishHwheel keys r (beforeWheels keys h r)))
  rw [publishWheel_eq] at hend ⊢
  exact (tapsReleased_elim_tapBtn hhreleased hhreleased
    (hend.first (offers_report _ _).ahead)).congr fun idx => tapKey_report_other _ rfl

/-! ### Buttons -/

/-- **A publish that is accepted** takes every button to its bit, and tells the host of the
buttons that it moves. -/
theorem button_publish {r : PointerReport} (hall : AllAccepted h (bleHidHostPublish keys h r))
    {i : ℕ} (hi : i < publishBtns) :
    (bleHidHostPublish keys h r).prevButtons.getLsbD i = r.buttons.getLsbD i ∧
      isPressed (bleHidHostPublish keys h r).events (.button i) =
        if r.buttons.getLsbD i ≠ h.prevButtons.getLsbD i then r.buttons.getLsbD i
        else isPressed h.events (.button i) := by
  have hflush := sameButtons_flushKeyed keys h
  have hrest := (sameButtons_reportDelta .x r.dx (publishButtons (flushKeyed keys h) r)).trans <|
    (sameButtons_reportDelta .y r.dy _).trans <| (sameButtons_publishHwheel keys r _).trans <|
    sameButtons_publishWheel keys r _
  have hbuttons : AllAccepted (flushKeyed keys h) (publishButtons (flushKeyed keys h) r) :=
    (hall.rest (ahead_flushKeyed keys h)).first
      ((ahead_publishButtons keys h r).trans (ahead_beforeWheels keys h r))
  have hprev : (bleHidHostPublish keys h r).prevButtons =
    (publishButtons (flushKeyed keys h) r).prevButtons := hrest.1
  have hpressed : isPressed (bleHidHostPublish keys h r).events (.button i) =
    isPressed (publishButtons (flushKeyed keys h) r).events (.button i) := hrest.2.2 i
  obtain ⟨-, hloop⟩ := publishButton_loop (flushKeyed keys h) r
    (r.buttons ^^^ (flushKeyed keys h).prevButtons) (n := publishBtns) (by decide) _ rfl
  obtain ⟨-, hgathered⟩ := offers_publishButton (flushKeyed keys h) r (n := publishBtns)
    (by decide) _ rfl
  -- the loop gathers the bits that changed, as all their edges are accepted
  rw [hprev, hpressed]
  refine ⟨(offers_publishButtons (flushKeyed keys h) r).2 hbuttons i hi, ?_⟩
  refine (hloop i).trans ?_
  rw [hgathered hbuttons i, hflush.1, hflush.2.2 i, decide_eq_true hi, Bool.true_and,
    BitVec.getLsbD_xor]
  simp only [ne_eq, bne_iff_ne]

/-- The device has told the host of the button what it believes. -/
def Told (h : Host) (i : ℕ) : Prop :=
  isPressed h.events (.button i) = h.prevButtons.getLsbD i

/-- A publish that is accepted tells the host of the buttons that it moves. -/
theorem told_publish_iff {r : PointerReport} (hall : AllAccepted h (bleHidHostPublish keys h r))
    {i : ℕ} (hi : i < publishBtns) : Told (bleHidHostPublish keys h r) i ↔
      Told h i ∨ r.buttons.getLsbD i ≠ h.prevButtons.getLsbD i := by
  obtain ⟨hprev, hpressed⟩ := button_publish hall hi
  unfold Told
  rw [hprev, hpressed]
  split
  · next hmoves => exact iff_of_true rfl (.inr hmoves)
  · next hstill =>
    rw [not_not.mp hstill]
    exact ⟨.inl, fun h => h.elim id fun hc => absurd rfl hc⟩

/-- **Reports that are accepted in full** leave a button as they say exactly when the host
had been told of it, or one of them moves it. -/
theorem told_publishAll_iff {rs : List PointerReport}
    (hall : AllAccepted h (publishAll keys h rs)) {i : ℕ} (hi : i < publishBtns) :
    Told (publishAll keys h rs) i ↔
      Told h i ∨ ∃ r ∈ rs, r.buttons.getLsbD i ≠ h.prevButtons.getLsbD i := by
  induction rs generalizing h with
  | nil => simp [publishAll]
  | cons r rs ih =>
    have hfirst := hall.first (ahead_publishAll keys rs (bleHidHostPublish keys h r))
    have hprev := (button_publish hfirst hi).1
    have hmore := ih (hall.rest (ahead_publish keys h r))
    have hcons : publishAll keys h (r :: rs) = publishAll keys (bleHidHostPublish keys h r) rs :=
      rfl
    rw [hcons, hmore, told_publish_iff hfirst hi, hprev, or_assoc]
    refine or_congr_right ⟨?_, ?_⟩
    · rintro (hmoves | ⟨r', hr', hmoves⟩)
      · exact ⟨r, List.mem_cons_self, hmoves⟩
      · -- either the first of the two reports moves the button, or the second does
        by_cases hfirst : r.buttons.getLsbD i = h.prevButtons.getLsbD i
        · exact ⟨r', List.mem_cons_of_mem _ hr', hfirst ▸ hmoves⟩
        · exact ⟨r, List.mem_cons_self, hfirst⟩
    · rintro ⟨r', hr', hmoves⟩
      rcases List.mem_cons.mp hr' with rfl | hr'
      · exact .inl hmoves
      · by_cases hfirst : r.buttons.getLsbD i = h.prevButtons.getLsbD i
        · exact .inr ⟨r', hr', hfirst ▸ hmoves⟩
        · exact .inl hfirst

/-- Behind any calls. -/
theorem tapsTracked_publishAll {accepts : ℕ → Bool} {calls : List Call}
    (rs : List PointerReport) :
    TapsTracked keys (publishAll keys (hostAfter keys accepts calls) rs) := by
  have hcalls : publishAll keys (hostAfter keys accepts calls) rs =
      hostAfter keys accepts (calls ++ rs.map .publish) := by
    rw [publishAll, hostAfter, hostAfter, List.foldl_append, List.foldl_map]
    rfl
  rw [hcalls]
  exact tapsTracked_hostAfter keys accepts _

/-- **What heals, and what does not.**  In any run, reports that the queue takes in full
leave no wheel tap pressed, and leave a button as the last of them says exactly when the host
had been told of the button before, or one of them moves it. -/
theorem healed_of_reachable {s : System} (hs : Reachable cfg P s) {rs : List PointerReport}
    {last : PointerReport} (hlast : rs.getLast? = some last)
    (hall : AllAccepted s.io.host (publishAll cfg.wheelKeys s.io.host rs)) :
    (∀ idx, ¬ isPressed (publishAll cfg.wheelKeys s.io.host rs).events (.dpad idx)) ∧
      ∀ i < publishBtns, isPressed (publishAll cfg.wheelKeys s.io.host rs).events (.button i) =
        last.buttons.getLsbD i ↔
          isPressed s.io.host.events (.button i) = s.io.host.prevButtons.getLsbD i ∨
          ∃ r ∈ rs, r.buttons.getLsbD i ≠ s.io.host.prevButtons.getLsbD i := by
  obtain ⟨accepts, calls, hhost, -⟩ := hostAfter_of_reachable hs
  obtain ⟨rs, rfl⟩ := List.getLast?_eq_some_iff.mp hlast
  have hsplit : publishAll cfg.wheelKeys s.io.host (rs ++ [last]) =
      bleHidHostPublish cfg.wheelKeys (publishAll cfg.wheelKeys s.io.host rs) last := by
    rw [publishAll, List.foldl_append]
    rfl
  have hfinal : AllAccepted (publishAll cfg.wheelKeys s.io.host rs)
      (bleHidHostPublish cfg.wheelKeys (publishAll cfg.wheelKeys s.io.host rs) last) := by
    rw [hsplit] at hall
    exact hall.rest (ahead_publishAll _ rs _)
  constructor
  · have htracked : TapsTracked cfg.wheelKeys (publishAll cfg.wheelKeys s.io.host rs) := by
      rw [hhost]
      exact tapsTracked_publishAll rs
    intro idx
    rw [hsplit, isPressed_eq_latched, tapsReleased_publish htracked hfinal idx]
    exact Bool.false_ne_true
  · intro i hi
    have htold := told_publishAll_iff hall hi
    unfold Told at htold
    rwa [hsplit, (button_publish hfinal hi).1, ← hsplit] at htold

/-- A Report Map with eight buttons, X and Y, and a wheel. -/
def clickMap : List U8 :=
  [0x05, 0x01, 0x09, 0x02, 0xa1, 0x01, 0x85, 0x01, 0x05, 0x09, 0x19, 0x01, 0x29, 0x08, 0x75, 0x01,
   0x95, 0x08, 0x81, 0x02, 0x05, 0x01, 0x09, 0x30, 0x09, 0x31, 0x09, 0x38, 0x15, 0x81, 0x75, 0x08,
   0x95, 0x03, 0x81, 0x06, 0xc0]

/-- A report with two buttons, motion and a tick of the wheel, and the end of the link. -/
def clickRun : List (Action Errno Event) :=
  (subscribeRun 1 1).replace (.event (.readResponse 0 false pointerMap))
      (.event (.readResponse 0 false clickMap)) ++
    notifiedTurn 0 [5, 3, 0, 1] ++ [.event .disconnected] ++ ticks 9

/-- The queue drops the release of the tap, and behind the disconnect its retry and the
release of the first button.  A report without buttons releases the tap; the button takes
one that presses it. -/
theorem clickRun_healed :
    ∃ s, Reachable ⟨none, ⟨false, true⟩, fun _ => reportTable [4], fun _ => []⟩ .any s ∧
      let still := publishAll ⟨false, true⟩ s.io.host [⟨0, 0, 0, 0, 0⟩]
      let clicked := publishAll ⟨false, true⟩ s.io.host [⟨0, 0, 0, 0, 1⟩, ⟨0, 0, 0, 0, 0⟩]
      isPressed s.io.host.events (.dpad .up) ∧ isPressed s.io.host.events (.button 0) ∧
      (¬ isPressed still.events (.dpad .up) ∧ isPressed still.events (.button 0)) ∧
      ¬ isPressed clicked.events (.dpad .up) ∧ ¬ isPressed clicked.events (.button 0) := by
  have hruns : (run (central ⟨none, ⟨false, true⟩, fun _ => reportTable [4], fun _ => []⟩).step
      clickRun (start [] 0 fun n => n != 4 && n != 6 && n != 7)).map (fun s => decide (
        isPressed s.io.host.events (.dpad .up) ∧ isPressed s.io.host.events (.button 0) ∧
        s.io.host.prevButtons = 0 ∧
        AllAccepted s.io.host (publishAll ⟨false, true⟩ s.io.host [⟨0, 0, 0, 0, 0⟩]) ∧
        AllAccepted s.io.host (publishAll ⟨false, true⟩ s.io.host
          [⟨0, 0, 0, 0, 1⟩, ⟨0, 0, 0, 0, 0⟩]))) = some true := by decide +kernel
  obtain ⟨s, hrun, heq⟩ := Option.map_eq_some_iff.mp hruns
  obtain ⟨hup, hbutton, hprev, hone, htwo⟩ := of_decide_eq_true heq
  have hs : Reachable ⟨none, ⟨false, true⟩, fun _ => reportTable [4], fun _ => []⟩ .any s :=
    reachable_any_of_run hrun
  obtain ⟨honetaps, honebuttons⟩ := healed_of_reachable hs rfl hone
  obtain ⟨htwotaps, htwobuttons⟩ := healed_of_reachable hs rfl htwo
  refine ⟨s, hs, hup, hbutton, ⟨honetaps .up, ?_⟩, htwotaps .up, ?_⟩
  · by_contra hreleased
    have hstill := (honebuttons 0 (by decide)).mp (eq_false_of_ne_true hreleased)
    rw [hbutton, hprev] at hstill
    exact absurd hstill (by decide)
  · rw [(htwobuttons 0 (by decide)).mpr (.inr (by rw [hprev]; decide))]
    decide

end BleHidHost
