import Mathlib.Algebra.BigOperators.Group.List.Basic
import BleHidHost.Updates

/-!
# Reports are merged, never torn

The input queue may drop any event, also the one that ends a report.  What the computer then
sees is less, and later: the motion of that report is handed on with that of the next.  But a
report's motion is never shared out: every update is made of the motion of whole reports that
follow one another, with axes missing, and the updates take up the reports in order.

## Main definitions

* `Part` — what the queue left of a report.
* `MadeOf` — motion that is made of reports.
* `Divided` — the reports are divided among the updates.

## Main results

* `divided_of_reachable` — **no report is torn**, in any run, whatever the queue drops.
-/

namespace BleHidHost

open Lib

variable {cfg : Setup} {P : Condition} {keys : WheelKeys} {h h' h'' : Host} {l : Listener}
  {r : PointerReport} {rs : List PointerReport}

/-! ### Motion -/

/-- Motion on each axis. -/
abbrev Motion := RelCode → ℤ

/-- The motion of an update. -/
def Update.motion (u : Update) : Motion
  | .x => u.dx
  | .y => u.dy
  | .hwheel => u.hwheel
  | .wheel => u.wheel

/-- Motion on one axis. -/
def along (code : RelCode) (value : ℤ) : Motion := fun c => if c = code then value else 0

theorem along_zero (code : RelCode) : along code 0 = 0 := funext fun _ => ite_self _

theorem motion_still (b : U8) : (Update.still b).motion = 0 := by
  funext code
  cases code <;> rfl

theorem motion_press (u : Update) (i : ℕ) (pressed : Bool) :
    (u.press i pressed).motion = u.motion := by
  funext code
  cases code <;> rfl

theorem motion_move (u : Update) (code : RelCode) (value : ℤ) :
    (u.move value code).motion = u.motion + along code value := by
  funext c
  cases code <;> cases c <;> simp [Update.move, Update.motion, along]

/-- What the queue left of a report: an axis is whole or missing. -/
def Part (keys : WheelKeys) (r : PointerReport) (p : Motion) : Prop :=
  ∀ code, p code = 0 ∨ p code = (r.update keys).motion code

/-- The motion is made of these reports, each of which is in it once. -/
def MadeOf (keys : WheelKeys) (rs : List PointerReport) (m : Motion) : Prop :=
  ∃ ps, List.Forall₂ (Part keys) rs ps ∧ m = ps.sum

theorem madeOf_nil : MadeOf keys [] 0 := ⟨[], .nil, rfl⟩

theorem MadeOf.concat {m p : Motion} (hmade : MadeOf keys rs m) (hpart : Part keys r p) :
    MadeOf keys (rs ++ [r]) (m + p) := by
  obtain ⟨ps, hps, rfl⟩ := hmade
  refine ⟨ps ++ [p], List.rel_append hps (.cons hpart .nil), ?_⟩
  rw [List.sum_append, List.sum_singleton]

/-- The reports are divided among the updates, and what is gathered. -/
def Divided (keys : WheelKeys) (rs : List PointerReport) (l : Listener) : Prop :=
  ∃ blocks rest, rs = blocks.flatten ++ rest ∧
    List.Forall₂ (fun block u => MadeOf keys block u.motion) blocks l.updates ∧
      MadeOf keys rest l.current.motion

/-- What is gathered may be handed on. -/
theorem Divided.handOn {u : Update} (hd : Divided keys rs ⟨u, l.updates⟩) (b : U8) :
    Divided keys rs ⟨.still b, l.updates ++ [u]⟩ := by
  obtain ⟨blocks, rest, rfl, hblocks, hrest⟩ := hd
  refine ⟨blocks ++ [rest], [], ?_, List.rel_append hblocks (.cons hrest .nil), ?_⟩
  · rw [List.flatten_append, List.flatten_singleton, List.append_nil]
  · rw [motion_still]
    exact madeOf_nil

/-- What is gathered may take up a report. -/
theorem Divided.takeUp {u : Update} {p : Motion} (hd : Divided keys rs l) (hpart : Part keys r p)
    (hu : u.motion = l.current.motion + p) : Divided keys (rs ++ [r]) ⟨u, l.updates⟩ := by
  obtain ⟨blocks, rest, rfl, hblocks, hrest⟩ := hd
  refine ⟨blocks, rest ++ [r], List.append_assoc _ _ _, hblocks, ?_⟩
  rw [hu]
  exact hrest.concat hpart

/-! ### What a call gathers -/

/-- This motion is gathered between the two states, and nothing is handed on. -/
def Gathers (h h' : Host) (p : Motion) : Prop :=
  (listen h'.events).updates = (listen h.events).updates ∧
    (listen h'.events).current.motion = (listen h.events).current.motion + p

theorem gathers_of_eq (heq : listen h'.events = listen h.events) : Gathers h h' 0 := by
  unfold Gathers
  rw [heq, add_zero]
  exact ⟨rfl, rfl⟩

theorem Gathers.trans {p p' : Motion} (hfirst : Gathers h h' p) (hrest : Gathers h' h'' p') :
    Gathers h h'' (p + p') :=
  ⟨hrest.1.trans hfirst.1, by rw [hrest.2, hfirst.2, add_assoc]⟩

theorem Quiet.gathers (hq : Quiet h h') : Gathers h h' 0 := by
  obtain ⟨b, hb⟩ := hq
  unfold Gathers
  rw [hb, add_zero]
  exact ⟨rfl, funext fun code => by cases code <;> rfl⟩

/-- Motion on an axis is gathered or dropped. -/
theorem gathers_reportDelta (code : RelCode) (value : ℤ) (h : Host) :
    ∃ v, (v = 0 ∨ v = value) ∧ Gathers h (reportDelta code value h) (along code v) := by
  unfold reportDelta
  split
  · by_cases hacc : h.accepting
    · refine ⟨value, Or.inr rfl, ?_⟩
      unfold Gathers
      rw [listen_report, if_pos hacc]
      exact ⟨rfl, motion_move _ code value⟩
    · refine ⟨0, Or.inl rfl, ?_⟩
      rw [along_zero]
      exact gathers_of_eq (by rw [listen_report, if_neg hacc])
  · refine ⟨0, Or.inl rfl, ?_⟩
    rw [along_zero]
    exact gathers_of_eq rfl

theorem gathers_publishHwheel (keys : WheelKeys) (r : PointerReport) (h : Host) :
    ∃ v, (v = 0 ∨ v = (r.update keys).hwheel) ∧
      Gathers h (publishHwheel keys r h) (along .hwheel v) := by
  unfold publishHwheel PointerReport.update
  split
  · refine ⟨0, Or.inl rfl, ?_⟩
    rw [along_zero]
    split
    · exact gathers_of_eq (tapBlind_listen.tapBtn h .left)
    · split
      · exact gathers_of_eq (tapBlind_listen.tapBtn h .right)
      · exact gathers_of_eq rfl
  · exact gathers_reportDelta .hwheel r.hwheel h

/-- A publish up to its terminator gathers part of the report. -/
theorem gathers_beforeWheel (keys : WheelKeys) (h : Host) (r : PointerReport) :
    ∃ p, Gathers h (publishHwheel keys r (beforeWheels keys h r)) p ∧
      p .wheel = 0 ∧ Part keys r p := by
  have hopen : Gathers h (publishButtons (flushKeyed keys h) r) (0 + 0) :=
    (gathers_of_eq (tapBlind_listen.flushKeyed keys h)).trans (quiet_publishButtons _ r).gathers
  obtain ⟨x, hx, hgx⟩ := gathers_reportDelta .x r.dx (publishButtons (flushKeyed keys h) r)
  obtain ⟨y, hy, hgy⟩ := gathers_reportDelta .y r.dy
    (reportDelta .x r.dx (publishButtons (flushKeyed keys h) r))
  obtain ⟨z, hz, hgz⟩ := gathers_publishHwheel keys r (beforeWheels keys h r)
  refine ⟨_, ((hopen.trans hgx).trans hgy).trans hgz, by simp [along], ?_⟩
  intro code
  cases code with
  | x => simpa [along, Update.motion, PointerReport.update] using hx
  | y => simpa [along, Update.motion, PointerReport.update] using hy
  | hwheel => simpa [along, Update.motion] using hz
  | wheel => exact Or.inl (by simp [along])

/-- **A publish** takes up its report as a whole. -/
theorem divided_publish (hd : Divided keys rs (listen h.events)) :
    Divided keys (rs ++ [r]) (listen (bleHidHostPublish keys h r).events) := by
  obtain ⟨p, ⟨hupdates, hmotion⟩, hwheel, hpart⟩ := gathers_beforeWheel keys h r
  have hpublish : bleHidHostPublish keys h r =
      publishWheel keys r (publishHwheel keys r (beforeWheels keys h r)) := rfl
  rw [hpublish]
  generalize publishHwheel keys r (beforeWheels keys h r) = h₁ at hupdates hmotion
  rw [publishWheel_eq, listen_report, listen_elim_tapBtn]
  split
  · -- the terminator brings the last axis, and hands the report on
    have htaken : Divided keys (rs ++ [r])
        ⟨(listen h₁.events).current.move (r.update keys).wheel .wheel,
          (listen h.events).updates⟩ := by
      refine hd.takeUp (p := p + along .wheel (r.update keys).wheel) ?_ ?_
      · intro code
        cases code with
        | x => simpa [along] using hpart .x
        | y => simpa [along] using hpart .y
        | hwheel => simpa [along] using hpart .hwheel
        | wheel =>
          right
          simp [along, hwheel, Update.motion]
      · rw [motion_move, hmotion, add_assoc]
    rw [← hupdates] at htaken
    exact htaken.handOn _
  · -- it is dropped, and the report waits for the next
    have htaken := hd.takeUp hpart hmotion
    rwa [← hupdates] at htaken

/-! ### Runs -/

/-- The edge of a button moves nothing, and hands on where it is marked. -/
theorem divided_button (hd : Divided keys rs (listen h.events)) (i : ℕ) (pressed sync : Bool) :
    Divided keys rs (listen (h.report (.key (.button i) pressed sync)).events) := by
  have hpressed : Divided keys rs
      ⟨(listen h.events).current.press i pressed, (listen h.events).updates⟩ := by
    obtain ⟨blocks, rest, hrs, hblocks, hrest⟩ := hd
    exact ⟨blocks, rest, hrs, hblocks, (motion_press _ i pressed).symm ▸ hrest⟩
  rw [listen_report]
  split
  · cases sync with
    | true => exact hpressed.handOn _
    | false => exact hpressed
  · exact hd

/-- A reset takes up no report. -/
theorem divided_reset (hd : Divided keys rs (listen h.events)) :
    Divided keys rs (listen (bleHidHostReset keys h).events) := by
  rw [← tapBlind_listen.flushKeyed keys h] at hd
  by_cases hzero : h.prevButtons = 0
  · rwa [bleHidHostReset_of_eq hzero]
  · rw [bleHidHostReset_of_ne hzero]
    show Divided keys rs (listen ((List.range publishBtns).foldl (releaseButton h.prevButtons)
      (flushKeyed keys h)).events)
    generalize flushKeyed keys h = h₀ at hd
    induction List.range publishBtns generalizing h₀ with
    | nil => exact hd
    | cons i is ih =>
      refine ih _ ?_
      unfold releaseButton
      split
      · exact divided_button hd i false _
      · exact hd

/-- The reports of a sequence of calls are divided among the updates. -/
theorem divided_hostAfter (keys : WheelKeys) (accepts : ℕ → Bool) (calls : List Call) :
    Divided keys (calls.filterMap Call.report?) (listen (hostAfter keys accepts calls).events) := by
  induction calls using List.reverseRecOn with
  | nil => exact ⟨[], [], rfl, .nil, (motion_still 0).symm ▸ madeOf_nil⟩
  | append_singleton calls c ih =>
    rw [hostAfter_concat, List.filterMap_append]
    cases c with
    | publish r => exact divided_publish ih
    | reset =>
      have hnone : [Call.reset].filterMap Call.report? = [] := rfl
      rw [hnone, List.append_nil]
      exact divided_reset ih

/-- **No report is torn**, in any run, whatever the input queue drops: the reports that were
published are divided, in their order, among the updates that were handed on and what is still
gathered, and the motion of each is made of its reports, an axis of a report being whole or
missing. -/
theorem divided_of_reachable {s : System} (hs : Reachable cfg P s) :
    Divided cfg.wheelKeys (hostReports s.io) (listen s.io.host.events) := by
  obtain ⟨accepts, calls, hhost, hreports⟩ := hostAfter_of_reachable hs
  rw [hhost, ← hreports]
  exact divided_hostAfter cfg.wheelKeys accepts calls

/-- The end of the first report is dropped, with its vertical motion: what is left of it is
handed on with the second. -/
theorem divided_of_lossy_traffic :
    ∃ s, Reachable (.plain (reportTable [4])) .any s ∧
      (hostReports s.io).map (PointerReport.update wheelsOff) =
        [⟨3, 4, 0, 0, 0⟩, ⟨5, 6, 0, 0, 0⟩] ∧
      listen s.io.host.events = ⟨.still 0, [⟨8, 6, 0, 0, 0⟩]⟩ ∧
      Divided wheelsOff (hostReports s.io) (listen s.io.host.events) := by
  have hruns : (run (central (.plain (reportTable [4]))).step
      (subscribeRun 1 1 ++ notifiedTurn 0 [3, 4] ++ notifiedTurn 0 [5, 6])
      (start [] 0 fun n => n != 1 && n != 2)).map (fun s => decide (
        (hostReports s.io).map (PointerReport.update wheelsOff) =
          [⟨3, 4, 0, 0, 0⟩, ⟨5, 6, 0, 0, 0⟩] ∧
        listen s.io.host.events = ⟨.still 0, [⟨8, 6, 0, 0, 0⟩]⟩)) = some true := by decide +kernel
  obtain ⟨s, hrun, heq⟩ := Option.map_eq_some_iff.mp hruns
  obtain ⟨hreports, hlisten⟩ := of_decide_eq_true heq
  have hs : Reachable (.plain (reportTable [4])) .any s :=
    reachable_any_of_run hrun
  exact ⟨s, hs, hreports, hlisten, divided_of_reachable hs⟩

end BleHidHost
