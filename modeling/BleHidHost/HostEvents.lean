import BleHidHost.ButtonState
import Mathlib.Algebra.BigOperators.Group.List.Basic
import Mathlib.Algebra.Ring.Int.Defs
import Mathlib.Data.List.Forall2

/-!
# The events of a report

What a published report offers to the input queue in the build without wheel taps:
its button edges, its motion without zero deltas, and last the vertical wheel with
the sync flag.

## Main definitions

* `reportEvents` — the events of a report, given the buttons held before.
* `Offers` — the events offered between two states of the device.
* `Contributes` — what a report's events add up to.

## Main results

* `offers_publish` — **a publish offers the report's events.**
* `offers_publishAll` — what a sequence of reports contributes.
* `isPressed_publishAll` — the buttons held behind a sequence of reports.
-/

namespace BleHidHost

/-! ### Events -/

/-- The event's sync flag. -/
def InputEvent.sync : InputEvent → Bool
  | .key _ _ sync => sync
  | .rel _ _ sync => sync

/-- The event's value on this axis. -/
def InputEvent.value (code : RelCode) : InputEvent → ℤ
  | .key _ _ _ => 0
  | .rel c v _ => if c = code then v else 0

/-- The sum of the events of this axis. -/
def relSum (code : RelCode) (es : List InputEvent) : ℤ := (es.map (InputEvent.value code)).sum

/-- The decoded delta that goes to this axis. -/
def PointerReport.delta (r : PointerReport) : RelCode → ℤ
  | .x => r.dx
  | .y => r.dy
  | .hwheel => r.hwheel
  | .wheel => r.wheel

theorem relSum_append (code : RelCode) (es es' : List InputEvent) :
    relSum code (es ++ es') = relSum code es + relSum code es' := by
  rw [relSum, List.map_append, List.sum_append]
  rfl

/-- The edge of a button, if it changed. -/
def buttonEdge (prev : U32) (r : PointerReport) (i : ℕ) : Option InputEvent :=
  if (r.buttons ^^^ prev).getLsbD i then some (.key (.button i) (r.buttons.getLsbD i) false)
  else none

/-- The edges of the first `n` buttons. -/
def buttonEdges (prev : U32) (r : PointerReport) (n : ℕ) : List InputEvent :=
  (List.range n).filterMap (buttonEdge prev r)

/-- Motion on an axis, if any. -/
def deltaEvents (code : RelCode) (value : ℤ) : List InputEvent :=
  if value ≠ 0 then [.rel code value false] else []

/-- The events of a report before the one that ends it. -/
def openEvents (prev : U32) (r : PointerReport) : List InputEvent :=
  buttonEdges prev r publishBtns ++ deltaEvents .x r.dx ++ deltaEvents .y r.dy ++
    deltaEvents .hwheel r.hwheel

/-- The events of a report, given the buttons held before. -/
def reportEvents (prev : U32) (r : PointerReport) : List InputEvent :=
  openEvents prev r ++ [.rel .wheel r.wheel true]

/-- The events carry the report's deltas, and the last of them alone is a sync event. -/
structure Contributes (r : PointerReport) (es : List InputEvent) : Prop where
  ends : ∃ opening last, es = opening ++ [last] ∧ last.sync ∧ ∀ ev ∈ opening, ¬ ev.sync
  sums : ∀ code, relSum code es = r.delta code

theorem mem_buttonEdges {prev : U32} {r : PointerReport} {n : ℕ} {ev : InputEvent}
    (h : ev ∈ buttonEdges prev r n) : ∃ i pressed, ev = .key (.button i) pressed false := by
  obtain ⟨i, -, hi⟩ := List.mem_filterMap.mp h
  obtain ⟨-, hev⟩ := Option.ite_none_right_eq_some.mp hi
  exact ⟨i, _, (Option.some_inj.mp hev).symm⟩

theorem sync_deltaEvents {code : RelCode} {value : ℤ} {ev : InputEvent}
    (h : ev ∈ deltaEvents code value) : ¬ ev.sync := by
  unfold deltaEvents at h
  split at h
  · rw [List.mem_singleton.mp h]
    exact Bool.false_ne_true
  · cases h

theorem relSum_buttonEdges (code : RelCode) (prev : U32) (r : PointerReport) (n : ℕ) :
    relSum code (buttonEdges prev r n) = 0 := by
  apply List.sum_eq_zero
  intro v hv
  obtain ⟨ev, hev, rfl⟩ := List.mem_map.mp hv
  obtain ⟨i, pressed, rfl⟩ := mem_buttonEdges hev
  rfl

theorem relSum_deltaEvents (code code' : RelCode) (value : ℤ) :
    relSum code (deltaEvents code' value) = if code' = code then value else 0 := by
  unfold deltaEvents
  split
  · simp [relSum, InputEvent.value]
  · next h =>
    rw [not_not.mp h, ite_self]
    rfl

theorem contributes_reportEvents (prev : U32) (r : PointerReport) :
    Contributes r (reportEvents prev r) where
  ends := by
    refine ⟨openEvents prev r, .rel .wheel r.wheel true, rfl, rfl, ?_⟩
    intro ev hev
    simp only [openEvents, List.mem_append] at hev
    rcases hev with ((hev | hev) | hev) | hev
    · obtain ⟨i, pressed, rfl⟩ := mem_buttonEdges hev
      exact Bool.false_ne_true
    · exact sync_deltaEvents hev
    · exact sync_deltaEvents hev
    · exact sync_deltaEvents hev
  sums code := by
    simp only [reportEvents, openEvents, relSum_append, relSum_buttonEdges, relSum_deltaEvents]
    cases code <;> simp [relSum, InputEvent.value, PointerReport.delta]

/-! ### What is offered -/

/-- The queue accepts all that is offered between the two states. -/
def AllAccepted (h h' : Host) : Prop := ∀ n, h.offered ≤ n → n < h'.offered → h.accepts n

/-- These events are offered between the two states, and told to the host where all are
accepted. -/
structure Offers (h h' : Host) (es : List InputEvent) : Prop where
  accepts_eq : h'.accepts = h.accepts
  offered_eq : h'.offered = h.offered + es.length
  events_eq : AllAccepted h h' → h'.events = h.events ++ es

variable {h h' h'' : Host} {es es' : List InputEvent}

theorem Offers.refl (h : Host) : Offers h h [] := ⟨rfl, rfl, fun _ => (List.append_nil _).symm⟩

/-- What is accepted in all is accepted in part. -/
theorem AllAccepted.left (hall : AllAccepted h h'') (hrest : Offers h' h'' es') :
    AllAccepted h h' := by
  intro n hn hlt
  have hle : h''.offered = h'.offered + es'.length := hrest.offered_eq
  exact hall n hn (by omega)

theorem AllAccepted.right (hall : AllAccepted h h'') (hfirst : Offers h h' es) :
    AllAccepted h' h'' := by
  intro n hn hlt
  have hle : h'.offered = h.offered + es.length := hfirst.offered_eq
  rw [hfirst.accepts_eq]
  exact hall n (by omega) hlt

theorem Offers.trans (hfirst : Offers h h' es) (hrest : Offers h' h'' es') :
    Offers h h'' (es ++ es') where
  accepts_eq := hrest.accepts_eq.trans hfirst.accepts_eq
  offered_eq := by
    rw [hrest.offered_eq, hfirst.offered_eq, List.length_append, Nat.add_assoc]
  events_eq hall := by
    rw [hrest.events_eq (hall.right hfirst), hfirst.events_eq (hall.left hrest), List.append_assoc]

theorem offers_report (h : Host) (ev : InputEvent) : Offers h (h.report ev) [ev] where
  accepts_eq := rfl
  offered_eq := rfl
  events_eq hall := if_pos (hall h.offered le_rfl (Nat.lt_succ_self _))

theorem offers_reportDelta (code : RelCode) (value : ℤ) (h : Host) :
    Offers h (reportDelta code value h) (deltaEvents code value) := by
  unfold reportDelta deltaEvents
  split
  · exact offers_report h _
  · exact .refl h

/-- The button loop offers the edges, and gathers all of them where all are accepted. -/
theorem offers_publishButton (h : Host) (r : PointerReport) {n : ℕ} (hn : n ≤ 32) :
    ∀ s, s = (List.range n).foldl (publishButton r (r.buttons ^^^ h.prevButtons)) (h, 0) →
      Offers h s.1 (buttonEdges h.prevButtons r n) ∧
        (AllAccepted h s.1 →
          ∀ i, s.2.getLsbD i = (decide (i < n) && (r.buttons ^^^ h.prevButtons).getLsbD i)) := by
  induction n with
  | zero =>
    rintro s rfl
    exact ⟨.refl h, fun _ i => by simp⟩
  | succ n ih =>
    rintro s rfl
    obtain ⟨hoffers, hgathered⟩ := ih (by omega) _ rfl
    rw [buttonEdges, List.range_succ, List.foldl_append, List.foldl_cons, List.foldl_nil,
      List.filterMap_append]
    generalize (List.range n).foldl (publishButton r (r.buttons ^^^ h.prevButtons)) (h, 0) = s
      at hoffers hgathered
    have hbit := and_shiftLeft_one_ne_zero (r.buttons ^^^ h.prevButtons) (show n < 32 by omega)
    have hstep (i : ℕ) : decide (i < n + 1) = (decide (i < n) || decide (i = n)) := by
      rw [← Bool.decide_or, decide_eq_decide]
      omega
    unfold publishButton
    split
    · next hc =>
      -- button `n` changed: one more event, and one more bit where it is accepted
      have hedge : [n].filterMap (buttonEdge h.prevButtons r) =
          [.key (.button n) (r.buttons.getLsbD n) false] := by
        rw [List.filterMap_cons, buttonEdge, if_pos (hbit.mp hc)]
        rfl
      rw [hedge]
      have hnext := offers_report s.1 (.key (.button n) (r.buttons.getLsbD n) false)
      refine ⟨hoffers.trans hnext, ?_⟩
      intro hall i
      have hacc : s.1.accepting := (hall.right hoffers) s.1.offered le_rfl (Nat.lt_succ_self _)
      rw [getLsbD_or_shift _ (show n < 32 by omega), hgathered (hall.left hnext), hacc, hstep]
      by_cases hin : i = n
      · rw [hin, hbit.mp hc]
        simp
      · simp [hin]
    · next hc =>
      have hedge : [n].filterMap (buttonEdge h.prevButtons r) = [] := by
        rw [List.filterMap_cons, buttonEdge, if_neg (mt hbit.mpr hc)]
        rfl
      rw [hedge, List.append_nil]
      refine ⟨hoffers, ?_⟩
      intro hall i
      rw [hgathered hall, hstep]
      by_cases hin : i = n
      · have hclear : (r.buttons ^^^ h.prevButtons).getLsbD n = false :=
          (Bool.not_eq_true _).mp (mt hbit.mpr hc)
        rw [hin, hclear, Bool.and_false, Bool.and_false]
      · simp [hin]

/-- The button edges of a report, behind which its low bits are held. -/
theorem offers_publishButtons (h : Host) (r : PointerReport) :
    Offers h (publishButtons h r) (buttonEdges h.prevButtons r publishBtns) ∧
      (AllAccepted h (publishButtons h r) → ∀ i < publishBtns,
        (publishButtons h r).prevButtons.getLsbD i = r.buttons.getLsbD i) := by
  obtain ⟨hoffers, hgathered⟩ := offers_publishButton h r (n := publishBtns) (by decide) _ rfl
  refine ⟨⟨hoffers.accepts_eq, hoffers.offered_eq, hoffers.events_eq⟩, ?_⟩
  intro hall i hi
  -- a changed bit takes the report's value, an unchanged one has it already
  have hbit := hgathered hall i
  have h32 : i < 32 := Nat.lt_trans hi (by decide)
  simp only [publishButtons, BitVec.getLsbD_or, BitVec.getLsbD_and, BitVec.getLsbD_not, hbit, hi,
    h32, decide_true, Bool.true_and, BitVec.getLsbD_xor]
  cases r.buttons.getLsbD i <;> cases h.prevButtons.getLsbD i <;> rfl

/-! ### Publishing -/

/-- The build with both wheel-as-keys options off. -/
def wheelsOff : WheelKeys := ⟨false, false⟩

/-- **A publish offers the report's events.** -/
theorem offers_publish (h : Host) (r : PointerReport) :
    Offers h (bleHidHostPublish wheelsOff h r) (reportEvents h.prevButtons r) :=
  (((((offers_publishButtons h r).1.trans (offers_reportDelta .x r.dx _)).trans
    (offers_reportDelta .y r.dy _)).trans (offers_reportDelta .hwheel r.hwheel _)).trans
      (offers_report _ _))

/-- The low bits of the report are held behind it. -/
theorem prevButtons_publish {h : Host} {r : PointerReport}
    (hall : AllAccepted h (bleHidHostPublish wheelsOff h r)) {i : ℕ} (hi : i < publishBtns) :
    (bleHidHostPublish wheelsOff h r).prevButtons.getLsbD i = r.buttons.getLsbD i := by
  have hrest := (((offers_reportDelta .x r.dx (publishButtons h r)).trans
    (offers_reportDelta .y r.dy _)).trans (offers_reportDelta .hwheel r.hwheel _)).trans
      (offers_report _ (.rel .wheel r.wheel true))
  have hsame := (sameButtons_reportDelta .x r.dx (publishButtons h r)).trans <|
    (sameButtons_reportDelta .y r.dy _).trans <| (sameButtons_publishHwheel wheelsOff r _).trans <|
    sameButtons_publishWheel wheelsOff r _
  have hprev : (bleHidHostPublish wheelsOff h r).prevButtons = (publishButtons h r).prevButtons :=
    hsame.1
  rw [hprev]
  exact (offers_publishButtons h r).2 (hall.left hrest) i hi

/-- The device behind a sequence of reports. -/
def publishAll (cfg : WheelKeys) (h : Host) (rs : List PointerReport) : Host :=
  rs.foldl (bleHidHostPublish cfg) h

/-- **A sequence of reports** offers, report by report, events that carry its deltas and
end in its sync event. -/
theorem offers_publishAll (h : Host) (rs : List PointerReport) :
    ∃ blocks, Offers h (publishAll wheelsOff h rs) blocks.flatten ∧
      List.Forall₂ Contributes rs blocks := by
  induction rs generalizing h with
  | nil => exact ⟨[], .refl h, .nil⟩
  | cons r rs ih =>
    obtain ⟨blocks, hoffers, hblocks⟩ := ih (bleHidHostPublish wheelsOff h r)
    refine ⟨reportEvents h.prevButtons r :: blocks, ?_, ?_⟩
    · exact (offers_publish h r).trans hoffers
    · exact .cons (contributes_reportEvents _ r) hblocks

/-- The sums of what a sequence of reports contributes. -/
theorem relSum_flatten {rs : List PointerReport} {blocks : List (List InputEvent)}
    (h : List.Forall₂ Contributes rs blocks) (code : RelCode) :
    relSum code blocks.flatten = (rs.map (PointerReport.delta · code)).sum := by
  induction h with
  | nil => rfl
  | cons hr _ ih =>
    rw [List.flatten_cons, relSum_append, hr.sums, ih, List.map_cons, List.sum_cons]

theorem inSync_publishAll (cfg : WheelKeys) {h : Host} (rs : List PointerReport)
    (hsync : InSync h) : InSync (publishAll cfg h rs) := by
  induction rs generalizing h with
  | nil => exact hsync
  | cons r rs ih => exact ih (inSync_publish cfg r hsync)

/-- **The buttons held** behind a sequence of reports are those of the last. -/
theorem isPressed_publishAll {h : Host} (hsync : InSync h) {rs : List PointerReport}
    (hall : AllAccepted h (publishAll wheelsOff h rs)) {r : PointerReport}
    (hr : rs.getLast? = some r) {i : ℕ} (hi : i < publishBtns) :
    isPressed (publishAll wheelsOff h rs).events (.button i) = r.buttons.getLsbD i := by
  obtain ⟨rs, rfl⟩ := List.getLast?_eq_some_iff.mp hr
  have hlast : publishAll wheelsOff h (rs ++ [r]) =
      bleHidHostPublish wheelsOff (publishAll wheelsOff h rs) r := by
    rw [publishAll, List.foldl_append]
    rfl
  obtain ⟨blocks, hoffers, -⟩ := offers_publishAll h rs
  -- what the module believes held is what the host was told
  have hheld := inSync_publishAll wheelsOff (rs ++ [r]) hsync i
  rw [hlast] at hall hheld ⊢
  rw [prevButtons_publish (hall.right hoffers) hi, decide_eq_true hi, Bool.true_and] at hheld
  exact hheld.symm

end BleHidHost
