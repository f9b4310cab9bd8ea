import BleHidHost.HostEvents
import BleHidHost.Lib.LossyTap
import Mathlib.Data.List.Induction

/-!
# Wheel taps

With a wheel-as-keys option a wheel tick is a tap of a DPAD code.  The device is,
code by code, a key tapped through a lossy queue: a call retries what the code is
owed, and a publish may then tap it.  So no code stays pressed without its pending
bit.  A tap does not look at that bit, though: the queue may drop the retry and
then accept the press of a tap in the same publish.

## Main definitions

* `Host.tapKey` — a DPAD code as a tapped key.
* `retryAt`, `tapAt` — where in the queue a code's retry and its tap stand.
* `PressesOwed` — a publish presses a code whose release was just dropped again.

## Main results

* `tapKey_publish`, `tapKey_reset` — **the device behaves on every code as a tapped
  key.**
* `pending_of_isPressed` — a code left pressed has its pending bit set.
* `alternates_calls_iff` — the events of the codes alternate exactly when no publish
  presses an owed code.
-/

namespace BleHidHost

open Lib

/-! ### A code as a tapped key -/

/-- The pending bit of a code. -/
def Host.owes (h : Host) (idx : DpadIdx) : Bool := h.pendingDpadRelease &&& idx.mask ≠ 0

/-- What an event tells of a code: whether it is pressed. -/
def dpadEdge (idx : DpadIdx) : InputEvent → Option Bool
  | .key code pressed _ => if code = .dpad idx then some pressed else none
  | .rel _ _ _ => none

/-- The presses (`true`) and releases of a code. -/
def dpadEdges (events : List InputEvent) (idx : DpadIdx) : List Bool :=
  events.filterMap (dpadEdge idx)

/-- A code of the device: the accepted edges, and whether its release is pending. -/
def Host.tapKey (h : Host) (idx : DpadIdx) : TapKey := ⟨dpadEdges h.events idx, h.owes idx⟩

theorem Host.tapKey_eq {h : Host} {idx : DpadIdx} {k : TapKey}
    (hedges : dpadEdges h.events idx = k.edges) (howes : h.owes idx = k.owed) :
    h.tapKey idx = k := by
  simp only [Host.tapKey, hedges, howes]

theorem dpadEdges_concat (events : List InputEvent) (ev : InputEvent) (idx : DpadIdx) :
    dpadEdges (events ++ [ev]) idx = dpadEdges events idx ++ (dpadEdge idx ev).toList := by
  simp only [dpadEdges, List.filterMap_append, List.filterMap_cons]
  cases dpadEdge idx ev <;> rfl

/-- The code is pressed when its latest edge is a press. -/
theorem isPressed_eq_latched (h : Host) (idx : DpadIdx) :
    isPressed h.events (.dpad idx) = (h.tapKey idx).latched := by
  unfold Host.tapKey TapKey.latched
  induction h.events using List.reverseRecOn with
  | nil => rfl
  | append_singleton events ev ih =>
    rw [isPressed_concat, dpadEdges_concat, ih]
    cases ev with
    | key code pressed sync =>
      by_cases hc : code = .dpad idx
      · simp [pressedStep, dpadEdge, hc]
      · simp [pressedStep, dpadEdge, hc]
    | rel code value sync => simp [pressedStep, dpadEdge]

/-- An event of another key or axis leaves the code alone. -/
theorem tapKey_report_other (h : Host) {ev : InputEvent} {idx : DpadIdx}
    (hev : dpadEdge idx ev = none) : (h.report ev).tapKey idx = h.tapKey idx := by
  unfold Host.tapKey Host.report
  split
  · rw [dpadEdges_concat, hev, Option.toList_none, List.append_nil]
    rfl
  · rfl

/-- An edge of the code, where the queue accepts it. -/
theorem dpadEdges_report (h : Host) (idx : DpadIdx) (pressed sync : Bool) :
    dpadEdges (h.report (.key (.dpad idx) pressed sync)).events idx =
      dpadEdges h.events idx ++ if h.accepting then [pressed] else [] := by
  unfold Host.report
  split
  · simp [dpadEdges_concat, dpadEdge]
  · simp

@[simp] theorem Host.report_owes (h : Host) (ev : InputEvent) (idx : DpadIdx) :
    (h.report ev).owes idx = h.owes idx := rfl

@[simp] theorem Host.report_accepting (h : Host) (ev : InputEvent) :
    (h.report ev).accepting = h.accepts (h.offered + 1) := rfl

theorem dpadEdge_other {idx idx' : DpadIdx} (hne : idx' ≠ idx) (pressed sync : Bool) :
    dpadEdge idx' (.key (.dpad idx) pressed sync) = none :=
  if_neg fun he => hne (KeyCode.dpad.inj he).symm

/-- The value of an enumerator, which is the place of its bit in the mask. -/
def DpadIdx.place : DpadIdx → ℕ
  | .left => 0
  | .right => 1
  | .up => 2
  | .down => 3

theorem getLsbD_mask (idx idx' : DpadIdx) :
    idx.mask.getLsbD idx'.place = decide (idx' = idx) := by
  cases idx <;> cases idx' <;> rfl

/-- A test of the mask is a test of one bit. -/
theorem and_mask_ne_zero (x : U8) (idx : DpadIdx) :
    decide (x &&& idx.mask ≠ 0) = x.getLsbD idx.place := by
  have hmask : idx.mask = BitVec.twoPow 8 idx.place := by cases idx <;> rfl
  have hself : idx.mask ≠ 0 := by cases idx <;> decide
  rw [hmask, BitVec.and_twoPow, ← hmask]
  cases x.getLsbD idx.place with
  | false => exact decide_eq_false fun hne => hne rfl
  | true => exact decide_eq_true hself

/-- A device that has reported nothing yet has pressed no code and owes no release. -/
theorem tapKey_start (accepts : ℕ → Bool) (idx : DpadIdx) :
    (Host.start accepts).tapKey idx = ⟨[], false⟩ :=
  Host.tapKey_eq rfl ((and_mask_ne_zero 0 idx).trans BitVec.getLsbD_zero)

/-- A tap sets no pending bit but that of its code. -/
theorem or_mask_and_mask (x : U8) (idx idx' : DpadIdx) :
    decide ((x ||| idx.mask) &&& idx'.mask ≠ 0) =
      (decide (x &&& idx'.mask ≠ 0) || decide (idx' = idx)) := by
  rw [and_mask_ne_zero, and_mask_ne_zero, BitVec.getLsbD_or, getLsbD_mask]

/-- A retry clears no pending bit but that of its code. -/
theorem and_not_mask_and_mask (x : U8) (idx idx' : DpadIdx) :
    decide (x &&& ~~~idx.mask &&& idx'.mask ≠ 0) =
      (decide (x &&& idx'.mask ≠ 0) && decide (idx' ≠ idx)) := by
  have hplace : idx'.place < 8 := by cases idx' <;> decide
  rw [and_mask_ne_zero, and_mask_ne_zero, BitVec.getLsbD_and, BitVec.getLsbD_not, getLsbD_mask,
    decide_eq_true hplace, Bool.true_and, decide_not]

/-- The pending bits behind a dropped release. -/
theorem owes_set (h : Host) (idx idx' : DpadIdx) :
    Host.owes { h with pendingDpadRelease := h.pendingDpadRelease ||| idx.mask } idx' =
      (h.owes idx' || decide (idx' = idx)) :=
  or_mask_and_mask _ _ _

/-- The pending bits behind an accepted retry. -/
theorem owes_clear (h : Host) (idx idx' : DpadIdx) :
    Host.owes { h with pendingDpadRelease := h.pendingDpadRelease &&& ~~~idx.mask } idx' =
      (h.owes idx' && decide (idx' ≠ idx)) :=
  and_not_mask_and_mask _ _ _

/-- The state behind the two offers of a tap. -/
def bothOffered (h : Host) (idx : DpadIdx) : Host :=
  (h.report (.key (.dpad idx) true false)).report (.key (.dpad idx) false false)

/-- The three ways a tap can end. -/
theorem tapBtn_cases (h : Host) (idx : DpadIdx) :
    (h.accepting = false ∧ tapBtn h idx = h.report (.key (.dpad idx) true false)) ∨
    (h.accepting = true ∧ h.accepts (h.offered + 1) = false ∧ tapBtn h idx =
      { bothOffered h idx with
        pendingDpadRelease := (bothOffered h idx).pendingDpadRelease ||| idx.mask }) ∨
    (h.accepting = true ∧ h.accepts (h.offered + 1) = true ∧ tapBtn h idx = bothOffered h idx) := by
  have hnext : (h.report (.key (.dpad idx) true false)).accepting = h.accepts (h.offered + 1) := rfl
  unfold tapBtn
  simp only [hnext]
  cases h.accepting with
  | false => exact .inl ⟨rfl, rfl⟩
  | true =>
    cases h.accepts (h.offered + 1) with
    | false => exact .inr (.inl ⟨rfl, rfl, rfl⟩)
    | true => exact .inr (.inr ⟨rfl, rfl, rfl⟩)

theorem tapKey_bothOffered (h : Host) (idx idx' : DpadIdx) :
    (bothOffered h idx).tapKey idx' =
      if idx' = idx then ⟨dpadEdges h.events idx' ++ (if h.accepting then [true] else []) ++
        (if h.accepts (h.offered + 1) then [false] else []), h.owes idx'⟩
      else h.tapKey idx' := by
  unfold bothOffered
  split
  · next hidx =>
    subst hidx
    simp only [Host.tapKey, dpadEdges_report]
    rfl
  · next hidx =>
    rw [tapKey_report_other _ (dpadEdge_other hidx false false),
      tapKey_report_other _ (dpadEdge_other hidx true false)]

/-- `tap_btn` taps its code and leaves the others alone. -/
theorem tapKey_tapBtn (h : Host) (idx idx' : DpadIdx) :
    (tapBtn h idx).tapKey idx' =
      if idx' = idx then (h.tapKey idx').tap h.accepting (h.accepts (h.offered + 1))
      else h.tapKey idx' := by
  have hboth := tapKey_bothOffered h idx idx'
  rcases tapBtn_cases h idx with ⟨hpress, heq⟩ | ⟨hpress, hrelease, heq⟩ | ⟨hpress, hrelease, heq⟩
  · -- the press is dropped
    rw [heq, hpress]
    split
    · next hidx =>
      subst hidx
      rw [Host.tapKey, dpadEdges_report, hpress]
      simp [TapKey.tap, Host.tapKey]
    · next hidx => exact tapKey_report_other h (dpadEdge_other hidx true false)
  · -- the release is dropped behind the press
    rw [hpress, hrelease] at hboth
    rw [heq, hpress, hrelease, Host.tapKey, owes_set]
    split
    · next hidx =>
      rw [if_pos hidx] at hboth
      rcases TapKey.mk.inj hboth with ⟨hedges, -⟩
      rw [hedges, decide_eq_true hidx, Bool.or_true]
      simp [TapKey.tap, Host.tapKey]
    · next hidx =>
      rw [if_neg hidx] at hboth
      rw [decide_eq_false hidx, Bool.or_false, ← hboth]
      rfl
  · rw [heq, hboth, hpress, hrelease]
    split
    · simp [TapKey.tap, Host.tapKey]
    · rfl

theorem accepts_tapBtn (h : Host) (idx : DpadIdx) : (tapBtn h idx).accepts = h.accepts :=
  (sameButtons_tapBtn h idx).2.1

theorem offered_tapBtn (h : Host) (idx : DpadIdx) :
    (tapBtn h idx).offered = h.offered + if h.accepting then 2 else 1 := by
  rcases tapBtn_cases h idx with ⟨hpress, heq⟩ | ⟨hpress, -, heq⟩ | ⟨hpress, -, heq⟩
  · rw [heq, hpress]
    rfl
  · rw [heq, hpress]
    rfl
  · rw [heq, hpress]
    rfl

/-- A round of the flush retries its code and leaves the others alone. -/
theorem tapKey_flushDpad (h : Host) (idx idx' : DpadIdx) :
    (flushDpad h idx).tapKey idx' =
      if idx' = idx then (h.tapKey idx').retry h.accepting else h.tapKey idx' := by
  have howes : (h.pendingDpadRelease &&& idx.mask ≠ 0) = (h.owes idx = true) := by
    simp only [Host.owes, decide_eq_true_eq]
  unfold flushDpad
  simp only [howes]
  by_cases hidx : idx' = idx
  · subst hidx
    rw [if_pos rfl]
    cases hpending : h.owes idx' with
    | false => simp [Host.tapKey, TapKey.retry, hpending]
    | true =>
      rw [if_pos rfl]
      cases hrelease : h.accepting with
      | false => simp [Host.tapKey, TapKey.retry, dpadEdges_report, hrelease]
      | true =>
        rw [if_pos rfl, Host.tapKey, owes_clear]
        simp [Host.tapKey, TapKey.retry, dpadEdges_report, hrelease, hpending]
  · have hrelease := tapKey_report_other h (dpadEdge_other hidx false false)
    rw [if_neg hidx]
    split
    · split
      · rw [← hrelease, Host.tapKey, owes_clear, decide_eq_true hidx, Bool.and_true]
        rfl
      · exact hrelease
    · rfl

theorem accepts_flushDpad (h : Host) (idx : DpadIdx) : (flushDpad h idx).accepts = h.accepts :=
  (sameButtons_flushDpad h idx).2.1

/-- The place in the queue of a code's retry: behind those of the pending codes before it. -/
def retryAt (h : Host) (idx : DpadIdx) : ℕ :=
  h.offered + ((dpadIdxs.takeWhile (· ≠ idx)).filter h.owes).length

/-- A round of the flush, as the later rounds see it. -/
theorem owes_flushDpad_other (h : Host) {idx idx' : DpadIdx} (hne : idx' ≠ idx) :
    (flushDpad h idx).owes idx' = h.owes idx' := by
  have hkey := tapKey_flushDpad h idx idx'
  rw [if_neg hne] at hkey
  exact congrArg TapKey.owed hkey

/-- The flush retries every code it comes to at its place in the queue. -/
theorem tapKey_foldl_flushDpad (idxs : List DpadIdx) (hnd : idxs.Nodup) (h : Host)
    (idx : DpadIdx) : (idxs.foldl flushDpad h).tapKey idx =
      if idx ∈ idxs then (h.tapKey idx).retry
        (h.accepts (h.offered + ((idxs.takeWhile (· ≠ idx)).filter h.owes).length))
      else h.tapKey idx := by
  induction idxs generalizing h with
  | nil => rfl
  | cons first idxs ih =>
    obtain ⟨hnot, hnd⟩ := List.nodup_cons.mp hnd
    rw [List.foldl_cons, ih hnd, tapKey_flushDpad, accepts_flushDpad, (flushDpad_offered h first).1]
    by_cases hidx : idx = first
    · subst hidx
      simp [hnot, Host.accepting]
    · have hne : first ≠ idx := fun he => hidx he.symm
      -- the first round offers one event where its code is pending
      have hrest : (idxs.takeWhile (· ≠ idx)).filter (flushDpad h first).owes =
          (idxs.takeWhile (· ≠ idx)).filter h.owes := by
        apply List.filter_congr
        intro later hlater
        have hmem : later ∈ idxs := (List.takeWhile_prefix _).subset hlater
        exact owes_flushDpad_other h fun he => hnot (he ▸ hmem)
      have hcount : (((first :: idxs).takeWhile (· ≠ idx)).filter h.owes).length =
          (if h.pendingDpadRelease &&& first.mask ≠ 0 then 1 else 0) +
            ((idxs.takeWhile (· ≠ idx)).filter h.owes).length := by
        rw [List.takeWhile_cons, if_pos (decide_eq_true hne), List.filter_cons, Host.owes]
        by_cases hp : h.pendingDpadRelease &&& first.mask ≠ 0
        · rw [if_pos hp, if_pos (decide_eq_true hp), List.length_cons, Nat.add_comm]
        · rw [if_neg hp, if_neg (by simpa using hp), Nat.zero_add]
      rw [hrest, hcount, if_neg hidx, Nat.add_assoc]
      simp only [List.mem_cons, hidx, false_or]

/-- The flush at the head of a call retries every code. -/
theorem tapKey_flushKeyed (cfg : WheelKeys) (h : Host) (idx : DpadIdx) :
    (flushKeyed cfg h).tapKey idx =
      if cfg.hwheelAsKeys || cfg.wheelAsKeys then (h.tapKey idx).retry (h.accepts (retryAt h idx))
      else h.tapKey idx := by
  unfold flushKeyed
  split
  · have hmem : idx ∈ dpadIdxs := by cases idx <;> decide
    rw [flushPendingDpadReleases, tapKey_foldl_flushDpad _ (by decide), if_pos hmem]
    rfl
  · rfl

/-! ### Calls -/

/-- The code tapped for the horizontal wheel. -/
def hwheelTap (cfg : WheelKeys) (r : PointerReport) : Option DpadIdx :=
  if cfg.hwheelAsKeys then
    if r.hwheel < 0 then some .left else if 0 < r.hwheel then some .right else none
  else none

/-- The code tapped for the vertical wheel. -/
def wheelTap (cfg : WheelKeys) (r : PointerReport) : Option DpadIdx :=
  if cfg.wheelAsKeys then
    if 0 < r.wheel then some .up else if r.wheel < 0 then some .down else none
  else none

/-- The report taps the code. -/
def Taps (cfg : WheelKeys) (r : PointerReport) (idx : DpadIdx) : Prop :=
  hwheelTap cfg r = some idx ∨ wheelTap cfg r = some idx

instance (cfg : WheelKeys) (r : PointerReport) (idx : DpadIdx) : Decidable (Taps cfg r idx) :=
  inferInstanceAs (Decidable (_ ∨ _))

/-- The number of events a publish offers in front of the wheels. -/
def openingCount (cfg : WheelKeys) (h : Host) (r : PointerReport) : ℕ :=
  pendingCount cfg h + (buttonEdges h.prevButtons r publishBtns).length +
    (deltaEvents .x r.dx).length + (deltaEvents .y r.dy).length

/-- The number of events offered for the horizontal wheel: a tap offers its release only
behind an accepted press. -/
def hwheelCount (cfg : WheelKeys) (r : PointerReport) (pressAccepted : Bool) : ℕ :=
  if (hwheelTap cfg r).isSome then if pressAccepted then 2 else 1
  else if cfg.hwheelAsKeys then 0 else (deltaEvents .hwheel r.hwheel).length

/-- The place in the queue of the press of a tap. -/
def tapAt (cfg : WheelKeys) (h : Host) (r : PointerReport) : DpadIdx → ℕ
  | .left | .right => h.offered + openingCount cfg h r
  | .up | .down => h.offered + openingCount cfg h r +
      hwheelCount cfg r (h.accepts (h.offered + openingCount cfg h r))

/-- The codes are the same in both states. -/
def SameTaps (h h' : Host) : Prop := ∀ idx, h'.tapKey idx = h.tapKey idx

theorem sameTaps_reportDelta (code : RelCode) (value : ℤ) (h : Host) :
    SameTaps h (reportDelta code value h) := by
  intro idx
  unfold reportDelta
  split
  · exact tapKey_report_other h rfl
  · rfl

/-- The button loops leave the codes alone. -/
theorem sameTaps_publishButtons (h : Host) (r : PointerReport) :
    SameTaps h (publishButtons h r) := by
  have hloop : ∀ (is : List ℕ) (s : Host × U32), SameTaps s.1
      (is.foldl (publishButton r (r.buttons ^^^ h.prevButtons)) s).1 := by
    intro is
    induction is with
    | nil => exact fun _ _ => rfl
    | cons i is ih =>
      intro s idx
      rw [List.foldl_cons, ih]
      unfold publishButton
      split
      · exact tapKey_report_other s.1 rfl
      · rfl
  exact hloop (List.range publishBtns) (h, 0)

theorem sameTaps_releaseButton (held : U32) (is : List ℕ) (h : Host) :
    SameTaps h (is.foldl (releaseButton held) h) := by
  induction is generalizing h with
  | nil => exact fun _ => rfl
  | cons i is ih =>
    intro idx
    rw [List.foldl_cons, ih]
    unfold releaseButton
    split
    · exact tapKey_report_other h rfl
    · rfl

/-- **A reset retries every code.** -/
theorem tapKey_reset (cfg : WheelKeys) (h : Host) (idx : DpadIdx) :
    (bleHidHostReset cfg h).tapKey idx = (flushKeyed cfg h).tapKey idx := by
  unfold bleHidHostReset
  simp only
  split
  · rfl
  · exact sameTaps_releaseButton _ _ _ idx

/-- The state in front of the wheels. -/
def beforeWheels (cfg : WheelKeys) (h : Host) (r : PointerReport) : Host :=
  reportDelta .y r.dy <| reportDelta .x r.dx <| publishButtons (flushKeyed cfg h) r

theorem beforeWheels_spec (cfg : WheelKeys) (h : Host) (r : PointerReport) :
    (beforeWheels cfg h r).accepts = h.accepts ∧
      (beforeWheels cfg h r).offered = h.offered + openingCount cfg h r ∧
      SameTaps (flushKeyed cfg h) (beforeWheels cfg h r) := by
  have hsame := sameButtons_flushKeyed cfg h
  have hoffers := ((offers_publishButtons (flushKeyed cfg h) r).1.trans
    (offers_reportDelta .x r.dx _)).trans (offers_reportDelta .y r.dy _)
  refine ⟨hoffers.accepts_eq.trans hsame.2.1, ?_, ?_⟩
  · have hcount := hoffers.offered_eq
    rw [flushKeyed_offered, hsame.1, List.length_append, List.length_append] at hcount
    simp only [beforeWheels, hcount, openingCount]
    omega
  · intro idx
    rw [beforeWheels, sameTaps_reportDelta, sameTaps_reportDelta, sameTaps_publishButtons]

/-- What the horizontal wheel does: a tap, or nothing, or a scroll. -/
theorem publishHwheel_eq (cfg : WheelKeys) (r : PointerReport) (h : Host) :
    publishHwheel cfg r h = (hwheelTap cfg r).elim
      (if cfg.hwheelAsKeys then h else reportDelta .hwheel r.hwheel h) (tapBtn h) := by
  unfold publishHwheel hwheelTap
  split
  · split
    · rfl
    · split <;> rfl
  · rfl

/-- What the vertical wheel does: a tap or nothing, and the terminator. -/
theorem publishWheel_eq (cfg : WheelKeys) (r : PointerReport) (h : Host) :
    publishWheel cfg r h = ((wheelTap cfg r).elim h (tapBtn h)).report
      (.rel .wheel (if cfg.wheelAsKeys then 0 else r.wheel) true) := by
  unfold publishWheel wheelTap
  split
  · split
    · rfl
    · split <;> rfl
  · rfl

/-- A wheel taps one code at most, and leaves the others alone. -/
theorem tapKey_elim_tapBtn (tap : Option DpadIdx) {h h' : Host} (hsame : SameTaps h h')
    (idx : DpadIdx) : (tap.elim h' (tapBtn h)).tapKey idx =
      if tap = some idx then (h.tapKey idx).tap h.accepting (h.accepts (h.offered + 1))
      else h.tapKey idx := by
  cases tap with
  | none => exact hsame idx
  | some tapped =>
    rw [Option.elim_some, tapKey_tapBtn]
    simp only [Option.some.injEq, eq_comm]

/-- The horizontal wheel, as the vertical one sees it. -/
theorem publishHwheel_spec (cfg : WheelKeys) (r : PointerReport) (h : Host) :
    (publishHwheel cfg r h).accepts = h.accepts ∧
      (publishHwheel cfg r h).offered = h.offered + hwheelCount cfg r h.accepting := by
  rw [publishHwheel_eq]
  unfold hwheelCount
  cases hwheelTap cfg r with
  | some idx => exact ⟨accepts_tapBtn h idx, offered_tapBtn h idx⟩
  | none =>
    rw [Option.elim_none, Option.isSome_none, if_neg Bool.false_ne_true]
    split
    · exact ⟨rfl, rfl⟩
    · have hoffers := offers_reportDelta .hwheel r.hwheel h
      exact ⟨hoffers.accepts_eq, hoffers.offered_eq⟩

theorem hwheelTap_ne_up {cfg : WheelKeys} {r : PointerReport} {idx : DpadIdx}
    (h : hwheelTap cfg r = some idx) : idx = .left ∨ idx = .right := by
  unfold hwheelTap at h
  split_ifs at h
  · exact .inl (Option.some_inj.mp h).symm
  · exact .inr (Option.some_inj.mp h).symm

theorem wheelTap_ne_left {cfg : WheelKeys} {r : PointerReport} {idx : DpadIdx}
    (h : wheelTap cfg r = some idx) : idx = .up ∨ idx = .down := by
  unfold wheelTap at h
  split_ifs at h
  · exact .inl (Option.some_inj.mp h).symm
  · exact .inr (Option.some_inj.mp h).symm

/-- **A publish retries every code and taps those of the report.** -/
theorem tapKey_publish (cfg : WheelKeys) (h : Host) (r : PointerReport) (idx : DpadIdx) :
    (bleHidHostPublish cfg h r).tapKey idx =
      if Taps cfg r idx then ((flushKeyed cfg h).tapKey idx).tap
        (h.accepts (tapAt cfg h r idx)) (h.accepts (tapAt cfg h r idx + 1))
      else (flushKeyed cfg h).tapKey idx := by
  obtain ⟨hacc, hoff, hsame⟩ := beforeWheels_spec cfg h r
  have hpub : bleHidHostPublish cfg h r =
      publishWheel cfg r (publishHwheel cfg r (beforeWheels cfg h r)) := rfl
  obtain ⟨hacc', hoff'⟩ := publishHwheel_spec cfg r (beforeWheels cfg h r)
  rw [hacc] at hacc'
  have hopen : (beforeWheels cfg h r).accepting =
      h.accepts (h.offered + openingCount cfg h r) := by
    rw [Host.accepting, hacc, hoff]
  rw [hopen, hoff] at hoff'
  have hhwheel : (publishHwheel cfg r (beforeWheels cfg h r)).tapKey idx =
      if hwheelTap cfg r = some idx then ((flushKeyed cfg h).tapKey idx).tap
        (h.accepts (h.offered + openingCount cfg h r))
        (h.accepts (h.offered + openingCount cfg h r + 1))
      else (flushKeyed cfg h).tapKey idx := by
    have hscroll : SameTaps (beforeWheels cfg h r) (if cfg.hwheelAsKeys then beforeWheels cfg h r
        else reportDelta .hwheel r.hwheel (beforeWheels cfg h r)) := by
      split
      · exact fun _ => rfl
      · exact sameTaps_reportDelta _ _ _
    rw [publishHwheel_eq, tapKey_elim_tapBtn _ hscroll, hopen, hacc, hoff, hsame]
  rw [hpub, publishWheel_eq, tapKey_report_other _ rfl, tapKey_elim_tapBtn _ fun _ => rfl, hhwheel,
    Host.accepting, hacc', hoff']
  by_cases hleft : hwheelTap cfg r = some idx
  · -- a code of the horizontal wheel is none of the vertical one
    have hup : ¬ wheelTap cfg r = some idx := by
      intro hup
      rcases hwheelTap_ne_up hleft with rfl | rfl
      · exact absurd (wheelTap_ne_left hup) (by decide)
      · exact absurd (wheelTap_ne_left hup) (by decide)
    have htaps : Taps cfg r idx := .inl hleft
    rw [if_neg hup, if_pos hleft, if_pos htaps]
    rcases hwheelTap_ne_up hleft with rfl | rfl <;> rfl
  · rw [if_neg hleft]
    by_cases hup : wheelTap cfg r = some idx
    · have htaps : Taps cfg r idx := .inr hup
      rw [if_pos hup, if_pos htaps]
      rcases wheelTap_ne_left hup with rfl | rfl <;> rfl
    · have htaps : ¬ Taps cfg r idx := fun hc => hc.elim hleft hup
      rw [if_neg hup, if_neg htaps]

theorem Taps.keyed {cfg : WheelKeys} {r : PointerReport} {idx : DpadIdx} (h : Taps cfg r idx) :
    (cfg.hwheelAsKeys || cfg.wheelAsKeys) = true := by
  rw [Bool.or_eq_true]
  by_contra hc
  rcases h with h | h
  · rw [hwheelTap, if_neg fun hk => hc (.inl hk)] at h
    cases h
  · rw [wheelTap, if_neg fun hk => hc (.inr hk)] at h
    cases h

/-- The codes a call taps. -/
def Call.Taps (cfg : WheelKeys) (idx : DpadIdx) : Call → Prop
  | .publish r => BleHidHost.Taps cfg r idx
  | .reset => False

/-- What a call does to a code: a retry, and a tap where the report asks for one. -/
theorem tapKey_run (cfg : WheelKeys) (h : Host) (c : Call) (idx : DpadIdx) :
    (∃ press release, (c.run cfg h).tapKey idx =
      ((flushKeyed cfg h).tapKey idx).tap press release) ∧
    (¬ c.Taps cfg idx → (c.run cfg h).tapKey idx = (flushKeyed cfg h).tapKey idx) := by
  cases c with
  | publish r =>
    have hpub := tapKey_publish cfg h r idx
    by_cases htaps : Taps cfg r idx
    · rw [if_pos htaps] at hpub
      exact ⟨⟨_, _, hpub⟩, fun hc => absurd htaps hc⟩
    · rw [if_neg htaps] at hpub
      exact ⟨⟨false, false, hpub⟩, fun _ => hpub⟩
  | reset =>
    have hreset := tapKey_reset cfg h idx
    exact ⟨⟨false, false, hreset⟩, fun _ => hreset⟩

theorem covered_flushKeyed (cfg : WheelKeys) {h : Host} {idx : DpadIdx}
    (hcov : (h.tapKey idx).Covered) : ((flushKeyed cfg h).tapKey idx).Covered := by
  rw [tapKey_flushKeyed]
  split
  · exact TapKey.covered_retry _ hcov
  · exact hcov

theorem covered_run (cfg : WheelKeys) {h : Host} (c : Call) {idx : DpadIdx}
    (hcov : (h.tapKey idx).Covered) : ((c.run cfg h).tapKey idx).Covered := by
  obtain ⟨⟨press, release, hrun⟩, -⟩ := tapKey_run cfg h c idx
  rw [hrun]
  exact TapKey.covered_tap _ _ (covered_flushKeyed cfg hcov)

theorem covered_hostAfter (cfg : WheelKeys) (accepts : ℕ → Bool) (calls : List Call)
    (idx : DpadIdx) : ((hostAfter cfg accepts calls).tapKey idx).Covered := by
  induction calls using List.reverseRecOn with
  | nil => exact fun hl => by cases hl
  | append_singleton calls c ih =>
    rw [hostAfter_concat]
    exact covered_run cfg c ih

/-- **A wheel tap never latches untracked.**  After any calls a code left pressed has its
pending bit set.  In any further call a code with its pending bit set keeps it for as long
as the retry is dropped; once the retry is accepted the call begins with the code's
release, behind which the code stays released unless the same call taps it again. -/
theorem wheelTap_tracked {cfg : WheelKeys}
    (hkeyed : (cfg.hwheelAsKeys || cfg.wheelAsKeys) = true) (accepts : ℕ → Bool)
    (calls : List Call) (idx : DpadIdx) :
    let h := hostAfter cfg accepts calls
    (isPressed h.events (.dpad idx) → h.pendingDpadRelease &&& idx.mask ≠ 0) ∧
    ∀ c : Call, h.pendingDpadRelease &&& idx.mask ≠ 0 →
      (¬ h.accepts (retryAt h idx) →
        (c.run cfg h).pendingDpadRelease &&& idx.mask ≠ 0) ∧
      (h.accepts (retryAt h idx) →
        (∃ rest, dpadEdges (c.run cfg h).events idx = dpadEdges h.events idx ++ false :: rest) ∧
        (¬ c.Taps cfg idx → ¬ isPressed (c.run cfg h).events (.dpad idx))) := by
  intro h
  have howes (s : Host) : s.pendingDpadRelease &&& idx.mask ≠ 0 ↔ (s.tapKey idx).owed :=
    decide_eq_true_iff.symm
  constructor
  · intro hpressed
    rw [isPressed_eq_latched] at hpressed
    exact (howes h).mpr (covered_hostAfter cfg accepts calls idx hpressed)
  intro c hpending
  have hflush := tapKey_flushKeyed cfg h idx
  rw [if_pos hkeyed, TapKey.retry, (howes h).mp hpending, Bool.true_and] at hflush
  obtain ⟨⟨press, release, hrun⟩, hquiet⟩ := tapKey_run cfg h c idx
  constructor
  · intro hdrop
    rw [if_neg hdrop] at hflush
    rw [howes, hrun, hflush]
    exact TapKey.owed_tap press release ((howes h).mp hpending)
  · intro hacc
    rw [if_pos hacc] at hflush
    rw [hflush] at hrun hquiet
    constructor
    · obtain ⟨rest, hrest⟩ :=
        TapKey.prefix_tap press release ⟨(h.tapKey idx).edges ++ [false], false⟩
      refine ⟨rest, ?_⟩
      have hedges : dpadEdges (c.run cfg h).events idx = ((c.run cfg h).tapKey idx).edges := rfl
      rw [hedges, hrun, ← hrest, List.append_assoc]
      rfl
    · intro hnot
      rw [isPressed_eq_latched, hquiet hnot]
      simp [TapKey.latched]

/-- The release of a tap upwards is dropped; the reset behind it releases the code. -/
theorem wheelTap_tracked_reset :
    let h := hostAfter ⟨false, true⟩ (· != 1) [.publish ⟨0, 0, 1, 0, 0⟩]
    isPressed h.events (.dpad .up) = true ∧ h.pendingDpadRelease &&& DpadIdx.up.mask ≠ 0 ∧
      ¬ isPressed (bleHidHostReset ⟨false, true⟩ h).events (.dpad .up) := by
  have h := @wheelTap_tracked ⟨false, true⟩ rfl (· != 1) [.publish ⟨0, 0, 1, 0, 0⟩] .up
  have hpending := h.1 (by decide)
  exact ⟨by decide, hpending, ((h.2 .reset hpending).2 (by decide)).2 fun hc => hc⟩

/-! ### Alternation -/

/-- The publish presses a code whose release is pending: the queue drops the retry of the
release and then accepts the press of the tap. -/
def PressesOwed (cfg : WheelKeys) (h : Host) (r : PointerReport) : Prop :=
  ∃ idx, Taps cfg r idx ∧ h.pendingDpadRelease &&& idx.mask ≠ 0 ∧
    ¬ h.accepts (retryAt h idx) ∧ h.accepts (tapAt cfg h r idx)

/-- Every code is settled. -/
def AllSettled (h : Host) : Prop := ∀ idx, (h.tapKey idx).Settled

theorem AllSettled.flushKeyed {h : Host} (cfg : WheelKeys) (hs : AllSettled h) :
    AllSettled (flushKeyed cfg h) := by
  intro idx
  rw [tapKey_flushKeyed]
  split
  · exact TapKey.settled_retry _ (hs idx)
  · exact hs idx

/-- What a tapped code owes behind the flush. -/
theorem owed_flushKeyed_of_taps {cfg : WheelKeys} {h : Host} {r : PointerReport} {idx : DpadIdx}
    (ht : Taps cfg r idx) : ((flushKeyed cfg h).tapKey idx).owed =
      (h.owes idx && !h.accepts (retryAt h idx)) := by
  rw [tapKey_flushKeyed, if_pos ht.keyed, TapKey.owed_retry]
  rfl

/-- **A publish keeps the alternation exactly when it presses no owed code.** -/
theorem alternates_publish_iff {cfg : WheelKeys} {h : Host} {r : PointerReport}
    (hs : AllSettled h) :
    (∀ idx, Alternates (dpadEdges (bleHidHostPublish cfg h r).events idx)) ↔
      ¬ PressesOwed cfg h r := by
  have hedges (idx : DpadIdx) : dpadEdges (bleHidHostPublish cfg h r).events idx =
      ((bleHidHostPublish cfg h r).tapKey idx).edges := rfl
  have htap {idx : DpadIdx} (ht : Taps cfg r idx) :
      Alternates (dpadEdges (bleHidHostPublish cfg h r).events idx) ↔
        ¬ (((flushKeyed cfg h).tapKey idx).owed ∧ h.accepts (tapAt cfg h r idx)) := by
    rw [hedges, tapKey_publish, if_pos ht]
    exact TapKey.alternates_tap_iff _ _ (hs.flushKeyed cfg idx)
  constructor
  · rintro hall ⟨idx, ht, hpending, hdrop, hpress⟩
    refine (htap ht).mp (hall idx) ⟨?_, hpress⟩
    simp only [owed_flushKeyed_of_taps ht, Host.owes, decide_eq_true hpending, Bool.true_and]
    simpa using hdrop
  · intro hnone idx
    by_cases ht : Taps cfg r idx
    · rw [htap ht, owed_flushKeyed_of_taps ht]
      rintro ⟨howed, hpress⟩
      simp only [Bool.and_eq_true, Host.owes, decide_eq_true_iff] at howed
      exact hnone ⟨idx, ht, howed.1, by simpa using howed.2, hpress⟩
    · rw [hedges, tapKey_publish, if_neg ht]
      exact (hs.flushKeyed cfg idx).alternates

theorem AllSettled.publish {cfg : WheelKeys} {h : Host} {r : PointerReport} (hs : AllSettled h)
    (hnone : ¬ PressesOwed cfg h r) : AllSettled (bleHidHostPublish cfg h r) := by
  intro idx
  rw [tapKey_publish]
  split
  · next ht =>
    apply TapKey.settled_tap (hs.flushKeyed cfg idx)
    rw [owed_flushKeyed_of_taps ht]
    rintro ⟨howed, hpress⟩
    simp only [Bool.and_eq_true, Host.owes, decide_eq_true_iff] at howed
    exact hnone ⟨idx, ht, howed.1, by simpa using howed.2, hpress⟩
  · exact hs.flushKeyed cfg idx

theorem AllSettled.reset {h : Host} (cfg : WheelKeys) (hs : AllSettled h) :
    AllSettled (bleHidHostReset cfg h) := by
  intro idx
  rw [tapKey_reset]
  exact hs.flushKeyed cfg idx

/-- Calls only append edges. -/
theorem prefix_run (cfg : WheelKeys) (h : Host) (c : Call) (idx : DpadIdx) :
    dpadEdges h.events idx <+: dpadEdges (c.run cfg h).events idx := by
  have hflush : (h.tapKey idx).edges <+: ((flushKeyed cfg h).tapKey idx).edges := by
    rw [tapKey_flushKeyed]
    split
    · exact TapKey.prefix_retry _ _
    · exact List.prefix_rfl
  obtain ⟨⟨press, release, hrun⟩, -⟩ := tapKey_run cfg h c idx
  have htap := TapKey.prefix_tap press release ((flushKeyed cfg h).tapKey idx)
  rw [← hrun] at htap
  exact hflush.trans htap

/-- No publish of the sequence presses an owed code. -/
def NeverPressesOwed (cfg : WheelKeys) (accepts : ℕ → Bool) (calls : List Call) : Prop :=
  ∀ n r, calls[n]? = some (.publish r) →
    ¬ PressesOwed cfg (hostAfter cfg accepts (calls.take n)) r

theorem neverPressesOwed_concat (cfg : WheelKeys) (accepts : ℕ → Bool) (calls : List Call)
    (c : Call) : NeverPressesOwed cfg accepts (calls ++ [c]) ↔
      NeverPressesOwed cfg accepts calls ∧
        ∀ r, c = .publish r → ¬ PressesOwed cfg (hostAfter cfg accepts calls) r := by
  have hearlier (n : ℕ) (hn : n < calls.length) :
      (calls ++ [c])[n]? = calls[n]? ∧ (calls ++ [c]).take n = calls.take n :=
    ⟨List.getElem?_append_left hn, List.take_append_of_le_length hn.le⟩
  constructor
  · intro hall
    constructor
    · intro n r hn
      obtain ⟨hlt, -⟩ := List.getElem?_eq_some_iff.mp hn
      rw [← (hearlier n hlt).1] at hn
      rw [← (hearlier n hlt).2]
      exact hall n r hn
    · rintro r rfl
      have hlast := hall calls.length r (by simp)
      rwa [List.take_left] at hlast
  · rintro ⟨hall, hlast⟩ n r hn
    obtain ⟨hlt, -⟩ := List.getElem?_eq_some_iff.mp hn
    rw [List.length_append, List.length_singleton] at hlt
    rcases Nat.lt_succ_iff_lt_or_eq.mp hlt with hlt | rfl
    · rw [(hearlier n hlt).1] at hn
      rw [(hearlier n hlt).2]
      exact hall n r hn
    · rw [List.getElem?_concat_length, Option.some_inj] at hn
      rw [List.take_left]
      exact hlast r hn

theorem settled_hostAfter {cfg : WheelKeys} {accepts : ℕ → Bool} {calls : List Call}
    (hnone : NeverPressesOwed cfg accepts calls) : AllSettled (hostAfter cfg accepts calls) := by
  induction calls using List.reverseRecOn with
  | nil =>
    intro idx
    simp only [hostAfter, List.foldl_nil, tapKey_start]
    exact TapKey.settled_empty
  | append_singleton calls c ih =>
    obtain ⟨hearlier, hlast⟩ := (neverPressesOwed_concat cfg accepts calls c).mp hnone
    rw [hostAfter_concat]
    cases c with
    | publish r => exact (ih hearlier).publish (hlast r rfl)
    | reset => exact (ih hearlier).reset cfg

/-- **Over any sequence of calls the accepted events of every code alternate, a press
first, exactly when no publish presses a code that is still owed its release.** -/
theorem alternates_calls_iff (cfg : WheelKeys) (accepts : ℕ → Bool) (calls : List Call) :
    (∀ idx, Alternates (dpadEdges (hostAfter cfg accepts calls).events idx)) ↔
      ∀ n r, calls[n]? = some (.publish r) →
        ¬ PressesOwed cfg (hostAfter cfg accepts (calls.take n)) r := by
  show _ ↔ NeverPressesOwed cfg accepts calls
  constructor
  · intro hall
    induction calls using List.reverseRecOn with
    | nil => exact fun n r hn => by simp at hn
    | append_singleton calls c ih =>
      rw [hostAfter_concat] at hall
      -- what alternates in the end has alternated before the last call
      have hearlier := ih fun idx => by
        obtain ⟨rest, hrest⟩ := prefix_run cfg (hostAfter cfg accepts calls) c idx
        have hidx := hall idx
        rw [← hrest] at hidx
        exact hidx.of_append
      refine (neverPressesOwed_concat cfg accepts calls c).mpr ⟨hearlier, ?_⟩
      rintro r rfl
      exact (alternates_publish_iff (settled_hostAfter hearlier)).mp hall
  · exact fun hnone idx => (settled_hostAfter hnone idx).alternates

/-- Two ticks upwards: the queue drops the release of the first tap, drops its retry, and
accepts the press of the second tap, so that the code is pressed twice. -/
theorem second_press_while_latched :
    ¬ ∀ cfg : WheelKeys, (cfg.hwheelAsKeys || cfg.wheelAsKeys) = true →
      ∀ (accepts : ℕ → Bool) (calls : List Call) (idx : DpadIdx),
        Alternates (dpadEdges (hostAfter cfg accepts calls).events idx) := by
  intro hall
  have hedges : dpadEdges (hostAfter ⟨false, true⟩ (fun n => n != 1 && n != 3)
      [.publish ⟨0, 0, 1, 0, 0⟩, .publish ⟨0, 0, 1, 0, 0⟩]).events .up = [true, true, false] := by
    decide
  have halt := hall ⟨false, true⟩ rfl (fun n => n != 1 && n != 3)
    [.publish ⟨0, 0, 1, 0, 0⟩, .publish ⟨0, 0, 1, 0, 0⟩] .up
  rw [hedges] at halt
  exact absurd ((halt 1 true rfl).mp rfl) (by decide)

end BleHidHost
