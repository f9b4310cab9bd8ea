import BleHidHost.HostDevice
import Mathlib.Algebra.Order.Group.Nat
import Mathlib.Tactic.Common

/-!
# Buttons and what the host was told of them

`prev_buttons` is meant to be the set of buttons whose latest accepted event is
a press.  A publish keeps it so whatever the input queue drops, since only
accepted edges advance it.  A reset clears it even when the queue drops one of
the releases.

## Main definitions

* `InSync` — `prev_buttons` is what the host was told.
* `ReleasesAccepted` — the queue accepts every release a reset is about to offer.

## Main results

* `inSync_publish` — **a publish keeps the two in sync.**
* `inSync_reset_iff` — **a reset keeps them exactly when every release it offers
  is accepted.**
* `inSync_calls_iff` — over any sequence of calls.
-/

namespace BleHidHost

/-- `prev_buttons` is the set of the buttons 0 to 7 whose latest accepted event is
a press. -/
def InSync (h : Host) : Prop :=
  ∀ i, h.prevButtons.getLsbD i = (decide (i < publishBtns) && isPressed h.events (.button i))

/-! ### Calls that leave the buttons alone -/

/-- What the module and the host hold of the buttons is the same in both states. -/
def SameButtons (h h' : Host) : Prop :=
  h'.prevButtons = h.prevButtons ∧ h'.accepts = h.accepts ∧
    ∀ i, isPressed h'.events (.button i) = isPressed h.events (.button i)

theorem SameButtons.refl (h : Host) : SameButtons h h := ⟨rfl, rfl, fun _ => rfl⟩

theorem SameButtons.trans {h h' h'' : Host} (h₁ : SameButtons h h') (h₂ : SameButtons h' h'') :
    SameButtons h h'' :=
  ⟨h₂.1.trans h₁.1, h₂.2.1.trans h₁.2.1, fun i => (h₂.2.2 i).trans (h₁.2.2 i)⟩

theorem SameButtons.inSync_iff {h h' : Host} (hs : SameButtons h h') : InSync h' ↔ InSync h := by
  unfold InSync
  simp only [hs.1, hs.2.2]

/-- An event of any other key or axis leaves the buttons alone. -/
theorem sameButtons_report (h : Host) {ev : InputEvent}
    (hev : ∀ i b, pressedStep (.button i) b ev = b) : SameButtons h (h.report ev) := by
  refine ⟨rfl, rfl, ?_⟩
  intro i
  rw [Host.isPressed_report, hev, ite_self]

theorem sameButtons_rel (h : Host) (code : RelCode) (value : ℤ) (sync : Bool) :
    SameButtons h (h.report (.rel code value sync)) :=
  sameButtons_report h fun _ _ => rfl

theorem sameButtons_dpad (h : Host) (idx : DpadIdx) (pressed sync : Bool) :
    SameButtons h (h.report (.key (.dpad idx) pressed sync)) :=
  sameButtons_report h fun i b => by simp [pressedStep]

theorem sameButtons_tapBtn (h : Host) (idx : DpadIdx) : SameButtons h (tapBtn h idx) := by
  have hpress := sameButtons_dpad h idx true false
  have hboth := hpress.trans (sameButtons_dpad _ idx false false)
  unfold tapBtn
  simp only
  split
  · exact hpress
  · split
    · exact hboth
    · exact hboth

theorem sameButtons_flushDpad (h : Host) (idx : DpadIdx) : SameButtons h (flushDpad h idx) := by
  have hrelease := sameButtons_dpad h idx false false
  unfold flushDpad
  simp only
  split
  · split
    · exact hrelease
    · exact hrelease
  · exact .refl h

theorem sameButtons_flushKeyed (cfg : WheelKeys) (h : Host) :
    SameButtons h (flushKeyed cfg h) := by
  unfold flushKeyed
  split
  · unfold flushPendingDpadReleases
    induction dpadIdxs generalizing h with
    | nil => exact .refl h
    | cons idx idxs ih => exact (sameButtons_flushDpad h idx).trans (ih _)
  · exact .refl h

theorem sameButtons_reportDelta (code : RelCode) (value : ℤ) (h : Host) :
    SameButtons h (reportDelta code value h) := by
  unfold reportDelta
  split
  · exact sameButtons_rel h code value false
  · exact .refl h

theorem sameButtons_publishHwheel (cfg : WheelKeys) (r : PointerReport) (h : Host) :
    SameButtons h (publishHwheel cfg r h) := by
  unfold publishHwheel
  split_ifs
  · exact sameButtons_tapBtn h _
  · exact sameButtons_tapBtn h _
  · exact .refl h
  · exact sameButtons_reportDelta _ _ h

theorem sameButtons_publishWheel (cfg : WheelKeys) (r : PointerReport) (h : Host) :
    SameButtons h (publishWheel cfg r h) := by
  unfold publishWheel
  split_ifs
  · exact (sameButtons_tapBtn h _).trans (sameButtons_rel _ _ _ _)
  · exact (sameButtons_tapBtn h _).trans (sameButtons_rel _ _ _ _)
  · exact sameButtons_rel _ _ _ _
  · exact sameButtons_rel _ _ _ _

/-! ### Publish -/

/-- One bit gathered by the button loop. -/
theorem getLsbD_or_shift (x : U32) {n : ℕ} (hn : n < 32) (b : Bool) (i : ℕ) :
    (if b then x ||| (1 : U32) <<< n else x).getLsbD i =
      (x.getLsbD i || (decide (i = n) && b)) := by
  have hpow : (1 : U32) <<< n = BitVec.twoPow 32 n := rfl
  cases b with
  | false => simp
  | true =>
    rw [if_pos rfl, BitVec.getLsbD_or, hpow, BitVec.getLsbD_twoPow, decide_eq_true hn]
    simp [eq_comm]

/-- The bits gathered by the button loop are those of accepted edges, and the host
was told of exactly these. -/
theorem publishButton_loop (h : Host) (r : PointerReport) (changed : U32) {n : ℕ} (hn : n ≤ 32) :
    ∀ s, s = (List.range n).foldl (publishButton r changed) (h, 0) →
      (∀ i, s.2.getLsbD i → i < n) ∧
      ∀ i, isPressed s.1.events (.button i) =
        if s.2.getLsbD i then r.buttons.getLsbD i else isPressed h.events (.button i) := by
  induction n with
  | zero =>
    rintro s rfl
    exact ⟨fun i hi => by simp at hi, fun i => by simp⟩
  | succ n ih =>
    rintro s rfl
    obtain ⟨hlt, hpress⟩ := ih (by omega) _ rfl
    rw [List.range_succ, List.foldl_append, List.foldl_cons, List.foldl_nil]
    generalize (List.range n).foldl (publishButton r changed) (h, 0) = s at hlt hpress
    -- bit `n` has not been gathered yet
    have hnew : s.2.getLsbD n = false := by
      by_contra hc
      exact absurd (hlt n (by simpa using hc)) (lt_irrefl n)
    unfold publishButton
    split
    · -- the edge is offered, and gathered when the queue accepts it
      simp only [getLsbD_or_shift _ (show n < 32 by omega)]
      constructor
      · intro i hi
        by_cases hin : i = n
        · omega
        · have := hlt i (by simpa [hin] using hi)
          omega
      · intro i
        rw [Host.isPressed_report, hpress]
        by_cases hin : i = n
        · subst hin
          cases s.1.accepting <;> simp [pressedStep, hnew]
        · have hne : ¬ n = i := fun he => hin he.symm
          simp [pressedStep, hin, hne]
    · exact ⟨fun i hi => Nat.lt_succ_of_lt (hlt i hi), hpress⟩

/-- **A publish keeps `prev_buttons` and the host in sync**, whatever is dropped. -/
theorem inSync_publish (cfg : WheelKeys) {h : Host} (r : PointerReport) (hs : InSync h) :
    InSync (bleHidHostPublish cfg h r) := by
  have hrest := (sameButtons_reportDelta .x r.dx (publishButtons (flushKeyed cfg h) r)).trans <|
    (sameButtons_reportDelta .y r.dy _).trans <| (sameButtons_publishHwheel cfg r _).trans <|
    sameButtons_publishWheel cfg r _
  apply hrest.inSync_iff.mpr
  have hflush := (sameButtons_flushKeyed cfg h).inSync_iff.mpr hs
  obtain ⟨hlt, hpress⟩ := publishButton_loop (flushKeyed cfg h) r
    (r.buttons ^^^ (flushKeyed cfg h).prevButtons) (n := publishBtns) (by decide) _ rfl
  intro i
  simp only [publishButtons, hpress]
  rw [BitVec.getLsbD_or, BitVec.getLsbD_and, BitVec.getLsbD_not, BitVec.getLsbD_and, hflush i]
  generalize (List.foldl _ _ _ : Host × U32).2 = applied at hlt
  by_cases ha : applied.getLsbD i
  · -- an accepted edge: both sides take the bit of the report
    have hi := hlt i ha
    simp [ha, hi]
  · -- no edge or a dropped one: both sides keep the old bit
    rw [Bool.not_eq_true] at ha
    simp only [ha, Bool.not_false, Bool.and_true, Bool.and_false, Bool.or_false,
      Bool.false_eq_true, if_false]
    by_cases hi : i < publishBtns
    · have h32 : i < 32 := Nat.lt_trans hi (by decide)
      rw [decide_eq_true h32, Bool.and_true]
    · rw [decide_eq_false hi, Bool.false_and, Bool.false_and]

/-! ### Reset -/

/-- The number of held buttons below button `i`. -/
def heldBelow (held : U32) (i : ℕ) : ℕ := ((List.range i).filter held.getLsbD).length

/-- The number of wheel-tap releases a call offers first. -/
def pendingCount (cfg : WheelKeys) (h : Host) : ℕ :=
  if cfg.hwheelAsKeys || cfg.wheelAsKeys then
    (dpadIdxs.filter fun idx => h.pendingDpadRelease &&& idx.mask ≠ 0).length
  else 0

/-- The queue accepts the release of every held button that a reset is about to
offer: behind the pending wheel-tap releases, one for each held button in order. -/
def ReleasesAccepted (cfg : WheelKeys) (h : Host) : Prop :=
  ∀ i < publishBtns, h.prevButtons.getLsbD i →
    h.accepts (h.offered + pendingCount cfg h + heldBelow h.prevButtons i)

instance (cfg : WheelKeys) (h : Host) : Decidable (ReleasesAccepted cfg h) :=
  inferInstanceAs (Decidable (∀ i < publishBtns, _ → _))

theorem heldBelow_succ (held : U32) (i : ℕ) :
    heldBelow held (i + 1) = heldBelow held i + if held.getLsbD i then 1 else 0 := by
  unfold heldBelow
  rw [List.range_succ, List.filter_append, List.length_append]
  split
  · next h => simp [h]
  · next h => simp [h]

/-- One release of the flush offers one event, and leaves the other pending bits. -/
theorem flushDpad_offered (h : Host) (idx : DpadIdx) :
    (flushDpad h idx).offered =
        h.offered + (if h.pendingDpadRelease &&& idx.mask ≠ 0 then 1 else 0) ∧
      ∀ idx', idx' ≠ idx →
        (flushDpad h idx).pendingDpadRelease &&& idx'.mask =
          h.pendingDpadRelease &&& idx'.mask := by
  have hmask : ∀ idx', idx' ≠ idx → ∀ x : U8,
      x &&& ~~~idx.mask &&& idx'.mask = x &&& idx'.mask := by
    intro idx' hne x
    rw [BitVec.and_assoc]
    congr 1
    cases idx <;> cases idx' <;> first | (exact absurd rfl hne) | decide
  unfold flushDpad
  simp only
  split
  · split
    · exact ⟨rfl, fun idx' hne => hmask idx' hne _⟩
    · exact ⟨rfl, fun _ _ => rfl⟩
  · exact ⟨rfl, fun _ _ => rfl⟩

/-- The flush offers one event for each pending release. -/
theorem flushKeyed_offered (cfg : WheelKeys) (h : Host) :
    (flushKeyed cfg h).offered = h.offered + pendingCount cfg h := by
  unfold flushKeyed pendingCount
  split
  · -- no index comes twice, so a round leaves the bits of the later ones
    have hidxs : ∀ idxs : List DpadIdx, idxs.Nodup → ∀ h : Host, (idxs.foldl flushDpad h).offered =
        h.offered + (idxs.filter fun idx => h.pendingDpadRelease &&& idx.mask ≠ 0).length := by
      intro idxs hnd
      induction idxs with
      | nil => exact fun _ => rfl
      | cons idx idxs ih =>
        intro h
        obtain ⟨hoff, hother⟩ := flushDpad_offered h idx
        obtain ⟨hnot, hnd⟩ := List.nodup_cons.mp hnd
        have hsame : (idxs.filter fun i => (flushDpad h idx).pendingDpadRelease &&& i.mask ≠ 0) =
            idxs.filter fun i => h.pendingDpadRelease &&& i.mask ≠ 0 :=
          List.filter_congr fun i hi => by rw [hother i fun he => hnot (he ▸ hi)]
        rw [List.foldl_cons, ih hnd, hsame, hoff, List.filter_cons]
        by_cases hp : h.pendingDpadRelease &&& idx.mask ≠ 0
        · rw [if_pos hp, if_pos (decide_eq_true hp), List.length_cons]
          omega
        · rw [if_neg hp, if_neg (by simpa using hp)]
          rfl
    exact hidxs dpadIdxs (by decide) h
  · rfl

/-- The release loop releases exactly the held buttons whose release is accepted. -/
theorem releaseButton_loop (h : Host) (held : U32) {n : ℕ} (hn : n ≤ 32) :
    ∀ s, s = (List.range n).foldl (releaseButton held) h →
      s.accepts = h.accepts ∧ s.offered = h.offered + heldBelow held n ∧
      ∀ i, isPressed s.events (.button i) =
        if i < n ∧ held.getLsbD i ∧ h.accepts (h.offered + heldBelow held i) then false
        else isPressed h.events (.button i) := by
  induction n with
  | zero =>
    rintro s rfl
    exact ⟨rfl, rfl, fun i => by simp⟩
  | succ n ih =>
    rintro s rfl
    obtain ⟨hacc, hoff, hpress⟩ := ih (by omega) _ rfl
    rw [List.range_succ, List.foldl_append, List.foldl_cons, List.foldl_nil]
    generalize (List.range n).foldl (releaseButton held) h = s at hacc hoff hpress
    have hother : ∀ i, i ≠ n → (i < n + 1 ↔ i < n) := fun i hi => by omega
    have hiff := and_shiftLeft_one_ne_zero held (show n < 32 by omega)
    unfold releaseButton
    rw [heldBelow_succ]
    split
    · next hc =>
      have hbit := hiff.mp hc
      rw [if_pos hbit]
      refine ⟨hacc, by rw [Host.report_offered, hoff]; rfl, ?_⟩
      intro i
      rw [Host.isPressed_report, hpress, Host.accepting, hacc, hoff]
      by_cases hin : i = n
      · subst hin
        simp [pressedStep, hbit]
      · have hne : ¬ n = i := fun he => hin he.symm
        simp only [pressedStep, KeyCode.button.injEq, hne, if_false, ite_self, hother i hin]
    · next hc =>
      have hbit := mt hiff.mpr hc
      rw [if_neg hbit]
      refine ⟨hacc, hoff, ?_⟩
      intro i
      rw [hpress]
      by_cases hin : i = n
      · subst hin
        simp [hbit]
      · simp only [hother i hin]

/-- **A reset keeps `prev_buttons` and the host in sync exactly when the queue
accepts every release it offers.** -/
theorem inSync_reset_iff (cfg : WheelKeys) {h : Host} (hs : InSync h) :
    InSync (bleHidHostReset cfg h) ↔ ReleasesAccepted cfg h := by
  have hsame := sameButtons_flushKeyed cfg h
  have hflush := hsame.inSync_iff.mpr hs
  unfold bleHidHostReset ReleasesAccepted
  simp only
  rw [← flushKeyed_offered, ← hsame.1, ← hsame.2.1]
  generalize flushKeyed cfg h = f at hflush
  split
  · next hzero => exact iff_of_true hflush fun i _ hi => by simp [hzero] at hi
  · obtain ⟨-, -, hpress⟩ := releaseButton_loop f f.prevButtons (n := publishBtns) (by decide) _ rfl
    unfold InSync
    have hzero : ∀ i, (0 : U32).getLsbD i = false := fun i => BitVec.getLsbD_zero
    simp only [hzero, hpress]
    constructor
    · -- a dropped release leaves the host with a press that the module has cleared
      intro hall i hi hbit
      by_contra hdrop
      have hi' := hall i
      rw [if_neg fun hc => hdrop hc.2.2, ← hflush i, hbit] at hi'
      exact absurd hi' (by simp)
    · intro hall i
      by_cases hi : i < publishBtns
      · by_cases hbit : f.prevButtons.getLsbD i
        · rw [if_pos ⟨hi, hbit, hall i hi hbit⟩, Bool.and_false]
        · rw [if_neg fun hc => hbit hc.2.1, ← hflush i]
          simpa using hbit
      · simp [hi]

/-! ### Sequences of calls -/

/-- A call into the device. -/
inductive Call where
  | publish (r : PointerReport)
  | reset
  deriving DecidableEq, Repr

/-- One call. -/
def Call.run (cfg : WheelKeys) (h : Host) : Call → Host
  | .publish r => bleHidHostPublish cfg h r
  | .reset => bleHidHostReset cfg h

/-- The device after a sequence of calls from the start. -/
def hostAfter (cfg : WheelKeys) (accepts : ℕ → Bool) (calls : List Call) : Host :=
  calls.foldl (Call.run cfg) (.start accepts)

theorem hostAfter_concat (cfg : WheelKeys) (accepts : ℕ → Bool) (calls : List Call) (c : Call) :
    hostAfter cfg accepts (calls ++ [c]) = c.run cfg (hostAfter cfg accepts calls) := by
  simp [hostAfter, List.foldl_append]

theorem inSync_start (accepts : ℕ → Bool) : InSync (.start accepts) := fun i => by
  simp [Host.start]

/-- **After every call of a sequence the module and the host agree on the buttons
exactly when no reset of the sequence has a release dropped.** -/
theorem inSync_calls_iff (cfg : WheelKeys) (accepts : ℕ → Bool) (calls : List Call) :
    (∀ n ≤ calls.length, InSync (hostAfter cfg accepts (calls.take n))) ↔
      ∀ n, calls[n]? = some .reset →
        ReleasesAccepted cfg (hostAfter cfg accepts (calls.take n)) := by
  have hstep : ∀ n c, calls[n]? = some c → hostAfter cfg accepts (calls.take (n + 1)) =
      c.run cfg (hostAfter cfg accepts (calls.take n)) := by
    intro n c hc
    rw [List.take_add_one, hc, Option.toList_some, hostAfter_concat]
  constructor
  · intro hall n hn
    obtain ⟨hlt, -⟩ := List.getElem?_eq_some_iff.mp hn
    have hnext := hall (n + 1) hlt
    rw [hstep n _ hn] at hnext
    exact (inSync_reset_iff cfg (hall n hlt.le)).mp hnext
  · -- by induction on the number of calls made
    intro hall n
    induction n with
    | zero => exact fun _ => inSync_start accepts
    | succ n ih =>
      intro hn
      have hsync := ih (by omega)
      have hc := List.getElem?_eq_getElem (l := calls) hn
      rw [hstep n _ hc]
      cases hcall : calls[n] with
      | publish r => exact inSync_publish cfg r hsync
      | reset =>
        rw [hcall] at hc
        exact (inSync_reset_iff cfg hsync).mpr (hall n hc)

/-- The first button is pressed, and the queue drops its release at the reset:
the host keeps the button, and the module has forgotten it. -/
theorem dropped_release_latches :
    let h := hostAfter ⟨false, false⟩ (· != 2) [.publish ⟨0, 0, 0, 0, 1⟩, .reset]
    h.prevButtons = 0 ∧ isPressed h.events (.button 0) = true ∧ ¬ InSync h := by
  refine ⟨by decide, by decide, ?_⟩
  intro hs
  have h0 := hs 0
  exact absurd h0 (by decide)

end BleHidHost
