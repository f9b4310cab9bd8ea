import BleHidHost.Report

/-!
# The virtual input device

The device that turns decoded reports into input events.  Events go to an input
queue that may drop any of them; the device keeps the buttons it believes held,
and the wheel-tap releases it still owes.

## Main definitions

* `InputEvent` — what is offered to the input queue.
* `Host` — the device's data, and the input queue behind it.
* `bleHidHostPublish`, `bleHidHostReset` — the two calls into the device.
* `isPressed` — what the host has last been told of a key.
-/

namespace BleHidHost

/-- `BLE_HID_HOST_PUBLISH_BTNS`. -/
def publishBtns : ℕ := 8

/-- `enum dpad_idx`. -/
inductive DpadIdx where
  | left
  | right
  | up
  | down
  deriving DecidableEq, Repr, Inhabited

/-- The indices in the order of the enumeration. -/
def dpadIdxs : List DpadIdx := [.left, .right, .up, .down]

/-- `1u << idx`. -/
def DpadIdx.mask : DpadIdx → U8
  | .left => 1
  | .right => 2
  | .up => 4
  | .down => 8

/-- The key codes the device reports: `INPUT_BTN_0 + i`, and `dpad_codes`. -/
inductive KeyCode where
  | button (i : ℕ)
  | dpad (idx : DpadIdx)
  deriving DecidableEq, Repr, Inhabited

/-- The relative axes the device reports. -/
inductive RelCode where
  | x
  | y
  | hwheel
  | wheel
  deriving DecidableEq, Repr, Inhabited

/-- An event offered to the input queue, with its sync flag. -/
inductive InputEvent where
  | key (code : KeyCode) (pressed sync : Bool)
  | rel (code : RelCode) (value : ℤ) (sync : Bool)
  deriving DecidableEq, Repr, Inhabited

/-- The two build options that turn wheel ticks into key taps. -/
structure WheelKeys where
  hwheelAsKeys : Bool
  wheelAsKeys : Bool
  deriving DecidableEq, Repr, Inhabited

/-- `struct ble_hid_host_data`, and the input queue the device reports to. -/
structure Host where
  prevButtons : U32
  pendingDpadRelease : U8
  /-- Whether the queue accepts the `n`-th event offered to it. -/
  accepts : ℕ → Bool
  /-- The number of events offered so far. -/
  offered : ℕ
  /-- The accepted events, the latest last. -/
  events : List InputEvent

namespace Host

/-- A device that has reported nothing yet. -/
def start (accepts : ℕ → Bool) : Host := ⟨0, 0, accepts, 0, []⟩

/-- The queue accepts the next event. -/
def accepting (h : Host) : Bool := h.accepts h.offered

/-- `input_report_key` and `input_report_rel`: offer one event to the queue. -/
def report (h : Host) (ev : InputEvent) : Host :=
  { h with
    offered := h.offered + 1
    events := if h.accepting then h.events ++ [ev] else h.events }

end Host

/-! ### Wheel taps -/

/-- `tap_btn`: press and release; a release that is dropped is remembered. -/
def tapBtn (h : Host) (idx : DpadIdx) : Host :=
  let pressed := h.report (.key (.dpad idx) true false)
  -- a press that is dropped leaves nothing to release
  if ¬ h.accepting then pressed
  else
    let released := pressed.report (.key (.dpad idx) false false)
    if ¬ pressed.accepting then
      { released with pendingDpadRelease := released.pendingDpadRelease ||| idx.mask }
    else released

/-- One round of `flush_pending_dpad_releases`. -/
def flushDpad (h : Host) (idx : DpadIdx) : Host :=
  if h.pendingDpadRelease &&& idx.mask ≠ 0 then
    let released := h.report (.key (.dpad idx) false false)
    if h.accepting then
      { released with pendingDpadRelease := released.pendingDpadRelease &&& ~~~idx.mask }
    else released
  else h

/-- `flush_pending_dpad_releases`. -/
def flushPendingDpadReleases (h : Host) : Host := dpadIdxs.foldl flushDpad h

/-- The flush at the head of both calls, built in with either option. -/
def flushKeyed (cfg : WheelKeys) (h : Host) : Host :=
  if cfg.hwheelAsKeys || cfg.wheelAsKeys then flushPendingDpadReleases h else h

/-! ### Publishing a report -/

/-- One round of the button loop, which gathers the accepted edges. -/
def publishButton (r : PointerReport) (changed : U32) (s : Host × U32) (i : ℕ) : Host × U32 :=
  if changed &&& (1 : U32) <<< i ≠ 0 then
    (s.1.report (.key (.button i) (r.buttons.getLsbD i) false),
      if s.1.accepting then s.2 ||| (1 : U32) <<< i else s.2)
  else s

/-- The button edges of a report: `prev_buttons` advances for the accepted ones. -/
def publishButtons (h : Host) (r : PointerReport) : Host :=
  -- a dropped edge stays in `changed` and is offered again by the next report
  let s := (List.range publishBtns).foldl (publishButton r (r.buttons ^^^ h.prevButtons)) (h, 0)
  { s.1 with prevButtons := h.prevButtons &&& ~~~s.2 ||| r.buttons &&& s.2 }

/-- Relative motion, without zero deltas. -/
def reportDelta (code : RelCode) (value : ℤ) (h : Host) : Host :=
  if value ≠ 0 then h.report (.rel code value false) else h

/-- The horizontal wheel: scroll, or a tap. -/
def publishHwheel (cfg : WheelKeys) (r : PointerReport) (h : Host) : Host :=
  if cfg.hwheelAsKeys then
    if r.hwheel < 0 then tapBtn h .left else if 0 < r.hwheel then tapBtn h .right else h
  else reportDelta .hwheel r.hwheel h

/-- The vertical wheel: scroll, or a tap, and the terminator of the report. -/
def publishWheel (cfg : WheelKeys) (r : PointerReport) (h : Host) : Host :=
  if cfg.wheelAsKeys then
    (if 0 < r.wheel then tapBtn h .up else if r.wheel < 0 then tapBtn h .down else h).report
      -- the terminator flushes without scrolling
      (.rel .wheel 0 true)
  else h.report (.rel .wheel r.wheel true)

/-- `ble_hid_host_publish`. -/
def bleHidHostPublish (cfg : WheelKeys) (h : Host) (r : PointerReport) : Host :=
  publishWheel cfg r <| publishHwheel cfg r <| reportDelta .y r.dy <| reportDelta .x r.dx <|
    publishButtons (flushKeyed cfg h) r

/-! ### Reset -/

/-- The highest held button, `-1` when there is none. -/
def lastHeld (held : U32) : ℤ :=
  (List.range publishBtns).foldl
    (fun (last : ℤ) (i : ℕ) => if held &&& (1 : U32) <<< i ≠ 0 then (i : ℤ) else last) (-1)

/-- One round of the release loop. -/
def releaseButton (held : U32) (h : Host) (i : ℕ) : Host :=
  if held &&& (1 : U32) <<< i ≠ 0 then
    h.report (.key (.button i) false ((i : ℤ) == lastHeld held))
  else h

/-- `ble_hid_host_reset`. -/
def bleHidHostReset (cfg : WheelKeys) (h : Host) : Host :=
  let flushed := flushKeyed cfg h
  if flushed.prevButtons = 0 then flushed
  else
    -- whether a release is accepted is not looked at
    { (List.range publishBtns).foldl (releaseButton flushed.prevButtons) flushed with
      prevButtons := 0 }

/-! ### What the host was told -/

/-- One accepted event's effect on whether a key is pressed. -/
def pressedStep (code : KeyCode) (pressed : Bool) : InputEvent → Bool
  | .key c p _ => if c = code then p else pressed
  | .rel _ _ _ => pressed

/-- The latest event of a key, if any, is a press. -/
def isPressed (events : List InputEvent) (code : KeyCode) : Bool :=
  events.foldl (pressedStep code) false

@[simp] theorem isPressed_nil (code : KeyCode) : isPressed [] code = false := rfl

@[simp] theorem isPressed_concat (events : List InputEvent) (ev : InputEvent) (code : KeyCode) :
    isPressed (events ++ [ev]) code = pressedStep code (isPressed events code) ev := by
  simp [isPressed, List.foldl_append]

@[simp] theorem Host.report_prevButtons (h : Host) (ev : InputEvent) :
    (h.report ev).prevButtons = h.prevButtons := rfl

@[simp] theorem Host.report_accepts (h : Host) (ev : InputEvent) :
    (h.report ev).accepts = h.accepts := rfl

@[simp] theorem Host.report_offered (h : Host) (ev : InputEvent) :
    (h.report ev).offered = h.offered + 1 := rfl

/-- An accepted event is what the host was last told. -/
theorem Host.isPressed_report (h : Host) (ev : InputEvent) (code : KeyCode) :
    isPressed (h.report ev).events code =
      if h.accepting then pressedStep code (isPressed h.events code) ev
      else isPressed h.events code := by
  unfold Host.report
  split <;> simp

/-- A bit test of the source. -/
theorem and_shiftLeft_one_ne_zero (x : U32) {i : ℕ} (hi : i < 32) :
    x &&& (1 : U32) <<< i ≠ 0 ↔ x.getLsbD i := by
  have hpow : (1 : U32) <<< i = BitVec.twoPow 32 i := rfl
  rw [hpow, BitVec.and_twoPow]
  split
  · next h =>
    apply iff_of_true _ h
    intro hz
    have := congrArg (BitVec.getLsbD · i) hz
    simp [hi] at this
  · next h => exact iff_of_false (fun hne => hne rfl) h

end BleHidHost
