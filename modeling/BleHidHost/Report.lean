import Mathlib.Data.Int.Notation
import Mathlib.Data.Nat.Notation

/-!
# Reports, layouts and their machine integers

The data of the parser's public header: where the fields of a peer's input
report lie, as derived from its Report Map, and what a decoded report carries.
The source's fixed-width integers are bit vectors of that width, so its casts
are `BitVec.setWidth` and its wrap-around is that of the type.  A pointer the
source checks against `NULL` has no counterpart: every value here exists.

## Main definitions

* `Field` — the location of one logical field inside a raw input report.
* `ReportLayout`, `KeyboardLayout` — the fields of a pointer or keyboard report.
* `PointerReport`, `KeyboardReport` — a decoded report.
-/

namespace BleHidHost

/-- `uint8_t`. -/
abbrev U8 := BitVec 8

/-- `uint16_t`. -/
abbrev U16 := BitVec 16

/-- `uint32_t`. -/
abbrev U32 := BitVec 32

/-- `ZMK_HID_MAX_BUTTONS`. -/
def maxButtons : ℕ := 16

/-- `ZMK_HID_MAX_KEYS`. -/
def maxKeys : ℕ := 16

/-- Location of one logical field inside a raw input report.  Offsets count from
the first payload bit; `bitSize = 0` means the field is absent. -/
structure Field where
  bitOffset : U16
  bitSize : U8
  isSigned : Bool
  deriving DecidableEq, Repr, Inhabited

/-- The field after `memset(.., 0, ..)`. -/
def Field.zero : Field := ⟨0, 0, false⟩

/-- The field is present in its report. -/
def Field.Present (f : Field) : Prop := f.bitSize ≠ 0

instance (f : Field) : Decidable f.Present := inferInstanceAs (Decidable (_ ≠ _))

/-- The field is absent from a cleared layout. -/
@[simp] theorem Field.not_present_zero : ¬ Field.zero.Present := by
  simp [Field.Present, Field.zero]

/-- Where each pointer field lives in a peer's input report. -/
structure ReportLayout where
  /-- The Report ID this layout describes, `0` when the device uses none. -/
  reportId : U8
  x : Field
  y : Field
  wheel : Field
  hwheel : Field
  buttons : Field
  buttonCount : U8
  valid : Bool
  deriving DecidableEq, Repr, Inhabited

/-- The pointer layout after `memset(out, 0, sizeof(*out))`. -/
def ReportLayout.zero : ReportLayout :=
  ⟨0, .zero, .zero, .zero, .zero, .zero, 0, false⟩

/-- Where the keyboard fields live in a peer's input report. -/
structure KeyboardLayout where
  reportId : U8
  modifiers : Field
  /-- The keycode array: the first entry's offset, and the width of one entry. -/
  keys : Field
  keyCount : U8
  valid : Bool
  deriving DecidableEq, Repr, Inhabited

/-- The keyboard layout after `memset(out, 0, sizeof(*out))`. -/
def KeyboardLayout.zero : KeyboardLayout := ⟨0, .zero, .zero, 0, false⟩

/-- A decoded pointer report: relative deltas, and one bit for each button. -/
structure PointerReport where
  dx : ℤ
  dy : ℤ
  wheel : ℤ
  hwheel : ℤ
  buttons : U32
  deriving DecidableEq, Repr, Inhabited

/-- A decoded keyboard report: the modifier bits, and the keycodes held. -/
structure KeyboardReport where
  modifiers : U8
  /-- `keys[0 .. key_count)`. -/
  keys : List U8
  deriving DecidableEq, Repr, Inhabited

end BleHidHost
