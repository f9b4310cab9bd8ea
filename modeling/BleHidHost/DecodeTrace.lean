import BleHidHost.Decode
import BleHidHost.Lib.Traced

/-!
# The decoder step by step

The decoder once more, with what it does on the way: it tells every round of a gathering loop
as it enters it, and the count of every shift as it executes it.

## Main definitions

* `Round` — one round of a gathering loop.
* `zmkHidDecodeReportTraced`, `zmkHidDecodeKeyboardReportTraced` — the two decoders, telling
  their steps.

## Main results

* `val_zmkHidDecodeReportTraced`, `val_zmkHidDecodeKeyboardReportTraced` — **they decode what
  the decoders decode.**
-/

namespace BleHidHost

open Lib

/-! ### Steps -/

/-- One round of a gathering loop: bit `base + place` of the payload goes to bit
`place` of the value. -/
structure Round where
  base : ℕ
  place : ℕ
  deriving DecidableEq, Repr

/-- What is told of the decoder. -/
inductive DecodeStep
  /-- A round is entered. -/
  | round (r : Round)
  /-- A 32-bit value is shifted by this count. -/
  | shift (count : ℕ)

/-- The round of a step. -/
def DecodeStep.round? : DecodeStep → Option Round
  | .round r => some r
  | .shift _ => none

/-- The shift count of a step. -/
def DecodeStep.shift? : DecodeStep → Option ℕ
  | .round _ => none
  | .shift count => some count

open Traced (tell)

/-! ### Fields -/

/-- `shiftedBit`, and its two shifts. -/
def shiftedBitTraced (p : List U8) (bit i : ℕ) : Traced DecodeStep U32 := do
  tell (.shift (bit &&& 7))
  tell (.shift i)
  pure (shiftedBit p bit i)

/-- The loop of `extract`. -/
def extractLoopTraced (p : List U8) (off : ℕ) : ℕ → ℕ → U32 → Traced DecodeStep U32
  | 0, _, v => pure v
  | n + 1, i, v => do
    tell (.round ⟨off, i⟩)
    if p.length ≤ (off + i) >>> 3 then pure v
    else do
      let bit ← shiftedBitTraced p (off + i) i
      extractLoopTraced p off n (i + 1) (v ||| bit)

/-- The sign extension of `extract`. -/
def extendSignTraced (f : Field) (v : U32) : Traced DecodeStep U32 :=
  if f.isSigned ∧ f.bitSize < 32 then do
    tell (.shift (f.bitSize.toNat - 1))
    if v &&& ((1 : U32) <<< (f.bitSize.toNat - 1)) ≠ 0 then do
      tell (.shift f.bitSize.toNat)
      pure (v ||| ~~~((1 : U32) <<< f.bitSize.toNat - 1))
    else pure v
  else pure v

/-- `extract`. -/
def extractTraced (p : List U8) (f : Field) : Traced DecodeStep ℤ :=
  if f.bitSize = 0 then pure 0
  else do
    let v ← extractLoopTraced p f.bitOffset.toNat f.bitSize.toNat 0 0
    let v ← extendSignTraced f v
    pure v.toInt

/-! ### Pointer reports -/

/-- The first bit of a button's field. -/
def buttonBase (l : ReportLayout) (i : ℕ) : ℕ := l.buttons.bitOffset.toNat + i * buttonStride l

/-- The field of one button. -/
def buttonFieldTraced (p : List U8) (base stride : ℕ) : Traced DecodeStep U32 :=
  (List.range stride).foldlM
    (fun field b => do
      tell (.round ⟨base, b⟩)
      if (base + b) >>> 3 < p.length then do
        let bit ← shiftedBitTraced p (base + b) b
        pure (field ||| bit)
      else pure field) 0

/-- The button loop. -/
def buttonBitsTraced (l : ReportLayout) (p : List U8) : Traced DecodeStep U32 :=
  (List.range (min l.buttonCount.toNat maxButtons)).foldlM
    (fun buttons i => do
      let field ← buttonFieldTraced p (buttonBase l i) (buttonStride l)
      if field ≠ 0 then do
        tell (.shift i)
        pure (buttons ||| (1 : U32) <<< i)
      else pure buttons) 0

/-- `zmk_hid_decode_report`. -/
def zmkHidDecodeReportTraced (l : ReportLayout) (report : List U8) :
    Traced DecodeStep (Option PointerReport) :=
  if ¬ l.valid then pure none
  else if report.length < (payloadBits l + 7) / 8 then pure none
  else do
    let dx ← extractTraced report l.x
    let dy ← extractTraced report l.y
    let wheel ← extractTraced report l.wheel
    let hwheel ← extractTraced report l.hwheel
    let buttons ← buttonBitsTraced l report
    pure (some ⟨dx, dy, wheel, hwheel, buttons⟩)

/-! ### Keyboard reports -/

/-- One round of the keycode loop. -/
def decodeKeyTraced (l : KeyboardLayout) (report : List U8) (keys : List U8) (i : ℕ) :
    Traced DecodeStep (List U8) :=
  if keys.length < maxKeys then do
    let value ← extractTraced report (keyEntry l i)
    let code : U32 := BitVec.ofInt 32 value
    if code ≠ 0 ∧ code ≠ 0x01 then pure (keys ++ [code.setWidth 8]) else pure keys
  else pure keys

/-- The modifiers, which are extracted where there are any. -/
def modifiersTraced (l : KeyboardLayout) (report : List U8) : Traced DecodeStep U8 :=
  if l.modifiers.bitSize ≠ 0 then do
    let value ← extractTraced report l.modifiers
    pure (BitVec.ofInt 8 value)
  else pure 0

/-- `zmk_hid_decode_keyboard_report`. -/
def zmkHidDecodeKeyboardReportTraced (l : KeyboardLayout) (report : List U8) :
    Traced DecodeStep (Option KeyboardReport) :=
  if ¬ l.valid then pure none
  else if report.length < (kbdPayloadBits l + 7) / 8 then pure none
  else do
    let modifiers ← modifiersTraced l report
    let keys ← (List.range l.keyCount.toNat).foldlM (decodeKeyTraced l report) []
    pure (some ⟨modifiers, keys⟩)

/-! ### What is decoded -/

@[simp] theorem val_shiftedBitTraced (p : List U8) (bit i : ℕ) :
    (shiftedBitTraced p bit i).val = shiftedBit p bit i := rfl

@[simp] theorem val_extractLoopTraced (p : List U8) (off n i : ℕ) (v : U32) :
    (extractLoopTraced p off n i v).val = extractLoop p off n i v := by
  induction n generalizing i v with
  | zero => rfl
  | succ n ih => simp only [extractLoopTraced, extractLoop, Traced.val_bind, Traced.val_ite,
      Traced.val_pure, val_shiftedBitTraced, ih]

@[simp] theorem val_extendSignTraced (f : Field) (v : U32) :
    (extendSignTraced f v).val = extendSign f v := by
  simp only [extendSignTraced, extendSign, Traced.val_bind, Traced.val_ite, Traced.val_pure]

@[simp] theorem val_extractTraced (p : List U8) (f : Field) :
    (extractTraced p f).val = extract p f := by
  simp only [extractTraced, extract, Traced.val_bind, Traced.val_ite, Traced.val_pure,
    val_extractLoopTraced, val_extendSignTraced]

@[simp] theorem val_buttonFieldTraced (p : List U8) (base stride : ℕ) :
    (buttonFieldTraced p base stride).val = buttonField p base stride := by
  simp only [buttonFieldTraced, buttonField, Traced.val_foldlM, Traced.val_bind, Traced.val_ite,
    Traced.val_pure, val_shiftedBitTraced]

@[simp] theorem val_buttonBitsTraced (l : ReportLayout) (p : List U8) :
    (buttonBitsTraced l p).val = buttonBits l p := by
  simp only [buttonBitsTraced, buttonBits, buttonBase, Traced.val_foldlM, Traced.val_bind,
    Traced.val_ite, Traced.val_pure, val_buttonFieldTraced]

/-- **The traced decoder decodes what the decoder decodes.** -/
theorem val_zmkHidDecodeReportTraced (l : ReportLayout) (report : List U8) :
    (zmkHidDecodeReportTraced l report).val = zmkHidDecodeReport l report := by
  unfold zmkHidDecodeReportTraced zmkHidDecodeReport
  by_cases hvalid : l.valid
  · rw [if_neg (not_not.mpr hvalid), if_neg (not_not.mpr hvalid)]
    by_cases hgate : report.length < (payloadBits l + 7) / 8
    · rw [if_pos hgate, if_pos hgate, Traced.val_pure]
    · rw [if_neg hgate, if_neg hgate]
      simp only [Traced.val_bind, Traced.val_pure]
      rw [val_extractTraced, val_extractTraced, val_extractTraced, val_extractTraced,
        val_buttonBitsTraced]
  · rw [if_pos hvalid, if_pos hvalid, Traced.val_pure]

@[simp] theorem val_decodeKeyTraced (l : KeyboardLayout) (report keys : List U8) (i : ℕ) :
    (decodeKeyTraced l report keys i).val = decodeKey l report keys i := by
  simp only [decodeKeyTraced, decodeKey, Traced.val_bind, Traced.val_ite, Traced.val_pure,
    val_extractTraced]
  by_cases hfull : keys.length < maxKeys
  · simp only [hfull, if_true, true_and]
  · simp only [hfull, if_false, false_and]

@[simp] theorem val_modifiersTraced (l : KeyboardLayout) (report : List U8) :
    (modifiersTraced l report).val =
      if l.modifiers.bitSize ≠ 0 then BitVec.ofInt 8 (extract report l.modifiers) else 0 := by
  simp only [modifiersTraced, Traced.val_bind, Traced.val_ite, Traced.val_pure, val_extractTraced]

/-- So does that for keyboards. -/
theorem val_zmkHidDecodeKeyboardReportTraced (l : KeyboardLayout) (report : List U8) :
    (zmkHidDecodeKeyboardReportTraced l report).val = zmkHidDecodeKeyboardReport l report := by
  unfold zmkHidDecodeKeyboardReportTraced zmkHidDecodeKeyboardReport
  by_cases hvalid : l.valid
  · rw [if_neg (not_not.mpr hvalid), if_neg (not_not.mpr hvalid)]
    by_cases hgate : report.length < (kbdPayloadBits l + 7) / 8
    · rw [if_pos hgate, if_pos hgate, Traced.val_pure]
    · rw [if_neg hgate, if_neg hgate]
      simp only [Traced.val_bind, Traced.val_pure, Traced.val_foldlM]
      simp only [val_decodeKeyTraced, val_modifiersTraced]
  · rw [if_pos hvalid, if_pos hvalid, Traced.val_pure]

end BleHidHost
