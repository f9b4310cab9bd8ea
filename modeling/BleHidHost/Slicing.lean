import BleHidHost.Connection
import BleHidHost.Decode

/-!
# What a decoded report depends on

A report decodes to slices of the payload's number, so it depends on the bits that
its layout needs and on no others: a payload that is cut in the queue decodes to
the same report or to none.

## Main definitions

* `fieldValue` — the value of a field, by division and remainder.
* `AgreeBelow` — two payloads have the same first bits.

## Main results

* `zmkHidDecodeReport_eq_fieldValues` — **a report is decoded by slicing.**
* `zmkHidDecodeReport_locality` — **what lies behind the fields does not matter.**
-/

namespace BleHidHost

open Lib

/-! ### Slices by arithmetic -/

/-- A number of `w` bits in two's complement. -/
def twosComplement (w v : ℕ) : ℤ := if 2 * v < 2 ^ w then v else v - 2 ^ w

/-- The value of a field of the payload whose number is `n`: a quotient and a
remainder, in two's complement where it is signed, else reinterpreted as `int32_t`. -/
def fieldValue (n : ℕ) (f : Field) : ℤ :=
  if f.bitSize = 0 then 0
  else
    let v := n / 2 ^ f.bitOffset.toNat % 2 ^ f.bitSize.toNat
    if f.isSigned then twosComplement f.bitSize.toNat v else twosComplement 32 v

/-- Two's complement is how a bit vector is read as an integer. -/
theorem toInt_eq_twosComplement {w : ℕ} (x : BitVec w) : x.toInt = twosComplement w x.toNat := by
  rw [BitVec.toInt_eq_toNat_cond, twosComplement]
  push_cast
  rfl

/-- The value that `extract` finds. -/
theorem extract_eq_fieldValue (p : List U8) (f : Field) (h : f.bitSize.toNat ≤ 32) :
    extract p f = fieldValue (leNat p) f := by
  by_cases h0 : f.bitSize = 0
  · rw [extract, if_pos h0, fieldValue, if_pos h0]
  · rw [extract_eq_slice p f h, fieldValue, if_neg h0]
    simp only [toInt_eq_twosComplement, BitVec.toNat_setWidth, toNat_slice]
    -- a field of at most 32 bits keeps its number in a word
    have hlt : leNat p / 2 ^ f.bitOffset.toNat % 2 ^ f.bitSize.toNat < 2 ^ 32 :=
      lt_of_lt_of_le (Nat.mod_lt _ (Nat.two_pow_pos _)) (Nat.pow_le_pow_right (by decide) h)
    rw [Nat.mod_eq_of_lt hlt]

/-- A button is pressed when the remainder at its place is nonzero. -/
theorem buttonField_ne_zero_iff_mod (p : List U8) (base : ℕ) {stride : ℕ} (h : stride ≤ 32) :
    buttonField p base stride ≠ 0 ↔ leNat p / 2 ^ base % 2 ^ stride ≠ 0 := by
  rw [buttonField_ne_zero_iff p base h, ne_eq, ← BitVec.toNat_inj, toNat_slice,
    BitVec.toNat_ofNat, Nat.zero_mod]

/-- A button's field is not wider than what the layout records, or one bit. -/
theorem buttonStride_le {l : ReportLayout} {n : ℕ} (h : l.buttons.bitSize.toNat ≤ n) (hn : 1 ≤ n) :
    buttonStride l ≤ n := by
  unfold buttonStride
  split
  · exact h
  · exact hn

/-- **Decoding is slicing**: in a payload that is long enough each axis has the value
at its place in the payload's number, and the buttons held are those whose field there
is nonzero. -/
theorem zmkHidDecodeReport_eq_fieldValues (l : ReportLayout) (p : List U8) (hvalid : l.valid)
    (haxes : ∀ f ∈ [l.x, l.y, l.wheel, l.hwheel], f.bitSize.toNat ≤ 32)
    (hbuttons : l.buttons.bitSize.toNat ≤ 32) (hcount : l.buttonCount.toNat ≤ maxButtons)
    (hgate : (payloadBits l + 7) / 8 ≤ p.length) :
    ∃ r, zmkHidDecodeReport l p = some r ∧
      r.dx = fieldValue (leNat p) l.x ∧ r.dy = fieldValue (leNat p) l.y ∧
      r.wheel = fieldValue (leNat p) l.wheel ∧ r.hwheel = fieldValue (leNat p) l.hwheel ∧
      ∀ i, r.buttons.getLsbD i = true ↔ i < l.buttonCount.toNat ∧
        leNat p / 2 ^ (l.buttons.bitOffset.toNat + i * buttonStride l) % 2 ^ buttonStride l
          ≠ 0 := by
  have hdec := (zmkHidDecodeReport_eq_some_iff l p _).mpr ⟨hvalid, by omega, rfl⟩
  simp only [List.forall_mem_cons] at haxes
  obtain ⟨hx, hy, hw, hh, -⟩ := haxes
  refine ⟨_, hdec, extract_eq_fieldValue p _ hx, extract_eq_fieldValue p _ hy,
    extract_eq_fieldValue p _ hw, extract_eq_fieldValue p _ hh, ?_⟩
  intro i
  rw [getLsbD_buttonBits, decide_eq_true_iff, min_eq_left hcount,
    buttonField_ne_zero_iff_mod p _ (buttonStride_le hbuttons (by decide))]

/-- Twelve-bit axes that share a byte, and three buttons of two bits. -/
def packedLayout : ReportLayout where
  reportId := 1
  x := ⟨6, 12, true⟩
  y := ⟨18, 12, true⟩
  wheel := ⟨30, 2, false⟩
  hwheel := .zero
  buttons := ⟨0, 2, false⟩
  buttonCount := 3
  valid := true

theorem zmkHidDecodeReport_eq_fieldValues_packed :
    zmkHidDecodeReport packedLayout [0xD2, 0xFF, 0x17, 0xC0] = some ⟨-1, 5, 3, 0, 0b101⟩ ∧
      ∃ r, zmkHidDecodeReport packedLayout [0xD2, 0xFF, 0x17, 0xC0] = some r ∧
        r.dx = fieldValue (leNat [0xD2, 0xFF, 0x17, 0xC0]) packedLayout.x := by
  obtain ⟨r, hdec, hx, -⟩ := zmkHidDecodeReport_eq_fieldValues packedLayout [0xD2, 0xFF, 0x17, 0xC0]
    (by decide) (by decide) (by decide) (by decide) (by decide)
  exact ⟨by decide, r, hdec, hx⟩

/-! ### Locality -/

/-- Two payloads have the same first `n` bits. -/
def AgreeBelow (n : ℕ) (p q : List U8) : Prop := ∀ i, i < n → bitAt p i = bitAt q i

/-- A payload agrees with any that it begins, on all of its bits. -/
theorem agreeBelow_append (p s : List U8) {n : ℕ} (h : n ≤ 8 * p.length) :
    AgreeBelow n p (p ++ s) := by
  intro i hi
  simp only [bitAt, List.getD_eq_getElem?_getD]
  rw [List.getElem?_append_left (by omega)]

/-- A field's slice depends on the bits up to its end, whatever its width. -/
theorem slice_congr {p q : List U8} {n off w : ℕ} (h : AgreeBelow n p q) (hn : off + w ≤ n) :
    slice p off w = slice q off w := by
  apply slice_eq_of_bitAt
  intro j hj
  rw [getLsbD_slice, decide_eq_true hj, Bool.true_and, h _ (by omega)]

/-- So does what `extract` finds. -/
theorem extract_congr {p q : List U8} {n : ℕ} {f : Field} (h : AgreeBelow n p q)
    (hn : f.Present → f.endBit ≤ n) : extract p f = extract q f := by
  unfold extract
  split
  · rfl
  · next h0 => rw [extractLoop_eq_slice, extractLoop_eq_slice, slice_congr h (hn h0)]

/-- And so does a button's field. -/
theorem buttonField_congr {p q : List U8} {n base stride : ℕ} (h : AgreeBelow n p q)
    (hn : base + stride ≤ n) : buttonField p base stride = buttonField q base stride := by
  apply BitVec.eq_of_getLsbD_eq
  intro j _
  rw [getLsbD_buttonField, getLsbD_buttonField]
  by_cases hj : j < stride
  · rw [h _ (by omega)]
  · rw [decide_eq_false fun hc => hj hc.1, Bool.false_and, Bool.false_and]

/-- A button's field lies in the button run. -/
theorem buttonField_end_le {l : ReportLayout} {i : ℕ} (hi : i < l.buttonCount.toNat) :
    l.buttons.bitOffset.toNat + i * buttonStride l + buttonStride l ≤ buttonsEnd l := by
  have hmul : (i + 1) * buttonStride l ≤ l.buttonCount.toNat * buttonStride l :=
    Nat.mul_le_mul_right _ hi
  rw [Nat.succ_mul] at hmul
  unfold buttonsEnd
  omega

/-- The buttons held depend on the bits up to the end of their run. -/
theorem buttonBits_congr {l : ReportLayout} {p q : List U8} {n : ℕ} (h : AgreeBelow n p q)
    (hn : l.buttonCount ≠ 0 → buttonsEnd l ≤ n) : buttonBits l p = buttonBits l q := by
  apply BitVec.eq_of_getLsbD_eq
  intro i _
  rw [getLsbD_buttonBits, getLsbD_buttonBits]
  by_cases hi : i < min l.buttonCount.toNat maxButtons
  · have hlt : i < l.buttonCount.toNat := lt_of_lt_of_le hi (min_le_left _ _)
    have hne : l.buttonCount ≠ 0 := fun h0 => by
      rw [h0] at hlt
      exact absurd hlt (Nat.not_lt_zero i)
    rw [buttonField_congr h (le_trans (buttonField_end_le hlt) (hn hne))]
  · rw [decide_eq_false fun hc => hi hc.1, decide_eq_false fun hc => hi hc.1]

/-- **A report depends on the bits that the layout needs.** -/
theorem zmkHidDecodeReport_congr {l : ReportLayout} {p q : List U8} {r : PointerReport}
    (h : AgreeBelow (payloadBits l) p q) (hq : payloadBits l ≤ 8 * q.length)
    (hp : zmkHidDecodeReport l p = some r) : zmkHidDecodeReport l q = some r := by
  obtain ⟨hvalid, -, rfl⟩ := (zmkHidDecodeReport_eq_some_iff l p r).mp hp
  rw [zmkHidDecodeReport_eq_some_iff]
  obtain ⟨haxes, hbuttons⟩ := (payloadBits_le_iff l (payloadBits l)).mp le_rfl
  simp only [List.forall_mem_cons] at haxes
  obtain ⟨hx, hy, hw, hh, -⟩ := haxes
  refine ⟨hvalid, hq, ?_⟩
  rw [extract_congr h hx, extract_congr h hy, extract_congr h hw, extract_congr h hh,
    buttonBits_congr h hbuttons]

/-- A payload that decodes does so with anything behind it. -/
theorem zmkHidDecodeReport_of_append {l : ReportLayout} {p s : List U8} {r : PointerReport}
    (h : zmkHidDecodeReport l p = some r) : zmkHidDecodeReport l (p ++ s) = some r := by
  obtain ⟨-, hlen, -⟩ := (zmkHidDecodeReport_eq_some_iff l p r).mp h
  refine zmkHidDecodeReport_congr (agreeBelow_append p s hlen) ?_ h
  rw [List.length_append]
  omega

/-- A prefix of a payload decodes as the payload does, or not at all. -/
theorem zmkHidDecodeReport_of_prefix {l : ReportLayout} {p q : List U8} (h : q <+: p) :
    zmkHidDecodeReport l q = none ∨ zmkHidDecodeReport l q = zmkHidDecodeReport l p := by
  obtain ⟨s, rfl⟩ := h
  cases hq : zmkHidDecodeReport l q with
  | none => exact Or.inl rfl
  | some r => exact Or.inr (zmkHidDecodeReport_of_append hq).symm

/-- **Cutting a payload for the queue never makes another report of it**: the copy of a
notification decodes as the payload does, or not at all.  So does every prefix, and a
payload that decodes does so to the same report with anything behind it. -/
theorem zmkHidDecodeReport_locality (l : ReportLayout) (p : List U8) :
    (∀ sub, zmkHidDecodeReport l (reportEvt sub p).data = none ∨
      zmkHidDecodeReport l (reportEvt sub p).data = zmkHidDecodeReport l p) ∧
    (∀ q, q <+: p → zmkHidDecodeReport l q = none ∨
      zmkHidDecodeReport l q = zmkHidDecodeReport l p) ∧
    ∀ r, zmkHidDecodeReport l p = some r → ∀ s, zmkHidDecodeReport l (p ++ s) = some r :=
  ⟨fun _ => zmkHidDecodeReport_of_prefix (List.take_prefix _ p),
    fun _ => zmkHidDecodeReport_of_prefix, fun _ h _ => zmkHidDecodeReport_of_append h⟩

end BleHidHost
