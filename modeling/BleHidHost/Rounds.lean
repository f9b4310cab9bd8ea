import BleHidHost.DecodeTrace

/-!
# What the loops of the decoder do

The decoder gathers every field bit by bit: a round of a gathering loop looks at one
bit of the payload and shifts it to its place in the value.  The rounds that a decoder
enters, and the counts of the shifts that it executes on the way, are those that it tells;
here they are listed in closed form.

## Main definitions

* `pointerRounds`, `keyboardRounds` — the rounds the two decoders enter.
* `pointerShifts`, `keyboardShifts` — the counts of the shifts they execute.
* `fieldRounds`, `buttonRounds`, `fieldShifts`, `buttonShifts` — those of one field.

## Main results

* `rounds_extractTraced`, `shifts_extractTraced` — the steps of `extract`.
* `pointerRounds_eq`, `pointerShifts_eq`, `keyboardRounds_eq`, `keyboardShifts_eq` — **the
  steps of the decoders are those of their fields.**
* `mem_extractRounds_of_lt` — a field that lies in the payload is gathered to its end.
-/

namespace BleHidHost

open Lib

/-- The bit that a round looks at. -/
def Round.bit (r : Round) : ℕ := r.base + r.place

/-- The bit lies in the payload, so the round executes its body. -/
def Round.Inside (p : List U8) (r : Round) : Prop := r.bit >>> 3 < p.length

instance (p : List U8) (r : Round) : Decidable (r.Inside p) := inferInstanceAs (Decidable (_ < _))

/-- The counts of the two shifts in a round's body. -/
def Round.shifts (p : List U8) (r : Round) : List ℕ :=
  if r.Inside p then [r.bit &&& 7, r.place] else []

/-- A bit below eight times the length lies in the payload. -/
theorem Round.inside_iff {p : List U8} {r : Round} : r.Inside p ↔ r.bit < 8 * p.length := by
  rw [Round.Inside, Nat.shiftRight_eq_div_pow]
  omega

theorem Round.inside_mk_iff {p : List U8} {base place : ℕ} :
    Round.Inside p ⟨base, place⟩ ↔ base + place < 8 * p.length := Round.inside_iff

/-! ### The rounds of a field -/

/-- The rounds that the loop of `extract` enters, `n` being left of the field from its
bit `i` on. -/
def extractRounds (p : List U8) (off : ℕ) : ℕ → ℕ → List Round
  | 0, _ => []
  | n + 1, i =>
    ⟨off, i⟩ :: if p.length ≤ (off + i) >>> 3 then [] else extractRounds p off n (i + 1)

/-- The rounds of `extract`. -/
def fieldRounds (p : List U8) (f : Field) : List Round :=
  if f.bitSize = 0 then [] else extractRounds p f.bitOffset.toNat f.bitSize.toNat 0

/-- The rounds of one button's field. -/
def buttonRounds (base stride : ℕ) : List Round := (List.range stride).map (Round.mk base)

/-- **The loop of `extract` enters these rounds**, and no others. -/
theorem rounds_extractLoopTraced (p : List U8) (off n i : ℕ) (v : U32) :
    (extractLoopTraced p off n i v).seen DecodeStep.round? = extractRounds p off n i := by
  induction n generalizing i v with
  | zero => rfl
  | succ n ih =>
    rw [extractLoopTraced, extractRounds, Traced.seen_bind, Traced.seen_ite, Traced.seen_bind, ih]
    rfl

/-- Its shifts are those of its rounds. -/
theorem shifts_extractLoopTraced (p : List U8) (off n i : ℕ) (v : U32) :
    (extractLoopTraced p off n i v).seen DecodeStep.shift? =
      (extractRounds p off n i).flatMap (Round.shifts p) := by
  induction n generalizing i v with
  | zero => rfl
  | succ n ih =>
    rw [extractLoopTraced, extractRounds, Traced.seen_bind, Traced.seen_ite, Traced.seen_bind, ih,
      List.flatMap_cons, Round.shifts]
    by_cases hend : p.length ≤ (off + i) >>> 3
    · -- the loop breaks off, and its last round shifts nothing
      have hout : ¬ Round.Inside p ⟨off, i⟩ := Nat.not_lt.mpr hend
      rw [if_pos hend, if_pos hend, if_neg hout]
      rfl
    · have hin : Round.Inside p ⟨off, i⟩ := Nat.not_le.mp hend
      rw [if_neg hend, if_neg hend, if_pos hin]
      rfl

/-- **The loop of a button enters all of its rounds.** -/
theorem rounds_buttonFieldTraced (p : List U8) (base stride : ℕ) :
    (buttonFieldTraced p base stride).seen DecodeStep.round? = buttonRounds base stride := by
  rw [buttonFieldTraced, Traced.seen_foldlM_range, buttonRounds, List.map_eq_flatMap]
  apply List.flatMap_congr
  intro b _
  rw [Traced.seen_bind, Traced.seen_ite]
  exact congrArg (List.cons _) (ite_self _)

theorem shifts_buttonFieldTraced (p : List U8) (base stride : ℕ) :
    (buttonFieldTraced p base stride).seen DecodeStep.shift? =
      (buttonRounds base stride).flatMap (Round.shifts p) := by
  rw [buttonFieldTraced, Traced.seen_foldlM_range, buttonRounds, List.flatMap_map]
  apply List.flatMap_congr
  intro b _
  rw [Traced.seen_bind, Traced.seen_ite]
  rfl

theorem mem_extractRounds {p : List U8} {off n i : ℕ} {r : Round}
    (h : r ∈ extractRounds p off n i) : r.base = off ∧ r.place < i + n := by
  induction n generalizing i with
  | zero => exact absurd h List.not_mem_nil
  | succ n ih =>
    rw [extractRounds, List.mem_cons] at h
    rcases h with rfl | h
    · exact ⟨rfl, by simp only; omega⟩
    · split at h
      · exact absurd h List.not_mem_nil
      · obtain ⟨hbase, hlt⟩ := ih h
        exact ⟨hbase, by omega⟩

/-- A round's place lies in its field. -/
theorem mem_fieldRounds {p : List U8} {f : Field} {r : Round} (h : r ∈ fieldRounds p f) :
    f.Present ∧ r.base = f.bitOffset.toNat ∧ r.place < f.bitSize.toNat := by
  unfold fieldRounds at h
  split at h
  · exact absurd h List.not_mem_nil
  · next h0 =>
    obtain ⟨hbase, hlt⟩ := mem_extractRounds h
    exact ⟨h0, hbase, by omega⟩

theorem mem_buttonRounds {base stride : ℕ} {r : Round} :
    r ∈ buttonRounds base stride ↔ r.base = base ∧ r.place < stride := by
  rw [buttonRounds, List.mem_map]
  constructor
  · rintro ⟨b, hb, rfl⟩
    exact ⟨rfl, List.mem_range.mp hb⟩
  · rintro ⟨rfl, hlt⟩
    exact ⟨r.place, List.mem_range.mpr hlt, rfl⟩

/-- **A field that lies in the payload is gathered to its end.** -/
theorem mem_extractRounds_of_lt {p : List U8} {off n i j : ℕ} (hi : i ≤ j) (hj : j < i + n)
    (hlen : off + j < 8 * p.length) : Round.mk off j ∈ extractRounds p off n i := by
  induction n generalizing i with
  | zero => omega
  | succ n ih =>
    rw [extractRounds, List.mem_cons]
    by_cases heq : j = i
    · exact Or.inl (by rw [heq])
    · -- the rounds in front of place `j` do not break off
      right
      have hgo : ¬ p.length ≤ (off + i) >>> 3 := by
        rw [Nat.shiftRight_eq_div_pow]
        omega
      rw [if_neg hgo]
      exact ih (by omega) (by omega)

theorem mem_fieldRounds_of_lt {p : List U8} {f : Field} {j : ℕ} (hj : j < f.bitSize.toNat)
    (hlen : f.bitOffset.toNat + j < 8 * p.length) :
    Round.mk f.bitOffset.toNat j ∈ fieldRounds p f := by
  have h0 : f.bitSize ≠ 0 := fun h => by
    rw [h] at hj
    exact absurd hj (Nat.not_lt_zero j)
  rw [fieldRounds, if_neg h0]
  exact mem_extractRounds_of_lt (Nat.zero_le j) (by omega) hlen

/-! ### The steps of `extract` -/

/-- The counts of the two shifts in the sign extension of `extract`. -/
def signShifts (f : Field) (v : U32) : List ℕ :=
  if f.isSigned ∧ f.bitSize < 32 then
    if v &&& ((1 : U32) <<< (f.bitSize.toNat - 1)) ≠ 0 then
      [f.bitSize.toNat - 1, f.bitSize.toNat]
    else [f.bitSize.toNat - 1]
  else []

/-- The counts of the shifts of `extract`. -/
def fieldShifts (p : List U8) (f : Field) : List ℕ :=
  if f.bitSize = 0 then []
  else (fieldRounds p f).flatMap (Round.shifts p) ++
    signShifts f (extractLoop p f.bitOffset.toNat f.bitSize.toNat 0 0)

/-- The sign extension enters no round. -/
theorem rounds_extendSignTraced (f : Field) (v : U32) :
    (extendSignTraced f v).seen DecodeStep.round? = [] := by
  unfold extendSignTraced
  split
  · rw [Traced.seen_bind, Traced.seen_ite]
    exact ite_self _
  · rfl

theorem shifts_extendSignTraced (f : Field) (v : U32) :
    (extendSignTraced f v).seen DecodeStep.shift? = signShifts f v := by
  unfold extendSignTraced signShifts
  split
  · rw [Traced.seen_bind, Traced.seen_ite]
    split <;> rfl
  · rfl

/-- **The rounds of `extract`.** -/
theorem rounds_extractTraced (p : List U8) (f : Field) :
    (extractTraced p f).seen DecodeStep.round? = fieldRounds p f := by
  unfold extractTraced fieldRounds
  split
  · rfl
  · rw [Traced.seen_bind, Traced.seen_bind, rounds_extractLoopTraced, rounds_extendSignTraced,
      Traced.seen_pure, List.append_nil, List.append_nil]

/-- **The shifts of `extract`.** -/
theorem shifts_extractTraced (p : List U8) (f : Field) :
    (extractTraced p f).seen DecodeStep.shift? = fieldShifts p f := by
  unfold extractTraced fieldShifts fieldRounds
  split
  · rfl
  · rw [Traced.seen_bind, Traced.seen_bind, shifts_extractLoopTraced, shifts_extendSignTraced,
      Traced.seen_pure, List.append_nil, val_extractLoopTraced]

/-! ### The steps of a pointer report -/

/-- The counts of the shifts for one button: those of its field, and that of its mask if
it is pressed. -/
def buttonShifts (l : ReportLayout) (p : List U8) (i : ℕ) : List ℕ :=
  (buttonRounds (buttonBase l i) (buttonStride l)).flatMap (Round.shifts p) ++
    if buttonField p (buttonBase l i) (buttonStride l) ≠ 0 then [i] else []

theorem rounds_buttonBitsTraced (l : ReportLayout) (p : List U8) :
    (buttonBitsTraced l p).seen DecodeStep.round? =
      (List.range (min l.buttonCount.toNat maxButtons)).flatMap fun i =>
        buttonRounds (buttonBase l i) (buttonStride l) := by
  rw [buttonBitsTraced, Traced.seen_foldlM_range]
  apply List.flatMap_congr
  intro i _
  rw [Traced.seen_bind, rounds_buttonFieldTraced, Traced.seen_ite]
  exact (congrArg _ (ite_self _)).trans (List.append_nil _)

theorem shifts_buttonBitsTraced (l : ReportLayout) (p : List U8) :
    (buttonBitsTraced l p).seen DecodeStep.shift? =
      (List.range (min l.buttonCount.toNat maxButtons)).flatMap (buttonShifts l p) := by
  rw [buttonBitsTraced, Traced.seen_foldlM_range]
  apply List.flatMap_congr
  intro i _
  rw [Traced.seen_bind, shifts_buttonFieldTraced, Traced.seen_ite, val_buttonFieldTraced]
  rfl

/-- The rounds that `zmk_hid_decode_report` enters. -/
def pointerRounds (l : ReportLayout) (p : List U8) : List Round :=
  (zmkHidDecodeReportTraced l p).seen DecodeStep.round?

/-- The counts of the shifts that it executes. -/
def pointerShifts (l : ReportLayout) (p : List U8) : List ℕ :=
  (zmkHidDecodeReportTraced l p).seen DecodeStep.shift?

/-- **The rounds of the pointer decoder** are those of its axes and its buttons, behind the
length check. -/
theorem pointerRounds_eq (l : ReportLayout) (p : List U8) :
    pointerRounds l p =
      if ¬ l.valid then []
      else if p.length < (payloadBits l + 7) / 8 then []
      else [l.x, l.y, l.wheel, l.hwheel].flatMap (fieldRounds p) ++
        (List.range (min l.buttonCount.toNat maxButtons)).flatMap fun i =>
          buttonRounds (buttonBase l i) (buttonStride l) := by
  rw [pointerRounds, zmkHidDecodeReportTraced, Traced.seen_ite, Traced.seen_ite]
  simp only [Traced.seen_bind, Traced.seen_pure, rounds_extractTraced, rounds_buttonBitsTraced,
    List.flatMap_cons, List.flatMap_nil, List.append_nil, List.append_assoc]

/-- **Its shifts** are those of its axes and its buttons. -/
theorem pointerShifts_eq (l : ReportLayout) (p : List U8) :
    pointerShifts l p =
      if ¬ l.valid then []
      else if p.length < (payloadBits l + 7) / 8 then []
      else [l.x, l.y, l.wheel, l.hwheel].flatMap (fieldShifts p) ++
        (List.range (min l.buttonCount.toNat maxButtons)).flatMap (buttonShifts l p) := by
  rw [pointerShifts, zmkHidDecodeReportTraced, Traced.seen_ite, Traced.seen_ite]
  simp only [Traced.seen_bind, Traced.seen_pure, shifts_extractTraced, shifts_buttonBitsTraced,
    List.flatMap_cons, List.flatMap_nil, List.append_nil, List.append_assoc]

theorem mem_pointerRounds {l : ReportLayout} {p : List U8} {r : Round} (h : r ∈ pointerRounds l p) :
    (∃ f ∈ [l.x, l.y, l.wheel, l.hwheel], r ∈ fieldRounds p f) ∨
      ∃ i < min l.buttonCount.toNat maxButtons, r.base = buttonBase l i ∧
        r.place < buttonStride l := by
  rw [pointerRounds_eq] at h
  split at h
  · exact absurd h List.not_mem_nil
  · split at h
    · exact absurd h List.not_mem_nil
    · simpa only [List.mem_append, List.mem_flatMap, List.mem_range, mem_buttonRounds] using h

/-! ### The steps of a keyboard report -/

/-- The keycodes gathered before entry `i` is looked at. -/
def keysBefore (l : KeyboardLayout) (p : List U8) (i : ℕ) : List U8 :=
  (List.range i).foldl (decodeKey l p) []

/-- The entries of the keycode array that are read: the loop ends when `keys` is full. -/
def keyEntries (l : KeyboardLayout) (p : List U8) : List Field :=
  ((List.range l.keyCount.toNat).filter fun i => (keysBefore l p i).length < maxKeys).map
    (keyEntry l)

/-- **The keycode loop extracts the entries that are read.** -/
theorem seen_keysTraced {τ : Type} {g : DecodeStep → Option τ} {steps : Field → List τ}
    (l : KeyboardLayout) (p : List U8) (hsteps : ∀ f, (extractTraced p f).seen g = steps f) :
    ((List.range l.keyCount.toNat).foldlM (decodeKeyTraced l p) []).seen g =
      (keyEntries l p).flatMap steps := by
  rw [Traced.seen_foldlM_range, keyEntries, List.flatMap_map, Traced.flatMap_filter]
  apply List.flatMap_congr
  intro i _
  have hbefore : (List.range i).foldl (fun keys i => (decodeKeyTraced l p keys i).val) [] =
      keysBefore l p i := by
    simp only [val_decodeKeyTraced]
    rfl
  rw [hbefore, decodeKeyTraced, Traced.seen_ite]
  by_cases hfull : (keysBefore l p i).length < maxKeys
  · rw [if_pos hfull, if_pos (decide_eq_true hfull), Traced.seen_bind, hsteps, Traced.seen_ite]
    exact (congrArg _ (ite_self _)).trans (List.append_nil _)
  · rw [if_neg hfull, if_neg (by simpa using hfull)]
    rfl

theorem seen_modifiersTraced {τ : Type} {g : DecodeStep → Option τ} (l : KeyboardLayout)
    (p : List U8) : (modifiersTraced l p).seen g = (extractTraced p l.modifiers).seen g := by
  unfold modifiersTraced
  split
  · rw [Traced.seen_bind, Traced.seen_pure, List.append_nil]
  · next h =>
    rw [extractTraced, if_pos (not_not.mp h)]
    rfl

/-- The rounds that `zmk_hid_decode_keyboard_report` enters. -/
def keyboardRounds (l : KeyboardLayout) (p : List U8) : List Round :=
  (zmkHidDecodeKeyboardReportTraced l p).seen DecodeStep.round?

/-- The counts of the shifts that it executes. -/
def keyboardShifts (l : KeyboardLayout) (p : List U8) : List ℕ :=
  (zmkHidDecodeKeyboardReportTraced l p).seen DecodeStep.shift?

/-- **The rounds of the keyboard decoder** are those of its modifiers and of the entries that
are read, behind the length check. -/
theorem keyboardRounds_eq (l : KeyboardLayout) (p : List U8) :
    keyboardRounds l p =
      if ¬ l.valid then []
      else if p.length < (kbdPayloadBits l + 7) / 8 then []
      else fieldRounds p l.modifiers ++ (keyEntries l p).flatMap (fieldRounds p) := by
  rw [keyboardRounds, zmkHidDecodeKeyboardReportTraced, Traced.seen_ite, Traced.seen_ite]
  simp only [Traced.seen_bind, Traced.seen_pure, seen_modifiersTraced, rounds_extractTraced,
    seen_keysTraced l p (rounds_extractTraced p), List.append_nil]

/-- **Its shifts** are those of the same fields. -/
theorem keyboardShifts_eq (l : KeyboardLayout) (p : List U8) :
    keyboardShifts l p =
      if ¬ l.valid then []
      else if p.length < (kbdPayloadBits l + 7) / 8 then []
      else fieldShifts p l.modifiers ++ (keyEntries l p).flatMap (fieldShifts p) := by
  rw [keyboardShifts, zmkHidDecodeKeyboardReportTraced, Traced.seen_ite, Traced.seen_ite]
  simp only [Traced.seen_bind, Traced.seen_pure, seen_modifiersTraced, shifts_extractTraced,
    seen_keysTraced l p (shifts_extractTraced p), List.append_nil]

theorem mem_keyEntries {l : KeyboardLayout} {p : List U8} {f : Field} (h : f ∈ keyEntries l p) :
    ∃ i < l.keyCount.toNat, keyEntry l i = f := by
  obtain ⟨i, hi, rfl⟩ := List.mem_map.mp h
  exact ⟨i, List.mem_range.mp (List.mem_filter.mp hi).1, rfl⟩

theorem mem_keyboardRounds {l : KeyboardLayout} {p : List U8} {r : Round}
    (h : r ∈ keyboardRounds l p) :
    r ∈ fieldRounds p l.modifiers ∨ ∃ i < l.keyCount.toNat, r ∈ fieldRounds p (keyEntry l i) := by
  rw [keyboardRounds_eq] at h
  split at h
  · exact absurd h List.not_mem_nil
  · split at h
    · exact absurd h List.not_mem_nil
    · rcases List.mem_append.mp h with h | h
      · exact Or.inl h
      · obtain ⟨f, hf, hr⟩ := List.mem_flatMap.mp h
        obtain ⟨i, hi, rfl⟩ := mem_keyEntries hf
        exact Or.inr ⟨i, hi, hr⟩

/-- The first entry of the array is always read. -/
theorem keyEntry_zero_mem {l : KeyboardLayout} (p : List U8) (h : l.keyCount ≠ 0) :
    keyEntry l 0 ∈ keyEntries l p := by
  have hpos : 0 < l.keyCount.toNat := Nat.pos_of_ne_zero fun h0 => h (BitVec.toNat_inj.mp h0)
  refine List.mem_map_of_mem (List.mem_filter.mpr ⟨List.mem_range.mpr hpos, ?_⟩)
  have hempty : keysBefore l p 0 = [] := rfl
  rw [hempty]
  rfl

end BleHidHost
