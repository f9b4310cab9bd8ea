import BleHidHost.Parser
import Mathlib.Data.List.Induction

/-!
# What the walk records, and from where

Nothing in the walk reads a layout back, so the walk's own state and the two
layouts can be followed apart: an item changes the pointer layout only through
`assignInput`, the keyboard layout only through `assignKbdInput`, and a field
that is present is never written again.  `RecordedAt` and `KbdRecordedAt` name
the Input item and the slot a field of the final layout came from.

## Main definitions

* `PointerSel`, `KbdSel` — the fields of the two layouts.
* `RecordedAt`, `KbdRecordedAt` — the item and slot that record a field.

## Main results

* `handleItem_toWalk` — the walk does not depend on the layouts.
* `handleItem_out`, `handleItem_outKbd` — what one item does to a layout.
* `runItems_out_get_of_recordedAt` — **a recorded field stands in the final
  layout as it was recorded.**
* `exists_recordedAt` — every present field was recorded from some slot.
-/

namespace BleHidHost

open Lib

/-! ### The fields of a layout -/

/-- A field of the pointer layout. -/
inductive PointerSel where
  | x
  | y
  | wheel
  | hwheel
  | buttons
  deriving DecidableEq, Repr, Inhabited

/-- A field of the keyboard layout. -/
inductive KbdSel where
  | modifiers
  | keys
  deriving DecidableEq, Repr, Inhabited

/-- The selected field of a pointer layout. -/
def ReportLayout.get (o : ReportLayout) : PointerSel → Field
  | .x => o.x
  | .y => o.y
  | .wheel => o.wheel
  | .hwheel => o.hwheel
  | .buttons => o.buttons

/-- The selected field of a keyboard layout. -/
def KeyboardLayout.get (o : KeyboardLayout) : KbdSel → Field
  | .modifiers => o.modifiers
  | .keys => o.keys

/-- The page and usage that put a slot into an axis field; the button run has
none, it is recognised by its page alone. -/
def PointerSel.usage : PointerSel → Option (U16 × U16)
  | .x => some (pageGenericDesktop, usageGdX)
  | .y => some (pageGenericDesktop, usageGdY)
  | .wheel => some (pageGenericDesktop, usageGdWheel)
  | .hwheel => some (pageConsumer, usageConsumerAcPan)
  | .buttons => none

/-! ### The walk alone -/

/-- An Input item. -/
def Item.isInput (it : Item) : Bool :=
  itemType it.type == .main && mainTag it.tag == .input

theorem Item.isInput_iff (it : Item) :
    it.isInput = true ↔ itemType it.type = .main ∧ mainTag it.tag = .input := by
  simp [Item.isInput]

/-- One item's effect on the walk. -/
def walkItem (w : Walk) (it : Item) : Walk := (handleItem ⟨w, .zero, .zero⟩ it).toWalk

/-- The walk after a list of items. -/
def walkItems (its : List Item) : Walk := (runItems its).toWalk

/-- **The walk does not depend on the layouts.** -/
theorem handleItem_toWalk (p : Parser) (it : Item) :
    (handleItem p it).toWalk = walkItem p.toWalk it := by
  unfold walkItem handleItem dispatch
  cases itemType it.type with
  | main => cases mainTag it.tag <;> rfl
  | global => cases globalTag it.tag <;> rfl
  | «local» => cases localTag it.tag <;> rfl
  | reserved => rfl

@[simp] theorem walkItems_nil : walkItems [] = Parser.start.toWalk := rfl

theorem walkItems_concat (its : List Item) (it : Item) :
    walkItems (its ++ [it]) = walkItem (walkItems its) it := by
  rw [walkItems, runItems_concat, handleItem_toWalk, walkItems]

/-! ### What one item does to the layouts -/

/-- **What one item does to the pointer layout.** -/
theorem handleItem_out (p : Parser) (it : Item) :
    (handleItem p it).out =
      if it.isInput ∧ isPointerInput p.toWalk (itemU it.data) then
        assignInput p.toWalk p.bitCursor p.out
      else p.out := by
  unfold handleItem dispatch
  cases ht : itemType it.type with
  | main =>
    cases hg : mainTag it.tag <;> simp [Item.isInput, ht, hg, handleMain, clearLocal, handleInput,
      handleCollection, handleEndCollection]
  | global => cases globalTag it.tag <;> simp [Item.isInput, ht, handleGlobal]
  | «local» => cases localTag it.tag <;> simp [Item.isInput, ht, handleLocal]
  | reserved => simp [Item.isInput, ht]

/-- **What one item does to the keyboard layout.** -/
theorem handleItem_outKbd (p : Parser) (it : Item) :
    (handleItem p it).outKbd =
      if it.isInput ∧ isKeyboardInput p.toWalk (itemU it.data) then
        assignKbdInput p.toWalk p.bitCursor (itemU it.data) p.outKbd
      else p.outKbd := by
  unfold handleItem dispatch
  cases ht : itemType it.type with
  | main =>
    cases hg : mainTag it.tag <;> simp [Item.isInput, ht, hg, handleMain, clearLocal, handleInput,
      handleCollection, handleEndCollection]
  | global => cases globalTag it.tag <;> simp [Item.isInput, ht, handleGlobal]
  | «local» => cases localTag it.tag <;> simp [Item.isInput, ht, handleLocal]
  | reserved => simp [Item.isInput, ht]

/-! ### One slot -/

theorem setField_of_present {f : Field} (h : f.Present) (off : U32) (size : U8) (sgn : Bool) :
    setField f off size sgn = f := if_pos h

/-- When `set_field` leaves a field present that was absent. -/
theorem setField_present_iff {f : Field} (h : ¬ f.Present) (off : U32) (size : U8) (sgn : Bool) :
    (setField f off size sgn).Present ↔
      size ≠ 0 ∧ ¬ bitOffsetMax < off + size.setWidth 32 := by
  simp only [Field.Present, ne_eq, not_not] at h
  unfold setField Field.Present
  split
  · contradiction
  · split <;> simp_all

/-- A field that `set_field` has just recorded. -/
theorem setField_eq_of_present {f : Field} {off : U32} {size : U8} {sgn : Bool}
    (h : ¬ f.Present) (h' : (setField f off size sgn).Present) :
    setField f off size sgn = ⟨off.setWidth 16, size, sgn⟩ := by
  obtain ⟨-, hfits⟩ := (setField_present_iff h off size sgn).mp h'
  unfold Field.Present at h
  rw [setField, if_neg h, if_neg hfits]

/-- **One slot writes the field its usage names**, and no other. -/
theorem assignSlot_get (w : Walk) (b : U32) (o : ReportLayout) (i : ℕ) (s : PointerSel) :
    (assignSlot w b o i).get s =
      if s.usage = some (slotUsage w i) then setSlot w b i (o.get s) else o.get s := by
  unfold assignSlot
  generalize slotUsage w i = u
  split
  · next h => subst h; cases s <;> rfl
  split
  · next h => subst h; cases s <;> rfl
  split
  · next h => subst h; cases s <;> rfl
  split
  · next h => subst h; cases s <;> rfl
  · next h₁ h₂ h₃ h₄ =>
    -- a usage that names no field
    cases s with
    | x => exact (if_neg fun h => h₁ (Option.some.inj h).symm).symm
    | y => exact (if_neg fun h => h₂ (Option.some.inj h).symm).symm
    | wheel => exact (if_neg fun h => h₃ (Option.some.inj h).symm).symm
    | hwheel => exact (if_neg fun h => h₄ (Option.some.inj h).symm).symm
    | buttons => rfl

@[simp] theorem assignSlot_reportId (w : Walk) (b : U32) (o : ReportLayout) (i : ℕ) :
    (assignSlot w b o i).reportId = o.reportId := by
  unfold assignSlot
  split_ifs <;> rfl

@[simp] theorem assignSlot_buttonCount (w : Walk) (b : U32) (o : ReportLayout) (i : ℕ) :
    (assignSlot w b o i).buttonCount = o.buttonCount := by
  unfold assignSlot
  split_ifs <;> rfl

@[simp] theorem assignSlots_zero (w : Walk) (b : U32) (o : ReportLayout) :
    assignSlots w b 0 o = o := rfl

theorem assignSlots_succ (w : Walk) (b : U32) (n : ℕ) (o : ReportLayout) :
    assignSlots w b (n + 1) o = assignSlot w b (assignSlots w b n o) n := by
  simp [assignSlots, List.range_succ, List.foldl_append]

@[simp] theorem assignSlots_reportId (w : Walk) (b : U32) (n : ℕ) (o : ReportLayout) :
    (assignSlots w b n o).reportId = o.reportId := by
  induction n with
  | zero => rfl
  | succ n ih => rw [assignSlots_succ, assignSlot_reportId, ih]

@[simp] theorem assignSlots_buttonCount (w : Walk) (b : U32) (n : ℕ) (o : ReportLayout) :
    (assignSlots w b n o).buttonCount = o.buttonCount := by
  induction n with
  | zero => rfl
  | succ n ih => rw [assignSlots_succ, assignSlot_buttonCount, ih]

/-- A present field is kept by a slot. -/
theorem assignSlot_get_of_present {w : Walk} {b : U32} {o : ReportLayout} {i : ℕ}
    {s : PointerSel} (h : (o.get s).Present) : (assignSlot w b o i).get s = o.get s := by
  rw [assignSlot_get]
  split
  · exact setField_of_present h _ _ _
  · rfl

/-- A field present after some slots is kept by the further ones. -/
theorem assignSlots_get_of_present {w : Walk} {b : U32} {o : ReportLayout} {s : PointerSel}
    {m n : ℕ} (hmn : m ≤ n) (h : ((assignSlots w b m o).get s).Present) :
    (assignSlots w b n o).get s = (assignSlots w b m o).get s := by
  induction n, hmn using Nat.le_induction with
  | base => rfl
  | succ n _ ih => rw [assignSlots_succ, assignSlot_get_of_present (by rw [ih]; exact h), ih]

/-- **Slots record an absent axis where one of them can**: it has the usage of the axis, a
nonzero size, and its bits end within the offsets of a layout. -/
theorem assignSlots_present_iff {w : Walk} {b : U32} {o : ReportLayout} {s : PointerSel}
    (habs : ¬ (o.get s).Present) (n : ℕ) :
    ((assignSlots w b n o).get s).Present ↔ w.g.reportSize ≠ 0 ∧
      ∃ i < n, s.usage = some (slotUsage w i) ∧
        slotOffset w b i + w.g.reportSize.setWidth 32 ≤ bitOffsetMax := by
  induction n with
  | zero =>
    refine iff_of_false habs ?_
    intro hc
    obtain ⟨-, i, hi, -⟩ := hc
    exact Nat.not_lt_zero i hi
  | succ n ih =>
    rw [assignSlots_succ, assignSlot_get]
    simp only [Nat.lt_succ_iff_lt_or_eq, or_and_right, exists_or, exists_eq_left, and_or_left,
      ← ih]
    by_cases hprev : ((assignSlots w b n o).get s).Present
    · -- recorded by a slot in front
      simp only [setSlot, setField_of_present hprev, ite_self, hprev, true_or]
    · rw [or_iff_right hprev]
      split
      · next hu =>
        rw [setSlot, setField_present_iff hprev, BitVec.not_lt, and_iff_right hu]
      · next hu =>
        refine iff_of_false hprev ?_
        intro hc
        exact hu hc.2.1

/-! ### One item -/

@[simp] theorem lockReport_get (w : Walk) (o : ReportLayout) (s : PointerSel) :
    (lockReport w o).get s = o.get s := by
  unfold lockReport
  split <;> cases s <;> rfl

@[simp] theorem lockReport_buttonCount (w : Walk) (o : ReportLayout) :
    (lockReport w o).buttonCount = o.buttonCount := by
  unfold lockReport
  split <;> rfl

/-- The button branch leaves every other field alone. -/
theorem assignButtons_get_of_ne (w : Walk) (b : U32) (o : ReportLayout) {s : PointerSel}
    (h : s ≠ .buttons) : (assignButtons w b o).get s = o.get s := by
  unfold assignButtons
  split
  · cases s <;> first | rfl | contradiction
  · rfl

@[simp] theorem assignButtons_reportId (w : Walk) (b : U32) (o : ReportLayout) :
    (assignButtons w b o).reportId = o.reportId := by
  unfold assignButtons
  split <;> rfl

/-- A recorded button run is kept. -/
theorem assignButtons_of_present {w : Walk} {b : U32} {o : ReportLayout}
    (h : o.buttons.Present) : assignButtons w b o = o := if_neg fun hc => h hc.1

/-- A present field is kept by an item. -/
theorem assignInput_get_of_present {w : Walk} {b : U32} {o : ReportLayout} {s : PointerSel}
    (h : (o.get s).Present) : (assignInput w b o).get s = o.get s := by
  have hlock : ((lockReport w o).get s).Present := by rwa [lockReport_get]
  unfold assignInput
  split
  · by_cases hs : s = .buttons
    · subst hs
      rw [assignButtons_of_present hlock, lockReport_get]
    · rw [assignButtons_get_of_ne w b _ hs, lockReport_get]
  · rw [assignSlots_get_of_present (o := lockReport w o) (Nat.zero_le _) hlock, assignSlots_zero,
      lockReport_get]

theorem handleItem_out_get_of_present {p : Parser} {it : Item} {s : PointerSel}
    (h : (p.out.get s).Present) : (handleItem p it).out.get s = p.out.get s := by
  rw [handleItem_out]
  split
  · exact assignInput_get_of_present h
  · rfl

/-- The count of a recorded button run is kept by an item. -/
theorem handleItem_out_buttonCount_of_present {p : Parser} {it : Item}
    (h : p.out.buttons.Present) : (handleItem p it).out.buttonCount = p.out.buttonCount := by
  rw [handleItem_out]
  split
  · have hlock : (lockReport p.toWalk p.out).buttons.Present := by
      have hget := lockReport_get p.toWalk p.out .buttons
      exact (congrArg Field.Present hget).mpr h
    unfold assignInput
    split
    · rw [assignButtons_of_present hlock, lockReport_buttonCount]
    · rw [assignSlots_buttonCount, lockReport_buttonCount]
  · rfl

/-- What no item changes stays as it is. -/
theorem runItems_append_eq {α : Type} {f : Parser → α} {its : List Item}
    (hkeep : ∀ p it, f p = f (runItems its) → f (handleItem p it) = f p) (more : List Item) :
    f (runItems (its ++ more)) = f (runItems its) := by
  induction more using List.reverseRecOn with
  | nil => rw [List.append_nil]
  | append_singleton more it ih => rw [← List.append_assoc, runItems_concat, hkeep _ _ ih, ih]

/-- **A present field is never written again.** -/
theorem runItems_out_get_of_present {its : List Item} {s : PointerSel} (more : List Item)
    (h : ((runItems its).out.get s).Present) :
    (runItems (its ++ more)).out.get s = (runItems its).out.get s := by
  apply runItems_append_eq (f := fun p => p.out.get s)
  intro p it hp
  apply handleItem_out_get_of_present
  rw [hp]
  exact h

/-! ### Where a field was recorded -/

/-- Handling an Input item in state `p` records field `s` from slot `i`: the
field is absent before that slot and present behind it.  The button run counts
as slot 0 of its item. -/
def RecordsSlot (p : Parser) (s : PointerSel) (i : ℕ) : Prop :=
  if p.g.usagePage = pageButton then
    s = .buttons ∧ i = 0 ∧ ¬ (p.out.get s).Present ∧
      ((assignButtons p.toWalk p.bitCursor (lockReport p.toWalk p.out)).get s).Present
  else
    i < p.g.reportCount.toNat ∧
      ¬ ((assignSlots p.toWalk p.bitCursor i (lockReport p.toWalk p.out)).get s).Present ∧
      ((assignSlots p.toWalk p.bitCursor (i + 1) (lockReport p.toWalk p.out)).get s).Present

/-- The parser before item `k`. -/
def before (its : List Item) (k : ℕ) : Parser := runItems (its.take k)

/-- Field `s` of the pointer layout was recorded from slot `i` of item `k`. -/
def RecordedAt (its : List Item) (s : PointerSel) (k i : ℕ) : Prop :=
  ∃ it ∈ its[k]?, it.isInput ∧ isPointerInput (before its k).toWalk (itemU it.data) ∧
    RecordsSlot (before its k) s i

instance (p : Parser) (s : PointerSel) (i : ℕ) : Decidable (RecordsSlot p s i) := by
  unfold RecordsSlot
  exact inferInstance

instance (its : List Item) (s : PointerSel) (k i : ℕ) : Decidable (RecordedAt its s k i) := by
  unfold RecordedAt
  exact inferInstance

/-- The items before item `k` and item `k` itself. -/
theorem take_succ_of_mem {its : List Item} {k : ℕ} {it : Item} (h : it ∈ its[k]?) :
    its.take (k + 1) = its.take k ++ [it] := by
  rw [List.take_add_one, Option.mem_def.mp h, Option.toList_some]

/-- The parser before item `k` does not look at the items behind it. -/
theorem before_append {its : List Item} (more : List Item) {k : ℕ} (h : k ≤ its.length) :
    before (its ++ more) k = before its k := by
  rw [before, before, List.take_append_of_le_length h]

theorem before_length (its : List Item) : before its its.length = runItems its := by
  rw [before, List.take_length]

/-- The parser before the next item has handled item `k`. -/
theorem before_succ {its : List Item} {k : ℕ} {it : Item} (h : it ∈ its[k]?) :
    before its (k + 1) = handleItem (before its k) it := by
  rw [before, take_succ_of_mem h, runItems_concat, before]

/-- Behind the last item nothing is handled. -/
theorem before_succ_of_getElem?_eq_none {its : List Item} {k : ℕ} (h : its[k]? = none) :
    before its (k + 1) = before its k := by
  have hlen : its.length ≤ k := List.getElem?_eq_none_iff.mp h
  rw [before, before, List.take_of_length_le hlen, List.take_of_length_le (Nat.le_succ_of_le hlen)]

/-- A property that begins to hold behind item `k` does so with that item. -/
theorem item_of_new {K : Parser → Prop} {its : List Item} {k : ℕ} (habs : ¬ K (before its k))
    (h : K (before its (k + 1))) : ∃ it ∈ its[k]?, K (handleItem (before its k) it) := by
  cases hit : its[k]? with
  | none =>
    rw [before_succ_of_getElem?_eq_none hit] at h
    exact absurd h habs
  | some it =>
    rw [before_succ hit] at h
    exact ⟨it, rfl, h⟩

/-- **What does not hold at the start and holds at the end begins to hold with some item.** -/
theorem exists_item_of_new {K : Parser → Prop} {its : List Item} (hstart : ¬ K .start)
    (h : K (runItems its)) :
    ∃ k, ∃ it ∈ its[k]?, ¬ K (before its k) ∧ K (handleItem (before its k) it) := by
  induction its using List.reverseRecOn with
  | nil => exact absurd h hstart
  | append_singleton its it ih =>
    by_cases hprev : K (runItems its)
    · obtain ⟨k, it', hit, hnew⟩ := ih hprev
      obtain ⟨hk, -⟩ := List.getElem?_eq_some_iff.mp (Option.mem_def.mp hit)
      refine ⟨k, it', ?_, ?_⟩
      · rw [List.getElem?_append_left hk]
        exact hit
      · rw [before_append [it] hk.le]
        exact hnew
    · -- not so far: it is the last item
      refine ⟨its.length, it, by simp, ?_⟩
      rw [before_append [it] le_rfl, before_length, ← runItems_concat]
      exact ⟨hprev, h⟩

/-- What `assign_input` leaves of a field it records: the slot's offset, and the
width and sign of the item (a button run is unsigned, one bit wide by default). -/
theorem assignInput_get_of_recordsSlot {p : Parser} {s : PointerSel} {i : ℕ}
    (h : RecordsSlot p s i) :
    (assignInput p.toWalk p.bitCursor p.out).get s =
      ⟨(slotOffset p.toWalk p.bitCursor i).setWidth 16,
        if s = .buttons then sizeOr p.toWalk 1 else p.g.reportSize,
        if s = .buttons then false else p.g.logicalMin < 0⟩ := by
  unfold RecordsSlot at h
  unfold assignInput
  split at h
  · next hpage =>
    -- the button run starts at the cursor
    obtain ⟨rfl, rfl, habs, hpres⟩ := h
    have hoff : slotOffset p.toWalk p.bitCursor 0 = p.bitCursor := by simp [slotOffset]
    rw [if_pos hpage, if_pos rfl, if_pos rfl, hoff]
    unfold assignButtons at hpres ⊢
    split at hpres
    · next hc => rw [if_pos hc]; rfl
    · rw [lockReport_get] at hpres
      exact absurd hpres habs
  · next hpage =>
    -- the slots behind `i` find the field present and leave it
    obtain ⟨hi, habs, hpres⟩ := h
    rw [if_neg hpage, assignSlots_get_of_present hi hpres]
    rw [assignSlots_succ, assignSlot_get] at hpres ⊢
    split at hpres
    · next hu =>
      have hs : s ≠ .buttons := by rintro rfl; simp [PointerSel.usage] at hu
      rw [if_pos hu, if_neg hs, if_neg hs]
      exact setField_eq_of_present habs hpres
    · exact absurd hpres habs

/-- A field is absent before the item that records it. -/
theorem RecordsSlot.not_present {p : Parser} {s : PointerSel} {i : ℕ} (h : RecordsSlot p s i) :
    ¬ (p.out.get s).Present := by
  unfold RecordsSlot at h
  split at h
  · exact h.2.2.1
  · intro hp
    rw [← lockReport_get p.toWalk] at hp
    apply h.2.1
    rw [assignSlots_get_of_present (o := lockReport p.toWalk p.out) (Nat.zero_le _) hp]
    exact hp

/-- A field is present behind the item that records it. -/
theorem RecordsSlot.present {p : Parser} {s : PointerSel} {i : ℕ} (h : RecordsSlot p s i) :
    ((assignInput p.toWalk p.bitCursor p.out).get s).Present := by
  unfold RecordsSlot at h
  unfold assignInput
  split at h
  · next hpage => rw [if_pos hpage]; exact h.2.2.2
  · next hpage =>
    rw [if_neg hpage, assignSlots_get_of_present h.1 h.2.2]
    exact h.2.2

/-- A recorded button run has its item's count. -/
theorem RecordsSlot.buttonCount {p : Parser} {i : ℕ} (h : RecordsSlot p .buttons i) :
    (assignInput p.toWalk p.bitCursor p.out).buttonCount = buttonRunCount p.toWalk := by
  have habs := h.not_present
  have hpres := h.present
  unfold assignInput at hpres ⊢
  split at hpres
  · next hpage =>
    rw [if_pos hpage]
    unfold assignButtons at hpres ⊢
    split at hpres
    · next hc => rw [if_pos hc]
    · exact absurd (by rwa [lockReport_get] at hpres) habs
  · next hpage =>
    -- off the Button page no slot writes the button field
    unfold RecordsSlot at h
    rw [if_neg hpage] at h
    have hslot := h.2.2
    rw [assignSlots_succ, assignSlot_get, if_neg (by simp [PointerSel.usage])] at hslot
    exact absurd hslot h.2.1

/-- A slot is one of the at most 255 of its item. -/
theorem RecordsSlot.slot_le {p : Parser} {s : PointerSel} {i : ℕ} (h : RecordsSlot p s i) :
    i ≤ 255 := by
  have hc := p.g.reportCount.isLt
  unfold RecordsSlot at h
  split at h <;> omega

/-- A recorded field, the whole run for buttons, fits the 16-bit offsets. -/
theorem RecordsSlot.fits {p : Parser} {s : PointerSel} {i : ℕ} (h : RecordsSlot p s i) :
    slotOffset p.toWalk p.bitCursor i +
      (if s = .buttons then (buttonRunCount p.toWalk).setWidth 32 * (sizeOr p.toWalk 1).setWidth 32
        else p.g.reportSize.setWidth 32) ≤ bitOffsetMax := by
  unfold RecordsSlot at h
  split at h
  · obtain ⟨rfl, rfl, habs, hpres⟩ := h
    have hoff : slotOffset p.toWalk p.bitCursor 0 = p.bitCursor := by simp [slotOffset]
    rw [if_pos rfl, hoff]
    unfold assignButtons at hpres
    split at hpres
    · next hc => exact hc.2
    · rw [lockReport_get] at hpres
      exact absurd hpres habs
  · obtain ⟨-, habs, hpres⟩ := h
    rw [assignSlots_succ, assignSlot_get] at hpres
    split at hpres
    · next hu =>
      have hs : s ≠ .buttons := by rintro rfl; simp [PointerSel.usage] at hu
      rw [if_neg hs]
      exact BitVec.not_lt.mp ((setField_present_iff habs _ _ _).mp hpres).2
    · exact absurd hpres habs

/-- A recorded field stands in the final layout as its item left it. -/
theorem runItems_out_get_of_recordedAt_eq {its : List Item} {s : PointerSel} {k i : ℕ}
    (h : RecordedAt its s k i) :
    (runItems its).out.get s =
      (assignInput (before its k).toWalk (before its k).bitCursor (before its k).out).get s := by
  obtain ⟨it, hit, hin, hptr, hrec⟩ := h
  have hafter : (runItems (its.take (k + 1))).out.get s =
      (assignInput (before its k).toWalk (before its k).bitCursor (before its k).out).get s := by
    rw [take_succ_of_mem hit, runItems_concat, handleItem_out]
    exact congrArg (ReportLayout.get · s) (if_pos ⟨hin, hptr⟩)
  -- and nothing behind item `k` writes it again
  have hkeep := runItems_out_get_of_present (its.drop (k + 1)) (by rw [hafter]; exact hrec.present)
  rw [List.take_append_drop] at hkeep
  rw [hkeep, hafter]

/-- **A recorded field stands in the final layout as it was recorded.** -/
theorem runItems_out_get_of_recordedAt {its : List Item} {s : PointerSel} {k i : ℕ}
    (h : RecordedAt its s k i) :
    (runItems its).out.get s =
      ⟨(slotOffset (before its k).toWalk (before its k).bitCursor i).setWidth 16,
        if s = .buttons then sizeOr (before its k).toWalk 1 else (before its k).g.reportSize,
        if s = .buttons then false else (before its k).g.logicalMin < 0⟩ := by
  rw [runItems_out_get_of_recordedAt_eq h]
  obtain ⟨-, -, -, -, hrec⟩ := h
  exact assignInput_get_of_recordsSlot hrec

/-- The count of the button run is that of the item the run was recorded from. -/
theorem runItems_out_buttonCount_of_recordedAt {its : List Item} {k i : ℕ}
    (h : RecordedAt its .buttons k i) :
    (runItems its).out.buttonCount = buttonRunCount (before its k).toWalk := by
  obtain ⟨it, hit, hin, hptr, hrec⟩ := h
  have hafter : (runItems (its.take (k + 1))).out =
      assignInput (before its k).toWalk (before its k).bitCursor (before its k).out := by
    rw [take_succ_of_mem hit, runItems_concat, handleItem_out]
    exact if_pos ⟨hin, hptr⟩
  -- from the recording item on, the run stays present and its count with it
  have hkeep : ∀ more : List Item,
      (runItems (its.take (k + 1) ++ more)).out.buttonCount =
        buttonRunCount (before its k).toWalk := by
    intro more
    induction more using List.reverseRecOn with
    | nil => rw [List.append_nil, hafter, hrec.buttonCount]
    | append_singleton more it' ih =>
      have hpres : ((runItems (its.take (k + 1))).out.get .buttons).Present := by
        rw [hafter]
        exact hrec.present
      rw [← List.append_assoc, runItems_concat, handleItem_out_buttonCount_of_present, ih]
      exact (congrArg Field.Present (runItems_out_get_of_present more hpres)).mpr hpres
  have hall := hkeep (its.drop (k + 1))
  rwa [List.take_append_drop] at hall

/-- A field that an item records was recorded from one of its slots. -/
theorem exists_recordsSlot {p : Parser} {s : PointerSel} (habs : ¬ (p.out.get s).Present)
    (hpres : ((assignInput p.toWalk p.bitCursor p.out).get s).Present) :
    ∃ i, RecordsSlot p s i := by
  unfold assignInput at hpres
  unfold RecordsSlot
  split at hpres
  · next hpage =>
    refine ⟨0, ?_⟩
    rw [if_pos hpage]
    by_cases hs : s = .buttons
    · exact ⟨hs, rfl, habs, hpres⟩
    · rw [assignButtons_get_of_ne _ _ _ hs, lockReport_get] at hpres
      exact absurd hpres habs
  · next hpage =>
    -- the first slot behind which the field is present
    have hex : ∃ n,
        ((assignSlots p.toWalk p.bitCursor n (lockReport p.toWalk p.out)).get s).Present :=
      ⟨_, hpres⟩
    have hpos : Nat.find hex ≠ 0 := by
      intro h0
      have := Nat.find_spec hex
      rw [h0, assignSlots_zero, lockReport_get] at this
      exact habs this
    obtain ⟨i, hi⟩ := Nat.exists_eq_succ_of_ne_zero hpos
    refine ⟨i, ?_⟩
    rw [if_neg hpage]
    refine ⟨?_, Nat.find_min hex (by omega), by have := Nat.find_spec hex; rwa [hi] at this⟩
    have := Nat.find_min' hex hpres
    omega

/-- A field that an item has recorded is one that the item could record. -/
theorem records_of_new {p : Parser} {it : Item} {s : PointerSel} (habs : ¬ (p.out.get s).Present)
    (h : ((handleItem p it).out.get s).Present) :
    (it.isInput ∧ isPointerInput p.toWalk (itemU it.data)) ∧
      ((assignInput p.toWalk p.bitCursor p.out).get s).Present := by
  rw [handleItem_out] at h
  split at h
  · next hc => exact ⟨hc, h⟩
  · exact absurd h habs

/-- **Every present field was recorded from some slot of some Input item.** -/
theorem exists_recordedAt {its : List Item} {s : PointerSel}
    (h : ((runItems its).out.get s).Present) : ∃ k i, RecordedAt its s k i := by
  have hstart : ¬ (Parser.start.out.get s).Present := by
    cases s <;> exact Field.not_present_zero
  obtain ⟨k, it, hit, habs, hnew⟩ :=
    exists_item_of_new (K := fun p => (p.out.get s).Present) hstart h
  obtain ⟨⟨hin, hptr⟩, hpres⟩ := records_of_new habs hnew
  obtain ⟨i, hi⟩ := exists_recordsSlot habs hpres
  exact ⟨k, i, it, hit, hin, hptr, hi⟩

/-! ### The keyboard layout -/

@[simp] theorem lockKbdReport_get (w : Walk) (o : KeyboardLayout) (s : KbdSel) :
    (lockKbdReport w o).get s = o.get s := by
  unfold lockKbdReport
  split <;> cases s <;> rfl

/-- The field an Input item with these flags can record: a Variable item the
modifiers, an Array item the keys. -/
def kbdTarget (flags : U32) : KbdSel :=
  if flags &&& hidIoVariable ≠ 0 then .modifiers else .keys

/-- The width `assign_kbd_input` gives to a field. -/
def kbdWidth (w : Walk) : KbdSel → U8
  | .modifiers => (modifierBits w).setWidth 8
  | .keys => sizeOr w 8

/-- The bits a keyboard field covers, in the arithmetic of the source. -/
def kbdExtent (w : Walk) : KbdSel → U32
  | .modifiers => modifierBits w
  | .keys => w.g.reportCount.setWidth 32 * (sizeOr w 8).setWidth 32

/-- **What an Input item does to a keyboard field**: nothing, or it records the
field of its kind at the cursor, where it fits. -/
theorem assignKbdInput_get (w : Walk) (b flags : U32) (o : KeyboardLayout) (s : KbdSel) :
    (assignKbdInput w b flags o).get s = o.get s ∨
      (s = kbdTarget flags ∧ ¬ (o.get s).Present ∧ b + kbdExtent w s ≤ bitOffsetMax ∧
        (assignKbdInput w b flags o).get s = ⟨b.setWidth 16, kbdWidth w s, false⟩) := by
  unfold assignKbdInput kbdTarget
  split
  · unfold assignModifiers
    split
    · next hc =>
      -- the lock in front changes no field
      have habs : (o.get .modifiers).bitSize = 0 := by
        rw [← lockKbdReport_get w o .modifiers]
        exact hc.2.1
      cases s with
      | modifiers => exact Or.inr ⟨rfl, fun hp => hp habs, hc.2.2.2.2.2.2, rfl⟩
      | keys => exact Or.inl (lockKbdReport_get w o .keys)
    · exact Or.inl (lockKbdReport_get w o s)
  · unfold assignKeys
    split
    · next hc =>
      have habs : (o.get .keys).bitSize = 0 := by
        rw [← lockKbdReport_get w o .keys]
        exact hc.2.1
      cases s with
      | modifiers => exact Or.inl (lockKbdReport_get w o .modifiers)
      | keys => exact Or.inr ⟨rfl, fun hp => hp habs, hc.2.2.2, rfl⟩
    · exact Or.inl (lockKbdReport_get w o s)

/-- A present keyboard field is kept by an item. -/
theorem handleItem_outKbd_get_of_present {p : Parser} {it : Item} {s : KbdSel}
    (h : (p.outKbd.get s).Present) : (handleItem p it).outKbd.get s = p.outKbd.get s := by
  rw [handleItem_outKbd]
  split
  · rcases assignKbdInput_get p.toWalk p.bitCursor (itemU it.data) p.outKbd s with hk | ⟨-, habs, -⟩
    · exact hk
    · exact absurd h habs
  · rfl

/-- **A present keyboard field is never written again.** -/
theorem runItems_outKbd_get_of_present {its : List Item} {s : KbdSel} (more : List Item)
    (h : ((runItems its).outKbd.get s).Present) :
    (runItems (its ++ more)).outKbd.get s = (runItems its).outKbd.get s := by
  apply runItems_append_eq (f := fun p => p.outKbd.get s)
  intro p it hp
  apply handleItem_outKbd_get_of_present
  rw [hp]
  exact h

/-- Field `s` of the keyboard layout was recorded from item `k`. -/
def KbdRecordedAt (its : List Item) (s : KbdSel) (k : ℕ) : Prop :=
  ∃ it ∈ its[k]?, it.isInput ∧ isKeyboardInput (before its k).toWalk (itemU it.data) ∧
    ¬ ((before its k).outKbd.get s).Present ∧
    ((assignKbdInput (before its k).toWalk (before its k).bitCursor (itemU it.data)
      (before its k).outKbd).get s).Present

instance (its : List Item) (s : KbdSel) (k : ℕ) : Decidable (KbdRecordedAt its s k) := by
  unfold KbdRecordedAt
  exact inferInstance

/-- **A recorded keyboard field stands in the final layout as it was recorded**,
and it fits there. -/
theorem runItems_outKbd_get_of_recordedAt {its : List Item} {s : KbdSel} {k : ℕ}
    (h : KbdRecordedAt its s k) :
    (before its k).bitCursor + kbdExtent (before its k).toWalk s ≤ bitOffsetMax ∧
    (runItems its).outKbd.get s =
      ⟨(before its k).bitCursor.setWidth 16, kbdWidth (before its k).toWalk s, false⟩ := by
  obtain ⟨it, hit, hin, hkbd, habs, hpres⟩ := h
  have hafter : (runItems (its.take (k + 1))).outKbd.get s =
      (assignKbdInput (before its k).toWalk (before its k).bitCursor (itemU it.data)
        (before its k).outKbd).get s := by
    rw [take_succ_of_mem hit, runItems_concat, handleItem_outKbd]
    exact congrArg (KeyboardLayout.get · s) (if_pos ⟨hin, hkbd⟩)
  have hkeep := runItems_outKbd_get_of_present (its.drop (k + 1)) (by rw [hafter]; exact hpres)
  rw [List.take_append_drop] at hkeep
  rw [hkeep, hafter]
  rcases assignKbdInput_get (before its k).toWalk (before its k).bitCursor (itemU it.data)
    (before its k).outKbd s with hsame | ⟨-, -, hfits, hrec⟩
  · rw [hsame] at hpres
    exact absurd hpres habs
  · exact ⟨hfits, hrec⟩

/-- A keyboard field that an item has recorded is one that the item could record. -/
theorem kbdRecords_of_new {p : Parser} {it : Item} {s : KbdSel}
    (habs : ¬ (p.outKbd.get s).Present) (h : ((handleItem p it).outKbd.get s).Present) :
    (it.isInput ∧ isKeyboardInput p.toWalk (itemU it.data)) ∧
      ((assignKbdInput p.toWalk p.bitCursor (itemU it.data) p.outKbd).get s).Present := by
  rw [handleItem_outKbd] at h
  split at h
  · next hc => exact ⟨hc, h⟩
  · exact absurd h habs

/-- **Every present keyboard field was recorded from some Input item.** -/
theorem exists_kbdRecordedAt {its : List Item} {s : KbdSel}
    (h : ((runItems its).outKbd.get s).Present) : ∃ k, KbdRecordedAt its s k := by
  have hstart : ¬ (Parser.start.outKbd.get s).Present := by
    cases s <;> exact Field.not_present_zero
  obtain ⟨k, it, hit, habs, hnew⟩ :=
    exists_item_of_new (K := fun p => (p.outKbd.get s).Present) hstart h
  obtain ⟨⟨hin, hkbd⟩, hpres⟩ := kbdRecords_of_new habs hnew
  exact ⟨k, it, hit, hin, hkbd, habs, hpres⟩

end BleHidHost
