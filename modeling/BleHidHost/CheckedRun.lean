import BleHidHost.CheckedParser
import BleHidHost.Recording

/-!
# No check of the walk fails

The parser with its accesses checked does what the parser does: a state with arrays stands
for a walk whose lists are the parts of the arrays in use.  What keeps the accesses in their
arrays is that the parts in use fit them, and that the data of an item is looked at only
where the item ends within the map.

## Main definitions

* `Checked.State.parser` — the parser that a state with arrays stands for.
* `Checked.State.InBounds` — the parts in use fit the arrays.

## Main results

* `Checked.simulates_dispatch` — **one item is handled without a fault.**
* `Checked.runParser_safe` — so is every map of any length, in as many rounds as it has
  bytes.
-/

namespace BleHidHost

open Lib

namespace Checked

/-- The parser that a state with arrays stands for. -/
def State.parser (c : State) : Parser :=
  ⟨⟨c.g, (c.stack.toList.take c.stackDepth).reverse, c.usages.toList.take c.usageCount,
    c.usageMin, c.usageMax, c.hasUsageRange, c.bitCursor, c.depth, c.mouseLevel, c.kbdLevel⟩,
    c.out, c.outKbd⟩

/-- The parts in use fit the arrays. -/
structure State.InBounds (c : State) : Prop where
  stackDepth_le : c.stackDepth ≤ globalStackDepth
  usageCount_le : c.usageCount ≤ maxLocalUsages

/-- The program ends without a fault, in a state within bounds that stands for `p`. -/
def Simulates (prog : Except Fault State) (p : Parser) : Prop :=
  Yields prog fun c => c.InBounds ∧ c.parser = p

/-! ### Item data -/

/-- One more byte stands above those read so far. -/
theorem itemU_concat (data : List U8) (b : U8) :
    BleHidHost.itemU (data ++ [b]) =
      BleHidHost.itemU data ||| b.setWidth 32 <<< (8 * data.length) := by
  induction data with
  | nil => simp [BleHidHost.itemU]
  | cons a data ih =>
    rw [List.cons_append, BleHidHost.itemU, ih, BleHidHost.itemU, BitVec.shiftLeft_or_distrib,
      ← BitVec.shiftLeft_add, List.length_cons, Nat.mul_succ, BitVec.or_assoc]

/-- A bit of a number, as a bit of a word. -/
theorem natCast_one_shiftLeft (n : ℕ) : ((1 <<< n : ℕ) : U32) = (1 : U32) <<< n := by
  apply BitVec.eq_of_toNat_eq
  rw [BitVec.natCast_eq_ofNat, BitVec.toNat_ofNat, BitVec.toNat_shiftLeft]
  rfl

section Data

variable {m : List U8} {base size : ℕ} (hend : base + size ≤ m.length) (hsize : size ≤ 4)

include hend hsize

/-- **`item_u` reads within the map and shifts by less than a word.** -/
theorem itemU_eq_ok :
    itemU m base size = .ok (BleHidHost.itemU ((m.drop base).take size)) := by
  apply foldlM_range_eq_ok (g := fun k => BleHidHost.itemU ((m.drop base).take k))
  intro k hk
  have hlt : base + k < m.length := by omega
  have htake : (m.drop base).take (k + 1) = (m.drop base).take k ++ [m[base + k]] := by
    rw [List.take_add_one, List.getElem?_drop, List.getElem?_eq_getElem hlt, Option.toList_some]
  have hlen : ((m.drop base).take k).length = k := by
    rw [List.length_take, List.length_drop]
    omega
  rw [readAt_eq_ok (List.getElem?_eq_getElem hlt), ok_bind, shiftLeft_eq_ok _ (by omega), ok_bind,
    htake, itemU_concat, hlen]
  rfl

/-- **`item_s` shifts by less than a word.** -/
theorem itemS_eq_ok :
    itemS m base size = .ok (BleHidHost.itemS ((m.drop base).take size)) := by
  have hlen : ((m.drop base).take size).length = size := by
    rw [List.length_take, List.length_drop]
    omega
  unfold itemS BleHidHost.itemS
  rw [itemU_eq_ok hend hsize, ok_bind, hlen]
  simp only
  split
  · next hc =>
    rw [shiftLeft_eq_ok _ (by omega), ok_bind, natCast_one_shiftLeft]
    split
    · rw [shiftLeft_eq_ok _ (by omega), ok_bind]
      rfl
    · rfl
  · rfl

end Data

/-! ### Usages -/

variable {c : State}

theorem State.InBounds.length_usages (h : c.InBounds) : c.parser.usages.length = c.usageCount := by
  have hle := h.usageCount_le
  show (c.usages.toList.take c.usageCount).length = c.usageCount
  rw [List.length_take, Vector.length_toList]
  omega

/-- **An entry within `usage_count` lies in the array.** -/
theorem usageAt_eq_ok (h : c.InBounds) {i : ℕ} (hi : i < c.usageCount) :
    usageAt c i = .ok (c.parser.usages.getD i 0) := by
  have hlt : i < c.usages.toList.length := by
    rw [Vector.length_toList]
    exact hi.trans_le h.usageCount_le
  have hget : c.parser.usages.getD i 0 = c.usages.toList[i] := by
    show (c.usages.toList.take c.usageCount).getD i 0 = _
    rw [List.getD_eq_getElem?_getD, List.getElem?_take_of_lt hi, List.getElem?_eq_getElem hlt,
      Option.getD_some]
  simp only [usageAt, if_pos hi, readAt_eq_ok (List.getElem?_eq_getElem hlt), hget]

theorem usageForSlot_eq_ok (h : c.InBounds) (i : ℕ) :
    usageForSlot c i = .ok (BleHidHost.usageForSlot c.parser.toWalk i) := by
  unfold usageForSlot BleHidHost.usageForSlot
  have hrange : c.parser.hasUsageRange = c.hasUsageRange := rfl
  rw [h.length_usages, hrange]
  split
  · next hpos =>
    apply usageAt_eq_ok h
    split
    · next hi => exact hi
    · omega
  · split <;> rfl

theorem kbdUsagesAreModifiers_eq_ok (h : c.InBounds) :
    kbdUsagesAreModifiers c = .ok (BleHidHost.kbdUsagesAreModifiers c.parser.toWalk) := by
  have hlen := h.length_usages
  unfold kbdUsagesAreModifiers BleHidHost.kbdUsagesAreModifiers
  have hrange : c.parser.hasUsageRange = c.hasUsageRange := rfl
  rw [hrange]
  split
  · rfl
  · split
    · next hpos =>
      rw [usageAt_eq_ok h hpos, ok_bind]
      cases hu : c.parser.usages with
      | nil => rw [hu, List.length_nil] at hlen; omega
      | cons u us => rfl
    · next hnone =>
      have hnil : c.parser.usages = [] := List.eq_nil_of_length_eq_zero (by omega)
      rw [hnil]
      rfl

theorem lastUsage_eq_ok (h : c.InBounds) : lastUsage c = .ok c.parser.usages.getLast? := by
  have hlen := h.length_usages
  unfold lastUsage
  split
  · next hpos =>
    have hlt : c.usageCount - 1 < c.parser.usages.length := by omega
    rw [usageAt_eq_ok h (by omega), ok_bind, List.getLast?_eq_getElem?, hlen,
      List.getD_eq_getElem?_getD, List.getElem?_eq_getElem hlt, Option.getD_some]
    rfl
  · next hnone =>
    have hnil : c.parser.usages = [] := List.eq_nil_of_length_eq_zero (by omega)
    rw [hnil]
    rfl

/-! ### Recording fields -/

theorem assignSlot_eq_ok (h : c.InBounds) (b : U32) (o : ReportLayout) (i : ℕ) :
    assignSlot c b o i = .ok (BleHidHost.assignSlot c.parser.toWalk b o i) := by
  unfold assignSlot BleHidHost.assignSlot slotUsage
  rw [usageForSlot_eq_ok h, ok_bind]
  split
  · rfl
  split
  · rfl
  split
  · rfl
  split <;> rfl

theorem assignInput_eq_ok (h : c.InBounds) (b : U32) (o : ReportLayout) :
    assignInput c b o = .ok (BleHidHost.assignInput c.parser.toWalk b o) := by
  unfold assignInput BleHidHost.assignInput
  have hpage : c.parser.g = c.g := rfl
  rw [hpage]
  split
  · rfl
  · -- slot by slot
    apply foldlM_range_eq_ok
      (g := fun k => assignSlots c.parser.toWalk b k (lockReport c.parser.toWalk o))
    intro k _
    rw [assignSlot_eq_ok h, assignSlots_succ]

theorem assignKbdInput_eq_ok (h : c.InBounds) (b flags : U32) (o : KeyboardLayout) :
    assignKbdInput c b flags o = .ok (BleHidHost.assignKbdInput c.parser.toWalk b flags o) := by
  unfold assignKbdInput BleHidHost.assignKbdInput
  split
  · unfold assignModifiers BleHidHost.assignModifiers
    have hpage : c.parser.g = c.g := rfl
    have hlock : lockKbdReport c.scalars o = lockKbdReport c.parser.toWalk o := rfl
    have hsize : sizeOr c.scalars 1 = sizeOr c.parser.toWalk 1 := rfl
    have hbits : modifierBits c.scalars = modifierBits c.parser.toWalk := rfl
    rw [hpage, hlock, hsize, hbits, kbdUsagesAreModifiers_eq_ok h, ok_bind]
    by_cases hkbd : c.g.usagePage = pageKeyboard ∧
        (lockKbdReport c.parser.toWalk o).modifiers.bitSize = 0
    · -- the usages are looked at
      rw [if_pos hkbd]
      simp only [hkbd.1, hkbd.2, true_and]
      split <;> rfl
    · rw [if_neg hkbd, if_neg fun hc => hkbd ⟨hc.1, hc.2.1⟩]
      rfl
  · rfl

/-! ### Items -/

/-- A result that stands for a parser. -/
theorem simulates_pure {c' : State} {p : Parser} (h : c'.InBounds) (hp : c'.parser = p) :
    Simulates (pure c') p := Yields.pure ⟨h, hp⟩

theorem simulates_handleInput (h : c.InBounds) (flags : U32) :
    Simulates (handleInput c flags) (BleHidHost.handleInput c.parser flags) := by
  have hout : recordPointer c flags = .ok (BleHidHost.handleInput c.parser flags).out := by
    have hptr : isPointerInput c.parser.toWalk flags = isPointerInput c.scalars flags := rfl
    simp only [recordPointer, assignInput_eq_ok h]
    simp only [BleHidHost.handleInput, hptr]
    split <;> rfl
  have hkbd : recordKeyboard c flags = .ok (BleHidHost.handleInput c.parser flags).outKbd := by
    have hin : isKeyboardInput c.parser.toWalk flags = isKeyboardInput c.scalars flags := rfl
    simp only [recordKeyboard, assignKbdInput_eq_ok h]
    simp only [BleHidHost.handleInput, hin]
    split <;> rfl
  unfold handleInput
  rw [hout, ok_bind, hkbd, ok_bind]
  exact simulates_pure ⟨h.stackDepth_le, h.usageCount_le⟩ rfl

theorem simulates_handleCollection (h : c.InBounds) (type : U32) :
    Simulates (handleCollection c type) (BleHidHost.handleCollection c.parser type) := by
  unfold handleCollection
  rw [lastUsage_eq_ok h, ok_bind]
  exact simulates_pure ⟨h.stackDepth_le, h.usageCount_le⟩ rfl

theorem parser_clearLocal (c : State) :
    (clearLocal c).parser = BleHidHost.clearLocal c.parser := rfl

section Handlers

variable {m : List U8} {base size : ℕ} (h : c.InBounds) (hend : base + size ≤ m.length)
  (hsize : size ≤ 4)

include h hend hsize

/-- **A Main item is handled without a fault.** -/
theorem simulates_handleMain (tag : MainTag) :
    Simulates (handleMain m c base size tag)
      (BleHidHost.handleMain c.parser tag ((m.drop base).take size)) := by
  have hclear {c' : State} {p : Parser} (hc : c'.InBounds ∧ c'.parser = p) :
      Simulates (pure (clearLocal c')) (BleHidHost.clearLocal p) :=
    simulates_pure ⟨hc.1.stackDepth_le, Nat.zero_le _⟩ (hc.2 ▸ parser_clearLocal c')
  unfold handleMain BleHidHost.handleMain
  cases tag with
  | input =>
    simp only [itemU_eq_ok hend hsize, ok_bind]
    apply (simulates_handleInput h _).bind
    intro c' hc
    exact hclear hc
  | collection =>
    simp only [itemU_eq_ok hend hsize, ok_bind]
    apply (simulates_handleCollection h _).bind
    intro c' hc
    exact hclear hc
  | endCollection =>
    have hend : (handleEndCollection c).InBounds := ⟨h.1, h.2⟩
    exact hclear ⟨hend, rfl⟩
  | output => exact hclear ⟨h, rfl⟩
  | feature => exact hclear ⟨h, rfl⟩
  | other => exact hclear ⟨h, rfl⟩

/-- **A Global item is handled without a fault**: a Push writes below the end of the stack,
a Pop reads within what is in use. -/
theorem simulates_handleGlobal (tag : GlobalTag) :
    Simulates (handleGlobal m c base size tag)
      (BleHidHost.handleGlobal c.parser tag ((m.drop base).take size)) := by
  have hdepth := h.stackDepth_le
  have hlen : c.parser.stack.length = c.stackDepth := by
    show (c.stack.toList.take c.stackDepth).reverse.length = c.stackDepth
    rw [List.length_reverse, List.length_take, Vector.length_toList]
    omega
  unfold handleGlobal BleHidHost.handleGlobal
  cases tag with
  | push =>
    simp only [hlen]
    split
    · next hroom =>
      rw [writeAt_eq_ok hroom, ok_bind]
      refine simulates_pure ⟨hroom, h.usageCount_le⟩ ?_
      unfold State.parser
      simp only [take_toList_set, List.reverse_append, List.reverse_singleton]
      rfl
    · exact simulates_pure h rfl
  | pop =>
    simp only
    split
    · next hpos =>
      have hlt : c.stackDepth - 1 < c.stack.toList.length := by
        rw [Vector.length_toList]
        omega
      have htake : c.stack.toList.take c.stackDepth =
          c.stack.toList.take (c.stackDepth - 1) ++ [c.stack.toList[c.stackDepth - 1]] := by
        have hone : c.stackDepth = c.stackDepth - 1 + 1 := by omega
        conv_lhs => rw [hone]
        rw [List.take_add_one, List.getElem?_eq_getElem hlt, Option.toList_some]
      rw [readAt_eq_ok (List.getElem?_eq_getElem hlt), ok_bind]
      refine simulates_pure ⟨by show c.stackDepth - 1 ≤ _; omega, h.usageCount_le⟩ ?_
      unfold State.parser
      simp only [htake, List.reverse_append, List.reverse_singleton]
      rfl
    · next hzero =>
      refine simulates_pure h ?_
      have hnil : c.parser.stack = [] := List.eq_nil_of_length_eq_zero (by omega)
      simp only [hnil, List.headD_nil, List.tail_nil]
      rw [← hnil]
  | logicalMin =>
    simp only [itemS_eq_ok hend hsize, ok_bind]
    exact simulates_pure ⟨h.1, h.2⟩ rfl
  | logicalMax => exact simulates_pure h rfl
  | other => exact simulates_pure h rfl
  | _ =>
    simp only [itemU_eq_ok hend hsize, ok_bind]
    exact simulates_pure ⟨h.1, h.2⟩ rfl

/-- **A Local item is handled without a fault**: a Usage is written below the end of the
array. -/
theorem simulates_handleLocal (tag : LocalTag) :
    Simulates (handleLocal m c base size tag)
      (BleHidHost.handleLocal c.parser tag ((m.drop base).take size)) := by
  have hlen : ((m.drop base).take size).length = size := by
    rw [List.length_take, List.length_drop]
    omega
  have hcount := h.length_usages
  unfold handleLocal BleHidHost.handleLocal
  cases tag with
  | usage =>
    simp only [itemU_eq_ok hend hsize, ok_bind, hlen, hcount]
    have hg : c.parser.g = c.g := rfl
    rw [hg]
    split
    · next hroom =>
      rw [writeAt_eq_ok hroom, ok_bind]
      refine simulates_pure ⟨h.stackDepth_le, hroom⟩ ?_
      unfold State.parser
      simp only [take_toList_set]
    · exact simulates_pure h rfl
  | other => exact simulates_pure h rfl
  | _ =>
    simp only [itemU_eq_ok hend hsize, ok_bind]
    exact simulates_pure ⟨h.1, h.2⟩ rfl

/-- **One item is handled without a fault**, as the parser handles it. -/
theorem simulates_dispatch (type : BitVec 2) (tag : BitVec 4) :
    Simulates (dispatch m c base size type tag)
      (BleHidHost.dispatch c.parser type tag ((m.drop base).take size)) := by
  unfold dispatch BleHidHost.dispatch
  cases itemType type with
  | main => exact simulates_handleMain h hend hsize _
  | global => exact simulates_handleGlobal h hend hsize _
  | «local» => exact simulates_handleLocal h hend hsize _
  | reserved => exact simulates_pure h rfl

end Handlers

/-! ### The byte loop -/

/-- **The loop is without a fault** from any index on, in as many rounds as there are bytes
left: every round moves the index on. -/
theorem simulates_runLoop (m : List U8) (rounds : ℕ) {i : ℕ} (h : c.InBounds)
    (hrounds : m.length ≤ i + rounds) :
    Simulates (runLoop m rounds i c) (BleHidHost.runLoop m rounds i c.parser) := by
  induction rounds generalizing i c with
  | zero =>
    rw [runLoop, if_neg (by omega), BleHidHost.runLoop]
    exact simulates_pure h rfl
  | succ rounds ih =>
    rw [runLoop, BleHidHost.runLoop]
    by_cases hi : i < m.length
    · have hread (k : ℕ) (hk : k < m.length) : readAt Fault.reportMap m k = .ok (m.getD k 0) := by
        rw [List.getD_eq_getElem?_getD, List.getElem?_eq_getElem hk, Option.getD_some]
        exact readAt_eq_ok (List.getElem?_eq_getElem hk)
      rw [if_pos hi, if_pos hi, hread i hi, ok_bind]
      simp only
      by_cases hlong : m.getD i 0 = itemLong
      · rw [if_pos hlong, if_pos hlong]
        split
        · exact simulates_pure h rfl
        · next hend =>
          rw [hread (i + 1) (by omega), ok_bind]
          exact ih h (by omega)
      · rw [if_neg hlong, if_neg hlong]
        split
        · exact simulates_pure h rfl
        · next hend =>
          apply (simulates_dispatch h (Nat.not_lt.mp hend) (dataLen_le _) _ _).bind
          intro c' hc
          obtain ⟨hc, hp⟩ := hc
          rw [← hp]
          exact ih hc (by omega)
    · rw [if_neg hi, if_neg hi]
      exact simulates_pure h rfl

/-- **No check of the walk fails**, whatever the map: `run_parser` ends within as many rounds
as the map has bytes, and every access to the map, the usages and the stack lies within
bounds, and every shift within the word.  What it leaves is what the parser leaves. -/
theorem runParser_safe (m : List U8) (more : ℕ) :
    ∃ c, runParser m (m.length + more) = .ok c ∧ c.InBounds ∧
      c.parser = BleHidHost.runParser m .zero := by
  have hstart : State.InBounds { State.zero with mouseLevel := -1, kbdLevel := -1 } :=
    ⟨Nat.zero_le _, Nat.zero_le _⟩
  obtain ⟨c, hrun, hc, hp⟩ := simulates_runLoop m (m.length + more) (i := 0) hstart (by omega)
  refine ⟨c, hrun, hc, ?_⟩
  rw [hp, BleHidHost.runParser, runLoop_eq_foldl m _ _ _ (by omega),
    runLoop_eq_foldl m _ _ _ (by omega)]
  rfl

end Checked

end BleHidHost
