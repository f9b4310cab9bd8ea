import BleHidHost.Lib.Checked
import BleHidHost.Parser

/-!
# The parser with its accesses checked

The Report Map comes over the air, so the walk over it must not trust it.  Here the walk
reads the map by index, keeps its usages and its stack in arrays of the declared sizes, and
checks every access to them and every shift.  An access that would leave its array ends the
walk with a fault.  Parts of the source that access no array are those of the parser, given
the scalars of the state only.  A `size_t` is a natural number: no index that the walk
computes exceeds the length of the map by more than 257.

## Main definitions

* `Fault` — what the checks guard.
* `Checked.State` — `struct parser` with its arrays.
* `Checked.handleMain`, `Checked.handleGlobal`, `Checked.handleLocal` — one short item.
* `Checked.runParser` — the loop over the bytes of a map.
-/

namespace BleHidHost

open Lib

/-- What a check guards: an index into the map, into the usages or into the stack, the width
of a shift, or the number of rounds the walk is given. -/
inductive Fault
  | reportMap
  | usages
  | stack
  | shift
  | rounds
  deriving DecidableEq, Repr

namespace Checked

/-- `struct parser`. -/
structure State where
  g : GlobalState
  stack : Vector GlobalState globalStackDepth
  stackDepth : ℕ
  usages : Vector U32 maxLocalUsages
  usageCount : ℕ
  usageMin : U32
  usageMax : U32
  hasUsageRange : Bool
  bitCursor : U32
  depth : ℤ
  mouseLevel : ℤ
  kbdLevel : ℤ
  out : ReportLayout
  outKbd : KeyboardLayout

/-- The state after `memset(&p, 0, sizeof(p))`. -/
def State.zero : State :=
  { g := ⟨0, 0, 0, 0, 0⟩
    stack := .replicate _ ⟨0, 0, 0, 0, 0⟩
    stackDepth := 0
    usages := .replicate _ 0
    usageCount := 0
    usageMin := 0
    usageMax := 0
    hasUsageRange := false
    bitCursor := 0
    depth := 0
    mouseLevel := 0
    kbdLevel := 0
    out := .zero
    outKbd := .zero }

/-- The scalars of a state: the walk without its arrays. -/
def State.scalars (c : State) : Walk :=
  ⟨c.g, [], [], c.usageMin, c.usageMax, c.hasUsageRange, c.bitCursor, c.depth, c.mouseLevel,
    c.kbdLevel⟩

/-! ### Item data -/

/-- `item_u`: `size` bytes of the map from `base` on, read little-endian. -/
def itemU (reportMap : List U8) (base size : ℕ) : Except Fault U32 :=
  (List.range size).foldlM (fun v i => do
    let b ← readAt .reportMap reportMap (base + i)
    let shifted ← shiftLeft .shift (b.setWidth 32 : U32) (8 * i)
    pure (v ||| shifted)) 0

/-- `item_s`: the same, sign-extended. -/
def itemS (reportMap : List U8) (base size : ℕ) : Except Fault ℤ := do
  let v ← itemU reportMap base size
  if 0 < size ∧ size < 4 then
    let signBit ← shiftLeft .shift (1 : U32) (8 * size - 1)
    if v &&& signBit ≠ 0 then
      let above ← shiftLeft .shift (1 : U32) (8 * size)
      pure (v ||| ~~~(above - 1)).toInt
    else pure v.toInt
  else pure v.toInt

/-! ### Usages -/

/-- `p->usages[i]`: an entry within `usage_count`. -/
def usageAt (c : State) (i : ℕ) : Except Fault U32 :=
  if i < c.usageCount then readAt .usages c.usages.toList i else .error .usages

/-- `kbd_usages_are_modifiers`. -/
def kbdUsagesAreModifiers (c : State) : Except Fault Bool :=
  if c.hasUsageRange then pure (c.usageMin = usageKbdModMin.setWidth 32)
  else if 0 < c.usageCount then do
    let u ← usageAt c 0
    pure (usageId u = usageKbdModMin)
  else pure false

/-- `usage_for_slot`. -/
def usageForSlot (c : State) (i : ℕ) : Except Fault U32 :=
  if 0 < c.usageCount then usageAt c (if i < c.usageCount then i else c.usageCount - 1)
  else if c.hasUsageRange then
    let u := c.usageMin + BitVec.ofNat 32 i
    pure (makeUsage c.g.usagePage (if c.usageMax < u then c.usageMax else u))
  else pure (makeUsage c.g.usagePage 0)

/-- The last local usage, which names a collection. -/
def lastUsage (c : State) : Except Fault (Option U32) :=
  if 0 < c.usageCount then do
    let u ← usageAt c (c.usageCount - 1)
    pure (some u)
  else pure none

/-- The usage is this one of the Generic Desktop page. -/
def names (u : Option U32) (id : U16) : Bool :=
  match u with
  | some u => usagePage u = pageGenericDesktop ∧ usageId u = id
  | none => false

/-! ### Recording fields -/

/-- One slot of the loop of `assign_input`. -/
def assignSlot (c : State) (startBit : U32) (o : ReportLayout) (i : ℕ) :
    Except Fault ReportLayout := do
  let u ← usageForSlot c i
  if (usagePage u, usageId u) = (pageGenericDesktop, usageGdX) then
    pure { o with x := setSlot c.scalars startBit i o.x }
  else if (usagePage u, usageId u) = (pageGenericDesktop, usageGdY) then
    pure { o with y := setSlot c.scalars startBit i o.y }
  else if (usagePage u, usageId u) = (pageGenericDesktop, usageGdWheel) then
    pure { o with wheel := setSlot c.scalars startBit i o.wheel }
  else if (usagePage u, usageId u) = (pageConsumer, usageConsumerAcPan) then
    pure { o with hwheel := setSlot c.scalars startBit i o.hwheel }
  else pure o

/-- `assign_input`. -/
def assignInput (c : State) (startBit : U32) (o : ReportLayout) : Except Fault ReportLayout :=
  if c.g.usagePage = pageButton then
    pure (assignButtons c.scalars startBit (lockReport c.scalars o))
  else (List.range c.g.reportCount.toNat).foldlM (assignSlot c startBit) (lockReport c.scalars o)

/-- The Variable branch of `assign_kbd_input`; the usages are looked at where the page and the
field call for it. -/
def assignModifiers (c : State) (startBit : U32) (o : KeyboardLayout) :
    Except Fault KeyboardLayout :=
  if c.g.usagePage = pageKeyboard ∧ o.modifiers.bitSize = 0 then do
    let areModifiers ← kbdUsagesAreModifiers c
    if areModifiers ∧ sizeOr c.scalars 1 = 1 ∧ 0 < modifierBits c.scalars ∧
        modifierBits c.scalars ≤ 8 ∧ startBit + modifierBits c.scalars ≤ bitOffsetMax then
      pure { o with modifiers := ⟨startBit.setWidth 16, (modifierBits c.scalars).setWidth 8, false⟩ }
    else pure o
  else pure o

/-- `assign_kbd_input`. -/
def assignKbdInput (c : State) (startBit flags : U32) (o : KeyboardLayout) :
    Except Fault KeyboardLayout :=
  if flags &&& hidIoVariable ≠ 0 then assignModifiers c startBit (lockKbdReport c.scalars o)
  else pure (assignKeys c.scalars startBit (lockKbdReport c.scalars o))

/-! ### Items -/

/-- `clear_local`. -/
def clearLocal (c : State) : State :=
  { c with usageCount := 0, usageMin := 0, usageMax := 0, hasUsageRange := false }

/-- The pointer layout behind an Input item. -/
def recordPointer (c : State) (flags : U32) : Except Fault ReportLayout :=
  if isPointerInput c.scalars flags then assignInput c c.bitCursor c.out else pure c.out

/-- The keyboard layout behind an Input item. -/
def recordKeyboard (c : State) (flags : U32) : Except Fault KeyboardLayout :=
  if isKeyboardInput c.scalars flags then assignKbdInput c c.bitCursor flags c.outKbd
  else pure c.outKbd

/-- `HID_MAIN_INPUT`. -/
def handleInput (c : State) (flags : U32) : Except Fault State := do
  let out ← recordPointer c flags
  let outKbd ← recordKeyboard c flags
  pure { c with
    out := out
    outKbd := outKbd
    bitCursor := advance c.bitCursor (totalBits c.scalars) }

/-- `HID_MAIN_COLLECTION`. -/
def handleCollection (c : State) (type : U32) : Except Fault State := do
  let u ← lastUsage c
  pure { c with
    mouseLevel := if type = hidCollectionApplication ∧ names u usageGdMouse ∧
      c.mouseLevel = -1 then c.depth else c.mouseLevel
    kbdLevel := if type = hidCollectionApplication ∧ names u usageGdKeyboard ∧
      c.kbdLevel = -1 then c.depth else c.kbdLevel
    depth := c.depth + 1 }

/-- `HID_MAIN_END_COLLECTION`. -/
def handleEndCollection (c : State) : State :=
  let depth := if 0 < c.depth then c.depth - 1 else c.depth
  { c with
    depth := depth
    mouseLevel := closeLevel c.mouseLevel depth
    kbdLevel := closeLevel c.kbdLevel depth }

section Handlers

variable (reportMap : List U8) (c : State) (base size : ℕ)

/-- `handle_main` on the data of `size` bytes from `base` on. -/
def handleMain (tag : MainTag) : Except Fault State := do
  let c ← match tag with
    | .input => do
      let flags ← itemU reportMap base size
      handleInput c flags
    | .output => pure c
    | .feature => pure c
    | .collection => do
      let type ← itemU reportMap base size
      handleCollection c type
    | .endCollection => pure (handleEndCollection c)
    | .other => pure c
  pure (clearLocal c)

/-- `handle_global`. -/
def handleGlobal (tag : GlobalTag) : Except Fault State :=
  match tag with
  | .usagePage => do
    let v ← itemU reportMap base size
    pure { c with g := { c.g with usagePage := v.setWidth 16 } }
  | .logicalMin => do
    let v ← itemS reportMap base size
    pure { c with g := { c.g with logicalMin := v } }
  | .logicalMax => pure c
  | .reportSize => do
    let v ← itemU reportMap base size
    pure { c with g := { c.g with reportSize := v.setWidth 8 } }
  | .reportCount => do
    let v ← itemU reportMap base size
    pure { c with g := { c.g with reportCount := v.setWidth 8 } }
  | .reportId => do
    let v ← itemU reportMap base size
    let id : U8 := v.setWidth 8
    pure { c with
      bitCursor := if id ≠ c.g.reportId then 0 else c.bitCursor
      g := { c.g with reportId := id } }
  | .push =>
    if c.stackDepth < globalStackDepth then do
      let stack ← writeAt .stack c.stack c.stackDepth c.g
      pure { c with stack := stack, stackDepth := c.stackDepth + 1 }
    else pure c
  | .pop =>
    if 0 < c.stackDepth then do
      let g ← readAt .stack c.stack.toList (c.stackDepth - 1)
      pure { c with g := g, stackDepth := c.stackDepth - 1 }
    else pure c
  | .other => pure c

/-- `handle_local`. -/
def handleLocal (tag : LocalTag) : Except Fault State :=
  match tag with
  | .usage => do
    let v ← itemU reportMap base size
    let u := if size = 4 then v else makeUsage c.g.usagePage v
    if c.usageCount < maxLocalUsages then
      let usages ← writeAt .usages c.usages c.usageCount u
      pure { c with usages := usages, usageCount := c.usageCount + 1 }
    else pure c
  | .usageMin => do
    let v ← itemU reportMap base size
    pure { c with usageMin := v, hasUsageRange := true }
  | .usageMax => do
    let v ← itemU reportMap base size
    pure { c with usageMax := v, hasUsageRange := true }
  | .other => pure c

/-- The dispatch of `run_parser` on the type bits of a prefix. -/
def dispatch (type : BitVec 2) (tag : BitVec 4) : Except Fault State :=
  match itemType type with
  | .main => handleMain reportMap c base size (mainTag tag)
  | .global => handleGlobal reportMap c base size (globalTag tag)
  | .local => handleLocal reportMap c base size (localTag tag)
  | .reserved => pure c

end Handlers

/-! ### The byte loop -/

/-- The `while (i < len)` loop of `run_parser`, given a number of rounds. -/
def runLoop (reportMap : List U8) : ℕ → ℕ → State → Except Fault State
  | 0, i, c => if i < reportMap.length then .error .rounds else pure c
  | rounds + 1, i, c =>
    if i < reportMap.length then do
      let head ← readAt .reportMap reportMap i
      if head = itemLong then
        if reportMap.length ≤ i + 1 then pure c
        else
          let dsize ← readAt .reportMap reportMap (i + 1)
          runLoop reportMap rounds (i + (3 + dsize.toNat)) c
      else
        let len := dataLen (head.extractLsb' 0 2)
        if reportMap.length < i + 1 + len then pure c
        else
          let c ← dispatch reportMap c (i + 1) len (head.extractLsb' 2 2) (head.extractLsb' 4 4)
          runLoop reportMap rounds (i + (1 + len)) c
    else pure c

/-- `run_parser` from a cleared state, in at most so many rounds. -/
def runParser (reportMap : List U8) (rounds : ℕ) : Except Fault State :=
  runLoop reportMap rounds 0 { State.zero with mouseLevel := -1, kbdLevel := -1 }

end Checked

end BleHidHost
