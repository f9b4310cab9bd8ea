import BleHidHost.Item

/-!
# The Report Map parser

The walk over a HID Report Map: global and local item state, the running bit
cursor, the collection nesting, and the recording of pointer and keyboard fields
into the two layouts.  `Walk` is the parser's state without its two output
layouts, which nothing in the walk reads back; `Parser` adds them.

## Main definitions

* `GlobalState`, `Walk`, `Parser` — the parser's state.
* `assignInput`, `assignKbdInput` — recording the fields of one Input item.
* `handleMain`, `handleGlobal`, `handleLocal` — one short item.
* `runParser` — the loop over the bytes of a map.
* `zmkHidParseReportMap`, `zmkHidParseKeyboardReportMap` — the two entry points.

## Main results

* `runParser_eq_foldl` — **the byte loop is a fold over the item stream.**
-/

namespace BleHidHost

open Lib

/-! ### Constants -/

/-- `HID_IO_CONSTANT`: padding. -/
def hidIoConstant : U32 := 0x01

/-- `HID_IO_VARIABLE`: one usage for each field. -/
def hidIoVariable : U32 := 0x02

/-- `HID_COLLECTION_APPLICATION`. -/
def hidCollectionApplication : U32 := 0x01

/-- `PAGE_GENERIC_DESKTOP`. -/
def pageGenericDesktop : U16 := 0x01

/-- `PAGE_KEYBOARD`. -/
def pageKeyboard : U16 := 0x07

/-- `PAGE_BUTTON`. -/
def pageButton : U16 := 0x09

/-- `PAGE_CONSUMER`. -/
def pageConsumer : U16 := 0x0C

/-- `USAGE_GD_MOUSE`. -/
def usageGdMouse : U16 := 0x02

/-- `USAGE_GD_KEYBOARD`. -/
def usageGdKeyboard : U16 := 0x06

/-- `USAGE_GD_X`. -/
def usageGdX : U16 := 0x30

/-- `USAGE_GD_Y`. -/
def usageGdY : U16 := 0x31

/-- `USAGE_GD_WHEEL`. -/
def usageGdWheel : U16 := 0x38

/-- `USAGE_KBD_MOD_MIN`: Left Control. -/
def usageKbdModMin : U16 := 0xE0

/-- `USAGE_CONSUMER_AC_PAN`. -/
def usageConsumerAcPan : U16 := 0x0238

/-- `MAX_LOCAL_USAGES`. -/
def maxLocalUsages : ℕ := 16

/-- `GLOBAL_STACK_DEPTH`. -/
def globalStackDepth : ℕ := 8

/-- `BIT_OFFSET_MAX`: layout offsets are 16 bits wide. -/
def bitOffsetMax : U32 := 0xFFFF

/-! ### Extended usages -/

/-- `USAGE_PAGE`: the high half of an extended usage. -/
def usagePage (u : U32) : U16 := (u >>> 16).setWidth 16

/-- `USAGE_ID`: the low half of an extended usage. -/
def usageId (u : U32) : U16 := (u &&& 0xFFFF).setWidth 16

/-- `MAKE_USAGE`. -/
def makeUsage (page : U16) (id : U32) : U32 :=
  page.setWidth 32 <<< 16 ||| (id.setWidth 16).setWidth 32

/-- An extended usage as a number. -/
theorem toNat_makeUsage (page : U16) (id : U32) :
    (makeUsage page id).toNat = page.toNat * 65536 + id.toNat % 65536 := by
  have hpage : (page.setWidth 32 <<< 16 : U32).toNat = page.toNat <<< 16 := by
    have := page.isLt
    rw [BitVec.toNat_shiftLeft, BitVec.toNat_setWidth, Nat.shiftLeft_eq]
    omega
  have hid : ((id.setWidth 16).setWidth 32 : U32).toNat = id.toNat % 65536 := by
    rw [BitVec.toNat_setWidth, BitVec.toNat_setWidth]
    omega
  rw [makeUsage, BitVec.toNat_or, hpage, hid,
    ← Nat.shiftLeft_add_eq_or_of_lt (Nat.mod_lt _ (by decide)), Nat.shiftLeft_eq]

@[simp] theorem usagePage_makeUsage (page : U16) (id : U32) :
    usagePage (makeUsage page id) = page := by
  have := page.isLt
  apply BitVec.eq_of_toNat_eq
  rw [usagePage, BitVec.toNat_setWidth, BitVec.toNat_ushiftRight, toNat_makeUsage,
    Nat.shiftRight_eq_div_pow]
  omega

@[simp] theorem usageId_makeUsage (page : U16) (id : U32) :
    usageId (makeUsage page id) = id.setWidth 16 := by
  apply BitVec.eq_of_toNat_eq
  have hmask : (0xFFFF : U32).toNat = 2 ^ 16 - 1 := rfl
  rw [usageId, BitVec.toNat_setWidth, BitVec.toNat_and, hmask, Nat.and_two_pow_sub_one_eq_mod,
    toNat_makeUsage, BitVec.toNat_setWidth]
  omega

/-! ### State -/

/-- Global item state saved and restored by Push and Pop. -/
structure GlobalState where
  usagePage : U16
  /-- Sign-extended; negative means the field is signed. -/
  logicalMin : ℤ
  reportSize : U8
  reportCount : U8
  reportId : U8
  deriving DecidableEq, Repr, Inhabited

/-- The state of the walk. -/
structure Walk where
  g : GlobalState
  /-- `stack[0 .. stack_depth)`, the top first. -/
  stack : List GlobalState
  /-- `usages[0 .. usage_count)`. -/
  usages : List U32
  usageMin : U32
  usageMax : U32
  hasUsageRange : Bool
  /-- The running Input-report bit cursor. -/
  bitCursor : U32
  /-- Current collection nesting depth. -/
  depth : ℤ
  /-- Depth at which the mouse application opened, `-1` none, `-2` closed. -/
  mouseLevel : ℤ
  /-- The same for the keyboard application. -/
  kbdLevel : ℤ
  deriving DecidableEq, Repr, Inhabited

/-- `struct parser`: the walk, and the two layouts it fills. -/
structure Parser extends Walk where
  out : ReportLayout
  outKbd : KeyboardLayout
  deriving DecidableEq, Repr, Inhabited

/-- The walk's state after `memset(&p, 0, sizeof(p))`. -/
def Walk.zero : Walk :=
  ⟨⟨0, 0, 0, 0, 0⟩, [], [], 0, 0, false, 0, 0, 0, 0⟩

/-- The state both entry points set up: everything cleared. -/
def Parser.zero : Parser := ⟨.zero, .zero, .zero⟩

/-! ### Recording fields -/

/-- `in_mouse`. -/
def inMouse (w : Walk) : Bool := 0 ≤ w.mouseLevel

/-- `in_keyboard`. -/
def inKeyboard (w : Walk) : Bool := 0 ≤ w.kbdLevel

/-- `kbd_usages_are_modifiers`. -/
def kbdUsagesAreModifiers (w : Walk) : Bool :=
  if w.hasUsageRange then w.usageMin = usageKbdModMin.setWidth 32
  else match w.usages with
    | u :: _ => usageId u = usageKbdModMin
    | [] => false

/-- `clear_local`. -/
def clearLocal (p : Parser) : Parser :=
  { p with usages := [], usageMin := 0, usageMax := 0, hasUsageRange := false }

/-- `usage_for_slot`: the extended usage of slot `i` of a Variable Input item. -/
def usageForSlot (w : Walk) (i : ℕ) : U32 :=
  if 0 < w.usages.length then
    w.usages.getD (if i < w.usages.length then i else w.usages.length - 1) 0
  else if w.hasUsageRange then
    let u := w.usageMin + BitVec.ofNat 32 i
    makeUsage w.g.usagePage (if w.usageMax < u then w.usageMax else u)
  else makeUsage w.g.usagePage 0

/-- `set_field`: keep the first occurrence, and ignore a field whose end does
not fit the 16-bit layout. -/
def setField (f : Field) (offset : U32) (size : U8) (isSigned : Bool) : Field :=
  if f.bitSize ≠ 0 then f
  else if bitOffsetMax < offset + size.setWidth 32 then f
  else ⟨offset.setWidth 16, size, isSigned⟩

/-- The lock at the head of `assign_input`: the report this pointer lives in. -/
def lockReport (w : Walk) (o : ReportLayout) : ReportLayout :=
  if o.reportId = 0 ∧ o.buttons.bitSize = 0 ∧ o.x.bitSize = 0 ∧ o.y.bitSize = 0 then
    { o with reportId := w.g.reportId }
  else o

/-- `p->g.report_size ? p->g.report_size : width`. -/
def sizeOr (w : Walk) (width : U8) : U8 := if w.g.reportSize ≠ 0 then w.g.reportSize else width

/-- `report_count`, capped at `ZMK_HID_MAX_BUTTONS`. -/
def buttonRunCount (w : Walk) : U8 :=
  if BitVec.ofNat 8 maxButtons < w.g.reportCount then BitVec.ofNat 8 maxButtons
  else w.g.reportCount

/-- The Button-page branch of `assign_input`: one contiguous button bitfield,
the whole of which must fit the 16-bit layout offset. -/
def assignButtons (w : Walk) (startBit : U32) (o : ReportLayout) : ReportLayout :=
  if o.buttons.bitSize = 0 ∧
      startBit + (buttonRunCount w).setWidth 32 * (sizeOr w 1).setWidth 32 ≤ bitOffsetMax then
    { o with buttons := ⟨startBit.setWidth 16, sizeOr w 1, false⟩, buttonCount := buttonRunCount w }
  else o

/-- The page and usage of slot `i`. -/
def slotUsage (w : Walk) (i : ℕ) : U16 × U16 :=
  (usagePage (usageForSlot w i), usageId (usageForSlot w i))

/-- The offset of slot `i` of an Input item. -/
def slotOffset (w : Walk) (startBit : U32) (i : ℕ) : U32 :=
  startBit + BitVec.ofNat 32 i * w.g.reportSize.setWidth 32

/-- The `set_field` call of slot `i`, on the field its usage names. -/
def setSlot (w : Walk) (startBit : U32) (i : ℕ) (f : Field) : Field :=
  setField f (slotOffset w startBit i) w.g.reportSize (w.g.logicalMin < 0)

/-- One slot of the loop of `assign_input`. -/
def assignSlot (w : Walk) (startBit : U32) (o : ReportLayout) (i : ℕ) : ReportLayout :=
  if slotUsage w i = (pageGenericDesktop, usageGdX) then
    { o with x := setSlot w startBit i o.x }
  else if slotUsage w i = (pageGenericDesktop, usageGdY) then
    { o with y := setSlot w startBit i o.y }
  else if slotUsage w i = (pageGenericDesktop, usageGdWheel) then
    { o with wheel := setSlot w startBit i o.wheel }
  else if slotUsage w i = (pageConsumer, usageConsumerAcPan) then
    { o with hwheel := setSlot w startBit i o.hwheel }
  else o

/-- The first `n` slots of the loop of `assign_input`. -/
def assignSlots (w : Walk) (startBit : U32) (n : ℕ) (o : ReportLayout) : ReportLayout :=
  (List.range n).foldl (assignSlot w startBit) o

/-- `assign_input`: record the pointer fields of one Variable, Data Input item. -/
def assignInput (w : Walk) (startBit : U32) (o : ReportLayout) : ReportLayout :=
  if w.g.usagePage = pageButton then assignButtons w startBit (lockReport w o)
  else assignSlots w startBit w.g.reportCount.toNat (lockReport w o)

/-- The lock at the head of `assign_kbd_input`. -/
def lockKbdReport (w : Walk) (o : KeyboardLayout) : KeyboardLayout :=
  if o.reportId = 0 ∧ o.modifiers.bitSize = 0 ∧ o.keys.bitSize = 0 then
    { o with reportId := w.g.reportId }
  else o

/-- The bits of a modifier run. -/
def modifierBits (w : Walk) : U32 := w.g.reportCount.setWidth 32 * (sizeOr w 1).setWidth 32

/-- The Variable branch of `assign_kbd_input`: the modifier bitfield, recorded
in its packed one-bit-per-key form only. -/
def assignModifiers (w : Walk) (startBit : U32) (o : KeyboardLayout) : KeyboardLayout :=
  if w.g.usagePage = pageKeyboard ∧ o.modifiers.bitSize = 0 ∧ kbdUsagesAreModifiers w ∧
      sizeOr w 1 = 1 ∧ 0 < modifierBits w ∧ modifierBits w ≤ 8 ∧
      startBit + modifierBits w ≤ bitOffsetMax then
    { o with modifiers := ⟨startBit.setWidth 16, (modifierBits w).setWidth 8, false⟩ }
  else o

/-- The Array branch of `assign_kbd_input`: the keycode array. -/
def assignKeys (w : Walk) (startBit : U32) (o : KeyboardLayout) : KeyboardLayout :=
  if w.g.usagePage = pageKeyboard ∧ o.keys.bitSize = 0 ∧ 0 < w.g.reportCount ∧
      startBit + w.g.reportCount.setWidth 32 * (sizeOr w 8).setWidth 32 ≤ bitOffsetMax then
    { o with keys := ⟨startBit.setWidth 16, sizeOr w 8, false⟩, keyCount := w.g.reportCount }
  else o

/-- `assign_kbd_input`: record the keyboard fields of one Data Input item. -/
def assignKbdInput (w : Walk) (startBit flags : U32) (o : KeyboardLayout) : KeyboardLayout :=
  if flags &&& hidIoVariable ≠ 0 then assignModifiers w startBit (lockKbdReport w o)
  else assignKeys w startBit (lockKbdReport w o)

/-! ### Items -/

/-- The Input item carries fields of the pointer collection. -/
def isPointerInput (w : Walk) (flags : U32) : Bool :=
  inMouse w && flags &&& hidIoConstant == 0 && flags &&& hidIoVariable != 0

/-- The Input item carries fields of the keyboard collection. -/
def isKeyboardInput (w : Walk) (flags : U32) : Bool :=
  inKeyboard w && flags &&& hidIoConstant == 0

/-- The bits an Input item takes, in the arithmetic of the source. -/
def totalBits (w : Walk) : U32 := w.g.reportSize.setWidth 32 * w.g.reportCount.setWidth 32

/-- The usage that names a collection: the last local usage has this id on the
Generic Desktop page. -/
def opensAs (w : Walk) (id : U16) : Bool :=
  match w.usages.getLast? with
  | some u => usagePage u = pageGenericDesktop ∧ usageId u = id
  | none => false

/-- The cursor behind an Input item: constant padding still occupies bits, and
the sum saturates rather than wraps. -/
def advance (cursor bits : U32) : U32 :=
  if cursor + bits < cursor then BitVec.allOnes 32 else cursor + bits

/-- `HID_MAIN_INPUT`. -/
def handleInput (p : Parser) (flags : U32) : Parser :=
  { p with
    out := if isPointerInput p.toWalk flags then assignInput p.toWalk p.bitCursor p.out else p.out
    outKbd := if isKeyboardInput p.toWalk flags then
      assignKbdInput p.toWalk p.bitCursor flags p.outKbd else p.outKbd
    bitCursor := advance p.bitCursor (totalBits p.toWalk) }

/-- `HID_MAIN_COLLECTION`: the first application of its kind opens it. -/
def handleCollection (p : Parser) (type : U32) : Parser :=
  { p with
    mouseLevel := if type = hidCollectionApplication ∧ opensAs p.toWalk usageGdMouse ∧
      p.mouseLevel = -1 then p.depth else p.mouseLevel
    kbdLevel := if type = hidCollectionApplication ∧ opensAs p.toWalk usageGdKeyboard ∧
      p.kbdLevel = -1 then p.depth else p.kbdLevel
    depth := p.depth + 1 }

/-- An application that closes locks its layout. -/
def closeLevel (level depth : ℤ) : ℤ := if 0 ≤ level ∧ depth ≤ level then -2 else level

/-- `HID_MAIN_END_COLLECTION`. -/
def handleEndCollection (p : Parser) : Parser :=
  let depth := if 0 < p.depth then p.depth - 1 else p.depth
  { p with
    depth := depth
    mouseLevel := closeLevel p.mouseLevel depth
    kbdLevel := closeLevel p.kbdLevel depth }

/-- `handle_main`. -/
def handleMain (p : Parser) (tag : MainTag) (data : List U8) : Parser :=
  clearLocal <| match tag with
    | .input => handleInput p (itemU data)
    -- separate report streams, which take no Input-report bits
    | .output => p
    | .feature => p
    | .collection => handleCollection p (itemU data)
    | .endCollection => handleEndCollection p
    | .other => p

/-- `handle_global`. -/
def handleGlobal (p : Parser) (tag : GlobalTag) (data : List U8) : Parser :=
  match tag with
  | .usagePage => { p with g := { p.g with usagePage := (itemU data).setWidth 16 } }
  | .logicalMin => { p with g := { p.g with logicalMin := itemS data } }
  | .logicalMax => p
  | .reportSize => { p with g := { p.g with reportSize := (itemU data).setWidth 8 } }
  | .reportCount => { p with g := { p.g with reportCount := (itemU data).setWidth 8 } }
  | .reportId =>
    -- each report id has its own bit stream
    let id : U8 := (itemU data).setWidth 8
    { p with
      bitCursor := if id ≠ p.g.reportId then 0 else p.bitCursor
      g := { p.g with reportId := id } }
  | .push =>
    { p with stack := if p.stack.length < globalStackDepth then p.g :: p.stack else p.stack }
  -- an empty stack leaves both as they are
  | .pop => { p with g := p.stack.headD p.g, stack := p.stack.tail }
  | .other => p

/-- `handle_local`. -/
def handleLocal (p : Parser) (tag : LocalTag) (data : List U8) : Parser :=
  match tag with
  | .usage =>
    -- a 4-byte usage embeds its own page; a shorter one is on the current page
    let u := if data.length = 4 then itemU data else makeUsage p.g.usagePage (itemU data)
    { p with usages := if p.usages.length < maxLocalUsages then p.usages ++ [u] else p.usages }
  | .usageMin => { p with usageMin := itemU data, hasUsageRange := true }
  | .usageMax => { p with usageMax := itemU data, hasUsageRange := true }
  | .other => p

/-- The dispatch of `run_parser` on the type bits of a prefix. -/
def dispatch (p : Parser) (type : BitVec 2) (tag : BitVec 4) (data : List U8) : Parser :=
  match itemType type with
  | .main => handleMain p (mainTag tag) data
  | .global => handleGlobal p (globalTag tag) data
  | .local => handleLocal p (localTag tag) data
  | .reserved => p

/-- One short item of the stream. -/
def handleItem (p : Parser) (it : Item) : Parser := dispatch p it.type it.tag it.data

/-! ### The byte loop -/

/-- The `while (i < len)` loop of `run_parser`.  Every round moves `i` forward,
so `len` rounds are enough. -/
def runLoop (reportMap : List U8) : ℕ → ℕ → Parser → Parser
  | 0, _, p => p
  | fuel + 1, i, p =>
    if i < reportMap.length then
      let head := reportMap.getD i 0
      if head = itemLong then
        if reportMap.length ≤ i + 1 then p
        else runLoop reportMap fuel (i + (3 + (reportMap.getD (i + 1) 0).toNat)) p
      else
        let len := dataLen (head.extractLsb' 0 2)
        if reportMap.length < i + 1 + len then p
        else
          let data := (reportMap.drop (i + 1)).take len
          runLoop reportMap fuel (i + (1 + len))
            (dispatch p (head.extractLsb' 2 2) (head.extractLsb' 4 4) data)
    else p

/-- `run_parser`. -/
def runParser (reportMap : List U8) (p : Parser) : Parser :=
  runLoop reportMap reportMap.length 0 { p with mouseLevel := -1, kbdLevel := -1 }

/-- `zmk_hid_parse_report_map`: the return code, and the layout left in `out`. -/
def zmkHidParseReportMap (reportMap : List U8) : ℤ × ReportLayout :=
  let p := runParser reportMap .zero
  -- a usable pointer needs X and Y, and every collection closed
  let valid := p.out.x.bitSize != 0 && p.out.y.bitSize != 0 && p.depth == 0
  (if valid then 0 else -1, { p.out with valid := valid })

/-- `zmk_hid_parse_keyboard_report_map`. -/
def zmkHidParseKeyboardReportMap (reportMap : List U8) : ℤ × KeyboardLayout :=
  let p := runParser reportMap .zero
  -- a usable keyboard needs a keycode array, and every collection closed
  let valid := p.outKbd.keys.bitSize != 0 && p.depth == 0
  (if valid then 0 else -1, { p.outKbd with valid := valid })

/-! ### The loop is a fold over the item stream -/

/-- The parser at the first byte of a map. -/
def Parser.start : Parser := { Parser.zero with mouseLevel := -1, kbdLevel := -1 }

/-- The parser after a list of short items. -/
def runItems (its : List Item) : Parser := its.foldl handleItem .start

@[simp] theorem runItems_nil : runItems [] = .start := rfl

theorem runItems_concat (its : List Item) (it : Item) :
    runItems (its ++ [it]) = handleItem (runItems its) it := by
  simp [runItems, List.foldl_append]

/-- A nonempty tail is headed by the byte at its index. -/
theorem drop_eq_getD_cons (m : List U8) {i : ℕ} (h : i < m.length) :
    m.drop i = m.getD i 0 :: m.drop (i + 1) := by
  rw [List.drop_eq_getElem_cons h, List.getD_eq_getElem?_getD, List.getElem?_eq_getElem h,
    Option.getD_some]

/-- The loop from index `i` reads the items of what is left of the map. -/
theorem runLoop_eq_foldl (m : List U8) : ∀ (fuel i : ℕ) (p : Parser), m.length ≤ i + fuel →
    runLoop m fuel i p = (reportItems (m.drop i)).foldl handleItem p := by
  intro fuel
  induction fuel with
  | zero =>
    intro i p h
    rw [List.drop_eq_nil_of_le (by omega)]
    rfl
  | succ fuel ih =>
    intro i p h
    rw [runLoop]
    by_cases hi : i < m.length
    · -- the byte at `i` heads what is left of the map
      rw [if_pos hi, reportItems_eq, drop_eq_getD_cons m hi]
      simp only [nextItem]
      by_cases hlong : m.getD i 0 = itemLong
      · -- a long item: both walks jump behind its data
        rw [if_pos hlong, if_pos hlong]
        by_cases hend : m.length ≤ i + 1
        · rw [if_pos hend, List.drop_eq_nil_of_le hend]
          rfl
        · have hcons := drop_eq_getD_cons m (i := i + 1) (by omega)
          rw [if_neg hend, ih _ _ (by omega), hcons]
          simp only
          rw [← hcons, List.drop_drop]
          congr 3
          omega
      · -- a short item: both stop where its data is cut off
        rw [if_neg hlong, if_neg hlong]
        simp only [List.length_drop]
        by_cases hend : m.length < i + 1 + dataLen ((m.getD i 0).extractLsb' 0 2)
        · rw [if_pos hend, dif_neg (by omega)]
          rfl
        · rw [if_neg hend, dif_pos (by omega), ih _ _ (by omega), List.drop_drop,
            List.foldl_cons, handleItem, Nat.add_assoc]
    · rw [if_neg hi, List.drop_eq_nil_of_le (by omega)]
      rfl

/-- **The byte loop is a fold over the item stream.** -/
theorem runParser_eq_foldl (m : List U8) : runParser m .zero = runItems (reportItems m) := by
  rw [runParser, runLoop_eq_foldl m _ _ _ (by omega), List.drop_zero]
  rfl

/-- The pointer layout of a map is the walk's, with `valid` decided at the end. -/
theorem zmkHidParseReportMap_snd (m : List U8) :
    (zmkHidParseReportMap m).2 =
      { (runItems (reportItems m)).out with valid := (zmkHidParseReportMap m).2.valid } := by
  rw [zmkHidParseReportMap, runParser_eq_foldl]

/-- The keyboard layout of a map is the walk's, with `valid` decided at the end. -/
theorem zmkHidParseKeyboardReportMap_snd (m : List U8) :
    (zmkHidParseKeyboardReportMap m).2 =
      { (runItems (reportItems m)).outKbd with
        valid := (zmkHidParseKeyboardReportMap m).2.valid } := by
  rw [zmkHidParseKeyboardReportMap, runParser_eq_foldl]

/-- When a map yields a pointer layout. -/
theorem zmkHidParseReportMap_fst_eq_zero (m : List U8) :
    (zmkHidParseReportMap m).1 = 0 ↔
      (runItems (reportItems m)).out.x.Present ∧ (runItems (reportItems m)).out.y.Present ∧
        (runItems (reportItems m)).depth = 0 := by
  rw [zmkHidParseReportMap, runParser_eq_foldl]
  simp only [Field.Present, Bool.and_eq_true, bne_iff_ne, ne_eq, beq_iff_eq, and_assoc]
  split <;> simp_all

/-- When a map yields a keyboard layout. -/
theorem zmkHidParseKeyboardReportMap_fst_eq_zero (m : List U8) :
    (zmkHidParseKeyboardReportMap m).1 = 0 ↔
      (runItems (reportItems m)).outKbd.keys.Present ∧ (runItems (reportItems m)).depth = 0 := by
  rw [zmkHidParseKeyboardReportMap, runParser_eq_foldl]
  simp only [Field.Present, Bool.and_eq_true, bne_iff_ne, ne_eq, beq_iff_eq]
  split <;> simp_all

end BleHidHost
