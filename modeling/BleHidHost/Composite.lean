import BleHidHost.Blocks

/-!
# Composite descriptors

A composite device concatenates the descriptors of its keyboard, its mouse and whatever
else it has.  As long as each declares what it uses, the order does not matter: a block
without an application leaves the layout of that application as it would be without the
block, whether it stands in front or behind.

## Main definitions

* `IsBlock` — a byte string that is a block.
* `Unopened` — a boundary at which an application was not opened yet.
* `PlainBlock` — a block without Push and Pop.

## Main results

* `Unopened.block`, `Unopened.open` — what a block does at such a boundary.
* `composite_orderIndependent` — **keyboard and mouse may stand in either order.**
-/

namespace BleHidHost

open Lib

/-- The byte string is a block. -/
structure IsBlock (m : List U8) : Prop where
  complete : Complete m
  block : Block (reportItems m)

/-! ### Boundaries at which an application was not opened yet -/

/-- The parser stands between two blocks, its Report IDs are among these, and the
application has not been opened. -/
structure Unopened (a : App) (ids : List U8) (p : Parser) : Prop where
  boundary : Boundary p.toWalk
  within : IdsWithin ids p.toWalk
  level : p.level a = -1
  layout : SameLayout p .zero a

theorem unopened_start (a : App) : Unopened a [0] .start where
  boundary := boundary_start
  within := ⟨List.mem_singleton_self _, fun _ hg => absurd hg List.not_mem_nil⟩
  level := by cases a <;> rfl
  layout := by cases a <;> rfl

section Unopened

variable {a : App} {ids : List U8} {p : Parser} {its : List Item}

/-- A walk that holds only other Report IDs is new to the block. -/
theorem IdsWithin.fresh {w : Walk} (h : IdsWithin ids w) (hids : ∀ id ∈ reportIds its, id ∉ ids) :
    w.g.reportId ∉ reportIds its := fun hmem => hids _ hmem h.1

theorem reportId_start_fresh (hblock : Block its) :
    Parser.start.g.reportId ∉ reportIds its := hblock.ids_ne_zero

/-- **A block behind such a boundary records what it records alone.** -/
theorem Unopened.open (h : Unopened a ids p) (hblock : Block its)
    (hids : ∀ id ∈ reportIds its, id ∉ ids) :
    SameLayout (continueItems p its) (runItems its) a ∧
      (continueItems p its).level a = (runItems its).level a := by
  have hmirror : Mirrors a (reportIds its) .start p .start := by
    refine ⟨agrees_of_boundary h.boundary boundary_start (h.within.fresh hids)
      (reportId_start_fresh hblock), ?_, ?_⟩
    · rw [h.level, (unopened_start a).level]
    · have hzero := h.layout
      cases a with
      | mouse => exact hzero
      | keyboard => exact hzero
  have hrun := hmirror.run hblock.wellScoped fun _ hid => hid
  exact ⟨hrun.layout, hrun.level⟩

/-- A block opens the same applications behind a boundary as alone. -/
theorem Boundary.noApp_iff {w : Walk} (h : Boundary w) (hfresh : w.g.reportId ∉ reportIds its)
    (hblock : Block its) : NoApp a w its ↔ NoApp a Parser.start.toWalk its :=
  noApp_iff_of_agrees (agrees_of_boundary h boundary_start hfresh (reportId_start_fresh hblock))
    hblock.wellScoped fun _ hid => hid

/-- **A block without the application leads to the next such boundary.** -/
theorem Unopened.block (h : Unopened a ids p) (hblock : Block its)
    (hids : ∀ id ∈ reportIds its, id ∉ ids) (hno : NoApp a Parser.start.toWalk its) :
    Unopened a (ids ++ reportIds its) (continueItems p its) := by
  have hfresh := h.within.fresh hids
  have hin : NoApp a p.toWalk its := (h.boundary.noApp_iff hfresh hblock).mpr hno
  have hlevel : (its.foldl walkItem p.toWalk).level a = -1 := by
    rw [level_foldl_of_noApp (by rw [h.level]; decide) hin, h.level]
  refine ⟨?_, ?_, ?_, ?_⟩
  · rw [continueItems_toWalk]
    exact h.boundary.block hblock hfresh
  · rw [continueItems_toWalk]
    have hwide : IdsWithin (ids ++ reportIds its) p.toWalk :=
      ⟨List.mem_append_left _ h.within.1, fun g hg => List.mem_append_left _ (h.within.2 g hg)⟩
    exact hwide.run fun _ hid => List.mem_append_right _ hid
  · rw [continueItems_toWalk]
    exact hlevel
  · -- what the block records alone is nothing
    have halone : (runItems its).level a = -1 := by
      rw [← (h.open hblock hids).2, continueItems_toWalk]
      exact hlevel
    exact (h.open hblock hids).1.trans (sameLayout_zero_of_unopened its a halone)

/-- The application is unopened or closed where every collection is. -/
theorem level_of_depth_eq_zero (its : List Item) (a : App) (h : (runItems its).depth = 0) :
    (runItems its).level a = -1 ∨ (runItems its).level a = -2 := by
  rcases (nested_walkItems its).level a with hl | hl | ⟨hopen, hlt⟩
  · exact Or.inl hl
  · exact Or.inr hl
  · have hwalk : (walkItems its).depth = 0 := h
    omega

end Unopened

/-! ### Blocks before and behind -/

/-- The walk over a balanced list ends at depth zero. -/
theorem depth_runItems_of_balanced {its : List Item} (h : Balanced its) :
    (runItems its).depth = 0 := by
  show (continueItems .start its).depth = 0
  rw [continueItems_toWalk]
  exact foldl_walkItem_depth h rfl

section Two

variable {a : App} {own other : List U8}

/-- The two blocks of a composite end at depth zero, in either order. -/
theorem depth_append (hown : IsBlock own) (hother : IsBlock other) :
    (runItems (reportItems (own ++ other))).depth = 0 ↔ (runItems (reportItems own)).depth = 0 := by
  rw [reportItems_append hown.complete]
  exact iff_of_true (depth_runItems_of_balanced (hown.block.balanced.append hother.block.balanced))
    (depth_runItems_of_balanced hown.block.balanced)

/-- The Report IDs of a block are neither zero nor another block's. -/
theorem fresh_of_disjoint (hown : IsBlock own)
    (hids : ∀ id ∈ reportIds (reportItems own), id ∉ reportIds (reportItems other)) :
    ∀ id ∈ reportIds (reportItems own), id ∉ [0] ++ reportIds (reportItems other) := by
  intro id hid hmem
  rcases List.mem_append.mp hmem with hz | ho
  · rw [List.mem_singleton.mp hz] at hid
    exact hown.block.ids_ne_zero hid
  · exact hids id hid ho

/-- No block declares the Report ID of the cleared registers. -/
theorem fresh_of_start (hown : IsBlock own) :
    ∀ id ∈ reportIds (reportItems own), id ∉ ([0] : List U8) := by
  intro id hid hmem
  rw [List.mem_singleton.mp hmem] at hid
  exact hown.block.ids_ne_zero hid

/-- **A block in front that does not open the application changes nothing.** -/
theorem sameResult_before (hown : IsBlock own) (hother : IsBlock other)
    (hids : ∀ id ∈ reportIds (reportItems own), id ∉ reportIds (reportItems other))
    (hno : NoApp a Parser.start.toWalk (reportItems other)) : SameResult (other ++ own) own a := by
  have hunopened := (unopened_start a).block hother.block (fresh_of_start hother) hno
  have hopen := (hunopened.open hown.block (fresh_of_disjoint hown hids)).1
  refine sameResult_of_sameLayout ?_ ?_
  · rw [reportItems_append hother.complete, runItems_append]
    exact hopen
  · rw [depth_append hother hown]
    exact iff_of_true (depth_runItems_of_balanced hother.block.balanced)
      (depth_runItems_of_balanced hown.block.balanced)

/-- **A block behind that does not open the application changes nothing.** -/
theorem sameResult_behind (hown : IsBlock own) (hother : IsBlock other)
    (hids : ∀ id ∈ reportIds (reportItems other), id ∉ reportIds (reportItems own))
    (hno : NoApp a Parser.start.toWalk (reportItems other)) : SameResult (own ++ other) own a := by
  refine sameResult_of_sameLayout ?_ (depth_append hown hother)
  rw [reportItems_append hown.complete, runItems_append]
  rcases level_of_depth_eq_zero (reportItems own) a
    (depth_runItems_of_balanced hown.block.balanced) with hlevel | hlevel
  · -- the application is unopened in front of the block, and behind it
    have hbound := boundary_start.block hown.block (reportId_start_fresh hown.block)
    have hwithin := (unopened_start a).within
    have hwide : IdsWithin ([0] ++ reportIds (reportItems own)) Parser.start.toWalk :=
      ⟨List.mem_append_left _ hwithin.1, fun g hg => List.mem_append_left _ (hwithin.2 g hg)⟩
    have hunopened : Unopened a ([0] ++ reportIds (reportItems own))
        (runItems (reportItems own)) := by
      refine ⟨?_, ?_, hlevel, sameLayout_zero_of_unopened _ a hlevel⟩
      · show Boundary (continueItems .start (reportItems own)).toWalk
        rw [continueItems_toWalk]
        exact hbound
      · show IdsWithin _ (continueItems .start (reportItems own)).toWalk
        rw [continueItems_toWalk]
        exact hwide.run fun _ hid => List.mem_append_right _ hid
    have hbehind := (hunopened.block hother.block (fresh_of_disjoint hother hids) hno).layout
    have hown' := sameLayout_zero_of_unopened _ a hlevel
    cases a with
    | mouse => exact hbehind.trans (Eq.symm hown')
    | keyboard => exact hbehind.trans (Eq.symm hown')
  · exact sameLayout_of_closed hlevel _

end Two

/-! ### Blocks without Push and Pop -/

/-- The list declares this register. -/
def Declares (its : List Item) (t : GlobalTag) : Prop :=
  ∃ it ∈ its, itemType it.type = .global ∧ globalTag it.tag = t

/-- A complete, balanced item stream without Push and Pop that ends in End Collection,
with nonzero Report IDs, in which a Usage follows a Usage Page and an Input item follows
declarations of all it reads. -/
structure PlainBlock (m : List U8) : Prop where
  complete : Complete m
  balanced : Balanced (reportItems m)
  closes : (reportItems m).getLast?.map Item.nesting = some .closes
  noPushPop : NoPushPop (reportItems m)
  ids_ne_zero : (0 : U8) ∉ reportIds (reportItems m)
  usages_paged : ∀ pre it post, reportItems m = pre ++ it :: post → it.isUsage →
    Declares pre .usagePage
  inputs_declared : ∀ pre it post, reportItems m = pre ++ it :: post → it.isInput →
    ∀ t ∈ inputTags, Declares pre t

/-- A list is well scoped when each item is admitted by the scope in front of it. -/
theorem wellScoped_iff (sc : Scope) (its : List Item) :
    WellScoped sc its ↔
      (∀ pre it post, its = pre ++ it :: post → (pre.foldl Scope.step sc).Admits it) ∧
        (its.foldl Scope.step sc).saved = [] := by
  induction its generalizing sc with
  | nil =>
    refine (and_iff_right fun pre it post h => ?_).symm
    exact absurd h.symm (List.append_ne_nil_of_right_ne_nil pre (List.cons_ne_nil it post))
  | cons it its ih =>
    rw [WellScoped, ih]
    constructor
    · rintro ⟨hit, hall, hend⟩
      refine ⟨?_, hend⟩
      intro pre it' post h
      cases pre with
      | nil =>
        rcases List.cons_eq_cons.mp h with ⟨rfl, -⟩
        exact hit
      | cons it'' pre =>
        rcases List.cons_eq_cons.mp h with ⟨rfl, hrest⟩
        exact hall pre it' post hrest
    · rintro ⟨hall, hend⟩
      refine ⟨hall [] it its rfl, ?_, hend⟩
      intro pre it' post h
      exact hall (it :: pre) it' post (by rw [h, List.cons_append])

/-- Without Push and Pop what is in force is what was declared. -/
theorem scope_of_noPushPop {its : List Item} (h : NoPushPop its) :
    (its.foldl Scope.step .start).saved = [] ∧
      ∀ t, t ∈ (its.foldl Scope.step .start).here ↔ Declares its t := by
  induction its using List.reverseRecOn with
  | nil =>
    refine ⟨rfl, fun t => iff_of_false List.not_mem_nil ?_⟩
    rintro ⟨it, hit, -⟩
    exact List.not_mem_nil hit
  | append_singleton its it ih =>
    rcases ih fun it' hit' => h it' (List.mem_append_left _ hit') with ⟨hsaved, hhere⟩
    have hpp := h it (List.mem_append_right _ (List.mem_singleton_self it))
    rw [List.foldl_append, List.foldl_cons, List.foldl_nil]
    -- the last item adds its own tag when it is a declaration
    have hdecl : ∀ t, Declares (its ++ [it]) t ↔
        Declares its t ∨ itemType it.type = .global ∧ globalTag it.tag = t := by
      intro t
      simp [Declares, or_and_right, exists_or]
    by_cases ht : itemType it.type = .global
    · rcases hpp ht with ⟨hpush, hpop⟩
      have hstep : (Scope.step (its.foldl Scope.step .start) it).saved =
          (its.foldl Scope.step .start).saved ∧
          (Scope.step (its.foldl Scope.step .start) it).here =
            globalTag it.tag :: (its.foldl Scope.step .start).here := by
        rw [Scope.step, ht]
        cases hg : globalTag it.tag with
        | push => exact absurd hg hpush
        | pop => exact absurd hg hpop
        | _ => exact ⟨rfl, rfl⟩
      refine ⟨hstep.1.trans hsaved, fun t => ?_⟩
      rw [hstep.2, List.mem_cons, hhere, hdecl, and_iff_right ht, or_comm, eq_comm]
    · have hstep : Scope.step (its.foldl Scope.step .start) it = its.foldl Scope.step .start := by
        unfold Scope.step
        split
        · next hc => exact absurd hc ht
        · rfl
      rw [hstep]
      refine ⟨hsaved, fun t => ?_⟩
      rw [hhere, hdecl, or_iff_left fun hc => ht hc.1]

/-- **Without Push and Pop a list is well scoped when what it uses was declared.** -/
theorem wellScoped_start_iff {its : List Item} (h : NoPushPop its) :
    WellScoped .start its ↔ ∀ pre it post, its = pre ++ it :: post →
      (it.isUsage → Declares pre .usagePage) ∧
        (it.isInput → ∀ t ∈ inputTags, Declares pre t) := by
  rw [wellScoped_iff, and_iff_left (scope_of_noPushPop h).1]
  apply forall_congr'
  intro pre
  apply forall_congr'
  intro it
  apply forall_congr'
  intro post
  apply imp_congr_right
  rintro rfl
  have hpre := (scope_of_noPushPop fun it' hit' => h it' (List.mem_append_left _ hit')).2
  simp only [Scope.Admits, hpre]

/-- A plain block is a block. -/
theorem PlainBlock.isBlock {m : List U8} (h : PlainBlock m) : IsBlock m where
  complete := h.complete
  block :=
    { wellScoped := (wellScoped_start_iff h.noPushPop).mpr fun pre it post heq =>
        ⟨h.usages_paged pre it post heq, h.inputs_declared pre it post heq⟩
      ids_ne_zero := h.ids_ne_zero
      balanced := h.balanced
      closes := h.closes }

/-- A block without Push and Pop is a plain block. -/
theorem IsBlock.plainBlock {m : List U8} (h : IsBlock m) (hpp : NoPushPop (reportItems m)) :
    PlainBlock m where
  complete := h.complete
  balanced := h.block.balanced
  closes := h.block.closes
  noPushPop := hpp
  ids_ne_zero := h.block.ids_ne_zero
  usages_paged pre it post heq :=
    ((wellScoped_start_iff hpp).mp h.block.wellScoped pre it post heq).1
  inputs_declared pre it post heq :=
    ((wellScoped_start_iff hpp).mp h.block.wellScoped pre it post heq).2

/-- **The keyboard and the mouse of a composite descriptor may stand in either order**: each
parser finds what it finds in its own block. -/
theorem composite_orderIndependent {keyboard mouse : List U8} (hkeyboard : PlainBlock keyboard)
    (hmouse : PlainBlock mouse)
    (hids : ∀ id ∈ reportIds (reportItems keyboard), id ∉ reportIds (reportItems mouse))
    (hnoMouse : NoApp .mouse Parser.start.toWalk (reportItems keyboard))
    (hnoKeyboard : NoApp .keyboard Parser.start.toWalk (reportItems mouse)) :
    zmkHidParseReportMap (keyboard ++ mouse) = zmkHidParseReportMap mouse ∧
      zmkHidParseReportMap (mouse ++ keyboard) = zmkHidParseReportMap mouse ∧
      zmkHidParseKeyboardReportMap (keyboard ++ mouse) = zmkHidParseKeyboardReportMap keyboard ∧
      zmkHidParseKeyboardReportMap (mouse ++ keyboard) =
        zmkHidParseKeyboardReportMap keyboard := by
  have hids' : ∀ id ∈ reportIds (reportItems mouse), id ∉ reportIds (reportItems keyboard) :=
    fun id hm hk => hids id hk hm
  have hk := hkeyboard.isBlock
  have hm := hmouse.isBlock
  exact ⟨sameResult_before (a := .mouse) hm hk hids' hnoMouse,
    sameResult_behind (a := .mouse) hm hk hids hnoMouse,
    sameResult_behind (a := .keyboard) hk hm hids' hnoKeyboard,
    sameResult_before (a := .keyboard) hk hm hids hnoKeyboard⟩

/-- A boot keyboard with Report ID 1 and a mouse with Report ID 2. -/
def keyboardBlock : List U8 :=
  [0x05, 0x01, 0x09, 0x06, 0xA1, 0x01, 0x85, 0x01, 0x05, 0x07, 0x19, 0xE0, 0x29, 0xE7, 0x15, 0x00,
   0x25, 0x01, 0x75, 0x01, 0x95, 0x08, 0x81, 0x02, 0x95, 0x06, 0x75, 0x08, 0x19, 0x00, 0x29, 0x65,
   0x81, 0x00, 0xC0]

def mouseBlock : List U8 :=
  [0x05, 0x01, 0x09, 0x02, 0xA1, 0x01, 0x85, 0x02, 0x09, 0x30, 0x09, 0x31, 0x15, 0x81, 0x25, 0x7F,
   0x75, 0x08, 0x95, 0x02, 0x81, 0x06, 0xC0]

/-- A block is recognised by its items. -/
theorem isBlock_of_encode {m : List U8} (henc : (reportItems m).flatMap Item.encode = m)
    (hshort : ∀ it ∈ reportItems m, it.head ≠ itemLong)
    (hscoped : WellScoped .start (reportItems m)) (hids : (0 : U8) ∉ reportIds (reportItems m))
    (hbalanced : Balanced (reportItems m))
    (hcloses : (reportItems m).getLast?.map Item.nesting = some .closes) : IsBlock m :=
  ⟨complete_of_encode henc hshort, hscoped, hids, hbalanced, hcloses⟩

theorem isBlock_keyboardBlock : IsBlock keyboardBlock := by
  refine isBlock_of_encode ?_ ?_ ?_ ?_ ?_ ?_ <;> decide +kernel

theorem isBlock_mouseBlock : IsBlock mouseBlock := by
  refine isBlock_of_encode ?_ ?_ ?_ ?_ ?_ ?_ <;> decide +kernel

/-- Both are accepted, in either order. -/
theorem keyboardBlock_mouseBlock :
    zmkHidParseReportMap (keyboardBlock ++ mouseBlock) = zmkHidParseReportMap mouseBlock ∧
      zmkHidParseReportMap (mouseBlock ++ keyboardBlock) = zmkHidParseReportMap mouseBlock ∧
      zmkHidParseKeyboardReportMap (keyboardBlock ++ mouseBlock) =
        zmkHidParseKeyboardReportMap keyboardBlock ∧
      zmkHidParseKeyboardReportMap (mouseBlock ++ keyboardBlock) =
        zmkHidParseKeyboardReportMap keyboardBlock ∧
      (zmkHidParseReportMap mouseBlock).1 = 0 ∧
      (zmkHidParseKeyboardReportMap keyboardBlock).1 = 0 := by
  have horder := composite_orderIndependent
    (isBlock_keyboardBlock.plainBlock (by decide +kernel))
    (isBlock_mouseBlock.plainBlock (by decide +kernel))
    (by decide +kernel) (by decide +kernel) (by decide +kernel)
  rcases horder with ⟨hbefore, hbehind, hbehind', hbefore'⟩
  exact ⟨hbefore, hbehind, hbehind', hbefore', by decide +kernel, by decide +kernel⟩

end BleHidHost
