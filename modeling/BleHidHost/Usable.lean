import BleHidHost.Coherence
import BleHidHost.Composite

/-!
# The first usable collection

Both parsers promise the layout of the first usable collection of their kind.  They lock on
the first collection of the kind, usable or not: its level goes from unopened to open and
to closed once in a map.  So the promise is kept where no collection in front of the first
usable one opens the application.

## Main definitions

* `BlockMap` — a map formed of blocks, each with Report IDs of its own.
* `Usable` — a collection of the kind that is accepted alone.
* `FirstUsableWins`, `UnopenedBefore` — the promise, and when it is kept.

## Main results

* `BlockMap.unopened` — blocks without the application leave it unopened.
* `BlockMap.sameResult_of_opens` — **the first block that opens the application decides.**
* `firstUsableWins_iff` — the promise is kept in these maps and in no others.
-/

namespace BleHidHost

open Lib

/-! ### Maps formed of blocks -/

/-- A Report Map formed of blocks, each with Report IDs of its own. -/
structure BlockMap (blocks : List (List U8)) : Prop where
  isBlock : ∀ b ∈ blocks, IsBlock b
  ids : blocks.Pairwise fun b b' =>
    ∀ id ∈ reportIds (reportItems b), id ∉ reportIds (reportItems b')

/-- The Report IDs of these blocks. -/
def blockIds (blocks : List (List U8)) : List U8 :=
  blocks.flatMap fun b => reportIds (reportItems b)

/-- Zero and the Report IDs of these blocks are those that the registers may hold. -/
def idsBehind (blocks : List (List U8)) : List U8 := [0] ++ blockIds blocks

section BlockMap

variable {a : App} {blocks pre post : List (List U8)} {b : List U8}

theorem BlockMap.left (h : BlockMap (blocks ++ post)) : BlockMap blocks where
  isBlock b' hb := h.isBlock b' (List.mem_append_left _ hb)
  ids := (List.pairwise_append.mp h.ids).1

theorem BlockMap.right (h : BlockMap (pre ++ blocks)) : BlockMap blocks where
  isBlock b' hb := h.isBlock b' (List.mem_append_right _ hb)
  ids := (List.pairwise_append.mp h.ids).2.1

theorem BlockMap.tail (h : BlockMap (b :: blocks)) : BlockMap blocks := by
  rw [← List.singleton_append] at h
  exact h.right

theorem BlockMap.head (h : BlockMap (pre ++ b :: post)) : IsBlock b :=
  h.isBlock b (List.mem_append_right _ List.mem_cons_self)

/-- A block declares none of the Report IDs in front of it. -/
theorem BlockMap.fresh (h : BlockMap (pre ++ b :: post)) :
    ∀ id ∈ reportIds (reportItems b), id ∉ idsBehind pre := by
  intro id hid hmem
  rcases List.mem_append.mp hmem with hzero | hpre
  · exact fresh_of_start h.head id hid hzero
  · rcases List.mem_flatMap.mp hpre with ⟨b', hb', hid'⟩
    exact (List.pairwise_append.mp h.ids).2.2 b' hb' b List.mem_cons_self id hid' hid

/-- The items of a map are those of its blocks. -/
theorem BlockMap.reportItems_flatten (h : BlockMap blocks) :
    reportItems blocks.flatten = blocks.flatMap reportItems := by
  induction blocks with
  | nil => rfl
  | cons b blocks ih =>
    have hb : IsBlock b := h.isBlock b List.mem_cons_self
    have htail : BlockMap blocks := h.tail
    rw [List.flatten_cons, List.flatMap_cons, reportItems_append hb.complete, ih htail]

/-- The walk ends at depth zero behind every map of blocks. -/
theorem BlockMap.balanced (h : BlockMap blocks) : Balanced (reportItems blocks.flatten) := by
  induction blocks with
  | nil => rfl
  | cons b blocks ih =>
    have hb : IsBlock b := h.isBlock b List.mem_cons_self
    have htail : BlockMap blocks := h.tail
    rw [List.flatten_cons, reportItems_append hb.complete]
    exact hb.block.balanced.append (ih htail)

/-- **Blocks without the application leave it unopened.** -/
theorem BlockMap.unopened (h : BlockMap blocks)
    (hno : ∀ b ∈ blocks, NoApp a Parser.start.toWalk (reportItems b)) :
    Unopened a (idsBehind blocks) (runItems (reportItems blocks.flatten)) := by
  induction blocks using List.reverseRecOn with
  | nil => exact unopened_start a
  | append_singleton blocks b ih =>
    have hunopened := ih h.left fun b' hb => hno b' (List.mem_append_left _ hb)
    have hb := h.isBlock b (List.mem_append_right _ (List.mem_singleton_self b))
    have hnext := hunopened.block hb.block h.fresh
      (hno b (List.mem_append_right _ (List.mem_singleton_self b)))
    have hitems : reportItems (blocks ++ [b]).flatten =
        reportItems blocks.flatten ++ reportItems b := by
      rw [h.reportItems_flatten, h.left.reportItems_flatten, List.flatMap_append,
        List.flatMap_singleton]
    have hids : idsBehind (blocks ++ [b]) = idsBehind blocks ++ reportIds (reportItems b) := by
      rw [idsBehind, idsBehind, blockIds, blockIds, List.flatMap_append, List.flatMap_singleton,
        List.append_assoc]
    rw [hitems, runItems_append, hids]
    exact hnext

/-- **The first block that opens the application decides**: the map has the result of this
block alone. -/
theorem BlockMap.sameResult_of_opens (h : BlockMap (pre ++ b :: post))
    (hno : ∀ b' ∈ pre, NoApp a Parser.start.toWalk (reportItems b'))
    (hopens : ¬ NoApp a Parser.start.toWalk (reportItems b)) :
    SameResult (pre ++ b :: post).flatten b a := by
  rcases (h.left.unopened hno).open h.head.block h.fresh with ⟨hlayout, hlevel⟩
  have hdepth := depth_runItems_of_balanced h.head.block.balanced
  -- behind the block the application is closed
  have hclosed : (runItems (reportItems b)).level a = -2 := by
    refine (level_of_depth_eq_zero (reportItems b) a hdepth).resolve_left ?_
    have hne := level_foldl_ne_of_not_noApp (w := Parser.start.toWalk) le_rfl hopens
    rw [← continueItems_toWalk] at hne
    exact hne
  have hitems : reportItems (pre ++ b :: post).flatten =
      reportItems pre.flatten ++ (reportItems b ++ post.flatMap reportItems) := by
    rw [h.reportItems_flatten, h.left.reportItems_flatten, List.flatMap_append, List.flatMap_cons]
  refine sameResult_of_sameLayout ?_
    (iff_of_true (depth_runItems_of_balanced h.balanced) hdepth)
  rw [hitems, ← List.append_assoc, runItems_append, runItems_append]
  exact (sameLayout_of_closed (hlevel.trans hclosed) _).trans hlayout

end BlockMap

/-! ### The Report ID of an accepted layout -/

/-- The Report ID that a layout is locked on. -/
def layoutId (p : Parser) : App → U8
  | .mouse => p.out.reportId
  | .keyboard => p.outKbd.reportId

section LayoutId

variable {a : App} {ids : List U8} {p : Parser}

/-- An Input item locks an empty layout on the Report ID in force. -/
theorem layoutId_handleItem {it : Item} (h : SameLayout p .zero a ∨ layoutId p a ∈ ids)
    (hid : it.isInput → p.g.reportId ∈ ids) :
    SameLayout (handleItem p it) .zero a ∨ layoutId (handleItem p it) a ∈ ids := by
  cases a with
  | mouse =>
    show (handleItem p it).out = .zero ∨ (handleItem p it).out.reportId ∈ ids
    rw [handleItem_out]
    split
    · next hc =>
      right
      rw [assignInput_reportId]
      rcases h with hzero | hmem
      · have hout : p.out = .zero := hzero
        rw [hout, if_pos (by decide)]
        exact hid hc.1
      · split
        · exact hid hc.1
        · exact hmem
    · exact h
  | keyboard =>
    show (handleItem p it).outKbd = .zero ∨ (handleItem p it).outKbd.reportId ∈ ids
    rw [handleItem_outKbd]
    split
    · next hc =>
      right
      rw [assignKbdInput_reportId]
      rcases h with hzero | hmem
      · have hout : p.outKbd = .zero := hzero
        rw [hout, if_pos (by decide)]
        exact hid hc.1
      · split
        · exact hid hc.1
        · exact hmem
    · exact h

/-- A list that declares a Report ID before each Input item locks the layout on one of
them. -/
theorem layoutId_continueItems {its : List Item} {sc : Scope}
    (h : SameLayout p .zero a ∨ layoutId p a ∈ ids) (hagree : Agrees ids sc p.toWalk p.toWalk)
    (hits : WellScoped sc its) (hids : ∀ id ∈ reportIds its, id ∈ ids) :
    SameLayout (continueItems p its) .zero a ∨ layoutId (continueItems p its) a ∈ ids := by
  induction its generalizing sc p with
  | nil => exact h
  | cons it its ih =>
    rcases forall_reportIds_cons.mp hids with ⟨hid, hrest⟩
    have hnext := layoutId_handleItem h fun hin =>
      (hagree.registers.reportId (hits.1.2 hin .reportId (by decide))).2
    refine ih hnext ?_ hits.2 hrest
    rw [handleItem_toWalk]
    exact hagree.step hits.1 hid

/-- **An accepted layout is locked on a Report ID of its block.** -/
theorem layoutId_mem_of_accepted {m : List U8} (hblock : IsBlock m) (h : Accepted a m) :
    layoutId (runItems (reportItems m)) a ∈ reportIds (reportItems m) := by
  have hfresh := reportId_start_fresh hblock.block
  have hzero : SameLayout .start .zero a := by cases a <;> rfl
  refine (layoutId_continueItems (Or.inl hzero)
    (agrees_of_boundary boundary_start boundary_start hfresh hfresh) hblock.block.wellScoped
    fun _ hid => hid).resolve_left (not_sameLayout_zero_of_accepted h)

/-- One result is locked on one Report ID. -/
theorem SameResult.layoutId_eq {m m' : List U8} (h : SameResult m m' a) :
    layoutId (runItems (reportItems m)) a = layoutId (runItems (reportItems m')) a := by
  cases a with
  | mouse =>
    have hres : zmkHidParseReportMap m = zmkHidParseReportMap m' := h
    have hid : (zmkHidParseReportMap m).2.reportId = (zmkHidParseReportMap m').2.reportId := by
      rw [hres]
    rw [zmkHidParseReportMap_snd m, zmkHidParseReportMap_snd m'] at hid
    exact hid
  | keyboard =>
    have hres : zmkHidParseKeyboardReportMap m = zmkHidParseKeyboardReportMap m' := h
    have hid : (zmkHidParseKeyboardReportMap m).2.reportId =
        (zmkHidParseKeyboardReportMap m').2.reportId := by
      rw [hres]
    rw [zmkHidParseKeyboardReportMap_snd m, zmkHidParseKeyboardReportMap_snd m'] at hid
    exact hid

end LayoutId

/-! ### Usable collections -/

/-- The walk over these items opens the application at the top level. -/
def OpensTop (a : App) : Walk → List Item → Prop
  | _, [] => False
  | w, it :: its => (w.depth = 0 ∧ OpensApp w a it) ∨ OpensTop a (walkItem w it) its

/-- `OpensTop` is decided item by item. -/
def decidableOpensTop (a : App) : (its : List Item) → (w : Walk) → Decidable (OpensTop a w its)
  | [], _ => inferInstanceAs (Decidable False)
  | it :: its, w =>
    haveI := decidableOpensTop a its (walkItem w it)
    inferInstanceAs (Decidable ((w.depth = 0 ∧ OpensApp w a it) ∨ OpensTop a (walkItem w it) its))

instance (a : App) (w : Walk) (its : List Item) : Decidable (OpensTop a w its) :=
  decidableOpensTop a its w

instance (a : App) (m : List U8) : Decidable (Accepted a m) :=
  match a with
  | .mouse => inferInstanceAs (Decidable ((zmkHidParseReportMap m).1 = 0))
  | .keyboard => inferInstanceAs (Decidable ((zmkHidParseKeyboardReportMap m).1 = 0))

theorem OpensTop.not_noApp {a : App} {w : Walk} {its : List Item} (h : OpensTop a w its) :
    ¬ NoApp a w its := by
  induction its generalizing w with
  | nil => exact absurd h id
  | cons it its ih =>
    rintro ⟨hit, hrest⟩
    rcases h with hopens | htop
    · exact hit hopens.2
    · exact ih htop hrest

/-- A usable collection: its application is opened at the top level, and parsed alone it
is accepted. -/
def Usable (a : App) (b : List U8) : Prop :=
  OpensTop a Parser.start.toWalk (reportItems b) ∧ Accepted a b

instance (a : App) (b : List U8) : Decidable (Usable a b) := inferInstanceAs (Decidable (_ ∧ _))

/-- The block is the first usable one behind these. -/
def FirstUsable (a : App) (pre : List (List U8)) (b : List U8) : Prop :=
  Usable a b ∧ ∀ b' ∈ pre, ¬ Usable a b'

/-- If some collection is usable the map is accepted, with the layout of the first such. -/
def FirstUsableWins (a : App) (blocks : List (List U8)) : Prop :=
  ∀ pre b post, blocks = pre ++ b :: post → FirstUsable a pre b →
    Accepted a blocks.flatten ∧ SameResult blocks.flatten b a

/-- No collection in front of the first usable one opens the application, at any level. -/
def UnopenedBefore (a : App) (blocks : List (List U8)) : Prop :=
  ∀ pre b post, blocks = pre ++ b :: post → FirstUsable a pre b →
    ∀ b' ∈ pre, NoApp a Parser.start.toWalk (reportItems b')

section Usable

variable {a : App} {blocks : List (List U8)}

/-- If some block opens the application, some block is the first to do so. -/
theorem exists_first_opens {pre : List (List U8)}
    (h : ¬ ∀ b ∈ pre, NoApp a Parser.start.toWalk (reportItems b)) :
    ∃ front b back, pre = front ++ b :: back ∧ ¬ NoApp a Parser.start.toWalk (reportItems b) ∧
      ∀ b' ∈ front, NoApp a Parser.start.toWalk (reportItems b') := by
  induction pre with
  | nil => exact absurd (fun b hb => absurd hb List.not_mem_nil) h
  | cons b pre ih =>
    by_cases hb : NoApp a Parser.start.toWalk (reportItems b)
    · have hrest : ¬ ∀ b ∈ pre, NoApp a Parser.start.toWalk (reportItems b) :=
        fun hall => h (List.forall_mem_cons.mpr ⟨hb, hall⟩)
      rcases ih hrest with ⟨front, b', back, rfl, hopens, hfront⟩
      exact ⟨b :: front, b', back, rfl, hopens, List.forall_mem_cons.mpr ⟨hb, hfront⟩⟩
    · exact ⟨[], b, pre, rfl, hb, fun b' hb' => absurd hb' List.not_mem_nil⟩

/-- Two blocks of one map have no layout in common. -/
theorem BlockMap.not_sameResult {front back post : List (List U8)} {b b' : List U8}
    (h : BlockMap (front ++ b' :: back ++ b :: post)) (hacc : Accepted a b) :
    ¬ SameResult b' b a := by
  intro hsame
  have hb : IsBlock b := h.head
  have hb' : IsBlock b' := h.left.head
  have hmem := layoutId_mem_of_accepted hb hacc
  have hmem' := layoutId_mem_of_accepted hb' (hsame.symm.accepted hacc)
  rw [hsame.layoutId_eq] at hmem'
  exact (List.pairwise_append.mp h.ids).2.2 b' (List.mem_append_right _ List.mem_cons_self) b
    List.mem_cons_self _ hmem' hmem

/-- **The first usable collection wins in these maps and in no others**: those where no
collection in front of it opens the application. -/
theorem firstUsableWins_iff (h : BlockMap blocks) :
    FirstUsableWins a blocks ↔ UnopenedBefore a blocks := by
  constructor
  · intro hwins pre b post hsplit hfirst
    rcases hwins pre b post hsplit hfirst with ⟨hacc, hsame⟩
    by_contra hopened
    rcases exists_first_opens hopened with ⟨front, b', back, rfl, hopens, hfront⟩
    subst hsplit
    -- the map has the layout of the block that opened the application first
    have hfirst' : SameResult (front ++ b' :: back ++ b :: post).flatten b' a := by
      have hmap : front ++ b' :: back ++ b :: post = front ++ b' :: (back ++ b :: post) := by
        rw [List.append_assoc, List.cons_append]
      rw [hmap] at h ⊢
      exact h.sameResult_of_opens hfront hopens
    exact h.not_sameResult hfirst.1.2 (hfirst'.symm.trans hsame)
  · intro hunopened pre b post hsplit hfirst
    have hno := hunopened pre b post hsplit hfirst
    subst hsplit
    have hsame := h.sameResult_of_opens hno hfirst.1.1.not_noApp
    exact ⟨hsame.symm.accepted hfirst.1.2, hsame⟩

end Usable

/-- A keyboard in front of a mouse does not open the mouse application. -/
theorem firstUsableWins_keyboardBlock :
    FirstUsableWins .mouse [keyboardBlock, mouseBlock] ∧ Usable .mouse mouseBlock := by
  have hmap : BlockMap [keyboardBlock, mouseBlock] := by
    refine ⟨?_, by decide +kernel⟩
    rintro b hb
    rcases List.mem_pair.mp hb with rfl | rfl
    · exact isBlock_keyboardBlock
    · exact isBlock_mouseBlock
  refine ⟨(firstUsableWins_iff hmap).mpr ?_, by decide +kernel⟩
  intro pre b post hsplit hfirst b' hb'
  -- what stands in front of another block is the keyboard
  have hlen : pre.length < 2 := by
    have := congrArg List.length hsplit
    simp only [List.length_append, List.length_cons, List.length_nil] at this
    omega
  have hkeyboard : b' = keyboardBlock := by
    rcases pre with - | ⟨c, - | ⟨d, pre⟩⟩
    · exact absurd hb' List.not_mem_nil
    · rw [List.singleton_append, List.cons.injEq] at hsplit
      exact (List.mem_singleton.mp hb').trans hsplit.1.symm
    · simp only [List.length_cons] at hlen
      omega
  rw [hkeyboard]
  decide +kernel

/-- A mouse collection without Y, with Report ID 1. -/
def dialBlock : List U8 :=
  [0x05, 0x01, 0x09, 0x02, 0xA1, 0x01, 0x85, 0x01, 0x09, 0x30, 0x15, 0x81, 0x25, 0x7F, 0x75, 0x08,
   0x95, 0x01, 0x81, 0x06, 0xC0]

/-- **A usable mouse behind an unusable one is not found**: the map is rejected. -/
theorem dialBlock_hides_mouseBlock :
    BlockMap [dialBlock, mouseBlock] ∧ FirstUsable .mouse [dialBlock] mouseBlock ∧
      (zmkHidParseReportMap (dialBlock ++ mouseBlock)).1 = -1 ∧
      ¬ FirstUsableWins .mouse [dialBlock, mouseBlock] := by
  have hdial : IsBlock dialBlock := by
    refine isBlock_of_encode ?_ ?_ ?_ ?_ ?_ ?_ <;> decide +kernel
  have hfirst : FirstUsable .mouse [dialBlock] mouseBlock := by
    refine ⟨by decide +kernel, ?_⟩
    intro b hb
    rw [List.mem_singleton.mp hb]
    decide +kernel
  refine ⟨⟨?_, by decide +kernel⟩, hfirst, by decide +kernel, ?_⟩
  · rintro b hb
    rcases List.mem_pair.mp hb with rfl | rfl
    · exact hdial
    · exact isBlock_mouseBlock
  · intro hwins
    have hacc := (hwins [dialBlock] mouseBlock [] rfl hfirst).1
    exact absurd hacc (by decide +kernel)

end BleHidHost
