import BleHidHost.Central
import BleHidHost.Nesting

/-!
# Cutting and extending a Report Map

A layout is accepted only where every collection was closed, and then its application is
closed for good.  So whatever follows an accepted map records nothing more, and two
accepted maps, one of which begins the other, have one layout.

## Main definitions

* `Settled` — the application of a layout with fields is closed.

## Main results

* `settled_of_accepted` — **what is accepted is settled.**
* `layoutStable` — **truncating or extending a map never changes an accepted layout.**
-/

namespace BleHidHost

open Lib

/-! ### Layouts are written inside their application only -/

/-- The layouts after some more items. -/
def continueItems (p : Parser) (its : List Item) : Parser := its.foldl handleItem p

theorem runItems_append (its more : List Item) :
    runItems (its ++ more) = continueItems (runItems its) more := List.foldl_append

/-- The walk of a parser that goes on. -/
theorem continueItems_toWalk (p : Parser) (its : List Item) :
    (continueItems p its).toWalk = its.foldl walkItem p.toWalk := by
  induction its generalizing p with
  | nil => rfl
  | cons it its ih =>
    have hrest := ih (handleItem p it)
    rw [handleItem_toWalk] at hrest
    exact hrest

/-- The layout of an application is left as it is. -/
def SameLayout (p q : Parser) : App → Prop
  | .mouse => p.out = q.out
  | .keyboard => p.outKbd = q.outKbd

/-- **Outside its application a layout is not written.** -/
theorem sameLayout_handleItem {p : Parser} {a : App} (h : p.level a < 0) (it : Item) :
    SameLayout (handleItem p it) p a := by
  cases a with
  | mouse =>
    have hout : isPointerInput p.toWalk (itemU it.data) = false := by
      have hin : inMouse p.toWalk = false := decide_eq_false (Int.not_le.mpr h)
      rw [isPointerInput, hin, Bool.false_and, Bool.false_and]
    show (handleItem p it).out = p.out
    rw [handleItem_out, hout, if_neg fun hc => absurd hc.2 Bool.false_ne_true]
  | keyboard =>
    have hout : isKeyboardInput p.toWalk (itemU it.data) = false := by
      have hin : inKeyboard p.toWalk = false := decide_eq_false (Int.not_le.mpr h)
      rw [isKeyboardInput, hin, Bool.false_and]
    show (handleItem p it).outKbd = p.outKbd
    rw [handleItem_outKbd, hout, if_neg fun hc => absurd hc.2 Bool.false_ne_true]

theorem SameLayout.trans {p q r : Parser} {a : App} (h : SameLayout p q a) (h' : SameLayout q r a) :
    SameLayout p r a := by
  cases a with
  | mouse => exact Eq.trans h h'
  | keyboard => exact Eq.trans h h'

/-- **The layout of a closed application is final.** -/
theorem sameLayout_of_closed {p : Parser} {a : App} (h : p.level a = -2) (its : List Item) :
    SameLayout (continueItems p its) p a := by
  induction its generalizing p with
  | nil => cases a <;> rfl
  | cons it its ih =>
    have hlevel : (handleItem p it).level a = -2 := by
      rw [handleItem_toWalk]
      exact level_closed_walkItem h it
    exact (ih hlevel).trans (sameLayout_handleItem (by omega) it)

/-- Before its application is opened a layout is cleared. -/
theorem sameLayout_zero_of_unopened (its : List Item) (a : App)
    (h : (runItems its).level a = -1) : SameLayout (runItems its) .zero a := by
  induction its using List.reverseRecOn with
  | nil => cases a <;> rfl
  | append_singleton its it ih =>
    rw [runItems_concat] at h ⊢
    rw [handleItem_toWalk] at h
    have hprev : (runItems its).level a = -1 := level_of_unopened_walkItem h
    exact (sameLayout_handleItem (by omega) it).trans (ih hprev)

/-! ### Accepted maps -/

/-- The application has been closed. -/
def Settled (its : List Item) (a : App) : Prop := (runItems its).level a = -2

/-- **Where every collection is closed and a layout has a field, its application is
closed.** -/
theorem settled_of_closed {its : List Item} {a : App} (hdepth : (runItems its).depth = 0)
    (hlayout : ¬ SameLayout (runItems its) .zero a) : Settled its a := by
  rcases (nested_walkItems its).level a with h | h | ⟨hopen, hlt⟩
  · exact absurd (sameLayout_zero_of_unopened its a h) hlayout
  · exact h
  · -- an open application needs a deeper walk
    have hwalk : (walkItems its).depth = 0 := hdepth
    omega

/-- The map is accepted by the parser for this application. -/
def Accepted (a : App) (m : List U8) : Prop :=
  match a with
  | .mouse => (zmkHidParseReportMap m).1 = 0
  | .keyboard => (zmkHidParseKeyboardReportMap m).1 = 0

/-- What is accepted has a field. -/
theorem not_sameLayout_zero_of_accepted {a : App} {m : List U8} (h : Accepted a m) :
    ¬ SameLayout (runItems (reportItems m)) .zero a := by
  intro hzero
  cases a with
  | mouse =>
    rcases (zmkHidParseReportMap_fst_eq_zero m).mp h with ⟨hx, -, -⟩
    have hout : (runItems (reportItems m)).out = .zero := hzero
    rw [hout] at hx
    exact Field.not_present_zero hx
  | keyboard =>
    rcases (zmkHidParseKeyboardReportMap_fst_eq_zero m).mp h with ⟨hk, -⟩
    have hout : (runItems (reportItems m)).outKbd = .zero := hzero
    rw [hout] at hk
    exact Field.not_present_zero hk

/-- An accepted map has closed every collection. -/
theorem depth_of_accepted {a : App} {m : List U8} (h : Accepted a m) :
    (runItems (reportItems m)).depth = 0 := by
  cases a with
  | mouse => exact ((zmkHidParseReportMap_fst_eq_zero m).mp h).2.2
  | keyboard => exact ((zmkHidParseKeyboardReportMap_fst_eq_zero m).mp h).2

/-- What is accepted is settled. -/
theorem settled_of_accepted {a : App} {m : List U8} (h : Accepted a m) :
    Settled (reportItems m) a :=
  settled_of_closed (depth_of_accepted h) (not_sameLayout_zero_of_accepted h)

/-- The parsers give one result on two maps. -/
def SameResult (m m' : List U8) : App → Prop
  | .mouse => zmkHidParseReportMap m = zmkHidParseReportMap m'
  | .keyboard => zmkHidParseKeyboardReportMap m = zmkHidParseKeyboardReportMap m'

theorem SameResult.symm {m m' : List U8} {a : App} (h : SameResult m m' a) :
    SameResult m' m a := by
  cases a with
  | mouse => exact Eq.symm h
  | keyboard => exact Eq.symm h

theorem SameResult.trans {m m' m'' : List U8} {a : App} (h : SameResult m m' a)
    (h' : SameResult m' m'' a) : SameResult m m'' a := by
  cases a with
  | mouse => exact Eq.trans h h'
  | keyboard => exact Eq.trans h h'

/-- The result of the parse is that of the layout, and of whether every collection is
closed. -/
theorem sameResult_of_sameLayout {m m' : List U8} {a : App}
    (h : SameLayout (runItems (reportItems m)) (runItems (reportItems m')) a)
    (hdepth : (runItems (reportItems m)).depth = 0 ↔ (runItems (reportItems m')).depth = 0) :
    SameResult m m' a := by
  have hbeq : ((runItems (reportItems m)).depth == 0) =
      ((runItems (reportItems m')).depth == 0) := by
    rw [Bool.eq_iff_iff, beq_iff_eq, beq_iff_eq]
    exact hdepth
  cases a with
  | mouse =>
    have hout : (runItems (reportItems m)).out = (runItems (reportItems m')).out := h
    unfold SameResult
    rw [zmkHidParseReportMap, zmkHidParseReportMap, runParser_eq_foldl, runParser_eq_foldl]
    simp only [hout, hbeq]
  | keyboard =>
    have hout : (runItems (reportItems m)).outKbd = (runItems (reportItems m')).outKbd := h
    unfold SameResult
    rw [zmkHidParseKeyboardReportMap, zmkHidParseKeyboardReportMap, runParser_eq_foldl,
      runParser_eq_foldl]
    simp only [hout, hbeq]

/-- **What follows an accepted map leaves its layout as it is**: the parse of the longer
map gives the same result where it ends with every collection closed. -/
theorem sameResult_of_prefix {a : App} {m m' : List U8} (h : Accepted a m)
    (hpre : reportItems m <+: reportItems m') (hdepth : (runItems (reportItems m')).depth = 0) :
    SameResult m m' a := by
  refine sameResult_of_sameLayout ?_ (iff_of_true (depth_of_accepted h) hdepth)
  rcases hpre with ⟨more, hmore⟩
  have hsame := sameLayout_of_closed (settled_of_accepted h) more
  rw [← runItems_append, hmore] at hsame
  cases a with
  | mouse => exact Eq.symm hsame
  | keyboard => exact Eq.symm hsame

/-- Truncating or extending a map never changes an accepted layout. -/
structure LayoutStable (a : App) : Prop where
  /-- An accepted map and an accepted continuation have one layout. -/
  extension : ∀ m more, Accepted a m → Accepted a (m ++ more) → SameResult m (m ++ more) a
  /-- Cutting an accepted map to the size of the buffer leaves no layout or the same. -/
  cut : ∀ m, Accepted a m → ¬ Accepted a (m.take reportMapMax) ∨
    SameResult (m.take reportMapMax) m a
  /-- Balanced collections behind an accepted map of whole items change nothing. -/
  appended : ∀ m more, Accepted a m → Complete m → Balanced (reportItems more) →
    Accepted a (m ++ more) ∧ SameResult m (m ++ more) a

/-- A map with the result of an accepted one is accepted. -/
theorem SameResult.accepted {a : App} {m m' : List U8} (h : SameResult m m' a)
    (hacc : Accepted a m) : Accepted a m' := by
  cases a with
  | mouse =>
    have hres : zmkHidParseReportMap m = zmkHidParseReportMap m' := h
    exact (congrArg Prod.fst hres).symm.trans hacc
  | keyboard =>
    have hres : zmkHidParseKeyboardReportMap m = zmkHidParseKeyboardReportMap m' := h
    exact (congrArg Prod.fst hres).symm.trans hacc

/-- **Truncating or extending a Report Map never changes an accepted layout**, of either
application. -/
theorem layoutStable (a : App) : LayoutStable a where
  extension m more hacc hmore :=
    sameResult_of_prefix hacc (reportItems_prefix_append m more) (depth_of_accepted hmore)
  cut m hacc := by
    by_cases hcut : Accepted a (m.take reportMapMax)
    · right
      have hpre := reportItems_prefix_append (m.take reportMapMax) (m.drop reportMapMax)
      rw [List.take_append_drop] at hpre
      exact sameResult_of_prefix hcut hpre (depth_of_accepted hacc)
    · exact Or.inl hcut
  appended m more hacc hwhole hbal := by
    have hitems := reportItems_append hwhole more
    -- the walk is back at depth zero behind the appended collections
    have hdepth : (runItems (reportItems (m ++ more))).depth = 0 := by
      rw [hitems, runItems_append, continueItems_toWalk]
      exact foldl_walkItem_depth hbal (depth_of_accepted hacc)
    have hsame := sameResult_of_prefix hacc (hitems ▸ List.prefix_append _ _) hdepth
    exact ⟨hsame.accepted hacc, hsame⟩

end BleHidHost
