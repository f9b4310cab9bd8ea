import BleHidHost.Lib.SaveStack
import BleHidHost.Recording

/-!
# Push and Pop

The Global items Push and Pop save and restore the global state.  The stack has eight
entries; a Push that finds it full is passed over, but the Pop that belongs to it is not,
and takes an entry of a bracket further out.

## Main definitions

* `globals` — the global state and its stack, as a machine of their own.
* `BracketRestores` — a bracket leaves the global state as it was in front of it.
* `HasRoom` — the entry that the closing Pop takes is the right one.

## Main results

* `saved_runItems` — the walk runs that machine.
* `restores_iff` — **a bracket restores the global state, whatever is declared in it,
  exactly when the stack has room for it.**
-/

namespace BleHidHost

open Lib

/-- Push saves the global state, and Pop restores it. -/
def Item.saveOp (it : Item) : SaveOp :=
  match itemType it.type with
  | .global =>
    match globalTag it.tag with
    | .push => .save
    | .pop => .restore
    | _ => .plain
  | _ => .plain

/-- The global state and its stack, apart from the rest of the walk. -/
def globals : SaveStack Item GlobalState where
  cap := globalStackDepth
  op := Item.saveOp
  act it g := (walkItem { Walk.zero with g := g } it).g

/-- The global state of a walk and the entries of its stack. -/
def Walk.saved (w : Walk) : Saved GlobalState := ⟨w.g, w.stack⟩

/-- **An item does to the global state and its stack what the machine does.** -/
theorem saved_walkItem (w : Walk) (it : Item) : (walkItem w it).saved = globals.step w.saved it := by
  unfold SaveStack.step
  simp only [globals, Item.saveOp, walkItem, handleItem, dispatch]
  cases itemType it.type with
  | main => cases mainTag it.tag <;> rfl
  | global => cases globalTag it.tag <;> rfl
  | «local» => cases localTag it.tag <;> rfl
  | reserved => rfl

theorem saved_walkItems_append (its more : List Item) :
    (walkItems (its ++ more)).saved = globals.run more (walkItems its).saved := by
  induction more using List.reverseRecOn with
  | nil => rw [List.append_nil, SaveStack.run_nil]
  | append_singleton more it ih =>
    rw [← List.append_assoc, walkItems_concat, saved_walkItem, ih, SaveStack.run_append,
      SaveStack.run_cons, SaveStack.run_nil]

/-- **The walk runs the machine** from cleared globals and an empty stack. -/
theorem saved_walkItems (its : List Item) :
    (walkItems its).saved = globals.run its Parser.start.saved :=
  saved_walkItems_append [] its

/-- The stack never outgrows its array. -/
theorem length_stack_walkItems (its : List Item) :
    (walkItems its).stack.length ≤ globalStackDepth := by
  have hlen := SaveStack.length_stack_run (m := globals) (s := Parser.start.saved)
    (Nat.zero_le _) its
  rw [← saved_walkItems] at hlen
  exact hlen

/-! ### Brackets -/

/-- Push and Pop are balanced in the list: every Pop closes a Push of the list, and every
Push is closed. -/
def PushPopBalanced (its : List Item) : Prop := globals.closes 0 its

instance (its : List Item) : Decidable (PushPopBalanced its) :=
  inferInstanceAs (Decidable (_ = true))

/-- How deep the brackets of a list nest. -/
def nesting (its : List Item) : ℕ := globals.nesting its

/-- Behind `its`, the bracket of Push, `body` and Pop leaves the globals as they were. -/
def BracketRestores (its body : List Item) : Prop :=
  ∀ push pop : Item, push.saveOp = .save → pop.saveOp = .restore →
    (walkItems (its ++ (push :: body ++ [pop]))).g = (walkItems its).g

/-- Within the bracket fewer brackets nest than the stack has entries, and the entry
`stack[7 - n]` that a full stack would be popped to is free, or holds the present globals. -/
def HasRoom (w : Walk) (n : ℕ) : Prop :=
  n < globalStackDepth ∧ ∀ g ∈ w.stack.reverse[globalStackDepth - 1 - n]?, g = w.g

instance (w : Walk) (n : ℕ) : Decidable (HasRoom w n) := by
  unfold HasRoom
  exact inferInstance

/-- Where the stack has room for all the nested brackets, the entry is free. -/
theorem hasRoom_of_lt {w : Walk} {n : ℕ} (h : w.stack.length + n < globalStackDepth) :
    HasRoom w n := by
  refine ⟨by omega, ?_⟩
  rw [List.getElem?_eq_none (by rw [List.length_reverse]; omega)]
  intro g hg
  cases hg

variable {its body : List Item}

/-- The globals behind a list of items are the register of the machine. -/
theorem g_walkItems_append (its more : List Item) :
    (walkItems (its ++ more)).g = (globals.run more (walkItems its).saved).reg :=
  congrArg Saved.reg (saved_walkItems_append its more)

/-- **With fewer than eight nested brackets** the globals are restored exactly when there is
room. -/
theorem restores_iff_of_nesting_lt (hbody : PushPopBalanced body)
    (hn : nesting body < globalStackDepth) :
    BracketRestores its body ↔ HasRoom (walkItems its) (nesting body) := by
  have hbracket (push pop : Item) (hpush : push.saveOp = .save) (hpop : pop.saveOp = .restore) :
      (walkItems (its ++ (push :: body ++ [pop]))).g =
        ((walkItems its).stack.reverse[globalStackDepth - 1 - nesting body]?).getD
          (walkItems its).g := by
    rw [g_walkItems_append]
    exact SaveStack.reg_bracket_of_lt (m := globals) hpush hpop hbody
      (length_stack_walkItems its) hn
  have hentry : ((walkItems its).stack.reverse[globalStackDepth - 1 - nesting body]?).getD
      (walkItems its).g = (walkItems its).g ↔ HasRoom (walkItems its) (nesting body) := by
    unfold HasRoom
    rw [and_iff_right hn]
    cases (walkItems its).stack.reverse[globalStackDepth - 1 - nesting body]? with
    | none => simp
    | some g => simp
  rw [← hentry]
  constructor
  · intro h
    have hall := h ⟨1, 0xA, 0, [], rfl⟩ ⟨1, 0xB, 0, [], rfl⟩ (by decide) (by decide)
    rwa [hbracket _ _ (by decide) (by decide)] at hall
  · intro h push pop hpush hpop
    rw [hbracket push pop hpush hpop, h]

/-- **With eight or more** the closing Pop is passed over. -/
theorem g_bracket_of_le_nesting (hbody : PushPopBalanced body)
    (hn : globalStackDepth ≤ nesting body) {push pop : Item} (hpush : push.saveOp = .save)
    (hpop : pop.saveOp = .restore) :
    (walkItems (its ++ (push :: body ++ [pop]))).g = (walkItems (its ++ (push :: body))).g := by
  rw [g_walkItems_append, g_walkItems_append]
  exact SaveStack.reg_bracket_of_le (m := globals) hpush hpop hbody (length_stack_walkItems its) hn

/-- A Report Size of one byte. -/
def reportSizeItem (v : U8) : Item := ⟨1, 0x7, 1, [v], rfl⟩

theorem saveOp_reportSizeItem (v : U8) : (reportSizeItem v).saveOp = .plain := rfl

theorem reportSize_walkItem_reportSizeItem (w : Walk) (v : U8) :
    (walkItem w (reportSizeItem v)).g.reportSize = v := by
  show ((v.setWidth 32 ||| (0 : U32) <<< 8 : U32).setWidth 8 : U8) = v
  ext i hi
  simp

/-- The same brackets around other items. -/
def SameBrackets (body body' : List Item) : Prop := globals.brackets body' = globals.brackets body

/-- **Eight or more nested brackets** can hold items that keep the globals from being
restored: what is declared behind the last of them stays in force. -/
theorem exists_not_restores_of_le_nesting (its : List Item) (hbody : PushPopBalanced body)
    (hn : globalStackDepth ≤ nesting body) :
    ∃ body', SameBrackets body body' ∧ ¬ BracketRestores its body' := by
  let v : U8 := (walkItems its).g.reportSize + 1
  have hsame : SameBrackets body (body ++ [reportSizeItem v]) := by
    have hplain : globals.op (reportSizeItem v) = .plain := saveOp_reportSizeItem v
    unfold SameBrackets
    rw [SaveStack.brackets_append, SaveStack.brackets_cons_plain hplain]
    exact List.append_nil _
  refine ⟨body ++ [reportSizeItem v], hsame, ?_⟩
  intro hrestores
  have hpush : (⟨1, 0xA, 0, [], rfl⟩ : Item).saveOp = .save := by decide
  have hpop : (⟨1, 0xB, 0, [], rfl⟩ : Item).saveOp = .restore := by decide
  have hg := hrestores _ _ hpush hpop
  rw [g_bracket_of_le_nesting (SaveStack.closes_of_brackets_eq hsame hbody)
    (hn.trans_eq (SaveStack.nesting_of_brackets_eq hsame).symm) hpush hpop,
    ← List.cons_append, ← List.append_assoc, walkItems_concat] at hg
  have hsize := congrArg GlobalState.reportSize hg
  rw [reportSize_walkItem_reportSizeItem] at hsize
  have hne : (walkItems its).g.reportSize + 1 ≠ (walkItems its).g.reportSize := by
    intro h
    have hnat := congrArg BitVec.toNat h
    have hlt := (walkItems its).g.reportSize.isLt
    rw [BitVec.toNat_add] at hnat
    simp at hnat
    omega
  exact hne hsize

/-- **A bracket restores the globals, whatever is declared in it, exactly when the stack has
room**: fewer than eight brackets nest in it, and the entry that its Pop takes is its own, or
holds the same globals.  With fewer than eight nested brackets it does not matter what is
declared in them; with more, the globals are restored only where the bracket leaves them as
they were without its Pop. -/
theorem bracketRestores_iff (its : List Item) {body : List Item} (hbody : PushPopBalanced body) :
    ((∀ body', SameBrackets body body' → BracketRestores its body') ↔
        HasRoom (walkItems its) (nesting body)) ∧
      (nesting body < globalStackDepth →
        (BracketRestores its body ↔ HasRoom (walkItems its) (nesting body))) ∧
      (globalStackDepth ≤ nesting body →
        (BracketRestores its body ↔ ∀ push : Item, push.saveOp = .save →
          (walkItems (its ++ (push :: body))).g = (walkItems its).g)) := by
  refine ⟨?_, restores_iff_of_nesting_lt hbody, ?_⟩
  · constructor
    · intro hall
      by_cases hn : nesting body < globalStackDepth
      · exact (restores_iff_of_nesting_lt hbody hn).mp (hall body rfl)
      · obtain ⟨body', hsame, hfails⟩ :=
          exists_not_restores_of_le_nesting its hbody (Nat.not_lt.mp hn)
        exact absurd (hall body' hsame) hfails
    · intro hroom body' hsame
      have hnesting : nesting body' = nesting body := SaveStack.nesting_of_brackets_eq hsame
      rw [restores_iff_of_nesting_lt (SaveStack.closes_of_brackets_eq hsame hbody)
        (hnesting ▸ hroom.1), hnesting]
      exact hroom
  · intro hn
    have hclose : (⟨1, 0xB, 0, [], rfl⟩ : Item).saveOp = .restore := by decide
    constructor
    · intro hrestores push hpush
      rw [← hrestores push _ hpush hclose, g_bracket_of_le_nesting hbody hn hpush hclose]
    · intro hleaves push pop hpush hpop
      rw [g_bracket_of_le_nesting hbody hn hpush hpop, hleaves push hpush]

/-- Report Size 16, eight times Push, and Report Size 1. -/
def fullStackMap : List U8 :=
  [0x75, 0x10, 0xa4, 0xa4, 0xa4, 0xa4, 0xa4, 0xa4, 0xa4, 0xa4, 0x75, 0x01]

/-- The ninth Push is passed over, and its Pop restores a Report Size of 16. -/
theorem ninth_push_lost :
    ¬ ∀ (m : List U8) (body : List Item), PushPopBalanced body →
      BracketRestores (reportItems m) body := by
  intro hall
  have hg := hall fullStackMap [] (by decide) ⟨1, 0xA, 0, [], rfl⟩ ⟨1, 0xB, 0, [], rfl⟩
    (by decide) (by decide)
  exact absurd hg (by decide +kernel)

/-- A bracket that changes the Usage Page and the Report Size, around another one. -/
def nestedBody : List Item := reportItems [0x05, 0x09, 0xa4, 0x75, 0x10, 0xb4, 0x75, 0x08]

/-- Behind Usage Page, Report Size, and a Push that is still open, there is room for it: the
Report Size is 1 again, though it was 8 before the Pop. -/
theorem bracketRestores_nested :
    PushPopBalanced nestedBody ∧ nesting nestedBody = 1 ∧
      BracketRestores (reportItems [0x05, 0x01, 0xa4, 0x75, 0x01]) nestedBody ∧
      (walkItems (reportItems [0x05, 0x01, 0xa4, 0x75, 0x01] ++ nestedBody)).g ≠
        (walkItems (reportItems [0x05, 0x01, 0xa4, 0x75, 0x01])).g := by
  have hbody : PushPopBalanced nestedBody := by decide +kernel
  have hnesting : nesting nestedBody = 1 := by decide +kernel
  have hroom : HasRoom (walkItems (reportItems [0x05, 0x01, 0xa4, 0x75, 0x01]))
      (nesting nestedBody) := hasRoom_of_lt (by decide +kernel)
  refine ⟨hbody, hnesting, ?_, by decide +kernel⟩
  exact ((bracketRestores_iff _ hbody).2.1 (by decide +kernel)).mpr hroom

end BleHidHost
