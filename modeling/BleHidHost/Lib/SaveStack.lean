import Mathlib.Data.Nat.Notation

/-!
# Save stacks of bounded depth

A register that a word of letters works on.  Some letters save its value on a stack, some
restore the value saved last, and the others change it.  The stack has room for `cap`
values: a save beyond that is dropped, and a restore from an empty stack is ignored.  The
letter that restores does not know whether its save was dropped, so what a bracket of the
two does depends on how deep brackets nest within it.

## Main definitions

* `SaveStack` — the letters of a machine with a register and a stack.
* `SaveStack.closes d w` — `w` restores `d` values more than it saves, and never one more
  behind any prefix.
* `SaveStack.nesting w` — the most saves of `w` that are open at once.

## Main results

* `stack_run_of_closes` — what a word that closes `d` brackets leaves of the stack.
* `reg_bracket_of_lt` — **a bracket around fewer than `cap` nested ones restores the entry
  at a fixed height of the stack, or the register itself where that height is not reached.**
* `reg_bracket_of_le` — behind more nested ones the restore is ignored.
-/

namespace Lib

/-- What a letter does to the stack. -/
inductive SaveOp
  | save
  | restore
  | plain
  deriving DecidableEq, Repr, Inhabited

/-- A machine that reads letters `α` into a register `σ`. -/
structure SaveStack (α σ : Type) where
  /-- The number of values that can be saved. -/
  cap : ℕ
  op : α → SaveOp
  /-- What a letter that neither saves nor restores does to the register. -/
  act : α → σ → σ

/-- The register, and the values saved of it, the last one first. -/
structure Saved (σ : Type) where
  reg : σ
  stack : List σ
  deriving DecidableEq, Repr

namespace SaveStack

variable {α σ : Type} (m : SaveStack α σ)

/-- Read one letter. -/
def step (s : Saved σ) (a : α) : Saved σ :=
  match m.op a with
  | .save => ⟨s.reg, if s.stack.length < m.cap then s.reg :: s.stack else s.stack⟩
  | .restore => ⟨s.stack.headD s.reg, s.stack.tail⟩
  | .plain => ⟨m.act a s.reg, s.stack⟩

/-- Read a word. -/
def run (w : List α) (s : Saved σ) : Saved σ := w.foldl m.step s

/-- `w` closes `d` brackets that are open in front of it, and those it opens itself. -/
def closes : ℕ → List α → Bool
  | d, [] => d == 0
  | d, a :: w =>
    match m.op a with
    | .save => closes (d + 1) w
    | .plain => closes d w
    | .restore => decide (0 < d) && closes (d - 1) w

/-- The most brackets that `w` has open at once, beyond those open in front of it. -/
def nesting : List α → ℕ
  | [] => 0
  | a :: w =>
    match m.op a with
    | .save => nesting w + 1
    | .restore => nesting w - 1
    | .plain => nesting w

/-- The saves and restores of a word. -/
def brackets (w : List α) : List SaveOp := (w.map m.op).filter (· ≠ .plain)

@[simp] theorem run_nil (s : Saved σ) : m.run [] s = s := rfl

@[simp] theorem run_cons (a : α) (w : List α) (s : Saved σ) :
    m.run (a :: w) s = m.run w (m.step s a) := rfl

theorem run_append (u w : List α) (s : Saved σ) : m.run (u ++ w) s = m.run w (m.run u s) := by
  simp [run, List.foldl_append]

variable {m} {a b : α} {w w' : List α} {s : Saved σ} {d : ℕ}

theorem step_save (h : m.op a = .save) :
    m.step s a = ⟨s.reg, if s.stack.length < m.cap then s.reg :: s.stack else s.stack⟩ := by
  rw [step, h]

theorem step_restore (h : m.op a = .restore) :
    m.step s a = ⟨s.stack.headD s.reg, s.stack.tail⟩ := by
  rw [step, h]

theorem step_plain (h : m.op a = .plain) : m.step s a = ⟨m.act a s.reg, s.stack⟩ := by
  rw [step, h]

theorem closes_cons_save (h : m.op a = .save) : m.closes d (a :: w) = m.closes (d + 1) w := by
  rw [closes, h]

theorem closes_cons_plain (h : m.op a = .plain) : m.closes d (a :: w) = m.closes d w := by
  rw [closes, h]

theorem closes_cons_restore (h : m.op a = .restore) :
    m.closes d (a :: w) = (decide (0 < d) && m.closes (d - 1) w) := by
  rw [closes, h]

theorem nesting_cons_save (h : m.op a = .save) : m.nesting (a :: w) = m.nesting w + 1 := by
  rw [nesting, h]

theorem nesting_cons_plain (h : m.op a = .plain) : m.nesting (a :: w) = m.nesting w := by
  rw [nesting, h]

theorem nesting_cons_restore (h : m.op a = .restore) : m.nesting (a :: w) = m.nesting w - 1 := by
  rw [nesting, h]

/-! ### Words by their brackets -/

theorem brackets_cons_plain (h : m.op a = .plain) : m.brackets (a :: w) = m.brackets w := by
  simp [brackets, h]

theorem brackets_cons_of_ne (h : m.op a ≠ .plain) :
    m.brackets (a :: w) = m.op a :: m.brackets w := by
  simp [brackets, h]

theorem brackets_append (u w : List α) : m.brackets (u ++ w) = m.brackets u ++ m.brackets w := by
  simp [brackets]

/-- The machine that reads brackets alone. -/
def bare (cap : ℕ) : SaveStack SaveOp Unit := ⟨cap, id, fun _ _ => ()⟩

/-- Which brackets a word closes is a matter of its brackets. -/
theorem closes_eq_bare (d : ℕ) (w : List α) :
    m.closes d w = (bare m.cap).closes d (m.brackets w) := by
  induction w generalizing d with
  | nil => rfl
  | cons a w ih =>
    cases ha : m.op a with
    | plain => rw [brackets_cons_plain ha, closes_cons_plain ha, ih]
    | save =>
      rw [brackets_cons_of_ne (by rw [ha]; decide), ha, closes_cons_save ha, ih]
      exact (closes_cons_save rfl).symm
    | restore =>
      rw [brackets_cons_of_ne (by rw [ha]; decide), ha, closes_cons_restore ha, ih]
      exact (closes_cons_restore rfl).symm

/-- How deep a word nests is a matter of its brackets. -/
theorem nesting_eq_bare (w : List α) : m.nesting w = (bare m.cap).nesting (m.brackets w) := by
  induction w with
  | nil => rfl
  | cons a w ih =>
    cases ha : m.op a with
    | plain => rw [brackets_cons_plain ha, nesting_cons_plain ha, ih]
    | save =>
      rw [brackets_cons_of_ne (by rw [ha]; decide), ha, nesting_cons_save ha, ih]
      exact (nesting_cons_save rfl).symm
    | restore =>
      rw [brackets_cons_of_ne (by rw [ha]; decide), ha, nesting_cons_restore ha, ih]
      exact (nesting_cons_restore rfl).symm

theorem closes_of_brackets_eq (h : m.brackets w' = m.brackets w) (hw : m.closes d w) :
    m.closes d w' := by
  rw [closes_eq_bare, h, ← closes_eq_bare]
  exact hw

theorem nesting_of_brackets_eq (h : m.brackets w' = m.brackets w) : m.nesting w' = m.nesting w := by
  rw [nesting_eq_bare, h, ← nesting_eq_bare]

/-! ### The stack -/

/-- One letter keeps the stack within its bound. -/
theorem length_stack_step (h : s.stack.length ≤ m.cap) (a : α) :
    (m.step s a).stack.length ≤ m.cap := by
  unfold step
  cases m.op a with
  | save =>
    simp only
    split
    · next hlt => exact hlt
    · exact h
  | restore =>
    simp only [List.length_tail]
    omega
  | plain => exact h

theorem length_stack_run (h : s.stack.length ≤ m.cap) (w : List α) :
    (m.run w s).stack.length ≤ m.cap := by
  induction w generalizing s with
  | nil => exact h
  | cons a w ih => exact ih (length_stack_step h a)

/-- **What a word that closes `d` brackets leaves of the stack**: `d` entries are gone, and
one more for every save that found it full. -/
theorem stack_run_of_closes (hw : m.closes d w) (hs : s.stack.length ≤ m.cap) :
    (m.run w s).stack = s.stack.drop (d + (s.stack.length + m.nesting w - m.cap)) := by
  induction w generalizing d s with
  | nil =>
    have hd : d = 0 := beq_iff_eq.mp hw
    have hover : s.stack.length + m.nesting [] - m.cap = 0 := Nat.sub_eq_zero_of_le hs
    rw [hd, hover, run_nil, List.drop_zero]
  | cons a w ih =>
    have hstep := length_stack_step hs a
    rw [run_cons]
    cases ha : m.op a with
    | plain =>
      rw [closes_cons_plain ha] at hw
      rw [ih hw hstep, step_plain ha, nesting_cons_plain ha]
    | save =>
      rw [closes_cons_save ha] at hw
      rw [ih hw hstep, step_save ha, nesting_cons_save ha]
      simp only
      split
      · -- saved: the bracket's own entry goes with it
        rw [List.length_cons, Nat.add_right_comm, List.drop_succ_cons]
        congr 2
        omega
      · -- dropped: the bracket takes an entry that is not its own
        congr 1
        omega
    | restore =>
      rw [closes_cons_restore ha, Bool.and_eq_true, decide_eq_true_iff] at hw
      rw [ih hw.2 hstep, step_restore ha, nesting_cons_restore ha]
      simp only [List.drop_tail, List.length_tail]
      rcases Nat.eq_zero_or_pos s.stack.length with h0 | hpos
      · -- there is nothing to take
        rw [List.length_eq_zero_iff.mp h0, List.drop_nil, List.drop_nil]
      · congr 1
        omega

/-! ### A bracket -/

/-- What a balanced word leaves of the stack behind the save in front of it: its last
entries, fewer by the deepest nesting than there is room for. -/
theorem stack_run_cons_of_save (ha : m.op a = .save) (hw : m.closes 0 w)
    (hs : s.stack.length ≤ m.cap) :
    (m.run (a :: w) s).stack =
      (s.reg :: s.stack).drop (s.stack.length + 1 + m.nesting w - m.cap) := by
  rw [run_cons, stack_run_of_closes hw (length_stack_step hs a), step_save ha, Nat.zero_add]
  simp only
  split
  · rw [List.length_cons]
  · -- the save is dropped: the stack was full
    have hfull : s.stack.length = m.cap := by omega
    have hone : m.cap + 1 + m.nesting w - m.cap = m.cap + m.nesting w - m.cap + 1 := by omega
    rw [hfull, hone, List.drop_succ_cons]

/-- **A bracket around fewer than `cap` nested ones** restores the entry at that many places
below the top of a full stack, or the register where the stack does not reach that far. -/
theorem reg_bracket_of_lt (ha : m.op a = .save) (hb : m.op b = .restore) (hw : m.closes 0 w)
    (hs : s.stack.length ≤ m.cap) (hn : m.nesting w < m.cap) :
    (m.run (a :: w ++ [b]) s).reg =
      (s.stack.reverse[m.cap - 1 - m.nesting w]?).getD s.reg := by
  rw [run_append, run_cons, run_nil, step_restore hb, stack_run_cons_of_save ha hw hs]
  by_cases hfit : s.stack.length + m.nesting w < m.cap
  · -- every save is kept
    rw [Nat.sub_eq_zero_of_le (by omega), List.drop_zero, List.headD_cons,
      List.getElem?_eq_none (by rw [List.length_reverse]; omega), Option.getD_none]
  · have hone : s.stack.length + 1 + m.nesting w - m.cap =
        s.stack.length + m.nesting w - m.cap + 1 := by omega
    have hlt : s.stack.length + m.nesting w - m.cap < s.stack.length := by omega
    have hplace : s.stack.length - 1 - (m.cap - 1 - m.nesting w) =
        s.stack.length + m.nesting w - m.cap := by omega
    rw [hone, List.drop_succ_cons, List.drop_eq_getElem_cons hlt, List.headD_cons,
      List.getElem?_reverse (by omega), hplace, List.getElem?_eq_getElem hlt, Option.getD_some]

/-- **A bracket around `cap` or more nested ones** restores nothing: its restore finds the
stack empty. -/
theorem reg_bracket_of_le (ha : m.op a = .save) (hb : m.op b = .restore) (hw : m.closes 0 w)
    (hs : s.stack.length ≤ m.cap) (hn : m.cap ≤ m.nesting w) :
    (m.run (a :: w ++ [b]) s).reg = (m.run (a :: w) s).reg := by
  rw [run_append, run_cons (w := []), run_nil, step_restore hb]
  have hempty : (m.run (a :: w) s).stack = [] := by
    rw [stack_run_cons_of_save ha hw hs]
    apply List.drop_eq_nil_of_le
    rw [List.length_cons]
    omega
  rw [hempty, List.headD_nil]

end SaveStack

end Lib
