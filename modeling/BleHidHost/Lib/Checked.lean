import Mathlib.Data.Nat.Notation

/-!
# Checked accesses

Programs in which every array access and every shift is checked: an access that would leave
its array, or a shift by the width of a word or more, ends the program with a fault.  A
program is safe when it yields a result; the rules below derive that from the bounds, one
access and one loop at a time.

## Main definitions

* `readAt`, `Vector.writeAt`, `shiftLeft` — the checked operations.
* `Yields` — a program ends without a fault, in a result of which something holds.

## Main results

* `Yields.bind` — one program behind another.
* `foldlM_range_eq_ok` — a counted loop whose rounds do not fault.
-/

namespace Lib

variable {ε α β : Type} {fault : ε}

/-- Read an entry of an array. -/
def readAt (fault : ε) (a : List α) (i : ℕ) : Except ε α :=
  match a[i]? with
  | some x => .ok x
  | none => .error fault

/-- Write an entry of an array. -/
def writeAt (fault : ε) {n : ℕ} (a : Vector α n) (i : ℕ) (x : α) : Except ε (Vector α n) :=
  if h : i < n then .ok (a.set i x h) else .error fault

/-- Shift a word to the left. -/
def shiftLeft (fault : ε) {w : ℕ} (v : BitVec w) (n : ℕ) : Except ε (BitVec w) :=
  if n < w then .ok (v <<< n) else .error fault

theorem readAt_eq_ok {a : List α} {i : ℕ} {x : α} (h : a[i]? = some x) :
    readAt fault a i = .ok x := by
  rw [readAt, h]

theorem writeAt_eq_ok {n : ℕ} {a : Vector α n} {i : ℕ} (h : i < n) (x : α) :
    writeAt fault a i x = .ok (a.set i x h) := dif_pos h

theorem shiftLeft_eq_ok {w : ℕ} (v : BitVec w) {n : ℕ} (h : n < w) :
    shiftLeft fault v n = .ok (v <<< n) := if_pos h

/-- The part of an array in use, behind a write to its first free entry. -/
theorem take_toList_set {n : ℕ} (a : Vector α n) {i : ℕ} (h : i < n) (x : α) :
    (a.set i x h).toList.take (i + 1) = a.toList.take i ++ [x] := by
  rw [Vector.toList_set, List.take_add_one, List.take_set_of_le (Nat.le_refl i),
    List.getElem?_set_self (by rw [Vector.length_toList]; exact h), Option.toList_some]

/-! ### Programs that end without a fault -/

/-- The program ends without a fault, and `Q` holds of its result. -/
def Yields (p : Except ε α) (Q : α → Prop) : Prop := ∃ x, p = .ok x ∧ Q x

theorem Yields.pure {x : α} {Q : α → Prop} (h : Q x) : Yields (Pure.pure x : Except ε α) Q :=
  ⟨x, rfl, h⟩

/-- **One program behind another.** -/
theorem Yields.bind {p : Except ε α} {f : α → Except ε β} {Q : α → Prop} {R : β → Prop}
    (h : Yields p Q) (hf : ∀ x, Q x → Yields (f x) R) : Yields (p >>= f) R := by
  obtain ⟨x, rfl, hx⟩ := h
  exact hf x hx

theorem ok_bind (x : α) (f : α → Except ε β) : ((.ok x : Except ε α) >>= f) = f x := rfl

/-- **A counted loop** whose rounds do not fault ends in the last round's result. -/
theorem foldlM_range_eq_ok {f : α → ℕ → Except ε α} {g : ℕ → α} {n : ℕ}
    (h : ∀ k < n, f (g k) k = .ok (g (k + 1))) : (List.range n).foldlM f (g 0) = .ok (g n) := by
  induction n with
  | zero => rfl
  | succ n ih =>
    rw [List.range_succ, List.foldlM_append, ih fun k hk => h k (Nat.lt_succ_of_lt hk), ok_bind]
    simp only [List.foldlM_cons, List.foldlM_nil, h n (Nat.lt_succ_self n)]
    rfl

end Lib
