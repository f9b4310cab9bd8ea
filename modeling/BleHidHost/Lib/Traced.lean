import Mathlib.Data.List.Basic

/-!
# Programs that tell their steps

A traced program has a value and the list of the steps it tells on the way.  What it computes
is its value alone; what it does is read off the steps, those of one kind at a time.

## Main definitions

* `Traced` — a value and the steps that lead to it.
* `Traced.tell` — one step.
* `Traced.seen` — the steps of one kind.

## Main results

* `Traced.val_bind`, `Traced.seen_bind` — one program behind another.
* `Traced.val_foldlM`, `Traced.seen_foldlM_range` — **a loop tells the steps of its rounds.**
-/

namespace Lib

/-- A value, and the steps that lead to it. -/
structure Traced (σ α : Type) where
  val : α
  log : List σ

namespace Traced

variable {σ τ α β : Type}

instance : Monad (Traced σ) where
  pure a := ⟨a, []⟩
  bind p f := ⟨(f p.val).val, p.log ++ (f p.val).log⟩

instance : LawfulMonad (Traced σ) :=
  LawfulMonad.mk' _ (fun p => congrArg (Traced.mk p.val) (List.append_nil p.log))
    (fun _ _ => rfl) fun p _ _ => congrArg (Traced.mk _) (List.append_assoc p.log _ _)

/-- One step. -/
def tell (s : σ) : Traced σ Unit := ⟨(), [s]⟩

/-- The steps of one kind. -/
def seen (g : σ → Option τ) (p : Traced σ α) : List τ := p.log.filterMap g

variable {g : σ → Option τ}

@[simp] theorem val_pure (a : α) : (pure a : Traced σ α).val = a := rfl

@[simp] theorem val_bind (p : Traced σ α) (f : α → Traced σ β) :
    (p >>= f).val = (f p.val).val := rfl

@[simp] theorem val_ite (c : Prop) [Decidable c] (p q : Traced σ α) :
    (if c then p else q).val = if c then p.val else q.val :=
  apply_ite val c p q

@[simp] theorem seen_pure (a : α) : (pure a : Traced σ α).seen g = [] := rfl

@[simp] theorem seen_bind (p : Traced σ α) (f : α → Traced σ β) :
    (p >>= f).seen g = p.seen g ++ (f p.val).seen g := List.filterMap_append

@[simp] theorem seen_ite (c : Prop) [Decidable c] (p q : Traced σ α) :
    (if c then p else q).seen g = if c then p.seen g else q.seen g :=
  apply_ite (seen g) c p q

/-- **A loop computes what its rounds compute.** -/
@[simp] theorem val_foldlM (f : β → α → Traced σ β) (as : List α) (b : β) :
    (as.foldlM f b).val = as.foldl (fun b a => (f b a).val) b := by
  induction as generalizing b with
  | nil => rfl
  | cons a as ih => exact ih (f b a).val

/-- **A counted loop tells the steps of its rounds**, each begun where those before it end. -/
theorem seen_foldlM_range (f : β → ℕ → Traced σ β) (b : β) (n : ℕ) :
    ((List.range n).foldlM f b).seen g = (List.range n).flatMap fun k =>
      (f ((List.range k).foldl (fun b a => (f b a).val) b) k).seen g := by
  induction n with
  | zero => rfl
  | succ n ih =>
    rw [List.range_succ, List.foldlM_append, seen_bind, ih, List.flatMap_append, val_foldlM]
    simp

/-- What is passed over contributes nothing. -/
theorem flatMap_filter (p : α → Bool) (f : α → List β) (as : List α) :
    (as.filter p).flatMap f = as.flatMap fun a => if p a then f a else [] := by
  induction as with
  | nil => rfl
  | cons a as ih =>
    rw [List.flatMap_cons, ← ih, List.filter_cons]
    by_cases h : p a <;> simp [h]

end Traced

end Lib
