/-!
# Runs of a guarded step function

A system is a step function that answers `none` where an action is not enabled.
The same function replays a list of actions and generates the reachable states.

## Main definitions

* `run` — replay a list of actions.
* `Reaches` — the states reached by steps that all meet a condition.
* `Along` — every step of a replay meets a condition.
* `Throughout` — every item of a history is related to what came before it.

## Main results

* `Reaches.invariant` — **what every admissible step preserves holds in every
  state reached.**
-/

namespace Lib

/-! ### Histories -/

section Histories

variable {α : Type} {R : List α → α → Prop}

/-- Every item of a history is related to what came before it. -/
def Throughout (R : List α → α → Prop) (t : List α) : Prop :=
  ∀ pre a post, t = pre ++ a :: post → R pre a

theorem throughout_nil : Throughout R [] := fun pre _ _ h => by
  cases pre <;> cases h

theorem throughout_concat {t : List α} {a : α} (ht : Throughout R t) (ha : R t a) :
    Throughout R (t ++ [a]) := by
  intro pre b post heq
  rcases List.eq_nil_or_concat post with rfl | ⟨post', c, rfl⟩
  · obtain ⟨rfl, hab⟩ := List.append_inj' heq rfl
    cases hab
    exact ha
  · rw [List.concat_eq_append, ← List.cons_append, ← List.append_assoc] at heq
    exact ht pre b post' (List.append_inj' heq rfl).1

end Histories

/-! ### Runs -/

variable {σ α : Type} (step : σ → α → Option σ)

/-- Replay a list of actions; `none` when one of them is not enabled. -/
def run : List α → σ → Option σ
  | [], s => some s
  | a :: as, s => (step s a).bind (run as)

/-- The states reached from `s₀` by steps that meet the condition `ok`. -/
inductive Reaches (ok : σ → α → Prop) (s₀ : σ) : σ → Prop
  | refl : Reaches ok s₀ s₀
  | tail {s s' : σ} {a : α} : Reaches ok s₀ s → ok s a → step s a = some s' → Reaches ok s₀ s'

/-- Every step of the replay meets the condition `ok`. -/
def Along (ok : σ → α → Prop) : List α → σ → Prop
  | [], _ => True
  | a :: as, s => ok s a ∧ ∀ s', step s a = some s' → Along ok as s'

variable {step}

instance decidableAlong {ok : σ → α → Prop} [∀ s a, Decidable (ok s a)] :
    ∀ as s, Decidable (Along step ok as s)
  | [], _ => isTrue trivial
  | a :: as, s =>
    match h : step s a with
    | none => decidable_of_iff (ok s a) (by simp [Along, h])
    | some t =>
      have : Decidable (Along step ok as t) := decidableAlong as t
      decidable_of_iff (ok s a ∧ Along step ok as t) (by simp [Along, h])

@[simp] theorem run_nil (s : σ) : run step [] s = some s := rfl

theorem run_cons_eq_some {a : α} {as : List α} {s s' : σ} :
    run step (a :: as) s = some s' ↔ ∃ t, step s a = some t ∧ run step as t = some s' := by
  rw [run, Option.bind_eq_some_iff]

/-- A replay of two lists is a replay of the one and then of the other. -/
theorem run_append (as bs : List α) (s : σ) :
    run step (as ++ bs) s = (run step as s).bind (run step bs) := by
  induction as generalizing s with
  | nil => rfl
  | cons a as ih =>
    rw [List.cons_append, run, run]
    cases step s a with
    | none => rfl
    | some t => exact ih t

/-- **What every admissible step preserves holds in every state reached.** -/
theorem Reaches.invariant {ok : σ → α → Prop} {s₀ s : σ} {I : σ → Prop}
    (h : Reaches step ok s₀ s) (hinit : I s₀)
    (hstep : ∀ s a s', I s → ok s a → step s a = some s' → I s') : I s := by
  induction h with
  | refl => exact hinit
  | tail _ hok hs ih => exact hstep _ _ _ ih hok hs

/-- A condition that every step meets. -/
theorem Along.of_forall {ok : σ → α → Prop} (h : ∀ s a, ok s a) (as : List α) (s : σ) :
    Along step ok as s := by
  induction as generalizing s with
  | nil => trivial
  | cons a as ih => exact ⟨h s a, fun s' _ => ih s'⟩

/-- A run goes on from where another has come to. -/
theorem Reaches.trans {ok : σ → α → Prop} {s₀ s s' : σ} (h : Reaches step ok s₀ s)
    (h' : Reaches step ok s s') : Reaches step ok s₀ s' := by
  induction h' with
  | refl => exact h
  | tail _ hok hs ih => exact ih.tail hok hs

/-- A replay whose steps meet the condition ends in a state reached. -/
theorem Reaches.of_run {ok : σ → α → Prop} {s₀ s s' : σ} {as : List α} (h : Reaches step ok s₀ s)
    (hok : Along step ok as s) (hrun : run step as s = some s') : Reaches step ok s₀ s' := by
  induction as generalizing s with
  | nil =>
    cases hrun
    exact h
  | cons a as ih =>
    obtain ⟨t, ht, hrun⟩ := run_cons_eq_some.mp hrun
    exact ih (h.tail hok.1 ht) (hok.2 t ht) hrun

end Lib
