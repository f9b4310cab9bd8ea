import BleHidHost.Lib.Callback

/-!
# Runs with a chronicle

A chronicler sees every step of a run: the events, what an action of a callback does to the
output state, and the runs of the handler.  The chronicle acts on nothing, so every run has
one.

What the output state and the chronicle have to do with each other is followed by an outline
of the callback: an assertion for each point between two of its actions, which the handler
keeps whenever it runs at that point.

## Main definitions

* `Chronicler` — what is written at a step.
* `Machine.ChronicledUnder` — the runs under a policy, with their chronicles.
* `Prog.Stands` — an assertion implies what is claimed everywhere, and is kept by the handler.
* `Prog.Outlined` — a callback has an outline.

## Main results

* `Machine.reachedUnder_iff_chronicledUnder` — every run has a chronicle.
* `Prog.outlined_bind` — the rule for sequencing.
* `Prog.Keeps.outlined` — a relation that every action keeps is an outline.
* `Machine.outlined_invariant` — **an assertion holds between any two callbacks, and what is
  claimed everywhere holds in every state.**
-/

namespace Lib

variable {μ ι κ ρ ε Λ α β : Type}

/-- What is written at an event, at an action that takes the one output state to the other,
and at a run of the handler. -/
structure Chronicler (μ ι ε Λ : Type) where
  onEvent : μ → ε → Λ → Λ
  onAct : ι → ι → Λ → Λ
  onWork : μ → ι → Λ → Λ

/-- Nothing is written. -/
def Chronicler.silent : Chronicler μ ι ε Unit := ⟨fun _ _ l => l, fun _ _ l => l, fun _ _ l => l⟩

/-- What is written at a step. -/
def Chronicler.write (W : Chronicler μ ι ε Λ) (s : Configuration μ ι κ ρ) (l : Λ) :
    Action ρ ε → Λ
  | .event e => W.onEvent s.main e l
  | .tick =>
    match s.running with
    | .act _ g _ => W.onAct s.io (g s.main s.io) l
    | _ => l
  | .answer _ => l
  | .work => W.onWork s.main s.io l

namespace Machine

variable (M : Machine μ ι κ ρ ε)

/-- One step, and what is written at it. -/
def chronicledStep (W : Chronicler μ ι ε Λ) (s : Configuration μ ι κ ρ × Λ) (a : Action ρ ε) :
    Option (Configuration μ ι κ ρ × Λ) :=
  (M.step s.1 a).map fun t => (t, W.write s.1 s.2 a)

/-- A run from `s₀` whose steps meet the policy reaches the state, and this is its
chronicle. -/
def ChronicledUnder (P : Policy μ ι κ ρ ε) (W : Chronicler μ ι ε Λ) (s₀ : Configuration μ ι κ ρ)
    (l₀ : Λ) (s : Configuration μ ι κ ρ) (l : Λ) : Prop :=
  Reaches (M.chronicledStep W) (fun s a => meets P s.1 a) (s₀, l₀) (s, l)

variable {M} {P : Policy μ ι κ ρ ε} {s₀ s : Configuration μ ι κ ρ}

/-- **Every run has a chronicle**, and acts as it would without. -/
theorem reachedUnder_iff_chronicledUnder (W : Chronicler μ ι ε Λ) (l₀ : Λ) :
    M.ReachedUnder P s₀ s ↔ ∃ l, M.ChronicledUnder P W s₀ l₀ s l := by
  constructor
  · intro h
    induction h with
    | refl => exact ⟨l₀, Reaches.refl⟩
    | @tail s s' a _ hok hstep ih =>
      obtain ⟨l, hl⟩ := ih
      exact ⟨W.write s l a, Reaches.tail hl hok (Option.map_eq_some_iff.mpr ⟨s', hstep, rfl⟩)⟩
  · rintro ⟨l, h⟩
    refine Reaches.invariant h (I := fun t => M.ReachedUnder P s₀ t.1) ?_ ?_
    · exact Reaches.refl
    · intro t a t' ht hok hstep
      obtain ⟨u, hu, rfl⟩ := Option.map_eq_some_iff.mp hstep
      exact Reaches.tail ht hok hu

end Machine

namespace Prog

section Rules

variable (M : Machine μ ι κ ρ ε) (P : Policy μ ι κ ρ ε) (W : Chronicler μ ι ε Λ)
  (G : Λ → ι → Prop)

/-- The assertion implies what is claimed everywhere, and the handler keeps it where the main
state is `m`. -/
structure Stands (m : μ) (A : Λ → ι → Prop) : Prop where
  claims : ∀ l io, A l io → G l io
  work : ∀ l io, A l io → A (W.onWork m io l) (M.work m io)

/-- From main state `m` and the assertion `A` on, the program has an outline: an assertion
that stands behind each of its actions.  It returns in a state and with an assertion that `K`
holds of, whatever answers it is given. -/
def Outlined : Prog μ ι κ ρ α → (α → μ → (Λ → ι → Prop) → Prop) → μ → (Λ → ι → Prop) → Prop
  | .ret a, K, m, A => K a m A
  | .act f g k, K, m, A => ∃ B, (∀ l io, A l io → B (W.onAct io (g m io) l) (g m io)) ∧
      Stands M W G (f m) B ∧ (k (f m)).Outlined K (f m) B
  | .call c k, K, m, A => ∀ r m', P.onAnswer m c r → M.answer c r m = some m' →
      Stands M W G m' A ∧ (k r).Outlined K m' A

variable {M P W G} {K : β → μ → (Λ → ι → Prop) → Prop} {m : μ} {A : Λ → ι → Prop}

/-- **The rule for sequencing.** -/
@[simp] theorem outlined_bind (p : Prog μ ι κ ρ α) (q : α → Prog μ ι κ ρ β) :
    (p >>= q).Outlined M P W G K m A ↔
      p.Outlined M P W G (fun a m A => (q a).Outlined M P W G K m A) m A := by
  show (p.bind q).Outlined M P W G K m A ↔ _
  induction p generalizing m A with
  | ret a => rfl
  | act f g k ih =>
    apply exists_congr
    intro B
    exact and_congr_right fun _ => and_congr_right fun _ => ih (f m)
  | call c k ih =>
    apply forall_congr'
    intro r
    apply forall_congr'
    intro m'
    exact imp_congr_right fun _ => imp_congr_right fun _ => and_congr_right fun _ => ih r

/-- The rule for an action. -/
theorem outlined_emit {K : Unit → μ → (Λ → ι → Prop) → Prop} {f : μ → μ} {g : μ → ι → ι}
    (B : Λ → ι → Prop) (hact : ∀ l io, A l io → B (W.onAct io (g m io) l) (g m io))
    (hB : Stands M W G (f m) B) (hK : K () (f m) B) :
    (emit f g : Prog μ ι κ ρ Unit).Outlined M P W G K m A :=
  ⟨B, hact, hB, hK⟩

/-- The rules for an action that is seen as none. -/
theorem outlined_look {K : μ → μ → (Λ → ι → Prop) → Prop}
    (hact : ∀ l io, A l io → A (W.onAct io io l) io) (hA : Stands M W G m A) (hK : K m m A) :
    (look : Prog μ ι κ ρ μ).Outlined M P W G K m A :=
  ⟨A, hact, hA, hK⟩

theorem outlined_assign {K : Unit → μ → (Λ → ι → Prop) → Prop} {f : μ → μ}
    (hact : ∀ l io, A l io → A (W.onAct io io l) io) (hA : Stands M W G (f m) A)
    (hK : K () (f m) A) : (assign f : Prog μ ι κ ρ Unit).Outlined M P W G K m A :=
  ⟨A, hact, hA, hK⟩

/-- **What every action keeps is an outline**: `E` relates the output states before and behind
each of them, and the assertion stands wherever the handler runs. -/
theorem Keeps.outlined {p : Prog μ ι κ ρ α} {E : ι → ι → Prop} (hrefl : ∀ io, E io io)
    (hp : ∀ c, p.Keeps M P fun _ io => E c io)
    (hact : ∀ l io io', A l io → E io io' → A (W.onAct io io' l) io')
    (hA : ∀ m, Stands M W G m A) {K : α → μ → (Λ → ι → Prop) → Prop} (hK : ∀ a m, K a m A) :
    p.Outlined M P W G K m A := by
  induction p generalizing m with
  | ret a => exact hK a m
  | act f g k ih =>
    refine ⟨A, fun l io hl => hact l io _ hl ((hp io).1 m io (hrefl io)), hA (f m), ?_⟩
    exact ih (f m) fun c => (hp c).2 (f m)
  | call c k ih => exact fun r m' _ _ => ⟨hA m', ih r fun c => (hp c).2 r⟩

end Rules

end Prog

namespace Machine

variable {M : Machine μ ι κ ρ ε} {P : Policy μ ι κ ρ ε} {W : Chronicler μ ι ε Λ}
  {G A : Λ → ι → Prop} {s₀ s : Configuration μ ι κ ρ} {l₀ l : Λ}

/-- The callback that runs has an outline, to the assertion between two callbacks. -/
def OutlinedTo (M : Machine μ ι κ ρ ε) (P : Policy μ ι κ ρ ε) (W : Chronicler μ ι ε Λ)
    (G A : Λ → ι → Prop) (p : Prog μ ι κ ρ Unit) (m : μ) (l : Λ) (io : ι) : Prop :=
  ∃ B, B l io ∧ Prog.Stands M W G m B ∧
    p.Outlined M P W G (fun _ _ B => ∀ l io, B l io → A l io) m B

/-- What every action keeps is an outline from the assertion back to it. -/
theorem outlinedTo_of_keeps {p : Prog μ ι κ ρ Unit} {m : μ} {io : ι} {E : ι → ι → Prop}
    (hrefl : ∀ io, E io io) (hp : ∀ c, p.Keeps M P fun _ io => E c io)
    (hact : ∀ l io io', A l io → E io io' → A (W.onAct io io' l) io')
    (hA : ∀ m, Prog.Stands M W G m A) (h : A l io) : OutlinedTo M P W G A p m l io :=
  ⟨A, h, hA m, Prog.Keeps.outlined hrefl hp hact hA fun _ _ _ _ h => h⟩

/-- **An assertion holds between any two callbacks, and what is claimed everywhere holds in
every state**: each callback has an outline, from what the event that enters it makes of the
assertion back to the assertion. -/
theorem outlined_invariant
    (hinit : OutlinedTo M P W G A s₀.running s₀.main l₀ s₀.io)
    (henter : ∀ e m io m' io' p l, A l io → P.onEvent m e → M.enter e m io = some (m', io', p) →
      OutlinedTo M P W G A p m' (W.onEvent m e l) io')
    (h : M.ChronicledUnder P W s₀ l₀ s l) : G l s.io ∧ (s.Idle → A l s.io) := by
  have hinv := Reaches.invariant h
    (I := fun t => OutlinedTo M P W G A t.1.running t.1.main t.2 t.1.io) hinit ?_
  · obtain ⟨B, hB, hstands, hrest⟩ := hinv
    refine ⟨hstands.claims l s.io hB, fun hidle => ?_⟩
    simp only at hrest
    rw [hidle] at hrest
    exact hrest l s.io hB
  intro t a t' ht hok hstep
  obtain ⟨u, hu, rfl⟩ := Option.map_eq_some_iff.mp hstep
  obtain ⟨⟨m, io, p⟩, l⟩ := t
  obtain ⟨B, hB, hstands, hrest⟩ := ht
  cases a with
  | work =>
    cases hu
    exact ⟨B, hstands.work l io hB, hstands, hrest⟩
  | tick =>
    cases p with
    | act f g k =>
      cases hu
      obtain ⟨C, hact, hstands', hrest'⟩ := hrest
      exact ⟨C, hact l io hB, hstands', hrest'⟩
    | ret => cases hu
    | call => cases hu
  | answer r =>
    cases p with
    | call c k =>
      obtain ⟨m', hm, rfl⟩ := Option.map_eq_some_iff.mp hu
      obtain ⟨hstands', hrest'⟩ := hrest r m' hok hm
      exact ⟨B, hB, hstands', hrest'⟩
    | ret => cases hu
    | act => cases hu
  | event e =>
    cases p with
    | ret v =>
      obtain ⟨⟨m', io', p'⟩, hm, rfl⟩ := Option.map_eq_some_iff.mp hu
      exact henter e m io m' io' p' l (hrest l io hB) hok hm
    | act => cases hu
    | call => cases hu

end Machine

end Lib
