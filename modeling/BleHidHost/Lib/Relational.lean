import BleHidHost.Lib.Callback

/-!
# Two runs side by side

What a callback does from two different main states is compared action by action.
The two sides agree where they treat the output state alike, make the same calls and
come to the same results, whatever answers both are given, and where the handler finds
no difference between the main states in between.

A relation that every callback restores is then a bisimulation: a list of actions can
be replayed from the one state exactly when it can be from the other, and with the
same output.

## Main definitions

* `Machine.SameWork` — the handler does not tell two main states apart.
* `Prog.Agree` — two callbacks do the same from two main states.
* `Machine.Alike` — two configurations from which the same happens.

## Main results

* `Prog.agree_bind` — the rule for sequencing.
* `Machine.alike_run` — **from alike configurations the same runs are possible, and
  they end alike.**
-/

namespace Lib

variable {μ ι κ ρ ε α β : Type}

/-- The handler does not tell these main states apart. -/
def Machine.SameWork (M : Machine μ ι κ ρ ε) (m n : μ) : Prop := ∀ io, M.work m io = M.work n io

namespace Prog

variable (M : Machine μ ι κ ρ ε) (P : Policy μ ι κ ρ ε)

/-- From the two main states the two programs do the same, action by action and call by
call, and return the same result in main states related by `Q`. -/
inductive Agree (Q : α → μ → μ → Prop) : Prog μ ι κ ρ α → Prog μ ι κ ρ α → μ → μ → Prop
  | ret {a : α} {m n : μ} (h : Q a m n) : Agree Q (.ret a) (.ret a) m n
  | act {f f' : μ → μ} {g g' : μ → ι → ι} {k k' : μ → Prog μ ι κ ρ α} {m n : μ}
    (hio : ∀ io, g m io = g' n io) (hwork : M.SameWork (f m) (f' n))
    (h : Agree Q (k (f m)) (k' (f' n)) (f m) (f' n)) : Agree Q (.act f g k) (.act f' g' k') m n
  | call {c : κ} {k k' : ρ → Prog μ ι κ ρ α} {m n : μ}
    (hanswer : ∀ r, P.onAnswer m c r → Option.Rel M.SameWork (M.answer c r m) (M.answer c r n))
    (h : ∀ r m' n', P.onAnswer m c r → M.answer c r m = some m' → M.answer c r n = some n' →
      Agree Q (k r) (k' r) m' n') : Agree Q (.call c k) (.call c k') m n

variable {M P} {m n : μ}

/-- **The rule for sequencing.** -/
theorem agree_bind {p p' : Prog μ ι κ ρ α} {q q' : α → Prog μ ι κ ρ β} {Q : β → μ → μ → Prop}
    (h : Agree M P (fun a m n => Agree M P Q (q a) (q' a) m n) p p' m n) :
    Agree M P Q (p >>= q) (p' >>= q') m n := by
  show Agree M P Q (p.bind q) (p'.bind q') m n
  induction h with
  | ret h => exact h
  | act hio hwork _ ih => exact .act hio hwork ih
  | call hanswer _ ih => exact .call hanswer ih

/-- The rule for reading the main state: what follows may depend on it. -/
theorem agree_look {q q' : μ → Prog μ ι κ ρ α} {Q : α → μ → μ → Prop} (hwork : M.SameWork m n)
    (h : Agree M P Q (q m) (q' n) m n) : Agree M P Q (look >>= q) (look >>= q') m n :=
  .act (fun _ => rfl) hwork h

theorem agree_emit {f f' : μ → μ} {g g' : μ → ι → ι} {Q : Unit → μ → μ → Prop}
    (hio : ∀ io, g m io = g' n io) (hwork : M.SameWork (f m) (f' n)) (h : Q () (f m) (f' n)) :
    Agree M P Q (emit f g) (emit f' g') m n :=
  .act hio hwork (.ret h)

theorem agree_assign {f f' : μ → μ} {Q : Unit → μ → μ → Prop} (hwork : M.SameWork (f m) (f' n))
    (h : Q () (f m) (f' n)) : Agree M P Q (assign f) (assign f') m n :=
  agree_emit (fun _ => rfl) hwork h

theorem agree_ask {c : κ} {Q : ρ → μ → μ → Prop}
    (hanswer : ∀ r, P.onAnswer m c r → Option.Rel M.SameWork (M.answer c r m) (M.answer c r n))
    (h : ∀ r m' n', P.onAnswer m c r → M.answer c r m = some m' → M.answer c r n = some n' →
      Q r m' n') : Agree M P Q (ask c) (ask c) m n :=
  .call hanswer fun r m' n' hr hm hn => .ret (h r m' n' hr hm hn)

/-- The rule for a case distinction that comes out alike. -/
theorem agree_ite {c c' : Prop} [Decidable c] [Decidable c'] {p p' q q' : Prog μ ι κ ρ α}
    {Q : α → μ → μ → Prop} (hc : c ↔ c') (hp : c → Agree M P Q p p' m n)
    (hq : ¬ c → Agree M P Q q q' m n) :
    Agree M P Q (if c then p else q) (if c' then p' else q') m n := by
  by_cases h : c
  · rw [if_pos h, if_pos (hc.mp h)]
    exact hp h
  · rw [if_neg h, if_neg (mt hc.mpr h)]
    exact hq h

/-- A weaker postcondition. -/
theorem Agree.mono {p p' : Prog μ ι κ ρ α} {Q Q' : α → μ → μ → Prop} (h : Agree M P Q p p' m n)
    (hQ : ∀ a m n, Q a m n → Q' a m n) : Agree M P Q' p p' m n := by
  induction h with
  | ret h => exact .ret (hQ _ _ _ h)
  | act hio hwork _ ih => exact .act hio hwork ih
  | call hanswer _ ih => exact .call hanswer ih

/-- What is known of the one program holds beside what is known of both. -/
theorem Agree.and_safe {p p' : Prog μ ι κ ρ α} {J : μ → ι → Prop} {Q : α → μ → μ → Prop}
    {Q' : α → μ → Prop} (h : Agree M P Q p p' m n) (hsafe : p.Safe M P J Q' m) :
    Agree M P (fun a m n => Q a m n ∧ Q' a m) p p' m n := by
  induction h with
  | ret h => exact .ret ⟨h, hsafe⟩
  | act hio hwork _ ih => exact .act hio hwork (ih hsafe.2)
  | call hanswer _ ih =>
    refine .call hanswer ?_
    intro r m' n' hr hm hn
    exact ih r m' n' hr hm hn (hsafe r m' hr hm).2

end Prog

namespace Machine

variable (M : Machine μ ι κ ρ ε) (P : Policy μ ι κ ρ ε) (I : μ → μ → Prop)

/-- An event enters callbacks that agree, with the same effect on the output state. -/
def EnterAlike (x y : μ × ι × Prog μ ι κ ρ Unit) : Prop :=
  x.2.1 = y.2.1 ∧ M.SameWork x.1 y.1 ∧ Prog.Agree M P (fun _ => I) x.2.2 y.2.2 x.1 y.1

/-- The same happens from these configurations, and `I` relates the main states between
two callbacks. -/
structure Alike (s t : Configuration μ ι κ ρ) : Prop where
  io_eq : s.io = t.io
  work_eq : M.SameWork s.main t.main
  running : Prog.Agree M P (fun _ => I) s.running t.running s.main t.main

variable {M P I} {s t : Configuration μ ι κ ρ}

/-- **One step** is possible from both configurations or from neither, and keeps them
alike. -/
theorem alike_step
    (henter : ∀ e m n io, I m n → P.onEvent m e →
      Option.Rel (EnterAlike M P I) (M.enter e m io) (M.enter e n io))
    (h : Alike M P I s t) {a : Action ρ ε} (hok : meets P s a) :
    Option.Rel (Alike M P I) (M.step s a) (M.step t a) := by
  obtain ⟨m, io, p⟩ := s
  obtain ⟨n, io', q⟩ := t
  obtain ⟨rfl, hwork, hrunning⟩ := h
  cases a with
  | work => exact .some ⟨hwork io, hwork, hrunning⟩
  | tick =>
    cases hrunning with
    | ret => exact .none
    | act hio hwork' h => exact .some ⟨hio io, hwork', h⟩
    | call => exact .none
  | answer r =>
    cases hrunning with
    | ret => exact .none
    | act => exact .none
    | @call c k k' _ _ hanswer h =>
      have hrel := hanswer r hok
      have hrest := fun m' n' => h r m' n' hok
      simp only [step]
      generalize M.answer c r m = x at hrel hrest ⊢
      generalize M.answer c r n = y at hrel hrest ⊢
      cases hrel with
      | none => exact .none
      | some hwork' => exact .some ⟨rfl, hwork', hrest _ _ rfl rfl⟩
  | event e =>
    cases hrunning with
    | ret h =>
      have hrel := henter e m n io h hok
      simp only [step]
      generalize M.enter e m io = x at hrel ⊢
      generalize M.enter e n io = y at hrel ⊢
      cases hrel with
      | none => exact .none
      | some hentered => exact .some ⟨hentered.1, hentered.2.1, hentered.2.2⟩
    | act => exact .none
    | call => exact .none

/-- **From alike configurations the same runs are possible**, and they end alike. -/
theorem alike_run
    (henter : ∀ e m n io, I m n → P.onEvent m e →
      Option.Rel (EnterAlike M P I) (M.enter e m io) (M.enter e n io))
    (h : Alike M P I s t) {as : List (Action ρ ε)}
    (hok : Along M.step (fun s a => meets P s a) as s) :
    Option.Rel (Alike M P I) (run M.step as s) (run M.step as t) := by
  induction as generalizing s t with
  | nil => exact .some h
  | cons a as ih =>
    have hstep := alike_step henter h hok.1
    have hrest := hok.2
    rw [run, run]
    generalize M.step s a = x at hstep hrest ⊢
    generalize M.step t a = y at hstep ⊢
    cases hstep with
    | none => exact .none
    | some halike => exact ih halike (hrest _ rfl)

end Machine

end Lib
