import BleHidHost.Lib.Callback

/-!
# Runs with a log

A scribe writes to a log at every event and at every answer of a run.  The log acts on
nothing: a logged run is a run of the machine beside what was written of it.

`Logged` is the weakest precondition over the main state and the log, with one obligation
at each answer: that what was written keeps a property `J` of logs.  `CanEnd` is its
counterpart for answers that are chosen.

## Main definitions

* `Policy.inter`, `Policy.Stricter` — both conditions; one that implies another.
* `Scribe` — what is written at a step.
* `Machine.LoggedUnder` — the runs under a policy, with their logs.
* `Prog.Logged` — the weakest precondition.
* `Prog.CanEnd` — some answers lead to a postcondition.

## Main results

* `Prog.logged_bind` — the rule for sequencing.
* `Prog.Logged.and_safe` — what is known without a log may be added.
* `Machine.logged_invariant` — **an invariant of state and log holds between any two
  callbacks, and `J` holds of every log.**
* `Machine.reachedUnder_iff_loggedUnder` — every run has a log.
* `Machine.LoggedUnder.exists_of_canEnd` — answers that may be chosen are those of a run.
-/

namespace Lib

variable {μ ι κ ρ ε Λ α β : Type}

/-- Both conditions. -/
def Policy.inter (P P' : Policy μ ι κ ρ ε) : Policy μ ι κ ρ ε where
  onAnswer m c r := P.onAnswer m c r && P'.onAnswer m c r
  onEvent m e := P.onEvent m e && P'.onEvent m e
  onWork m io := P.onWork m io && P'.onWork m io

/-- Every step that meets the first condition meets the second. -/
structure Policy.Stricter (P P' : Policy μ ι κ ρ ε) : Prop where
  onAnswer : ∀ m c r, P.onAnswer m c r → P'.onAnswer m c r
  onEvent : ∀ m e, P.onEvent m e → P'.onEvent m e
  onWork : ∀ m io, P.onWork m io → P'.onWork m io

namespace Policy.Stricter

theorem refl (P : Policy μ ι κ ρ ε) : P.Stricter P :=
  ⟨fun _ _ _ h => h, fun _ _ h => h, fun _ _ h => h⟩

theorem inter_left {P P' Q : Policy μ ι κ ρ ε} (h : P.Stricter Q) : (P.inter P').Stricter Q where
  onAnswer m c r hP := h.onAnswer m c r (Bool.and_eq_true_iff.mp hP).1
  onEvent m e hP := h.onEvent m e (Bool.and_eq_true_iff.mp hP).1
  onWork m io hP := h.onWork m io (Bool.and_eq_true_iff.mp hP).1

theorem inter_right {P P' Q : Policy μ ι κ ρ ε} (h : P'.Stricter Q) : (P.inter P').Stricter Q where
  onAnswer m c r hP := h.onAnswer m c r (Bool.and_eq_true_iff.mp hP).2
  onEvent m e hP := h.onEvent m e (Bool.and_eq_true_iff.mp hP).2
  onWork m io hP := h.onWork m io (Bool.and_eq_true_iff.mp hP).2

end Policy.Stricter

/-- What is written to a log at an answer and at an event. -/
structure Scribe (μ κ ρ ε Λ : Type) where
  onAnswer : μ → κ → ρ → Λ → Λ
  onEvent : μ → ε → Λ → Λ

/-- What is written at a step. -/
def Scribe.write (W : Scribe μ κ ρ ε Λ) (s : Configuration μ ι κ ρ) (l : Λ) : Action ρ ε → Λ
  | .event e => W.onEvent s.main e l
  | .answer r =>
    match s.running with
    | .call c _ => W.onAnswer s.main c r l
    | _ => l
  | _ => l

namespace Prog

section Rules

variable (M : Machine μ ι κ ρ ε) (P : Policy μ ι κ ρ ε) (W : Scribe μ κ ρ ε Λ) (J : Λ → Prop)

/-- From main state `m` and log `l` the program keeps `J` at every answer and returns in a
state and with a log that `Q` holds of. -/
def Logged : Prog μ ι κ ρ α → (α → μ → Λ → Prop) → μ → Λ → Prop
  | .ret a, Q, m, l => Q a m l
  | .act f _ k, Q, m, l => (k (f m)).Logged Q (f m) l
  | .call c k, Q, m, l => ∀ r m', P.onAnswer m c r → M.answer c r m = some m' →
      J (W.onAnswer m c r l) ∧ (k r).Logged Q m' (W.onAnswer m c r l)

variable {M P W J} {Q : β → μ → Λ → Prop} {m : μ} {l : Λ}

@[simp] theorem logged_pure {Q : α → μ → Λ → Prop} (a : α) :
    (Pure.pure a : Prog μ ι κ ρ α).Logged M P W J Q m l ↔ Q a m l := Iff.rfl

/-- **The rule for sequencing.** -/
@[simp] theorem logged_bind (p : Prog μ ι κ ρ α) (q : α → Prog μ ι κ ρ β) :
    (p >>= q).Logged M P W J Q m l ↔
      p.Logged M P W J (fun a m l => (q a).Logged M P W J Q m l) m l := by
  show (p.bind q).Logged M P W J Q m l ↔ _
  induction p generalizing m l with
  | ret a => rfl
  | act f g k ih => exact ih (f m)
  | call c k ih =>
    apply forall_congr'
    intro r
    apply forall_congr'
    intro m'
    exact imp_congr_right fun _ => imp_congr_right fun _ => and_congr_right fun _ => ih r

@[simp] theorem logged_look {Q : μ → μ → Λ → Prop} :
    (look : Prog μ ι κ ρ μ).Logged M P W J Q m l ↔ Q m m l := Iff.rfl

@[simp] theorem logged_assign {Q : Unit → μ → Λ → Prop} (f : μ → μ) :
    (assign f : Prog μ ι κ ρ Unit).Logged M P W J Q m l ↔ Q () (f m) l := Iff.rfl

@[simp] theorem logged_emit {Q : Unit → μ → Λ → Prop} (f : μ → μ) (g : μ → ι → ι) :
    (emit f g : Prog μ ι κ ρ Unit).Logged M P W J Q m l ↔ Q () (f m) l := Iff.rfl

@[simp] theorem logged_ask {Q : ρ → μ → Λ → Prop} (c : κ) :
    (ask c : Prog μ ι κ ρ ρ).Logged M P W J Q m l ↔
      ∀ r m', P.onAnswer m c r → M.answer c r m = some m' →
        J (W.onAnswer m c r l) ∧ Q r m' (W.onAnswer m c r l) := Iff.rfl

/-- The rule for a case distinction. -/
@[simp] theorem logged_ite {Q : α → μ → Λ → Prop} (c : Prop) [Decidable c]
    (p q : Prog μ ι κ ρ α) :
    (if c then p else q).Logged M P W J Q m l ↔
      (c → p.Logged M P W J Q m l) ∧ (¬ c → q.Logged M P W J Q m l) := by
  split
  · next h => exact ⟨fun hp => ⟨fun _ => hp, fun hc => absurd h hc⟩, fun hpq => hpq.1 h⟩
  · next h => exact ⟨fun hq => ⟨fun hc => absurd hc h, fun _ => hq⟩, fun hpq => hpq.2 h⟩

/-- A weaker postcondition. -/
theorem Logged.mono {p : Prog μ ι κ ρ α} {Q Q' : α → μ → Λ → Prop}
    (h : p.Logged M P W J Q m l) (hQ : ∀ a m l, Q a m l → Q' a m l) :
    p.Logged M P W J Q' m l := by
  induction p generalizing m l with
  | ret a => exact hQ a m l h
  | act f g k ih => exact ih (f m) h
  | call c k ih =>
    intro r m' hr hm
    exact ⟨(h r m' hr hm).1, ih r (h r m' hr hm).2⟩

/-- What is known of the program without a log may be added. -/
theorem Logged.and_safe {p : Prog μ ι κ ρ α} {J' : μ → ι → Prop} {Q : α → μ → Λ → Prop}
    {Q' : α → μ → Prop} (h : p.Logged M P W J Q m l) (h' : p.Safe M P J' Q' m) :
    p.Logged M P W J (fun a m l => Q a m l ∧ Q' a m) m l := by
  induction p generalizing m l with
  | ret a => exact ⟨h, h'⟩
  | act f g k ih => exact ih (f m) h h'.2
  | call c k ih =>
    intro r m' hr hm
    exact ⟨(h r m' hr hm).1, ih r (h r m' hr hm).2 (h' r m' hr hm).2⟩

/-- What is known of a program without a log, where nothing is written at answers. -/
theorem Logged.of_safe {p : Prog μ ι κ ρ α} {J' : μ → ι → Prop} {Q : α → μ → Λ → Prop}
    (hW : ∀ m c r l, W.onAnswer m c r l = l) (hJ : J l)
    (h : p.Safe M P J' (fun a m => Q a m l) m) : p.Logged M P W J Q m l := by
  induction p generalizing m with
  | ret a => exact h
  | act f g k ih => exact ih (f m) h.2
  | call c k ih =>
    intro r m' hr hm
    rw [hW m c r l]
    exact ⟨hJ, ih r (h r m' hr hm).2⟩

end Rules

/-! ### Answers that are chosen -/

section Chosen

variable (M : Machine μ ι κ ρ ε) (P : Policy μ ι κ ρ ε) (W : Scribe μ κ ρ ε Λ)

/-- From main state `m` and log `l` some answers lead the program to its end, in a state
and with a log that `Q` holds of. -/
def CanEnd : Prog μ ι κ ρ α → (α → μ → Λ → Prop) → μ → Λ → Prop
  | .ret a, Q, m, l => Q a m l
  | .act f _ k, Q, m, l => (k (f m)).CanEnd Q (f m) l
  | .call c k, Q, m, l => ∃ r m', P.onAnswer m c r ∧ M.answer c r m = some m' ∧
      (k r).CanEnd Q m' (W.onAnswer m c r l)

variable {M P W} {Q : β → μ → Λ → Prop} {m : μ} {l : Λ}

@[simp] theorem canEnd_pure {Q : α → μ → Λ → Prop} (a : α) :
    (Pure.pure a : Prog μ ι κ ρ α).CanEnd M P W Q m l ↔ Q a m l := Iff.rfl

/-- The rule for sequencing. -/
@[simp] theorem canEnd_bind (p : Prog μ ι κ ρ α) (q : α → Prog μ ι κ ρ β) :
    (p >>= q).CanEnd M P W Q m l ↔
      p.CanEnd M P W (fun a m l => (q a).CanEnd M P W Q m l) m l := by
  show (p.bind q).CanEnd M P W Q m l ↔ _
  induction p generalizing m l with
  | ret a => rfl
  | act f g k ih => exact ih (f m)
  | call c k ih =>
    apply exists_congr
    intro r
    apply exists_congr
    intro m'
    exact and_congr_right fun _ => and_congr_right fun _ => ih r

@[simp] theorem canEnd_look {Q : μ → μ → Λ → Prop} :
    (look : Prog μ ι κ ρ μ).CanEnd M P W Q m l ↔ Q m m l := Iff.rfl

@[simp] theorem canEnd_assign {Q : Unit → μ → Λ → Prop} (f : μ → μ) :
    (assign f : Prog μ ι κ ρ Unit).CanEnd M P W Q m l ↔ Q () (f m) l := Iff.rfl

@[simp] theorem canEnd_ask {Q : ρ → μ → Λ → Prop} (c : κ) :
    (ask c : Prog μ ι κ ρ ρ).CanEnd M P W Q m l ↔
      ∃ r m', P.onAnswer m c r ∧ M.answer c r m = some m' ∧ Q r m' (W.onAnswer m c r l) := Iff.rfl

end Chosen

end Prog

namespace Machine

variable (M : Machine μ ι κ ρ ε)

/-- One step, and what is written at it. -/
def loggedStep (W : Scribe μ κ ρ ε Λ) (s : Configuration μ ι κ ρ × Λ) (a : Action ρ ε) :
    Option (Configuration μ ι κ ρ × Λ) :=
  (M.step s.1 a).map fun t => (t, W.write s.1 s.2 a)

/-- A run from `s₀` whose steps meet the policy reaches the state, and this log was written
of it. -/
def LoggedUnder (P : Policy μ ι κ ρ ε) (W : Scribe μ κ ρ ε Λ) (s₀ : Configuration μ ι κ ρ)
    (l₀ : Λ) (s : Configuration μ ι κ ρ) (l : Λ) : Prop :=
  Reaches (M.loggedStep W) (fun s a => meets P s.1 a) (s₀, l₀) (s, l)

variable {M} {P P' : Policy μ ι κ ρ ε} {W : Scribe μ κ ρ ε Λ} {J : Λ → Prop} {K : μ → Prop}
  {I : μ → Λ → Prop} {s₀ s : Configuration μ ι κ ρ} {l₀ l : Λ}

/-- A run that meets a condition meets every condition that admits more. -/
theorem ReachedUnder.of_stricter (h : M.ReachedUnder P s₀ s) (hP : P.Stricter P') :
    M.ReachedUnder P' s₀ s := by
  have hmeets {s : Configuration μ ι κ ρ} {a : Action ρ ε} (hok : meets P s a) : meets P' s a := by
    cases a with
    | event e => exact hP.onEvent _ _ hok
    | tick => rfl
    | answer r =>
      obtain ⟨m, io, p⟩ := s
      cases p with
      | call c k => exact hP.onAnswer _ _ _ hok
      | ret => rfl
      | act => rfl
    | work => exact hP.onWork _ _ hok
  unfold ReachedUnder at h
  induction h with
  | refl => exact Reaches.refl
  | tail _ hok hstep ih => exact Reaches.tail ih (hmeets hok) hstep

/-- A logged run is a run. -/
theorem LoggedUnder.reachedUnder (h : M.LoggedUnder P W s₀ l₀ s l) : M.ReachedUnder P s₀ s := by
  have hstart : M.ReachedUnder P s₀ s₀ := Reaches.refl
  refine Reaches.invariant h (I := fun t => M.ReachedUnder P s₀ t.1) hstart ?_
  intro t a t' hreach hok hstep
  obtain ⟨u, hu, rfl⟩ := Option.map_eq_some_iff.mp hstep
  exact Reaches.tail hreach hok hu

/-- **Every run has a log**, and acts as it does without one. -/
theorem reachedUnder_iff_loggedUnder (W : Scribe μ κ ρ ε Λ) (l₀ : Λ) :
    M.ReachedUnder P s₀ s ↔ ∃ l, M.LoggedUnder P W s₀ l₀ s l := by
  constructor
  · intro h
    unfold ReachedUnder at h
    induction h with
    | refl => exact ⟨l₀, Reaches.refl⟩
    | @tail t t' a _ hok hstep ih =>
      obtain ⟨l, hl⟩ := ih
      refine ⟨W.write t l a, Reaches.tail hl hok ?_⟩
      rw [loggedStep, hstep, Option.map_some]
  · rintro ⟨l, h⟩
    exact h.reachedUnder

/-- **The answers that lead a callback to its end are those of a run.** -/
theorem LoggedUnder.exists_of_canEnd {m : μ} {io : ι} {p : Prog μ ι κ ρ Unit}
    {Q : μ → Λ → Prop} (h : M.LoggedUnder P W s₀ l₀ ⟨m, io, p⟩ l)
    (hp : p.CanEnd M P W (fun _ => Q) m l) :
    ∃ m' io' l', M.LoggedUnder P W s₀ l₀ ⟨m', io', .ret ()⟩ l' ∧ Q m' l' := by
  induction p generalizing m io l with
  | ret u => exact ⟨m, io, l, h, hp⟩
  | act f g k ih =>
    have hnext : M.LoggedUnder P W s₀ l₀ ⟨f m, g m io, k (f m)⟩ l :=
      Reaches.tail (a := .tick) h rfl rfl
    exact ih (f m) hnext hp
  | call c k ih =>
    obtain ⟨r, m', hr, hm, hrest⟩ := hp
    have hnext : M.LoggedUnder P W s₀ l₀ ⟨m', io, k r⟩ (W.onAnswer m c r l) := by
      refine Reaches.tail (a := .answer r) h hr ?_
      simp only [loggedStep, step, hm, Option.map_some, Scribe.write]
    exact ih r hnext hrest

/-- **An invariant of state and log holds whenever no callback is running, and `J` holds
of every log**: each callback, entered between two others in a state that `K` holds of,
keeps `J` and restores `I`. -/
theorem logged_invariant
    (hinit : J l₀ ∧ s₀.running.Logged M P W J (fun _ => I) s₀.main l₀)
    (hidle : ∀ s, M.ReachedUnder P s₀ s → s.Idle → K s.main)
    (henter : ∀ e m io m' io' p l, K m → I m l → J l → P.onEvent m e →
      M.enter e m io = some (m', io', p) →
        J (W.onEvent m e l) ∧ p.Logged M P W J (fun _ => I) m' (W.onEvent m e l))
    (h : M.LoggedUnder P W s₀ l₀ s l) :
    J l ∧ s.running.Logged M P W J (fun _ => I) s.main l := by
  have hstart : M.ReachedUnder P s₀ s₀ := Reaches.refl
  have hinv := Reaches.invariant h
    (I := fun t => M.ReachedUnder P s₀ t.1 ∧
      J t.2 ∧ t.1.running.Logged M P W J (fun _ => I) t.1.main t.2) ⟨hstart, hinit⟩ ?_
  · exact hinv.2
  intro t a t' ht hok hstep
  obtain ⟨u, hu, rfl⟩ := Option.map_eq_some_iff.mp hstep
  obtain ⟨⟨m, io, p⟩, l⟩ := t
  obtain ⟨hreach, hJ, hlogged⟩ := ht
  refine ⟨Reaches.tail hreach hok hu, ?_⟩
  cases a with
  | work =>
    cases hu
    exact ⟨hJ, hlogged⟩
  | tick =>
    cases p with
    | act f g k =>
      cases hu
      exact ⟨hJ, hlogged⟩
    | ret => cases hu
    | call => cases hu
  | answer r =>
    cases p with
    | call c k =>
      obtain ⟨m', hm, rfl⟩ := Option.map_eq_some_iff.mp hu
      exact hlogged r m' hok hm
    | ret => cases hu
    | act => cases hu
  | event e =>
    cases p with
    | ret v =>
      obtain ⟨⟨m', io', p'⟩, hm, rfl⟩ := Option.map_eq_some_iff.mp hu
      exact henter e m io m' io' p' l (hidle _ hreach rfl) hlogged hJ hok hm
    | act => cases hu
    | call => cases hu

end Machine

end Lib
