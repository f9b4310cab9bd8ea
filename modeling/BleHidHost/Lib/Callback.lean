import BleHidHost.Lib.Run

/-!
# Callbacks that a handler may interrupt

A program here is a callback of some component.  It is a sequence of
indivisible actions on a main state and on an output state, and of calls that the
environment answers.  A handler runs without interruption between any two
actions; it reads the main state and changes the output state only.  The next
callback is entered when the one before has returned.

Since the handler leaves the main state alone, what is known of the main state at
a point of a program is known whatever runs in between.  `Safe` is the weakest
precondition over the main state, with one obligation at each action: that a
relation `J` between the two states, kept by the handler, is kept.

## Main definitions

* `Prog` — a callback.
* `Machine` — the environment, the handler, and the entry points.
* `Policy` — a condition on the answers, entries and handler runs of a run.
* `Prog.Safe` — the weakest precondition.
* `Prog.Keeps` — every action keeps a relation.
* `Prog.Silent` — every action leaves a part of the output state alone.
* `Prog.Avoids` — a call is never made.

## Main results

* `Prog.safe_bind` — the rule for sequencing.
* `Machine.invariant` — **an invariant of the callbacks holds between any two of
  them, and `J` holds in every state reached.**
* `Machine.along_iff` — what only the handler changes depends on its runs only.
-/

namespace Lib

/-- A callback over main states `μ` and output states `ι`, with calls `κ` that are
answered by `ρ`. -/
inductive Prog (μ ι κ ρ α : Type) : Type
  /-- Return. -/
  | ret (a : α)
  /-- One indivisible action on both states; what follows may read the main state. -/
  | act (f : μ → μ) (g : μ → ι → ι) (k : μ → Prog μ ι κ ρ α)
  /-- A call; what follows depends on the answer. -/
  | call (c : κ) (k : ρ → Prog μ ι κ ρ α)

namespace Prog

variable {μ ι κ ρ α β : Type}

/-- Sequencing. -/
def bind : Prog μ ι κ ρ α → (α → Prog μ ι κ ρ β) → Prog μ ι κ ρ β
  | .ret a, q => q a
  | .act f g k, q => .act f g fun m => (k m).bind q
  | .call c k, q => .call c fun r => (k r).bind q

instance : Monad (Prog μ ι κ ρ) where
  pure := .ret
  bind := .bind

/-- Read the main state. -/
def look : Prog μ ι κ ρ μ := .act id (fun _ io => io) .ret

/-- Change the main state. -/
def assign (f : μ → μ) : Prog μ ι κ ρ Unit := .act f (fun _ io => io) fun _ => .ret ()

/-- Change both states at once. -/
def emit (f : μ → μ) (g : μ → ι → ι) : Prog μ ι κ ρ Unit := .act f g fun _ => .ret ()

/-- Call, and return the answer. -/
def ask (c : κ) : Prog μ ι κ ρ ρ := .call c .ret

end Prog

/-- The surroundings of the callbacks. -/
structure Machine (μ ι κ ρ ε : Type) where
  /-- The effect of a call with this answer, `none` where it cannot be given. -/
  answer : κ → ρ → μ → Option μ
  /-- One run of the handler. -/
  work : μ → ι → ι
  /-- What an event does at once, and the callback it enters; `none` where it
  cannot occur. -/
  enter : ε → μ → ι → Option (μ × ι × Prog μ ι κ ρ Unit)

/-- What a machine does next. -/
inductive Action (ρ ε : Type)
  /-- An event enters its callback. -/
  | event (e : ε)
  /-- The callback that runs takes its next action. -/
  | tick
  /-- The call that is waited for is answered. -/
  | answer (r : ρ)
  /-- The handler runs. -/
  | work
  deriving DecidableEq, Repr

/-- A machine's state: the main state, the output state, and what is left of the
callback that runs. -/
structure Configuration (μ ι κ ρ : Type) where
  main : μ
  io : ι
  running : Prog μ ι κ ρ Unit

variable {μ ι κ ρ ε α β : Type}

/-- No callback is running. -/
def Configuration.Idle (s : Configuration μ ι κ ρ) : Prop := s.running = .ret ()

/-- `Idle`, computed. -/
def Configuration.isIdle (s : Configuration μ ι κ ρ) : Bool :=
  match s.running with
  | .ret _ => true
  | _ => false

theorem Configuration.isIdle_iff {s : Configuration μ ι κ ρ} : s.isIdle ↔ s.Idle := by
  obtain ⟨m, io, p⟩ := s
  cases p <;> simp [Configuration.isIdle, Configuration.Idle]

/-- A condition on the steps of a run. -/
structure Policy (μ ι κ ρ ε : Type) where
  onAnswer : μ → κ → ρ → Bool
  onEvent : μ → ε → Bool
  onWork : μ → ι → Bool

/-- No condition. -/
def Policy.any : Policy μ ι κ ρ ε := ⟨fun _ _ _ => true, fun _ _ => true, fun _ _ => true⟩

namespace Machine

variable (M : Machine μ ι κ ρ ε)

/-- One step. -/
def step (s : Configuration μ ι κ ρ) : Action ρ ε → Option (Configuration μ ι κ ρ)
  | .event e =>
    match s.running with
    | .ret _ => (M.enter e s.main s.io).map fun n => ⟨n.1, n.2.1, n.2.2⟩
    | _ => none
  | .tick =>
    match s.running with
    | .act f g k => some ⟨f s.main, g s.main s.io, k (f s.main)⟩
    | _ => none
  | .answer r =>
    match s.running with
    | .call c k => (M.answer c r s.main).map fun m => ⟨m, s.io, k r⟩
    | _ => none
  | .work => some { s with io := M.work s.main s.io }

/-- The step meets the policy. -/
def meets (P : Policy μ ι κ ρ ε) (s : Configuration μ ι κ ρ) : Action ρ ε → Bool
  | .event e => P.onEvent s.main e
  | .tick => true
  | .answer r =>
    match s.running with
    | .call c _ => P.onAnswer s.main c r
    | _ => true
  | .work => P.onWork s.main s.io

theorem meets_any (s : Configuration μ ι κ ρ) (a : Action ρ ε) : meets .any s a = true := by
  cases a with
  | answer r =>
    obtain ⟨m, io, p⟩ := s
    cases p <;> rfl
  | _ => rfl

/-- The states of the runs from `s₀` whose steps meet the policy. -/
def ReachedUnder (P : Policy μ ι κ ρ ε) (s₀ s : Configuration μ ι κ ρ) : Prop :=
  Reaches M.step (fun s a => meets P s a) s₀ s

end Machine

namespace Prog

variable (M : Machine μ ι κ ρ ε) (P : Policy μ ι κ ρ ε) (J : μ → ι → Prop)

/-- From main state `m` the program keeps `J` at every action and returns in a
state with `Q`, whatever answers it is given. -/
def Safe : Prog μ ι κ ρ α → (α → μ → Prop) → μ → Prop
  | .ret a, Q, m => Q a m
  | .act f g k, Q, m => (∀ io, J m io → J (f m) (g m io)) ∧ (k (f m)).Safe Q (f m)
  | .call c k, Q, m => ∀ r m', P.onAnswer m c r → M.answer c r m = some m' →
      (∀ io, J m io → J m' io) ∧ (k r).Safe Q m'

variable {M P J} {Q : β → μ → Prop} {m : μ}

@[simp] theorem safe_pure {Q : α → μ → Prop} (a : α) :
    (Pure.pure a : Prog μ ι κ ρ α).Safe M P J Q m ↔ Q a m := Iff.rfl

/-- **The rule for sequencing.** -/
@[simp] theorem safe_bind (p : Prog μ ι κ ρ α) (q : α → Prog μ ι κ ρ β) :
    (p >>= q).Safe M P J Q m ↔ p.Safe M P J (fun a m => (q a).Safe M P J Q m) m := by
  show (p.bind q).Safe M P J Q m ↔ _
  induction p generalizing m with
  | ret a => rfl
  | act f g k ih => exact and_congr_right fun _ => ih (f m)
  | call c k ih =>
    apply forall_congr'
    intro r
    apply forall_congr'
    intro m'
    exact imp_congr_right fun _ => imp_congr_right fun _ => and_congr_right fun _ => ih r

@[simp] theorem safe_look {Q : μ → μ → Prop} :
    (look : Prog μ ι κ ρ μ).Safe M P J Q m ↔ Q m m :=
  ⟨fun h => h.2, fun h => ⟨fun _ hJ => hJ, h⟩⟩

@[simp] theorem safe_assign {Q : Unit → μ → Prop} (f : μ → μ) :
    (assign f : Prog μ ι κ ρ Unit).Safe M P J Q m ↔
      (∀ io, J m io → J (f m) io) ∧ Q () (f m) := Iff.rfl

@[simp] theorem safe_emit {Q : Unit → μ → Prop} (f : μ → μ) (g : μ → ι → ι) :
    (emit f g : Prog μ ι κ ρ Unit).Safe M P J Q m ↔
      (∀ io, J m io → J (f m) (g m io)) ∧ Q () (f m) := Iff.rfl

@[simp] theorem safe_ask {Q : ρ → μ → Prop} (c : κ) :
    (ask c : Prog μ ι κ ρ ρ).Safe M P J Q m ↔
      ∀ r m', P.onAnswer m c r → M.answer c r m = some m' → (∀ io, J m io → J m' io) ∧ Q r m' :=
  Iff.rfl

/-- The rule for a case distinction. -/
@[simp] theorem safe_ite {Q : α → μ → Prop} (c : Prop) [Decidable c] (p q : Prog μ ι κ ρ α) :
    (if c then p else q).Safe M P J Q m ↔ (c → p.Safe M P J Q m) ∧ (¬ c → q.Safe M P J Q m) := by
  split
  · next h => exact ⟨fun hp => ⟨fun _ => hp, fun hc => absurd h hc⟩, fun hpq => hpq.1 h⟩
  · next h => exact ⟨fun hq => ⟨fun hc => absurd hc h, fun _ => hq⟩, fun hpq => hpq.2 h⟩

/-- A weaker postcondition. -/
theorem Safe.mono {p : Prog μ ι κ ρ α} {Q Q' : α → μ → Prop} (h : p.Safe M P J Q m)
    (hQ : ∀ a m, Q a m → Q' a m) : p.Safe M P J Q' m := by
  induction p generalizing m with
  | ret a => exact hQ a m h
  | act f g k ih => exact ⟨h.1, ih (f m) h.2⟩
  | call c k ih =>
    intro r m' hr hm
    exact ⟨(h r m' hr hm).1, ih r (h r m' hr hm).2⟩

/-- What is kept may be forgotten. -/
theorem Safe.forget {p : Prog μ ι κ ρ α} {Q : α → μ → Prop} (h : p.Safe M P J Q m) :
    p.Safe M P (fun _ _ => True) Q m := by
  induction p generalizing m with
  | ret a => exact h
  | act f g k ih => exact ⟨fun _ _ => trivial, ih (f m) h.2⟩
  | call c k ih =>
    intro r m' hr hm
    exact ⟨fun _ _ => trivial, ih r (h r m' hr hm).2⟩

/-- Two postconditions at once; what the second keeps is not needed. -/
theorem Safe.and {p : Prog μ ι κ ρ α} {J' : μ → ι → Prop} {Q Q' : α → μ → Prop}
    (h : p.Safe M P J Q m) (h' : p.Safe M P J' Q' m) :
    p.Safe M P J (fun a m => Q a m ∧ Q' a m) m := by
  induction p generalizing m with
  | ret a => exact ⟨h, h'⟩
  | act f g k ih => exact ⟨h.1, ih (f m) h.2 h'.2⟩
  | call c k ih =>
    intro r m' hr hm
    exact ⟨(h r m' hr hm).1, ih r (h r m' hr hm).2 (h' r m' hr hm).2⟩

/-- Two postconditions at once, and two relations that are kept. -/
theorem Safe.both {p : Prog μ ι κ ρ α} {J' : μ → ι → Prop} {Q Q' : α → μ → Prop}
    (h : p.Safe M P J Q m) (h' : p.Safe M P J' Q' m) :
    p.Safe M P (fun m io => J m io ∧ J' m io) (fun a m => Q a m ∧ Q' a m) m := by
  induction p generalizing m with
  | ret a => exact ⟨h, h'⟩
  | act f g k ih => exact ⟨fun io hJ => ⟨h.1 io hJ.1, h'.1 io hJ.2⟩, ih (f m) h.2 h'.2⟩
  | call c k ih =>
    intro r m' hr hm
    obtain ⟨hkeep, hrest⟩ := h r m' hr hm
    obtain ⟨hkeep', hrest'⟩ := h' r m' hr hm
    exact ⟨fun io hJ => ⟨hkeep io hJ.1, hkeep' io hJ.2⟩, ih r hrest hrest'⟩

/-! ### Calls that are not made -/

variable (M) in
/-- From main state `m` the program never makes the call `c`, and returns in a state with
`Q`, whatever answers it is given. -/
def Avoids (c : κ) : Prog μ ι κ ρ α → (α → μ → Prop) → μ → Prop
  | .ret a, Q, m => Q a m
  | .act f _ k, Q, m => (k (f m)).Avoids c Q (f m)
  | .call d k, Q, m => d ≠ c ∧ ∀ r m', M.answer d r m = some m' → (k r).Avoids c Q m'

@[simp] theorem avoids_pure {c : κ} {Q : α → μ → Prop} (a : α) :
    (Pure.pure a : Prog μ ι κ ρ α).Avoids M c Q m ↔ Q a m := Iff.rfl

@[simp] theorem avoids_bind {c : κ} (p : Prog μ ι κ ρ α) (q : α → Prog μ ι κ ρ β) :
    (p >>= q).Avoids M c Q m ↔ p.Avoids M c (fun a m => (q a).Avoids M c Q m) m := by
  show (p.bind q).Avoids M c Q m ↔ _
  induction p generalizing m with
  | ret a => rfl
  | act f g k ih => exact ih (f m)
  | call d k ih =>
    apply and_congr_right
    intro _
    apply forall_congr'
    intro r
    apply forall_congr'
    intro m'
    exact imp_congr_right fun _ => ih r

@[simp] theorem avoids_look {c : κ} {Q : μ → μ → Prop} :
    (look : Prog μ ι κ ρ μ).Avoids M c Q m ↔ Q m m := Iff.rfl

@[simp] theorem avoids_ask {c : κ} {Q : ρ → μ → Prop} (d : κ) :
    (ask d : Prog μ ι κ ρ ρ).Avoids M c Q m ↔
      d ≠ c ∧ ∀ r m', M.answer d r m = some m' → Q r m' := Iff.rfl

/-! ### Relations that every action keeps -/

variable (M P J) in
/-- Every action and every answer keeps `J`, wherever it is taken. -/
def Keeps : Prog μ ι κ ρ α → Prop
  | .ret _ => True
  | .act f g k => (∀ m io, J m io → J (f m) (g m io)) ∧ ∀ m, (k m).Keeps
  | .call c k =>
    (∀ m r m' io, P.onAnswer m c r → M.answer c r m = some m' → J m io → J m' io) ∧
      ∀ r, (k r).Keeps

@[simp] theorem keeps_pure (a : α) : (Pure.pure a : Prog μ ι κ ρ α).Keeps M P J := trivial

theorem Keeps.bind {p : Prog μ ι κ ρ α} {q : α → Prog μ ι κ ρ β} (hp : p.Keeps M P J)
    (hq : ∀ a, (q a).Keeps M P J) : (p >>= q).Keeps M P J := by
  show (p.bind q).Keeps M P J
  induction p with
  | ret a => exact hq a
  | act f g k ih => exact ⟨hp.1, fun m => ih m (hp.2 m)⟩
  | call c k ih => exact ⟨hp.1, fun r => ih r (hp.2 r)⟩

theorem Keeps.ite {c : Prop} [Decidable c] {p q : Prog μ ι κ ρ α} (hp : p.Keeps M P J)
    (hq : q.Keeps M P J) : (if c then p else q).Keeps M P J := by
  split
  · exact hp
  · exact hq

@[simp] theorem keeps_look : (look : Prog μ ι κ ρ μ).Keeps M P J :=
  ⟨fun _ _ hJ => hJ, fun _ => trivial⟩

@[simp] theorem keeps_assign (f : μ → μ) :
    (assign f : Prog μ ι κ ρ Unit).Keeps M P J ↔ ∀ m io, J m io → J (f m) io :=
  ⟨fun h => h.1, fun h => ⟨h, fun _ => trivial⟩⟩

@[simp] theorem keeps_emit (f : μ → μ) (g : μ → ι → ι) :
    (emit f g : Prog μ ι κ ρ Unit).Keeps M P J ↔ ∀ m io, J m io → J (f m) (g m io) :=
  ⟨fun h => h.1, fun h => ⟨h, fun _ => trivial⟩⟩

@[simp] theorem keeps_ask (c : κ) :
    (ask c : Prog μ ι κ ρ ρ).Keeps M P J ↔
      ∀ m r m' io, P.onAnswer m c r → M.answer c r m = some m' → J m io → J m' io :=
  ⟨fun h => h.1, fun h => ⟨h, fun _ => trivial⟩⟩

/-- What is said of a part of the main state is kept where that part never changes. -/
theorem Keeps.of_eq {γ : Type} {φ : μ → γ} {p : Prog μ ι κ ρ α}
    (h : ∀ c, p.Keeps M P fun m _ => φ m = c) (S : γ → Prop) :
    p.Keeps M P fun m _ => S (φ m) := by
  induction p with
  | ret a => trivial
  | act f g k ih =>
    refine ⟨fun m io hS => ?_, fun m => ih m fun c => (h c).2 m⟩
    have heq : φ (f m) = φ m := (h (φ m)).1 m io rfl
    show S (φ (f m))
    rwa [heq]
  | call c k ih =>
    refine ⟨fun m r m' io hr hm hS => ?_, fun r => ih r fun d => (h d).2 r⟩
    have heq : φ m' = φ m := (h (φ m)).1 m r m' io hr hm rfl
    show S (φ m')
    rwa [heq]

/-- What is kept wherever an action is taken is kept in particular here. -/
theorem Safe.keeping {p : Prog μ ι κ ρ α} {J' : μ → ι → Prop} {Q : α → μ → Prop}
    (h : p.Safe M P J' Q m) (hJ : p.Keeps M P J) : p.Safe M P J Q m := by
  induction p generalizing m with
  | ret a => exact h
  | act f g k ih => exact ⟨hJ.1 m, ih (f m) h.2 (hJ.2 (f m))⟩
  | call c k ih =>
    intro r m' hr hm
    exact ⟨fun io => hJ.1 m r m' io hr hm, ih r (h r m' hr hm).2 (hJ.2 r)⟩

/-- The program leaves this part of the output state alone. -/
def Silent (M : Machine μ ι κ ρ ε) {γ : Type} (φ : ι → γ) (p : Prog μ ι κ ρ α) : Prop :=
  ∀ c, p.Keeps M Policy.any fun _ io => φ io = c

/-- What is kept wherever an action is taken is kept from here on. -/
theorem Keeps.safe_true {p : Prog μ ι κ ρ α} (h : p.Keeps M P J) :
    p.Safe M P J (fun _ _ => True) m := by
  induction p generalizing m with
  | ret a => trivial
  | act f g k ih => exact ⟨h.1 m, ih (f m) (h.2 (f m))⟩
  | call c k ih => exact fun r m' hr hm => ⟨fun io => h.1 m r m' io hr hm, ih r (h.2 r)⟩

/-- A predicate on the main state that is kept holds at the end. -/
theorem Keeps.safe [Inhabited ι] {p : Prog μ ι κ ρ α} {I : μ → Prop}
    (h : p.Keeps M P fun m _ => I m) (hI : I m) : p.Safe M P (fun m _ => I m) (fun _ => I) m := by
  induction p generalizing m with
  | ret a => exact hI
  | act f g k ih => exact ⟨h.1 m, ih (f m) (h.2 (f m)) (h.1 m default hI)⟩
  | call c k ih =>
    intro r m' hr hm
    have hI' : I m' := h.1 m r m' default hr hm hI
    exact ⟨fun _ _ => hI', ih r (h.2 r) hI'⟩

end Prog

namespace Machine

variable {M : Machine μ ι κ ρ ε} {P : Policy μ ι κ ρ ε} {I : μ → Prop} {J : μ → ι → Prop}

/-- **An invariant of the callbacks holds whenever none is running, and `J` holds
in every state reached**: the handler keeps `J`, and each callback, entered
between two others, keeps `J` and restores `I`. -/
theorem invariant {s₀ s : Configuration μ ι κ ρ}
    (hinit : J s₀.main s₀.io ∧ s₀.running.Safe M P J (fun _ => I) s₀.main)
    (hwork : ∀ m io, J m io → P.onWork m io → J m (M.work m io))
    (henter : ∀ e m io m' io' p, I m → J m io → P.onEvent m e →
      M.enter e m io = some (m', io', p) → J m' io' ∧ p.Safe M P J (fun _ => I) m')
    (h : M.ReachedUnder P s₀ s) :
    J s.main s.io ∧ s.running.Safe M P J (fun _ => I) s.main := by
  -- the running callback is safe to its end from wherever it stands
  apply Reaches.invariant h
    (I := fun s => J s.main s.io ∧ s.running.Safe M P J (fun _ => I) s.main) hinit
  intro s a s' hs hok hstep
  obtain ⟨m, io, p⟩ := s
  obtain ⟨hJ, hsafe⟩ := hs
  cases a with
  | work =>
    cases hstep
    exact ⟨hwork m io hJ hok, hsafe⟩
  | tick =>
    cases p with
    | act f g k =>
      cases hstep
      exact ⟨hsafe.1 io hJ, hsafe.2⟩
    | ret => cases hstep
    | call => cases hstep
  | answer r =>
    cases p with
    | call c k =>
      obtain ⟨m', hm, rfl⟩ := Option.map_eq_some_iff.mp hstep
      obtain ⟨hkeep, hrest⟩ := hsafe r m' hok hm
      exact ⟨hkeep io hJ, hrest⟩
    | ret => cases hstep
    | act => cases hstep
  | event e =>
    cases p with
    | ret u =>
      -- between two callbacks safety is `I`
      obtain ⟨⟨m', io', p'⟩, hm, rfl⟩ := Option.map_eq_some_iff.mp hstep
      exact henter e m io m' io' p' hsafe hJ hok hm
    | act => cases hstep
    | call => cases hstep

/-- The invariant between two callbacks. -/
theorem invariant_idle {s₀ s : Configuration μ ι κ ρ}
    (hinit : s₀.running.Safe M P (fun _ _ => True) (fun _ => I) s₀.main)
    (henter : ∀ e m io m' io' p, I m → P.onEvent m e →
      M.enter e m io = some (m', io', p) → p.Safe M P (fun _ _ => True) (fun _ => I) m')
    (h : M.ReachedUnder P s₀ s) (hidle : s.Idle) : I s.main := by
  have hinv := invariant ⟨trivial, hinit⟩ (fun _ _ _ _ => trivial)
    (fun e m io m' io' p hI _ he hm => ⟨trivial, henter e m io m' io' p hI he hm⟩) h
  have hsafe := hinv.2
  rw [hidle] at hsafe
  exact hsafe

/-! ### What only the handler changes -/

variable {γ : Type} {φ : ι → γ}

/-- A step of a callback leaves alone what the callbacks leave alone. -/
theorem step_silent
    (henter : ∀ e m io m' io' p, M.enter e m io = some (m', io', p) →
      φ io' = φ io ∧ p.Silent M φ)
    {s s' : Configuration μ ι κ ρ} {a : Action ρ ε} (hs : s.running.Silent M φ)
    (hstep : M.step s a = some s') :
    s'.running.Silent M φ ∧ (a ≠ .work → φ s'.io = φ s.io) := by
  obtain ⟨m, io, p⟩ := s
  cases a with
  | work =>
    cases hstep
    exact ⟨hs, fun hne => absurd rfl hne⟩
  | tick =>
    cases p with
    | act f g k =>
      cases hstep
      exact ⟨fun c => (hs c).2 (f m), fun _ => (hs (φ io)).1 m io rfl⟩
    | ret => cases hstep
    | call => cases hstep
  | answer r =>
    cases p with
    | call c k =>
      obtain ⟨m', hm, rfl⟩ := Option.map_eq_some_iff.mp hstep
      exact ⟨fun d => (hs d).2 r, fun _ => rfl⟩
    | ret => cases hstep
    | act => cases hstep
  | event e =>
    cases p with
    | ret u =>
      obtain ⟨⟨m', io', p'⟩, hm, rfl⟩ := Option.map_eq_some_iff.mp hstep
      obtain ⟨heq, hsilent⟩ := henter e m io m' io' p' hm
      exact ⟨hsilent, fun _ => heq⟩
    | act => cases hstep
    | call => cases hstep

/-- **A property of what only the handler changes**, which a run of the handler keeps
exactly where it meets a condition, holds at the end of a replay exactly when it held
at its start and every run of the handler met the condition. -/
theorem along_iff {K : γ → Prop}
    (henter : ∀ e m io m' io' p, M.enter e m io = some (m', io', p) →
      φ io' = φ io ∧ p.Silent M φ)
    (hwork : ∀ m io, K (φ (M.work m io)) ↔ K (φ io) ∧ P.onWork m io)
    (hanswer : ∀ m c r, P.onAnswer m c r) (hevent : ∀ m e, P.onEvent m e)
    {as : List (Action ρ ε)} {s s' : Configuration μ ι κ ρ} (hs : s.running.Silent M φ)
    (hrun : run M.step as s = some s') :
    K (φ s'.io) ↔ K (φ s.io) ∧ Along M.step (fun s a => meets P s a) as s := by
  induction as generalizing s with
  | nil =>
    cases hrun
    exact (and_iff_left trivial).symm
  | cons a as ih =>
    obtain ⟨t, ht, hrun⟩ := run_cons_eq_some.mp hrun
    obtain ⟨hsilent, hsame⟩ := step_silent henter hs ht
    -- the first step counts only where it is the handler's
    have hfirst : K (φ t.io) ↔ K (φ s.io) ∧ meets P s a := by
      cases a with
      | work =>
        cases ht
        exact hwork s.main s.io
      | event e =>
        rw [hsame (by simp)]
        exact (and_iff_left (hevent s.main e)).symm
      | tick =>
        rw [hsame (by simp)]
        exact (and_iff_left rfl).symm
      | answer r =>
        rw [hsame (by simp)]
        apply (and_iff_left _).symm
        simp only [meets]
        split
        · exact hanswer _ _ _
        · rfl
    rw [ih hsilent hrun, hfirst, and_assoc, Along]
    apply and_congr_right
    intro _
    apply and_congr_right
    intro _
    constructor
    · -- the step function has one result
      intro hrest t' ht'
      cases ht.symm.trans ht'
      exact hrest
    · intro h
      exact h t ht

end Machine

end Lib
