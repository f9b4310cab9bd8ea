import BleHidHost.Lib.Log

/-!
# The calls of a run

A callback makes its calls one after another, and waits for the answer of each.  Which
calls a program can make at all is its footprint; what holds of the main state at each call
is a weakest precondition over the program.

## Main definitions

* `Prog.Uses` — every call of the program is one of these.
* `Prog.Asks` — a relation of main state and call holds at each call.
* `Configuration.calling` — the call whose answer is waited for.
* `lastEvent` — the scribe that writes down the event whose callback is running.

## Main results

* `Prog.asks_bind` — the rule for sequencing.
* `Prog.Keeps.asks` — a footprint, and what is kept, answer for every call.
* `Machine.asks_of_logged` — **what holds at each call of each callback holds at every call
  of a run.**
-/

namespace Lib

variable {μ ι κ ρ ε α β : Type}

namespace Prog

section Footprint

variable (C : κ → Prop)

/-- Every call of the program is one of these, whatever answers it is given. -/
def Uses : Prog μ ι κ ρ α → Prop
  | .ret _ => True
  | .act _ _ k => ∀ m, (k m).Uses
  | .call c k => C c ∧ ∀ r, (k r).Uses

variable {C}

theorem uses_pure (a : α) : (Pure.pure a : Prog μ ι κ ρ α).Uses C := trivial

theorem uses_look : (look : Prog μ ι κ ρ μ).Uses C := fun _ => trivial

theorem uses_assign (f : μ → μ) : (assign f : Prog μ ι κ ρ Unit).Uses C := fun _ => trivial

theorem uses_ask {c : κ} (hc : C c) : (ask c : Prog μ ι κ ρ ρ).Uses C := ⟨hc, fun _ => trivial⟩

theorem Uses.bind {p : Prog μ ι κ ρ α} {q : α → Prog μ ι κ ρ β} (hp : p.Uses C)
    (hq : ∀ a, (q a).Uses C) : (p >>= q).Uses C := by
  show (p.bind q).Uses C
  induction p with
  | ret a => exact hq a
  | act f g k ih => exact fun m => ih m (hp m)
  | call c k ih => exact ⟨hp.1, fun r => ih r (hp.2 r)⟩

theorem Uses.ite {c : Prop} [Decidable c] {p q : Prog μ ι κ ρ α} (hp : p.Uses C)
    (hq : q.Uses C) : (if c then p else q).Uses C := by
  split
  · exact hp
  · exact hq

end Footprint

section Rules

variable (M : Machine μ ι κ ρ ε) (P : Policy μ ι κ ρ ε) (R : μ → κ → Prop)

/-- From main state `m` the program makes each of its calls in a main state that `R` relates
to it, and returns in a state with `Q`, whatever answers it is given. -/
def Asks : Prog μ ι κ ρ α → (α → μ → Prop) → μ → Prop
  | .ret a, Q, m => Q a m
  | .act f _ k, Q, m => (k (f m)).Asks Q (f m)
  | .call c k, Q, m => R m c ∧ ∀ r m', P.onAnswer m c r → M.answer c r m = some m' →
      (k r).Asks Q m'

variable {M P R} {Q : β → μ → Prop} {m : μ}

@[simp] theorem asks_pure {Q : α → μ → Prop} (a : α) :
    (Pure.pure a : Prog μ ι κ ρ α).Asks M P R Q m ↔ Q a m := Iff.rfl

/-- **The rule for sequencing.** -/
@[simp] theorem asks_bind (p : Prog μ ι κ ρ α) (q : α → Prog μ ι κ ρ β) :
    (p >>= q).Asks M P R Q m ↔ p.Asks M P R (fun a m => (q a).Asks M P R Q m) m := by
  show (p.bind q).Asks M P R Q m ↔ _
  induction p generalizing m with
  | ret a => rfl
  | act f g k ih => exact ih (f m)
  | call c k ih =>
    apply and_congr_right
    intro _
    apply forall_congr'
    intro r
    apply forall_congr'
    intro m'
    exact imp_congr_right fun _ => imp_congr_right fun _ => ih r

@[simp] theorem asks_look {Q : μ → μ → Prop} :
    (look : Prog μ ι κ ρ μ).Asks M P R Q m ↔ Q m m := Iff.rfl

@[simp] theorem asks_assign {Q : Unit → μ → Prop} (f : μ → μ) :
    (assign f : Prog μ ι κ ρ Unit).Asks M P R Q m ↔ Q () (f m) := Iff.rfl

@[simp] theorem asks_emit {Q : Unit → μ → Prop} (f : μ → μ) (g : μ → ι → ι) :
    (emit f g : Prog μ ι κ ρ Unit).Asks M P R Q m ↔ Q () (f m) := Iff.rfl

@[simp] theorem asks_ask {Q : ρ → μ → Prop} (c : κ) :
    (ask c : Prog μ ι κ ρ ρ).Asks M P R Q m ↔
      R m c ∧ ∀ r m', P.onAnswer m c r → M.answer c r m = some m' → Q r m' := Iff.rfl

/-- The rule for a case distinction. -/
@[simp] theorem asks_ite {Q : α → μ → Prop} (c : Prop) [Decidable c] (p q : Prog μ ι κ ρ α) :
    (if c then p else q).Asks M P R Q m ↔ (c → p.Asks M P R Q m) ∧ (¬ c → q.Asks M P R Q m) := by
  split
  · next h => exact ⟨fun hp => ⟨fun _ => hp, fun hc => absurd h hc⟩, fun hpq => hpq.1 h⟩
  · next h => exact ⟨fun hq => ⟨fun hc => absurd hc h, fun _ => hq⟩, fun hpq => hpq.2 h⟩

/-- **A footprint answers for every call** where what is kept does so for each call in it. -/
theorem Keeps.asks [Inhabited ι] {p : Prog μ ι κ ρ α} {I : μ → Prop} {C : κ → Prop}
    (hp : p.Keeps M P fun m _ => I m) (hC : p.Uses C) (hR : ∀ m c, I m → C c → R m c)
    (hI : I m) : p.Asks M P R (fun _ => I) m := by
  induction p generalizing m with
  | ret a => exact hI
  | act f g k ih => exact ih (f m) (hp.2 (f m)) (hC (f m)) (hp.1 m default hI)
  | call c k ih =>
    refine ⟨hR m c hI hC.1, fun r m' hr hm => ?_⟩
    exact ih r (hp.2 r) (hC.2 r) (hp.1 m r m' default hr hm hI)

/-- A weaker postcondition. -/
theorem Asks.mono {p : Prog μ ι κ ρ α} {Q Q' : α → μ → Prop} (h : p.Asks M P R Q m)
    (hQ : ∀ a m, Q a m → Q' a m) : p.Asks M P R Q' m := by
  induction p generalizing m with
  | ret a => exact hQ a m h
  | act f g k ih => exact ih (f m) h
  | call c k ih => exact ⟨h.1, fun r m' hr hm => ih r (h.2 r m' hr hm)⟩

end Rules

end Prog

/-- The call whose answer is waited for. -/
def Configuration.calling (s : Configuration μ ι κ ρ) : Option κ :=
  match s.running with
  | .call c _ => some c
  | _ => none

theorem Configuration.calling_eq_some {s : Configuration μ ι κ ρ} {c : κ} :
    s.calling = some c ↔ ∃ k, s.running = .call c k := by
  obtain ⟨m, io, p⟩ := s
  cases p <;> simp [Configuration.calling]

/-- The event whose callback is running, or ran last. -/
def lastEvent : Scribe μ κ ρ ε (Option ε) := ⟨fun _ _ _ l => l, fun _ e _ => some e⟩

namespace Machine

variable {M : Machine μ ι κ ρ ε} {P : Policy μ ι κ ρ ε} {R : Option ε → μ → κ → Prop}
  {I K : μ → Prop} {s₀ s : Configuration μ ι κ ρ} {l : Option ε}

/-- **What holds at each call of each callback holds at every call of a run**: each callback,
entered between two others, makes its calls where `R` relates them to the event, and
restores `I`. -/
theorem asks_of_logged
    (hinit : s₀.running.Asks M P (R none) (fun _ => I) s₀.main)
    (hidle : ∀ s, M.ReachedUnder P s₀ s → s.Idle → K s.main)
    (henter : ∀ e m io m' io' p, K m → I m → P.onEvent m e → M.enter e m io = some (m', io', p) →
      p.Asks M P (R (some e)) (fun _ => I) m')
    (h : M.LoggedUnder P lastEvent s₀ none s l) :
    s.running.Asks M P (R l) (fun _ => I) s.main := by
  have hstart : M.ReachedUnder P s₀ s₀ := Reaches.refl
  refine (Reaches.invariant h (I := fun t => M.ReachedUnder P s₀ t.1 ∧
    t.1.running.Asks M P (R t.2) (fun _ => I) t.1.main) ⟨hstart, hinit⟩ ?_).2
  intro t a t' ht hok hstep
  obtain ⟨u, hu, rfl⟩ := Option.map_eq_some_iff.mp hstep
  obtain ⟨⟨m, io, p⟩, l⟩ := t
  obtain ⟨hreach, hasks⟩ := ht
  refine ⟨Reaches.tail hreach hok hu, ?_⟩
  cases a with
  | work =>
    cases hu
    exact hasks
  | tick =>
    cases p with
    | act f g k =>
      cases hu
      exact hasks
    | ret => cases hu
    | call => cases hu
  | answer r =>
    cases p with
    | call c k =>
      obtain ⟨m', hm, rfl⟩ := Option.map_eq_some_iff.mp hu
      exact hasks.2 r m' hok hm
    | ret => cases hu
    | act => cases hu
  | event e =>
    cases p with
    | ret v =>
      obtain ⟨⟨m', io', p'⟩, hm, rfl⟩ := Option.map_eq_some_iff.mp hu
      exact henter e m io m' io' p' (hidle _ hreach rfl) hasks hok hm
    | act => cases hu
    | call => cases hu

end Machine

end Lib
