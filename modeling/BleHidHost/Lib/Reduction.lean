import Mathlib.Logic.Function.Iterate
import BleHidHost.Lib.Callback

/-!
# Serial runs

The handler may take its turn between any two actions of a callback.  In a serial run it
takes its turns between callbacks only.

A turn that cuts into a callback can be moved out of it to the left, in front of the
event, as long as it commutes with what the callback has done, and to the right, behind
the callback's return, as long as it commutes with what is left of it.  One action of the
callback, at which it takes effect, need commute with nothing.  And a turn whose doings
the callback undoes later need not be taken at all.

## Main definitions

* `Machine.SeriallyUnder` — the serial runs under a policy.
* `Prog.Commutes` — turns commute with all that is left of the program.
* `Prog.Covers` — what turns do is undone, and what is left then commutes.
* `Prog.Atomic` — turns commute with the program up to one action, and from there on.

## Main results

* `Prog.commutes_bind`, `Prog.atomic_bind` — the rules for sequencing.
* `Prog.Keeps.commutes` — turns commute with what leaves alone all that they read.
* `Machine.seriallyUnder_of_reached` — **where every callback is atomic, what is reached
  between two callbacks is reached by a serial run.**
-/

namespace Lib

variable {μ ι κ ρ ε α β γ : Type}

namespace Prog

section Movers

variable (M : Machine μ ι κ ρ ε) (P : Policy μ ι κ ρ ε) (J : μ → ι → Prop) (E : ι → ι → Prop)

/-- A turn may be taken in front of the action as well as behind it. -/
def Swaps (m m' : μ) (g : ι → ι) : Prop :=
  ∀ io, J m io → J m' (g io) ∧ M.work m' (g io) = g (M.work m io)

/-- From main state `m` turns commute with every action of the program, which returns in a
state that `Q` holds of. -/
def Commutes : Prog μ ι κ ρ α → (α → μ → Prop) → μ → Prop
  | .ret a, Q, m => Q a m
  | .act f g k, Q, m => Swaps M J m (f m) (g m) ∧ (k (f m)).Commutes Q (f m)
  | .call c k, Q, m => ∀ r m', P.onAnswer m c r → M.answer c r m = some m' →
      Swaps M J m m' id ∧ (k r).Commutes Q m'

/-- From main state `m` turns do nothing that `E` tells apart, until some action makes
equal what `E` does not tell apart; turns commute with what is left. -/
def Covers : Prog μ ι κ ρ α → (α → μ → Prop) → μ → Prop
  | .ret _, _, _ => False
  | .act f g k, Q, m =>
    (∀ io, J m io → E io (M.work m io) ∧ J (f m) (g m io)) ∧
      (((∀ io io', E io io' → E (g m io) (g m io')) ∧ (k (f m)).Covers Q (f m)) ∨
        ((∀ io io', E io io' → g m io = g m io') ∧ (k (f m)).Commutes M P J Q (f m)))
  | .call c k, Q, m => (∀ io, J m io → E io (M.work m io)) ∧
      ∀ r m', P.onAnswer m c r → M.answer c r m = some m' →
        (∀ io, J m io → J m' io) ∧ (k r).Covers Q m'

/-- From main state `m` the program is atomic: turns commute with every action up to one,
and with all that is left, or are covered.  It returns in a state with `Q`, or with `Q'`
if it has taken effect. -/
def Atomic : Prog μ ι κ ρ α → (α → μ → Prop) → (α → μ → Prop) → μ → Prop
  | .ret a, Q, _, m => Q a m
  | .act f g k, Q, Q', m =>
    (Swaps M J m (f m) (g m) ∧ (k (f m)).Atomic Q Q' (f m)) ∨
      ((∀ io, J m io → J (f m) (g m io)) ∧
        ((k (f m)).Commutes M P J Q' (f m) ∨ (k (f m)).Covers M P J E Q' (f m)))
  | .call c k, Q, Q', m => ∀ r m', P.onAnswer m c r → M.answer c r m = some m' →
      Swaps M J m m' id ∧ (k r).Atomic Q Q' m'

variable {M P J E} {Q Q' : β → μ → Prop} {m : μ}

/-! ### Rules -/

/-- **The rule for sequencing.** -/
@[simp] theorem commutes_bind (p : Prog μ ι κ ρ α) (q : α → Prog μ ι κ ρ β) :
    (p >>= q).Commutes M P J Q m ↔
      p.Commutes M P J (fun a m => (q a).Commutes M P J Q m) m := by
  show (p.bind q).Commutes M P J Q m ↔ _
  induction p generalizing m with
  | ret a => rfl
  | act f g k ih => exact and_congr_right fun _ => ih (f m)
  | call c k ih =>
    apply forall_congr'
    intro r
    apply forall_congr'
    intro m'
    exact imp_congr_right fun _ => imp_congr_right fun _ => and_congr_right fun _ => ih r

@[simp] theorem commutes_assign {Q : Unit → μ → Prop} (f : μ → μ) :
    (assign f : Prog μ ι κ ρ Unit).Commutes M P J Q m ↔ Swaps M J m (f m) id ∧ Q () (f m) :=
  Iff.rfl

@[simp] theorem commutes_emit {Q : Unit → μ → Prop} (f : μ → μ) (g : μ → ι → ι) :
    (emit f g : Prog μ ι κ ρ Unit).Commutes M P J Q m ↔
      Swaps M J m (f m) (g m) ∧ Q () (f m) := Iff.rfl

/-- Reading changes nothing. -/
theorem swaps_id : Swaps M J m m id := fun _ hJ => ⟨hJ, rfl⟩

/-- A weaker postcondition. -/
theorem Commutes.mono {p : Prog μ ι κ ρ α} {Q Q' : α → μ → Prop}
    (h : p.Commutes M P J Q m) (hQ : ∀ a m, Q a m → Q' a m) : p.Commutes M P J Q' m := by
  induction p generalizing m with
  | ret a => exact hQ a m h
  | act f g k ih => exact ⟨h.1, ih (f m) h.2⟩
  | call c k ih =>
    intro r m' hr hm
    exact ⟨(h r m' hr hm).1, ih r (h r m' hr hm).2⟩

/-- **Turns commute with a program that leaves alone all that they read**, and that writes
no output. -/
theorem Keeps.commutes {φ : μ → γ} {p : Prog μ ι κ ρ α} {Q : α → μ → Prop} {J' : μ → ι → Prop}
    (h : ∀ c d, p.Keeps M P fun m io => φ m = c ∧ io = d)
    (hwork : ∀ m m', φ m' = φ m → M.work m' = M.work m) {S : γ → ι → Prop}
    (hQ : p.Safe M P J' Q m) : p.Commutes M P (fun m io => S (φ m) io) Q m := by
  induction p generalizing m with
  | ret a => exact hQ
  | act f g k ih =>
    refine ⟨fun io hS => ?_, ih (f m) (fun c d => (h c d).2 (f m)) hQ.2⟩
    have hkeep (io : ι) : φ (f m) = φ m ∧ g m io = io := (h (φ m) io).1 m io ⟨rfl, rfl⟩
    refine ⟨?_, ?_⟩
    · show S (φ (f m)) (g m io)
      rw [(hkeep io).1, (hkeep io).2]
      exact hS
    · rw [(hkeep io).2, (hkeep _).2, hwork m (f m) (hkeep io).1]
  | call c k ih =>
    intro r m' hr hm
    have hkeep (io : ι) : φ m' = φ m := ((h (φ m) io).1 m r m' io hr hm ⟨rfl, rfl⟩).1
    refine ⟨fun io hS => ⟨?_, ?_⟩, ih r (fun d e => (h d e).2 r) (hQ r m' hr hm).2⟩
    · show S (φ m') io
      rw [hkeep io]
      exact hS
    · rw [id, id, hwork m m' (hkeep io)]

/-- What is covered stays so. -/
theorem Covers.bind {p : Prog μ ι κ ρ α} {q : α → Prog μ ι κ ρ β}
    (h : p.Covers M P J E (fun a m => (q a).Commutes M P J Q m) m) :
    (p >>= q).Covers M P J E Q m := by
  show (p.bind q).Covers M P J E Q m
  induction p generalizing m with
  | ret a => exact h.elim
  | act f g k ih =>
    exact ⟨h.1, h.2.imp (And.imp_right (ih (f m)))
      (And.imp_right (commutes_bind (k (f m)) q).mpr)⟩
  | call c k ih =>
    exact ⟨h.1, fun r m' hr hm => ⟨(h.2 r m' hr hm).1, ih r (h.2 r m' hr hm).2⟩⟩

/-- **The rule for sequencing**: what is left of an atomic program is atomic too, and
commutes once the program has taken effect. -/
theorem Atomic.bind {p : Prog μ ι κ ρ α} {q : α → Prog μ ι κ ρ β}
    (h : p.Atomic M P J E (fun a m => (q a).Atomic M P J E Q Q' m)
      (fun a m => (q a).Commutes M P J Q' m) m) : (p >>= q).Atomic M P J E Q Q' m := by
  show (p.bind q).Atomic M P J E Q Q' m
  induction p generalizing m with
  | ret a => exact h
  | act f g k ih =>
    exact h.imp (And.imp_right (ih (f m))) (And.imp_right
      (Or.imp (commutes_bind (k (f m)) q).mpr Covers.bind))
  | call c k ih =>
    intro r m' hr hm
    exact ⟨(h r m' hr hm).1, ih r (h r m' hr hm).2⟩

/-- A program that commutes has not taken effect at its end. -/
theorem Commutes.atomic {p : Prog μ ι κ ρ α} {Q Q' : α → μ → Prop} (h : p.Commutes M P J Q m) :
    p.Atomic M P J E Q Q' m := by
  induction p generalizing m with
  | ret a => exact h
  | act f g k ih => exact Or.inl ⟨h.1, ih (f m) h.2⟩
  | call c k ih =>
    intro r m' hr hm
    exact ⟨(h r m' hr hm).1, ih r (h r m' hr hm).2⟩

/-- Weaker postconditions. -/
theorem Covers.mono {p : Prog μ ι κ ρ α} {Q R : α → μ → Prop} (h : p.Covers M P J E Q m)
    (hQ : ∀ a m, Q a m → R a m) : p.Covers M P J E R m := by
  induction p generalizing m with
  | ret a => exact h.elim
  | act f g k ih =>
    exact ⟨h.1, h.2.imp (And.imp_right (ih (f m))) (And.imp_right fun hk => hk.mono hQ)⟩
  | call c k ih =>
    exact ⟨h.1, fun r m' hr hm => ⟨(h.2 r m' hr hm).1, ih r (h.2 r m' hr hm).2⟩⟩

theorem Atomic.mono {p : Prog μ ι κ ρ α} {Q Q' R R' : α → μ → Prop}
    (h : p.Atomic M P J E Q Q' m) (hQ : ∀ a m, Q a m → R a m) (hQ' : ∀ a m, Q' a m → R' a m) :
    p.Atomic M P J E R R' m := by
  induction p generalizing m with
  | ret a => exact hQ a m h
  | act f g k ih =>
    exact h.imp (And.imp_right (ih (f m))) (And.imp_right
      (Or.imp (fun hk => hk.mono hQ') fun hk => hk.mono hQ'))
  | call c k ih =>
    intro r m' hr hm
    exact ⟨(h r m' hr hm).1, ih r (h r m' hr hm).2⟩

section Steps

variable {f : μ → μ} {g : μ → ι → ι} {q : Unit → Prog μ ι κ ρ β}

theorem atomic_look_bind {q : μ → Prog μ ι κ ρ β} (h : (q m).Atomic M P J E Q Q' m) :
    (look >>= q).Atomic M P J E Q Q' m :=
  Or.inl ⟨swaps_id, h⟩

/-- An action that turns commute with. -/
theorem atomic_swap (hswap : Swaps M J m (f m) (g m)) (h : (q ()).Atomic M P J E Q Q' (f m)) :
    (emit f g >>= q).Atomic M P J E Q Q' m :=
  Or.inl ⟨hswap, h⟩

/-- The action at which the program takes effect. -/
theorem atomic_commit (hJ : ∀ io, J m io → J (f m) (g m io))
    (h : (q ()).Commutes M P J Q' (f m)) : (emit f g >>= q).Atomic M P J E Q Q' m :=
  Or.inr ⟨hJ, Or.inl h⟩

/-- The action behind which turns are covered. -/
theorem atomic_cover (hJ : ∀ io, J m io → J (f m) (g m io))
    (h : (q ()).Covers M P J E Q' (f m)) : (emit f g >>= q).Atomic M P J E Q Q' m :=
  Or.inr ⟨hJ, Or.inr h⟩

/-- An action that does not tell apart what `E` does not. -/
theorem covers_keep (hhide : ∀ io, J m io → E io (M.work m io))
    (hJ : ∀ io, J m io → J (f m) (g m io)) (hE : ∀ io io', E io io' → E (g m io) (g m io'))
    (h : (q ()).Covers M P J E Q (f m)) : (emit f g >>= q).Covers M P J E Q m :=
  ⟨fun io h => ⟨hhide io h, hJ io h⟩, Or.inl ⟨hE, h⟩⟩

/-- The action that makes it equal. -/
theorem covers_undo (hhide : ∀ io, J m io → E io (M.work m io))
    (hJ : ∀ io, J m io → J (f m) (g m io)) (hE : ∀ io io', E io io' → g m io = g m io')
    (h : (q ()).Commutes M P J Q (f m)) : (emit f g >>= q).Covers M P J E Q m :=
  ⟨fun io h => ⟨hhide io h, hJ io h⟩, Or.inr ⟨hE, h⟩⟩

end Steps

/-- From here on it is covered. -/
theorem Covers.hides {p : Prog μ ι κ ρ α} {Q : α → μ → Prop} (h : p.Covers M P J E Q m) {io : ι}
    (hJ : J m io) : E io (M.work m io) := by
  cases p with
  | ret a => exact h.elim
  | act f g k => exact (h.1 io hJ).1
  | call c k => exact h.1 io hJ

end Movers

end Prog

namespace Machine

variable (M : Machine μ ι κ ρ ε)

/-- The states of the runs in which the handler takes its turns between callbacks only. -/
def SeriallyUnder (P : Policy μ ι κ ρ ε) (s₀ s : Configuration μ ι κ ρ) : Prop :=
  Reaches M.step (fun s a => meets P s a ∧ (a = .work → s.Idle)) s₀ s

variable {M} {P : Policy μ ι κ ρ ε} {J : μ → ι → Prop} {E : ι → ι → Prop}
  {s₀ s : Configuration μ ι κ ρ} {m m' : μ} {io : ι}

/-- A serial run is a run. -/
theorem SeriallyUnder.reachedUnder (h : M.SeriallyUnder P s₀ s) : M.ReachedUnder P s₀ s := by
  unfold SeriallyUnder at h
  induction h with
  | refl => exact Reaches.refl
  | tail _ hok hstep ih => exact Reaches.tail ih hok.1 hstep

/-- Between two callbacks the handler may take any number of turns. -/
theorem SeriallyUnder.turns (hP : ∀ m io, P.onWork m io) {p : Prog μ ι κ ρ Unit}
    (h : M.SeriallyUnder P s₀ ⟨m, io, p⟩) (hidle : p = .ret ()) (n : ℕ) :
    M.SeriallyUnder P s₀ ⟨m, (M.work m)^[n] io, p⟩ := by
  induction n with
  | zero => exact h
  | succ n ih =>
    rw [Function.iterate_succ_apply']
    exact Reaches.tail (a := .work) ih ⟨hP _ _, fun _ => hidle⟩ rfl

/-- What turns keep, any number of turns keeps. -/
theorem turns_keep (hturn : ∀ m io, J m io → J m (M.work m io)) (h : J m io) (n : ℕ) :
    J m ((M.work m)^[n] io) := by
  induction n with
  | zero => exact h
  | succ n ih =>
    rw [Function.iterate_succ_apply']
    exact hturn m _ ih

/-- Any number of turns may be taken in front of the action as well as behind it. -/
theorem turns_swap {g : ι → ι} (hswap : Prog.Swaps M J m m' g)
    (hturn : ∀ m io, J m io → J m (M.work m io)) (h : J m io) (n : ℕ) :
    (M.work m')^[n] (g io) = g ((M.work m)^[n] io) := by
  induction n with
  | zero => rfl
  | succ n ih =>
    rw [Function.iterate_succ_apply', Function.iterate_succ_apply', ih]
    exact (hswap _ (turns_keep hturn h n)).2

/-- How a serial run comes to where the callback is: it has taken all turns before, or
some are still to be taken behind it, or what they did will be undone. -/
inductive Serialized (M : Machine μ ι κ ρ ε) (P : Policy μ ι κ ρ ε) (J : μ → ι → Prop)
    (E : ι → ι → Prop) (s₀ : Configuration μ ι κ ρ) (m : μ) (io : ι) (p : Prog μ ι κ ρ Unit) : Prop
  | before (hserial : ∀ n, M.SeriallyUnder P s₀ ⟨m, (M.work m)^[n] io, p⟩) (hJ : J m io)
      (hp : p.Atomic M P J E (fun _ _ => True) (fun _ _ => True) m)
  | behind (io' : ι) (n : ℕ) (hserial : M.SeriallyUnder P s₀ ⟨m, io', p⟩) (hJ : J m io')
      (hio : io = (M.work m)^[n] io') (hp : p.Commutes M P J (fun _ _ => True) m)
  | undone (io' : ι) (hserial : M.SeriallyUnder P s₀ ⟨m, io', p⟩) (hJ : J m io) (hJ' : J m io')
      (hE : E io' io) (hp : p.Covers M P J E (fun _ _ => True) m)

/-- Between two callbacks the serial run is there. -/
theorem Serialized.serially (hP : ∀ m io, P.onWork m io)
    (h : Serialized M P J E s₀ m io (.ret ())) : M.SeriallyUnder P s₀ ⟨m, io, .ret ()⟩ := by
  cases h with
  | before hserial => exact hserial 0
  | behind io' n hserial _ hio =>
    rw [hio]
    exact hserial.turns hP rfl n
  | undone _ _ _ _ _ hp => exact hp.elim

/-- A turn is taken. -/
theorem Serialized.turn {p : Prog μ ι κ ρ Unit} (h : Serialized M P J E s₀ m io p)
    (htrans : ∀ io io' io'', E io io' → E io' io'' → E io io'')
    (hturn : ∀ m io, J m io → J m (M.work m io)) : Serialized M P J E s₀ m (M.work m io) p := by
  cases h with
  | before hserial hJ hp =>
    refine .before (fun n => ?_) (hturn m io hJ) hp
    rw [← Function.iterate_succ_apply]
    exact hserial (n + 1)
  | behind io' n hserial hJ hio hp =>
    refine .behind io' (n + 1) hserial hJ ?_ hp
    rw [hio, Function.iterate_succ_apply']
  | undone io' hserial hJ hJ' hE hp =>
    exact .undone io' hserial (hturn m io hJ) hJ' (htrans _ _ _ hE (hp.hides hJ)) hp

/-- An action is taken. -/
theorem Serialized.tick {f : μ → μ} {g : μ → ι → ι} {k : μ → Prog μ ι κ ρ Unit}
    (h : Serialized M P J E s₀ m io (.act f g k)) (hrefl : ∀ io, E io io)
    (hturn : ∀ m io, J m io → J m (M.work m io)) :
    Serialized M P J E s₀ (f m) (g m io) (k (f m)) := by
  have htick {io : ι} (hserial : M.SeriallyUnder P s₀ ⟨m, io, .act f g k⟩) :
      M.SeriallyUnder P s₀ ⟨f m, g m io, k (f m)⟩ :=
    Reaches.tail (a := .tick) hserial ⟨rfl, nofun⟩ rfl
  cases h with
  | before hserial hJ hp =>
    rcases hp with ⟨hswap, hrest⟩ | ⟨hkeep, hrest | hrest⟩
    · refine .before (fun n => ?_) (hswap io hJ).1 hrest
      rw [turns_swap hswap hturn hJ n]
      exact htick (hserial n)
    · exact .behind _ 0 (htick (hserial 0)) (hkeep io hJ) rfl hrest
    · exact .undone _ (htick (hserial 0)) (hkeep io hJ) (hkeep io hJ) (hrefl _) hrest
  | behind io' n hserial hJ hio hp =>
    refine .behind _ n (htick hserial) (hp.1 io' hJ).1 ?_ hp.2
    rw [hio, turns_swap hp.1 hturn hJ n]
  | undone io' hserial hJ hJ' hE hp =>
    have hnext := (hp.1 io hJ).2
    have hnext' := (hp.1 io' hJ').2
    rcases hp.2 with ⟨hkeep, hrest⟩ | ⟨hequal, hrest⟩
    · exact .undone _ (htick hserial) hnext hnext' (hkeep io' io hE) hrest
    · exact .behind _ 0 (htick hserial) hnext' (hequal io' io hE).symm hrest

/-- A call is answered. -/
theorem Serialized.answer {c : κ} {k : ρ → Prog μ ι κ ρ Unit}
    (h : Serialized M P J E s₀ m io (.call c k)) (hturn : ∀ m io, J m io → J m (M.work m io))
    {r : ρ} (hr : P.onAnswer m c r) (hm : M.answer c r m = some m') :
    Serialized M P J E s₀ m' io (k r) := by
  have hanswer {io : ι} (hserial : M.SeriallyUnder P s₀ ⟨m, io, .call c k⟩) :
      M.SeriallyUnder P s₀ ⟨m', io, k r⟩ := by
    refine Reaches.tail (a := .answer r) hserial ⟨hr, nofun⟩ ?_
    simp only [step, hm, Option.map_some]
  cases h with
  | before hserial hJ hp =>
    obtain ⟨hswap, hrest⟩ := hp r m' hr hm
    refine .before (fun n => ?_) (hswap io hJ).1 hrest
    have hsame : (M.work m')^[n] io = (M.work m)^[n] io := turns_swap hswap hturn hJ n
    rw [hsame]
    exact hanswer (hserial n)
  | behind io' n hserial hJ hio hp =>
    obtain ⟨hswap, hrest⟩ := hp r m' hr hm
    refine .behind io' n (hanswer hserial) (hswap io' hJ).1 ?_ hrest
    have hsame : (M.work m')^[n] io' = (M.work m)^[n] io' := turns_swap hswap hturn hJ n
    rw [hio, hsame]
  | undone io' hserial hJ hJ' hE hp =>
    obtain ⟨hkeep, hrest⟩ := hp.2 r m' hr hm
    exact .undone io' (hanswer hserial) (hkeep io hJ) (hkeep io' hJ') hE hrest

/-- The callback that an event enters is atomic from where it starts, and the turns taken
before the event may be taken behind it. -/
def EntersAtomic (M : Machine μ ι κ ρ ε) (P : Policy μ ι κ ρ ε) (E : ι → ι → Prop)
    (p : Prog μ ι κ ρ Unit) (m : μ) (io : ι) : Prop :=
  ∃ J : μ → ι → Prop, (∀ m io, J m io → J m (M.work m io)) ∧ J m io ∧
    p.Atomic M P J E (fun _ _ => True) (fun _ _ => True) m

/-- **Where every callback is atomic, what is reached between two callbacks is reached by a
serial run.** -/
theorem seriallyUnder_of_reached {K : μ → ι → Prop} (hrefl : ∀ io, E io io)
    (htrans : ∀ io io' io'', E io io' → E io' io'' → E io io'') (hP : ∀ m io, P.onWork m io)
    (hstart : M.work s₀.main s₀.io = s₀.io)
    (hinit : EntersAtomic M P E s₀.running s₀.main s₀.io)
    (hidle : ∀ s, M.ReachedUnder P s₀ s → s.Idle → K s.main s.io)
    (henter : ∀ e m io m' io' p, K m io → P.onEvent m e → M.enter e m io = some (m', io', p) →
      M.enter e m (M.work m io) = some (m', M.work m' io', p) ∧ EntersAtomic M P E p m' io')
    (h : M.ReachedUnder P s₀ s) (hs : s.Idle) : M.SeriallyUnder P s₀ s := by
  have hinv := Reaches.invariant h
    (I := fun s => ∃ J : μ → ι → Prop, (∀ m io, J m io → J m (M.work m io)) ∧
      Serialized M P J E s₀ s.main s.io s.running) ?_ ?_
  · obtain ⟨m, io, p⟩ := s
    obtain ⟨J, -, hserialized⟩ := hinv
    cases hs
    exact hserialized.serially hP
  · obtain ⟨J, hturn, hJ, hp⟩ := hinit
    refine ⟨J, hturn, .before (fun n => ?_) hJ hp⟩
    rw [Function.iterate_fixed hstart n]
    exact Reaches.refl
  · intro t a t' ht hok hstep
    obtain ⟨m, io, p⟩ := t
    obtain ⟨J, hturn, hserialized⟩ := ht
    cases a with
    | work =>
      cases hstep
      exact ⟨J, hturn, hserialized.turn htrans hturn⟩
    | tick =>
      cases p with
      | act f g k =>
        cases hstep
        exact ⟨J, hturn, hserialized.tick hrefl hturn⟩
      | ret => cases hstep
      | call => cases hstep
    | answer r =>
      cases p with
      | call c k =>
        obtain ⟨m', hm, rfl⟩ := Option.map_eq_some_iff.mp hstep
        exact ⟨J, hturn, hserialized.answer hturn hok hm⟩
      | ret => cases hstep
      | act => cases hstep
    | event e =>
      cases p with
      | ret u =>
        obtain ⟨⟨m', io', p'⟩, hm, rfl⟩ := Option.map_eq_some_iff.mp hstep
        have hserial : M.SeriallyUnder P s₀ ⟨m, io, .ret ()⟩ := hserialized.serially hP
        have hturns (n : ℕ) :
            M.enter e m ((M.work m)^[n] io) = some (m', (M.work m')^[n] io', p') := by
          induction n with
          | zero => exact hm
          | succ n ih =>
            have hK : K m ((M.work m)^[n] io) :=
              hidle _ (hserial.turns hP rfl n).reachedUnder rfl
            rw [Function.iterate_succ_apply', Function.iterate_succ_apply']
            exact (henter e m _ m' _ p' hK hok ih).1
        have hK : K m io := hidle _ hserial.reachedUnder rfl
        obtain ⟨J', hturn', hJ', hp'⟩ := (henter e m io m' io' p' hK hok hm).2
        refine ⟨J', hturn', .before (fun n => ?_) hJ' hp'⟩
        refine Reaches.tail (a := .event e) (hserial.turns hP rfl n) ⟨hok, nofun⟩ ?_
        simp only [step, hturns n, Option.map_some]
      | act => cases hstep
      | call => cases hstep

end Machine

end Lib
