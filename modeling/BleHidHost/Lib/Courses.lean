import Mathlib.Data.Nat.Notation
import BleHidHost.Lib.Callback

/-!
# What a run can come to

`Prog.Safe` is about every answer that a callback may be given.  Where no call is left
without an answer the callback comes to its end, so what is known of its end can be
reached; and where the events may be chosen, runs are put together of such callbacks.

## Main definitions

* `Machine.Answered` — under a policy every call has some answer.
* `Machine.ComesTo` — some run comes to rest in a state with a property.

## Main results

* `Machine.comesTo_of_safe` — a callback that is answered comes to its end.
* `Machine.ComesTo.next` — **one run goes on where another has come to rest.**
* `Machine.ComesTo.of_measure` — what can be made smaller can be brought to its end.
-/

namespace Lib

namespace Machine

variable {μ ι κ ρ ε : Type} {M : Machine μ ι κ ρ ε} {P : Policy μ ι κ ρ ε} {J : μ → ι → Prop}
  {s : Configuration μ ι κ ρ} {Q R : μ → Prop}

variable (M P) in
/-- Every call can be given an answer that meets the policy. -/
def Answered : Prop := ∀ m c, ∃ r m', P.onAnswer m c r ∧ M.answer c r m = some m'

variable (M P) in
/-- Some run from here whose steps all meet the policy comes to rest, with no callback
running, in a main state that `Q` holds of. -/
def ComesTo (s : Configuration μ ι κ ρ) (Q : μ → Prop) : Prop :=
  ∃ t, M.ReachedUnder P s t ∧ t.Idle ∧ Q t.main

theorem ComesTo.rest (hidle : s.Idle) (h : Q s.main) : M.ComesTo P s Q :=
  ⟨s, Reaches.refl, hidle, h⟩

theorem ComesTo.mono (h : M.ComesTo P s Q) (hQ : ∀ m, Q m → R m) : M.ComesTo P s R := by
  obtain ⟨t, ht, hidle, hm⟩ := h
  exact ⟨t, ht, hidle, hQ _ hm⟩

/-- **One run goes on where another has come to rest.** -/
theorem ComesTo.next (h : M.ComesTo P s Q)
    (hnext : ∀ t, M.ReachedUnder P s t → t.Idle → Q t.main → M.ComesTo P t R) :
    M.ComesTo P s R := by
  obtain ⟨t, ht, hidle, hQ⟩ := h
  obtain ⟨u, hu, hidle', hR⟩ := hnext t ht hidle hQ
  exact ⟨u, ht.trans hu, hidle', hR⟩

/-- **A callback that is answered comes to its end.** -/
theorem comesTo_of_safe (hans : M.Answered P) (h : s.running.Safe M P J (fun _ => Q) s.main) :
    M.ComesTo P s Q := by
  obtain ⟨m, io, p⟩ := s
  induction p generalizing m io with
  | ret u => exact ComesTo.rest rfl h
  | act f g k ih =>
    obtain ⟨t, ht, hend⟩ := ih (f m) (f m) (g m io) h.2
    have hstep : M.ReachedUnder P ⟨m, io, .act f g k⟩ ⟨f m, g m io, k (f m)⟩ :=
      Reaches.tail (a := .tick) Reaches.refl rfl rfl
    exact ⟨t, hstep.trans ht, hend⟩
  | call c k ih =>
    obtain ⟨r, m', hr, hm⟩ := hans m c
    obtain ⟨t, ht, hend⟩ := ih r m' io (h r m' hr hm).2
    have hstep : M.ReachedUnder P ⟨m, io, .call c k⟩ ⟨m', io, k r⟩ := by
      refine Reaches.tail (a := .answer r) Reaches.refl hr ?_
      simp only [step, hm, Option.map_some]
    exact ⟨t, hstep.trans ht, hend⟩

/-- The handler may run any number of times where it may run at all. -/
theorem along_work (hwork : ∀ m io, P.onWork m io) (n : ℕ) (s : Configuration μ ι κ ρ) :
    Along M.step (fun s a => meets P s a) (List.replicate n .work) s := by
  induction n generalizing s with
  | zero => trivial
  | succ n ih => exact ⟨hwork s.main s.io, fun t _ => ih t⟩

/-- **An event leads on**, through the callback that it enters. -/
theorem comesTo_event {e : ε} {m' : μ} {io' : ι} {p : Prog μ ι κ ρ Unit} (hans : M.Answered P)
    (hidle : s.Idle) (hok : P.onEvent s.main e) (henter : M.enter e s.main s.io = some (m', io', p))
    (hp : p.Safe M P J (fun _ => Q) m') : M.ComesTo P s Q := by
  obtain ⟨m, io, q⟩ := s
  cases hidle
  have hentered : M.ReachedUnder P ⟨m, io, .ret ()⟩ ⟨m', io', p⟩ := by
    refine Reaches.tail (a := .event e) Reaches.refl hok ?_
    simp only [step, henter, Option.map_some]
  obtain ⟨t, ht, hend⟩ := comesTo_of_safe (s := ⟨m', io', p⟩) hans hp
  exact ⟨t, hentered.trans ht, hend⟩

/-- **What can be made smaller can be brought to its end.** -/
theorem ComesTo.of_measure (f : μ → ℕ) {I : μ → Prop} (h : M.ComesTo P s I)
    (hnext : ∀ t, M.ReachedUnder P s t → t.Idle → I t.main →
      Q t.main ∨ M.ComesTo P t fun m => I m ∧ f m < f t.main) : M.ComesTo P s Q := by
  obtain ⟨t, ht, hidle, hI⟩ := h
  -- by induction on the measure of the state that the run has come to
  induction hn : f t.main using Nat.strongRecOn generalizing t with
  | _ n ih =>
    subst hn
    rcases hnext t ht hidle hI with hQ | ⟨u, hu, hidle', hI', hlt⟩
    · exact ⟨t, ht, hidle, hQ⟩
    · exact ih _ hlt u (ht.trans hu) hidle' hI' rfl

end Machine

end Lib
