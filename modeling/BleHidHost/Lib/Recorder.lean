import Mathlib.Data.List.Basic

/-!
# Recorders whose first entry wins

A recorder folds a list of inputs into an output.  Each input may declare some
fields; a field becomes present with the first input that declares it and stays.
Beside its fields the output carries one tag, taken over from the inputs for as
long as it is zero and no closing field is present.

## Main definitions

* `Recorder` — one recording step and the laws it obeys.
* `Recorder.lockOf` — the input tag the output's tag is locked to.

## Main results

* `Recorder.present_run` — a field is present when some input declares it.
* `Recorder.lock_run` — **the tag of the output is `lockOf` of the inputs.**
* `Recorder.find?_declares_of_split` — the input that records a field is the
  first one to declare it.
-/

namespace Lib

/-- A recorder of inputs `ω` into outputs `ο` with fields `σ` and tags `ι`. -/
structure Recorder (ω ο σ ι : Type) [Zero ι] [DecidableEq ι] where
  /-- Record one input. -/
  record : ω → ο → ο
  /-- The field is present in the output. -/
  present : ο → σ → Bool
  /-- The input declares the field. -/
  declares : ω → σ → Bool
  /-- Some closing field is present in the output. -/
  closed : ο → Bool
  /-- The input declares some closing field. -/
  closes : ω → Bool
  /-- The tag of an input. -/
  tag : ω → ι
  /-- The tag of the output. -/
  lock : ο → ι
  present_record : ∀ w o s, present (record w o) s = (present o s || declares w s)
  closed_record : ∀ w o, closed (record w o) = (closed o || closes w)
  lock_record : ∀ w o, lock (record w o) = if lock o = 0 ∧ closed o = false then tag w else lock o

namespace Recorder

variable {ω ο σ ι : Type} [Zero ι] [DecidableEq ι] (r : Recorder ω ο σ ι)

/-- Record a list of inputs in order. -/
def run (ws : List ω) (o : ο) : ο := ws.foldl (fun o w => r.record w o) o

/-- The tag the output is locked to: that of the first input with a nonzero tag
or a closing field. -/
def lockOf : List ω → ι
  | [] => 0
  | w :: ws => if r.tag w ≠ 0 ∨ r.closes w then r.tag w else lockOf ws

@[simp] theorem run_nil (o : ο) : r.run [] o = o := rfl

@[simp] theorem run_cons (w : ω) (ws : List ω) (o : ο) :
    r.run (w :: ws) o = r.run ws (r.record w o) := rfl

theorem run_append (ws ws' : List ω) (o : ο) : r.run (ws ++ ws') o = r.run ws' (r.run ws o) := by
  simp [run, List.foldl_append]

/-- **A field is present when it was before or some input declares it.** -/
theorem present_run (ws : List ω) (o : ο) (s : σ) :
    r.present (r.run ws o) s = (r.present o s || ws.any (r.declares · s)) := by
  induction ws generalizing o with
  | nil => simp
  | cons w ws ih => rw [run_cons, ih, r.present_record, List.any_cons, Bool.or_assoc]

/-- A tag that is set, or closed over, stays. -/
theorem lock_run_of_locked (ws : List ω) (o : ο) (h : ¬ (r.lock o = 0 ∧ r.closed o = false)) :
    r.lock (r.run ws o) = r.lock o := by
  induction ws generalizing o with
  | nil => rfl
  | cons w ws ih =>
    have hstep : r.lock (r.record w o) = r.lock o := by rw [r.lock_record, if_neg h]
    rw [run_cons, ih (r.record w o), hstep]
    rw [hstep, r.closed_record]
    rintro ⟨h0, hc⟩
    exact h ⟨h0, (Bool.or_eq_false_iff.mp hc).1⟩

/-- **The tag of the output is `lockOf` of the inputs.** -/
theorem lock_run (ws : List ω) (o : ο) (h : r.lock o = 0) (hc : r.closed o = false) :
    r.lock (r.run ws o) = r.lockOf ws := by
  induction ws generalizing o with
  | nil => exact h
  | cons w ws ih =>
    have hstep : r.lock (r.record w o) = r.tag w := by rw [r.lock_record, if_pos ⟨h, hc⟩]
    have hclosed : r.closed (r.record w o) = r.closes w := by
      rw [r.closed_record, hc, Bool.false_or]
    rw [run_cons, lockOf]
    by_cases hw : r.tag w ≠ 0 ∨ r.closes w = true
    · -- this input locks the tag
      rw [if_pos hw, r.lock_run_of_locked ws _ (by rw [hstep, hclosed]; grind), hstep]
    · -- the tag is still zero and open
      rw [if_neg hw]
      push Not at hw
      exact ih _ (by rw [hstep]; exact hw.1) (by rw [hclosed]; simpa using hw.2)

/-- **The input that records a field is the first one to declare it.** -/
theorem find?_declares_of_split {ws pre post : List ω} {w : ω} {o : ο} {s : σ}
    (hws : ws = pre ++ w :: post) (habs : r.present (r.run pre o) s = false)
    (hpres : r.present (r.record w (r.run pre o)) s = true) :
    ws.find? (r.declares · s) = some w := by
  -- absent behind `pre`: no input of `pre` declares the field
  rw [r.present_run, Bool.or_eq_false_iff] at habs
  rw [r.present_record, r.present_run, habs.1, habs.2, Bool.false_or, Bool.false_or] at hpres
  rw [hws, List.find?_append, List.find?_cons, hpres, List.find?_eq_none.mpr, Option.none_or]
  intro a ha hd
  have := List.any_eq_false.mp habs.2 a ha
  contradiction

end Recorder

end Lib
