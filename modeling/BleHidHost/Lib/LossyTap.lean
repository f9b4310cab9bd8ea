import Mathlib.Algebra.Group.Nat.Even
import Mathlib.Data.List.GetD

/-!
# Taps through a lossy queue

A tap is a press and a release, offered one behind the other to a queue that may
drop either.  A release dropped behind an accepted press is owed, and retried
until it is accepted.  Whatever is dropped, a key left pressed is owed its
release; the accepted edges come in turns for as long as no press is accepted
while a release is owed.

## Main definitions

* `Alternates` — presses and releases come in turns.
* `TapKey` — the accepted edges of a key, and whether its release is owed.
* `TapKey.tap`, `TapKey.retry` — what a tap and a retry do to it.
* `TapKey.Covered`, `TapKey.Settled` — the two invariants.

## Main results

* `TapKey.covered_tap`, `TapKey.covered_retry` — a key left pressed stays owed.
* `TapKey.alternates_tap_iff` — **a tap of a settled key breaks the alternation
  exactly when its press is accepted while the release is owed.**
-/

namespace Lib

/-- Presses (`true`) and releases (`false`) come in turns, a press first. -/
def Alternates (edges : List Bool) : Prop := ∀ (n : ℕ) b, edges[n]? = some b → (b = true ↔ Even n)

theorem alternates_nil : Alternates [] := fun n b hb => by simp at hb

theorem Alternates.of_append {edges more : List Bool} (h : Alternates (edges ++ more)) :
    Alternates edges := by
  intro n b hb
  obtain ⟨hn, -⟩ := List.getElem?_eq_some_iff.mp hb
  exact h n b (by rw [List.getElem?_append_left hn, hb])

/-- One more edge is in turn when its place is that of a press or of a release. -/
theorem alternates_concat (edges : List Bool) (b : Bool) :
    Alternates (edges ++ [b]) ↔ Alternates edges ∧ (b = true ↔ Even edges.length) := by
  constructor
  · intro h
    exact ⟨h.of_append, h edges.length b (by simp)⟩
  · rintro ⟨h, hb⟩ n c hc
    rcases Nat.lt_trichotomy n edges.length with hn | rfl | hn
    · rw [List.getElem?_append_left hn] at hc
      exact h n c hc
    · rw [List.getElem?_concat_length, Option.some_inj] at hc
      rwa [← hc]
    · rw [List.getElem?_eq_none (by rw [List.length_append]; exact hn)] at hc
      cases hc

/-- Behind alternating edges the key is pressed when their number is odd. -/
theorem Alternates.last {edges : List Bool} (h : Alternates edges) :
    edges.getLastD false = true ↔ ¬ Even edges.length := by
  rcases List.eq_nil_or_concat edges with rfl | ⟨edges, b, rfl⟩
  · simp
  · rw [List.concat_eq_append] at h ⊢
    have hb := ((alternates_concat edges b).mp h).2
    rw [List.getLastD_concat, List.length_append, List.length_singleton, Nat.even_add_one, not_not]
    exact hb

/-- An edge is in turn when it changes what the key was left as. -/
theorem Alternates.concat_iff {edges : List Bool} (h : Alternates edges) (b : Bool) :
    Alternates (edges ++ [b]) ↔ b ≠ edges.getLastD false := by
  have heven : Even edges.length ↔ ¬ edges.getLastD false = true :=
    (not_iff_comm.mp h.last.symm).symm
  rw [alternates_concat, and_iff_right h, heven]
  cases b <;> cases edges.getLastD false <;> decide

/-- A key that is tapped: the accepted edges, and whether its release is owed. -/
structure TapKey where
  edges : List Bool
  owed : Bool
  deriving DecidableEq, Repr

namespace TapKey

/-- The key is left pressed. -/
def latched (k : TapKey) : Bool := k.edges.getLastD false

/-- Offer an owed release once more. -/
def retry (accepted : Bool) (k : TapKey) : TapKey :=
  if k.owed && accepted then ⟨k.edges ++ [false], false⟩ else k

/-- Offer a press and, if it is accepted, a release. -/
def tap (press release : Bool) (k : TapKey) : TapKey :=
  if press then
    if release then ⟨k.edges ++ [true, false], k.owed⟩ else ⟨k.edges ++ [true], true⟩
  else k

/-- A key left pressed is owed its release. -/
def Covered (k : TapKey) : Prop := k.latched → k.owed

/-- The edges alternate, and the release is owed exactly when the key is left pressed. -/
structure Settled (k : TapKey) : Prop where
  alternates : Alternates k.edges
  owed_eq : k.owed = k.latched

theorem settled_empty : Settled ⟨[], false⟩ := ⟨alternates_nil, rfl⟩

@[simp] theorem latched_retry (accepted : Bool) (k : TapKey) :
    (k.retry accepted).latched = (k.latched && !(k.owed && accepted)) := by
  unfold retry latched
  split
  · next h => simp [h]
  · next h => simp [h]

@[simp] theorem owed_retry (accepted : Bool) (k : TapKey) :
    (k.retry accepted).owed = (k.owed && !accepted) := by
  rcases k with ⟨edges, owed⟩
  cases owed <;> cases accepted <;> rfl

theorem owed_tap (press release : Bool) {k : TapKey} (h : k.owed = true) :
    (k.tap press release).owed = true := by
  unfold tap
  split
  · split
    · exact h
    · rfl
  · exact h

theorem covered_retry (accepted : Bool) {k : TapKey} (h : k.Covered) :
    (k.retry accepted).Covered := by
  intro hl
  rw [latched_retry, Bool.and_eq_true] at hl
  have howed : k.owed = true := h hl.1
  simpa [howed] using hl.2

theorem covered_tap (press release : Bool) {k : TapKey} (h : k.Covered) :
    (k.tap press release).Covered := by
  unfold tap
  split
  · split
    · -- the release was accepted
      intro hl
      simp [latched] at hl
    · exact fun _ => rfl
  · exact h

theorem settled_retry (accepted : Bool) {k : TapKey} (h : k.Settled) :
    (k.retry accepted).Settled where
  alternates := by
    unfold retry
    split
    · next hc =>
      -- an owed release is that of a key left pressed
      rw [Bool.and_eq_true, h.owed_eq] at hc
      apply (h.alternates.concat_iff false).mpr
      intro he
      exact absurd (he.trans hc.1) Bool.false_ne_true
    · exact h.alternates
  owed_eq := by
    rw [owed_retry, latched_retry, h.owed_eq]
    cases k.latched <;> rfl

/-- **A tap of a settled key** breaks the alternation exactly when its press is accepted
while the release is owed. -/
theorem alternates_tap_iff (press release : Bool) {k : TapKey} (h : k.Settled) :
    Alternates (k.tap press release).edges ↔ ¬ (k.owed ∧ press) := by
  have hpress : Alternates (k.edges ++ [true]) ↔ ¬ k.owed := by
    rw [h.alternates.concat_iff, h.owed_eq, latched, ne_comm, ne_eq]
  unfold tap
  cases press with
  | false => simpa using h.alternates
  | true =>
    cases release with
    | false => simpa using hpress
    | true =>
      rw [if_pos rfl, if_pos rfl, and_iff_left rfl, ← hpress]
      -- behind a press that was in turn the release is in turn
      have hboth : k.edges ++ [true, false] = k.edges ++ [true] ++ [false] := by simp
      show Alternates (k.edges ++ [true, false]) ↔ _
      rw [hboth]
      exact ⟨Alternates.of_append, fun hp => (hp.concat_iff false).mpr (by simp)⟩

theorem settled_tap {press release : Bool} {k : TapKey} (h : k.Settled)
    (hfresh : ¬ (k.owed ∧ press)) : (k.tap press release).Settled where
  alternates := (alternates_tap_iff press release h).mpr hfresh
  owed_eq := by
    unfold tap
    cases press with
    | false => exact h.owed_eq
    | true =>
      have howed : k.owed = false := by simpa using hfresh
      cases release with
      | false => simp [latched]
      | true => simp [latched, howed]

/-- A retry only appends edges. -/
theorem prefix_retry (accepted : Bool) (k : TapKey) : k.edges <+: (k.retry accepted).edges := by
  unfold retry
  split
  · exact List.prefix_append _ _
  · exact List.prefix_rfl

/-- A tap only appends edges. -/
theorem prefix_tap (press release : Bool) (k : TapKey) :
    k.edges <+: (k.tap press release).edges := by
  unfold tap
  split
  · split
    · exact List.prefix_append _ _
    · exact List.prefix_append _ _
  · exact List.prefix_rfl

end TapKey

end Lib
