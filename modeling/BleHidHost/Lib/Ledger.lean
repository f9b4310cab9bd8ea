import Mathlib.Data.List.Basic
import Mathlib.Data.List.Pairwise

/-!
# The ledger of a bounded queue

A bounded queue rejects what it has no room for, and is purged now and then.  Its ledger
has an entry for every item that was ever offered, in the order they were offered, with
what has become of it.  That the queue is a queue is said of the ledger: the items that
wait stand behind all that were taken.

## Main definitions

* `Fate` — what has become of an item.
* `Ledger` — a ledger that a queue of this capacity can have.
* `Ledger.put`, `Ledger.take`, `Ledger.purge` — the operations.

## Main results

* `Ledger.those_put`, `Ledger.waiting_take`, `Ledger.taken_take`, `Ledger.waiting_purge`,
  `Ledger.purged_purge` — what the operations do to the items of a fate.
* `Ledger.length_items` — every item has one fate.
* `Ledger.used_waiting_sublist` — **what was used and what waits stand in the order in which
  they were offered.**
-/

namespace Lib

/-- What has become of an item that was offered to a queue. -/
inductive Fate
  /-- It is in the queue. -/
  | waiting
  /-- It was taken from the queue, and used or not. -/
  | taken (used : Bool)
  /-- It was in the queue when that was purged. -/
  | purged
  /-- There was no room for it. -/
  | rejected
  deriving DecidableEq, Repr

variable {α : Type}

/-- The items of this fate. -/
def those (f : Fate) (L : List (α × Fate)) : List α := (L.filter fun e => e.2 = f).map Prod.fst

@[simp] theorem those_nil (f : Fate) : those f ([] : List (α × Fate)) = [] := rfl

@[simp] theorem those_cons (f : Fate) (e : α × Fate) (L : List (α × Fate)) :
    those f (e :: L) = if e.2 = f then e.1 :: those f L else those f L := by
  unfold those
  rw [List.filter_cons]
  by_cases h : e.2 = f <;> simp [h]

@[simp] theorem those_append (f : Fate) (L L' : List (α × Fate)) :
    those f (L ++ L') = those f L ++ those f L' := by
  simp [those]

/-- Nothing of this fate. -/
theorem those_eq_nil {f : Fate} {L : List (α × Fate)} (h : ∀ e ∈ L, e.2 ≠ f) : those f L = [] := by
  unfold those
  rw [List.filter_eq_nil_iff.mpr, List.map_nil]
  intro e he
  simpa using h e he

/-- What waits stands behind all that was taken or purged. -/
def InOrder (L : List (α × Fate)) : Prop :=
  L.Pairwise fun e e' => e.2 = .waiting → e'.2 = .waiting ∨ e'.2 = .rejected

/-- What was rejected stands behind as many items that were not as the queue can hold. -/
def Crowded (cap : ℕ) (L : List (α × Fate)) : Prop :=
  ∀ i a, L[i]? = some (a, .rejected) → cap ≤ (L.take i).countP fun e => e.2 ≠ .rejected

section Entries

variable {cap : ℕ} {L L' : List (α × Fate)}

/-- Nothing behind what waits was taken or purged. -/
theorem InOrder.those_behind {a : α} (h : InOrder ((a, .waiting) :: L)) {f : Fate}
    (hwait : f ≠ .waiting) (hrejected : f ≠ .rejected) : those f L = [] := by
  apply those_eq_nil
  rintro e he rfl
  rcases (List.pairwise_cons.mp h).1 e he rfl with h | h
  · exact hwait h
  · exact hrejected h

/-- What was used and what waits stand in the order of the entries. -/
theorem InOrder.used_waiting_sublist (h : InOrder L) :
    (those (.taken true) L ++ those .waiting L).Sublist (L.map Prod.fst) := by
  induction L with
  | nil => exact List.Sublist.slnil
  | cons e es ih =>
    obtain ⟨a, f⟩ := e
    have hes := ih (List.pairwise_cons.mp h).2
    cases f with
    | waiting =>
      have hnone : those (.taken true) es = [] := h.those_behind (by simp) (by simp)
      rw [hnone, List.nil_append] at hes
      simpa [hnone] using hes
    | taken used =>
      cases used with
      | true => simpa using hes
      | false => simpa using hes.cons a
    | purged => simpa using hes.cons a
    | rejected => simpa using hes.cons a

/-- Every entry has one fate. -/
theorem length_eq_those (L : List (α × Fate)) :
    L.length = (those .waiting L).length + (those (.taken true) L).length +
      (those (.taken false) L).length + (those .purged L).length + (those .rejected L).length := by
  induction L with
  | nil => rfl
  | cons e es ih =>
    obtain ⟨a, f⟩ := e
    rw [List.length_cons, ih]
    cases f with
    | taken used => cases used <;> simp <;> omega
    | waiting => simp; omega
    | purged => simp; omega
    | rejected => simp; omega

/-- Whether the items were rejected is all that counts. -/
theorem Crowded.congr (h : Crowded cap L)
    (heq : L'.map (fun e => decide (e.2 = .rejected)) =
      L.map fun e => decide (e.2 = .rejected)) : Crowded cap L' := by
  intro i a hi
  have hcount (M : List (α × Fate)) : (M.take i).countP (fun e => e.2 ≠ .rejected) =
      ((M.map fun e => decide (e.2 = .rejected)).take i).countP (fun r => r = false) := by
    rw [← List.map_take, List.countP_map]
    apply List.countP_congr
    simp
  have hrejected : (L.map fun e => decide (e.2 = .rejected))[i]? = some true := by
    rw [← heq, List.getElem?_map, hi]
    rfl
  rw [List.getElem?_map, Option.map_eq_some_iff] at hrejected
  obtain ⟨⟨b, f⟩, hb, hf⟩ := hrejected
  have hrejected : f = .rejected := of_decide_eq_true hf
  subst hrejected
  rw [hcount, heq, ← hcount]
  exact h i b hb

/-- Fewer items wait than were not rejected. -/
theorem length_waiting_le (L : List (α × Fate)) :
    (those .waiting L).length ≤ L.countP fun e => e.2 ≠ .rejected := by
  rw [those, List.length_map, ← List.countP_eq_length_filter]
  apply List.countP_mono_left
  intro e _ he
  simp only [decide_eq_true_eq] at he
  simp [he]

/-- What is offered stands behind all that waits. -/
theorem InOrder.concat (h : InOrder L) {f : Fate} (a : α) (hf : f = .waiting ∨ f = .rejected) :
    InOrder (L ++ [(a, f)]) := by
  refine List.pairwise_append.mpr ⟨h, List.pairwise_singleton _ _, ?_⟩
  intro e _ e' he' _
  obtain rfl := List.mem_singleton.mp he'
  exact hf

/-- What is offered is rejected only behind as many. -/
theorem Crowded.concat (h : Crowded cap L) {f : Fate} (a : α)
    (hf : f = .rejected → cap ≤ (those .waiting L).length) : Crowded cap (L ++ [(a, f)]) := by
  intro i b hi
  rcases Nat.lt_trichotomy i L.length with hlt | rfl | hgt
  · rw [List.getElem?_append_left hlt] at hi
    rw [List.take_append_of_le_length (Nat.le_of_lt hlt)]
    exact h i b hi
  · rw [List.getElem?_concat_length, Option.some_inj, Prod.mk.injEq] at hi
    rw [List.take_left]
    exact Nat.le_trans (hf hi.2) (length_waiting_le L)
  · rw [List.getElem?_eq_none] at hi
    · cases hi
    · rw [List.length_append]
      exact hgt

/-! ### Taking -/

/-- The first item that waits is taken. -/
def takeFirst (used : Bool) : List (α × Fate) → List (α × Fate)
  | [] => []
  | (a, .waiting) :: L => (a, .taken used) :: L
  | e :: L => e :: takeFirst used L

/-- What does not wait is passed over. -/
theorem takeFirst_cons {used : Bool} {a : α} {f : Fate} (h : f ≠ .waiting) :
    takeFirst used ((a, f) :: L) = (a, f) :: takeFirst used L := by
  cases f with
  | waiting => exact absurd rfl h
  | taken | purged | rejected => rfl

theorem map_takeFirst {β : Type} (used : Bool) (g : α × Fate → β)
    (hg : ∀ a, g (a, .taken used) = g (a, .waiting)) (L : List (α × Fate)) :
    (takeFirst used L).map g = L.map g := by
  induction L with
  | nil => rfl
  | cons e es ih =>
    obtain ⟨a, f⟩ := e
    by_cases h : f = .waiting
    · subst h
      simp [takeFirst, hg]
    · rw [takeFirst_cons h, List.map_cons, List.map_cons, ih]

/-- The first that waits does so no longer. -/
theorem those_waiting_takeFirst (used : Bool) (L : List (α × Fate)) :
    those .waiting (takeFirst used L) = (those .waiting L).tail := by
  induction L with
  | nil => rfl
  | cons e es ih =>
    obtain ⟨a, f⟩ := e
    by_cases h : f = .waiting
    · subst h
      simp [takeFirst]
    · simp [takeFirst_cons h, h, ih]

/-- It is now the last that was taken. -/
theorem those_taken_takeFirst (h : InOrder L) (used : Bool) :
    those (.taken used) (takeFirst used L) =
      those (.taken used) L ++ (those .waiting L).head?.toList := by
  induction L with
  | nil => rfl
  | cons e es ih =>
    obtain ⟨a, f⟩ := e
    by_cases hf : f = .waiting
    · subst hf
      have hnone : those (.taken used) es = [] := h.those_behind (by simp) (by simp)
      simp [takeFirst, hnone]
    · rw [takeFirst_cons hf, those_cons, ih (List.pairwise_cons.mp h).2]
      by_cases hused : f = .taken used
      · simp [hused]
      · simp [hused, hf]

/-- No other fate changes. -/
theorem those_takeFirst {f : Fate} {used : Bool} (hwait : f ≠ .waiting) (htaken : f ≠ .taken used)
    (L : List (α × Fate)) : those f (takeFirst used L) = those f L := by
  induction L with
  | nil => rfl
  | cons e es ih =>
    obtain ⟨a, f'⟩ := e
    by_cases h : f' = .waiting
    · subst h
      simp [takeFirst, hwait.symm, htaken.symm]
    · simp [takeFirst_cons h, ih]

/-- What is taken stands before all that waits. -/
theorem InOrder.takeFirst (h : InOrder L) (used : Bool) : InOrder (takeFirst used L) := by
  induction L with
  | nil => exact .nil
  | cons e es ih =>
    obtain ⟨a, f⟩ := e
    obtain ⟨hhead, htail⟩ := List.pairwise_cons.mp h
    by_cases hf : f = .waiting
    · subst hf
      exact List.pairwise_cons.mpr ⟨fun _ _ hwait => Fate.noConfusion hwait, htail⟩
    · rw [takeFirst_cons hf]
      exact List.pairwise_cons.mpr ⟨fun _ _ hwait => absurd hwait hf, ih htail⟩

/-! ### Purging -/

/-- What becomes of an entry at a purge. -/
def purgeEntry (e : α × Fate) : α × Fate := if e.2 = .waiting then (e.1, .purged) else e

@[simp] theorem purgeEntry_fst (e : α × Fate) : (purgeEntry e).1 = e.1 := by
  unfold purgeEntry
  split <;> rfl

theorem purgeEntry_ne_waiting (e : α × Fate) : (purgeEntry e).2 ≠ .waiting := by
  unfold purgeEntry
  split
  · exact Fate.noConfusion
  · next h => exact h

/-- No other fate changes. -/
theorem purgeEntry_snd {f : Fate} (hwait : f ≠ .waiting) (hpurged : f ≠ .purged) (e : α × Fate) :
    (purgeEntry e).2 = f ↔ e.2 = f := by
  unfold purgeEntry
  split
  · next h => simp [h, hwait.symm, hpurged.symm]
  · rfl

theorem those_purge {f : Fate} (hwait : f ≠ .waiting) (hpurged : f ≠ .purged)
    (L : List (α × Fate)) : those f (L.map purgeEntry) = those f L := by
  induction L with
  | nil => rfl
  | cons e es ih => simp [ih, purgeEntry_snd hwait hpurged]

/-- What waited is now the last that was purged. -/
theorem those_purged_purge (h : InOrder L) :
    those .purged (L.map purgeEntry) = those .purged L ++ those .waiting L := by
  induction L with
  | nil => rfl
  | cons e es ih =>
    obtain ⟨a, f⟩ := e
    have hes := ih (List.pairwise_cons.mp h).2
    by_cases hf : f = .waiting
    · subst hf
      have hnone : those .purged es = [] := h.those_behind (by simp) (by simp)
      rw [hnone, List.nil_append] at hes
      simp [purgeEntry, hes, hnone]
    · by_cases hpurged : f = .purged
      · subst hpurged
        simp [purgeEntry, hes]
      · simp [purgeEntry, hf, hpurged, hes]

end Entries

/-- A ledger of a queue of this capacity. -/
structure Ledger (α : Type) (cap : ℕ) where
  entries : List (α × Fate)
  inOrder : InOrder entries
  crowded : Crowded cap entries
  bounded : (those .waiting entries).length ≤ cap

namespace Ledger

variable {cap : ℕ} (L : Ledger α cap)

/-- All that was offered. -/
def items : List α := L.entries.map Prod.fst

/-- The items of this fate. -/
def those (f : Fate) : List α := Lib.those f L.entries

/-- Every item has one fate. -/
theorem length_items :
    L.items.length = (L.those .waiting).length + (L.those (.taken true)).length +
      (L.those (.taken false)).length + (L.those .purged).length + (L.those .rejected).length := by
  rw [items, List.length_map]
  exact length_eq_those L.entries

/-- **What was used and what waits stand in the order in which they were offered.** -/
theorem used_waiting_sublist : (L.those (.taken true) ++ L.those .waiting).Sublist L.items :=
  L.inOrder.used_waiting_sublist

/-- Nothing was offered. -/
def empty (α : Type) (cap : ℕ) : Ledger α cap where
  entries := []
  inOrder := .nil
  crowded i a h := by simp at h
  bounded := Nat.zero_le _

/-- What becomes of an item that is offered. -/
def verdict : Fate := if (L.those .waiting).length < cap then .waiting else .rejected

theorem verdict_of_lt {L : Ledger α cap} (h : (L.those .waiting).length < cap) :
    L.verdict = .waiting :=
  if_pos h

theorem verdict_of_not_lt {L : Ledger α cap} (h : ¬ (L.those .waiting).length < cap) :
    L.verdict = .rejected :=
  if_neg h

/-- An item is offered. -/
def put (a : α) : Ledger α cap where
  entries := L.entries ++ [(a, L.verdict)]
  inOrder := by
    apply L.inOrder.concat
    unfold verdict
    split
    · exact Or.inl rfl
    · exact Or.inr rfl
  crowded := by
    apply L.crowded.concat
    intro hrejected
    by_contra hroom
    rw [verdict_of_lt (Nat.lt_of_not_le hroom)] at hrejected
    cases hrejected
  bounded := by
    rw [those_append, List.length_append]
    by_cases hroom : (L.those .waiting).length < cap
    · rw [verdict_of_lt hroom]
      exact hroom
    · rw [verdict_of_not_lt hroom]
      exact L.bounded

@[simp] theorem items_put (a : α) : (L.put a).items = L.items ++ [a] := by simp [items, put]

@[simp] theorem those_put (a : α) (f : Fate) :
    (L.put a).those f = L.those f ++ if L.verdict = f then [a] else [] := by
  simp only [those, put, those_append, those_cons, those_nil]

/-- The first item that waits is taken. -/
def take (used : Bool) : Ledger α cap where
  entries := takeFirst used L.entries
  inOrder := L.inOrder.takeFirst used
  crowded := L.crowded.congr (map_takeFirst used _ (by simp) L.entries)
  bounded := by
    rw [those_waiting_takeFirst]
    exact Nat.le_trans (List.tail_sublist _).length_le L.bounded

@[simp] theorem items_take (used : Bool) : (L.take used).items = L.items :=
  map_takeFirst used _ (fun _ => rfl) L.entries

@[simp] theorem waiting_take (used : Bool) :
    (L.take used).those .waiting = (L.those .waiting).tail :=
  those_waiting_takeFirst used L.entries

theorem taken_take (used : Bool) :
    (L.take used).those (.taken used) =
      L.those (.taken used) ++ (L.those .waiting).head?.toList :=
  those_taken_takeFirst L.inOrder used

theorem those_take {f : Fate} {used : Bool} (hwait : f ≠ .waiting) (htaken : f ≠ .taken used) :
    (L.take used).those f = L.those f :=
  those_takeFirst hwait htaken L.entries

/-- The queue is purged. -/
def purge : Ledger α cap where
  entries := L.entries.map purgeEntry
  inOrder := List.pairwise_map.mpr (List.pairwise_of_forall fun e _ hwait =>
    absurd hwait (purgeEntry_ne_waiting e))
  crowded := by
    apply L.crowded.congr
    rw [List.map_map]
    apply List.map_congr_left
    intro e _
    simp [purgeEntry_snd (f := .rejected)]
  bounded := by
    rw [those_eq_nil]
    · exact Nat.zero_le _
    · intro e he
      obtain ⟨e', -, rfl⟩ := List.mem_map.mp he
      exact purgeEntry_ne_waiting e'

@[simp] theorem items_purge : L.purge.items = L.items := by
  simp [items, purge, Function.comp_def]

@[simp] theorem waiting_purge : L.purge.those .waiting = [] := by
  apply those_eq_nil
  intro e he
  obtain ⟨e', -, rfl⟩ := List.mem_map.mp he
  exact purgeEntry_ne_waiting e'

theorem purged_purge : L.purge.those .purged = L.those .purged ++ L.those .waiting :=
  those_purged_purge L.inOrder

theorem those_purge {f : Fate} (hwait : f ≠ .waiting) (hpurged : f ≠ .purged) :
    L.purge.those f = L.those f :=
  Lib.those_purge hwait hpurged L.entries

end Ledger

end Lib
