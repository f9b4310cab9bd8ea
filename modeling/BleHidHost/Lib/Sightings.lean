import Mathlib.Data.List.Induction
import Mathlib.Data.List.Nodup

/-!
# A table for the first that are seen

A history of sightings, each of a key and with a flag, behind a table of so many rows: a
key that is seen first takes a row while there is one, and its row remembers whether the
key was flagged.  A sighting that tells more than the table does is reported.

## Main definitions

* `firstSeen` — the keys that the table holds.
* `Novel` — a sighting tells more than the table does.
* `told` — the reports of a history.

## Main results

* `firstSeen_concat` — what one more sighting makes of the table.
* `count_told_le`, `count_told_of_notMem` — **a key with a row is reported twice at most,
  and a key without one every time.**
-/

namespace Lib

variable {κ : Type} [DecidableEq κ] {n : ℕ} {h xs : List (κ × Bool)} {x : κ × Bool} {k : κ}

/-! ### The table -/

/-- The keys that `n` rows hold: the first that were seen, each once. -/
def firstSeen (n : ℕ) (h : List (κ × Bool)) : List κ := (h.map Prod.fst).eraseDups.take n

theorem firstSeen_nil : firstSeen n ([] : List (κ × Bool)) = [] := List.take_nil

theorem length_firstSeen_le (n : ℕ) (h : List (κ × Bool)) : (firstSeen n h).length ≤ n :=
  List.length_take_le _ _

theorem seen_of_mem_firstSeen (hk : k ∈ firstSeen n h) : k ∈ h.map Prod.fst :=
  List.mem_eraseDups.mp (List.mem_of_mem_take hk)

/-- A key that was seen, and has no row, found them all taken. -/
theorem length_firstSeen_of_notMem (hk : k ∈ h.map Prod.fst) (hrow : k ∉ firstSeen n h) :
    (firstSeen n h).length = n := by
  have hmem : k ∈ (h.map Prod.fst).eraseDups := List.mem_eraseDups.mpr hk
  rw [firstSeen, List.length_take]
  by_contra hne
  have hle : (h.map Prod.fst).eraseDups.length ≤ n := by omega
  rw [firstSeen, List.take_of_length_le hle] at hrow
  exact hrow hmem

theorem eraseDups_concat (ks : List κ) (k : κ) : (ks ++ [k]).eraseDups =
    if k ∈ ks then ks.eraseDups else ks.eraseDups ++ [k] := by
  rw [List.eraseDups_append]
  by_cases hk : k ∈ ks
  · rw [if_pos hk]
    simp [List.removeAll, hk]
  · rw [if_neg hk]
    simp [List.removeAll, hk, List.eraseDups_cons]

theorem nodup_eraseDups (ks : List κ) : ks.eraseDups.Nodup := by
  induction ks using List.reverseRecOn with
  | nil => exact List.nodup_nil
  | append_singleton ks k ih =>
    rw [eraseDups_concat]
    split
    · exact ih
    · next hk =>
      rw [← List.concat_eq_append]
      exact List.Nodup.concat (mt List.mem_eraseDups.mp hk) ih

theorem nodup_firstSeen (n : ℕ) (h : List (κ × Bool)) : (firstSeen n h).Nodup :=
  (nodup_eraseDups _).sublist (List.take_sublist _ _)

/-- A key that has no row takes one while there is one. -/
theorem firstSeen_concat : firstSeen n (h ++ [x]) =
    if x.1 ∈ firstSeen n h ∨ (firstSeen n h).length = n then firstSeen n h
    else firstSeen n h ++ [x.1] := by
  have hnext : firstSeen n (h ++ [x]) =
      (if x.1 ∈ h.map Prod.fst then (h.map Prod.fst).eraseDups
        else (h.map Prod.fst).eraseDups ++ [x.1]).take n := by
    rw [firstSeen, List.map_append, List.map_singleton, eraseDups_concat]
  rw [hnext]
  by_cases hseen : x.1 ∈ h.map Prod.fst
  · rw [if_pos hseen, if_pos]
    · rfl
    · by_cases hrow : x.1 ∈ firstSeen n h
      · exact Or.inl hrow
      · exact Or.inr (length_firstSeen_of_notMem hseen hrow)
  · rw [if_neg hseen]
    have hrow : x.1 ∉ firstSeen n h := fun hrow => hseen (seen_of_mem_firstSeen hrow)
    have hlen : (firstSeen n h).length = min n (h.map Prod.fst).eraseDups.length :=
      List.length_take
    by_cases hfull : (firstSeen n h).length = n
    · rw [if_pos (Or.inr hfull), List.take_append_of_le_length (by omega), firstSeen]
    · have hroom : (h.map Prod.fst).eraseDups.length < n := by omega
      rw [if_neg (not_or.mpr ⟨hrow, hfull⟩), firstSeen, List.take_of_length_le (Nat.le_of_lt hroom),
        List.take_of_length_le]
      rw [List.length_append, List.length_singleton]
      exact hroom

/-- A row is kept. -/
theorem mem_firstSeen_concat (hk : k ∈ firstSeen n h) : k ∈ firstSeen n (h ++ [x]) := by
  rw [firstSeen_concat]
  split
  · exact hk
  · exact List.mem_append_left _ hk

/-- The sighting that gives a key its row is its first. -/
theorem first_of_mem_firstSeen_concat (hk : k ∈ firstSeen n (h ++ [x]))
    (hnot : k ∉ firstSeen n h) : x.1 = k ∧ k ∉ h.map Prod.fst := by
  rw [firstSeen_concat] at hk
  split at hk
  · exact absurd hk hnot
  · next hroom =>
    obtain ⟨-, hfull⟩ := not_or.mp hroom
    have heq : k = x.1 := by simpa [hnot] using hk
    exact ⟨heq.symm, fun hseen => hfull (length_firstSeen_of_notMem hseen hnot)⟩

/-! ### What is reported -/

/-- A sighting tells more than the table: its key has no row, or is flagged for the first
time. -/
def Novel (n : ℕ) (h : List (κ × Bool)) (x : κ × Bool) : Prop :=
  x.1 ∉ firstSeen n h ∨ x.2 ∧ (x.1, true) ∉ h

instance (n : ℕ) (h : List (κ × Bool)) (x : κ × Bool) : Decidable (Novel n h x) :=
  inferInstanceAs (Decidable (_ ∨ _ ∧ _))

/-- The keys reported of the sightings behind a history. -/
def told (n : ℕ) : List (κ × Bool) → List (κ × Bool) → List κ
  | _, [] => []
  | h, x :: xs => (if Novel n h x then [x.1] else []) ++ told n (h ++ [x]) xs

theorem told_concat (h xs : List (κ × Bool)) (x : κ × Bool) : told n h (xs ++ [x]) =
    told n h xs ++ if Novel n (h ++ xs) x then [x.1] else [] := by
  induction xs generalizing h with
  | nil => simp [told]
  | cons y ys ih =>
    rw [List.cons_append, told, told, ih, List.append_assoc, List.append_assoc,
      List.singleton_append]

/-- What is reported was seen. -/
theorem told_sublist (h xs : List (κ × Bool)) : (told n h xs).Sublist (xs.map Prod.fst) := by
  induction xs generalizing h with
  | nil => exact List.Sublist.refl _
  | cons x xs ih =>
    rw [told]
    split
    · exact (ih _).cons_cons _
    · exact (ih _).cons _

theorem count_told_concat (xs : List (κ × Bool)) (x : κ × Bool) (k : κ) :
    (told n [] (xs ++ [x])).count k =
      (told n [] xs).count k + if Novel n xs x ∧ x.1 = k then 1 else 0 := by
  rw [told_concat, List.nil_append, List.count_append, Nat.add_left_cancel_iff]
  by_cases hnovel : Novel n xs x
  · by_cases heq : x.1 = k
    · simp [hnovel, heq]
    · have hzero : [x.1].count k = 0 := by simp [heq]
      rw [if_pos hnovel, hzero, if_neg fun hboth => heq hboth.2]
  · simp [hnovel]

/-- **A key with a row is reported once**, and once more if it was flagged. -/
theorem count_told_le (hk : k ∈ firstSeen n xs) :
    (told n [] xs).count k ≤ if (k, true) ∈ xs then 2 else 1 := by
  induction xs using List.reverseRecOn with
  | nil => exact absurd hk (by simp [firstSeen_nil])
  | append_singleton xs x ih =>
    rw [count_told_concat]
    by_cases hrow : k ∈ firstSeen n xs
    · have hle := ih hrow
      by_cases hnovel : Novel n xs x ∧ x.1 = k
      · -- the second report is of the first flag
        obtain ⟨hnov, rfl⟩ := hnovel
        obtain ⟨hflag, hnot⟩ := hnov.resolve_left (not_not.mpr hrow)
        have hmem : (x.1, true) ∈ xs ++ [x] := by
          rw [← hflag]
          exact List.mem_append_right _ (List.mem_singleton.mpr rfl)
        rw [if_neg hnot] at hle
        rw [if_pos hmem, if_pos ⟨hnov, rfl⟩]
        omega
      · rw [if_neg hnovel, Nat.add_zero]
        by_cases hmem : (k, true) ∈ xs
        · rw [if_pos hmem] at hle
          rwa [if_pos (List.mem_append_left _ hmem)]
        · rw [if_neg hmem] at hle
          split <;> omega
    · -- the first report gives the row
      obtain ⟨rfl, hfirst⟩ := first_of_mem_firstSeen_concat hk hrow
      have hzero : (told n [] xs).count x.1 = 0 :=
        List.count_eq_zero.mpr fun hmem => hfirst ((told_sublist _ _).subset hmem)
      rw [hzero, if_pos ⟨Or.inl hrow, rfl⟩]
      split <;> omega

/-- **A key without a row is reported every time.** -/
theorem count_told_of_notMem (hk : k ∉ firstSeen n xs) :
    (told n [] xs).count k = (xs.map Prod.fst).count k := by
  induction xs using List.reverseRecOn with
  | nil => rfl
  | append_singleton xs x ih =>
    have hrow : k ∉ firstSeen n xs := fun hrow => hk (mem_firstSeen_concat hrow)
    rw [count_told_concat, ih hrow, List.map_append, List.map_singleton, List.count_append,
      Nat.add_left_cancel_iff]
    by_cases heq : x.1 = k
    · subst heq
      rw [if_pos ⟨Or.inl hrow, rfl⟩, List.count_singleton_self]
    · rw [if_neg fun hnovel => heq hnovel.2]
      simp [heq]

end Lib
