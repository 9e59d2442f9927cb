import Mathlib.Data.Finset.Basic

/-!
# Marks with one holder each

Parties put a mark on a key while they work on it, so that nobody else starts on the
same key. `OneHolder marks Holds` says that the marks are exactly the keys that some
party holds and that no key has two holders. A party may take a key without a mark,
and may give back a key it holds together with the mark.
-/

namespace Marks

section

variable {I K : Type*} [DecidableEq K]

/-- The marked keys are the held ones, and each has one holder. -/
structure OneHolder (marks : Finset K) (Holds : I → K → Prop) : Prop where
  marked : ∀ k, k ∈ marks ↔ ∃ i, Holds i k
  single : ∀ i j k, Holds i k → Holds j k → i = j

variable {marks : Finset K} {Holds Holds' : I → K → Prop}

omit [DecidableEq K] in
theorem OneHolder.congr (h : OneHolder marks Holds) (hsame : ∀ i k, Holds' i k ↔ Holds i k) :
    OneHolder marks Holds' := by
  obtain rfl : Holds' = Holds := by
    funext i k
    exact propext (hsame i k)
  exact h

/-- A party takes a key that carries no mark. -/
theorem OneHolder.take (h : OneHolder marks Holds) {i : I} {k : K} (hfree : k ∉ marks)
    (htake : ∀ j k', Holds' j k' ↔ Holds j k' ∨ j = i ∧ k' = k) :
    OneHolder (insert k marks) Holds' := by
  have hnobody : ∀ j, ¬ Holds j k := fun j hj => hfree ((h.marked k).2 ⟨j, hj⟩)
  refine ⟨?_, ?_⟩
  · intro k'
    rw [Finset.mem_insert, h.marked k']
    constructor
    · rintro (rfl | ⟨j, hj⟩)
      · exact ⟨i, (htake i k').2 (Or.inr ⟨rfl, rfl⟩)⟩
      · exact ⟨j, (htake j k').2 (Or.inl hj)⟩
    · rintro ⟨j, hj⟩
      rcases (htake j k').1 hj with hj | ⟨-, rfl⟩
      · exact Or.inr ⟨j, hj⟩
      · exact Or.inl rfl
  · intro j j' k' hj hj'
    rcases (htake j k').1 hj with hj | ⟨rfl, rfl⟩
    · rcases (htake j' k').1 hj' with hj' | ⟨-, rfl⟩
      · exact h.single j j' k' hj hj'
      · exact absurd hj (hnobody j)
    · rcases (htake j' k').1 hj' with hj' | ⟨rfl, -⟩
      · exact absurd hj' (hnobody j')
      · rfl

/-- The mark of a key goes with its holder. -/
theorem OneHolder.giveBack (h : OneHolder marks Holds) {k : K}
    (hgive : ∀ j k', Holds' j k' ↔ Holds j k' ∧ k' ≠ k) :
    OneHolder (marks.erase k) Holds' := by
  refine ⟨?_, ?_⟩
  · intro k'
    rw [Finset.mem_erase, h.marked k']
    constructor
    · rintro ⟨hne, j, hj⟩
      exact ⟨j, (hgive j k').2 ⟨hj, hne⟩⟩
    · rintro ⟨j, hj⟩
      obtain ⟨hj, hne⟩ := (hgive j k').1 hj
      exact ⟨hne, j, hj⟩
  · intro j j' k' hj hj'
    exact h.single j j' k' ((hgive j k').1 hj).1 ((hgive j' k').1 hj').1

omit [DecidableEq K] in
theorem OneHolder.eq_empty (h : OneHolder marks Holds) (hidle : ∀ i k, ¬ Holds i k) :
    marks = ∅ := by
  refine Finset.eq_empty_of_forall_notMem fun k hk => ?_
  obtain ⟨i, hi⟩ := (h.marked k).1 hk
  exact hidle i k hi

end

end Marks
