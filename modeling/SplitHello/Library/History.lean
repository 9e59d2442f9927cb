import Mathlib.Data.List.Induction

/-!
# Runs with a history

A deterministic system is a step function folded over the list of its inputs.
`Since p q h` reads the history `h`, oldest input first: some past input
satisfied `p` and no later one satisfied `q`. An invariant about the past is an
invariant of the pair (history, state); `run_invariant` is the induction that
every such invariant goes through.
-/

namespace History

section

variable {S I : Type*}

/-- The state after the inputs of the list, oldest first. -/
def run (step : S → I → S) (s : S) (inputs : List I) : S := inputs.foldl step s

@[simp] theorem run_nil (step : S → I → S) (s : S) : run step s [] = s := rfl

theorem run_append (step : S → I → S) (s : S) (a b : List I) :
    run step s (a ++ b) = run step (run step s a) b :=
  List.foldl_append

@[simp] theorem run_concat (step : S → I → S) (s : S) (a : List I) (i : I) :
    run step s (a ++ [i]) = step (run step s a) i := by
  simp [run]

/-- An invariant of history and state that holds at the start and survives
every step holds after every run. -/
theorem run_invariant (step : S → I → S) (s : S) (Inv : List I → S → Prop)
    (hinit : Inv [] s)
    (hstep : ∀ h t i, Inv h t → Inv (h ++ [i]) (step t i)) (inputs : List I) :
    Inv inputs (run step s inputs) := by
  induction inputs using List.reverseRecOn with
  | nil => exact hinit
  | append_singleton h i ih =>
      rw [run_concat]
      exact hstep h _ i ih

/-- What holds at the start and survives every step but those that end it holds after the
run, or one of the inputs ended it. -/
theorem run_unless (step : S → I → S) {P : S → Prop} {Q : S → I → Prop} {s : S} (hs : P s)
    {inputs : List I} (hstep : ∀ t, ∀ i ∈ inputs, P t → ¬ Q t i → P (step t i)) :
    P (run step s inputs) ∨
      ∃ before i after, inputs = before ++ i :: after ∧ Q (run step s before) i := by
  induction inputs generalizing s with
  | nil => exact Or.inl hs
  | cons i inputs ih =>
      by_cases hend : Q s i
      · exact Or.inr ⟨[], i, inputs, rfl, hend⟩
      · have hnext := hstep s i List.mem_cons_self hs hend
        rcases ih hnext fun t j hj => hstep t j (List.mem_cons_of_mem i hj) with
          hrun | ⟨before, j, after, rfl, hj⟩
        · exact Or.inl hrun
        · exact Or.inr ⟨i :: before, j, after, rfl, hj⟩

end

section

variable {I : Type*}

/-- Where a history with one more input can be cut. -/
theorem concat_eq_cases {h before after : List I} {i j : I}
    (heq : h ++ [i] = before ++ j :: after) :
    (after = [] ∧ h = before ∧ i = j) ∨ ∃ rest, after = rest ++ [i] ∧ h = before ++ j :: rest := by
  rcases List.eq_nil_or_concat after with rfl | ⟨rest, last, rfl⟩
  · obtain ⟨hbefore, hlast⟩ := List.append_inj' heq rfl
    exact Or.inl ⟨rfl, hbefore, List.head_eq_of_cons_eq hlast⟩
  · rw [List.concat_eq_append, ← List.cons_append, ← List.append_assoc] at heq
    obtain ⟨hbefore, hlast⟩ := List.append_inj' heq rfl
    rw [List.concat_eq_append, ← List.head_eq_of_cons_eq hlast]
    exact Or.inr ⟨rest, rfl, hbefore⟩

/-- Two inputs of a history: one comes before the other, or they are the same. -/
theorem append_cons_eq_cases {before after before' after' : List I} {i j : I}
    (heq : before ++ i :: after = before' ++ j :: after') :
    (∃ between, after = between ++ j :: after' ∧ before' = before ++ i :: between) ∨
      (before = before' ∧ i = j) ∨
      ∃ between, before = before' ++ j :: between ∧ after' = between ++ i :: after := by
  rcases List.append_eq_append_iff.1 heq with ⟨between, hbefore, hrest⟩ | ⟨between, hbefore, hrest⟩
  · cases between with
    | nil =>
        rw [List.append_nil] at hbefore
        exact Or.inr (Or.inl ⟨hbefore.symm, List.head_eq_of_cons_eq hrest⟩)
    | cons k between =>
        obtain ⟨rfl, rfl⟩ := List.cons_eq_cons.1 hrest
        exact Or.inl ⟨between, rfl, hbefore⟩
  · cases between with
    | nil =>
        rw [List.append_nil] at hbefore
        exact Or.inr (Or.inl ⟨hbefore, (List.head_eq_of_cons_eq hrest).symm⟩)
    | cons k between =>
        obtain ⟨rfl, rfl⟩ := List.cons_eq_cons.1 hrest
        exact Or.inr (Or.inr ⟨between, hbefore, rfl⟩)

/-- An input of a history that is not among the last ones comes before them. -/
theorem append_eq_of_notMem {h last before after : List I} {i : I}
    (heq : h ++ last = before ++ i :: after) (hi : i ∉ last) :
    ∃ rest, after = rest ++ last ∧ h = before ++ i :: rest := by
  rcases List.append_eq_append_iff.1 heq with ⟨between, -, hlast⟩ | ⟨between, hh, hafter⟩
  · exact absurd (hlast ▸ by simp) hi
  · cases between with
    | nil =>
        rw [List.nil_append] at hafter
        exact absurd (hafter ▸ List.mem_cons_self) hi
    | cons j between =>
        obtain ⟨rfl, rfl⟩ := List.cons_eq_cons.1 hafter
        exact ⟨between, rfl, hh⟩

/-- Some input of the history satisfies `p` and none after it satisfies `q`. -/
def Since (p q : I → Prop) (h : List I) : Prop :=
  ∃ before i after, h = before ++ i :: after ∧ p i ∧ ∀ j ∈ after, ¬ q j

theorem Since.here {p q : I → Prop} (h : List I) {i : I} (hi : p i) :
    Since p q (h ++ [i]) :=
  ⟨h, i, [], rfl, hi, by simp⟩

theorem Since.later {p q : I → Prop} {h : List I} (hs : Since p q h) {i : I}
    (hi : ¬ q i) : Since p q (h ++ [i]) := by
  obtain ⟨before, j, after, rfl, hj, hafter⟩ := hs
  refine ⟨before, j, after ++ [i], by simp, hj, ?_⟩
  intro k hk
  rcases List.mem_append.1 hk with hk | hk
  · exact hafter k hk
  · rw [List.mem_singleton.1 hk]
    exact hi

theorem Since.mono {p p' q q' : I → Prop} {h : List I} (hs : Since p q h)
    (hp : ∀ i, p i → p' i) (hq : ∀ i, q' i → q i) : Since p' q' h := by
  obtain ⟨before, i, after, heq, hi, hafter⟩ := hs
  exact ⟨before, i, after, heq, hp i hi, fun j hj hj' => hafter j hj (hq j hj')⟩

theorem since_concat_iff {p q : I → Prop} {h : List I} {i : I} :
    Since p q (h ++ [i]) ↔ p i ∨ Since p q h ∧ ¬ q i := by
  constructor
  · rintro ⟨before, j, after, heq, hj, hafter⟩
    rcases concat_eq_cases heq with ⟨-, -, rfl⟩ | ⟨rest, rfl, hbefore⟩
    · exact Or.inl hj
    · refine Or.inr ⟨⟨before, j, rest, hbefore, hj, fun k hk => hafter k ?_⟩, hafter i ?_⟩
      · exact List.mem_append_left _ hk
      · exact List.mem_append_right _ (List.mem_singleton_self i)
  · rintro (hi | ⟨hs, hi⟩)
    · exact Since.here h hi
    · exact hs.later hi

/-- Whatever satisfies `r` comes after a history that satisfies `P`. -/
def Before (r : I → Prop) (P : List I → Prop) (h : List I) : Prop :=
  ∀ before i after, h = before ++ i :: after → r i → P before

theorem Before.nil (r : I → Prop) (P : List I → Prop) : Before r P [] := by
  intro before i after heq
  cases before <;> cases heq

theorem Before.concat {r : I → Prop} {P : List I → Prop} {h : List I} (hb : Before r P h) {i : I}
    (hi : r i → P h) : Before r P (h ++ [i]) := by
  intro before j after heq hj
  rcases concat_eq_cases heq with ⟨-, rfl, rfl⟩ | ⟨rest, -, hbefore⟩
  · exact hi hj
  · exact hb before j rest hbefore hj

end

end History
