import SplitHello.Library.History
import Mathlib.Data.List.Chain

/-!
# Streaks

Some inputs of a history count, some break what was counted, the others are passed over. A
run is what counts in an end piece of the history that nothing breaks, if each of its inputs
follows closely on the one before. The streak is kept along the history, one input at a time;
it is the longest run.
-/

namespace Streak

open History

inductive Kind
  | counts
  | breaks
  | passes
  deriving DecidableEq, Repr

/-- What becomes of an input, and whether an input follows closely on another. -/
structure Rules (I : Type*) where
  kind : I → Kind
  close : I → I → Bool

namespace Rules

section

variable {I : Type*} (ρ : Rules I)

/-- The streak after one more input. -/
def next (streak : List I) (i : I) : List I :=
  match ρ.kind i with
  | .passes => streak
  | .breaks => []
  | .counts => if streak.getLast?.any fun last => ρ.close last i then streak ++ [i] else [i]

def streak (h : List I) : List I := run ρ.next [] h

/-- What counts among these inputs. -/
def counted (span : List I) : List I := span.filter fun i => ρ.kind i = .counts

structure IsRun (h r : List I) : Prop where
  span : ∃ before span, h = before ++ span ∧ (∀ i ∈ span, ρ.kind i ≠ .breaks) ∧ ρ.counted span = r
  close : r.IsChain fun a b => ρ.close a b = true

variable {ρ} {h r : List I} {i : I}

@[simp] theorem streak_concat (h : List I) (i : I) :
    ρ.streak (h ++ [i]) = ρ.next (ρ.streak h) i :=
  run_concat ρ.next [] h i

theorem streak_concat_of_passes (h : List I) (hi : ρ.kind i = .passes) :
    ρ.streak (h ++ [i]) = ρ.streak h := by
  rw [streak_concat, next, hi]

theorem streak_concat_of_breaks (h : List I) (hi : ρ.kind i = .breaks) :
    ρ.streak (h ++ [i]) = [] := by
  rw [streak_concat, next, hi]

theorem streak_concat_of_counts (h : List I) (hi : ρ.kind i = .counts) :
    ρ.streak (h ++ [i]) =
      if (ρ.streak h).getLast?.any fun last => ρ.close last i then ρ.streak h ++ [i] else [i] := by
  rw [streak_concat, next, hi]

theorem counted_concat_of_counts (span : List I) (hi : ρ.kind i = .counts) :
    ρ.counted (span ++ [i]) = ρ.counted span ++ [i] := by
  rw [counted, List.filter_append, List.filter_cons_of_pos (by simpa using hi)]
  rfl

theorem counted_concat_of_passes (span : List I) (hi : ρ.kind i = .passes) :
    ρ.counted (span ++ [i]) = ρ.counted span := by
  rw [counted, List.filter_append, List.filter_cons_of_neg (by simp [hi])]
  exact List.append_nil _

theorem isRun_nil (h : List I) : ρ.IsRun h [] :=
  ⟨⟨h, [], (List.append_nil h).symm, by simp, rfl⟩, List.isChain_nil⟩

theorem isRun_singleton (h : List I) (hi : ρ.kind i = .counts) : ρ.IsRun (h ++ [i]) [i] := by
  refine ⟨⟨h, [i], rfl, ?_, ?_⟩, List.isChain_singleton i⟩
  · intro j hj
    rw [List.mem_singleton.1 hj, hi]
    decide
  · exact counted_concat_of_counts [] hi

theorem IsRun.mem (hr : ρ.IsRun h r) (hi : i ∈ r) : i ∈ h := by
  obtain ⟨before, span, rfl, -, rfl⟩ := hr.span
  exact List.mem_append_right before (List.mem_filter.1 hi).1

/-- The span of a run grows by an input that does not break it. -/
theorem IsRun.grow (hr : ρ.IsRun h r) (hi : ρ.kind i ≠ .breaks) :
    ∃ before span, h ++ [i] = before ++ (span ++ [i]) ∧
      (∀ j ∈ span ++ [i], ρ.kind j ≠ .breaks) ∧ ρ.counted span = r := by
  obtain ⟨before, span, rfl, hspan, hcounted⟩ := hr.span
  refine ⟨before, span, List.append_assoc _ _ _, fun j hj => ?_, hcounted⟩
  rcases List.mem_append.1 hj with hj | hj
  · exact hspan j hj
  · rw [List.mem_singleton.1 hj]
    exact hi

/-- A run ends the history, or the last input broke it. -/
theorem IsRun.shrink (hr : ρ.IsRun (h ++ [i]) r) :
    r = [] ∨ ρ.kind i ≠ .breaks ∧ ∃ before span, h = before ++ span ∧
      (∀ j ∈ span, ρ.kind j ≠ .breaks) ∧ ρ.counted (span ++ [i]) = r := by
  obtain ⟨before, span, heq, hspan, hcounted⟩ := hr.span
  rcases List.eq_nil_or_concat span with rfl | ⟨span, last, rfl⟩
  · exact Or.inl hcounted.symm
  · rw [List.concat_eq_append] at heq hspan hcounted
    rw [← List.append_assoc] at heq
    obtain ⟨hinit, hlast⟩ := List.append_inj' heq rfl
    rw [← List.head_eq_of_cons_eq hlast] at hspan hcounted
    refine Or.inr ⟨hspan i (List.mem_append_right _ List.mem_cons_self), before, span, hinit, ?_,
      hcounted⟩
    exact fun j hj => hspan j (List.mem_append_left _ hj)

theorem streak_isRun (h : List I) : ρ.IsRun h (ρ.streak h) := by
  induction h using List.reverseRecOn with
  | nil => exact isRun_nil []
  | append_singleton h i ih =>
      rw [streak_concat, next]
      split
      · rename_i hi
        obtain ⟨before, span, heq, hspan, hcounted⟩ := ih.grow (by rw [hi]; decide)
        exact ⟨⟨before, span ++ [i], heq, hspan, (counted_concat_of_passes span hi).trans hcounted⟩,
          ih.close⟩
      · exact isRun_nil _
      · rename_i hi
        split
        · rename_i hclose
          obtain ⟨before, span, heq, hspan, hcounted⟩ := ih.grow (by rw [hi]; decide)
          refine ⟨⟨before, span ++ [i], heq, hspan, ?_⟩, ?_⟩
          · rw [counted_concat_of_counts span hi, hcounted]
          · refine List.isChain_append.2 ⟨ih.close, List.isChain_singleton i, ?_⟩
            intro last hlast j hj
            rw [Option.mem_def] at hlast
            rw [hlast, Option.any_some] at hclose
            rw [List.head?_cons, Option.mem_some_iff] at hj
            exact hj ▸ hclose
        · exact isRun_singleton h hi

/-- Every run is an end piece of the streak. -/
theorem IsRun.isSuffix (hr : ρ.IsRun h r) : r <:+ ρ.streak h := by
  induction h using List.reverseRecOn generalizing r with
  | nil =>
      obtain ⟨before, span, heq, -, hcounted⟩ := hr.span
      obtain ⟨-, rfl⟩ := List.append_eq_nil_iff.1 heq.symm
      rw [← hcounted]
      exact List.nil_suffix
  | append_singleton h i ih =>
      rcases hr.shrink with rfl | ⟨hbreaks, before, span, rfl, hspan, hcounted⟩
      · exact List.nil_suffix
      · rw [streak_concat, next]
        split
        · rename_i hi
          rw [counted_concat_of_passes span hi] at hcounted
          exact ih ⟨⟨before, span, rfl, hspan, hcounted⟩, hr.close⟩
        · exact absurd ‹_› hbreaks
        · rename_i hi
          rw [counted_concat_of_counts span hi] at hcounted
          have hchain := hr.close
          rw [← hcounted, List.isChain_append] at hchain
          have hinit := ih ⟨⟨before, span, rfl, hspan, rfl⟩, hchain.1⟩
          rw [← hcounted]
          split
          · obtain ⟨front, hfront⟩ := hinit
            exact ⟨front, by rw [← List.append_assoc, hfront]⟩
          · rename_i hfar
            -- What is not close to the last of the streak continues no run.
            have hnil : ρ.counted span = [] := by
              rcases List.eq_nil_or_concat (ρ.counted span) with hnil | ⟨front, last, hconcat⟩
              · exact hnil
              · rw [List.concat_eq_append] at hconcat
                have hlast : (ρ.counted span).getLast? = some last := by
                  rw [hconcat, List.getLast?_concat]
                have hstreak : (ρ.streak (before ++ span)).getLast? = some last := by
                  obtain ⟨earlier, hearlier⟩ := hinit
                  rw [← hearlier, hconcat, ← List.append_assoc, List.getLast?_concat]
                rw [hstreak, Option.any_some] at hfar
                exact absurd (hchain.2.2 last hlast i rfl) hfar
            rw [hnil]
            exact List.suffix_rfl

end

end Rules

end Streak
