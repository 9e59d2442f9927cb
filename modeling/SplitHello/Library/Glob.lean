import Mathlib.Data.List.Basic
import Mathlib.Tactic.TypeStar

/-!
# Glob patterns

A pattern is a list of tokens, each of which is one letter, any one letter, or any number of
letters. Stars may be forgotten from left to right: whatever an earlier star could still do
with the text, the star behind it can do as well.
-/

namespace Glob

variable {α : Type*}

inductive Token (α : Type*)
  | many
  | any
  | letter (a : α)

/-- The text is one that the pattern stands for. -/
def Matches : List (Token α) → List α → Prop
  | [], text => text = []
  | .many :: pattern, text => ∃ front back, text = front ++ back ∧ Matches pattern back
  | .any :: pattern, text => ∃ c rest, text = c :: rest ∧ Matches pattern rest
  | .letter a :: pattern, text => ∃ rest, text = a :: rest ∧ Matches pattern rest

theorem matches_any_cons {pattern : List (Token α)} {c : α} {text : List α} :
    Matches (.any :: pattern) (c :: text) ↔ Matches pattern text := by
  simp [Matches]

theorem matches_letter_cons {pattern : List (Token α)} {a c : α} {text : List α} :
    Matches (.letter a :: pattern) (c :: text) ↔ c = a ∧ Matches pattern text := by
  simp [Matches]

/-- A star stands for nothing, or goes on behind the next letter. -/
theorem matches_many_iff {pattern : List (Token α)} {text : List α} :
    Matches (.many :: pattern) text ↔
      Matches pattern text ∨ Matches (.many :: pattern) text.tail := by
  constructor
  · rintro ⟨front, back, rfl, hback⟩
    cases front with
    | nil => exact Or.inl hback
    | cons c front => exact Or.inr ⟨front, back, rfl, hback⟩
  · rintro (h | ⟨front, back, htail, hback⟩)
    · exact ⟨[], text, rfl, h⟩
    · cases text with
      | nil => exact ⟨front, back, htail, hback⟩
      | cons c text => exact ⟨c :: front, back, congrArg (List.cons c) htail, hback⟩

/-- Nothing is left to match for stars only. -/
theorem matches_end_iff {pattern : List (Token α)} :
    Matches pattern [] ↔ ∀ token ∈ pattern, token = .many := by
  induction pattern with
  | nil => simp [Matches]
  | cons token pattern ih =>
      rw [List.forall_mem_cons, ← ih]
      cases token with
      | many =>
          simp only [true_and]
          constructor
          · rintro ⟨front, back, hend, hback⟩
            obtain ⟨-, rfl⟩ := List.append_eq_nil_iff.1 hend.symm
            exact hback
          · exact fun h => ⟨[], [], rfl, h⟩
      | any => simp [Matches]
      | letter a => simp [Matches]

/-- A pattern without stars takes a letter for each of its tokens. -/
theorem matches_append_plain {segment pattern : List (Token α)} {text : List α}
    (hplain : Token.many ∉ segment) (h : Matches (segment ++ pattern) text) :
    ∃ front back, text = front ++ back ∧ front.length = segment.length ∧
      Matches pattern back := by
  induction segment generalizing text with
  | nil => exact ⟨[], text, rfl, rfl, h⟩
  | cons token segment ih =>
      rw [List.mem_cons, not_or] at hplain
      have hrest : ∃ c rest, text = c :: rest ∧ Matches (segment ++ pattern) rest := by
        cases token with
        | many => exact absurd rfl hplain.1
        | any => exact h
        | letter a => exact ⟨a, h⟩
      obtain ⟨c, rest, rfl, hrest⟩ := hrest
      obtain ⟨front, back, rfl, hlength, hback⟩ := ih hplain.2 hrest
      exact ⟨c :: front, back, rfl, by rw [List.length_cons, List.length_cons, hlength], hback⟩

/-- An earlier star can be forgotten at the next one: if the tokens between them have taken no
more letters than there are tokens, then all that the earlier star could still reach is reached
by the later one. -/
theorem matches_of_earlier {segment pattern : List (Token α)} {taken text : List α}
    (hplain : Token.many ∉ segment) (htaken : taken.length ≤ segment.length)
    (h : Matches (.many :: (segment ++ .many :: pattern)) (taken ++ text)) :
    Matches (.many :: pattern) text := by
  obtain ⟨front, back, htext, hback⟩ := h
  obtain ⟨front', back', rfl, hlength, skipped, rest, rfl, hrest⟩ :=
    matches_append_plain hplain hback
  have hfront : taken.length ≤ (front ++ front').length := by
    rw [List.length_append]
    omega
  have hsplit : taken ++ text = (front ++ front') ++ (skipped ++ rest) := by
    rw [htext, List.append_assoc]
  have htail : text = ((front ++ front').drop taken.length ++ skipped) ++ rest := by
    have hdrop := congrArg (List.drop taken.length) hsplit
    rwa [List.drop_left, List.drop_append_of_le_length hfront, ← List.append_assoc] at hdrop
  exact ⟨_, rest, htail, hrest⟩

end Glob
