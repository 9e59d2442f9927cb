import Mathlib.Computability.RegularExpressions

/-!
# Patterns

What a character class, a bounded repetition and a separated list match, as they are
written in the regular expressions of programs. The last is read off the pieces the
word falls into at the separator, so that membership becomes a condition on each
piece.
-/

namespace Regular

open RegularExpression Computability

variable {α : Type*}

/-- A character class. -/
def oneOf (letters : List α) : RegularExpression α :=
  letters.foldr (fun a P => char a + P) 0

/-- At most `n` repetitions. -/
def upTo (n : ℕ) (P : RegularExpression α) : RegularExpression α := (1 + P) ^ n

/-- Words of `P`, one or more, with a separator between any two. -/
def separated (s : α) (P : RegularExpression α) : RegularExpression α := P * (char s * P).star

theorem mem_oneOf {letters : List α} {w : List α} :
    w ∈ (oneOf letters).matches' ↔ ∃ a ∈ letters, w = [a] := by
  induction letters with
  | nil => simp [oneOf]
  | cons a letters ih =>
      have hrest : (List.foldr (fun a P => char a + P) 0 letters).matches' =
          (oneOf letters).matches' := rfl
      have hhead : w ∈ (char a).matches' ↔ w = [a] := Set.mem_singleton_iff
      rw [oneOf, List.foldr_cons, matches'_add, Language.mem_add, hhead, hrest, ih]
      simp

/-- A bounded repetition of a class is a bound on the length. -/
theorem mem_upTo_oneOf {n : ℕ} {letters : List α} {w : List α} :
    w ∈ (upTo n (oneOf letters)).matches' ↔ w.length ≤ n ∧ ∀ a ∈ w, a ∈ letters := by
  induction n generalizing w with
  | zero =>
      rw [upTo, matches'_pow, pow_zero, Language.mem_one]
      constructor
      · rintro rfl
        simp
      · rintro ⟨hlength, -⟩
        exact List.eq_nil_of_length_eq_zero (by omega)
  | succ n ih =>
      have hsucc : (upTo (n + 1) (oneOf letters)).matches' =
          (1 + (oneOf letters).matches') * (upTo n (oneOf letters)).matches' := by
        rw [upTo, upTo, matches'_pow, matches'_pow, pow_succ', matches'_add, matches'_epsilon]
      rw [hsucc, Language.mem_mul]
      constructor
      · rintro ⟨x, hx, y, hy, rfl⟩
        obtain ⟨hlength, hletters⟩ := ih.1 hy
        rcases (Language.mem_add _ _ _).1 hx with hx | hx
        · rw [(Language.mem_one x).1 hx]
          exact ⟨by simpa using by omega, by simpa using hletters⟩
        · obtain ⟨a, ha, rfl⟩ := mem_oneOf.1 hx
          refine ⟨by simp; omega, ?_⟩
          intro b hb
          rcases List.mem_cons.1 hb with rfl | hb
          · exact ha
          · exact hletters b hb
      · rintro ⟨hlength, hletters⟩
        cases w with
        | nil => exact ⟨[], Or.inl rfl, [], ih.2 (by simp), rfl⟩
        | cons a w =>
            refine ⟨[a], Or.inr (mem_oneOf.2 ⟨a, hletters a (by simp), rfl⟩), w, ih.2 ?_, rfl⟩
            exact ⟨by simpa using hlength, fun b hb => hletters b (List.mem_cons_of_mem a hb)⟩

/-! ## Separated lists -/

theorem intercalate_cons_eq (s : α) (w : List α) (ws : List (List α)) :
    [s].intercalate (w :: ws) = w ++ (ws.map (s :: ·)).flatten := by
  induction ws generalizing w with
  | nil => simp
  | cons v ws ih => simp [List.intercalate_cons_cons, ih v]

/-- The words that can be spelled with separators are those of the star. -/
theorem mem_star_char_mul {s : α} {P : RegularExpression α} {w : List α} :
    w ∈ (char s * P).star.matches' ↔
      ∃ ws : List (List α), w = (ws.map (s :: ·)).flatten ∧ ∀ v ∈ ws, v ∈ P.matches' := by
  rw [matches'_star, matches'_mul, matches'_char, Language.mem_kstar]
  constructor
  · rintro ⟨L, rfl, hL⟩
    refine ⟨L.map List.tail, ?_, ?_⟩
    · have hmap : (L.map List.tail).map (s :: ·) = L := by
        rw [List.map_map]
        refine (List.map_congr_left fun y hy => ?_).trans (List.map_id L)
        obtain ⟨x, hx, v, -, rfl⟩ := Language.mem_mul.1 (hL y hy)
        rw [Set.mem_singleton_iff.1 hx]
        rfl
      rw [hmap]
    · intro v hv
      obtain ⟨y, hy, rfl⟩ := List.mem_map.1 hv
      obtain ⟨x, hx, u, hu, rfl⟩ := Language.mem_mul.1 (hL y hy)
      rw [Set.mem_singleton_iff.1 hx]
      exact hu
  · rintro ⟨ws, rfl, hws⟩
    refine ⟨_, rfl, ?_⟩
    intro y hy
    obtain ⟨v, hv, rfl⟩ := List.mem_map.1 hy
    exact Language.mem_mul.2 ⟨[s], rfl, v, hws v hv, rfl⟩

/-- A word is a separated list exactly when every piece of it is an item. -/
theorem mem_separated [DecidableEq α] {s : α} {P : RegularExpression α}
    (hP : ∀ v ∈ P.matches', s ∉ v) {w : List α} :
    w ∈ (separated s P).matches' ↔ ∀ v ∈ w.splitOn s, v ∈ P.matches' := by
  rw [separated, matches'_mul, Language.mem_mul]
  constructor
  · rintro ⟨x, hx, y, hy, rfl⟩
    obtain ⟨ws, rfl, hws⟩ := mem_star_char_mul.1 hy
    have hall : ∀ v ∈ x :: ws, v ∈ P.matches' := by
      intro v hv
      rcases List.mem_cons.1 hv with rfl | hv
      · exact hx
      · exact hws v hv
    rw [← intercalate_cons_eq, List.splitOn_intercalate s (fun v hv => hP v (hall v hv)) (by simp)]
    exact hall
  · intro hall
    obtain ⟨x, ws, hsplit⟩ := List.exists_cons_of_ne_nil (List.splitOn_ne_nil s w)
    rw [hsplit] at hall
    refine ⟨x, hall x (by simp), (ws.map (s :: ·)).flatten, ?_, ?_⟩
    · exact mem_star_char_mul.2 ⟨ws, rfl, fun v hv => hall v (List.mem_cons_of_mem x hv)⟩
    · rw [← intercalate_cons_eq, ← hsplit, List.intercalate_splitOn]

/-- No piece of a word contains the separator, and a piece has only letters of the
word. -/
theorem mem_of_mem_splitOn [DecidableEq α] {s a : α} {v w : List α} (hv : v ∈ w.splitOn s)
    (ha : a ∈ v) : a ∈ w ∧ a ≠ s := by
  induction w generalizing v with
  | nil =>
      rw [List.splitOn_nil, List.mem_singleton] at hv
      subst hv
      cases ha
  | cons b w ih =>
      rw [List.splitOn_cons_eq_if_modifyHead] at hv
      split at hv
      · rcases List.mem_cons.1 hv with rfl | hv
        · cases ha
        · exact ⟨List.mem_cons_of_mem b (ih hv ha).1, (ih hv ha).2⟩
      · rename_i hb
        obtain ⟨u, us, hsplit⟩ := List.exists_cons_of_ne_nil (List.splitOn_ne_nil s w)
        rw [hsplit] at hv ih
        rw [List.modifyHead_cons] at hv
        rcases List.mem_cons.1 hv with rfl | hv
        · rcases List.mem_cons.1 ha with rfl | ha
          · exact ⟨by simp, by simpa using hb⟩
          · exact ⟨List.mem_cons_of_mem b (ih (by simp) ha).1, (ih (by simp) ha).2⟩
        · have hmem := List.mem_cons_of_mem u hv
          exact ⟨List.mem_cons_of_mem b (ih hmem ha).1, (ih hmem ha).2⟩

end Regular
