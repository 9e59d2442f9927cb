import SplitHello.Library.Glob
import SplitHello.Process.Rules

/-!
# The matching loop

`wildcardMatch` remembers one star only, the last, and where in the text to retry from. The
star before it is forgotten with whatever it could still have reached. The loop comes to its
end on every input and says whether the text is one the pattern stands for.
-/

namespace SplitHello

namespace Process

open ByteString Glob

/-- What a byte of a pattern stands for. -/
def token (c : UInt8) : Token UInt8 := if c = 42 then .many else if c = 63 then .any else .letter c

/-- The loop of `wildcardMatch`, with no answer while it has not come to its end. -/
def wildcardRun : ℕ → Bytes → Bytes → Option (Bytes × Bytes) → Option Bool
  | 0, _, _, _ => none
  | _ + 1, pattern, [], _ => some (pattern.all (· = 42))
  | rounds + 1, pattern, c :: text, star =>
      match pattern with
      | p :: pattern =>
          if p = 63 ∨ p = c then wildcardRun rounds pattern text star
          else if p = 42 then wildcardRun rounds pattern (c :: text) (some (pattern, c :: text))
          else
            match star with
            | some (behind, retry) =>
                wildcardRun rounds behind retry.tail (some (behind, retry.tail))
            | none => some false
      | [] =>
          match star with
          | some (behind, retry) =>
              wildcardRun rounds behind retry.tail (some (behind, retry.tail))
          | none => some false

theorem wildcardLoop_eq (rounds : ℕ) (pattern text : Bytes) (star : Option (Bytes × Bytes)) :
    wildcardLoop rounds pattern text star = (wildcardRun rounds pattern text star).getD false := by
  induction rounds generalizing pattern text star with
  | zero => rfl
  | succ rounds ih =>
      cases text with
      | nil => rfl
      | cons c text =>
          rw [wildcardLoop.eq_def, wildcardRun.eq_def]
          dsimp only
          cases pattern with
          | nil =>
              cases star with
              | none => rfl
              | some star => exact ih _ _ _
          | cons p pattern =>
              dsimp only
              by_cases hletter : p = 63 ∨ p = c
              · rw [if_pos hletter, if_pos hletter]
                exact ih _ _ _
              rw [if_neg hletter, if_neg hletter]
              by_cases hstar : p = 42
              · rw [if_pos hstar, if_pos hstar]
                exact ih _ _ _
              rw [if_neg hstar, if_neg hstar]
              cases star with
              | none => rfl
              | some star => exact ih _ _ _

/-! ## The end of the loop -/

/-- How far the loop has come: with a star, the attempt under way began at the text to retry
from; the retries that are left are bounded by the length of that text. -/
structure Underway (patternSize textSize retries : ℕ) (pattern text : Bytes)
    (star : Option (Bytes × Bytes)) : Prop where
  pattern_le : pattern.length ≤ patternSize
  text_le : text.length ≤ textSize
  fresh : star = none → textSize < retries
  starred : ∀ behind retry, star = some (behind, retry) →
    behind.length ≤ patternSize ∧ text.length ≤ retry.length ∧ retry.length ≤ textSize ∧
      retry.length ≤ retries

theorem isSome_wildcardRun {patternSize textSize retries rounds : ℕ} {pattern text : Bytes}
    {star : Option (Bytes × Bytes)} (h : Underway patternSize textSize retries pattern text star)
    (hrounds : retries * (patternSize + textSize + 1) + pattern.length + text.length < rounds) :
    (wildcardRun rounds pattern text star).isSome := by
  induction rounds generalizing retries pattern text star with
  | zero => cases hrounds
  | succ rounds ih =>
      cases text with
      | nil => rfl
      | cons c text =>
          have htext := h.text_le
          rw [List.length_cons] at hrounds htext
          -- Another attempt, at the next position of the text.
          have hretry : ∀ behind retry, star = some (behind, retry) →
              (wildcardRun rounds behind retry.tail (some (behind, retry.tail))).isSome := by
            intro behind retry hstar
            obtain ⟨hbehind, hle, hsize, hretries⟩ := h.starred behind retry hstar
            rw [List.length_cons] at hle
            obtain ⟨retries, rfl⟩ : ∃ n, retries = n + 1 := ⟨retries - 1, by omega⟩
            rw [Nat.succ_mul] at hrounds
            have htail : retry.tail.length = retry.length - 1 := List.length_tail
            refine @ih retries _ _ _ ⟨hbehind, by omega, nofun, ?_⟩ (by omega)
            rintro behind' retry' ⟨⟩
            exact ⟨hbehind, Nat.le_refl _, by omega, by omega⟩
          rw [wildcardRun.eq_def]
          dsimp only
          cases pattern with
          | nil =>
              cases star with
              | none => rfl
              | some star => exact hretry _ _ rfl
          | cons p pattern =>
              have hpattern := h.pattern_le
              rw [List.length_cons] at hrounds hpattern
              dsimp only
              by_cases hletter : p = 63 ∨ p = c
              · rw [if_pos hletter]
                refine @ih retries _ _ _ ⟨by omega, by omega, h.fresh, ?_⟩ (by omega)
                intro behind retry hstar
                obtain ⟨hbehind, hle, hrest⟩ := h.starred behind retry hstar
                exact ⟨hbehind, Nat.le_of_succ_le hle, hrest⟩
              rw [if_neg hletter]
              by_cases hstar : p = 42
              · rw [if_pos hstar]
                refine @ih retries _ _ _ ⟨by omega, by simpa using htext, nofun, ?_⟩
                  (by simp only [List.length_cons]; omega)
                rintro behind retry ⟨⟩
                refine ⟨by omega, Nat.le_refl _, by simpa using htext, ?_⟩
                rw [List.length_cons]
                cases star with
                | none =>
                    have hfresh := h.fresh rfl
                    omega
                | some star =>
                    obtain ⟨-, hle, -, hretries⟩ := h.starred _ _ rfl
                    rw [List.length_cons] at hle
                    omega
              rw [if_neg hstar]
              cases star with
              | none => rfl
              | some star => exact hretry _ _ rfl

/-! ## The answer -/

theorem token_of_letter {p c : UInt8} (hc : c ≠ 42) (h : p = 63 ∨ p = c) :
    token p = .any ∨ token p = .letter c := by
  rcases h with rfl | rfl
  · exact Or.inl rfl
  · rw [token, if_neg hc]
    split
    · exact Or.inl rfl
    · exact Or.inr rfl

theorem token_eq_many {p : UInt8} : token p = .many ↔ p = 42 := by
  rw [token]
  split
  · exact iff_of_true rfl ‹_›
  · split <;> exact iff_of_false nofun ‹_›

/-- What the loop can still find: a match from where it stands, or one at a later position for
what is behind the last star. -/
def Reaches (pattern text : Bytes) (star : Option (Bytes × Bytes)) : Prop :=
  Matches (pattern.map token) text ∨
    ∃ behind retry, star = some (behind, retry) ∧
      Matches (.many :: behind.map token) retry.tail

/-- Since the last star the loop has gone through as many bytes of the text as of the pattern,
and through no star. -/
def Stands (pattern text : Bytes) (star : Option (Bytes × Bytes)) : Prop :=
  ∀ behind retry, star = some (behind, retry) → ∃ segment taken, behind = segment ++ pattern ∧
    retry = taken ++ text ∧ taken.length = segment.length ∧ 42 ∉ segment ∧ 42 ∉ taken

theorem many_notMem_map {segment : Bytes} (h : 42 ∉ segment) :
    Token.many ∉ segment.map token := by
  intro hmem
  obtain ⟨p, hp, htoken⟩ := List.mem_map.1 hmem
  exact h (token_eq_many.1 htoken ▸ hp)

theorem stands_none (pattern text : Bytes) : Stands pattern text none := by
  rintro behind retry ⟨⟩

theorem stands_start (behind retry : Bytes) : Stands behind retry (some (behind, retry)) := by
  rintro behind' retry' ⟨⟩
  exact ⟨[], [], rfl, rfl, rfl, List.not_mem_nil, List.not_mem_nil⟩

/-- A byte of the text and one of the pattern that stands for it. -/
theorem Stands.letter {p c : UInt8} {pattern text : Bytes} {star : Option (Bytes × Bytes)}
    (h : Stands (p :: pattern) (c :: text) star) (hp : p ≠ 42) (hc : c ≠ 42) :
    Stands pattern text star := by
  intro behind retry hstar
  obtain ⟨segment, taken, rfl, rfl, hlength, hplain, htaken⟩ := h behind retry hstar
  exact ⟨segment ++ [p], taken ++ [c], by simp, by simp, by simp [hlength],
    by simp [hplain, hp.symm], by simp [htaken, hc.symm]⟩

theorem reaches_letter {p c : UInt8} {pattern text : Bytes} {star : Option (Bytes × Bytes)}
    (hc : c ≠ 42) (h : p = 63 ∨ p = c) :
    Reaches (p :: pattern) (c :: text) star ↔ Reaches pattern text star := by
  rw [Reaches, Reaches, List.map_cons]
  rcases token_of_letter hc h with htoken | htoken
  · rw [htoken, matches_any_cons]
  · rw [htoken, matches_letter_cons, and_iff_right rfl]

/-- The new star makes up for the one before it. -/
theorem reaches_star {pattern text : Bytes} {star : Option (Bytes × Bytes)}
    (h : Stands (42 :: pattern) text star) :
    Reaches (42 :: pattern) text star ↔ Reaches pattern text (some (pattern, text)) := by
  have hhere : Matches ((42 :: pattern).map token) text ↔
      Reaches pattern text (some (pattern, text)) := by
    rw [List.map_cons, token_eq_many.2 rfl, matches_many_iff, Reaches]
    simp
  rw [← hhere, Reaches, or_iff_left_iff_imp]
  rintro ⟨behind, retry, hstar, hlater⟩
  obtain ⟨segment, taken, rfl, rfl, hlength, hplain, -⟩ := h behind retry hstar
  have hearlier := matches_many_iff.2 (Or.inr hlater)
  rw [List.map_append, List.map_cons, token_eq_many.2 rfl] at hearlier
  rw [List.map_cons, token_eq_many.2 rfl]
  exact matches_of_earlier (many_notMem_map hplain) (by rw [List.length_map, hlength]) hearlier

/-- Where nothing matches, the last star has to take one more byte. -/
theorem reaches_retry {pattern text behind retry : Bytes}
    (h : ¬ Matches (pattern.map token) text) :
    Reaches pattern text (some (behind, retry)) ↔
      Reaches behind retry.tail (some (behind, retry.tail)) := by
  have hretry : Matches (.many :: behind.map token) retry.tail ↔
      Matches (behind.map token) retry.tail ∨ Matches (.many :: behind.map token) retry.tail.tail :=
    matches_many_iff
  simp [Reaches, h, hretry]

theorem all_star_iff (pattern : Bytes) :
    pattern.all (· = 42) = true ↔ Matches (pattern.map token) [] := by
  simp [matches_end_iff, token_eq_many]

/-- At the end of the text nothing is left to retry. -/
theorem reaches_end {pattern : Bytes} {star : Option (Bytes × Bytes)} (h : Stands pattern [] star) :
    Reaches pattern [] star ↔ Matches (pattern.map token) [] := by
  rw [Reaches, or_iff_left_iff_imp]
  rintro ⟨behind, retry, hstar, front, back, hretry, hback⟩
  obtain ⟨segment, taken, rfl, rfl, hlength, hplain, -⟩ := h behind retry hstar
  rw [List.map_append] at hback
  obtain ⟨front', back', rfl, hfront, hrest⟩ :=
    matches_append_plain (many_notMem_map hplain) hback
  have htail := congrArg List.length hretry
  rw [List.length_tail, List.append_nil, List.length_append, List.length_append, hfront,
    List.length_map] at htail
  have hnil : back' = [] := List.eq_nil_of_length_eq_zero (by omega)
  exact hnil ▸ hrest

theorem wildcardRun_iff {rounds : ℕ} {pattern text : Bytes} {star : Option (Bytes × Bytes)}
    (htext : 42 ∉ text) (h : Stands pattern text star) {found : Bool}
    (hrun : wildcardRun rounds pattern text star = some found) :
    found = true ↔ Reaches pattern text star := by
  induction rounds generalizing pattern text star with
  | zero => cases hrun
  | succ rounds ih =>
      rw [wildcardRun.eq_def] at hrun
      cases text with
      | nil =>
          cases hrun
          rw [reaches_end h, all_star_iff]
      | cons c text =>
          dsimp only at hrun
          have hc : c ≠ 42 := fun heq => htext (heq ▸ List.mem_cons_self)
          have hrest : 42 ∉ text := fun hmem => htext (List.mem_cons_of_mem c hmem)
          -- The pattern does not match here, and there is a star or there is none.
          have hretry : ∀ behind retry, star = some (behind, retry) →
              ¬ Matches (pattern.map token) (c :: text) →
              wildcardRun rounds behind retry.tail (some (behind, retry.tail)) = some found →
              (found = true ↔ Reaches pattern (c :: text) star) := by
            rintro behind retry rfl hnot hrun
            obtain ⟨segment, taken, -, rfl, -, -, htaken⟩ := h behind retry rfl
            rw [reaches_retry hnot]
            refine ih (fun hmem => ?_) (stands_start _ _) hrun
            rcases List.mem_append.1 (List.mem_of_mem_tail hmem) with hmem | hmem
            · exact htaken hmem
            · exact htext hmem
          have hfailed : star = none → ¬ Matches (pattern.map token) (c :: text) →
              (false = true ↔ Reaches pattern (c :: text) star) := by
            rintro rfl hnot
            simp [Reaches, hnot]
          cases pattern with
          | nil =>
              have hnot : ¬ Matches (([] : Bytes).map token) (c :: text) := by simp [Matches]
              cases star with
              | none =>
                  cases hrun
                  exact hfailed rfl hnot
              | some star => exact hretry _ _ rfl hnot hrun
          | cons p pattern =>
              dsimp only at hrun
              by_cases hletter : p = 63 ∨ p = c
              · rw [if_pos hletter] at hrun
                rw [reaches_letter hc hletter]
                refine ih hrest (h.letter ?_ hc) hrun
                rintro rfl
                rcases hletter with hany | hsame
                · cases hany
                · exact hc hsame.symm
              rw [if_neg hletter] at hrun
              by_cases hstar : p = 42
              · rw [if_pos hstar] at hrun
                subst hstar
                rw [reaches_star h]
                exact ih htext (stands_start _ _) hrun
              rw [if_neg hstar] at hrun
              rw [not_or] at hletter
              have hnot : ¬ Matches ((p :: pattern).map token) (c :: text) := by
                rw [List.map_cons, token, if_neg hstar, if_neg hletter.1, matches_letter_cons]
                exact fun hmatch => hletter.2 hmatch.1.symm
              cases star with
              | none =>
                  cases hrun
                  exact hfailed rfl hnot
              | some star => exact hretry _ _ rfl hnot hrun

/-- The loop ends on every input, and with the answer whether the pattern stands for the text. -/
theorem wildcardMatch_glob (pattern text : Bytes) (htext : 42 ∉ text) :
    (∃ enough, ∀ rounds, enough ≤ rounds →
      wildcardRun rounds pattern text none = some (wildcardMatch pattern text)) ∧
    (wildcardMatch pattern text = true ↔ Matches (pattern.map token) text) := by
  have hanswer : ∀ rounds, (text.length + 2) * (pattern.length + text.length + 1) ≤ rounds →
      ∃ found, wildcardRun rounds pattern text none = some found ∧
        (found = true ↔ Matches (pattern.map token) text) := by
    intro rounds hrounds
    have hunderway : Underway pattern.length text.length (text.length + 1) pattern text none :=
      ⟨Nat.le_refl _, Nat.le_refl _, fun _ => Nat.lt_succ_self _, nofun⟩
    have hend : (wildcardRun rounds pattern text none).isSome := by
      refine isSome_wildcardRun hunderway ?_
      rw [Nat.succ_mul (text.length + 1)] at hrounds
      omega
    obtain ⟨found, hfound⟩ := Option.isSome_iff_exists.1 hend
    have hreaches : Reaches pattern text none ↔ Matches (pattern.map token) text := by
      simp [Reaches]
    exact ⟨found, hfound, (wildcardRun_iff htext (stands_none _ _) hfound).trans hreaches⟩
  obtain ⟨found, hfound, hmatches⟩ := hanswer _ (Nat.le_refl _)
  have hmatch : wildcardMatch pattern text = found := by
    rw [wildcardMatch, wildcardLoop_eq, hfound, Option.getD_some]
  rw [hmatch]
  refine ⟨⟨(text.length + 2) * (pattern.length + text.length + 1), fun rounds hrounds => ?_⟩,
    hmatches⟩
  obtain ⟨found', hfound', hmatches'⟩ := hanswer rounds hrounds
  rw [hfound', Bool.eq_iff_iff.2 (hmatches'.trans hmatches.symm)]

theorem wildcardMatch_glob_sample :
    wildcardMatch (ofString "*\\chrome?.exe") (ofString "c:\\apps\\chrome1.exe") = true ↔
      Matches ((ofString "*\\chrome?.exe").map token) (ofString "c:\\apps\\chrome1.exe") :=
  (wildcardMatch_glob (ofString "*\\chrome?.exe") (ofString "c:\\apps\\chrome1.exe")
    (by decide)).2

end Process

end SplitHello
