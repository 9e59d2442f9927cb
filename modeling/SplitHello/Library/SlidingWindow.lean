import SplitHello.Library.History
import Mathlib.Data.Nat.Notation

/-!
# Sliding windows

A time counts for `width` units, so at `now` those count that lie in the half-open interval
of this length that ends at `now`. `Limited` says of a list of times that none of them was
the one too many when it came; then no interval of the length has too many, wherever it
starts.
-/

namespace SlidingWindow

section

variable {width now later : ℕ} {times : List ℕ}

/-- The times that still count. -/
def within (width now : ℕ) (times : List ℕ) : List ℕ :=
  times.filter fun t => now < t + width

theorem within_append (width now : ℕ) (a b : List ℕ) :
    within width now (a ++ b) = within width now a ++ within width now b :=
  List.filter_append a b

/-- What is over does not come back. -/
theorem within_within (h : now ≤ later) :
    within width later (within width now times) = within width later times := by
  rw [within, within, within, List.filter_filter]
  refine List.filter_congr fun t _ => ?_
  rw [Bool.eq_iff_iff, Bool.and_eq_true, decide_eq_true_eq, decide_eq_true_eq]
  omega

/-- In a sorted queue what is over stands in front. -/
theorem map_dropWhile_eq_within {α : Type*} {time : α → ℕ} {stale : α → Bool} {queue : List α}
    (hstale : ∀ a ∈ queue, stale a = true ↔ time a + width ≤ now)
    (hsorted : (queue.map time).Pairwise (· ≤ ·)) :
    (queue.dropWhile stale).map time = within width now (queue.map time) := by
  induction queue with
  | nil => rfl
  | cons a queue ih =>
      rw [List.map_cons, List.pairwise_cons] at hsorted
      have hfirst := hstale a List.mem_cons_self
      by_cases hdone : stale a = true
      · have hcounts : ¬ now < time a + width := Nat.not_lt.2 (hfirst.1 hdone)
        rw [List.dropWhile_cons_of_pos hdone, List.map_cons, within,
          List.filter_cons_of_neg (by simpa using hcounts)]
        exact ih (fun b hb => hstale b (List.mem_cons_of_mem a hb)) hsorted.2
      · have hcounts : now < time a + width := Nat.not_le.1 fun h => hdone (hfirst.2 h)
        rw [List.dropWhile_cons_of_neg hdone, within, List.filter_eq_self.2]
        intro t ht
        rw [decide_eq_true_eq]
        rcases List.mem_cons.1 ht with rfl | ht
        · exact hcounts
        · have hle := hsorted.1 t ht
          omega

/-- The times that lie in the interval of the length from `start` on. -/
def interval (width start : ℕ) (times : List ℕ) : List ℕ :=
  times.filter fun t => start ≤ t && t < start + width

/-- Each time came when fewer than `limit` others counted. -/
def Limited (width limit : ℕ) (times : List ℕ) : Prop :=
  ∀ before t after, times = before ++ t :: after → (within width t before).length < limit

theorem Limited.nil (width limit : ℕ) : Limited width limit [] := by
  intro before t after heq
  cases before <;> cases heq

theorem Limited.concat {limit : ℕ} (h : Limited width limit times) {t : ℕ}
    (hfew : (within width t times).length < limit) : Limited width limit (times ++ [t]) := by
  intro before t' after heq
  rcases History.concat_eq_cases heq with ⟨-, rfl, rfl⟩ | ⟨rest, -, hbefore⟩
  · exact hfew
  · exact h before t' rest hbefore

theorem Limited.init {limit : ℕ} {t : ℕ} (h : Limited width limit (times ++ [t])) :
    Limited width limit times := by
  intro before t' after heq
  exact h before t' (after ++ [t]) (by rw [heq, List.append_assoc, List.cons_append])

/-- An interval ends with some time of its own, and all others in it still counted then. -/
theorem Limited.interval_le {limit : ℕ} (h : Limited width limit times) (start : ℕ) :
    (interval width start times).length ≤ limit := by
  induction times using List.reverseRecOn with
  | nil => exact Nat.zero_le limit
  | append_singleton times t ih =>
      rw [interval, List.filter_append, List.length_append]
      by_cases hinside : start ≤ t ∧ t < start + width
      · have hfew : (within width t times).length < limit := h times t [] rfl
        have hsub : (times.filter fun t => start ≤ t && t < start + width).length ≤
            (within width t times).length := by
          rw [within, ← List.countP_eq_length_filter, ← List.countP_eq_length_filter]
          refine List.countP_mono_left fun t' _ ht' => ?_
          rw [Bool.and_eq_true, decide_eq_true_eq, decide_eq_true_eq] at ht'
          rw [decide_eq_true_eq]
          omega
        have hone : ([t].filter fun t => start ≤ t && t < start + width).length ≤ 1 :=
          List.length_filter_le _ _
        omega
      · have hnone : ([t].filter fun t => start ≤ t && t < start + width) = [] := by
          simpa using hinside
        rw [hnone, List.length_nil, Nat.add_zero]
        exact ih h.init

end

end SlidingWindow
