import SplitHello.Recovery
import SplitHello.Library.SlidingWindow

/-!
# The budget of restarts as a sliding window

Between two resets the budget remembers the calls that were granted and still count. What
it drops is over for good, so the queue stands for all granted calls: a call is refused
only when the window that ends at it is full, and is given its place in the window
otherwise.
-/

namespace SplitHello

namespace Recovery

open SlidingWindow History

/-- What the tray does with its budget. -/
inductive BudgetCall
  | consume (nowMs : UInt64)
  | reset
  deriving DecidableEq, Repr

namespace RestartBudget

def step (budget : RestartBudget) : BudgetCall → RestartBudget
  | .consume nowMs => (budget.consume nowMs).1
  | .reset => budget.reset

/-- The budget after calls at these times. -/
def after (budget : RestartBudget) (times : List UInt64) : RestartBudget :=
  run step budget (times.map .consume)

/-- The times of the calls among these that are granted. -/
def granted (budget : RestartBudget) : List UInt64 → List ℕ
  | [] => []
  | nowMs :: times =>
      if (budget.consume nowMs).2 = 0 then (budget.consume nowMs).1.granted times
      else nowMs.toNat :: (budget.consume nowMs).1.granted times

theorem after_concat (budget : RestartBudget) (times : List UInt64) (nowMs : UInt64) :
    budget.after (times ++ [nowMs]) = ((budget.after times).consume nowMs).1 := by
  rw [after, after, List.map_append, List.map_singleton, run_concat]
  rfl

theorem granted_concat (budget : RestartBudget) (times : List UInt64) (nowMs : UInt64) :
    budget.granted (times ++ [nowMs]) = budget.granted times ++
      if ((budget.after times).consume nowMs).2 = 0 then [] else [nowMs.toNat] := by
  induction times generalizing budget with
  | nil =>
      rw [List.nil_append, granted, granted, granted]
      rfl
  | cons t times ih =>
      have hafter : budget.after (t :: times) = (budget.consume t).1.after times := rfl
      rw [List.cons_append, granted, granted, ih, hafter]
      split
      · rfl
      · rfl

/-- Purging drops what no longer counts. -/
theorem purge_attempts {budget : RestartBudget} {nowMs : UInt64}
    (hsorted : budget.attempts.Pairwise (· ≤ ·)) (hle : ∀ t ∈ budget.attempts, t ≤ nowMs) :
    (budget.purge nowMs).attempts.map UInt64.toNat =
      within budget.windowMs.toNat nowMs.toNat (budget.attempts.map UInt64.toNat) := by
  refine map_dropWhile_eq_within (fun t ht => ?_) ?_
  · have htle := hle t ht
    have hsub := UInt64.toNat_sub_of_le _ _ htle
    rw [UInt64.le_iff_toNat_le] at htle
    rw [decide_eq_true_eq, UInt64.le_iff_toNat_le, hsub]
    omega
  · exact hsorted.map _ fun _ _ h => UInt64.le_iff_toNat_le.1 h

/-- What `consume` does: it refuses in a full window, or takes the next place in it. -/
theorem consume_cases (budget : RestartBudget) (nowMs : UInt64) :
    (budget.maxAttempts ≤ (budget.purge nowMs).attempts.length ∧
        budget.consume nowMs = (budget.purge nowMs, 0)) ∨
      ((budget.purge nowMs).attempts.length < budget.maxAttempts ∧
        budget.consume nowMs =
          ({ budget.purge nowMs with attempts := (budget.purge nowMs).attempts ++ [nowMs] },
            (budget.purge nowMs).attempts.length + 1)) := by
  have hlimit : (budget.purge nowMs).maxAttempts = budget.maxAttempts := rfl
  rw [consume]
  dsimp only
  rw [hlimit]
  by_cases hfull : budget.maxAttempts ≤ (budget.purge nowMs).attempts.length
  · exact Or.inl ⟨hfull, if_pos hfull⟩
  · exact Or.inr ⟨Nat.not_le.1 hfull, if_neg hfull⟩

/-- The queue of a budget that was empty before calls at these times stands for all of them
that were granted. -/
structure Follows (start budget : RestartBudget) (times : List UInt64) : Prop where
  limit : budget.maxAttempts = start.maxAttempts
  window : budget.windowMs = start.windowMs
  sorted : budget.attempts.Pairwise (· ≤ ·)
  subset : ∀ t ∈ budget.attempts, t ∈ times
  counts : ∀ now, (∀ t ∈ times, t.toNat ≤ now) →
    within start.windowMs.toNat now (budget.attempts.map UInt64.toNat) =
      within start.windowMs.toNat now (start.granted times)
  limited : Limited start.windowMs.toNat start.maxAttempts (start.granted times)

variable {start budget : RestartBudget} {times : List UInt64}

/-- A purged queue is what the window holds. -/
theorem Follows.purge (h : Follows start budget times) {nowMs : UInt64}
    (hle : ∀ t ∈ times, t ≤ nowMs) :
    (budget.purge nowMs).attempts.map UInt64.toNat =
      within start.windowMs.toNat nowMs.toNat (start.granted times) := by
  rw [purge_attempts h.sorted fun t ht => hle t (h.subset t ht), h.window]
  exact h.counts nowMs.toNat fun t ht => UInt64.le_iff_toNat_le.1 (hle t ht)

theorem Follows.consume (h : Follows start (start.after times) times) {nowMs : UInt64}
    (hle : ∀ t ∈ times, t ≤ nowMs) :
    Follows start (start.after (times ++ [nowMs])) (times ++ [nowMs]) := by
  have hpurge := h.purge hle
  have hsorted : ((start.after times).purge nowMs).attempts.Pairwise (· ≤ ·) :=
    h.sorted.sublist (List.dropWhile_sublist _)
  have hsubset : ∀ t ∈ ((start.after times).purge nowMs).attempts, t ∈ times :=
    fun t ht => h.subset t (List.dropWhile_subset _ ht)
  have hinit : ∀ now, (∀ t ∈ times ++ [nowMs], t.toNat ≤ now) → nowMs.toNat ≤ now :=
    fun now hnow => hnow nowMs (List.mem_append_right _ List.mem_cons_self)
  rcases consume_cases (start.after times) nowMs with ⟨hfull, heq⟩ | ⟨hroom, heq⟩
  · refine ⟨?_, ?_, ?_, ?_, ?_, ?_⟩
    all_goals simp only [after_concat, granted_concat, heq, if_true, List.append_nil]
    · exact h.limit
    · exact h.window
    · exact hsorted
    · exact fun t ht => List.mem_append_left _ (hsubset t ht)
    · intro now hnow
      rw [hpurge, within_within (hinit now hnow)]
    · exact h.limited
  · have hne : ¬ ((start.after times).purge nowMs).attempts.length + 1 = 0 := by omega
    refine ⟨?_, ?_, ?_, ?_, ?_, ?_⟩
    all_goals simp only [after_concat, granted_concat, heq, if_neg hne]
    · exact h.limit
    · exact h.window
    · refine List.pairwise_append.2 ⟨hsorted, List.pairwise_singleton _ _, ?_⟩
      intro t ht t' ht'
      rw [List.mem_singleton.1 ht']
      exact hle t (hsubset t ht)
    · intro t ht
      rcases List.mem_append.1 ht with ht | ht
      · exact List.mem_append_left _ (hsubset t ht)
      · exact List.mem_append_right _ ht
    · intro now hnow
      rw [List.map_append, within_append, within_append, hpurge, within_within (hinit now hnow)]
      rfl
    · refine h.limited.concat ?_
      rw [← hpurge, List.length_map, ← h.limit]
      exact hroom

theorem follows_after (hstart : start.attempts = []) (hclock : times.Pairwise (· ≤ ·)) :
    Follows start (start.after times) times := by
  induction times using List.reverseRecOn with
  | nil =>
      have hafter : start.after [] = start := rfl
      rw [hafter]
      refine ⟨rfl, rfl, ?_, ?_, ?_, Limited.nil _ _⟩
      · rw [hstart]
        exact List.Pairwise.nil
      · intro t ht
        rw [hstart] at ht
        cases ht
      · intro now _
        rw [hstart]
        rfl
  | append_singleton times nowMs ih =>
      obtain ⟨hinit, -, hlast⟩ := List.pairwise_append.1 hclock
      exact (ih hinit).consume fun t ht => hlast t ht nowMs List.mem_cons_self

/-- A budget keeps its limit and its window, whatever is done with it. -/
theorem run_settings (budget : RestartBudget) (calls : List BudgetCall) :
    (run step budget calls).maxAttempts = budget.maxAttempts ∧
      (run step budget calls).windowMs = budget.windowMs := by
  refine run_invariant step budget
    (fun _ b => b.maxAttempts = budget.maxAttempts ∧ b.windowMs = budget.windowMs) ⟨rfl, rfl⟩ ?_
    calls
  intro _ b call hb
  cases call with
  | reset => exact hb
  | consume nowMs =>
      rw [step]
      rcases consume_cases b nowMs with ⟨-, heq⟩ | ⟨-, heq⟩
      · rw [heq]
        exact hb
      · rw [heq]
        exact hb

/-- The answer to a call is its place in the window that ends with it, or zero if the
window is full. -/
structure Places (start : RestartBudget) (maxAttempts width : ℕ) (times : List UInt64)
    (nowMs : UInt64) : Prop where
  refused : ((start.after times).consume nowMs).2 = 0 →
    maxAttempts ≤ (within width nowMs.toNat (start.granted times)).length
  granted : ((start.after times).consume nowMs).2 ≠ 0 →
    ((start.after times).consume nowMs).2 =
      (within width nowMs.toNat (start.granted (times ++ [nowMs]))).length

theorem Follows.places (h : Follows start (start.after times) times) {nowMs : UInt64}
    (hle : ∀ t ∈ times, t ≤ nowMs) (hwindow : 1 ≤ start.windowMs.toNat) :
    Places start start.maxAttempts start.windowMs.toNat times nowMs := by
  have hlength := congrArg List.length (h.purge hle)
  rw [List.length_map] at hlength
  rcases consume_cases (start.after times) nowMs with ⟨hfull, heq⟩ | ⟨hroom, heq⟩
  · refine ⟨fun _ => ?_, fun hne => absurd (by rw [heq]) hne⟩
    rw [← hlength, ← h.limit]
    exact hfull
  · have hne : ((start.after times).consume nowMs).2 ≠ 0 := by
      rw [heq]
      exact Nat.succ_ne_zero _
    refine ⟨fun hzero => absurd hzero hne, fun _ => ?_⟩
    have hcounts : within start.windowMs.toNat nowMs.toNat [nowMs.toNat] = [nowMs.toNat] := by
      rw [within, List.filter_eq_self.2]
      intro t ht
      rw [List.mem_singleton.1 ht, decide_eq_true_eq]
      omega
    rw [granted_concat, if_neg hne, within_append, hcounts, List.length_append, ← hlength, heq]
    rfl

theorem max_one {windowMs : UInt64} (h : 1 ≤ windowMs) : max windowMs 1 = windowMs := by
  rw [UInt64.max_def]
  split
  · exact UInt64.le_antisymm h ‹_›
  · rfl

/-- Between two resets the budget is a sliding window: no half-open interval of its length
has more granted calls than it allows, a call is refused only when the window that ends
with it has as many, and a granted call is told its place in this window. -/
theorem budget_slides (maxAttempts : ℕ) (windowMs : UInt64) (before : List BudgetCall)
    (times : List UInt64) (hmax : 1 ≤ maxAttempts) (hwindow : 1 ≤ windowMs)
    (hclock : times.Pairwise (· ≤ ·)) :
    let start := (run step (create maxAttempts windowMs) before).reset
    (∀ a, (interval windowMs.toNat a (start.granted times)).length ≤ maxAttempts) ∧
      ∀ earlier nowMs later, times = earlier ++ nowMs :: later →
        Places start maxAttempts windowMs.toNat earlier nowMs := by
  intro start
  obtain ⟨hlimit, hwidth⟩ := run_settings (create maxAttempts windowMs) before
  have hlimit : start.maxAttempts = maxAttempts := hlimit.trans (max_eq_left hmax)
  have hwidth : start.windowMs = windowMs := hwidth.trans (max_one hwindow)
  have hone : 1 ≤ start.windowMs.toNat := by
    rw [hwidth]
    exact UInt64.le_iff_toNat_le.1 hwindow
  refine ⟨fun a => ?_, fun earlier nowMs later heq => ?_⟩
  · have hfollows : Follows start (start.after times) times := follows_after rfl hclock
    have hlimited := hfollows.limited
    rw [hlimit, hwidth] at hlimited
    exact hlimited.interval_le a
  · rw [heq] at hclock
    obtain ⟨hinit, -, hlast⟩ := List.pairwise_append.1 hclock
    have hfollows : Follows start (start.after earlier) earlier := follows_after rfl hinit
    have hplaces := hfollows.places (fun t ht => hlast t ht nowMs List.mem_cons_self) hone
    rw [hlimit, hwidth] at hplaces
    exact hplaces

/-- Three restarts within a second, a fourth that is refused, and one a window later. -/
theorem budget_slides_sample :
    let start := (run step (create 3 60000) []).reset
    let times : List UInt64 := [0, 100, 900, 1000, 60000]
    (start.granted times = [0, 100, 900, 60000]) ∧
      ∀ a, (interval 60000 a (start.granted times)).length ≤ 3 := by
  intro start times
  exact ⟨by decide, (budget_slides 3 60000 [] times (by decide) (by decide) (by decide)).1⟩

end RestartBudget

end Recovery

end SplitHello
