import SplitHello.Recovery
import SplitHello.Library.Streak

/-!
# When the Worker counts as unavailable

A failure is a transport error, a refused secret or a server error; HTTP 429 is passed over,
and every other answer breaks a streak of failures, as does a failure that comes too late or
carries an earlier time. The Worker's health is this streak in three numbers, so it latches
at the first failure that ends a sustained run, as long as the streak fits its counter.
-/

namespace SplitHello

namespace Recovery

open History Streak

/-- What the Worker answered, and when. -/
structure Observation where
  httpStatus : ℤ
  nowMs : ℕ
  retryAfterSeconds : ℕ := 0
  deriving DecidableEq, Repr

namespace Observation

def kind (o : Observation) : Kind :=
  if o.httpStatus = 429 then .passes
  else if o.httpStatus < 0 ∨ o.httpStatus = 401 ∨ o.httpStatus = 403 ∨ 500 ≤ o.httpStatus then
    .counts
  else .breaks

/-- Failures, each at most a minute after the one before. -/
def rules : Rules Observation where
  kind := kind
  close a b := a.nowMs ≤ b.nowMs && b.nowMs ≤ a.nowMs + workerFailureGapMs

end Observation

/-- A run of failures that is long enough, in number and in time. -/
structure Sustained (failures : List Observation) : Prop where
  many : workerFailureThreshold ≤ failures.length
  long : ∃ first last, failures.head? = some first ∧ failures.getLast? = some last ∧
    first.nowMs + workerMinStreakMs ≤ last.nowMs

/-- The last observation is a failure, and ends a sustained run of failures with no success
among them. -/
def EndsSustained (h : List Observation) : Prop :=
  ∃ last failures, h.getLast? = some last ∧ last.kind = .counts ∧
    Observation.rules.IsRun h failures ∧ Sustained failures

/-- The times of a run do not decrease. -/
theorem run_sorted {h r : List Observation} (hr : Observation.rules.IsRun h r) :
    r.Pairwise fun a b => a.nowMs ≤ b.nowMs := by
  have hchain : r.IsChain fun a b => a.nowMs ≤ b.nowMs := by
    refine hr.close.imp fun a b hclose => ?_
    simp only [Observation.rules, Bool.and_eq_true, decide_eq_true_eq] at hclose
    exact hclose.1
  have htrans : IsTrans Observation fun a b => a.nowMs ≤ b.nowMs := ⟨fun _ _ _ => Nat.le_trans⟩
  exact List.isChain_iff_pairwise.1 hchain

theorem head_le_last {r : List Observation} (h : r.Pairwise fun a b => a.nowMs ≤ b.nowMs)
    {first last : Observation} (hfirst : r.head? = some first) (hlast : r.getLast? = some last) :
    first.nowMs ≤ last.nowMs := by
  cases r with
  | nil => cases hfirst
  | cons a r =>
      cases hfirst
      rcases List.mem_cons.1 (List.mem_of_getLast? hlast) with rfl | hmem
      · exact Nat.le_refl _
      · exact (List.pairwise_cons.1 h).1 last hmem

theorem Sustained.of_isSuffix {r s : List Observation} (h : Sustained r) (hsuffix : r <:+ s)
    (hsorted : s.Pairwise fun a b => a.nowMs ≤ b.nowMs) : Sustained s := by
  obtain ⟨first, last, hfirst, hlast, hlong⟩ := h.long
  obtain ⟨front, rfl⟩ := hsuffix
  have hne : r ≠ [] := by
    rintro rfl
    cases hfirst
  refine ⟨?_, ?_⟩
  · have hmany := h.many
    rw [List.length_append]
    omega
  · have hend : (front ++ r).getLast? = some last := by
      rw [List.getLast?_append_of_ne_nil front hne, hlast]
    cases front with
    | nil => exact ⟨first, last, hfirst, hend, hlong⟩
    | cons a front =>
        refine ⟨a, last, rfl, hend, ?_⟩
        have hle := (List.pairwise_append.1 hsorted).2.2 a List.mem_cons_self first
          (List.mem_of_head? hfirst)
        omega

/-- The streak decides whether a failure ends a sustained run. -/
theorem endsSustained_iff {h : List Observation} {o : Observation} (ho : o.kind = .counts) :
    EndsSustained (h ++ [o]) ↔ Sustained (Observation.rules.streak (h ++ [o])) := by
  have hstreak := Observation.rules.streak_isRun (h ++ [o])
  constructor
  · rintro ⟨last, failures, -, -, hrun, hsustained⟩
    exact hsustained.of_isSuffix hrun.isSuffix (run_sorted hstreak)
  · intro hsustained
    exact ⟨o, _, List.getLast?_concat, ho, hstreak, hsustained⟩

namespace WorkerHealth

def step (health : WorkerHealth) (o : Observation) : WorkerHealth :=
  health.observe o.httpStatus o.nowMs o.retryAfterSeconds

/-- The counter is at its end, and another failure of the streak comes. -/
def Wraps (health : WorkerHealth) (o : Observation) : Prop :=
  health.unavailable = false ∧ o.kind = .counts ∧ health.failures = 2 ^ 32 - 1 ∧
    since o.nowMs health.lastFailureMs ≤ workerFailureGapMs

theorem since_eq {nowMs earlierMs : ℕ} (hnow : nowMs < 2 ^ 63) (hle : earlierMs ≤ nowMs) :
    since nowMs earlierMs = nowMs - earlierMs := by
  rw [since]
  omega

/-- An earlier time is far away, and not close behind. -/
theorem since_le_gap_iff {nowMs earlierMs : ℕ} (hnow : nowMs < 2 ^ 63)
    (hearlier : earlierMs < 2 ^ 63) :
    since nowMs earlierMs ≤ workerFailureGapMs ↔
      earlierMs ≤ nowMs ∧ nowMs ≤ earlierMs + workerFailureGapMs := by
  rw [since, workerFailureGapMs]
  omega

/-- The three numbers of a streak. -/
structure Keeps (health : WorkerHealth) (streak : List Observation) : Prop where
  failures : health.failures = streak.length
  small : health.failures < 2 ^ 32
  start : ∀ o, streak.head? = some o → o.nowMs = health.streakStartMs
  last : ∀ o, streak.getLast? = some o → o.nowMs = health.lastFailureMs

/-- What an observation does as long as nothing has latched. -/
theorem step_cases {health : WorkerHealth} (h : health.unavailable = false) (o : Observation) :
    (o.kind = .passes ∧ ∃ backoffUntilMs, health.step o = { health with backoffUntilMs }) ∨
      (o.kind = .breaks ∧ health.step o = { health with failures := 0 }) ∨
      (o.kind = .counts ∧ ∃ failures streakStartMs,
        health.step o = { health with
          failures, streakStartMs
          lastFailureMs := o.nowMs
          unavailable := workerFailureThreshold ≤ failures &&
            workerMinStreakMs ≤ since o.nowMs streakStartMs } ∧
        ((health.failures = 0 ∨ workerFailureGapMs < since o.nowMs health.lastFailureMs) ∧
            failures = 1 ∧ streakStartMs = o.nowMs ∨
          ¬ (health.failures = 0 ∨ workerFailureGapMs < since o.nowMs health.lastFailureMs) ∧
            failures = (health.failures + 1) % 2 ^ 32 ∧
              streakStartMs = health.streakStartMs)) := by
  rw [step, observe, if_neg (by rw [h]; decide), Observation.kind]
  by_cases hlimited : o.httpStatus = 429
  · rw [if_pos hlimited, if_pos hlimited]
    exact Or.inl ⟨rfl, _, rfl⟩
  · rw [if_neg hlimited, if_neg hlimited]
    by_cases hfailed : o.httpStatus < 0 ∨ o.httpStatus = 401 ∨ o.httpStatus = 403 ∨
        500 ≤ o.httpStatus
    · rw [if_neg (not_not.2 hfailed), if_pos hfailed]
      refine Or.inr (Or.inr ⟨rfl, _, _, rfl, ?_⟩)
      by_cases hrestarts : health.failures = 0 ∨
          workerFailureGapMs < since o.nowMs health.lastFailureMs
      · exact Or.inl ⟨hrestarts, by simp [hrestarts], by simp [hrestarts]⟩
      · exact Or.inr ⟨hrestarts, by simp [hrestarts], by simp [hrestarts]⟩
    · rw [if_pos hfailed, if_neg hfailed]
      exact Or.inr (Or.inl ⟨rfl, rfl⟩)

variable {health : WorkerHealth} {h : List Observation} {o : Observation}

/-- The health starts over exactly when the failure does not follow closely on the streak. -/
theorem Keeps.restarts_iff (hk : health.Keeps (Observation.rules.streak h))
    (htimes : ∀ x ∈ h ++ [o], x.nowMs < 2 ^ 63) :
    (health.failures = 0 ∨ workerFailureGapMs < since o.nowMs health.lastFailureMs) ↔
      ¬ ((Observation.rules.streak h).getLast?.any fun last =>
        Observation.rules.close last o) = true := by
  rcases List.eq_nil_or_concat (Observation.rules.streak h) with hnil | ⟨front, last, hconcat⟩
  · have hzero : health.failures = 0 := by
      rw [hk.failures, hnil]
      rfl
    rw [hnil]
    simp [hzero]
  · rw [List.concat_eq_append] at hconcat
    have hlast : (Observation.rules.streak h).getLast? = some last := by
      rw [hconcat, List.getLast?_concat]
    have hsome : health.failures ≠ 0 := by
      rw [hk.failures, hconcat, List.length_append, List.length_singleton]
      omega
    have hmem : last ∈ h :=
      (Observation.rules.streak_isRun h).mem (List.mem_of_getLast? hlast)
    have hgap := since_le_gap_iff (htimes o (List.mem_append_right _ List.mem_cons_self))
      (htimes last (List.mem_append_left _ hmem))
    rw [hlast, Option.any_some, ← hk.last last hlast, ← Nat.not_le, hgap]
    simp [hsome, Observation.rules]

/-- The three numbers decide whether a streak is a sustained run. -/
theorem Keeps.latch_iff {streak : List Observation} (hk : health.Keeps streak)
    (hsorted : streak.Pairwise fun a b => a.nowMs ≤ b.nowMs) (hlast : streak.getLast? = some o)
    (ho : o.nowMs < 2 ^ 63) :
    (workerFailureThreshold ≤ health.failures &&
        workerMinStreakMs ≤ since o.nowMs health.streakStartMs) = true ↔ Sustained streak := by
  cases streak with
  | nil => cases hlast
  | cons first streak =>
      have hle := head_le_last hsorted rfl hlast
      rw [Bool.and_eq_true, decide_eq_true_eq, decide_eq_true_eq, hk.failures,
        ← hk.start first rfl, since_eq ho hle]
      constructor
      · rintro ⟨hmany, hlong⟩
        exact ⟨hmany, first, o, rfl, hlast, by omega⟩
      · rintro ⟨hmany, first', last, hfirst, hend, hlong⟩
        cases hfirst
        rw [hlast, Option.some.injEq] at hend
        subst hend
        exact ⟨hmany, by omega⟩

/-- After a failure the three numbers are those of the streak with it. -/
theorem Keeps.fail (hk : health.Keeps (Observation.rules.streak h))
    (hopen : health.unavailable = false) (htimes : ∀ x ∈ h ++ [o], x.nowMs < 2 ^ 63)
    (hwraps : ¬ health.Wraps o) (hkind : o.kind = .counts) {failures streakStartMs : ℕ}
    (hcases : (health.failures = 0 ∨ workerFailureGapMs < since o.nowMs health.lastFailureMs) ∧
        failures = 1 ∧ streakStartMs = o.nowMs ∨
      ¬ (health.failures = 0 ∨ workerFailureGapMs < since o.nowMs health.lastFailureMs) ∧
        failures = (health.failures + 1) % 2 ^ 32 ∧ streakStartMs = health.streakStartMs)
    (unavailable : Bool) :
    Keeps { health with failures, streakStartMs, lastFailureMs := o.nowMs, unavailable }
        (Observation.rules.streak (h ++ [o])) ∧
      (Observation.rules.streak (h ++ [o])).getLast? = some o := by
  have hrestarts := hk.restarts_iff htimes
  rw [Rules.streak_concat_of_counts h hkind]
  rcases hcases with ⟨hfar, rfl, rfl⟩ | ⟨hclose, hcount, rfl⟩
  · rw [if_neg (hrestarts.1 hfar)]
    refine ⟨⟨rfl, show 1 < 2 ^ 32 by omega, ?_, ?_⟩, rfl⟩
    · intro x hx
      cases hx
      rfl
    · intro x hx
      cases hx
      rfl
  · rw [if_pos (not_not.1 fun hfar => hclose (hrestarts.2 hfar))]
    rw [not_or, Nat.not_lt] at hclose
    have hroom : health.failures ≠ 2 ^ 32 - 1 :=
      fun hend => hwraps ⟨hopen, hkind, hend, hclose.2⟩
    have hsmall := hk.small
    have hcount : failures = health.failures + 1 := by omega
    refine ⟨⟨?_, ?_, ?_, ?_⟩, List.getLast?_concat⟩
    · rw [List.length_append, List.length_singleton, ← hk.failures]
      exact hcount
    · dsimp only
      omega
    · intro x hx
      refine hk.start x ?_
      rw [← hx, List.head?_append_of_ne_nil]
      rintro hnil
      exact hclose.1 (by rw [hk.failures, hnil]; rfl)
    · intro x hx
      rw [List.getLast?_concat, Option.some.injEq] at hx
      rw [← hx]

/-- One observation: the numbers stay those of the streak, and the health latches exactly on
a sustained run. -/
theorem Keeps.step (hk : health.Keeps (Observation.rules.streak h))
    (hopen : health.unavailable = false) (htimes : ∀ x ∈ h ++ [o], x.nowMs < 2 ^ 63)
    (hwraps : ¬ health.Wraps o) :
    (health.step o).Keeps (Observation.rules.streak (h ++ [o])) ∧
      ((health.step o).unavailable = true ↔ EndsSustained (h ++ [o])) := by
  have hends : o.kind ≠ .counts → ¬ EndsSustained (h ++ [o]) := by
    rintro hne ⟨last, failures, hlast, hkind, -⟩
    rw [List.getLast?_concat, Option.some.injEq] at hlast
    exact hne (hlast ▸ hkind)
  rcases step_cases hopen o with ⟨hkind, backoffUntilMs, hstep⟩ | ⟨hkind, hstep⟩ |
    ⟨hkind, failures, streakStartMs, hstep, hcases⟩
  · have hends := hends (by rw [hkind]; decide)
    rw [Rules.streak_concat_of_passes h hkind, hstep]
    exact ⟨⟨hk.failures, hk.small, hk.start, hk.last⟩, by simp [hopen, hends]⟩
  · have hends := hends (by rw [hkind]; decide)
    rw [Rules.streak_concat_of_breaks h hkind, hstep]
    exact ⟨⟨rfl, show 0 < 2 ^ 32 by omega, nofun, nofun⟩, by simp [hopen, hends]⟩
  · obtain ⟨hkeeps, hlast⟩ := hk.fail hopen htimes hwraps hkind hcases
      (workerFailureThreshold ≤ failures && workerMinStreakMs ≤ since o.nowMs streakStartMs)
    have hsorted := run_sorted (Observation.rules.streak_isRun (h ++ [o]))
    rw [endsSustained_iff hkind, hstep]
    exact ⟨hkeeps, hkeeps.latch_iff hsorted hlast
      (htimes o (List.mem_append_right _ List.mem_cons_self))⟩

end WorkerHealth

end Recovery

end SplitHello
