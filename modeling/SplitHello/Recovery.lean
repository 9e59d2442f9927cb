import Mathlib.Algebra.Group.Nat.Defs
import Mathlib.Data.Nat.Basic

/-!
# The Worker's health and the budget of restarts

A transport error, a refused secret or a server error is a failure; HTTP 429 only
starts a back-off. The Worker counts as unavailable after a long enough run of
failures.

An engine that has crashed is restarted a few times within a window of time.
-/

namespace SplitHello

namespace Recovery

def workerFailureThreshold : ℕ := 5
def workerFailureGapMs : ℕ := 60000
def workerMinStreakMs : ℕ := 15000
def rateLimitDefaultBackoffMs : ℕ := 5000
def rateLimitMaxBackoffMs : ℕ := 30000

structure WorkerHealth where
  failures : ℕ := 0
  streakStartMs : ℕ := 0
  lastFailureMs : ℕ := 0
  backoffUntilMs : ℕ := 0
  unavailable : Bool := false
  deriving DecidableEq, Repr

namespace WorkerHealth

/-- The difference of two clock readings, as 64-bit arithmetic has it. -/
def since (nowMs earlierMs : ℕ) : ℕ := (nowMs + (2 ^ 64 - earlierMs % 2 ^ 64)) % 2 ^ 64

def observe (health : WorkerHealth) (httpStatus : ℤ) (nowMs retryAfterSeconds : ℕ) :
    WorkerHealth :=
  if health.unavailable then health
  else if httpStatus = 429 then
    let requested :=
      if retryAfterSeconds ≠ 0 then retryAfterSeconds * 1000 else rateLimitDefaultBackoffMs
    { health with
      backoffUntilMs := max health.backoffUntilMs
        ((nowMs + min requested rateLimitMaxBackoffMs) % 2 ^ 64) }
  else if ¬ (httpStatus < 0 ∨ httpStatus = 401 ∨ httpStatus = 403 ∨ 500 ≤ httpStatus) then
    { health with failures := 0 }
  else
    let restarts : Bool :=
      health.failures = 0 || workerFailureGapMs < since nowMs health.lastFailureMs
    let streakStartMs := if restarts then nowMs else health.streakStartMs
    let failures := if restarts then 1 else (health.failures + 1) % 2 ^ 32
    { health with
      failures, streakStartMs
      lastFailureMs := nowMs
      unavailable := workerFailureThreshold ≤ failures &&
        workerMinStreakMs ≤ since nowMs streakStartMs }

def backingOff (health : WorkerHealth) (nowMs : ℕ) : Bool := nowMs < health.backoffUntilMs

end WorkerHealth

def restartWindowMs : UInt64 := 10 * 60 * 1000
def maxAutomaticRestarts : ℕ := 3
def workerUnavailableExitCode : UInt32 := 3

def automaticRestartDelayMs (attemptNumber : ℕ) : UInt64 :=
  if attemptNumber = 0 then 0 else min (1000 <<< min (attemptNumber.toUInt64 - 1) 3) 8000

/-- The attempts of the current window, oldest first. -/
structure RestartBudget where
  maxAttempts : ℕ
  windowMs : UInt64
  attempts : List UInt64 := []
  deriving DecidableEq, Repr

namespace RestartBudget

def create (maxAttempts : ℕ) (windowMs : UInt64) : RestartBudget :=
  { maxAttempts := max maxAttempts 1, windowMs := max windowMs 1 }

def purge (budget : RestartBudget) (nowMs : UInt64) : RestartBudget :=
  { budget with
    attempts := budget.attempts.dropWhile fun attempt => budget.windowMs ≤ nowMs - attempt }

/-- The number of the attempt, counted from one, or zero if there is none left. -/
def consume (budget : RestartBudget) (nowMs : UInt64) : RestartBudget × ℕ :=
  let budget := budget.purge nowMs
  if budget.maxAttempts ≤ budget.attempts.length then (budget, 0)
  else ({ budget with attempts := budget.attempts ++ [nowMs] }, budget.attempts.length + 1)

def reset (budget : RestartBudget) : RestartBudget := { budget with attempts := [] }

end RestartBudget

end Recovery

end SplitHello
