import Mathlib.Data.Nat.Notation

/-!
# Jobs in flight

Asynchronous operations that have been started, in the order of their start. An
operation waits until it settles, once; its place in the list never changes. `load` is
the total weight of those that wait, which is what a counter that is raised at every
start and lowered at every settling holds.
-/

namespace InFlight

variable {A : Type*}

structure Job (A : Type*) where
  task : A
  settled : Bool := false
  deriving DecidableEq, Repr

def start (jobs : List (Job A)) (task : A) : List (Job A) := jobs ++ [⟨task, false⟩]

/-- The operation at this place, if it has not settled yet. -/
def waiting (jobs : List (Job A)) (i : ℕ) : Option A :=
  match jobs[i]? with
  | some job => if job.settled then none else some job.task
  | none => none

def settle (jobs : List (Job A)) (i : ℕ) : List (Job A) :=
  jobs.modify i fun job => { job with settled := true }

def Job.load (weight : A → ℕ) (job : Job A) : ℕ := if job.settled then 0 else weight job.task

/-- The weight of everything that waits. -/
def load (weight : A → ℕ) : List (Job A) → ℕ
  | [] => 0
  | job :: jobs => job.load weight + load weight jobs

theorem load_start (weight : A → ℕ) (jobs : List (Job A)) (task : A) :
    load weight (start jobs task) = load weight jobs + weight task := by
  induction jobs with
  | nil => simp [start, load, Job.load]
  | cons job jobs ih =>
      rw [start] at ih
      rw [start, List.cons_append, load, load, ih, Nat.add_assoc]

theorem load_settle (weight : A → ℕ) {jobs : List (Job A)} {i : ℕ} {task : A}
    (h : waiting jobs i = some task) :
    load weight (settle jobs i) + weight task = load weight jobs := by
  induction jobs generalizing i with
  | nil => simp [waiting] at h
  | cons job jobs ih =>
      cases i with
      | zero =>
          simp only [waiting, List.getElem?_cons_zero, Option.ite_none_left_eq_some] at h
          simp only [settle, List.modify_zero_cons, load, Job.load]
          simp [h.1, Option.some.inj h.2]
          omega
      | succ i =>
          have hrest : waiting jobs i = some task := by simpa [waiting] using h
          have ih := ih hrest
          simp only [settle, List.modify_succ_cons, load] at ih ⊢
          omega

@[simp] theorem map_task_start (jobs : List (Job A)) (task : A) :
    (start jobs task).map Job.task = jobs.map Job.task ++ [task] := by
  simp [start]

@[simp] theorem map_task_settle (jobs : List (Job A)) (i : ℕ) :
    (settle jobs i).map Job.task = jobs.map Job.task := by
  induction jobs generalizing i with
  | nil => simp [settle]
  | cons job jobs ih =>
      cases i with
      | zero => simp [settle]
      | succ i =>
          have ih := ih i
          simp only [settle] at ih
          simp [settle, ih]

theorem mem_of_waiting {jobs : List (Job A)} {i : ℕ} {task : A} (h : waiting jobs i = some task) :
    task ∈ jobs.map Job.task := by
  unfold waiting at h
  split at h
  · rename_i job hjob
    split at h
    · cases h
    · rw [← Option.some.inj h]
      exact List.mem_map_of_mem (List.mem_of_getElem? hjob)
  · cases h

/-- The operations that wait, in the order of their start. -/
def left (jobs : List (Job A)) : List A :=
  (jobs.filter fun job => !job.settled).map Job.task

@[simp] theorem left_start (jobs : List (Job A)) (task : A) :
    left (start jobs task) = left jobs ++ [task] := by
  simp [left, start]

theorem left_settle {jobs : List (Job A)} {i : ℕ} {task : A} (h : waiting jobs i = some task) :
    (left jobs).Perm (task :: left (settle jobs i)) := by
  induction jobs generalizing i with
  | nil => simp [waiting] at h
  | cons job jobs ih =>
      cases i with
      | zero =>
          simp only [waiting, List.getElem?_cons_zero, Option.ite_none_left_eq_some] at h
          simp [left, settle, h.1, Option.some.inj h.2]
      | succ i =>
          have hrest : waiting jobs i = some task := by simpa [waiting] using h
          have ih := ih hrest
          simp only [left, settle, List.modify_succ_cons] at ih ⊢
          cases hsettled : job.settled with
          | true => simpa [hsettled] using ih
          | false =>
              simp only [List.filter_cons, hsettled, Bool.not_false, if_true, List.map_cons]
              exact (ih.cons job.task).trans (List.Perm.swap task job.task _)

end InFlight
