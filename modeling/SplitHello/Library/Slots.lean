import Mathlib.Data.List.ReduceOption

/-!
# Slots

A fixed number of threads, each of them idle or busy with one task. `busy` lists the tasks; a
thread that takes one up or is done with one changes the list by that task alone.
-/

namespace Slots

variable {A : Type*}

def idle (n : ℕ) : List (Option A) := List.replicate n none

def busy (slots : List (Option A)) : List A := slots.reduceOption

theorem busy_idle (n : ℕ) : busy (idle n : List (Option A)) = [] := by
  rw [busy, idle, List.reduceOption_replicate_none]

theorem length_busy_le (slots : List (Option A)) : (busy slots).length ≤ slots.length :=
  List.reduceOption_length_le slots

theorem busy_enter {slots : List (Option A)} {i : ℕ} (h : slots[i]? = some none) (task : A) :
    (busy (slots.set i (some task))).Perm (task :: busy slots) := by
  induction slots generalizing i with
  | nil => simp at h
  | cons slot slots ih =>
      cases i with
      | zero =>
          have hslot : slot = none := by simpa using h
          rw [hslot, List.set_cons_zero, busy, busy, List.reduceOption_cons_of_some,
            List.reduceOption_cons_of_none]
      | succ i =>
          have ih := ih (by simpa using h)
          rw [List.set_cons_succ]
          rw [busy, busy] at ih ⊢
          cases slot with
          | none => simpa using ih
          | some other =>
              rw [List.reduceOption_cons_of_some, List.reduceOption_cons_of_some]
              exact (ih.cons other).trans (List.Perm.swap task other _)

theorem busy_leave {slots : List (Option A)} {i : ℕ} {task : A} (h : slots[i]? = some (some task)) :
    (busy slots).Perm (task :: busy (slots.set i none)) := by
  have hi : i < slots.length := (List.getElem?_eq_some_iff.1 h).1
  have hback : (slots.set i none).set i (some task) = slots := by
    rw [List.set_set, ← (List.getElem?_eq_some_iff.1 h).2, List.set_getElem_self]
  have henter := busy_enter (List.getElem?_set_self hi : (slots.set i none)[i]? = some none) task
  rw [hback] at henter
  exact henter

theorem mem_busy {slots : List (Option A)} {i : ℕ} {task : A} (h : slots[i]? = some (some task)) :
    task ∈ busy slots :=
  (busy_leave h).symm.subset List.mem_cons_self

end Slots
