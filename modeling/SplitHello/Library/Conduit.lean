import Mathlib.Data.List.Induction
import Mathlib.Data.Nat.Notation

/-!
# Conduits

A conduit takes from its source only when it holds nothing, hands on what it holds in pieces
of any size, and tells its destination that there will be no more only when the source has
said so and nothing is held any more.
-/

namespace Conduit

variable {A : Type*}

inductive Event (A : Type*)
  | receive (xs : List A)
  | eof
  | send (xs : List A)
  | finish
  deriving DecidableEq, Repr

def Event.received : Event A → List A
  | .receive xs => xs
  | _ => []

def Event.sent : Event A → List A
  | .send xs => xs
  | _ => []

/-- All that came in. -/
def received (events : List (Event A)) : List A := events.flatMap Event.received

/-- All that went out. -/
def sent (events : List (Event A)) : List A := events.flatMap Event.sent

@[simp] theorem received_concat (events : List (Event A)) (e : Event A) :
    received (events ++ [e]) = received events ++ e.received := by
  simp [received]

@[simp] theorem sent_concat (events : List (Event A)) (e : Event A) :
    sent (events ++ [e]) = sent events ++ e.sent := by
  simp [sent]

structure State (A : Type*) where
  held : List A := []
  eof : Bool := false
  deriving DecidableEq, Repr

inductive Step : State A → Event A → State A → Prop
  | receive (xs : List A) : Step ⟨[], false⟩ (.receive xs) ⟨xs, false⟩
  | eof : Step ⟨[], false⟩ .eof ⟨[], true⟩
  | send (xs ys : List A) (eof : Bool) : Step ⟨xs ++ ys, eof⟩ (.send xs) ⟨ys, eof⟩
  | finish : Step ⟨[], true⟩ .finish ⟨[], true⟩

/-- From one state to another by these events, oldest first. -/
inductive Steps : State A → List (Event A) → State A → Prop
  | nil (s : State A) : Steps s [] s
  | concat {s t u : State A} {events : List (Event A)} {e : Event A} :
      Steps s events t → Step t e u → Steps s (events ++ [e]) u

theorem Step.steps {s t : State A} {e : Event A} (h : Step s e t) : Steps s [e] t :=
  Steps.concat (Steps.nil s) h

theorem Steps.append {s t u : State A} {events events' : List (Event A)}
    (h : Steps s events t) (h' : Steps t events' u) : Steps s (events ++ events') u := by
  induction h' with
  | nil => rwa [List.append_nil]
  | concat h' hstep ih =>
      rw [← List.append_assoc]
      exact Steps.concat ih hstep

variable {s : State A} {events : List (Event A)}

/-- What has gone out, and after it what is held, is what has come in. -/
theorem Steps.conserved (h : Steps {} events s) : sent events ++ s.held = received events := by
  induction h with
  | nil => rfl
  | concat h hstep ih =>
      rw [sent_concat, received_concat, ← ih]
      cases hstep <;> simp [Event.sent, Event.received]

theorem Steps.eof_mem (h : Steps {} events s) (heof : s.eof = true) : Event.eof ∈ events := by
  induction h with
  | nil => cases heof
  | concat h hstep ih =>
      cases hstep with
      | receive => cases heof
      | eof => exact List.mem_append_right _ List.mem_cons_self
      | send => exact List.mem_append_left _ (ih heof)
      | finish => exact List.mem_append_left _ (ih heof)

/-- Every event of a run is a step from what the events before it lead to. -/
theorem Steps.at {s₀ : State A} (h : Steps s₀ events s) {before after : List (Event A)}
    {e : Event A} (heq : events = before ++ e :: after) :
    ∃ t u, Steps s₀ before t ∧ Step t e u ∧ Steps u after s := by
  induction h generalizing after with
  | nil => cases before <;> cases heq
  | concat h hstep ih =>
      rcases List.eq_nil_or_concat after with rfl | ⟨rest, last, rfl⟩
      · obtain ⟨rfl, hlast⟩ := List.append_inj' heq rfl
        cases hlast
        exact ⟨_, _, h, hstep, Steps.nil _⟩
      · rw [List.concat_eq_append, ← List.cons_append, ← List.append_assoc] at heq
        obtain ⟨hevents, hlast⟩ := List.append_inj' heq rfl
        cases hlast
        obtain ⟨t, u, ht, hmid, hu⟩ := ih hevents
        rw [List.concat_eq_append]
        exact ⟨t, u, ht, hmid, Steps.concat hu hstep⟩

/-- Nothing comes in after the end of the source. -/
theorem Steps.received_of_eof {t : State A} (h : Steps t events s) (heof : t.eof = true) :
    s.eof = true ∧ received events = [] := by
  induction h with
  | nil => exact ⟨heof, rfl⟩
  | concat h hstep ih =>
      obtain ⟨heof', hnone⟩ := ih
      rw [received_concat, hnone]
      cases hstep with
      | receive => cases heof'
      | eof => cases heof'
      | send => exact ⟨heof', rfl⟩
      | finish => exact ⟨rfl, rfl⟩

/-- The destination is told the end after the end of the source, and after all of it. -/
theorem Steps.finish (h : Steps {} events s) {before after : List (Event A)}
    (heq : events = before ++ .finish :: after) :
    Event.eof ∈ before ∧ sent before = received events := by
  obtain ⟨t, u, hbefore, hstep, hafter⟩ := h.at heq
  cases hstep
  have hconserved := hbefore.conserved
  rw [List.append_nil] at hconserved
  refine ⟨hbefore.eof_mem rfl, hconserved.trans ?_⟩
  obtain ⟨-, hnone⟩ := hafter.received_of_eof rfl
  rw [heq, received, received, List.flatMap_append, List.flatMap_cons, ← received, ← received,
    hnone]
  simp [Event.received]

end Conduit
