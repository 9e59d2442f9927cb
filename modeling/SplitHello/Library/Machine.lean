import SplitHello.Library.History

/-!
# Machines with output

A machine answers every input and goes on to its next state. Two machines that are fed the
same inputs give the same outputs as long as their states stay related; the relation may
look at the inputs so far.
-/

namespace Machine

open History

variable {S T I O : Type*}

/-- The state after the inputs. -/
def final (step : S → I → S × O) (s : S) (inputs : List I) : S :=
  run (fun s i => (step s i).1) s inputs

/-- What the machine answers to the inputs, one after the other. -/
def outputs (step : S → I → S × O) : S → List I → List O
  | _, [] => []
  | s, i :: inputs => (step s i).2 :: outputs step (step s i).1 inputs

@[simp] theorem final_nil (step : S → I → S × O) (s : S) : final step s [] = s := rfl

@[simp] theorem final_concat (step : S → I → S × O) (s : S) (inputs : List I) (i : I) :
    final step s (inputs ++ [i]) = (step (final step s inputs) i).1 :=
  run_concat _ _ _ _

theorem outputs_append (step : S → I → S × O) (s : S) (a b : List I) :
    outputs step s (a ++ b) = outputs step s a ++ outputs step (final step s a) b := by
  induction a generalizing s with
  | nil => rfl
  | cons i a ih =>
      rw [List.cons_append, outputs, outputs, ih, List.cons_append]
      rfl

theorem outputs_concat (step : S → I → S × O) (s : S) (inputs : List I) (i : I) :
    outputs step s (inputs ++ [i]) =
      outputs step s inputs ++ [(step (final step s inputs) i).2] :=
  outputs_append step s inputs [i]

theorem length_outputs (step : S → I → S × O) (s : S) (inputs : List I) :
    (outputs step s inputs).length = inputs.length := by
  induction inputs generalizing s with
  | nil => rfl
  | cons i inputs ih => rw [outputs, List.length_cons, ih, List.length_cons]

/-- Outputs that agree agree at every step. -/
theorem outputs_concat_inj {step : S → I → S × O} {step' : T → I → T × O} {s : S} {t : T}
    {inputs : List I} {i : I}
    (h : outputs step s (inputs ++ [i]) = outputs step' t (inputs ++ [i])) :
    outputs step s inputs = outputs step' t inputs ∧
      (step (final step s inputs) i).2 = (step' (final step' t inputs) i).2 := by
  rw [outputs_concat, outputs_concat] at h
  obtain ⟨hbefore, hlast⟩ :=
    List.append_inj h (by rw [length_outputs, length_outputs])
  exact ⟨hbefore, List.head_eq_of_cons_eq hlast⟩

/-- Two machines whose states stay related, and which answer alike in related states,
cannot be told apart. -/
theorem simulation {step : S → I → S × O} {step' : T → I → T × O} {s : S} {t : T}
    (R : List I → S → T → Prop) (inputs : List I) (hinit : R [] s t)
    (hstep : ∀ h i later, inputs = h ++ i :: later →
      R h (final step s h) (final step' t h) →
        (step (final step s h) i).2 = (step' (final step' t h) i).2 ∧
          R (h ++ [i]) (step (final step s h) i).1 (step' (final step' t h) i).1) :
    R inputs (final step s inputs) (final step' t inputs) ∧
      outputs step s inputs = outputs step' t inputs := by
  induction inputs using List.reverseRecOn with
  | nil => exact ⟨hinit, rfl⟩
  | append_singleton inputs i ih =>
      obtain ⟨hrelated, houtputs⟩ := ih fun h j later heq =>
        hstep h j (later ++ [i]) (by rw [heq, List.append_assoc, List.cons_append])
      obtain ⟨hanswer, hnext⟩ := hstep inputs i [] rfl hrelated
      rw [final_concat, final_concat, outputs_concat, outputs_concat, houtputs, hanswer]
      exact ⟨hnext, rfl⟩

end Machine
