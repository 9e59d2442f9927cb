import Mathlib.Data.Bool.Basic
import Mathlib.Order.Lattice.Nat

/-!
# Flags that are read one by one

A thread that looks at several flags looks at one after the other, while other threads raise
them. A flag that is up stays up, so an answer of yes is true for good; an answer of no says
only that the flag was down before.
-/

/-- What is asked next depends on the answers so far. -/
inductive Inquiry (Q α : Type*)
  | done (result : α)
  | ask (q : Q) (yes no : Inquiry Q α)
  deriving DecidableEq

namespace Inquiry

variable {Q α : Type*}

/-- One flag is read. -/
def turn (f : Q → Bool) : Inquiry Q α → Inquiry Q α
  | done result => done result
  | ask q yes no => if f q then yes else no

def depth : Inquiry Q α → ℕ
  | done _ => 0
  | ask _ yes no => max yes.depth no.depth + 1

/-- Whatever flags are raised in the meantime, as long as `A` holds of them, the result
satisfies `P`. -/
def Ends (A : (Q → Bool) → Prop) (P : α → (Q → Bool) → Prop) :
    Inquiry Q α → (Q → Bool) → Prop
  | done result, f => P result f
  | ask q yes no, f => ∀ g, f ≤ g → A g → if g q then Ends A P yes g else Ends A P no g

variable {A : (Q → Bool) → Prop} {P : α → (Q → Bool) → Prop} {f g : Q → Bool}

/-- What stays true when more flags are raised. -/
def Lasting (P : α → (Q → Bool) → Prop) : Prop := ∀ a f g, f ≤ g → P a f → P a g

theorem Ends.mono (hP : Lasting P) {t : Inquiry Q α} (h : t.Ends A P f) (hfg : f ≤ g) :
    t.Ends A P g := by
  cases t with
  | done result => exact hP result f g hfg h
  | ask q yes no => exact fun g' hg' => h g' (hfg.trans hg')

theorem Ends.imp {P' : α → (Q → Bool) → Prop} (himp : ∀ a g, P a g → P' a g)
    {t : Inquiry Q α} (h : t.Ends A P f) : t.Ends A P' f := by
  induction t generalizing f with
  | done result => exact himp result f h
  | ask q yes no ihyes ihno =>
      intro g hfg hA
      have hread := h g hfg hA
      split
      · rw [if_pos ‹_›] at hread
        exact ihyes hread
      · rw [if_neg ‹_›] at hread
        exact ihno hread

theorem Ends.turn {t : Inquiry Q α} (h : t.Ends A P f) (hA : A f) :
    (t.turn f).Ends A P f := by
  cases t with
  | done result => exact h
  | ask q yes no =>
      have hread := h f le_rfl hA
      rw [Inquiry.turn]
      split
      · rwa [if_pos ‹_›] at hread
      · rwa [if_neg ‹_›] at hread

theorem ends_ask {q : Q} {yes no : Inquiry Q α}
    (hyes : ∀ g, f ≤ g → A g → g q = true → yes.Ends A P g)
    (hno : ∀ g, f ≤ g → A g → g q = false → no.Ends A P g) : (ask q yes no).Ends A P f := by
  intro g hfg hA
  split
  · exact hyes g hfg hA ‹_›
  · exact hno g hfg hA (Bool.eq_false_iff.2 ‹_›)

theorem up_of_le (h : f ≤ g) {q : Q} (hq : f q = true) : g q = true := h q hq

theorem down_of_le (h : f ≤ g) {q : Q} (hq : g q = false) : f q = false := by
  cases hf : f q with
  | false => rfl
  | true => rw [up_of_le h hf] at hq; cases hq

theorem depth_turn (f : Q → Bool) {t : Inquiry Q α} (h : t.depth ≠ 0) :
    (t.turn f).depth < t.depth := by
  cases t with
  | done result => exact absurd rfl h
  | ask q yes no =>
      rw [Inquiry.turn, depth]
      split
      · exact Nat.lt_succ_of_le (le_max_left _ _)
      · exact Nat.lt_succ_of_le (le_max_right _ _)

/-! ## Whether one of them is up -/

/-- The flags are read in their order until one is up. -/
def anyOf : List Q → Inquiry Q Bool
  | [] => done false
  | q :: qs => ask q (done true) (anyOf qs)

theorem depth_anyOf (qs : List Q) : (anyOf qs).depth = qs.length := by
  induction qs with
  | nil => rfl
  | cons q qs ih => rw [anyOf, depth, depth, ih, Nat.zero_max, List.length_cons]

/-- A flag that is up before the first is read is found. -/
theorem ends_anyOf_true {qs : List Q} (h : ∃ q ∈ qs, f q = true) :
    (anyOf qs).Ends A (fun result _ => result = true) f := by
  induction qs generalizing f with
  | nil =>
      obtain ⟨q, hq, -⟩ := h
      cases hq
  | cons q qs ih =>
      refine ends_ask (fun g _ _ _ => rfl) fun g hfg _ hdown => ih ?_
      obtain ⟨q', hq', hup⟩ := h
      rcases List.mem_cons.1 hq' with rfl | hq'
      · rw [down_of_le hfg hdown] at hup
        cases hup
      · exact ⟨q', hq', up_of_le hfg hup⟩

/-- None is found that is not up. -/
theorem ends_anyOf (qs : List Q) (f : Q → Bool) :
    (anyOf qs).Ends A (fun result g => result = true → ∃ q ∈ qs, g q = true) f := by
  induction qs generalizing f with
  | nil => exact fun h => by cases h
  | cons q qs ih =>
      refine ends_ask (fun g _ _ hup _ => ⟨q, List.mem_cons_self, hup⟩) fun g _ _ _ => ?_
      refine (ih g).imp fun result g' hfound hresult => ?_
      obtain ⟨q', hq', hup⟩ := hfound hresult
      exact ⟨q', List.mem_cons_of_mem _ hq', hup⟩

end Inquiry
