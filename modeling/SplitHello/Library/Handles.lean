import Mathlib.Data.List.Induction
import Mathlib.Data.List.Perm.Basic
import Mathlib.Data.Nat.Notation

/-!
# Handles

What a program does with the handles a system gives it: it acquires them and releases them.
`Ends n uses held` says of a trace that it releases only what it holds, never holds more
than `n` handles and ends holding `held`. Nothing leaks from a trace that ends holding
nothing: every handle was released as often as it was acquired.
-/

namespace Handles

variable {H : Type*} [DecidableEq H]

inductive Use (H : Type*)
  | acquire (handle : H)
  | release (handle : H)
  deriving DecidableEq, Repr

def Use.apply (held : List H) : Use H → List H
  | .acquire h => held ++ [h]
  | .release h => held.erase h

/-- The handles held after a trace, in the order in which they were acquired. -/
def holding (uses : List (Use H)) : List H := uses.foldl Use.apply []

@[simp] theorem holding_nil : holding ([] : List (Use H)) = [] := rfl

@[simp] theorem holding_concat (uses : List (Use H)) (u : Use H) :
    holding (uses ++ [u]) = u.apply (holding uses) := by
  simp [holding]

structure Ends (n : ℕ) (uses : List (Use H)) (held : List H) : Prop where
  /-- Only what is held is released. -/
  proper : ∀ before handle after, uses = before ++ .release handle :: after →
    handle ∈ holding before
  /-- Never more than `n` handles are held. -/
  atMost : ∀ before after, uses = before ++ after → (holding before).length ≤ n
  perm : (holding uses).Perm held

variable {n : ℕ} {uses : List (Use H)} {held : List H}

theorem Ends.nil : Ends n ([] : List (Use H)) [] where
  proper before handle after heq := by simp at heq
  atMost before after heq := by simp [(List.append_eq_nil_iff.1 heq.symm).1]
  perm := List.Perm.refl _

theorem Ends.congr (h : Ends n uses held) {held' : List H} (hperm : held.Perm held') :
    Ends n uses held' :=
  ⟨h.proper, h.atMost, h.perm.trans hperm⟩

/-- One more use of a handle. -/
theorem Ends.concat (h : Ends n uses held) {u : Use H}
    (hheld : ∀ handle, u = .release handle → handle ∈ held)
    (hroom : (u.apply (holding uses)).length ≤ n) {held' : List H}
    (hperm : (u.apply (holding uses)).Perm held') : Ends n (uses ++ [u]) held' := by
  refine ⟨?_, ?_, by rwa [holding_concat]⟩
  · intro before handle after heq
    rcases List.eq_nil_or_concat after with rfl | ⟨rest, last, rfl⟩
    · obtain ⟨rfl, hlast⟩ := List.append_inj' heq rfl
      exact h.perm.mem_iff.2 (hheld handle (by simpa using hlast))
    · rw [List.concat_eq_append, ← List.cons_append, ← List.append_assoc] at heq
      exact h.proper before handle rest (List.append_inj' heq rfl).1
  · intro before after heq
    rcases List.eq_nil_or_concat after with rfl | ⟨rest, last, rfl⟩
    · rw [List.append_nil] at heq
      rw [← heq, holding_concat]
      exact hroom
    · rw [List.concat_eq_append, ← List.append_assoc] at heq
      exact h.atMost before rest (List.append_inj' heq rfl).1

theorem Ends.acquire (h : Ends n uses held) (hroom : held.length < n) (handle : H) :
    Ends n (uses ++ [.acquire handle]) (held ++ [handle]) := by
  have hlength := h.perm.length_eq
  refine h.concat (by rintro _ ⟨⟩) ?_ (h.perm.append_right [handle])
  rw [Use.apply, List.length_append, List.length_singleton]
  omega

theorem Ends.release (h : Ends n uses held) (handle : H) (hheld : handle ∈ held) :
    Ends n (uses ++ [.release handle]) (held.erase handle) := by
  have hlength := h.atMost uses [] (by simp)
  refine h.concat ?_ (Nat.le_trans List.length_erase_le hlength) (h.perm.erase handle)
  intro handle' heq
  cases heq
  exact hheld

/-- Acquired and given back at once. -/
theorem Ends.brief (h : Ends n uses held) (hroom : held.length < n) (handle : H) :
    Ends n (uses ++ [.acquire handle, .release handle]) held := by
  have hreleased := (h.acquire hroom handle).release handle (by simp)
  rw [List.append_assoc] at hreleased
  refine hreleased.congr ?_
  have hperm := (List.perm_append_singleton handle held).erase handle
  rwa [List.erase_cons_head] at hperm

/-- Handles given back one after the other. -/
theorem Ends.releaseAll {handles rest : List H} (h : Ends n uses (handles ++ rest)) :
    Ends n (uses ++ handles.map .release) rest := by
  induction handles generalizing uses with
  | nil => simpa using h
  | cons handle handles ih =>
      have hnext := h.release handle (by simp)
      rw [List.cons_append, List.erase_cons_head] at hnext
      simpa using ih hnext

/-- A handle has been released as often as it was acquired, but for the times it is held. -/
theorem Ends.balanced (h : Ends n uses held) (handle : H) :
    uses.count (.acquire handle) = uses.count (.release handle) + held.count handle := by
  rw [← h.perm.count_eq]
  have hproper := h.proper
  clear h
  induction uses using List.reverseRecOn with
  | nil => simp
  | append_singleton uses u ih =>
      have hbalance := ih fun before handle' after heq =>
        hproper before handle' (after ++ [u]) (by simp [heq])
      rw [List.count_append, List.count_append, holding_concat]
      cases u with
      | acquire other =>
          by_cases hsame : other = handle
          · simp [Use.apply, hsame]
            omega
          · simp [Use.apply, hsame]
            omega
      | release other =>
          have hmem := hproper uses other [] rfl
          by_cases hsame : other = handle
          · subst hsame
            have hpos := List.count_pos_iff.2 hmem
            simp [Use.apply, List.count_erase_self]
            omega
          · have herase := List.count_erase_of_ne (l := holding uses) (Ne.symm hsame)
            simp [Use.apply, hsame, herase]
            omega

end Handles
