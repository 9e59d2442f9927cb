import Mathlib.Algebra.Group.Basic
import Mathlib.Data.Nat.Cast.Defs
import Mathlib.Tactic.Abel
import SplitHello.Library.History
import SplitHello.Library.KeyedTable

/-!
# Shared state changed one access at a time

Clients with a private state call operations. A call changes the private state at once and
issues accesses to the state that all share; they take effect one by one, with the accesses of
other clients in between. A client calls again only when its accesses are through.

A `Gauge` reads an element of a commutative group off the shared state. If every operation
issues just the accesses by which its client's part of the gauge changes, then what is shown
and what is still under way add up to the clients' parts, in every interleaving.
-/

namespace Deferred

open KeyedTable History

section Total

variable {K V A M : Type*} [AddCommMonoid M]

/-- The sum of `w` over a list. -/
def sum (w : A → M) (l : List A) : M := l.foldr (fun a m => w a + m) 0

@[simp] theorem sum_nil (w : A → M) : sum w [] = 0 := rfl

@[simp] theorem sum_cons (w : A → M) (a : A) (l : List A) : sum w (a :: l) = w a + sum w l := rfl

@[simp] theorem sum_append (w : A → M) (l l' : List A) : sum w (l ++ l') = sum w l + sum w l' := by
  induction l with
  | nil => rw [List.nil_append, sum_nil, zero_add]
  | cons a l ih => rw [List.cons_append, sum_cons, sum_cons, ih, add_assoc]

theorem sum_eq_zero {w : A → M} {l : List A} (h : ∀ a ∈ l, w a = 0) : sum w l = 0 := by
  induction l with
  | nil => rfl
  | cons a l ih =>
      rw [sum_cons, h a List.mem_cons_self, zero_add,
        ih fun b hb => h b (List.mem_cons_of_mem _ hb)]

/-- The sum of `w` over the values of a table. -/
def total (w : V → M) (t : Table K V) : M := sum (fun e => w e.2) t.entries

theorem total_congr {w w' : V → M} {t : Table K V}
    (h : ∀ e ∈ t.entries, w e.2 = w' e.2) : total w t = total w' t := by
  rw [total, total]
  generalize t.entries = l at h
  induction l with
  | nil => rfl
  | cons e l ih =>
      rw [sum_cons, sum_cons, h e List.mem_cons_self,
        ih fun e' he' => h e' (List.mem_cons_of_mem _ he')]

variable [DecidableEq K]

theorem total_erase (w : V → M) {t : Table K V} {k : K} {v : V} (h : t.lookup k = some v) :
    total w t = w v + total w (t.erase k) := by
  obtain ⟨before, after, hentries, herase⟩ := entries_of_lookup h
  rw [total, total, hentries, herase, sum_append, sum_append, sum_cons, add_left_comm]

theorem total_insert (w : V → M) (t : Table K V) (k : K) (v : V) :
    total w (t.insert k v) = w v + total w (t.erase k) := rfl

end Total

/-- A total of ones and zeros is a count. -/
theorem total_eq_count {K V M : Type*} [AddCommMonoidWithOne M] (p : V → Bool) (t : Table K V) :
    total (fun v => if p v then (1 : M) else 0) t = (count p t : ℕ) := by
  rw [total, count]
  induction t.entries with
  | nil => rw [sum_nil, List.countP_nil, Nat.cast_zero]
  | cons e l ih =>
      rw [sum_cons, List.countP_cons, ih, Nat.cast_add, add_comm]
      cases p e.2 <;> simp

/-- What a client is: how it starts, what a call makes of it and which accesses it issues. -/
structure Rules (S F A O : Type*) where
  initial : F
  call : F → O → F × List A
  apply : S → A → S

structure Client (F A : Type*) where
  state : F
  pending : List A

/-- `issued` lists the calls with the accesses they issued, oldest first. -/
structure State (K S F A O : Type*) where
  shared : S
  clients : Table K (Client F A) := ∅
  issued : List (K × O × List A) := []

inductive Event (K O : Type*)
  | call (client : K) (op : O)
  | advance (client : K)

section

variable {K S F A O M : Type*} [DecidableEq K]

/-- The client behind a key; one that has not called yet is new. -/
def State.client (r : Rules S F A O) (s : State K S F A O) (k : K) : Client F A :=
  (s.clients.lookup k).getD ⟨r.initial, []⟩

theorem client_insert (r : Rules S F A O) (s : State K S F A O) (shared : S)
    (issued : List (K × O × List A)) (k k' : K) (client : Client F A) :
    State.client r ⟨shared, s.clients.insert k client, issued⟩ k' =
      if k' = k then client else s.client r k' := by
  rw [State.client, State.client, lookup_insert_eq]
  split <;> rfl

def step (r : Rules S F A O) (s : State K S F A O) : Event K O → State K S F A O
  | .call k op =>
      let client := s.client r k
      if client.pending.isEmpty then
        let (state, accesses) := r.call client.state op
        { s with
          clients := s.clients.insert k ⟨state, accesses⟩
          issued := s.issued ++ [(k, op, accesses)] }
      else s
  | .advance k =>
      let client := s.client r k
      match client.pending with
      | [] => s
      | access :: pending =>
          { s with
            shared := r.apply s.shared access
            clients := s.clients.insert k ⟨client.state, pending⟩ }

/-- An invariant of what has been issued and of the state of one client, which every call of
that client preserves, and every call of another. -/
theorem client_invariant (r : Rules S F A O) (k : K) (Inv : List (K × O × List A) → F → Prop)
    (hinit : Inv [] r.initial)
    (hother : ∀ h f k' op accesses, k' ≠ k → Inv h f → Inv (h ++ [(k', op, accesses)]) f)
    (hcall : ∀ h f op, Inv h f → Inv (h ++ [(k, op, (r.call f op).2)]) (r.call f op).1)
    (shared : S) (events : List (Event K O)) :
    let s := run (step r) { shared } events
    Inv s.issued (s.client r k).state := by
  refine run_invariant (step r) { shared } (fun _ s => Inv s.issued (s.client r k).state)
    hinit ?_ events
  intro _ s event hs
  cases event with
  | call k' op =>
      rw [step]
      dsimp only
      split
      · rw [client_insert]
        by_cases heq : k = k'
        · subst heq
          rw [if_pos rfl]
          exact hcall _ _ op hs
        · rw [if_neg heq]
          exact hother _ _ k' op _ (Ne.symm heq) hs
      · exact hs
  | advance k' =>
      rw [step]
      cases hpending : (s.client r k').pending with
      | nil => exact hs
      | cons access pending =>
          dsimp only
          rw [client_insert]
          split
          · rename_i heq
            subst heq
            exact hs
          · exact hs

/-- No operation is in progress. -/
def State.Quiescent (s : State K S F A O) : Prop :=
  ∀ k client, s.clients.lookup k = some client → client.pending = []

theorem quiescent_of_all {s : State K S F A O}
    (h : (s.clients.entries.all fun e => e.2.pending.isEmpty) = true) : s.Quiescent := by
  intro k client hlookup
  have hpending := List.all_eq_true.1 h ⟨k, client⟩ (AList.mem_lookup_iff.1 hlookup)
  exact List.isEmpty_iff.1 hpending

/-- What a gauge shows, what an access adds to it, and the part of a client. -/
structure Gauge (r : Rules S F A O) (M : Type*) [AddCommGroup M] where
  value : S → M
  effect : A → M
  part : F → M
  value_apply : ∀ s a, value (r.apply s a) = value s + effect a
  part_initial : part r.initial = 0
  part_call : ∀ f op, part (r.call f op).1 = part f + sum effect (r.call f op).2

namespace Gauge

variable [AddCommGroup M] {r : Rules S F A O} (g : Gauge r M)

/-- What a client has brought to the gauge so far. -/
def brought (client : Client F A) : M := g.part client.state - sum g.effect client.pending

theorem total_insert_client (s : State K S F A O) (k : K) (client : Client F A) :
    total g.brought (s.clients.insert k client) =
      total g.brought s.clients - g.brought (s.client r k) + g.brought client := by
  rw [total_insert, State.client]
  cases hlookup : s.clients.lookup k with
  | none =>
      rw [erase_of_lookup_eq_none hlookup, Option.getD_none, brought, brought, g.part_initial,
        sum_nil, sub_zero, sub_zero, add_comm]
  | some old =>
      rw [total_erase g.brought hlookup, Option.getD_some, add_sub_cancel_left, add_comm]

/-- The gauge shows what the clients have brought. -/
def Shows (s : State K S F A O) : Prop := g.value s.shared = total g.brought s.clients

omit [DecidableEq K] in
theorem shows_start {shared : S} (h : g.value shared = 0) :
    g.Shows ({ shared } : State K S F A O) := h

theorem shows_step {s : State K S F A O} (h : g.Shows s) (event : Event K O) :
    g.Shows (step r s event) := by
  rw [Shows] at h ⊢
  cases event with
  | call k op =>
      rw [step]
      dsimp only
      split
      · rename_i hidle
        have hpending : (s.client r k).pending = [] := List.isEmpty_iff.1 hidle
        rw [g.total_insert_client, h, brought, brought, hpending, g.part_call, sum_nil]
        abel
      · exact h
  | advance k =>
      rw [step]
      cases hpending : (s.client r k).pending with
      | nil => exact h
      | cons access pending =>
          rw [g.total_insert_client, g.value_apply, h, brought, brought, hpending, sum_cons]
          abel

theorem shows_run {s : State K S F A O} (h : g.Shows s) (events : List (Event K O)) :
    g.Shows (run (step r) s events) :=
  run_invariant (step r) s (fun _ s => g.Shows s) h (fun _ _ event hs => g.shows_step hs event)
    events

/-- When no operation is in progress, the gauge shows the sum of the clients' parts. -/
theorem value_of_quiescent {s : State K S F A O} (h : g.Shows s) (hquiescent : s.Quiescent) :
    g.value s.shared = total (fun client => g.part client.state) s.clients := by
  rw [h]
  refine total_congr fun e he => ?_
  rw [brought, hquiescent e.1 e.2 (AList.mem_lookup_iff.2 he), sum_nil, sub_zero]

end Gauge

end

end Deferred
