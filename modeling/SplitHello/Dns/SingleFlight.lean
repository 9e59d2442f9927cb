import SplitHello.Dns.Service
import SplitHello.Library.Marks

/-!
# One query for each name

A name is in flight while one call is inside `query` for it or about to store its
result, and never more than one call is. Calls on other names, relayed queries and
`clearCache` do not disturb this, and a query that throws frees its name as any other.
-/

namespace SplitHello

namespace Dns

open ByteString KeyedTable Recovery Marks

section

variable (pton : InetPton)

/-- The call at this index is inside `query` for the name, or about to store what it
returned. -/
def System.Holds (s : System) (i : ℕ) (key : Bytes) : Prop :=
  ∃ c, s.calls[i]? = some c ∧ c.phase.Holds key

/-- The names in flight are those of the calls inside `query`, one call for each. -/
def System.SingleFlight (s : System) : Prop := OneHolder s.resolver.inFlight s.Holds

theorem System.holds_join (s : System) {c : Call} (hcall : ∀ key, ¬ c.phase.Holds key) (i : ℕ)
    (key : Bytes) : System.Holds { s with calls := s.calls ++ [c] } i key ↔ s.Holds i key := by
  constructor
  · rintro ⟨c', hc', hholds⟩
    rcases lt_or_ge i s.calls.length with hi | hi
    · rw [List.getElem?_append_left hi] at hc'
      exact ⟨c', hc', hholds⟩
    · rw [List.getElem?_append_right hi] at hc'
      rw [List.mem_singleton.1 (List.mem_of_getElem? hc')] at hholds
      exact absurd hholds (hcall key)
  · rintro ⟨c', hc', hholds⟩
    refine ⟨c', ?_, hholds⟩
    rw [List.getElem?_append_left (List.getElem?_eq_some_iff.1 hc').1, hc']

/-- Who holds what after the call at an index moved on. -/
theorem System.holds_set (s : System) {index : ℕ} {c : Call} (hc : s.calls[index]? = some c)
    (r : Resolver) (phase : Phase) (i : ℕ) (key : Bytes) :
    System.Holds ⟨r, s.calls.set index { c with phase }⟩ i key ↔
      i = index ∧ phase.Holds key ∨ i ≠ index ∧ s.Holds i key := by
  have hindex : index < s.calls.length := (List.getElem?_eq_some_iff.1 hc).1
  by_cases hi : i = index
  · subst hi
    simp [System.Holds, hindex]
  · simp [System.Holds, hi, List.getElem?_set_ne (Ne.symm hi)]

theorem System.SingleFlight.act {s : System} (h : s.SingleFlight) {index : ℕ} {c : Call}
    (hc : s.calls[index]? = some c) {r : Resolver} {phase : Phase}
    (hstep : FlightStep s.resolver c.phase r phase) :
    System.SingleFlight ⟨r, s.calls.set index { c with phase }⟩ := by
  have hset := s.holds_set hc r phase
  have hown (key : Bytes) : s.Holds index key ↔ c.phase.Holds key := by
    simp [System.Holds, hc]
  cases hstep with
  | same hflight hholds =>
      rw [System.SingleFlight, hflight]
      refine OneHolder.congr h fun i key => ?_
      rw [hset, hholds, ← hown]
      by_cases hi : i = index <;> simp [hi]
  | begins key hfree hname hflight hbefore hafter =>
      rw [System.SingleFlight, hflight]
      refine OneHolder.take h (i := index) hfree fun i key' => ?_
      rw [hset, hafter, eq_comm (a := key)]
      by_cases hi : i = index
      · subst hi
        simp [hown, hbefore]
      · simp [hi]
  | stores key asker result hbefore hflight hstored hafter =>
      rw [System.SingleFlight, hflight]
      refine OneHolder.giveBack h fun i key' => ?_
      have hholds : s.Holds index key := (hown key).2 (by rw [hbefore]; rfl)
      rw [hset]
      by_cases hi : i = index
      · subst hi
        simp only [hafter, and_false, ne_eq, not_true_eq_false, false_and, or_self, false_iff,
          hown, hbefore]
        exact fun hkey => hkey.2 hkey.1.symm
      · simp only [hi, false_and, ne_eq, not_false_eq_true, true_and, false_or]
        refine ⟨fun hother => ⟨hother, ?_⟩, fun hother => hother.1⟩
        rintro rfl
        exact hi (h.single i index key' hother hholds)

theorem System.SingleFlight.step {s : System} (h : s.SingleFlight) (e : Event) :
    (s.step pton e).SingleFlight := by
  cases e with
  | buildReply datagram deadlineMs =>
      refine OneHolder.congr h (s.holds_join fun key => ?_)
      rw [Call.buildReply]
      dsimp only
      repeat' split
      all_goals exact id
  | resolve host deadlineMs => exact OneHolder.congr h (s.holds_join fun key => id)
  | clearCache => exact h
  | act index input =>
      rw [System.step]
      split
      · exact h
      · rename_i c hc
        exact h.act hc (step_flight pton c s.resolver input)

theorem system_singleFlight (workerHost : Bytes) (bootstrap : Option Result) (now : ℕ)
    (events : List Event) :
    (History.run (System.step pton) ⟨Resolver.start pton workerHost bootstrap now, []⟩
      events).SingleFlight := by
  refine History.run_invariant _ _ (fun _ (s : System) => s.SingleFlight) ?_
    (fun _ _ e h => h.step pton e) events
  rw [System.SingleFlight, (start_wireCache pton workerHost bootstrap now).2]
  refine ⟨?_, ?_⟩
  · intro key
    simp [System.Holds]
  · rintro i j key ⟨c, hc, -⟩
    simp at hc

/-- In every interleaving at most one call is inside `query` for a name, and the names in
flight are exactly those of such calls and of calls about to store a result. A call that
has a name in flight keeps it until the step that stores the result and takes the mark
away, and when no call runs nothing is in flight. -/
theorem resolve_singleFlight (workerHost : Bytes) (bootstrap : Option Result) (now : ℕ)
    (events : List Event) :
    let s := History.run (System.step pton)
      ⟨Resolver.start pton workerHost bootstrap now, []⟩ events
    (∀ i j key, s.Holds i key → s.Holds j key → i = j) ∧
      (∀ key, key ∈ s.resolver.inFlight ↔ ∃ i, s.Holds i key) ∧
      (∀ i key input, s.Holds i key →
        (s.step pton (.act i input)).Holds i key ∨
          ∃ asker result expiresAtMs,
            (∃ c, s.calls[i]? = some c ∧ c.phase = .keep key asker result) ∧
            (s.step pton (.act i input)).resolver.cache.lookup key =
              some ⟨result, expiresAtMs⟩ ∧
            key ∉ (s.step pton (.act i input)).resolver.inFlight) ∧
      ((∀ c ∈ s.calls, c.phase.remaining = 0) → s.resolver.inFlight = ∅) := by
  intro s
  have h : s.SingleFlight := system_singleFlight pton workerHost bootstrap now events
  refine ⟨h.single, h.marked, ?_, ?_⟩
  · rintro i key input ⟨c, hc, hholds⟩
    have hindex : i < s.calls.length := (List.getElem?_eq_some_iff.1 hc).1
    have hstep : s.step pton (.act i input) = ⟨(c.step pton s.resolver input).1,
        s.calls.set i { c with phase := (c.step pton s.resolver input).2 }⟩ := by
      rw [System.step, hc]
    rw [hstep, s.holds_set hc]
    cases step_flight pton c s.resolver input with
    | same hflight hsame => exact Or.inl (Or.inl ⟨rfl, (hsame key).2 hholds⟩)
    | begins key' hfree hname hflight hbefore hafter => exact absurd hholds (hbefore key)
    | stores key' asker result hbefore hflight hstored hafter =>
        obtain ⟨expiresAtMs, hstored⟩ := hstored
        rw [hbefore] at hholds
        obtain rfl : key' = key := hholds
        refine Or.inr ⟨asker, result, expiresAtMs, ⟨c, hc, hbefore⟩, hstored, ?_⟩
        rw [hflight]
        exact Finset.notMem_erase key' _
  · intro hended
    refine OneHolder.eq_empty h ?_
    rintro i key ⟨c, hc, hholds⟩
    have hdone := hended c (List.mem_of_getElem? hc)
    cases hphase : c.phase <;> rw [hphase] at hdone hholds <;>
      first | exact hholds | simp [Phase.remaining] at hdone

end

end Dns

end SplitHello
