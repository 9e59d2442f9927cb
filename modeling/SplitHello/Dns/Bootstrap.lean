import SplitHello.Dns.Service
import Mathlib.Data.List.DropRight

/-!
# The Worker is not asked about itself

Its own addresses come from outside: from the system's resolver at the start, later
from a public resolver reached by address. Their entry shares the cache with ordinary
names, and it is the only one there that no eviction, no result and no `clearCache`
removes. A call for the Worker's name never gets as far as a request.
-/

namespace SplitHello

namespace Dns

open ByteString KeyedTable Recovery

/-- The name a request asks the Worker about. -/
def Errand.host : Errand → Bytes
  | .name key _ => lowercase key
  | .wire query => lowercase query.name

/-- The request that a step sends to the Worker. -/
def System.request (s : System) : Event → Option Errand
  | .act index _ =>
      match (s.calls[index]?).map Call.phase with
      | some (.ask errand) => some errand
      | _ => none
  | _ => none

/-- Every request of a run, the first one first. -/
def System.requests (pton : InetPton) (s : System) : List Event → List Errand
  | [] => []
  | e :: es => (s.request e).toList ++ System.requests pton (s.step pton e) es

theorem lowercase_lowercase (value : Bytes) : lowercase (lowercase value) = lowercase value := by
  have hlower : lower (lowercase value) = lowercase value := by
    refine (List.map_congr_left fun c hc => ?_).trans (List.map_id _)
    have hmem : c ∈ lower value :=
      (List.dropWhile_sublist _).subset (List.mem_reverse.1 hc) |> List.mem_reverse.1
    obtain ⟨b, -, rfl⟩ := List.mem_map.1 hmem
    exact lowerByte_idem b
  rw [lowercase, hlower, lowercase, List.reverse_reverse, List.dropWhile_idempotent]

/-- The call does not work for the host. Keys are written in lower case and without
trailing dots. -/
def Phase.Avoids (host : Bytes) : Phase → Prop
  | .resolve key _ => lowercase key = key
  | .gate errand | .refresh errand | .refreshed errand _ | .enter errand | .ask errand =>
      errand.host ≠ host
  | .keep key _ _ => lowercase key ≠ host
  | _ => True

/-- An entry that answers for the Worker's host. -/
def Entry.Lasting (e : Entry) : Prop := e.result.empty = false ∧ e.expiresAtMs = neverExpires

theorem lookupViaSystemResolver_nonempty {resolved : Option (List SystemAddress)} {result : Result}
    (h : lookupViaSystemResolver resolved = some result) : result.empty = false := by
  obtain ⟨addresses, -, h⟩ := Option.bind_eq_some_iff.1 h
  obtain ⟨hempty, heq⟩ := Option.ite_none_left_eq_some.1 h
  rw [← Option.some.inj heq]
  simpa using hempty

theorem lookupViaDohByAddress_nonempty {pton : InetPton} {name : Bytes} {a aaaa : HttpResponse}
    {result : Result} (h : lookupViaDohByAddress pton name a aaaa = some result) :
    result.empty = false := by
  rw [lookupViaDohByAddress] at h
  obtain ⟨-, h⟩ := Option.ite_none_left_eq_some.1 h
  obtain ⟨hempty, heq⟩ := Option.ite_none_left_eq_some.1 h
  rw [← Option.some.inj heq]
  simpa using hempty

section

variable (pton : InetPton)

theorem Phase.Idle.avoids {phase : Phase} (h : phase.Idle) (host : Bytes) :
    phase.Avoids host := by
  cases phase <;> first | exact h.elim | exact trivial

theorem received_avoids (host : Bytes) (query : Query) (response : HttpResponse) :
    (received pton query response).Avoids host := by
  rcases received_cases pton query response with ⟨answer, lifetime, -, -, heq⟩ | ⟨whole, reply, heq⟩
  · rw [heq]
    exact trivial
  · rw [heq]
    exact trivial

theorem startQuery_avoids {r : Resolver} {key : Bytes} (hkey : lowercase key = key) {host : Bytes}
    (hne : key ≠ host) (asker : Option Query) : (startQuery r key asker).Avoids host := by
  have hne : lowercase key ≠ host := fun heq => hne (hkey.symm.trans heq)
  rw [startQuery]
  repeat' split
  all_goals exact hne

theorem refused_avoids {errand : Errand} {host : Bytes} (h : errand.host ≠ host) :
    (refused pton errand).Avoids host := by
  cases errand with
  | name key asker => exact h
  | wire query => exact trivial

/-- What stays of the Worker's own entry when room is made for another one. -/
theorem makeRoom_workerHost (r : Resolver) (bucket : Bytes → ℕ) (key : Bytes) :
    (r.makeRoom bucket key).lookup (lowercase r.workerHost) =
      r.cache.lookup (lowercase r.workerHost) := by
  rw [Resolver.makeRoom]
  split
  · dsimp only
    split
    · rename_i victim hvictim
      have hmem := List.argmin_mem hvictim
      have hne : victim.1 ≠ lowercase r.workerHost := by
        simpa using (List.mem_filter.1 hmem).2
      exact AList.lookup_erase_ne (Ne.symm hne)
    · rfl
  · rfl

/-- What a step does to the Worker's own entry: nothing, or a lasting one takes its
place. -/
def RenewsOrKeeps (r r' : Resolver) : Prop :=
  r'.workerHost = r.workerHost ∧
    (r'.cache.lookup (lowercase r.workerHost) = r.cache.lookup (lowercase r.workerHost) ∨
      ∃ e : Entry, e.Lasting ∧ r'.cache.lookup (lowercase r.workerHost) = some e)

theorem RenewsOrKeeps.of_eq {r r' : Resolver} (hhost : r'.workerHost = r.workerHost)
    (hcache : r'.cache = r.cache) : RenewsOrKeeps r r' :=
  ⟨hhost, Or.inl (by rw [hcache])⟩

theorem clearCache_renewsOrKeeps (r : Resolver) : RenewsOrKeeps r r.clearCache := by
  refine ⟨rfl, Or.inl ?_⟩
  rw [Resolver.clearCache]
  dsimp only
  rw [lookup_eraseIf]
  cases r.cache.lookup (lowercase r.workerHost) <;> simp [Option.filter_some]

theorem keep_renewsOrKeeps {r : Resolver} {key : Bytes}
    (h : lowercase key ≠ lowercase r.workerHost) (result : Result) (now : ℕ)
    (bucket : Bytes → ℕ) : RenewsOrKeeps r (r.keep key result now bucket) := by
  have hne : key ≠ lowercase r.workerHost := by
    rintro rfl
    exact h (lowercase_lowercase _)
  refine ⟨rfl, Or.inl ?_⟩
  rw [Resolver.keep]
  dsimp only
  rw [AList.lookup_insert_ne (Ne.symm hne), makeRoom_workerHost]

/-- A call that avoids the Worker's host goes on to do so and leaves its entry alone. -/
theorem step_avoids (c : Call) (r : Resolver) (input : Input)
    (h : c.phase.Avoids (lowercase r.workerHost)) :
    RenewsOrKeeps r (c.step pton r input).1 ∧
      (c.step pton r input).2.Avoids (lowercase r.workerHost) := by
  have hstep := step_callStep pton c r input
  generalize c.phase = phase at hstep h
  generalize c.step pton r input = next at hstep ⊢
  cases hstep with
  | settles key asker result => exact ⟨.of_eq rfl rfl, (returned_idle pton asker result).avoids _⟩
  | begins key asker hfree hname => exact ⟨.of_eq rfl rfl, startQuery_avoids h hname asker⟩
  | late errand | declines errand => exact ⟨.of_eq rfl rfl, refused_avoids pton h⟩
  | renews errand result a aaaa hfresh =>
      exact ⟨⟨rfl, Or.inr ⟨_, ⟨lookupViaDohByAddress_nonempty hfresh, rfl⟩,
        AList.lookup_insert _⟩⟩, h⟩
  | receives query response => exact ⟨.of_eq rfl rfl, received_avoids pton _ query response⟩
  | keeps key asker result =>
      exact ⟨keep_renewsOrKeeps h _ _ _, (returned_idle pton asker result).avoids _⟩
  | misses query wireCache hname => exact ⟨.of_eq rfl rfl, hname⟩
  | throws | gives | hits | keepsWire => exact ⟨.of_eq rfl rfl, trivial⟩
  | waits | passes | refreshes | stays | releases | enters | fails | hears | rests =>
      exact ⟨.of_eq rfl rfl, h⟩

/-! ## Whole runs -/

/-- What holds of a system whose Worker has this name. -/
structure System.LeavesAlone (workerHost : Bytes) (s : System) : Prop where
  host : s.resolver.workerHost = workerHost
  calls : ∀ c ∈ s.calls, c.phase.Avoids (lowercase workerHost)
  entry : ∀ e, s.resolver.cache.lookup (lowercase workerHost) = some e → e.Lasting

theorem buildReply_avoids (datagram : Bytes) (deadlineMs : ℕ) (host : Bytes) :
    (Call.buildReply datagram deadlineMs).phase.Avoids host := by
  rw [Call.buildReply]
  dsimp only
  repeat' split
  all_goals first | exact lowercase_lowercase _ | exact trivial

theorem System.LeavesAlone.step {workerHost : Bytes} {s : System} (h : s.LeavesAlone workerHost)
    (e : Event) :
    (s.step pton e).LeavesAlone workerHost ∧
      RenewsOrKeeps s.resolver (s.step pton e).resolver := by
  have hstep {index : ℕ} {c : Call} (hc : s.calls[index]? = some c) (input : Input) :=
    step_avoids pton c s.resolver input (h.host ▸ h.calls c (List.mem_of_getElem? hc))
  have hkeeps : RenewsOrKeeps s.resolver (s.step pton e).resolver := by
    rcases s.resolver_step pton e with hsame | hcleared | ⟨index, input, c, -, hc, hacted⟩
    · rw [hsame]
      exact .of_eq rfl rfl
    · rw [hcleared]
      exact clearCache_renewsOrKeeps s.resolver
    · rw [hacted]
      exact (hstep hc input).1
  refine ⟨⟨hkeeps.1.trans h.host, ?_, ?_⟩, hkeeps⟩
  · refine System.forall_calls_step pton h.calls (fun _ _ _ => buildReply_avoids _ _ _)
      (fun host _ => lowercase_lowercase host) ?_
    intro index input c _ hc
    rw [← h.host]
    exact (hstep hc input).2
  · intro e' he'
    rw [← h.host] at he'
    rcases hkeeps.2 with hsame | ⟨new, hlasting, hnew⟩
    · rw [hsame, h.host] at he'
      exact h.entry e' he'
    · rw [hnew] at he'
      rw [← Option.some.inj he']
      exact hlasting

/-- The Worker's own entry is still there, in its old or in a newer form. -/
theorem System.LeavesAlone.lookup_step {workerHost : Bytes} {s : System}
    (h : s.LeavesAlone workerHost) (e : Event)
    (hpresent : ∃ e, s.resolver.cache.lookup (lowercase workerHost) = some e) :
    ∃ e', (s.step pton e).resolver.cache.lookup (lowercase workerHost) = some e' := by
  obtain ⟨-, -, hcache⟩ := h.step pton e
  rw [h.host] at hcache
  rcases hcache with hsame | ⟨e', -, hnew⟩
  · rw [hsame]
    exact hpresent
  · exact ⟨e', hnew⟩

theorem System.LeavesAlone.run {workerHost : Bytes} {s : System} (h : s.LeavesAlone workerHost)
    (events : List Event) :
    (History.run (System.step pton) s events).LeavesAlone workerHost :=
  History.run_invariant _ _ (fun _ (s : System) => s.LeavesAlone workerHost) h
    (fun _ _ e h => (h.step pton e).1) events

theorem System.LeavesAlone.lookup_run {workerHost : Bytes} {s : System}
    (h : s.LeavesAlone workerHost)
    (hpresent : ∃ e, s.resolver.cache.lookup (lowercase workerHost) = some e)
    (events : List Event) :
    ∃ e, (History.run (System.step pton) s events).resolver.cache.lookup
      (lowercase workerHost) = some e := by
  refine (History.run_invariant (System.step pton) s (fun _ (s : System) =>
    s.LeavesAlone workerHost ∧
      ∃ e, s.resolver.cache.lookup (lowercase workerHost) = some e) ⟨h, hpresent⟩ ?_ events).2
  rintro - s e ⟨h, hpresent⟩
  exact ⟨(h.step pton e).1, h.lookup_step pton e hpresent⟩

theorem System.request_eq_some {s : System} {e : Event} {errand : Errand}
    (h : s.request e = some errand) : ∃ c ∈ s.calls, c.phase = .ask errand := by
  unfold System.request at h
  split at h
  · rename_i index input
    split at h
    · rename_i errand' hphase
      cases h
      obtain ⟨c, hc, hphase⟩ := Option.map_eq_some_iff.1 hphase
      exact ⟨c, List.mem_of_getElem? hc, hphase⟩
    · cases h
  · cases h

theorem System.LeavesAlone.requests {workerHost : Bytes} {s : System}
    (h : s.LeavesAlone workerHost) (events : List Event) :
    ∀ errand ∈ s.requests pton events, errand.host ≠ lowercase workerHost := by
  induction events generalizing s with
  | nil => simp [System.requests]
  | cons e events ih =>
      intro errand herrand
      rcases List.mem_append.1 herrand with hhere | hlater
      · obtain ⟨c, hc, hphase⟩ := System.request_eq_some (Option.mem_toList.1 hhere)
        have havoids := h.calls c hc
        rw [hphase] at havoids
        exact havoids
      · exact ih (h.step pton e).1 errand hlater

theorem start_leavesAlone (workerHost : Bytes) (resolved : Option (List SystemAddress))
    (now : ℕ) :
    System.LeavesAlone workerHost
      ⟨Resolver.start pton workerHost (lookupViaSystemResolver resolved) now, []⟩ := by
  refine ⟨?_, by simp, ?_⟩
  · unfold Resolver.start
    repeat' split
    all_goals rfl
  · intro e he
    unfold Resolver.start at he
    split at he
    · cases he
    · split at he
      · cases he
      · split at he
        · cases he
        · rename_i result hresult
          dsimp only at he
          rw [AList.lookup_insert] at he
          cases he
          exact ⟨lookupViaSystemResolver_nonempty hresult, rfl⟩

/-- For a Worker with a hostname, no request of a run is about the Worker itself, and its
own entry, once it is there, is in the cache with an address and for good. -/
theorem worker_not_asked_about_itself (workerHost : Bytes)
    (resolved : Option (List SystemAddress)) (now : ℕ) (before after : List Event) :
    let s := (⟨Resolver.start pton workerHost (lookupViaSystemResolver resolved) now, []⟩ : System)
    (∀ errand ∈ s.requests pton (before ++ after), errand.host ≠ lowercase workerHost) ∧
      ((∃ e, (History.run (System.step pton) s before).resolver.cache.lookup
          (lowercase workerHost) = some e) →
        ∃ e, (History.run (System.step pton) s (before ++ after)).resolver.cache.lookup
            (lowercase workerHost) = some e ∧
          e.result.empty = false ∧ ∀ clock < neverExpires, clock < e.expiresAtMs) := by
  intro s
  have h : s.LeavesAlone workerHost := start_leavesAlone pton workerHost resolved now
  refine ⟨h.requests pton _, fun hpresent => ?_⟩
  obtain ⟨e, he⟩ := (h.run pton before).lookup_run pton hpresent after
  rw [← History.run_append] at he
  obtain ⟨hnonempty, hforever⟩ := (h.run pton (before ++ after)).entry e he
  refine ⟨e, he, hnonempty, ?_⟩
  rw [hforever]
  exact fun clock hclock => hclock

end

end Dns

end SplitHello
