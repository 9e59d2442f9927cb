import SplitHello.Worker.Tunnel

/-!
# Closing a tunnel

A tunnel that is closed ends the connection its writer belongs to. Until then there is at
most one connection and at most one lookup, and never both. What this does not cover is
the lookup: a handler that comes back from it opens its connection whatever has happened
meanwhile, and a message that comes after the end starts another lookup.
-/

namespace SplitHello

namespace Worker

open ByteString History InFlight

namespace Tunnel

/-- The tunnel has been closed from one of its sides. -/
def Closed (s : Tunnel) : Prop := s.closings ≠ []

/-- No connection to a target is open. -/
def NoTarget (s : Tunnel) : Prop := ∀ t ∈ s.targets, t.isOpen = false

/-- Only the connection of the writer is open. -/
def Single (s : Tunnel) : Prop :=
  ∀ i t, s.targets[i]? = some t → t.isOpen = true → s.targetWriter = some i

/-- What holds between two events as long as no lookup ends after the tunnel. -/
structure Tidy (s : Tunnel) : Prop where
  single : s.Single
  torn : s.Closed → s.NoTarget
  lookups : ¬ s.Closed → load (fun _ => 1) s.lookups ≤ if s.opening then 1 else 0
  opening : ¬ s.Closed → s.opening = true → s.targetWriter = none

theorem NoTarget.single {s : Tunnel} (h : s.NoTarget) : s.Single := by
  intro i t ht hopen
  rw [h t (List.mem_of_getElem? ht)] at hopen
  cases hopen

theorem Single.closeTarget {s : Tunnel} (h : s.Single) : s.closeTarget.NoTarget := by
  intro t ht
  rw [Tunnel.closeTarget] at ht
  dsimp only at ht
  obtain ⟨i, hi⟩ := List.mem_iff_getElem?.1 ht
  by_contra hopen
  rw [Bool.not_eq_false] at hopen
  split at hi
  · rename_i hwriter
    have hnone := h i t hi hopen
    rw [hwriter] at hnone
    cases hnone
  · rename_i target hwriter
    by_cases htarget : target = i
    · rw [htarget, List.getElem?_modify_eq] at hi
      obtain ⟨t', -, rfl⟩ := Option.map_eq_some_iff.1 hi
      cases hopen
    · rw [List.getElem?_modify_ne _ _ htarget] at hi
      have hsome := h i t hi hopen
      rw [hwriter] at hsome
      exact htarget (Option.some.inj hsome)

/-- Whatever closes the tunnel leaves it tidy. -/
theorem Single.tidy_closeTarget {s : Tunnel} (h : s.Single) (hclosed : s.Closed) :
    s.closeTarget.Tidy where
  single := h.closeTarget.single
  torn _ := h.closeTarget
  lookups hopen := absurd hclosed hopen
  opening hopen := absurd hclosed hopen

theorem Tidy.endReading {s : Tunnel} (h : s.Tidy) (target : ℕ) : (s.endReading target).Tidy := by
  have hopen (i : ℕ) (t : TargetSocket) (ht : (s.endReading target).targets[i]? = some t) :
      ∃ t', s.targets[i]? = some t' ∧ t.isOpen = t'.isOpen := by
    rw [Tunnel.endReading] at ht
    dsimp only at ht
    by_cases hi : target = i
    · rw [hi, List.getElem?_modify_eq] at ht
      obtain ⟨t', ht', rfl⟩ := Option.map_eq_some_iff.1 ht
      exact ⟨t', ht', rfl⟩
    · rw [List.getElem?_modify_ne _ _ hi] at ht
      exact ⟨t, ht, rfl⟩
  refine ⟨?_, ?_, h.lookups, h.opening⟩
  · intro i t ht hisOpen
    obtain ⟨t', ht', heq⟩ := hopen i t ht
    exact h.single i t' ht' (heq.symm.trans hisOpen)
  · intro hclosed t ht
    obtain ⟨i, hi⟩ := List.mem_iff_getElem?.1 ht
    obtain ⟨t', ht', heq⟩ := hopen i t hi
    exact heq.trans (h.torn hclosed t' (List.mem_of_getElem? ht'))

/-- A lookup that waits in a tunnel that is not closed is the only one, and no connection
is open. -/
theorem Tidy.of_waiting {s : Tunnel} (h : s.Tidy) (hclosed : ¬ s.Closed) {handler : ℕ}
    {lookup : Lookup} (hwaiting : waiting s.lookups handler = some lookup) :
    s.targetWriter = none ∧ load (fun _ => 1) (settle s.lookups handler) = 0 := by
  have hload := load_settle (fun _ => 1) hwaiting
  have hlookups := h.lookups hclosed
  have hopening : s.opening = true := by
    by_contra hidle
    rw [if_neg hidle] at hlookups
    omega
  rw [if_pos hopening] at hlookups
  exact ⟨h.opening hclosed hopening, by omega⟩

theorem Tidy.connected {s : Tunnel} (h : s.Tidy) (hclosed : ¬ s.Closed) {handler : ℕ}
    {lookup : Lookup} (hwaiting : waiting s.lookups handler = some lookup) (address : Bytes)
    (port : ℕ) : (s.connected handler address port).Tidy := by
  obtain ⟨hwriter, hload⟩ := h.of_waiting hclosed hwaiting
  refine ⟨?_, fun hclosed' => absurd hclosed' hclosed, fun _ => hload.le, fun _ => nofun⟩
  intro i t ht hisOpen
  rw [Tunnel.connected] at ht
  dsimp only at ht
  rcases lt_or_ge i s.targets.length with hi | hi
  · rw [List.getElem?_append_left hi] at ht
    have hnone := h.single i t ht hisOpen
    rw [hwriter] at hnone
    cases hnone
  · rw [List.getElem?_append_right hi] at ht
    have hlength := (List.getElem?_eq_some_iff.1 ht).1
    rw [List.length_singleton] at hlength
    have heq : s.targets.length = i := by omega
    exact congrArg some heq

variable {s u t : Tunnel} {event : TunnelEvent}

/-- An event keeps a tunnel tidy, unless a lookup ends in a connection after the tunnel
has been closed. -/
theorem Update.tidy (h : Update s event u) (hs : s.Tidy) (hgood : s.Closed → ¬ s.Opens event) :
    u.Tidy := by
  cases h with
  | quiet idleTimer arrived transferred harrived htransferred =>
      exact ⟨hs.single, hs.torn, hs.lookups, hs.opening⟩
  | looksUp m lookup hwriter hidle =>
      refine ⟨hs.single, hs.torn, fun hclosed => ?_, fun _ _ => hwriter⟩
      have hnone := hs.lookups hclosed
      have hload := load_start (fun _ => 1) s.lookups lookup
      rw [if_neg (Bool.eq_false_iff.1 hidle)] at hnone
      rw [if_pos rfl]
      exact hload.trans_le (by omega)
  | passes m target hlimit hroom => exact ⟨hs.single, hs.torn, hs.lookups, hs.opening⟩
  | abandons hwaiting =>
      refine ⟨hs.single, hs.torn, fun hclosed => ?_, fun _ => nofun⟩
      exact (hs.of_waiting hclosed hwaiting).2.le
  | connects hwaiting address hopens =>
      exact hs.connected (fun hclosed => hgood hclosed hopens) hwaiting address _
  | settles hwaiting => exact ⟨hs.single, hs.torn, hs.lookups, hs.opening⟩
  | returns value hlimit => exact ⟨hs.single, hs.torn, hs.lookups, hs.opening⟩

theorem Ending.tidy (h : Ending u t) (hu : u.Tidy) : t.Tidy := by
  induction h with
  | stays => exact hu
  | closes opening closing =>
      have hsingle : Single
          { u with
            opening
            ready := false
            closings := u.closings ++ [closing] } := hu.single
      exact hsingle.tidy_closeTarget (by simp [Closed])
  | leaves ht target ih => exact ih.endReading target

/-! ## Runs -/

/-- A closed tunnel stays closed and gets no further connection from how it is left. -/
theorem Ending.grows (h : Ending u t) :
    (u.Closed → t.Closed) ∧ t.targets.length = u.targets.length := by
  induction h with
  | stays => exact ⟨id, rfl⟩
  | closes opening closing =>
      refine ⟨fun _ => by simp [Closed, closeTarget], ?_⟩
      rw [closeTarget]
      dsimp only
      split
      · rfl
      · exact List.length_modify _ _ _
  | leaves ht target ih => exact ⟨ih.1, (List.length_modify _ _ _).trans ih.2⟩

theorem Update.grows (h : Update s event u) :
    (s.Closed → u.Closed) ∧ (u.targets.length = s.targets.length ∨ s.Opens event) := by
  cases h with
  | quiet idleTimer arrived transferred harrived htransferred => exact ⟨id, Or.inl rfl⟩
  | looksUp m lookup hwriter hidle => exact ⟨id, Or.inl rfl⟩
  | passes m target hlimit hroom => exact ⟨id, Or.inl rfl⟩
  | abandons hwaiting => exact ⟨id, Or.inl rfl⟩
  | connects hwaiting address hopens => exact ⟨id, Or.inr hopens⟩
  | settles hwaiting => exact ⟨id, Or.inl rfl⟩
  | returns value hlimit => exact ⟨id, Or.inl rfl⟩

theorem Update.length_le (h : Update s event u) : s.targets.length ≤ u.targets.length := by
  cases h with
  | connects hwaiting address hopens =>
      rw [Tunnel.connected, List.length_append]
      exact Nat.le_add_right _ _
  | _ => exact le_rfl

/-- Every lookup that finds an address adds a connection. -/
theorem Opens.length_step (h : s.Opens event) :
    (s.step event).targets.length = s.targets.length + 1 := by
  obtain ⟨handler, lookup, resolved, address, sends, rfl, hwaiting, haddress⟩ := h
  have hending : Ending (s.connected handler address lookup.port)
      (s.step (.resolved handler (some resolved) true sends)) := by
    rw [step, onResolved, hwaiting]
    dsimp only
    rw [haddress]
    cases sends with
    | true => exact .stays
    | false => exact .closes false _
  rw [hending.grows.2, Tunnel.connected, List.length_append, List.length_singleton]

theorem run_next (events : List TunnelEvent) (event : TunnelEvent) :
    run (events ++ [event]) = (run events).step event :=
  run_concat step {} events event

theorem length_run_le (s : Tunnel) (events : List TunnelEvent) :
    s.targets.length ≤ (History.run step s events).targets.length := by
  refine run_invariant step s (fun _ t => s.targets.length ≤ t.targets.length) le_rfl ?_ events
  intro _ t event ht
  obtain ⟨u, hupdate, hending⟩ := t.step_cases event
  rw [hending.grows.2]
  exact ht.trans hupdate.length_le

theorem run_tidy {events : List TunnelEvent}
    (h : ∀ before event after, events = before ++ event :: after →
      (run before).Closed → ¬ (run before).Opens event) : (run events).Tidy := by
  induction events using List.reverseRecOn with
  | nil =>
      refine ⟨nofun, fun _ => nofun, fun _ => le_rfl, fun _ => nofun⟩
  | append_singleton events event ih =>
      have hbefore : (run events).Tidy := by
        refine ih fun before e after heq => h before e (after ++ [event]) ?_
        rw [heq]
        simp
      rw [run_next]
      obtain ⟨u, hupdate, hending⟩ := (run events).step_cases event
      exact hending.tidy (hupdate.tidy hbefore (h events event [] rfl))

/-- After the tunnel has been closed the number of connections stays. -/
theorem length_run_of_closed {before after : List TunnelEvent} (hclosed : (run before).Closed)
    (h : ∀ first event rest, after = first ++ event :: rest →
      (run (before ++ first)).Closed → ¬ (run (before ++ first)).Opens event) :
    (run (before ++ after)).Closed ∧
      (run (before ++ after)).targets.length = (run before).targets.length := by
  induction after using List.reverseRecOn with
  | nil =>
      rw [List.append_nil]
      exact ⟨hclosed, rfl⟩
  | append_singleton after event ih =>
      have hafter : (run (before ++ after)).Closed ∧
          (run (before ++ after)).targets.length = (run before).targets.length := by
        refine ih fun first e rest heq => h first e (rest ++ [event]) ?_
        rw [heq]
        simp
      rw [← List.append_assoc, run_next]
      obtain ⟨u, hupdate, hending⟩ := (run (before ++ after)).step_cases event
      refine ⟨hending.grows.1 (hupdate.grows.1 hafter.1), ?_⟩
      rw [hending.grows.2, ← hafter.2]
      exact hupdate.grows.2.resolve_right (h after event [] rfl hafter.1)

/-- A closed tunnel has no connection and gets none exactly if no lookup finds an address
after the tunnel has been closed. -/
theorem torn_down_iff (events : List TunnelEvent) :
    (∀ before after, events = before ++ after → (run before).Closed →
        (run before).NoTarget ∧
          (run events).targets.length = (run before).targets.length) ↔
      ∀ before event after, events = before ++ event :: after → (run before).Closed →
        ¬ (run before).Opens event := by
  constructor
  · intro htorn before event after heq hclosed hopens
    have hstays := (htorn before (event :: after) heq hclosed).2
    have hgrows := length_run_le (run (before ++ [event])) after
    have hevents : run events = History.run step (run (before ++ [event])) after := by
      rw [heq, List.append_cons]
      exact run_append step {} (before ++ [event]) after
    rw [← hevents, run_next, hopens.length_step] at hgrows
    omega
  · intro hgood before after heq hclosed
    constructor
    · refine (run_tidy fun first event rest hfirst => ?_).torn hclosed
      refine hgood first event (rest ++ after) ?_
      rw [heq, hfirst]
      simp
    · rw [heq]
      refine (length_run_of_closed hclosed fun first event rest hafter => ?_).2
      refine hgood (before ++ first) event rest ?_
      rw [heq, hafter, List.append_assoc]

def sampleConnect : Message where
  data := ofString "\x7b\"cmd\":\"connect\",\"host\":\"example.com\",\"port\":443\x7d"
  command := some ⟨some (ofString "connect"), some (ofString "example.com"), some 443⟩

def sampleFoundAddress : Resolved :=
  { a := [ofString "93.184.216.34"], aaaa := [], ttl := 300, rcode := 0, partly := false
    failed := false }

/-- A client asks for a connection and goes away while the name is looked up. -/
theorem run_sampleConnect_close :
    run [.message sampleConnect, .close] =
      { opening := true, idleTimer := false, ready := false
        lookups := [⟨⟨ofString "example.com", 443⟩, false⟩]
        arrived := [sampleConnect]
        closings := [.closeEvent] } := by
  have hvalid : isValidHostname (ofString "example.com") = true := by
    have hlower : Dns.lowercase (ofString "example.com") = ofString "example.com" := by decide
    have hhost : Dns.isResolvableHost (Dns.lowercase (ofString "example.com")) = true := by decide
    have hfits := (isValidHostname_lowercase hhost).2 (by decide)
    rwa [hlower] at hfits
  have hport : 443 ∈ allowedPorts := by decide
  simp [run, History.run, step, onMessage, touch, openTarget, closeTarget, sampleConnect, start,
    hvalid, hport]

/-- The connection is opened after the client has gone, and nothing closes it. -/
theorem opened_after_close :
    (run [.message sampleConnect, .close]).Closed ∧
      (run [.message sampleConnect, .close]).targets = [] ∧
      (run [.message sampleConnect, .close,
          .resolved 0 (some sampleFoundAddress) true true]).targets =
        [{ address := ofString "93.184.216.34", port := 443 }] := by
  have hopened := run_next [.message sampleConnect, .close]
    (.resolved 0 (some sampleFoundAddress) true true)
  rw [run_sampleConnect_close] at hopened ⊢
  refine ⟨by simp [Closed], rfl, ?_⟩
  exact (congrArg targets hopened).trans (by decide)

end Tunnel

end Worker

end SplitHello
