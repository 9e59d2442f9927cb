import SplitHello.Quic.FastPath

/-!
# Blocks and the tries that lead to them

A server is blocked on the strength of a flow that was primed and has not been answered for
long enough. The record of this flow is meant to be forgotten when the block is over, so
that the next Initial is a try of its own. It is forgotten by a purge, though, which does not
run at every call, keeps a flow for one millisecond more than the block lasts, and knows
nothing of a block that was lifted by an answer to another flow.
-/

namespace SplitHello

namespace Quic

open ByteString KeyedTable History Machine

namespace AdaptiveRegistry

/-- The call primes the flow. -/
def Primes (r : AdaptiveRegistry) (e : Timed Datagram) (server : Bytes) (localPort : UInt16) :
    Prop :=
  (∃ initial, e.op = .outbound server localPort initial) ∧ (r.observe e).2 = some .primeAndPass

/-- The call drops a datagram of the flow to a server that was not blocked. -/
def StartsBlock (r : AdaptiveRegistry) (e : Timed Datagram) (server : Bytes)
    (localPort : UInt16) : Prop :=
  (∃ initial, e.op = .outbound server localPort initial) ∧ (r.observe e).2 = some .drop ∧
    ¬ r.Blocked server e.now

/-- A purge is not due yet, or leaves the flow in the table. -/
def Keeps (r : AdaptiveRegistry) (flow : Flow) (now : UInt64) : Prop :=
  now < r.nextPurgeAtMs ∨ flow.idle r.fallbackMs now = false

/-! ## One call -/

section

variable {r : AdaptiveRegistry} {e : Timed Datagram} {server : Bytes} {localPort : UInt16}

theorem lookup_purgeIfDue_eq_some {key : Bytes} {flow : Flow} {now : UInt64} :
    (r.purgeIfDue now).flows.lookup key = some flow ↔
      r.flows.lookup key = some flow ∧ r.Keeps flow now := by
  rw [purgeIfDue, Keeps]
  split
  · rename_i hearly
    simp [hearly]
  · rename_i hdue
    simp [publishBlockedLocked, lookup_eraseIf, Option.filter_eq_some_iff, hdue]

/-- What a datagram does about the flow it belongs to, unless the server is blocked. -/
theorem outboundInitial_cases (r : AdaptiveRegistry) (server : Bytes) (localPort : UInt16)
    (now : UInt64) :
    (r.flows.lookup (flowKey server localPort) = none ∧
        (r.outboundInitial server localPort now).2 = .primeAndPass ∧
        (r.outboundInitial server localPort now).1.flows =
          r.flows.insert (flowKey server localPort) ⟨now, now, false⟩) ∨
      ∃ flow, r.flows.lookup (flowKey server localPort) = some flow ∧
        (r.outboundInitial server localPort now).1.flows =
          r.flows.insert (flowKey server localPort) { flow with touchedMs := now } ∧
        (r.outboundInitial server localPort now).2 ≠ .primeAndPass ∧
        ((r.outboundInitial server localPort now).2 = .drop ↔
          flow.answered = false ∧ r.responseTimeoutMs ≤ now - flow.startedMs) := by
  rw [outboundInitial]
  dsimp only
  cases hflow : r.flows.lookup (flowKey server localPort) with
  | none => exact Or.inl ⟨rfl, rfl, rfl⟩
  | some flow =>
      refine Or.inr ⟨flow, rfl, ?_⟩
      dsimp only
      by_cases hanswered : flow.answered = true
      · rw [if_pos hanswered]
        exact ⟨rfl, (fun h => by cases h), by simp [hanswered]⟩
      · rw [if_neg hanswered]
        by_cases hdue : now - flow.startedMs ≥ r.responseTimeoutMs
        · rw [if_pos hdue]
          exact ⟨rfl, (fun h => by cases h), by simpa [hanswered] using hdue⟩
        · rw [if_neg hdue]
          exact ⟨rfl, (fun h => by cases h), by simpa [hanswered] using hdue⟩

theorem primes_iff : Primes r e server localPort ↔
    e.op = .outbound server localPort true ∧ ¬ r.Blocked server e.now ∧
      (r.purgeIfDue e.now).flows.lookup (flowKey server localPort) = none := by
  obtain ⟨op, now⟩ := e
  constructor
  · rintro ⟨⟨initial, rfl⟩, hprimes⟩
    rw [observe] at hprimes
    dsimp only at hprimes
    by_cases hblocked : r.Blocked server now
    · rw [outbound_of_blocked hblocked] at hprimes
      cases hprimes
    · obtain ⟨r', -, hflows, heq⟩ := outbound_of_not_blocked hblocked localPort initial
      rw [heq] at hprimes
      cases initial with
      | false => cases hprimes
      | true =>
          rw [if_pos rfl] at hprimes
          rcases outboundInitial_cases r' server localPort now with
            ⟨hnone, -⟩ | ⟨flow, -, -, hne, -⟩
          · exact ⟨rfl, hblocked, hflows ▸ hnone⟩
          · exact absurd (Option.some.inj hprimes) hne
  · rintro ⟨hop, hblocked, hnone⟩
    dsimp only at hop hblocked hnone
    subst hop
    obtain ⟨r', -, hflows, heq⟩ := outbound_of_not_blocked hblocked localPort true
    refine ⟨⟨true, rfl⟩, ?_⟩
    rw [observe]
    dsimp only
    rw [heq, if_pos rfl]
    rcases outboundInitial_cases r' server localPort now with
      ⟨-, hprime, -⟩ | ⟨flow, hflow, -⟩
    · rw [hprime]
    · rw [hflows, hnone] at hflow
      cases hflow

theorem startsBlock_iff : StartsBlock r e server localPort ↔
    e.op = .outbound server localPort true ∧ ¬ r.Blocked server e.now ∧
      ∃ flow, r.flows.lookup (flowKey server localPort) = some flow ∧ r.Keeps flow e.now ∧
        flow.answered = false ∧ r.responseTimeoutMs ≤ e.now - flow.startedMs := by
  obtain ⟨op, now⟩ := e
  constructor
  · rintro ⟨⟨initial, rfl⟩, hdrops, hblocked⟩
    dsimp only at hblocked
    obtain ⟨r', hages, hflows, heq⟩ := outbound_of_not_blocked hblocked localPort initial
    rw [observe] at hdrops
    dsimp only at hdrops
    rw [heq] at hdrops
    cases initial with
    | false => cases hdrops
    | true =>
        rw [if_pos rfl] at hdrops
        rcases outboundInitial_cases r' server localPort now with
          ⟨-, hprime, -⟩ | ⟨flow, hflow, -, -, hdrop⟩
        · rw [hprime] at hdrops
          cases hdrops
        · obtain ⟨hanswered, hdue⟩ := hdrop.1 (Option.some.inj hdrops)
          rw [hflows] at hflow
          obtain ⟨hflow, hkeeps⟩ := lookup_purgeIfDue_eq_some.1 hflow
          exact ⟨rfl, hblocked, flow, hflow, hkeeps, hanswered, hages.responseTimeoutMs_eq ▸ hdue⟩
  · rintro ⟨hop, hblocked, flow, hflow, hkeeps, hanswered, hdue⟩
    dsimp only at hop hblocked hkeeps hdue
    subst hop
    obtain ⟨r', hages, hflows, heq⟩ := outbound_of_not_blocked hblocked localPort true
    refine ⟨⟨true, rfl⟩, ?_, hblocked⟩
    rw [observe]
    dsimp only
    have hfound := lookup_purgeIfDue_eq_some.2 ⟨hflow, hkeeps⟩
    rw [← hflows] at hfound
    rw [heq, if_pos rfl]
    rcases outboundInitial_cases r' server localPort now with
      ⟨hnone, -⟩ | ⟨flow', hflow', -, -, hdrop⟩
    · rw [hnone] at hfound
      cases hfound
    · rw [hflow', Option.some.injEq] at hfound
      subst hfound
      rw [hdrop.2 ⟨hanswered, hages.responseTimeoutMs_eq.symm ▸ hdue⟩]

/-- What a call does to the flows that are left after a purge: it lets them be, touches one
of them, or primes a new one. -/
theorem flows_observe (r : AdaptiveRegistry) (e : Timed Datagram) :
    (r.observe e).1.flows = (r.purgeIfDue e.now).flows ∨
      (∃ key flow answered, (r.purgeIfDue e.now).flows.lookup key = some flow ∧
        (r.observe e).1.flows =
          (r.purgeIfDue e.now).flows.insert key ⟨flow.startedMs, e.now, answered⟩) ∨
      ∃ server localPort, Primes r e server localPort ∧
        (r.observe e).1.flows =
          (r.purgeIfDue e.now).flows.insert (flowKey server localPort) ⟨e.now, e.now, false⟩ := by
  obtain ⟨op, now⟩ := e
  cases op with
  | outbound server localPort initial =>
      rw [observe]
      dsimp only
      by_cases hblocked : r.Blocked server now
      · rw [outbound_of_blocked hblocked]
        exact Or.inl rfl
      · obtain ⟨r', hages, hflows, heq⟩ := outbound_of_not_blocked hblocked localPort initial
        rw [heq]
        cases initial with
        | false => exact Or.inl hflows
        | true =>
            rw [if_pos rfl, ← hflows]
            rcases outboundInitial_cases r' server localPort now with
              ⟨hnone, -, hinsert⟩ | ⟨flow, hflow, hinsert, -⟩
            · exact Or.inr (Or.inr ⟨server, localPort,
                primes_iff.2 ⟨rfl, hblocked, hflows ▸ hnone⟩, hinsert⟩)
            · exact Or.inr (Or.inl ⟨_, flow, flow.answered, hflow, hinsert⟩)
  | inbound server localPort =>
      rw [observe]
      dsimp only
      rw [inbound]
      cases hflow : (r.purgeIfDue now).flows.lookup (flowKey server localPort) with
      | none => exact Or.inl rfl
      | some flow => exact Or.inr (Or.inl ⟨_, flow, true, hflow, rfl⟩)

/-- A record after a call was there before with the same start, or was primed by it. -/
theorem lookup_observe {flow' : Flow}
    (h : (r.observe e).1.flows.lookup (flowKey server localPort) = some flow') :
    (∃ flow, r.flows.lookup (flowKey server localPort) = some flow ∧
        flow'.startedMs = flow.startedMs) ∨
      Primes r e server localPort ∧ flow'.startedMs = e.now := by
  rcases flows_observe r e with hsame | ⟨key, flow, answered, hflow, hinsert⟩ |
    ⟨server', localPort', hprimes, hinsert⟩
  · rw [hsame] at h
    exact Or.inl ⟨flow', (lookup_purgeIfDue_eq_some.1 h).1, rfl⟩
  · rw [hinsert] at h
    rcases lookup_insert_cases h with ⟨rfl, rfl⟩ | ⟨-, h⟩
    · exact Or.inl ⟨flow, (lookup_purgeIfDue_eq_some.1 hflow).1, rfl⟩
    · exact Or.inl ⟨flow', (lookup_purgeIfDue_eq_some.1 h).1, rfl⟩
  · rw [hinsert] at h
    rcases lookup_insert_cases h with ⟨hkey, rfl⟩ | ⟨-, h⟩
    · obtain ⟨rfl, rfl⟩ := flowKey_inj.1 hkey
      exact Or.inr ⟨hprimes, rfl⟩
    · exact Or.inl ⟨flow', (lookup_purgeIfDue_eq_some.1 h).1, rfl⟩

/-- A record keeps its start, unless a purge finds it idle. -/
theorem lookup_observe_of_lookup {key : Bytes} {flow : Flow}
    (h : r.flows.lookup key = some flow) :
    (∃ flow', (r.observe e).1.flows.lookup key = some flow' ∧
        flow'.startedMs = flow.startedMs) ∨
      flow.idle r.fallbackMs e.now = true := by
  by_cases hkeeps : r.Keeps flow e.now
  · left
    have hfound := lookup_purgeIfDue_eq_some.2 ⟨h, hkeeps⟩
    rcases flows_observe r e with hsame | ⟨key', flow₀, answered, hflow₀, hinsert⟩ |
      ⟨server', localPort', hprimes, hinsert⟩
    · exact ⟨flow, hsame ▸ hfound, rfl⟩
    · rw [hinsert, lookup_insert_eq]
      split
      · rename_i hkey
        rw [hkey, hflow₀, Option.some.injEq] at hfound
        exact ⟨_, rfl, hfound ▸ rfl⟩
      · exact ⟨flow, hfound, rfl⟩
    · rw [hinsert, lookup_insert_eq]
      split
      · rename_i hkey
        rw [hkey, (primes_iff.1 hprimes).2.2] at hfound
        cases hfound
      · exact ⟨flow, hfound, rfl⟩
  · rw [Keeps, not_or, Bool.not_eq_false] at hkeeps
    exact Or.inr hkeeps.2

theorem Primes.lookup (h : Primes r e server localPort) :
    (r.observe e).1.flows.lookup (flowKey server localPort) = some ⟨e.now, e.now, false⟩ := by
  obtain ⟨hop, hblocked, hnone⟩ := primes_iff.1 h
  obtain ⟨r', -, hflows, heq⟩ := outbound_of_not_blocked hblocked localPort true
  rw [observe, hop]
  dsimp only
  rw [heq, if_pos rfl]
  rcases outboundInitial_cases r' server localPort e.now with
    ⟨-, -, hinsert⟩ | ⟨flow, hflow, -⟩
  · rw [hinsert, AList.lookup_insert]
  · rw [hflows, hnone] at hflow
    cases hflow

theorem outboundInitial_settings (r : AdaptiveRegistry) (server : Bytes) (localPort : UInt16)
    (now : UInt64) :
    (r.outboundInitial server localPort now).1.responseTimeoutMs = r.responseTimeoutMs ∧
      (r.outboundInitial server localPort now).1.fallbackMs = r.fallbackMs := by
  rw [outboundInitial]
  dsimp only
  split
  · exact ⟨rfl, rfl⟩
  · split
    · exact ⟨rfl, rfl⟩
    · split <;> exact ⟨rfl, rfl⟩

theorem observe_settings (r : AdaptiveRegistry) (e : Timed Datagram) :
    (r.observe e).1.responseTimeoutMs = r.responseTimeoutMs ∧
      (r.observe e).1.fallbackMs = r.fallbackMs := by
  obtain ⟨op, now⟩ := e
  have hpurge := purge_ages r now
  cases op with
  | outbound server localPort initial =>
      rw [observe]
      dsimp only
      by_cases hblocked : r.Blocked server now
      · rw [outbound_of_blocked hblocked]
        exact ⟨hpurge.responseTimeoutMs_eq, hpurge.fallbackMs_eq⟩
      · obtain ⟨r', hages, -, heq⟩ := outbound_of_not_blocked hblocked localPort initial
        rw [heq]
        cases initial with
        | false => exact ⟨hages.responseTimeoutMs_eq, hages.fallbackMs_eq⟩
        | true =>
            obtain ⟨htimeout, hfallback⟩ := outboundInitial_settings r' server localPort now
            exact ⟨htimeout.trans hages.responseTimeoutMs_eq, hfallback.trans hages.fallbackMs_eq⟩
  | inbound server localPort =>
      rw [observe]
      dsimp only
      rw [inbound]
      cases (r.purgeIfDue now).flows.lookup (flowKey server localPort) with
      | none => exact ⟨hpurge.responseTimeoutMs_eq, hpurge.fallbackMs_eq⟩
      | some flow => exact ⟨hpurge.responseTimeoutMs_eq, hpurge.fallbackMs_eq⟩

end

/-! ## Runs -/

section

variable {start : AdaptiveRegistry} {events history : List (Timed Datagram)} {e : Timed Datagram}
  {server : Bytes} {localPort : UInt16}

/-- The flow was primed after the last block of its server, and long enough ago. -/
def FreshTry (start : AdaptiveRegistry) (history : List (Timed Datagram)) (e : Timed Datagram)
    (server : Bytes) (localPort : UInt16) : Prop :=
  ∃ before prime later, history = before ++ prime :: later ∧
    Primes (final observe start before) prime server localPort ∧
    prime.now.toNat + start.responseTimeoutMs.toNat ≤ e.now.toNat ∧
    ¬ (final observe start before).Blocked server prime.now ∧
    ∀ between x rest port, later = between ++ x :: rest →
      ¬ StartsBlock (final observe start (before ++ prime :: between)) x server port

/-- An Initial comes whose flow was primed before the last block of its server and has not
been answered since; the block is over, and the record is still there. -/
structure Outlives (start : AdaptiveRegistry) (history : List (Timed Datagram))
    (e : Timed Datagram) (server : Bytes) (localPort : UInt16) (flow : Flow) : Prop where
  initial : e.op = .outbound server localPort true
  unblocked : ¬ (final observe start history).Blocked server e.now
  record : (final observe start history).flows.lookup (flowKey server localPort) = some flow
  kept : (final observe start history).Keeps flow e.now
  unanswered : flow.answered = false
  overdue : start.responseTimeoutMs ≤ e.now - flow.startedMs
  older : ∃ before block later port flow₀, history = before ++ block :: later ∧
    StartsBlock (final observe start before) block server port ∧
    (final observe start before).flows.lookup (flowKey server localPort) = some flow₀ ∧
    flow₀.startedMs = flow.startedMs

theorem final_settings (start : AdaptiveRegistry) (events : List (Timed Datagram)) :
    (final observe start events).responseTimeoutMs = start.responseTimeoutMs ∧
      (final observe start events).fallbackMs = start.fallbackMs := by
  induction events using List.reverseRecOn with
  | nil => exact ⟨rfl, rfl⟩
  | append_singleton events e ih =>
      obtain ⟨htimeout, hfallback⟩ := observe_settings (final observe start events) e
      rw [final_concat]
      exact ⟨htimeout.trans ih.1, hfallback.trans ih.2⟩

theorem final_consistent (hstart : ∀ now, start.Consistent now) (hclock : Clocked events)
    {now : UInt64} (hnow : ∀ e ∈ events, e.now ≤ now) :
    (final observe start events).Consistent now := by
  induction events using List.reverseRecOn generalizing now with
  | nil => exact hstart now
  | append_singleton events e ih =>
      rw [final_concat]
      exact (ih hclock.init hclock.le_last).observe.mono
        (hnow e (List.mem_append_right _ List.mem_cons_self))

/-- Every record goes back to a call that primed its flow, and has been there since. -/
theorem record_primed (hempty : start.flows = ∅) {flow : Flow}
    (h : (final observe start history).flows.lookup (flowKey server localPort) = some flow) :
    ∃ before prime later, history = before ++ prime :: later ∧
      Primes (final observe start before) prime server localPort ∧ prime.now = flow.startedMs ∧
      ∀ between x rest, later = between ++ x :: rest →
        ∃ flow₀, (final observe start (before ++ prime :: between)).flows.lookup
            (flowKey server localPort) = some flow₀ ∧ flow₀.startedMs = flow.startedMs := by
  induction history using List.reverseRecOn generalizing flow with
  | nil =>
      rw [final_nil, hempty] at h
      cases h
  | append_singleton history e ih =>
      rw [final_concat] at h
      rcases lookup_observe h with ⟨flow₀, hflow₀, hstarted⟩ | ⟨hprimes, hstarted⟩
      · obtain ⟨before, prime, later, rfl, hprimes, hnow, hsince⟩ := ih hflow₀
        refine ⟨before, prime, later ++ [e], by simp, hprimes, hnow.trans hstarted.symm, ?_⟩
        intro between x rest heq
        rw [hstarted]
        rcases concat_eq_cases heq with ⟨-, rfl, -⟩ | ⟨rest', -, hlater⟩
        · exact ⟨flow₀, hflow₀, rfl⟩
        · exact hsince between x rest' hlater
      · refine ⟨history, e, [], rfl, hprimes, hstarted.symm, ?_⟩
        intro between x rest heq
        cases between <;> cases heq

/-- A record is younger than any call that primed its flow. -/
theorem started_ge {before later : List (Timed Datagram)} {prime : Timed Datagram}
    (hprimes : Primes (final observe start before) prime server localPort)
    (hclock : Clocked (before ++ prime :: later)) {flow : Flow}
    (h : (final observe start (before ++ prime :: later)).flows.lookup
      (flowKey server localPort) = some flow) : prime.now ≤ flow.startedMs := by
  induction later using List.reverseRecOn generalizing flow with
  | nil =>
      rw [final_concat, hprimes.lookup] at h
      cases h
      exact UInt64.le_refl _
  | append_singleton later e ih =>
      rw [← List.cons_append, ← List.append_assoc] at hclock h
      rw [final_concat] at h
      rcases lookup_observe h with ⟨flow₀, hflow₀, hstarted⟩ | ⟨-, hstarted⟩
      · rw [hstarted]
        exact ih hclock.init hflow₀
      · rw [hstarted]
        exact hclock.le_last prime (List.mem_append_right _ List.mem_cons_self)

/-- A record was touched after it was started. -/
theorem started_le (hstart : ∀ now, start.Consistent now) (hempty : start.flows = ∅)
    (hclock : Clocked history) {key : Bytes} {flow : Flow}
    (h : (final observe start history).flows.lookup key = some flow) :
    flow.startedMs ≤ flow.touchedMs := by
  induction history using List.reverseRecOn generalizing flow key with
  | nil =>
      rw [final_nil, hempty] at h
      cases h
  | append_singleton history e ih =>
      have hconsistent := final_consistent hstart hclock.init hclock.le_last
      rw [final_concat] at h
      rcases flows_observe (final observe start history) e with hsame |
        ⟨key', flow₀, answered, hflow₀, hinsert⟩ | ⟨server', localPort', -, hinsert⟩
      · rw [hsame] at h
        exact ih hclock.init (lookup_purgeIfDue_eq_some.1 h).1
      · rw [hinsert] at h
        rcases lookup_insert_cases h with ⟨rfl, rfl⟩ | ⟨-, h⟩
        · have hflow₀ := (lookup_purgeIfDue_eq_some.1 hflow₀).1
          exact show flow₀.startedMs ≤ e.now from
            UInt64.le_trans (ih hclock.init hflow₀) (hconsistent.touched_le _ flow₀ hflow₀)
        · exact ih hclock.init (lookup_purgeIfDue_eq_some.1 h).1
      · rw [hinsert] at h
        rcases lookup_insert_cases h with ⟨rfl, rfl⟩ | ⟨-, h⟩
        · exact UInt64.le_refl _
        · exact ih hclock.init (lookup_purgeIfDue_eq_some.1 h).1

theorem lt_of_idle {fallbackMs now : UInt64} {flow : Flow}
    (hstarted : flow.startedMs ≤ flow.touchedMs) (htouched : flow.touchedMs ≤ now)
    (h : flow.idle fallbackMs now = true) : flow.startedMs < now := by
  rw [Flow.idle, decide_eq_true_eq, gt_iff_lt, UInt64.lt_iff_toNat_lt,
    UInt64.toNat_sub_of_le _ _ htouched] at h
  rw [UInt64.le_iff_toNat_le] at hstarted
  rw [UInt64.lt_iff_toNat_lt]
  omega

/-- A record stays with its start, or has been idle since. -/
theorem record_stays (hstart : ∀ now, start.Consistent now) (hempty : start.flows = ∅)
    {before later : List (Timed Datagram)} (hclock : Clocked (before ++ later)) {key : Bytes}
    {flow₀ : Flow} (h : (final observe start before).flows.lookup key = some flow₀) :
    (∃ flow, (final observe start (before ++ later)).flows.lookup key = some flow ∧
        flow.startedMs = flow₀.startedMs) ∨
      ∃ x ∈ later, flow₀.startedMs < x.now := by
  induction later using List.reverseRecOn with
  | nil =>
      rw [List.append_nil]
      exact Or.inl ⟨flow₀, h, rfl⟩
  | append_singleton later e ih =>
      rw [← List.append_assoc] at hclock ⊢
      rcases ih hclock.init with ⟨flow, hflow, hstarted⟩ | ⟨x, hx, hlt⟩
      · rw [final_concat]
        rcases lookup_observe_of_lookup hflow with ⟨flow', hflow', hstarted'⟩ | hidle
        · exact Or.inl ⟨flow', hflow', hstarted'.trans hstarted⟩
        · have hconsistent := final_consistent hstart hclock.init hclock.le_last
          refine Or.inr ⟨e, List.mem_append_right _ List.mem_cons_self, ?_⟩
          rw [← hstarted]
          exact lt_of_idle (started_le hstart hempty hclock.init hflow)
            (hconsistent.touched_le _ flow hflow) hidle
      · exact Or.inr ⟨x, List.mem_append_left _ hx, hlt⟩

/-- A flow is primed again only later than its earlier record was started. -/
theorem started_lt_of_primes (hstart : ∀ now, start.Consistent now) (hempty : start.flows = ∅)
    {before later : List (Timed Datagram)} {prime : Timed Datagram}
    (hclock : Clocked (before ++ later ++ [prime])) {flow₀ : Flow}
    (h : (final observe start before).flows.lookup (flowKey server localPort) = some flow₀)
    (hprimes : Primes (final observe start (before ++ later)) prime server localPort) :
    flow₀.startedMs < prime.now := by
  rcases record_stays hstart hempty hclock.init h with ⟨flow, hflow, hstarted⟩ | ⟨x, hx, hlt⟩
  · rw [← hstarted]
    have hconsistent := final_consistent hstart hclock.init hclock.le_last
    have hidle : flow.idle (final observe start (before ++ later)).fallbackMs prime.now = true := by
      by_contra hbusy
      have hfound := lookup_purgeIfDue_eq_some.2 ⟨hflow, Or.inr (Bool.not_eq_true _ ▸ hbusy)⟩
      rw [(primes_iff.1 hprimes).2.2] at hfound
      cases hfound
    exact lt_of_idle (started_le hstart hempty hclock.init hflow)
      (hconsistent.touched_le _ flow hflow) hidle
  · exact UInt64.lt_of_lt_of_le hlt (hclock.le_last x (List.mem_append_right _ hx))

/-- A block starts without a fresh try exactly when an old record outlives its block. -/
theorem startsBlock_stale_iff (hstart : ∀ now, start.Consistent now) (hempty : start.flows = ∅)
    (hclock : Clocked (history ++ [e])) :
    (StartsBlock (final observe start history) e server localPort ∧
        ¬ FreshTry start history e server localPort) ↔
      ∃ flow, Outlives start history e server localPort flow := by
  have hconsistent := final_consistent hstart hclock.init hclock.le_last
  obtain ⟨htimeout, -⟩ := final_settings start history
  constructor
  · rintro ⟨hstarts, hstale⟩
    obtain ⟨hop, hunblocked, flow, hflow, hkeeps, hanswered, hdue⟩ := startsBlock_iff.1 hstarts
    rw [htimeout] at hdue
    refine ⟨flow, hop, hunblocked, hflow, hkeeps, hanswered, hdue, ?_⟩
    obtain ⟨before, prime, later, heq, hprimes, hnow, hsince⟩ := record_primed hempty hflow
    -- The call that primed the flow is a fresh try, unless a block began after it.
    by_contra hyoung
    refine hstale ⟨before, prime, later, heq, hprimes, ?_, (primes_iff.1 hprimes).2.1, ?_⟩
    · have hle := UInt64.le_trans (started_le hstart hempty hclock.init hflow)
        (hconsistent.touched_le _ flow hflow)
      have hsub := UInt64.toNat_sub_of_le _ _ hle
      rw [UInt64.le_iff_toNat_le] at hle hdue
      rw [hnow]
      omega
    · intro between x rest port hlater hblock
      obtain ⟨flow₀, hflow₀, hstarted⟩ := hsince between x rest hlater
      exact hyoung ⟨before ++ prime :: between, x, rest, port, flow₀, by rw [heq, hlater]; simp,
        hblock, hflow₀, hstarted⟩
  · rintro ⟨flow, h⟩
    refine ⟨startsBlock_iff.2 ⟨h.initial, h.unblocked, flow, h.record, h.kept, h.unanswered,
      htimeout ▸ h.overdue⟩, ?_⟩
    rintro ⟨before, prime, later, heq, hprimes, -, -, hnone⟩
    obtain ⟨before', block, later', port, flow₀, heq', hblock, hflow₀, hstarted⟩ := h.older
    rw [heq] at heq'
    rcases append_cons_eq_cases heq' with ⟨between, hlater, hbefore⟩ | ⟨rfl, rfl⟩ |
      ⟨between, hbefore, -⟩
    · rw [hbefore] at hblock
      exact hnone between block later' port hlater hblock
    · have hdrops := hblock.2.1
      rw [hprimes.2] at hdrops
      cases hdrops
    · -- The record before the block is older than the try behind it.
      have hclock' : Clocked (before ++ prime :: later) := heq ▸ hclock.init
      rw [heq] at h
      have hge := started_ge hprimes hclock' h.record
      rw [hbefore] at hprimes hclock'
      rw [List.append_cons] at hclock'
      have hlt : flow₀.startedMs < prime.now :=
        started_lt_of_primes hstart hempty hclock'.init hflow₀ hprimes
      rw [hstarted] at hlt
      exact absurd hlt (UInt64.not_lt.2 hge)

/-- Every block of a run is started on the strength of a fresh try exactly if no record
outlives a block of its server until the next Initial of its flow. -/
theorem blocks_follow_fresh_tries_iff (responseTimeoutMs fallbackMs : UInt64)
    (events : List (Timed Datagram)) (hclock : Clocked events) :
    let start := create responseTimeoutMs fallbackMs
    (∀ history e later, events = history ++ e :: later → ∀ server localPort,
        StartsBlock (final observe start history) e server localPort →
          FreshTry start history e server localPort) ↔
      ∀ history e later, events = history ++ e :: later → ∀ server localPort flow,
        ¬ Outlives start history e server localPort flow := by
  intro start
  have hstale : ∀ history e later, events = history ++ e :: later → ∀ server localPort,
      (StartsBlock (final observe start history) e server localPort ∧
          ¬ FreshTry start history e server localPort) ↔
        ∃ flow, Outlives start history e server localPort flow := by
    intro history e later heq server localPort
    rw [heq, List.append_cons] at hclock
    exact startsBlock_stale_iff (create_consistent responseTimeoutMs fallbackMs) rfl hclock.init
  constructor
  · intro hfresh history e later heq server localPort flow houtlives
    obtain ⟨hstarts, hnot⟩ := (hstale history e later heq server localPort).2 ⟨flow, houtlives⟩
    exact hnot (hfresh history e later heq server localPort hstarts)
  · intro hnone history e later heq server localPort hstarts
    by_contra hnot
    obtain ⟨flow, houtlives⟩ := (hstale history e later heq server localPort).1 ⟨hstarts, hnot⟩
    exact hnone history e later heq server localPort flow houtlives

end

/-- A server that does not answer for 900 ms, and another Initial at the end of its block. -/
def sampleRetries : List (Timed Datagram) :=
  [⟨.outbound sampleServer 50000 true, 1000⟩, ⟨.outbound sampleServer 50000 true, 1900⟩,
    ⟨.outbound sampleServer 50000 true, 6900⟩]

/-- The Initial is dropped once more, for the try before the block. -/
theorem blocked_again_without_try :
    let start := create 900 5000
    let history := sampleRetries.take 2
    let e : Timed Datagram := ⟨.outbound sampleServer 50000 true, 6900⟩
    sampleRetries = history ++ [e] ∧ Clocked sampleRetries ∧
      StartsBlock (final observe start history) e sampleServer 50000 ∧
        ¬ FreshTry start history e sampleServer 50000 := by
  intro start history e
  have hclock : Clocked sampleRetries := by decide
  have hclock' : Clocked (history ++ [e]) := hclock
  refine ⟨rfl, hclock, (startsBlock_stale_iff (create_consistent 900 5000) rfl hclock').2
    ⟨⟨1000, 1900, false⟩, rfl, ?_, by decide +kernel, Or.inr (by decide +kernel), rfl,
      by decide +kernel, ?_⟩⟩
  · rintro ⟨limit, hlimit, hlt⟩
    have hend : (final observe start history).blockedUntil.lookup sampleServer = some 6900 := by
      decide +kernel
    rw [hend] at hlimit
    cases hlimit
    exact absurd hlt (by decide)
  · refine ⟨sampleRetries.take 1, ⟨.outbound sampleServer 50000 true, 1900⟩, [], 50000,
      ⟨1000, 1000, false⟩, rfl, ⟨⟨true, rfl⟩, by decide +kernel, ?_⟩, by decide +kernel, rfl⟩
    rintro ⟨limit, hlimit, -⟩
    have hnone : (final observe start (sampleRetries.take 1)).blockedUntil.lookup sampleServer =
        none := by
      decide +kernel
    rw [hnone] at hlimit
    cases hlimit

theorem blocks_follow_fresh_tries_sample :
    let start := create 900 5000
    StartsBlock (final observe start (sampleRetries.take 1))
        ⟨.outbound sampleServer 50000 true, 1900⟩ sampleServer 50000 →
      FreshTry start (sampleRetries.take 1) ⟨.outbound sampleServer 50000 true, 1900⟩
        sampleServer 50000 := by
  intro start
  refine (blocks_follow_fresh_tries_iff 900 5000 (sampleRetries.take 2) (by decide)).2 ?_ _ _ []
    rfl _ _
  -- The first call of the run drops nothing.
  rintro history e later heq server localPort flow houtlives
  obtain ⟨before, block, later', port, flow₀, rfl, hblock, -⟩ := houtlives.older
  have hlength := congrArg List.length heq
  rw [List.length_append, List.length_append, List.length_cons, List.length_cons] at hlength
  change 2 = _ at hlength
  obtain rfl : before = [] := List.length_eq_zero_iff.1 (by omega)
  obtain rfl : later' = [] := List.length_eq_zero_iff.1 (by omega)
  cases heq
  have hdrops := hblock.2.1
  exact absurd hdrops (by decide +kernel)

end AdaptiveRegistry

end Quic

end SplitHello
