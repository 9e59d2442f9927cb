import SplitHello.Transparent.Registry

/-!
# QUIC with a way back to TCP

`AdaptiveRegistry` primes the first Initial of a flow, keeps QUIC for a flow that is
answered, and drops everything to a server whose flow stays unanswered, so that the client
falls back to TCP. Two counters stand beside its tables for the packet loop, which looks at
them without a lock. They are the sizes they stand for at all times, and whoever is blocked
still has an unanswered flow in the table, whose answer lifts the block.
-/

namespace SplitHello

namespace Quic

open ByteString KeyedTable History

inductive Decision
  | pass
  | primeAndPass
  | drop
  deriving DecidableEq, Repr

structure Flow where
  startedMs : UInt64 := 0
  touchedMs : UInt64 := 0
  answered : Bool := false
  deriving DecidableEq, Repr

/-- A flow that has been left alone for too long. -/
def Flow.idle (fallbackMs now : UInt64) (flow : Flow) : Bool := now - flow.touchedMs > fallbackMs

/-- The counter of unanswered flows is an integer here, so that one subtraction too many
shows. -/
structure AdaptiveRegistry where
  responseTimeoutMs : UInt64
  fallbackMs : UInt64
  nextPurgeAtMs : UInt64 := 0
  unansweredFlows : ℤ := 0
  blockedServers : ℕ := 0
  flows : Table Bytes Flow := ∅
  blockedUntil : Table Bytes UInt64 := ∅

def flowKey (server : Bytes) (localPort : UInt16) : Bytes :=
  server ++ ofString "|" ++ Json.decimal localPort.toNat

theorem flowKey_inj {server server' : Bytes} {localPort localPort' : UInt16} :
    flowKey server localPort = flowKey server' localPort' ↔
      server = server' ∧ localPort = localPort' := by
  have hkeys := @Transparent.flowKey_inj server server' localPort.toNat localPort'.toNat
  rw [UInt16.toNat_inj] at hkeys
  exact hkeys

namespace AdaptiveRegistry

/-- The constructor. -/
def create (responseTimeoutMs fallbackMs : UInt64) : AdaptiveRegistry :=
  { responseTimeoutMs := max responseTimeoutMs 1
    fallbackMs := max fallbackMs (max responseTimeoutMs 1) }

def needsOutbound (r : AdaptiveRegistry) (initial : Bool) : Bool :=
  initial || r.blockedServers ≠ 0

def needsInbound (r : AdaptiveRegistry) : Bool := r.unansweredFlows ≠ 0

def publishBlockedLocked (r : AdaptiveRegistry) : AdaptiveRegistry :=
  { r with blockedServers := size r.blockedUntil }

def purgeIfDue (r : AdaptiveRegistry) (now : UInt64) : AdaptiveRegistry :=
  if now < r.nextPurgeAtMs then r
  else
    let idle := Flow.idle r.fallbackMs now
    publishBlockedLocked { r with
      nextPurgeAtMs := now + min r.responseTimeoutMs 1000
      unansweredFlows := r.unansweredFlows - count (fun flow => idle flow && !flow.answered) r.flows
      flows := eraseIf (fun _ flow => idle flow) r.flows
      blockedUntil := eraseIf (fun _ limit => limit ≤ now) r.blockedUntil }

/-- What becomes of an Initial that no block stops. -/
def outboundInitial (r : AdaptiveRegistry) (server : Bytes) (localPort : UInt16) (now : UInt64) :
    AdaptiveRegistry × Decision :=
  let key := flowKey server localPort
  match r.flows.lookup key with
  | none =>
      ({ r with
          flows := r.flows.insert key ⟨now, now, false⟩
          unansweredFlows := r.unansweredFlows + 1 }, .primeAndPass)
  | some flow =>
      let r := { r with flows := r.flows.insert key { flow with touchedMs := now } }
      if flow.answered then (r, .pass)
      else if now - flow.startedMs ≥ r.responseTimeoutMs then
        (publishBlockedLocked
          { r with blockedUntil := r.blockedUntil.insert server (now + r.fallbackMs) }, .drop)
      else (r, .pass)

def outbound (r : AdaptiveRegistry) (server : Bytes) (localPort : UInt16) (initial : Bool)
    (now : UInt64) : AdaptiveRegistry × Decision :=
  let r := r.purgeIfDue now
  match r.blockedUntil.lookup server with
  | some limit =>
      if limit > now then (r, .drop)
      else
        let r := publishBlockedLocked { r with blockedUntil := r.blockedUntil.erase server }
        if initial then r.outboundInitial server localPort now else (r, .pass)
  | none => if initial then r.outboundInitial server localPort now else (r, .pass)

def inbound (r : AdaptiveRegistry) (server : Bytes) (localPort : UInt16) (now : UInt64) :
    AdaptiveRegistry :=
  let r := r.purgeIfDue now
  let key := flowKey server localPort
  match r.flows.lookup key with
  | none => r
  | some flow =>
      publishBlockedLocked { r with
        unansweredFlows := if flow.answered then r.unansweredFlows else r.unansweredFlows - 1
        flows := r.flows.insert key { flow with answered := true, touchedMs := now }
        blockedUntil := r.blockedUntil.erase server }

def clear (r : AdaptiveRegistry) : AdaptiveRegistry :=
  publishBlockedLocked { r with
    flows := ∅
    blockedUntil := ∅
    unansweredFlows := 0
    nextPurgeAtMs := 0 }

end AdaptiveRegistry

/-- A UDP datagram to or from port 443 of a server. -/
inductive Datagram
  | outbound (server : Bytes) (localPort : UInt16) (initial : Bool)
  | inbound (server : Bytes) (localPort : UInt16)
  deriving DecidableEq, Repr

inductive Op
  | datagram (d : Datagram)
  | clear
  deriving DecidableEq, Repr

/-- Something at a time. -/
structure Timed (O : Type) where
  op : O
  now : UInt64
  deriving DecidableEq, Repr

/-- The clock never goes back. -/
def Clocked {O : Type} (events : List (Timed O)) : Prop :=
  (events.map Timed.now).Pairwise (· ≤ ·)

instance {O : Type} (events : List (Timed O)) : Decidable (Clocked events) :=
  inferInstanceAs (Decidable ((events.map Timed.now).Pairwise (· ≤ ·)))

namespace AdaptiveRegistry

/-- The call for a datagram, with its decision if it was outbound. -/
def observe (r : AdaptiveRegistry) (e : Timed Datagram) : AdaptiveRegistry × Option Decision :=
  match e.op with
  | .outbound server localPort initial =>
      ((r.outbound server localPort initial e.now).1,
        some (r.outbound server localPort initial e.now).2)
  | .inbound server localPort => (r.inbound server localPort e.now, none)

def step (r : AdaptiveRegistry) (e : Timed Op) : AdaptiveRegistry :=
  match e.op with
  | .datagram d => (r.observe ⟨d, e.now⟩).1
  | .clear => r.clear

/-! ## The counters -/

/-- The counters are right, no flow is from the future, and whoever is blocked has an
unanswered flow that stays in the table for as long as the block lasts. -/
structure Consistent (r : AdaptiveRegistry) (now : UInt64) : Prop where
  counted : r.unansweredFlows = count (fun flow => !flow.answered) r.flows
  published : r.blockedServers = size r.blockedUntil
  touched_le : ∀ k flow, r.flows.lookup k = some flow → flow.touchedMs ≤ now
  answerable : ∀ server limit, r.blockedUntil.lookup server = some limit →
    ∃ localPort flow, r.flows.lookup (flowKey server localPort) = some flow ∧
      flow.answered = false ∧ limit.toNat ≤ flow.touchedMs.toNat + r.fallbackMs.toNat

theorem create_consistent (responseTimeoutMs fallbackMs now : UInt64) :
    (create responseTimeoutMs fallbackMs).Consistent now where
  counted := rfl
  published := rfl
  touched_le k flow h := by cases h
  answerable server limit h := by cases h

theorem idle_eq_false {fallbackMs now : UInt64} {flow : Flow} (hle : flow.touchedMs ≤ now)
    (h : now.toNat ≤ flow.touchedMs.toNat + fallbackMs.toNat) :
    flow.idle fallbackMs now = false := by
  rw [Flow.idle, decide_eq_false_iff_not, UInt64.not_lt, UInt64.le_iff_toNat_le,
    UInt64.toNat_sub_of_le _ _ hle]
  omega

namespace Consistent

variable {r : AdaptiveRegistry} {now later : UInt64}

theorem mono (h : r.Consistent now) (hle : now ≤ later) : r.Consistent later where
  counted := h.counted
  published := h.published
  touched_le k flow hk := UInt64.le_trans (h.touched_le k flow hk) hle
  answerable := h.answerable

theorem purge (h : r.Consistent now) : (r.purgeIfDue now).Consistent now := by
  rw [purgeIfDue]
  split
  · exact h
  · refine ⟨?_, rfl, ?_, ?_⟩
    · have hcount := count_eraseIf (fun flow : Flow => !flow.answered)
        (Flow.idle r.fallbackMs now) r.flows
      have hcounted := h.counted
      simp only [publishBlockedLocked]
      omega
    · intro k flow hk
      exact h.touched_le k flow (eraseIf_shrinks _ _ _ _ hk)
    · intro server limit hlimit
      simp only [publishBlockedLocked, lookup_eraseIf, Option.filter_eq_some_iff] at hlimit ⊢
      obtain ⟨hlookup, hlive⟩ := hlimit
      obtain ⟨localPort, flow, hflow, hanswered, hlong⟩ := h.answerable server limit hlookup
      refine ⟨localPort, flow, ⟨hflow, ?_⟩, hanswered, hlong⟩
      have hlive : now < limit := by simpa using hlive
      rw [UInt64.lt_iff_toNat_lt] at hlive
      rw [idle_eq_false (h.touched_le _ _ hflow) (by omega)]
      rfl

theorem unblock (h : r.Consistent now) (server : Bytes) :
    (publishBlockedLocked { r with blockedUntil := r.blockedUntil.erase server }).Consistent
      now where
  counted := h.counted
  published := rfl
  touched_le := h.touched_le
  answerable other limit hlimit := h.answerable other limit (erase_shrinks _ _ _ _ hlimit)

/-- Touching a flow keeps it where the blocks need it. -/
theorem touch (h : r.Consistent now) {k : Bytes} {flow : Flow}
    (hflow : r.flows.lookup k = some flow) :
    Consistent { r with flows := r.flows.insert k { flow with touchedMs := now } } now where
  counted := by
    have hcount := count_insert_of_lookup (fun flow : Flow => !flow.answered)
      { flow with touchedMs := now } hflow
    have hcounted := h.counted
    dsimp only at hcount ⊢
    omega
  published := h.published
  touched_le k' flow' hk' := by
    rcases lookup_insert_cases hk' with ⟨-, rfl⟩ | ⟨-, hk'⟩
    · exact UInt64.le_refl _
    · exact h.touched_le k' flow' hk'
  answerable server limit hlimit := by
    obtain ⟨localPort, flow', hflow', hanswered, hlong⟩ := h.answerable server limit hlimit
    by_cases hkey : flowKey server localPort = k
    · rw [hkey, hflow, Option.some.injEq] at hflow'
      subst hflow'
      refine ⟨localPort, { flow with touchedMs := now }, ?_, hanswered, ?_⟩
      · rw [hkey]
        exact AList.lookup_insert _
      · have hle := h.touched_le k flow hflow
        rw [UInt64.le_iff_toNat_le] at hle
        dsimp only
        omega
    · refine ⟨localPort, flow', ?_, hanswered, hlong⟩
      rw [← hflow']
      exact AList.lookup_insert_ne hkey

theorem outboundInitial (h : r.Consistent now) (server : Bytes) (localPort : UInt16) :
    (r.outboundInitial server localPort now).1.Consistent now := by
  rw [AdaptiveRegistry.outboundInitial]
  dsimp only
  split
  · rename_i hnone
    refine ⟨?_, h.published, ?_, ?_⟩
    · have hcount := count_insert_of_lookup_eq_none (fun flow : Flow => !flow.answered)
        ⟨now, now, false⟩ hnone
      have hcounted := h.counted
      simp only [Bool.not_false, if_true] at hcount
      dsimp only
      omega
    · intro k flow hk
      rcases lookup_insert_cases hk with ⟨-, rfl⟩ | ⟨-, hk⟩
      · exact UInt64.le_refl _
      · exact h.touched_le k flow hk
    · intro other limit hlimit
      obtain ⟨port, flow, hflow, hrest⟩ := h.answerable other limit hlimit
      refine ⟨port, flow, ?_, hrest⟩
      rw [← hflow]
      refine AList.lookup_insert_ne ?_
      intro hkey
      rw [hkey, hnone] at hflow
      cases hflow
  · rename_i flow hflow
    have htouch := h.touch hflow
    split
    · exact htouch
    · rename_i hanswered
      split
      · refine ⟨htouch.counted, rfl, htouch.touched_le, ?_⟩
        intro other limit hlimit
        rcases lookup_insert_cases hlimit with ⟨rfl, rfl⟩ | ⟨-, hlimit⟩
        · refine ⟨localPort, { flow with touchedMs := now }, AList.lookup_insert _,
            Bool.eq_false_iff.2 hanswered, ?_⟩
          rw [UInt64.toNat_add]
          exact Nat.mod_le _ _
        · exact htouch.answerable other limit hlimit
      · exact htouch

theorem outbound (h : r.Consistent now) (server : Bytes) (localPort : UInt16) (initial : Bool) :
    (r.outbound server localPort initial now).1.Consistent now := by
  have hpurge := h.purge
  rw [AdaptiveRegistry.outbound]
  dsimp only
  split
  · split
    · exact hpurge
    · split
      · exact (hpurge.unblock server).outboundInitial server localPort
      · exact hpurge.unblock server
  · split
    · exact hpurge.outboundInitial server localPort
    · exact hpurge

theorem inbound (h : r.Consistent now) (server : Bytes) (localPort : UInt16) :
    (r.inbound server localPort now).Consistent now := by
  have hpurge := h.purge
  rw [AdaptiveRegistry.inbound]
  generalize r.purgeIfDue now = r at hpurge ⊢
  split
  · exact hpurge
  · rename_i flow hflow
    refine ⟨?_, rfl, ?_, ?_⟩
    · have hcount := count_insert_of_lookup (fun flow : Flow => !flow.answered)
        { flow with answered := true, touchedMs := now } hflow
      have hcounted := hpurge.counted
      cases hanswered : flow.answered <;>
        simp [hanswered, publishBlockedLocked] at hcount ⊢ <;> omega
    · intro k flow' hk
      rcases lookup_insert_cases hk with ⟨-, rfl⟩ | ⟨-, hk⟩
      · exact UInt64.le_refl _
      · exact hpurge.touched_le k flow' hk
    · intro other limit hlimit
      obtain ⟨hne, hlimit⟩ := lookup_erase_cases hlimit
      obtain ⟨port, flow', hflow', hrest⟩ := hpurge.answerable other limit hlimit
      refine ⟨port, flow', ?_, hrest⟩
      rw [← hflow']
      refine AList.lookup_insert_ne ?_
      intro hkey
      exact hne (flowKey_inj.1 hkey).1

theorem clear (r : AdaptiveRegistry) (now : UInt64) : r.clear.Consistent now where
  counted := rfl
  published := rfl
  touched_le k flow h := by cases h
  answerable server limit h := by cases h

theorem observe {e : Timed Datagram} (h : r.Consistent e.now) :
    (r.observe e).1.Consistent e.now := by
  rw [AdaptiveRegistry.observe]
  split
  · exact h.outbound _ _ _
  · exact h.inbound _ _

theorem step {e : Timed Op} (h : r.Consistent e.now) : (r.step e).Consistent e.now := by
  rw [AdaptiveRegistry.step]
  split
  · exact observe (e := ⟨_, e.now⟩) h
  · exact clear r e.now

end Consistent

end AdaptiveRegistry

/-! ## Runs -/

theorem Clocked.le_last {O : Type} {events : List (Timed O)} {e : Timed O}
    (h : Clocked (events ++ [e])) : ∀ e' ∈ events, e'.now ≤ e.now := by
  intro e' he'
  rw [Clocked, List.map_append, List.pairwise_append] at h
  exact h.2.2 _ (List.mem_map_of_mem he') _ List.mem_cons_self

theorem Clocked.init {O : Type} {events later : List (Timed O)} (h : Clocked (events ++ later)) :
    Clocked events := by
  rw [Clocked, List.map_append, List.pairwise_append] at h
  exact h.1

theorem Clocked.concat {O : Type} {events : List (Timed O)} {e : Timed O} (h : Clocked events)
    (he : ∀ e' ∈ events, e'.now ≤ e.now) : Clocked (events ++ [e]) := by
  rw [Clocked, List.map_append, List.pairwise_append]
  refine ⟨h, List.pairwise_singleton _ _, ?_⟩
  intro now hnow now' hnow'
  obtain ⟨e', he', rfl⟩ := List.mem_map.1 hnow
  rw [List.mem_singleton.1 hnow']
  exact he e' he'

namespace AdaptiveRegistry

theorem run_consistent (responseTimeoutMs fallbackMs : UInt64) (events : List (Timed Op))
    (hclock : Clocked events) (now : UInt64) (hnow : ∀ e ∈ events, e.now ≤ now) :
    (run step (create responseTimeoutMs fallbackMs) events).Consistent now := by
  revert hclock now hnow
  refine run_invariant step _ (fun events r => Clocked events → ∀ now,
    (∀ e ∈ events, e.now ≤ now) → r.Consistent now) ?_ ?_ events
  · intro _ now _
    exact create_consistent responseTimeoutMs fallbackMs now
  · intro events r e ih hclock now hnow
    have hlast := ih hclock.init e.now hclock.le_last
    exact hlast.step.mono (hnow e (List.mem_append_right _ List.mem_cons_self))

/-- While somebody is blocked, answers are asked for. -/
theorem needsInbound_of_lookup {r : AdaptiveRegistry} {now : UInt64} (h : r.Consistent now)
    {server : Bytes} {limit : UInt64} (hlimit : r.blockedUntil.lookup server = some limit) :
    r.needsInbound = true := by
  obtain ⟨localPort, flow, hflow, hanswered, -⟩ := h.answerable server limit hlimit
  have hpos := count_pos_of_lookup (p := fun flow : Flow => !flow.answered) hflow
    (by rw [hanswered]; rfl)
  rw [needsInbound, h.counted, decide_eq_true_eq]
  omega

/-- An answer on the flow that stands for a block lifts it, unless time has done so. -/
theorem notMem_inbound {r : AdaptiveRegistry} {now : UInt64} (h : r.Consistent now)
    {server : Bytes} {localPort : UInt16} {limit : UInt64} {flow : Flow}
    (hlimit : r.blockedUntil.lookup server = some limit)
    (hflow : r.flows.lookup (flowKey server localPort) = some flow)
    (hlong : limit.toNat ≤ flow.touchedMs.toNat + r.fallbackMs.toNat) :
    server ∉ (r.inbound server localPort now).blockedUntil := by
  rw [inbound]
  cases hfound : (r.purgeIfDue now).flows.lookup (flowKey server localPort) with
  | some found =>
      simp only [publishBlockedLocked]
      rw [AList.mem_erase]
      exact fun hmem => hmem.1 rfl
  | none =>
      dsimp only
      rw [purgeIfDue] at hfound ⊢
      split at hfound
      · rw [hflow] at hfound
        cases hfound
      · rename_i hdue
        rw [if_neg hdue, ← AList.lookup_eq_none]
        simp only [publishBlockedLocked, lookup_eraseIf, hflow, hlimit, Option.filter_some]
          at hfound ⊢
        have hidle : flow.idle r.fallbackMs now = true := by
          cases hcase : flow.idle r.fallbackMs now <;> simp [hcase] at hfound ⊢
        have hover : limit ≤ now := by
          by_contra hlive
          rw [UInt64.le_iff_toNat_le, Nat.not_le] at hlive
          rw [idle_eq_false (h.touched_le _ _ hflow) (by omega)] at hidle
          cases hidle
        simp [hover]

/-- The counters of the registry are what they stand for at all times, and while a server
is blocked the packet loop asks for answers, one of which lifts the block. -/
theorem counters_match (responseTimeoutMs fallbackMs : UInt64) (events : List (Timed Op))
    (hclock : Clocked events) :
    let r := run step (create responseTimeoutMs fallbackMs) events
    r.unansweredFlows = count (fun flow => !flow.answered) r.flows ∧
      r.blockedServers = size r.blockedUntil ∧
      ∀ server ∈ r.blockedUntil, r.needsInbound = true ∧
        ∃ localPort flow, r.flows.lookup (flowKey server localPort) = some flow ∧
          flow.answered = false ∧
          ∀ now, (∀ e ∈ events, e.now ≤ now) →
            server ∉ (r.inbound server localPort now).blockedUntil := by
  intro r
  obtain ⟨last, hlast⟩ : ∃ last : UInt64, ∀ e ∈ events, e.now ≤ last := by
    refine ⟨UInt64.ofNat (2 ^ 64 - 1), fun e _ => ?_⟩
    have hlt := e.now.toNat_lt
    rw [UInt64.le_iff_toNat_le, UInt64.toNat_ofNat']
    omega
  have hrun (now : UInt64) (hnow : ∀ e ∈ events, e.now ≤ now) : r.Consistent now :=
    run_consistent responseTimeoutMs fallbackMs events hclock now hnow
  have hconsistent := hrun last hlast
  refine ⟨hconsistent.counted, hconsistent.published, fun server hserver => ?_⟩
  obtain ⟨limit, hlimit⟩ := exists_lookup_of_mem hserver
  obtain ⟨localPort, flow, hflow, hanswered, hlong⟩ := hconsistent.answerable server limit hlimit
  exact ⟨needsInbound_of_lookup hconsistent hlimit, localPort, flow, hflow, hanswered,
    fun now hnow => notMem_inbound (hrun now hnow) hlimit hflow hlong⟩

def sampleServer : Bytes := ofString "203.0.113.2"

/-- A server that does not answer for 900 ms. -/
def sampleEvents : List (Timed Op) :=
  [⟨.datagram (.outbound sampleServer 50000 true), 1000⟩,
    ⟨.datagram (.outbound sampleServer 50000 true), 1900⟩]

theorem counters_match_sample :
    let r := run step (create 900 5000) sampleEvents
    sampleServer ∈ r.blockedUntil ∧ r.needsInbound = true ∧
      ∃ localPort flow, r.flows.lookup (flowKey sampleServer localPort) = some flow ∧
        flow.answered = false ∧
        ∀ now, (∀ e ∈ sampleEvents, e.now ≤ now) →
          sampleServer ∉ (r.inbound sampleServer localPort now).blockedUntil := by
  intro r
  obtain ⟨-, -, hblocked⟩ := counters_match 900 5000 sampleEvents (by decide)
  have hmem : sampleServer ∈ r.blockedUntil := by decide +kernel
  exact ⟨hmem, hblocked sampleServer hmem⟩

end AdaptiveRegistry

end Quic

end SplitHello
