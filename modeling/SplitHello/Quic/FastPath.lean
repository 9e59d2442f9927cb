import SplitHello.Library.Machine
import SplitHello.Quic.Registry

/-!
# The fast path of the packet loop

The packet loop leaves out a call of the registry when the counters say that it would do
nothing. Such a call would still keep an answered flow from growing old, and would still
purge the tables if that is due. So the tables of a loop that leaves calls out drift away
from those of one that makes them all, and a flow can be gone from one while it is still in
the other. What is decided differs once such a flow is looked up.
-/

namespace SplitHello

namespace Quic

open ByteString KeyedTable History Machine

namespace AdaptiveRegistry

/-- What the packet loop does for a datagram. -/
def observeIfNeeded (r : AdaptiveRegistry) (e : Timed Datagram) :
    AdaptiveRegistry × Option Decision :=
  match e.op with
  | .outbound _ _ initial => if r.needsOutbound initial then r.observe e else (r, some .pass)
  | .inbound _ _ => if r.needsInbound then r.observe e else (r, none)

/-- The server is blocked at this time. -/
def Blocked (r : AdaptiveRegistry) (server : Bytes) (now : UInt64) : Prop :=
  ∃ limit, r.blockedUntil.lookup server = some limit ∧ now < limit

/-- The flow is in the table, after a purge if one is due. -/
def Knows (r : AdaptiveRegistry) (server : Bytes) (localPort : UInt16) (now : UInt64) : Prop :=
  flowKey server localPort ∈ (r.purgeIfDue now).flows

/-- One registry knows the flow and the other does not, and it matters: an Initial that is
not blocked arrives, or an answer that could lift a block. -/
def Parted (full fast : AdaptiveRegistry) (e : Timed Datagram) : Prop :=
  match e.op with
  | .outbound server localPort initial =>
      initial = true ∧ ¬ full.Blocked server e.now ∧
        ¬ (full.Knows server localPort e.now ↔ fast.Knows server localPort e.now)
  | .inbound server localPort =>
      full.Blocked server e.now ∧
        ¬ (full.Knows server localPort e.now ↔ fast.Knows server localPort e.now)

/-! ## Registries that age -/

/-- Nothing but flows and blocks that are over may be missing. -/
structure Ages (now : UInt64) (r' r : AdaptiveRegistry) : Prop where
  responseTimeoutMs_eq : r'.responseTimeoutMs = r.responseTimeoutMs
  fallbackMs_eq : r'.fallbackMs = r.fallbackMs
  flows : Shrinks r'.flows r.flows
  blocks : ∀ server limit, now < limit →
    (r'.blockedUntil.lookup server = some limit ↔ r.blockedUntil.lookup server = some limit)

theorem Ages.blocked_iff {now : UInt64} {r' r : AdaptiveRegistry} (h : Ages now r' r)
    (server : Bytes) : r'.Blocked server now ↔ r.Blocked server now := by
  constructor
  · rintro ⟨limit, hlimit, hlive⟩
    exact ⟨limit, (h.blocks server limit hlive).1 hlimit, hlive⟩
  · rintro ⟨limit, hlimit, hlive⟩
    exact ⟨limit, (h.blocks server limit hlive).2 hlimit, hlive⟩

theorem Ages.trans {now : UInt64} {r₁ r₂ r₃ : AdaptiveRegistry} (h₁ : Ages now r₁ r₂)
    (h₂ : Ages now r₂ r₃) : Ages now r₁ r₃ where
  responseTimeoutMs_eq := h₁.responseTimeoutMs_eq.trans h₂.responseTimeoutMs_eq
  fallbackMs_eq := h₁.fallbackMs_eq.trans h₂.fallbackMs_eq
  flows := h₁.flows.trans h₂.flows
  blocks server limit hlive := (h₁.blocks server limit hlive).trans (h₂.blocks server limit hlive)

theorem purge_ages (r : AdaptiveRegistry) (now : UInt64) : Ages now (r.purgeIfDue now) r := by
  rw [purgeIfDue]
  split
  · exact ⟨rfl, rfl, Shrinks.refl _, fun _ _ _ => Iff.rfl⟩
  · refine ⟨rfl, rfl, eraseIf_shrinks _ _, fun server limit hlive => ?_⟩
    have hlimit : ¬ limit ≤ now := UInt64.not_le.2 hlive
    simp only [publishBlockedLocked, lookup_eraseIf, Option.filter_eq_some_iff]
    simp [hlimit]

theorem unblock_ages {r : AdaptiveRegistry} {now limit : UInt64} {server : Bytes}
    (hlimit : r.blockedUntil.lookup server = some limit) (hover : ¬ now < limit) :
    Ages now (publishBlockedLocked { r with blockedUntil := r.blockedUntil.erase server }) r where
  responseTimeoutMs_eq := rfl
  fallbackMs_eq := rfl
  flows := Shrinks.refl _
  blocks other limit' hlive := by
    simp only [publishBlockedLocked, lookup_erase_eq]
    split
    · rename_i heq
      subst heq
      rw [hlimit]
      refine iff_of_false (by simp) ?_
      rintro ⟨⟩
      exact hover hlive
    · exact Iff.rfl

theorem outbound_of_blocked {r : AdaptiveRegistry} {server : Bytes} {now : UInt64}
    (h : r.Blocked server now) (localPort : UInt16) (initial : Bool) :
    r.outbound server localPort initial now = (r.purgeIfDue now, .drop) := by
  obtain ⟨limit, hlimit, hlive⟩ := ((purge_ages r now).blocked_iff server).2 h
  rw [outbound]
  simp [hlimit, hlive]

/-- Without a block only an Initial makes a difference. -/
theorem outbound_of_not_blocked {r : AdaptiveRegistry} {server : Bytes} {now : UInt64}
    (h : ¬ r.Blocked server now) (localPort : UInt16) (initial : Bool) :
    ∃ r', Ages now r' r ∧ r'.flows = (r.purgeIfDue now).flows ∧
      r.outbound server localPort initial now =
        if initial then r'.outboundInitial server localPort now else (r', .pass) := by
  have hages := purge_ages r now
  rw [← hages.blocked_iff] at h
  rw [outbound]
  cases hlimit : (r.purgeIfDue now).blockedUntil.lookup server with
  | none =>
      exact ⟨r.purgeIfDue now, hages, rfl, rfl⟩
  | some limit =>
      have hover : ¬ now < limit := fun hlive => h ⟨limit, hlimit, hlive⟩
      refine ⟨_, (unblock_ages hlimit hover).trans hages, rfl, ?_⟩
      dsimp only
      rw [if_neg hover]

/-! ## Two registries side by side -/

/-- Both block the same servers, and what they know of a flow that both know is the same
but for its age. -/
structure Matches (now : UInt64) (full fast : AdaptiveRegistry) : Prop where
  responseTimeoutMs_eq : full.responseTimeoutMs = fast.responseTimeoutMs
  fallbackMs_eq : full.fallbackMs = fast.fallbackMs
  flows : ∀ k flow flow', full.flows.lookup k = some flow → fast.flows.lookup k = some flow' →
    flow.startedMs = flow'.startedMs ∧ flow.answered = flow'.answered
  blocks : ∀ server limit, now < limit →
    (full.blockedUntil.lookup server = some limit ↔ fast.blockedUntil.lookup server = some limit)

namespace Matches

variable {now later : UInt64} {full fast full' fast' : AdaptiveRegistry}

theorem mono (h : Matches now full fast) (hle : now ≤ later) : Matches later full fast :=
  { h with blocks := fun server limit hlive =>
      h.blocks server limit (UInt64.lt_of_le_of_lt hle hlive) }

theorem blocked_iff (h : Matches now full fast) (server : Bytes) :
    full.Blocked server now ↔ fast.Blocked server now := by
  constructor
  · rintro ⟨limit, hlimit, hlive⟩
    exact ⟨limit, (h.blocks server limit hlive).1 hlimit, hlive⟩
  · rintro ⟨limit, hlimit, hlive⟩
    exact ⟨limit, (h.blocks server limit hlive).2 hlimit, hlive⟩

/-- It does not matter when either of them is purged. -/
theorem ages (h : Matches now full fast) (hfull : Ages now full' full)
    (hfast : Ages now fast' fast) : Matches now full' fast' where
  responseTimeoutMs_eq := by
    rw [hfull.responseTimeoutMs_eq, hfast.responseTimeoutMs_eq, h.responseTimeoutMs_eq]
  fallbackMs_eq := by rw [hfull.fallbackMs_eq, hfast.fallbackMs_eq, h.fallbackMs_eq]
  flows k flow flow' hk hk' :=
    h.flows k flow flow' (hfull.flows k flow hk) (hfast.flows k flow' hk')
  blocks server limit hlive := by
    rw [hfull.blocks server limit hlive, hfast.blocks server limit hlive,
      h.blocks server limit hlive]

/-- What both learn of a flow is the same. -/
theorem flows_insert (h : Matches now full fast) (key : Bytes) (flow flow' : Flow)
    (hstarted : flow.startedMs = flow'.startedMs) (hanswered : flow.answered = flow'.answered) :
    ∀ k g g', (full.flows.insert key flow).lookup k = some g →
      (fast.flows.insert key flow').lookup k = some g' →
      g.startedMs = g'.startedMs ∧ g.answered = g'.answered := by
  intro k g g' hg hg'
  rcases lookup_insert_cases hg with ⟨rfl, rfl⟩ | ⟨hne, hg⟩
  · rcases lookup_insert_cases hg' with ⟨-, rfl⟩ | ⟨hne, -⟩
    · exact ⟨hstarted, hanswered⟩
    · exact absurd rfl hne
  · rcases lookup_insert_cases hg' with ⟨rfl, -⟩ | ⟨-, hg'⟩
    · exact absurd rfl hne
    · exact h.flows k g g' hg hg'

/-- An Initial of a flow that both know, or neither. -/
theorem outboundInitial (h : Matches now full fast) (server : Bytes) (localPort : UInt16)
    (hknown : flowKey server localPort ∈ full.flows ↔ flowKey server localPort ∈ fast.flows) :
    (full.outboundInitial server localPort now).2 = (fast.outboundInitial server localPort now).2 ∧
      Matches now (full.outboundInitial server localPort now).1
        (fast.outboundInitial server localPort now).1 := by
  generalize hkey : flowKey server localPort = key at hknown
  rw [← AList.lookup_isSome, ← AList.lookup_isSome] at hknown
  rw [AdaptiveRegistry.outboundInitial, AdaptiveRegistry.outboundInitial, hkey]
  cases hfull : full.flows.lookup key with
  | none =>
      have hfast : fast.flows.lookup key = none := by
        rw [hfull] at hknown
        simpa using hknown
      simp only [hfast]
      exact ⟨trivial, h.responseTimeoutMs_eq, h.fallbackMs_eq, h.flows_insert key _ _ rfl rfl,
        h.blocks⟩
  | some flow =>
      obtain ⟨flow', hfast⟩ : ∃ flow', fast.flows.lookup key = some flow' := by
        rw [hfull] at hknown
        exact Option.isSome_iff_exists.1 (hknown.1 rfl)
      obtain ⟨hstarted, hanswered⟩ := h.flows key flow flow' hfull hfast
      simp only [hfast, hanswered, hstarted, h.responseTimeoutMs_eq, h.fallbackMs_eq]
      have htouched := h.flows_insert key { flow' with touchedMs := now }
        { flow' with touchedMs := now } rfl rfl
      split
      · exact ⟨rfl, rfl, rfl, htouched, h.blocks⟩
      · split
        · refine ⟨rfl, rfl, rfl, htouched, ?_⟩
          intro other limit hlive
          simp only [publishBlockedLocked, lookup_insert_eq]
          split
          · exact Iff.rfl
          · exact h.blocks other limit hlive
        · exact ⟨rfl, rfl, rfl, htouched, h.blocks⟩

/-- An Initial of a flow that one of them does not know is primed by that one only. -/
theorem outboundInitial_ne (server : Bytes) (localPort : UInt16)
    (hknown : ¬ (flowKey server localPort ∈ full.flows ↔ flowKey server localPort ∈ fast.flows)) :
    (full.outboundInitial server localPort now).2 ≠
      (fast.outboundInitial server localPort now).2 := by
  have hprimed (r : AdaptiveRegistry) :
      (r.outboundInitial server localPort now).2 = .primeAndPass ↔
        flowKey server localPort ∉ r.flows := by
    rw [← AList.lookup_eq_none, AdaptiveRegistry.outboundInitial]
    cases r.flows.lookup (flowKey server localPort) with
    | none => simp
    | some flow =>
        dsimp only
        split
        · simp
        · split <;> simp
  intro heq
  refine hknown (not_iff_not.1 ?_)
  rw [← hprimed full, ← hprimed fast, heq]

theorem outbound (h : Matches now full fast) (server : Bytes) (localPort : UInt16) (initial : Bool)
    (hknown : initial = true → ¬ full.Blocked server now →
      (full.Knows server localPort now ↔ fast.Knows server localPort now)) :
    (full.outbound server localPort initial now).2 =
        (fast.outbound server localPort initial now).2 ∧
      Matches now (full.outbound server localPort initial now).1
        (fast.outbound server localPort initial now).1 := by
  by_cases hblocked : full.Blocked server now
  · rw [outbound_of_blocked hblocked, outbound_of_blocked ((h.blocked_iff server).1 hblocked)]
    exact ⟨rfl, h.ages (purge_ages full now) (purge_ages fast now)⟩
  · have hblocked' : ¬ fast.Blocked server now := fun hb => hblocked ((h.blocked_iff server).2 hb)
    obtain ⟨r, hages, hflows, heq⟩ := outbound_of_not_blocked hblocked localPort initial
    obtain ⟨r', hages', hflows', heq'⟩ := outbound_of_not_blocked hblocked' localPort initial
    have hmatches := h.ages hages hages'
    rw [heq, heq']
    cases initial with
    | false => exact ⟨rfl, hmatches⟩
    | true =>
        refine hmatches.outboundInitial server localPort ?_
        rw [hflows, hflows']
        exact hknown rfl hblocked

theorem symm (h : Matches now full fast) : Matches now fast full where
  responseTimeoutMs_eq := h.responseTimeoutMs_eq.symm
  fallbackMs_eq := h.fallbackMs_eq.symm
  flows k flow flow' hk hk' := (h.flows k flow' flow hk' hk).imp Eq.symm Eq.symm
  blocks server limit hlive := (h.blocks server limit hlive).symm

/-- An answer that only one of them sees, on a flow the other does not wait for. -/
theorem inbound_left (h : Matches now full fast) {server : Bytes} {localPort : UInt16}
    (hanswered : ∀ flow', fast.flows.lookup (flowKey server localPort) = some flow' →
      flow'.answered = true)
    (hblocked : ¬ fast.Blocked server now) :
    Matches now (full.inbound server localPort now) fast := by
  have hpurged := h.ages (purge_ages full now) ⟨rfl, rfl, Shrinks.refl _, fun _ _ _ => Iff.rfl⟩
  rw [AdaptiveRegistry.inbound]
  generalize full.purgeIfDue now = full at hpurged ⊢
  cases hflow : full.flows.lookup (flowKey server localPort) with
  | none => exact hpurged
  | some flow =>
      refine ⟨hpurged.responseTimeoutMs_eq, hpurged.fallbackMs_eq, ?_, ?_⟩
      · intro k g g' hg hg'
        rcases lookup_insert_cases hg with ⟨rfl, rfl⟩ | ⟨-, hg⟩
        · exact ⟨(hpurged.flows _ flow g' hflow hg').1, (hanswered g' hg').symm⟩
        · exact hpurged.flows k g g' hg hg'
      · intro other limit hlive
        rw [← hpurged.blocks other limit hlive]
        simp only [publishBlockedLocked, lookup_erase_eq]
        split
        · rename_i heq
          subst heq
          refine iff_of_false (by simp) fun hlimit => ?_
          exact hblocked ⟨limit, (hpurged.blocks other limit hlive).1 hlimit, hlive⟩
        · exact Iff.rfl

/-- A call for an answer that is left out. -/
theorem inbound_skipped (h : Matches now full fast) (hfast : fast.Consistent now)
    (hneeds : fast.needsInbound = false) (server : Bytes) (localPort : UInt16) :
    Matches now (full.inbound server localPort now) fast := by
  have hcount : count (fun flow : Flow => !flow.answered) fast.flows = 0 := by
    rw [needsInbound, hfast.counted, decide_eq_false_iff_not, not_not] at hneeds
    omega
  have hanswered (k : Bytes) (flow : Flow) (hflow : fast.flows.lookup k = some flow) :
      flow.answered = true := by
    by_contra hwaits
    have hpos := count_pos_of_lookup (p := fun flow : Flow => !flow.answered) hflow
      (by simpa using hwaits)
    omega
  refine h.inbound_left (hanswered _) ?_
  rintro ⟨limit, hlimit, -⟩
  obtain ⟨port, flow, hflow, hwaits, -⟩ := hfast.answerable server limit hlimit
  rw [hanswered _ flow hflow] at hwaits
  cases hwaits

theorem inbound_of_not_knows {r : AdaptiveRegistry} {server : Bytes} {localPort : UInt16}
    (h : ¬ r.Knows server localPort now) : r.inbound server localPort now = r.purgeIfDue now := by
  rw [Knows, ← AList.lookup_eq_none] at h
  rw [AdaptiveRegistry.inbound]
  simp only [h]

/-- An answer on a flow that both know, or neither, or that lifts no block. -/
theorem inbound (h : Matches now full fast) {server : Bytes} {localPort : UInt16}
    (hknown : full.Blocked server now →
      (full.Knows server localPort now ↔ fast.Knows server localPort now)) :
    Matches now (full.inbound server localPort now) (fast.inbound server localPort now) := by
  have hself (r : AdaptiveRegistry) : Ages now r r :=
    ⟨rfl, rfl, Shrinks.refl _, fun _ _ _ => Iff.rfl⟩
  have hright := h.ages (hself full) (purge_ages fast now)
  have hleft := h.ages (purge_ages full now) (hself fast)
  have hunknown (r : AdaptiveRegistry) (hr : ¬ r.Knows server localPort now) (flow' : Flow)
      (hflow' : (r.purgeIfDue now).flows.lookup (flowKey server localPort) = some flow') :
      flow'.answered = true :=
    absurd (mem_of_lookup hflow') hr
  by_cases hfull : full.Knows server localPort now
  · by_cases hfast : fast.Knows server localPort now
    · have hboth := h.ages (purge_ages full now) (purge_ages fast now)
      obtain ⟨flow, hflow⟩ := exists_lookup_of_mem hfull
      obtain ⟨flow', hflow'⟩ := exists_lookup_of_mem hfast
      have hstarted := (hboth.flows _ flow flow' hflow hflow').1
      rw [AdaptiveRegistry.inbound, AdaptiveRegistry.inbound]
      simp only [hflow, hflow']
      refine ⟨hboth.responseTimeoutMs_eq, hboth.fallbackMs_eq,
        hboth.flows_insert _ _ _ hstarted rfl, ?_⟩
      intro other limit hlive
      simp only [publishBlockedLocked, lookup_erase_eq]
      split
      · exact Iff.rfl
      · exact hboth.blocks other limit hlive
    · have hfree : ¬ (fast.purgeIfDue now).Blocked server now := by
        rw [← hright.blocked_iff]
        exact fun hblocked => hfast ((hknown hblocked).1 hfull)
      rw [inbound_of_not_knows hfast]
      exact hright.inbound_left (hunknown fast hfast) hfree
  · rw [inbound_of_not_knows hfull]
    by_cases hfast : fast.Knows server localPort now
    · have hfree : ¬ (full.purgeIfDue now).Blocked server now := by
        rw [(purge_ages full now).blocked_iff]
        exact fun hblocked => hfull ((hknown hblocked).2 hfast)
      exact (hleft.symm.inbound_left (hunknown full hfull) hfree).symm
    · rw [inbound_of_not_knows hfast]
      exact h.ages (purge_ages full now) (purge_ages fast now)

end Matches

/-! ## One datagram -/

section

variable {full fast : AdaptiveRegistry} {e : Timed Datagram}

theorem needsOutbound_of_blocked {r : AdaptiveRegistry} {now : UInt64} (h : r.Consistent now)
    {server : Bytes} (hblocked : r.Blocked server now) : r.blockedServers ≠ 0 := by
  obtain ⟨limit, hlimit, -⟩ := hblocked
  have hpos := count_pos_of_lookup (p := fun _ => true) hlimit rfl
  have hsize : count (fun _ : UInt64 => true) r.blockedUntil = size r.blockedUntil := by
    simp [count, size, AList.keys, List.keys]
  rw [h.published]
  omega

/-- A datagram that is no Initial is dropped if its server is blocked, and passed if not. -/
theorem outbound_not_initial (r : AdaptiveRegistry) (server : Bytes) (localPort : UInt16)
    (now : UInt64) :
    (r.outbound server localPort false now).2 = .drop ↔ r.Blocked server now := by
  by_cases hblocked : r.Blocked server now
  · rw [outbound_of_blocked hblocked]
    exact iff_of_true rfl hblocked
  · obtain ⟨r', -, -, heq⟩ := outbound_of_not_blocked hblocked localPort false
    rw [heq]
    exact iff_of_false (by simp) hblocked

theorem observeIfNeeded_not_initial {r : AdaptiveRegistry} {now : UInt64} (h : r.Consistent now)
    (server : Bytes) (localPort : UInt16) :
    (r.observeIfNeeded ⟨.outbound server localPort false, now⟩).2 = some .drop ↔
      r.Blocked server now := by
  simp only [observeIfNeeded, needsOutbound, Bool.false_or, decide_eq_true_eq]
  split
  · rw [← outbound_not_initial r server localPort now]
    exact Option.some_inj
  · rename_i hnone
    exact iff_of_false (by simp) fun hblocked => hnone (needsOutbound_of_blocked h hblocked)

theorem Consistent.observeIfNeeded (h : fast.Consistent e.now) :
    (fast.observeIfNeeded e).1.Consistent e.now := by
  rw [AdaptiveRegistry.observeIfNeeded]
  split
  · split
    · exact h.observe
    · exact h
  · split
    · exact h.observe
    · exact h

/-- Nothing shows unless the two are parted by the datagram. -/
theorem Matches.observe (h : Matches e.now full fast) (hfast : fast.Consistent e.now)
    (hparted : ¬ Parted full fast e) :
    (full.observe e).2 = (fast.observeIfNeeded e).2 ∧
      Matches e.now (full.observe e).1 (fast.observeIfNeeded e).1 := by
  obtain ⟨op, now⟩ := e
  cases op with
  | outbound server localPort initial =>
      have hknown (hinitial : initial = true) (hfree : ¬ full.Blocked server now) :
          full.Knows server localPort now ↔ fast.Knows server localPort now := by
        by_contra hdiffer
        exact hparted ⟨hinitial, hfree, hdiffer⟩
      have hboth := h.outbound server localPort initial hknown
      simp only [observeIfNeeded, AdaptiveRegistry.observe]
      split
      · exact ⟨congrArg some hboth.1, hboth.2⟩
      · rename_i hneeds
        rw [needsOutbound, Bool.or_eq_true, not_or, decide_eq_true_eq, not_not] at hneeds
        obtain ⟨hinitial, hnone⟩ := hneeds
        have hfree : ¬ full.Blocked server now := by
          rw [h.blocked_iff]
          exact fun hblocked => needsOutbound_of_blocked hfast hblocked hnone
        obtain ⟨r', hages, -, heq⟩ := outbound_of_not_blocked hfree localPort initial
        rw [heq, if_neg hinitial]
        exact ⟨rfl, h.ages hages ⟨rfl, rfl, Shrinks.refl _, fun _ _ _ => Iff.rfl⟩⟩
  | inbound server localPort =>
      simp only [observeIfNeeded, AdaptiveRegistry.observe]
      split
      · refine ⟨rfl, h.inbound fun hblocked => ?_⟩
        by_contra hdiffer
        exact hparted ⟨hblocked, hdiffer⟩
      · rename_i hneeds
        exact ⟨rfl, h.inbound_skipped hfast (Bool.eq_false_iff.2 hneeds) server localPort⟩

/-- An answer on a known flow lifts the block, on an unknown one it does not. -/
theorem blocked_inbound_iff {r : AdaptiveRegistry} {server : Bytes} {now : UInt64}
    (h : r.Blocked server now) (localPort : UInt16) :
    (r.inbound server localPort now).Blocked server now ↔ ¬ r.Knows server localPort now := by
  by_cases hknows : r.Knows server localPort now
  · obtain ⟨flow, hflow⟩ := exists_lookup_of_mem hknows
    refine iff_of_false ?_ (not_not.2 hknows)
    rintro ⟨limit, hlimit, -⟩
    rw [inbound] at hlimit
    simp only [hflow, publishBlockedLocked, AList.lookup_erase] at hlimit
    cases hlimit
  · rw [Matches.inbound_of_not_knows hknows]
    exact iff_of_true (((purge_ages r now).blocked_iff server).2 h) hknows

/-- A datagram that parts them is decided differently, or the next one to the server is. -/
theorem Parted.shows (h : Parted full fast e) (hmatches : Matches e.now full fast)
    (hfast : fast.Consistent e.now) :
    (full.observe e).2 ≠ (fast.observeIfNeeded e).2 ∨
      ∃ next : Datagram, (∃ server localPort, next = .outbound server localPort false) ∧
        ((full.observe e).1.observe ⟨next, e.now⟩).2 ≠
          ((fast.observeIfNeeded e).1.observeIfNeeded ⟨next, e.now⟩).2 := by
  obtain ⟨op, now⟩ := e
  cases op with
  | outbound server localPort initial =>
      obtain ⟨rfl, hfree, hdiffer⟩ := h
      left
      have hfree' : ¬ fast.Blocked server now :=
        fun hb => hfree ((hmatches.blocked_iff server).2 hb)
      obtain ⟨r, -, hflows, heq⟩ := outbound_of_not_blocked hfree localPort true
      obtain ⟨r', -, hflows', heq'⟩ := outbound_of_not_blocked hfree' localPort true
      simp only [observeIfNeeded, AdaptiveRegistry.observe, needsOutbound, Bool.true_or, if_true]
      rw [heq, heq', if_pos rfl, if_pos rfl]
      intro hsame
      refine Matches.outboundInitial_ne server localPort ?_ (Option.some.inj hsame)
      rw [hflows, hflows']
      exact hdiffer
  | inbound server localPort =>
      obtain ⟨hblocked, hdiffer⟩ := h
      have hblocked' := (hmatches.blocked_iff server).1 hblocked
      right
      refine ⟨.outbound server localPort false, ⟨server, localPort, rfl⟩, fun hsame => hdiffer ?_⟩
      have hafter := hfast.observeIfNeeded (e := ⟨.inbound server localPort, now⟩)
      have hdrop := observeIfNeeded_not_initial hafter server localPort
      have hcalled : fast.observeIfNeeded ⟨.inbound server localPort, now⟩ =
          (fast.inbound server localPort now, none) := by
        simp only [observeIfNeeded]
        obtain ⟨limit, hlimit, -⟩ := hblocked'
        rw [if_pos (needsInbound_of_lookup hfast hlimit)]
        rfl
      rw [← hsame, hcalled, blocked_inbound_iff hblocked'] at hdrop
      have hdrop' : ((full.inbound server localPort now).observe
          ⟨.outbound server localPort false, now⟩).2 = some .drop ↔
          ¬ full.Knows server localPort now := by
        rw [← blocked_inbound_iff hblocked, ← outbound_not_initial _ server localPort]
        exact Option.some_inj
      exact not_iff_not.1 (hdrop'.symm.trans hdrop)

end

/-! ## Runs -/

section

variable (responseTimeoutMs fallbackMs : UInt64)

/-- What is decided when every call is made. -/
def decisions (events : List (Timed Datagram)) : List (Option Decision) :=
  outputs observe (create responseTimeoutMs fallbackMs) events

/-- What the packet loop decides. -/
def fastDecisions (events : List (Timed Datagram)) : List (Option Decision) :=
  outputs observeIfNeeded (create responseTimeoutMs fallbackMs) events

/-- No datagram of the run parts the two. -/
def NeverParted (events : List (Timed Datagram)) : Prop :=
  ∀ before e later, events = before ++ e :: later →
    ¬ Parted (final observe (create responseTimeoutMs fallbackMs) before)
      (final observeIfNeeded (create responseTimeoutMs fallbackMs) before) e

variable {responseTimeoutMs fallbackMs}

/-- The two registries after a run. -/
def InStep (events : List (Timed Datagram)) (full fast : AdaptiveRegistry) : Prop :=
  ∀ now, (∀ e ∈ events, e.now ≤ now) → Matches now full fast ∧ fast.Consistent now

theorem run_inStep {events : List (Timed Datagram)} (hclock : Clocked events)
    (hnever : NeverParted responseTimeoutMs fallbackMs events) :
    InStep events (final observe (create responseTimeoutMs fallbackMs) events)
        (final observeIfNeeded (create responseTimeoutMs fallbackMs) events) ∧
      decisions responseTimeoutMs fallbackMs events =
        fastDecisions responseTimeoutMs fallbackMs events := by
  refine simulation InStep events ?_ ?_
  · intro now _
    refine ⟨⟨rfl, rfl, ?_, fun _ _ _ => Iff.rfl⟩,
      create_consistent responseTimeoutMs fallbackMs now⟩
    intro k flow flow' hflow
    cases hflow
  · intro before e later heq hrelated
    have hbefore : Clocked (before ++ [e]) := by
      rw [heq, List.append_cons] at hclock
      exact hclock.init
    obtain ⟨hmatches, hfast⟩ := hrelated e.now hbefore.le_last
    obtain ⟨hanswer, hnext⟩ := hmatches.observe hfast (hnever before e later heq)
    refine ⟨hanswer, fun now hnow => ?_⟩
    have hle := hnow e (List.mem_append_right _ List.mem_cons_self)
    exact ⟨hnext.mono hle, hfast.observeIfNeeded.mono hle⟩

theorem not_parted_probe (full fast : AdaptiveRegistry) (server : Bytes) (localPort : UInt16)
    (now : UInt64) : ¬ Parted full fast ⟨.outbound server localPort false, now⟩ :=
  fun h => Bool.false_ne_true h.1

theorem NeverParted.init {before later : List (Timed Datagram)}
    (h : NeverParted responseTimeoutMs fallbackMs (before ++ later)) :
    NeverParted responseTimeoutMs fallbackMs before := by
  intro earlier e rest heq
  refine h earlier e (rest ++ later) ?_
  rw [heq, List.append_assoc, List.cons_append]

theorem NeverParted.concat {events : List (Timed Datagram)} {e : Timed Datagram}
    (h : NeverParted responseTimeoutMs fallbackMs events)
    (he : ¬ Parted (final observe (create responseTimeoutMs fallbackMs) events)
      (final observeIfNeeded (create responseTimeoutMs fallbackMs) events) e) :
    NeverParted responseTimeoutMs fallbackMs (events ++ [e]) := by
  intro before e' later heq
  rcases History.concat_eq_cases heq with ⟨-, rfl, rfl⟩ | ⟨rest, -, hbefore⟩
  · exact he
  · exact h before e' rest hbefore

/-- If no datagram parts the registries, leaving calls out changes no decision. And that is
the exact condition: the decisions made so far and the one about a datagram that comes next,
to whatever server, are the same at every point of a run if and only if none parts them. -/
theorem fast_path_exact_iff (responseTimeoutMs fallbackMs : UInt64)
    (events : List (Timed Datagram)) (hclock : Clocked events) :
    (NeverParted responseTimeoutMs fallbackMs events →
        decisions responseTimeoutMs fallbackMs events =
          fastDecisions responseTimeoutMs fallbackMs events) ∧
      ((∀ before later, events = before ++ later → ∀ server localPort now,
          Clocked (before ++ [⟨.outbound server localPort false, now⟩]) →
            decisions responseTimeoutMs fallbackMs
                (before ++ [⟨.outbound server localPort false, now⟩]) =
              fastDecisions responseTimeoutMs fallbackMs
                (before ++ [⟨.outbound server localPort false, now⟩])) ↔
        NeverParted responseTimeoutMs fallbackMs events) := by
  refine ⟨fun hnever => (run_inStep hclock hnever).2, ?_, ?_⟩
  · intro hagree
    induction events using List.reverseRecOn with
    | nil =>
        intro before e later heq
        cases before <;> cases heq
    | append_singleton events e ih =>
        have hnever : NeverParted responseTimeoutMs fallbackMs events :=
          ih hclock.init fun before later heq =>
            hagree before (later ++ [e]) (by rw [heq, List.append_assoc])
        refine hnever.concat fun hparted => ?_
        obtain ⟨hmatches, hfast⟩ := (run_inStep hclock.init hnever).1 e.now hclock.le_last
        have hlast : ∀ e' ∈ events ++ [e], e'.now ≤ e.now := by
          intro e' he'
          rcases List.mem_append.1 he' with he' | he'
          · exact hclock.le_last e' he'
          · rw [List.mem_singleton.1 he']
            exact UInt64.le_refl _
        have hprobe (server : Bytes) (localPort : UInt16) :=
          hagree (events ++ [e]) [] (by rw [List.append_nil]) server localPort e.now
            (hclock.concat hlast)
        rcases hparted.shows hmatches hfast with hnow | ⟨next, ⟨server, localPort, rfl⟩, hnext⟩
        · exact hnow (outputs_concat_inj (outputs_concat_inj (hprobe [] 0)).1).2
        · have hlast := (outputs_concat_inj (hprobe server localPort)).2
          rw [final_concat, final_concat] at hlast
          exact hnext hlast
  · intro hnever before later heq server localPort now hprobe
    subst heq
    exact (run_inStep hprobe (hnever.init.concat (not_parted_probe _ _ server localPort now))).2

end

/-- A flow that is answered, and heard of again after more than three minutes. Its client
starts over from the same port after five. -/
def sampleLongLived : List (Timed Datagram) :=
  [⟨.outbound sampleServer 50000 true, 1000⟩, ⟨.inbound sampleServer 50000, 1100⟩,
    ⟨.inbound sampleServer 50000, 200000⟩, ⟨.outbound sampleServer 50000 true, 302000⟩]

/-- The call that was left out would have kept the flow in the table. -/
theorem long_lived_flow_primed_again :
    Clocked sampleLongLived ∧
      decisions 900 300000 sampleLongLived =
        [some .primeAndPass, none, none, some .pass] ∧
      fastDecisions 900 300000 sampleLongLived =
        [some .primeAndPass, none, none, some .primeAndPass] := by
  decide +kernel

/-- Registries in the same state are not parted by anything. -/
theorem not_parted_self (r : AdaptiveRegistry) (e : Timed Datagram) : ¬ Parted r r e := by
  obtain ⟨op, now⟩ := e
  cases op with
  | outbound server localPort initial => exact fun h => h.2.2 Iff.rfl
  | inbound server localPort => exact fun h => h.2 Iff.rfl

theorem fast_path_exact_sample :
    decisions 900 300000 (sampleLongLived.take 2) =
      fastDecisions 900 300000 (sampleLongLived.take 2) := by
  refine (fast_path_exact_iff 900 300000 (sampleLongLived.take 2) (by decide)).1 ?_
  have hnil : NeverParted 900 300000 [] := by
    intro before e later heq
    cases before <;> cases heq
  have hfirst : NeverParted 900 300000 [⟨.outbound sampleServer 50000 true, 1000⟩] :=
    hnil.concat (not_parted_self _ _)
  exact hfirst.concat (not_parted_self _ _)

end AdaptiveRegistry

end Quic

end SplitHello
