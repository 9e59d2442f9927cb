import SplitHello.Packet.PolicyRegistry
import SplitHello.Transparent.Capacity

/-!
# Full tables of the packet policies

The calls on the registry of policies one by one, as the relay and the packet loop make
them, with an address in text or in bytes. Both tables of the registry make room only for a
key that is not there yet, and so does the registry of datagrams.
-/

namespace SplitHello

namespace Packet

open ByteString KeyedTable History Transparent

/-- A call on the registry of policies. -/
inductive RegistryCall
  | arm (targetAddress : Bytes) (sourcePort : ℕ) (policy : Policy)
  | observeHopText (targetAddress : Bytes) (sourcePort receivedTtl : ℕ)
  | observeHop (target : Bytes) (sourcePort receivedTtl : ℕ)
  | takeText (targetAddress : Bytes) (sourcePort : ℕ)
  | take (target : Bytes) (sourcePort : ℕ) (sequence : Option ℕ)
  | noteApplied (target : Bytes) (sourcePort : ℕ)
  | consumeApplied (targetAddress : Bytes) (sourcePort : ℕ)
  | clear
  deriving DecidableEq, Repr

structure RegistryEvent where
  call : RegistryCall
  now : ℕ
  bucket : PeerKey → ℕ := fun _ => 0

namespace RegistryEvent

variable (pton : Dns.InetPton) (e : RegistryEvent)

/-- The key and the policy of a call of `arm` that is accepted. -/
def arms : Option (PeerKey × Policy) :=
  match e.call with
  | .arm targetAddress sourcePort policy =>
      (PolicyRegistry.armedKey pton targetAddress sourcePort policy).map fun key => (key, policy)
  | _ => none

/-- The path and the number of hops of a sample that is accepted. -/
def samples : Option (PeerKey × ℕ) :=
  let sample (target : Bytes) (sourcePort receivedTtl : ℕ) :=
    if sourcePort = 0 ∨ receivedTtl = 0 ∨ inferPathHops receivedTtl = 0 then none
    else some (entryKey target sourcePort, inferPathHops receivedTtl)
  match e.call with
  | .observeHopText targetAddress sourcePort receivedTtl =>
      (parseAddress pton targetAddress).bind fun target => sample target sourcePort receivedTtl
  | .observeHop target sourcePort receivedTtl => sample target sourcePort receivedTtl
  | _ => none

/-- The key a policy is asked for, and the segment it is for. -/
def asks : Option (PeerKey × Option ℕ) :=
  match e.call with
  | .takeText targetAddress sourcePort =>
      (parseAddress pton targetAddress).map fun target => (entryKey target sourcePort, none)
  | .take target sourcePort sequence => some (entryKey target sourcePort, sequence)
  | _ => none

/-- The key of a report. -/
def notes : Option PeerKey :=
  match e.call with
  | .noteApplied target sourcePort => some (entryKey target sourcePort)
  | _ => none

/-- The key whose report is fetched. -/
def consumes : Option PeerKey :=
  match e.call with
  | .consumeApplied targetAddress sourcePort =>
      (parseAddress pton targetAddress).map fun target => entryKey target sourcePort
  | _ => none

/-- The key whose policy the call may change. -/
def policyKey : Option PeerKey :=
  (e.arms pton).map Prod.fst <|> (e.asks pton).map Prod.fst <|> e.notes <|> e.consumes pton

end RegistryEvent

namespace PolicyRegistry

def observeHopText (r : PolicyRegistry) (pton : Dns.InetPton) (targetAddress : Bytes)
    (sourcePort receivedTtl now : ℕ) (bucket : PeerKey → ℕ) : PolicyRegistry :=
  match parseAddress pton targetAddress with
  | none => r
  | some address => r.observeHop address sourcePort receivedTtl now bucket

def takeText (r : PolicyRegistry) (pton : Dns.InetPton) (targetAddress : Bytes)
    (sourcePort now : ℕ) : PolicyRegistry × Option Policy :=
  match parseAddress pton targetAddress with
  | none => (r, none)
  | some address => r.take address sourcePort none now

/-- One call, and the policy it hands out. -/
def call (pton : Dns.InetPton) (r : PolicyRegistry) (e : RegistryEvent) :
    PolicyRegistry × Option Policy :=
  match e.call with
  | .arm targetAddress sourcePort policy =>
      (r.arm pton targetAddress sourcePort policy e.now e.bucket, none)
  | .observeHopText targetAddress sourcePort receivedTtl =>
      (r.observeHopText pton targetAddress sourcePort receivedTtl e.now e.bucket, none)
  | .observeHop target sourcePort receivedTtl =>
      (r.observeHop target sourcePort receivedTtl e.now e.bucket, none)
  | .takeText targetAddress sourcePort => r.takeText pton targetAddress sourcePort e.now
  | .take target sourcePort sequence => r.take target sourcePort sequence e.now
  | .noteApplied target sourcePort => (r.noteApplied target sourcePort e.now, none)
  | .consumeApplied targetAddress sourcePort =>
      ((r.consumeApplied pton targetAddress sourcePort e.now).1, none)
  | .clear => (r.clear, none)

def step (pton : Dns.InetPton) (r : PolicyRegistry) (e : RegistryEvent) : PolicyRegistry :=
  (r.call pton e).1

def answer (pton : Dns.InetPton) (r : PolicyRegistry) (e : RegistryEvent) : Option Policy :=
  (r.call pton e).2

/-! ## One call by what it does to a key -/

theorem pruneIfDue_policies (r : PolicyRegistry) (now : ℕ) :
    Sweeps Entry.expiresAtMs now r.policies (r.pruneIfDue now).policies := by
  rw [pruneIfDue]
  split
  · exact Sweeps.refl _
  · exact eraseIf_sweeps _

theorem pruneIfDue_hops (r : PolicyRegistry) (now : ℕ) :
    Sweeps HopEntry.expiresAtMs now r.hops (r.pruneIfDue now).hops := by
  rw [pruneIfDue]
  split
  · exact Sweeps.refl _
  · exact eraseIf_sweeps _

theorem insert_roomFor_frugal {V : Type} {expiry : V → ℕ} {now : ℕ} {t t₀ : Table PeerKey V}
    (hsize : size t ≤ maxEntries) (h : Sweeps expiry now t t₀) (bucket : PeerKey → ℕ)
    (key : PeerKey) (v : V) :
    Frugal maxEntries expiry now (some key) t
      ((roomFor expiry t₀ key now bucket).insert key v) := by
  rw [roomFor]
  split
  · rename_i hmem
    exact insert_frugal h hmem v
  · rename_i hnew
    exact insert_makeRoom_frugal (by decide) hsize h bucket hnew v

theorem size_insert_roomFor {V : Type} {expiry : V → ℕ} {now : ℕ} {t t₀ : Table PeerKey V}
    (hsize : size t ≤ maxEntries) (h : Sweeps expiry now t t₀) (bucket : PeerKey → ℕ)
    (key : PeerKey) (v : V) :
    size ((roomFor expiry t₀ key now bucket).insert key v) ≤ maxEntries := by
  rw [roomFor]
  split
  · rename_i hmem
    rw [size_insert_of_mem _ hmem]
    exact h.shrinks.size_le.trans hsize
  · exact size_insert_makeRoom_le (by decide) hsize h.shrinks bucket key v

/-- What a call does to the two tables. -/
inductive Effect (pton : Dns.InetPton) (r : PolicyRegistry) (e : RegistryEvent) :
    PolicyRegistry → Prop
  | armed {key : PeerKey} {policy : Policy} (harms : e.arms pton = some (key, policy)) :
      Effect pton r e
        { r.pruneIfDue e.now with
          policies := (roomFor Entry.expiresAtMs (r.pruneIfDue e.now).policies key e.now
            e.bucket).insert key { policy, expiresAtMs := e.now + policyTtlMs } }
  | sampled {key : PeerKey} {hops : ℕ} (hsamples : e.samples pton = some (key, hops)) :
      Effect pton r e
        { r.pruneIfDue e.now with
          hops := (roomFor HopEntry.expiresAtMs (r.pruneIfDue e.now).hops key e.now
            e.bucket).insert key ⟨hops, e.now + policyTtlMs⟩ }
  | asked {target : Bytes} {sourcePort : ℕ} {sequence : Option ℕ}
      (hasks : e.asks pton = some (entryKey target sourcePort, sequence))
      (hcall : r.call pton e = r.take target sourcePort sequence e.now) :
      Effect pton r e (r.take target sourcePort sequence e.now).1
  | noted {target : Bytes} {sourcePort : ℕ} (hnotes : e.notes = some (entryKey target sourcePort)) :
      Effect pton r e (r.noteApplied target sourcePort e.now)
  | consumed {key : PeerKey} (hconsumes : e.consumes pton = some key) :
      Effect pton r e { r with policies := r.policies.erase key }
  | cleared (hclear : e.call = .clear) : Effect pton r e {}
  | none (hkey : e.policyKey pton = none) (hsamples : e.samples pton = none) : Effect pton r e r

theorem arm_effect (pton : Dns.InetPton) (r : PolicyRegistry) (targetAddress : Bytes)
    (sourcePort : ℕ) (policy : Policy) (now : ℕ) (bucket : PeerKey → ℕ) :
    Effect pton r ⟨.arm targetAddress sourcePort policy, now, bucket⟩
      (r.arm pton targetAddress sourcePort policy now bucket) := by
  cases hkey : armedKey pton targetAddress sourcePort policy with
  | none =>
      have hsame : r.arm pton targetAddress sourcePort policy now bucket = r := by
        rw [armedKey] at hkey
        rw [arm]
        split
        · rfl
        · rename_i address haddress
          rw [haddress] at hkey
          by_cases hrefused : sourcePort = 0 ∨ policy.mode = .none
          · rw [if_pos hrefused]
          · simp [hrefused] at hkey
      rw [hsame]
      exact .none (by simp [RegistryEvent.policyKey, RegistryEvent.arms, RegistryEvent.asks,
        RegistryEvent.notes, RegistryEvent.consumes, hkey]) rfl
  | some key =>
      have harms : RegistryEvent.arms pton ⟨.arm targetAddress sourcePort policy, now, bucket⟩ =
          some (key, policy) := by simp [RegistryEvent.arms, hkey]
      rw [armedKey] at hkey
      rw [arm]
      split
      · rename_i hnone
        simp [hnone] at hkey
      · rename_i address haddress
        rw [haddress] at hkey
        by_cases hrefused : sourcePort = 0 ∨ policy.mode = .none
        · simp [hrefused] at hkey
        · obtain rfl : entryKey address sourcePort = key := by simpa [hrefused] using hkey
          rw [if_neg hrefused]
          exact .armed harms

/-- A sample is taken over, or it is refused. -/
theorem observeHop_effect {pton : Dns.InetPton} {r : PolicyRegistry} {e : RegistryEvent}
    {target : Bytes} {sourcePort receivedTtl : ℕ} (hkey : e.policyKey pton = none)
    (hsamples : e.samples pton =
      if sourcePort = 0 ∨ receivedTtl = 0 ∨ inferPathHops receivedTtl = 0 then none
      else some (entryKey target sourcePort, inferPathHops receivedTtl)) :
    Effect pton r e (r.observeHop target sourcePort receivedTtl e.now e.bucket) := by
  rw [observeHop]
  by_cases hrefused : sourcePort = 0 ∨ receivedTtl = 0 ∨ inferPathHops receivedTtl = 0
  · rw [if_pos hrefused] at hsamples
    rw [if_pos hrefused]
    exact .none hkey hsamples
  · rw [if_neg hrefused] at hsamples
    rw [if_neg hrefused]
    exact .sampled hsamples

theorem consumeApplied_policies (r : PolicyRegistry) (pton : Dns.InetPton)
    {targetAddress address : Bytes} (haddress : parseAddress pton targetAddress = some address)
    (sourcePort now : ℕ) :
    (r.consumeApplied pton targetAddress sourcePort now).1 =
      { r with policies := r.policies.erase (entryKey address sourcePort) } := by
  rw [consumeApplied, haddress]
  dsimp only
  split
  · rename_i hnone
    rw [erase_of_lookup_eq_none hnone]
  · rfl

theorem step_effect (pton : Dns.InetPton) (r : PolicyRegistry) (e : RegistryEvent) :
    Effect pton r e (r.step pton e) := by
  obtain ⟨call, now, bucket⟩ := e
  cases call with
  | arm targetAddress sourcePort policy =>
      exact r.arm_effect pton targetAddress sourcePort policy now bucket
  | observeHopText targetAddress sourcePort receivedTtl =>
      rw [step, PolicyRegistry.call]
      dsimp only
      rw [observeHopText]
      cases haddress : parseAddress pton targetAddress with
      | none => exact .none rfl (by simp [RegistryEvent.samples, haddress])
      | some address => exact observeHop_effect rfl (by simp [RegistryEvent.samples, haddress])
  | observeHop target sourcePort receivedTtl => exact observeHop_effect rfl rfl
  | takeText targetAddress sourcePort =>
      rw [step]
      cases haddress : parseAddress pton targetAddress with
      | none =>
          have hsame :
              r.call pton ⟨.takeText targetAddress sourcePort, now, bucket⟩ = (r, none) := by
            simp [PolicyRegistry.call, takeText, haddress]
          rw [hsame]
          exact .none (by simp [RegistryEvent.policyKey, RegistryEvent.arms, RegistryEvent.asks,
            RegistryEvent.notes, RegistryEvent.consumes, haddress]) rfl
      | some address =>
          have htake : r.call pton ⟨.takeText targetAddress sourcePort, now, bucket⟩ =
              r.take address sourcePort none now := by
            simp [PolicyRegistry.call, takeText, haddress]
          rw [htake]
          exact .asked (by simp [RegistryEvent.asks, haddress]) htake
  | take target sourcePort sequence => exact .asked rfl rfl
  | noteApplied target sourcePort => exact .noted rfl
  | consumeApplied targetAddress sourcePort =>
      rw [step, PolicyRegistry.call]
      dsimp only
      cases haddress : parseAddress pton targetAddress with
      | none =>
          rw [consumeApplied, haddress]
          exact .none (by simp [RegistryEvent.policyKey, RegistryEvent.arms, RegistryEvent.asks,
            RegistryEvent.notes, RegistryEvent.consumes, haddress]) rfl
      | some address =>
          rw [consumeApplied_policies r pton haddress]
          exact .consumed (by simp [RegistryEvent.consumes, haddress])
  | clear => exact .cleared rfl

/-! ## Frugality -/

theorem take_frugal (r : PolicyRegistry) (target : Bytes) (sourcePort : ℕ) (sequence : Option ℕ)
    (now : ℕ) : Frugal maxEntries Entry.expiresAtMs now (some (entryKey target sourcePort))
      r.policies (r.take target sourcePort sequence now).1.policies := by
  rw [take]
  dsimp only
  split
  · exact Frugal.refl _ _
  · rename_i entry hentry
    split
    · exact erase_frugal _ _
    · split
      · split <;> exact Frugal.refl _ _
      · exact insert_frugal (Sweeps.refl _) (mem_of_lookup hentry) _

theorem noteApplied_frugal (r : PolicyRegistry) (target : Bytes) (sourcePort now : ℕ) :
    Frugal maxEntries Entry.expiresAtMs now (some (entryKey target sourcePort))
      r.policies (r.noteApplied target sourcePort now).policies := by
  rw [noteApplied]
  dsimp only
  split
  · exact Frugal.refl _ _
  · rename_i entry hentry
    exact insert_frugal (Sweeps.refl _) (mem_of_lookup hentry) _

theorem take_size (r : PolicyRegistry) (target : Bytes) (sourcePort : ℕ) (sequence : Option ℕ)
    (now : ℕ) : size (r.take target sourcePort sequence now).1.policies ≤ size r.policies := by
  rw [take]
  dsimp only
  split
  · exact le_refl _
  · rename_i entry hentry
    split
    · exact size_erase_le _ _
    · split
      · split <;> exact le_refl _
      · exact (size_insert_of_lookup _ hentry).le

theorem noteApplied_size (r : PolicyRegistry) (target : Bytes) (sourcePort now : ℕ) :
    size (r.noteApplied target sourcePort now).policies = size r.policies := by
  rw [noteApplied]
  dsimp only
  split
  · rfl
  · rename_i entry hentry
    exact size_insert_of_lookup _ hentry

theorem take_hops (r : PolicyRegistry) (target : Bytes) (sourcePort : ℕ) (sequence : Option ℕ)
    (now : ℕ) : (r.take target sourcePort sequence now).1.hops = r.hops := by
  rw [take]
  dsimp only
  split
  · rfl
  · split
    · rfl
    · split
      · split <;> rfl
      · rfl

theorem noteApplied_hops (r : PolicyRegistry) (target : Bytes) (sourcePort now : ℕ) :
    (r.noteApplied target sourcePort now).hops = r.hops := by
  rw [noteApplied]
  dsimp only
  split <;> rfl

/-- Both tables are within their bound. -/
structure Bounded (r : PolicyRegistry) : Prop where
  policies : size r.policies ≤ maxEntries
  hops : size r.hops ≤ maxEntries

section

variable {pton : Dns.InetPton} {r r' : PolicyRegistry} {e : RegistryEvent}

theorem Effect.bounded (h : Effect pton r e r') (hr : r.Bounded) : r'.Bounded := by
  have hpolicies := (r.pruneIfDue_policies e.now).shrinks.size_le.trans hr.policies
  have hhops := (r.pruneIfDue_hops e.now).shrinks.size_le.trans hr.hops
  cases h with
  | armed harms =>
      exact ⟨size_insert_roomFor hr.policies (r.pruneIfDue_policies e.now) _ _ _, hhops⟩
  | sampled hsamples =>
      exact ⟨hpolicies, size_insert_roomFor hr.hops (r.pruneIfDue_hops e.now) _ _ _⟩
  | asked hasks hcall =>
      exact ⟨(r.take_size _ _ _ _).trans hr.policies, (r.take_hops _ _ _ _).symm ▸ hr.hops⟩
  | noted hnotes =>
      exact ⟨(r.noteApplied_size _ _ _).trans_le hr.policies,
        (r.noteApplied_hops _ _ _).symm ▸ hr.hops⟩
  | consumed hconsumes => exact ⟨(size_erase_le _ _).trans hr.policies, hr.hops⟩
  | cleared hclear => exact ⟨Nat.zero_le _, Nat.zero_le _⟩
  | none hkey hsamples => exact hr

theorem policyKey_of_arms {key : PeerKey} {policy : Policy}
    (h : e.arms pton = some (key, policy)) : e.policyKey pton = some key := by
  simp [RegistryEvent.policyKey, h]

theorem policyKey_of_asks {key : PeerKey} {sequence : Option ℕ}
    (h : e.asks pton = some (key, sequence)) : e.policyKey pton = some key := by
  have harms : e.arms pton = none := by
    obtain ⟨call, now, bucket⟩ := e
    cases call <;> first | rfl | cases h
  simp [RegistryEvent.policyKey, harms, h]

theorem policyKey_of_notes {key : PeerKey} (h : e.notes = some key) :
    e.policyKey pton = some key := by
  have hother : e.arms pton = none ∧ e.asks pton = none := by
    obtain ⟨call, now, bucket⟩ := e
    cases call <;> first | exact ⟨rfl, rfl⟩ | cases h
  simp [RegistryEvent.policyKey, hother, h]

theorem policyKey_of_consumes {key : PeerKey} (h : e.consumes pton = some key) :
    e.policyKey pton = some key := by
  have hother : e.arms pton = none ∧ e.asks pton = none ∧ e.notes = none := by
    obtain ⟨call, now, bucket⟩ := e
    cases call <;> first | exact ⟨rfl, rfl, rfl⟩ | cases h
  simp [RegistryEvent.policyKey, hother, h]

theorem Effect.policies_frugal (h : Effect pton r e r') (hr : r.Bounded)
    (hclear : e.call ≠ .clear) :
    Frugal maxEntries Entry.expiresAtMs e.now (e.policyKey pton) r.policies r'.policies := by
  cases h with
  | armed harms =>
      rw [policyKey_of_arms harms]
      exact insert_roomFor_frugal hr.policies (r.pruneIfDue_policies e.now) _ _ _
  | sampled hsamples => exact (r.pruneIfDue_policies e.now).frugal _
  | asked hasks hcall =>
      rw [policyKey_of_asks hasks]
      exact r.take_frugal _ _ _ _
  | noted hnotes =>
      rw [policyKey_of_notes hnotes]
      exact r.noteApplied_frugal _ _ _
  | consumed hconsumes =>
      rw [policyKey_of_consumes hconsumes]
      exact erase_frugal _ _
  | cleared hcleared => exact absurd hcleared hclear
  | none hkey hsamples => exact Frugal.refl _ _

theorem Effect.hops_frugal (h : Effect pton r e r') (hr : r.Bounded) (hclear : e.call ≠ .clear) :
    Frugal maxEntries HopEntry.expiresAtMs e.now ((e.samples pton).map Prod.fst) r.hops
      r'.hops := by
  cases h with
  | armed harms => exact (r.pruneIfDue_hops e.now).frugal _
  | sampled hsamples =>
      rw [hsamples]
      exact insert_roomFor_frugal hr.hops (r.pruneIfDue_hops e.now) _ _ _
  | asked hasks hcall =>
      rw [take_hops]
      exact Frugal.refl _ _
  | noted hnotes =>
      rw [noteApplied_hops]
      exact Frugal.refl _ _
  | consumed hconsumes => exact Frugal.refl _ _
  | cleared hcleared => exact absurd hcleared hclear
  | none hkey hsamples => exact Frugal.refl _ _

end

theorem run_bounded (pton : Dns.InetPton) (events : List RegistryEvent) :
    (run (step pton) {} events).Bounded :=
  run_invariant (step pton) {} (fun _ r => r.Bounded) ⟨Nat.zero_le _, Nat.zero_le _⟩
    (fun _ r e hr => (step_effect pton r e).bounded hr) events

end PolicyRegistry

/-- After every run the three tables are within their bound, and every call but `clear`
loses an unexpired entry of another key only to a new key in a full table of unexpired
ones; then it loses one entry, and none has a smaller expiry. -/
theorem bounded_tables_frugal :
    (∀ events, let r := run DatagramRegistry.step {} events
      size r.entries ≤ maxPendingFlows ∧ ∀ c : Timed DatagramOp, c.op ≠ .clear →
        Frugal maxPendingFlows PendingDatagrams.expiresAtMs c.now c.op.key r.entries
          (r.step c).entries) ∧
    ∀ pton events, let r := run (PolicyRegistry.step pton) {} events
      (size r.policies ≤ maxEntries ∧ size r.hops ≤ maxEntries) ∧
        ∀ e : RegistryEvent, e.call ≠ .clear →
          Frugal maxEntries Entry.expiresAtMs e.now (e.policyKey pton) r.policies
            (r.step pton e).policies ∧
          Frugal maxEntries HopEntry.expiresAtMs e.now ((e.samples pton).map Prod.fst) r.hops
            (r.step pton e).hops := by
  refine ⟨fun events => ?_, fun pton events => ?_⟩
  · have hsize := DatagramRegistry.run_size events
    exact ⟨hsize, fun c hclear => DatagramRegistry.step_frugal hsize hclear⟩
  · have hr := PolicyRegistry.run_bounded pton events
    refine ⟨⟨hr.policies, hr.hops⟩, fun e hclear => ?_⟩
    have heffect := PolicyRegistry.step_effect pton (run (PolicyRegistry.step pton) {} events) e
    exact ⟨heffect.policies_frugal hr hclear, heffect.hops_frugal hr hclear⟩

end Packet

end SplitHello
