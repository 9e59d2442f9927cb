import SplitHello.Dns.Message
import SplitHello.Library.History
import SplitHello.Packet.Policy
import SplitHello.Transparent.FlowTable

/-!
# The policies between the relay and the packet loop

The relay arms a policy for a connection it is about to use, the packet loop takes it
when the first TLS packet comes by and reports back when the packet really went out
changed, and the relay asks for the report once the probe is over. All of it goes
through one table. Taking and reporting are two calls under two locks, and nothing but
the key ties the second to the first; so whose report an entry carries is a statement
about runs, and `Traffic` keeps beside the table which policy each hand-out was.
-/

namespace SplitHello

namespace Packet

open ByteString KeyedTable History Transparent

def policyTtlMs : ℕ := 15000
def appliedTtlMs : ℕ := 60000
def maxEntries : ℕ := 8192

/-- The hops a packet has taken, from the initial time to live it most likely had. -/
def inferPathHops (receivedTtl : ℕ) : ℕ :=
  if receivedTtl ≤ 64 then 64 - receivedTtl
  else if receivedTtl ≤ 128 then 128 - receivedTtl
  else if receivedTtl ≤ 255 then 255 - receivedTtl
  else 0

def parseAddress (pton : Dns.InetPton) (text : Bytes) : Option Bytes :=
  match pton.v4 text with
  | some v4 => some (addressFromBytes v4 false)
  | none => (pton.v6 text).map fun v6 => addressFromBytes v6 true

structure Entry where
  policy : Policy
  expiresAtMs : ℕ := 0
  taken : Bool := false
  sequence : Option ℕ := none
  applied : Bool := false
  deriving DecidableEq, Repr

structure HopEntry where
  pathHops : ℕ := 0
  expiresAtMs : ℕ := 0
  deriving DecidableEq, Repr

/-- A local port towards a server. -/
def entryKey (target : Bytes) (sourcePort : ℕ) : PeerKey := ⟨target, sourcePort, .client⟩

structure PolicyRegistry where
  policies : Table PeerKey Entry := ∅
  hops : Table PeerKey HopEntry := ∅
  nextPruneMs : ℕ := 0

namespace PolicyRegistry

def pruneIfDue (r : PolicyRegistry) (now : ℕ) : PolicyRegistry :=
  if now < r.nextPruneMs then r
  else
    { policies := eraseIf (fun _ e => e.expiresAtMs ≤ now) r.policies
      hops := eraseIf (fun _ e => e.expiresAtMs ≤ now) r.hops
      nextPruneMs := now + pruneIntervalMs }

/-- Room for a key that is not there yet. -/
def roomFor {V : Type} (expiresAtMs : V → ℕ) (table : Table PeerKey V) (key : PeerKey) (now : ℕ)
    (bucket : PeerKey → ℕ) : Table PeerKey V :=
  if key ∈ table then table
  else makeRoom maxEntries (fun e => expiresAtMs e ≤ now) expiresAtMs bucket table

def arm (r : PolicyRegistry) (pton : Dns.InetPton) (targetAddress : Bytes) (sourcePort : ℕ)
    (policy : Policy) (now : ℕ) (bucket : PeerKey → ℕ) : PolicyRegistry :=
  match parseAddress pton targetAddress with
  | none => r
  | some address =>
      if sourcePort = 0 ∨ policy.mode = .none then r
      else
        let key := entryKey address sourcePort
        let r := r.pruneIfDue now
        let policies := roomFor Entry.expiresAtMs r.policies key now bucket
        { r with policies := policies.insert key { policy, expiresAtMs := now + policyTtlMs } }

def observeHop (r : PolicyRegistry) (target : Bytes) (sourcePort receivedTtl now : ℕ)
    (bucket : PeerKey → ℕ) : PolicyRegistry :=
  let hops := inferPathHops receivedTtl
  if sourcePort = 0 ∨ receivedTtl = 0 ∨ hops = 0 then r
  else
    let key := entryKey target sourcePort
    let r := r.pruneIfDue now
    let table := roomFor HopEntry.expiresAtMs r.hops key now bucket
    { r with hops := table.insert key ⟨hops, now + policyTtlMs⟩ }

/-- What an AutoTTL policy becomes when it is handed out. Without a sample of the path
it falls back to a bad sequence number. -/
def settleTtl (r : PolicyRegistry) (key : PeerKey) (policy : Policy) (now : ℕ) : Policy :=
  if policy.mode = .fakeAutoTtl then
    match r.hops.lookup key with
    | some hop =>
        if hop.expiresAtMs ≤ now ∨ hop.pathHops < 3 then
          { policy with mode := .fakeBadSequence, fakeSequenceDelta := -10000 }
        else { policy with fakeTtl := max 2 (hop.pathHops - 1) }
    | none => { policy with mode := .fakeBadSequence, fakeSequenceDelta := -10000 }
  else policy

/-- The first call fixes the segment; later ones get the policy only for the same
sequence number. -/
def take (r : PolicyRegistry) (target : Bytes) (sourcePort : ℕ) (sequence : Option ℕ)
    (now : ℕ) : PolicyRegistry × Option Policy :=
  let key := entryKey target sourcePort
  match r.policies.lookup key with
  | none => (r, none)
  | some entry =>
      if entry.expiresAtMs ≤ now then ({ r with policies := r.policies.erase key }, none)
      else if entry.taken then
        if sequence.isSome ∧ entry.sequence = sequence then (r, some entry.policy) else (r, none)
      else
        let policy := r.settleTtl key entry.policy now
        let sequence := if sequence.isSome then sequence else entry.sequence
        ({ r with
            policies := r.policies.insert key { entry with taken := true, sequence, policy } },
          some policy)

def noteApplied (r : PolicyRegistry) (target : Bytes) (sourcePort now : ℕ) : PolicyRegistry :=
  let key := entryKey target sourcePort
  match r.policies.lookup key with
  | none => r
  | some entry =>
      let expiresAtMs := max entry.expiresAtMs (now + appliedTtlMs)
      { r with policies := r.policies.insert key { entry with applied := true, expiresAtMs } }

/-- The answer forgets the key. -/
def consumeApplied (r : PolicyRegistry) (pton : Dns.InetPton) (targetAddress : Bytes)
    (sourcePort now : ℕ) : PolicyRegistry × Bool :=
  match parseAddress pton targetAddress with
  | none => (r, false)
  | some address =>
      let key := entryKey address sourcePort
      match r.policies.lookup key with
      | none => (r, false)
      | some entry =>
          ({ r with policies := r.policies.erase key },
            entry.applied && entry.expiresAtMs > now)

def clear (_ : PolicyRegistry) : PolicyRegistry := {}

/-! ## What the calls leave in the table -/

/-- The key an accepted call of `arm` writes. -/
def armedKey (pton : Dns.InetPton) (targetAddress : Bytes) (sourcePort : ℕ) (policy : Policy) :
    Option PeerKey :=
  match parseAddress pton targetAddress with
  | none => none
  | some address =>
      if sourcePort = 0 ∨ policy.mode = .none then none else some (entryKey address sourcePort)

theorem pruneIfDue_shrinks (r : PolicyRegistry) (now : ℕ) :
    Shrinks (r.pruneIfDue now).policies r.policies := by
  rw [pruneIfDue]
  split
  · exact Shrinks.refl _
  · exact eraseIf_shrinks _ _

theorem roomFor_shrinks {V : Type} (expiresAtMs : V → ℕ) (table : Table PeerKey V)
    (key : PeerKey) (now : ℕ) (bucket : PeerKey → ℕ) :
    Shrinks (roomFor expiresAtMs table key now bucket) table := by
  rw [roomFor]
  split
  · exact Shrinks.refl _
  · exact makeRoom_shrinks _ _ _ _ _

theorem observeHop_shrinks (r : PolicyRegistry) (target : Bytes) (sourcePort receivedTtl now : ℕ)
    (bucket : PeerKey → ℕ) :
    Shrinks (r.observeHop target sourcePort receivedTtl now bucket).policies r.policies := by
  rw [observeHop]
  dsimp only
  split
  · exact Shrinks.refl _
  · exact pruneIfDue_shrinks r now

theorem consumeApplied_shrinks (r : PolicyRegistry) (pton : Dns.InetPton) (targetAddress : Bytes)
    (sourcePort now : ℕ) :
    Shrinks (r.consumeApplied pton targetAddress sourcePort now).1.policies r.policies := by
  rw [consumeApplied]
  split
  · exact Shrinks.refl _
  · dsimp only
    split
    · exact Shrinks.refl _
    · exact erase_shrinks _ _

theorem arm_lookup {r : PolicyRegistry} {pton : Dns.InetPton} {targetAddress : Bytes}
    {sourcePort : ℕ} {policy : Policy} {now : ℕ} {bucket : PeerKey → ℕ} {key : PeerKey} {e : Entry}
    (h : (r.arm pton targetAddress sourcePort policy now bucket).policies.lookup key = some e) :
    armedKey pton targetAddress sourcePort policy = some key ∧ e.applied = false ∨
      r.policies.lookup key = some e ∧
        armedKey pton targetAddress sourcePort policy ≠ some key := by
  rw [arm] at h
  rw [armedKey]
  split at h
  · exact Or.inr ⟨h, by simp⟩
  · rename_i address haddress
    split at h
    · rename_i hrefused
      exact Or.inr ⟨h, by simp [if_pos hrefused]⟩
    · rename_i haccepted
      rw [if_neg haccepted]
      rcases lookup_insert_cases h with ⟨rfl, rfl⟩ | ⟨hne, h⟩
      · exact Or.inl ⟨rfl, rfl⟩
      · refine Or.inr ⟨?_, fun heq => hne (Option.some.inj heq).symm⟩
        exact pruneIfDue_shrinks r now _ _ (roomFor_shrinks _ _ _ _ _ _ _ h)

/-- A policy is handed out with the marks its entry has. -/
theorem take_lookup {r : PolicyRegistry} {target : Bytes} {sourcePort : ℕ}
    {sequence : Option ℕ} {now : ℕ} {key : PeerKey} {e : Entry}
    (h : (r.take target sourcePort sequence now).1.policies.lookup key = some e) :
    ∃ e', r.policies.lookup key = some e' ∧ e.applied = e'.applied := by
  rw [take] at h
  dsimp only at h
  split at h
  · exact ⟨e, h, rfl⟩
  · rename_i entry hentry
    split at h
    · exact ⟨e, (lookup_erase_cases h).2, rfl⟩
    · split at h
      · split at h <;> exact ⟨e, h, rfl⟩
      · rcases lookup_insert_cases h with ⟨rfl, rfl⟩ | ⟨-, h⟩
        · exact ⟨entry, hentry, rfl⟩
        · exact ⟨e, h, rfl⟩

theorem noteApplied_lookup {r : PolicyRegistry} {target : Bytes} {sourcePort now : ℕ}
    {key : PeerKey} {e : Entry}
    (h : (r.noteApplied target sourcePort now).policies.lookup key = some e) :
    key = entryKey target sourcePort ∧ key ∈ r.policies ∨ r.policies.lookup key = some e := by
  rw [noteApplied] at h
  dsimp only at h
  split at h
  · exact Or.inr h
  · rename_i entry hentry
    rcases lookup_insert_cases h with ⟨rfl, -⟩ | ⟨-, h⟩
    · exact Or.inl ⟨rfl, mem_of_lookup hentry⟩
    · exact Or.inr h

end PolicyRegistry

/-! ## Runs of the relay and the packet loop -/

/-- One call under the lock. A report names the hand-out it is made for, by its place in
the order of the hand-outs. -/
inductive PolicyCall
  | arm (targetAddress : Bytes) (sourcePort : ℕ) (policy : Policy)
  | observeHop (target : Bytes) (sourcePort receivedTtl : ℕ)
  | take (target : Bytes) (sourcePort : ℕ) (sequence : Option ℕ)
  | noteApplied (handout : ℕ)
  | consumeApplied (targetAddress : Bytes) (sourcePort : ℕ)
  | clear
  deriving DecidableEq, Repr

structure PolicyEvent where
  call : PolicyCall
  now : ℕ
  bucket : PeerKey → ℕ := fun _ => 0

/-- A policy the packet loop was given: where, and how many policies had been armed
there by then. -/
structure Handout where
  target : Bytes
  sourcePort : ℕ
  armed : ℕ
  deriving DecidableEq, Repr

def Handout.key (h : Handout) : PeerKey := entryKey h.target h.sourcePort

/-- The registry, how many policies have been armed on each key, what the packet loop
was given, oldest first, and the hand-outs it has reported on. -/
structure Traffic where
  registry : PolicyRegistry := {}
  armed : PeerKey → ℕ := fun _ => 0
  handouts : List Handout := []
  reported : List ℕ := []

namespace Traffic

def step (pton : Dns.InetPton) (s : Traffic) (e : PolicyEvent) : Traffic :=
  match e.call with
  | .arm targetAddress sourcePort policy =>
      { s with
        registry := s.registry.arm pton targetAddress sourcePort policy e.now e.bucket
        armed := fun key =>
          let accepted := PolicyRegistry.armedKey pton targetAddress sourcePort policy
          if accepted = some key then s.armed key + 1 else s.armed key }
  | .observeHop target sourcePort receivedTtl =>
      { s with registry := s.registry.observeHop target sourcePort receivedTtl e.now e.bucket }
  | .take target sourcePort sequence =>
      let taken := s.registry.take target sourcePort sequence e.now
      let handout : Handout := ⟨target, sourcePort, s.armed (entryKey target sourcePort)⟩
      { s with
        registry := taken.1
        handouts := if taken.2.isSome then s.handouts ++ [handout] else s.handouts }
  | .noteApplied handout =>
      match s.handouts[handout]? with
      | none => s
      | some h =>
          { s with
            registry := s.registry.noteApplied h.target h.sourcePort e.now
            reported := handout :: s.reported }
  | .consumeApplied targetAddress sourcePort =>
      { s with registry := (s.registry.consumeApplied pton targetAddress sourcePort e.now).1 }
  | .clear => { s with registry := s.registry.clear }

def run (pton : Dns.InetPton) (events : List PolicyEvent) : Traffic :=
  History.run (step pton) {} events

/-- The policy armed last on a key was handed out, and that hand-out was reported. -/
def Reported (s : Traffic) (key : PeerKey) : Prop :=
  ∃ i ∈ s.reported, ∃ h, s.handouts[i]? = some h ∧ h.key = key ∧ h.armed = s.armed key

/-- Whatever is asked now, the answer is about the policy armed last. -/
def SpeaksForLast (pton : Dns.InetPton) (s : Traffic) : Prop :=
  ∀ targetAddress sourcePort now,
    (s.registry.consumeApplied pton targetAddress sourcePort now).2 = true →
      ∃ address, parseAddress pton targetAddress = some address ∧
        s.Reported (entryKey address sourcePort)

/-- A report for a hand-out whose policy has been replaced, while the replacement is in
the table and has no report of its own. -/
def Misreports (s : Traffic) (call : PolicyCall) : Prop :=
  ∃ handout h, call = .noteApplied handout ∧ s.handouts[handout]? = some h ∧
    h.armed ≠ s.armed h.key ∧ h.key ∈ s.registry.policies ∧ ¬ s.Reported h.key

/-- Where an entry comes from: it was there with the same mark, it is new, or it has
just been reported on. -/
inductive Origin (pton : Dns.InetPton) (s : Traffic) (key : PeerKey) (e : Entry) :
    PolicyCall → Prop
  | kept {call : PolicyCall} (e' : Entry) (hlookup : s.registry.policies.lookup key = some e')
      (happlied : e.applied = e'.applied) (harmed : ∀ targetAddress sourcePort policy,
        call = .arm targetAddress sourcePort policy →
          PolicyRegistry.armedKey pton targetAddress sourcePort policy ≠ some key) :
      Origin pton s key e call
  | armed {targetAddress : Bytes} {sourcePort : ℕ} {policy : Policy}
      (hkey : PolicyRegistry.armedKey pton targetAddress sourcePort policy = some key)
      (happlied : e.applied = false) : Origin pton s key e (.arm targetAddress sourcePort policy)
  | noted {handout : ℕ} {h : Handout} (hhandout : s.handouts[handout]? = some h)
      (hkey : h.key = key) (hmem : key ∈ s.registry.policies) :
      Origin pton s key e (.noteApplied handout)

variable {pton : Dns.InetPton} {s : Traffic} {event : PolicyEvent} {key : PeerKey} {e : Entry}

theorem step_origin (h : (step pton s event).registry.policies.lookup key = some e) :
    Origin pton s key e event.call := by
  obtain ⟨call, now, bucket⟩ := event
  cases call with
  | arm targetAddress sourcePort policy =>
      rcases PolicyRegistry.arm_lookup h with ⟨hkey, happlied⟩ | ⟨hlookup, hne⟩
      · exact .armed hkey happlied
      · refine .kept e hlookup rfl ?_
        rintro _ _ _ ⟨⟩
        exact hne
  | observeHop target sourcePort receivedTtl =>
      exact .kept e (PolicyRegistry.observeHop_shrinks _ _ _ _ _ _ _ _ h) rfl nofun
  | take target sourcePort sequence =>
      obtain ⟨e', hlookup, happlied⟩ := PolicyRegistry.take_lookup h
      exact .kept e' hlookup happlied nofun
  | noteApplied handout =>
      rw [step] at h
      dsimp only at h
      split at h
      · exact .kept e h rfl nofun
      · rename_i found hfound
        rcases PolicyRegistry.noteApplied_lookup h with ⟨rfl, hmem⟩ | hlookup
        · exact .noted hfound rfl hmem
        · exact .kept e hlookup rfl nofun
  | consumeApplied targetAddress sourcePort =>
      exact .kept e (PolicyRegistry.consumeApplied_shrinks _ _ _ _ _ _ _ h) rfl nofun
  | clear => cases h

/-- The report of a key outlives every call that arms no policy on it. -/
theorem Reported.step (h : s.Reported key)
    (harmed : ∀ targetAddress sourcePort policy,
      event.call = .arm targetAddress sourcePort policy →
        PolicyRegistry.armedKey pton targetAddress sourcePort policy ≠ some key) :
    (step pton s event).Reported key := by
  obtain ⟨i, hi, found, hfound, hkey, hlast⟩ := h
  obtain ⟨call, now, bucket⟩ := event
  cases call with
  | arm targetAddress sourcePort policy =>
      refine ⟨i, hi, found, hfound, hkey, ?_⟩
      have hne := harmed targetAddress sourcePort policy rfl
      simp [Traffic.step, hne, hlast]
  | take target sourcePort sequence =>
      refine ⟨i, hi, found, ?_, hkey, hlast⟩
      simp only [Traffic.step]
      split
      · rw [List.getElem?_append_left (List.getElem?_eq_some_iff.1 hfound).1]
        exact hfound
      · exact hfound
  | noteApplied handout =>
      rw [Traffic.step]
      dsimp only
      split
      · exact ⟨i, hi, found, hfound, hkey, hlast⟩
      · exact ⟨i, List.mem_cons_of_mem _ hi, found, hfound, hkey, hlast⟩
  | observeHop target sourcePort receivedTtl => exact ⟨i, hi, found, hfound, hkey, hlast⟩
  | consumeApplied targetAddress sourcePort => exact ⟨i, hi, found, hfound, hkey, hlast⟩
  | clear => exact ⟨i, hi, found, hfound, hkey, hlast⟩

/-- Every report in the table is one for the policy armed last. -/
def Sound (s : Traffic) : Prop :=
  ∀ key e, s.registry.policies.lookup key = some e → e.applied = true → s.Reported key

/-- Every key of the table can be asked for. -/
def Spelled (pton : Dns.InetPton) (s : Traffic) : Prop :=
  ∀ key ∈ s.registry.policies, ∃ targetAddress address sourcePort,
    parseAddress pton targetAddress = some address ∧ key = entryKey address sourcePort

theorem Sound.step (hs : s.Sound) (hgood : ¬ s.Misreports event.call) :
    (step pton s event).Sound := by
  intro key e hlookup happlied
  have horigin := step_origin hlookup
  generalize hcall : event.call = call at horigin
  cases horigin with
  | kept e' hlookup' happlied' harmed =>
      subst hcall
      exact (hs key e' hlookup' (happlied'.symm.trans happlied)).step harmed
  | armed hkey hnot =>
      rw [hnot] at happlied
      cases happlied
  | noted hhandout hkey hmem =>
      rename_i handout h
      subst hkey
      have hnoted : (Traffic.step pton s event).reported = handout :: s.reported ∧
          (Traffic.step pton s event).handouts = s.handouts ∧
          (Traffic.step pton s event).armed = s.armed := by
        simp [Traffic.step, hcall, hhandout]
      by_cases hlast : h.armed = s.armed h.key
      · refine ⟨handout, ?_, h, ?_, rfl, ?_⟩
        · rw [hnoted.1]
          exact List.mem_cons_self
        · rw [hnoted.2.1]
          exact hhandout
        · rw [hnoted.2.2]
          exact hlast
      · have hreported : s.Reported h.key := by
          by_contra hnot
          exact hgood ⟨handout, h, hcall, hhandout, hlast, hmem, hnot⟩
        exact hreported.step (by rw [hcall]; nofun)

theorem Spelled.step (hs : s.Spelled pton) : (step pton s event).Spelled pton := by
  intro key hmem
  obtain ⟨e, hlookup⟩ := exists_lookup_of_mem hmem
  have horigin := step_origin hlookup
  generalize event.call = call at horigin
  cases horigin with
  | kept e' hlookup' happlied harmed =>
      exact hs key (mem_of_lookup hlookup')
  | armed hkey happlied =>
      rename_i targetAddress sourcePort policy
      rw [PolicyRegistry.armedKey] at hkey
      split at hkey
      · cases hkey
      · rename_i address haddress
        rw [Option.ite_none_left_eq_some, Option.some.injEq] at hkey
        exact ⟨targetAddress, address, sourcePort, haddress, hkey.2.symm⟩
  | noted hhandout hkey hmem => exact hs key hmem

theorem run_spelled (pton : Dns.InetPton) (events : List PolicyEvent) :
    (run pton events).Spelled pton :=
  run_invariant (step pton) {} (fun _ s => s.Spelled pton) nofun (fun _ _ _ hs => hs.step) events

/-- The answer is yes only for an entry with a report. -/
theorem consumeApplied_eq_true {r : PolicyRegistry} {targetAddress : Bytes} {sourcePort now : ℕ} :
    (r.consumeApplied pton targetAddress sourcePort now).2 = true ↔
      ∃ address e, parseAddress pton targetAddress = some address ∧
        r.policies.lookup (entryKey address sourcePort) = some e ∧ e.applied = true ∧
        now < e.expiresAtMs := by
  rw [PolicyRegistry.consumeApplied]
  cases parseAddress pton targetAddress with
  | none => simp
  | some address =>
      dsimp only
      cases hlookup : r.policies.lookup (entryKey address sourcePort) with
      | none => simp [hlookup]
      | some entry => simp [hlookup]

theorem Sound.speaksForLast (hs : s.Sound) : s.SpeaksForLast pton := by
  intro targetAddress sourcePort now h
  obtain ⟨address, e, haddress, hlookup, happlied, -⟩ := consumeApplied_eq_true.1 h
  exact ⟨address, haddress, hs _ e hlookup happlied⟩

/-- A report that is not about the policy armed last is believed at once. -/
theorem Misreports.not_speaksForLast (hspelled : s.Spelled pton) (hbad : s.Misreports event.call) :
    ¬ (step pton s event).SpeaksForLast pton := by
  intro hspeaks
  obtain ⟨handout, h, hcall, hhandout, hstale, hmem, hnot⟩ := hbad
  obtain ⟨targetAddress, address, sourcePort, haddress, hkey⟩ := hspelled _ hmem
  obtain ⟨entry, hentry⟩ := exists_lookup_of_mem hmem
  have hstep : step pton s event =
      { s with
        registry := s.registry.noteApplied h.target h.sourcePort event.now
        reported := handout :: s.reported } := by
    simp [step, hcall, hhandout]
  have hyes : ((step pton s event).registry.consumeApplied pton targetAddress sourcePort
      event.now).2 = true := by
    refine consumeApplied_eq_true.2 ⟨address, { entry with
      applied := true
      expiresAtMs := max entry.expiresAtMs (event.now + appliedTtlMs) }, haddress, ?_, rfl, ?_⟩
    · rw [hstep, ← hkey, PolicyRegistry.noteApplied]
      dsimp only
      rw [← Handout.key, hentry]
      exact AList.lookup_insert _
    · simp [appliedTtlMs]
  obtain ⟨address', haddress', i, hi, found, hfound, hfoundKey, hlast⟩ := hspeaks _ _ _ hyes
  obtain rfl : address = address' := Option.some.inj (haddress.symm.trans haddress')
  rw [hstep] at hi hfound hlast
  rw [← hkey] at hfoundKey hlast
  rcases List.mem_cons.1 hi with rfl | hi
  · obtain rfl : h = found := Option.some.inj (hhandout.symm.trans hfound)
    exact hstale hlast
  · exact hnot ⟨i, hi, found, hfound, hfoundKey, hlast⟩

theorem run_sound {pton : Dns.InetPton} {events : List PolicyEvent}
    (h : ∀ before event after, events = before ++ event :: after →
      ¬ (run pton before).Misreports event.call) : (run pton events).Sound := by
  induction events using List.reverseRecOn with
  | nil => exact nofun
  | append_singleton events event ih =>
      have hsound : (run pton events).Sound := by
        refine ih fun before e after heq => h before e (after ++ [event]) ?_
        rw [heq]
        simp
      rw [run, run_concat]
      exact hsound.step (h events event [] rfl)

/-- The answers of a run are about the policies armed last exactly if no report comes for
a policy that has been replaced. -/
theorem speaks_for_last_iff (pton : Dns.InetPton) (events : List PolicyEvent) :
    (∀ before after, events = before ++ after → (run pton before).SpeaksForLast pton) ↔
      ∀ before event after, events = before ++ event :: after →
        ¬ (run pton before).Misreports event.call := by
  constructor
  · intro hspeaks before event after heq hbad
    refine hbad.not_speaksForLast (run_spelled pton before) ?_
    have hnext := hspeaks (before ++ [event]) after (by simp [heq])
    rw [run, run_concat] at hnext
    exact hnext
  · intro hgood before after heq
    refine Sound.speaksForLast (run_sound fun first event rest hfirst => ?_)
    refine hgood first event (rest ++ after) ?_
    rw [heq, hfirst]
    simp

def sampleLiteral (text : Bytes) : Option Bytes :=
  if text = ofString "203.0.113.8" then some [203, 0, 113, 8] else none

theorem length_sampleLiteral (text b : Bytes) (h : sampleLiteral text = some b) : b.length = 4 := by
  rw [sampleLiteral, Option.ite_none_right_eq_some, Option.some.injEq] at h
  rw [← h.2]
  rfl

theorem length_noLiteral (_ b : Bytes) (h : none = some b) : b.length = 16 := by
  cases h

def samplePton : Dns.InetPton :=
  ⟨sampleLiteral, fun _ => none, length_sampleLiteral, length_noLiteral⟩

/-- A port is used again while the packet loop still works on a packet of the first
connection: the report for the first policy is taken for one about the second. -/
def sampleReuse : List PolicyEvent :=
  [⟨.arm (ofString "203.0.113.8") 52000 { mode := .reverseOrder }, 1000, fun _ => 0⟩,
    ⟨.take (addressFromBytes [203, 0, 113, 8] false) 52000 (some 1), 1001, fun _ => 0⟩,
    ⟨.arm (ofString "203.0.113.8") 52000 { mode := .ipFragment }, 1002, fun _ => 0⟩,
    ⟨.noteApplied 0, 1003, fun _ => 0⟩]

/-- The relay is told that its second policy was applied, which was never handed out. -/
theorem stale_report_believed :
    ((run samplePton sampleReuse).registry.consumeApplied samplePton (ofString "203.0.113.8")
        52000 1004).2 = true ∧
      ¬ (run samplePton sampleReuse).Reported
        (entryKey (addressFromBytes [203, 0, 113, 8] false) 52000) := by
  refine ⟨by decide +kernel, ?_⟩
  have hreported : (run samplePton sampleReuse).reported = [0] := by decide +kernel
  have hhandouts : (run samplePton sampleReuse).handouts =
      [⟨addressFromBytes [203, 0, 113, 8] false, 52000, 1⟩] := by decide +kernel
  have harmed : (run samplePton sampleReuse).armed
      (entryKey (addressFromBytes [203, 0, 113, 8] false) 52000) = 2 := by decide +kernel
  rintro ⟨i, hi, found, hfound, -, hlast⟩
  rw [hreported, List.mem_singleton] at hi
  rw [hhandouts, hi, List.getElem?_cons_zero, Option.some.injEq] at hfound
  rw [harmed, ← hfound] at hlast
  cases hlast

end Traffic

end Packet

end SplitHello
