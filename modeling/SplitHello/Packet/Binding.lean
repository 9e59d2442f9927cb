import SplitHello.Packet.EntryStep

/-!
# One policy for one segment

The first packet that takes a policy fixes it: from then on the entry has the sequence
number of that packet, and what became of an AutoTTL policy at that moment. A segment that
is sent again gets the same policy for as long as the entry is there. Everything about the time
between two calls of `arm` follows from what one call makes of an entry, by induction over
the calls: `OnRecord` is the invariant.
-/

namespace SplitHello

namespace Packet

open ByteString KeyedTable History Transparent

namespace PolicyRegistry

/-! ## Samples of a path -/

/-- Every number of hops in the table is that of a sample, and expires with it. -/
def Sampled (pton : Dns.InetPton) (past : List RegistryEvent) (r : PolicyRegistry) : Prop :=
  ∀ key hop, r.hops.lookup key = some hop → ∃ e ∈ past,
    e.samples pton = some (key, hop.pathHops) ∧ hop.expiresAtMs = e.now + policyTtlMs

theorem Sampled.step {pton : Dns.InetPton} {past : List RegistryEvent} {r : PolicyRegistry}
    (h : Sampled pton past r) (e : RegistryEvent) :
    Sampled pton (past ++ [e]) (r.step pton e) := by
  have hkeep : ∀ {key hop}, r.hops.lookup key = some hop → ∃ x ∈ past ++ [e],
      x.samples pton = some (key, hop.pathHops) ∧ hop.expiresAtMs = x.now + policyTtlMs := by
    intro key hop hhop
    obtain ⟨x, hx, hsample⟩ := h key hop hhop
    exact ⟨x, List.mem_append_left _ hx, hsample⟩
  have hsweep := (r.pruneIfDue_hops e.now).shrinks
  intro key hop hhop
  have heffect := step_effect pton r e
  generalize r.step pton e = r' at heffect hhop
  cases heffect with
  | armed harms => exact hkeep (hsweep _ _ hhop)
  | sampled hsamples =>
      rcases lookup_insert_cases hhop with ⟨rfl, rfl⟩ | ⟨-, hhop⟩
      · exact ⟨e, by simp, hsamples, rfl⟩
      · exact hkeep (hsweep _ _ (roomFor_shrinks _ _ _ _ _ _ _ hhop))
  | asked hasks hcall =>
      rw [take_hops] at hhop
      exact hkeep hhop
  | noted hnotes =>
      rw [noteApplied_hops] at hhop
      exact hkeep hhop
  | consumed hconsumes => exact hkeep hhop
  | cleared hclear => cases hhop
  | none hkey hsamples => exact hkeep hhop

theorem run_sampled (pton : Dns.InetPton) (events : List RegistryEvent) :
    Sampled pton events (run (step pton) {} events) :=
  run_invariant (step pton) {} (Sampled pton) nofun (fun _ _ e h => h.step e) events

end PolicyRegistry

/-- Some sample of the path that is not too old counts this many hops. -/
def FreshSample (pton : Dns.InetPton) (past : List RegistryEvent) (key : PeerKey) (now hops : ℕ) :
    Prop :=
  ∃ e ∈ past, e.samples pton = some (key, hops) ∧ now < e.now + policyTtlMs

/-- What a policy is when it is handed out for the first time. -/
structure Resolved (pton : Dns.InetPton) (past : List RegistryEvent) (key : PeerKey) (now : ℕ)
    (armed policy : Policy) : Prop where
  other : armed.mode ≠ .fakeAutoTtl → policy = armed
  ttl : policy.mode = .fakeAutoTtl → ∃ hops, FreshSample pton past key now hops ∧
    2 ≤ policy.fakeTtl ∧ policy.fakeTtl < hops
  fallback : armed.mode = .fakeAutoTtl → (∀ hops, FreshSample pton past key now hops → hops < 3) →
    policy.mode = .fakeBadSequence ∧ policy.fakeSequenceDelta ≠ 0

theorem settleTtl_resolved {pton : Dns.InetPton} {past : List RegistryEvent} {r : PolicyRegistry}
    (h : r.Sampled pton past) (key : PeerKey) (armed : Policy) (now : ℕ) :
    Resolved pton past key now armed (r.settleTtl key armed now) := by
  have hbad (policy : Policy) (hpolicy : policy = { armed with
      mode := .fakeBadSequence, fakeSequenceDelta := -10000 }) (hmode : armed.mode = .fakeAutoTtl) :
      Resolved pton past key now armed policy := by
    rw [hpolicy]
    exact ⟨fun hne => absurd hmode hne, nofun, fun _ _ => ⟨rfl, show (-10000 : ℤ) ≠ 0 by decide⟩⟩
  rw [PolicyRegistry.settleTtl]
  by_cases hmode : armed.mode = .fakeAutoTtl
  · rw [if_pos hmode]
    cases hhop : r.hops.lookup key with
    | none => exact hbad _ rfl hmode
    | some hop =>
        dsimp only
        split
        · exact hbad _ rfl hmode
        · rename_i hfresh
          rw [not_or, Nat.not_le, Nat.not_lt] at hfresh
          obtain ⟨e, he, hsample, hexpires⟩ := h key hop hhop
          have hknown : FreshSample pton past key now hop.pathHops :=
            ⟨e, he, hsample, hexpires ▸ hfresh.1⟩
          refine ⟨fun hne => absurd hmode hne, fun _ => ⟨hop.pathHops, hknown, ?_, ?_⟩, ?_⟩
          · exact Nat.le_max_left _ _
          · dsimp only
            omega
          · intro _ hfew
            exact absurd (hfew _ hknown) (Nat.not_lt.2 hfresh.2)
  · rw [if_neg hmode]
    exact ⟨fun _ => rfl, fun hauto => absurd hauto hmode, fun hauto => absurd hauto hmode⟩

/-! ## Between two calls of `arm` -/

/-- The call after this past hands out a policy. -/
structure Handed (pton : Dns.InetPton) (past : List RegistryEvent) (e : RegistryEvent)
    (key : PeerKey) (sequence : Option ℕ) (policy : Policy) : Prop where
  asks : e.asks pton = some (key, sequence)
  answer : (run (PolicyRegistry.step pton) {} past).answer pton e = some policy

/-- Some call of the list hands out a policy. -/
def HandedIn (pton : Dns.InetPton) (start events : List RegistryEvent) (key : PeerKey)
    (sequence : Option ℕ) (policy : Policy) : Prop :=
  ∃ before e after, events = before ++ e :: after ∧
    Handed pton (start ++ before) e key sequence policy

/-- The first call that hands out a policy of the key hands out this one, for this segment. -/
def FirstHanded (pton : Dns.InetPton) (start events : List RegistryEvent) (key : PeerKey)
    (armed : Policy) (sequence : Option ℕ) (policy : Policy) : Prop :=
  ∃ before e after, events = before ++ e :: after ∧
    Handed pton (start ++ before) e key sequence policy ∧
    (∀ sequence policy, ¬ HandedIn pton start before key sequence policy) ∧
    Resolved pton (start ++ before) key e.now armed policy

/-- When an entry expires that was armed at some time and reported on since. -/
def expiry (key : PeerKey) (armedAt : ℕ) (events : List RegistryEvent) : ℕ :=
  events.foldl (fun latest e =>
    if e.notes = some key then max latest (e.now + appliedTtlMs) else latest)
    (armedAt + policyTtlMs)

theorem expiry_concat (key : PeerKey) (armedAt : ℕ) (events : List RegistryEvent)
    (e : RegistryEvent) :
    expiry key armedAt (events ++ [e]) =
      if e.notes = some key then max (expiry key armedAt events) (e.now + appliedTtlMs)
      else expiry key armedAt events := by
  rw [expiry, List.foldl_append]
  rfl

theorem le_expiry (key : PeerKey) (armedAt : ℕ) (events : List RegistryEvent) :
    armedAt + policyTtlMs ≤ expiry key armedAt events := by
  induction events using List.reverseRecOn with
  | nil => exact le_refl _
  | append_singleton events e ih =>
      rw [expiry_concat]
      split
      · exact ih.trans (Nat.le_max_left _ _)
      · exact ih

section

variable {pton : Dns.InetPton} {start events : List RegistryEvent} {e : RegistryEvent}
  {key : PeerKey} {sequence : Option ℕ} {policy armed : Policy} {armedAt : ℕ}

theorem handedIn_concat :
    HandedIn pton start (events ++ [e]) key sequence policy ↔
      HandedIn pton start events key sequence policy ∨
        Handed pton (start ++ events) e key sequence policy := by
  constructor
  · rintro ⟨before, e', after, heq, hhanded⟩
    rcases concat_eq_cases heq with ⟨-, rfl, rfl⟩ | ⟨rest, -, hbefore⟩
    · exact Or.inr hhanded
    · exact Or.inl ⟨before, e', rest, hbefore, hhanded⟩
  · rintro (⟨before, e', after, rfl, hhanded⟩ | hhanded)
    · exact ⟨before, e', after ++ [e], by simp, hhanded⟩
    · exact ⟨events, e, [], rfl, hhanded⟩

theorem FirstHanded.concat (h : FirstHanded pton start events key armed sequence policy)
    (e : RegistryEvent) : FirstHanded pton start (events ++ [e]) key armed sequence policy := by
  obtain ⟨before, e', after, rfl, hrest⟩ := h
  exact ⟨before, e', after ++ [e], by simp, hrest⟩

theorem notes_of_asks (h : e.asks pton = some (key, sequence)) : e.notes = none := by
  obtain ⟨call, now, bucket⟩ := e
  cases call <;> first | rfl | cases h

/-- An entry nobody has taken yet, or one that belongs to a segment. -/
inductive Stage (pton : Dns.InetPton) (start events : List RegistryEvent) (key : PeerKey)
    (armed : Policy) (entry : Entry) : Prop
  | free (htaken : entry.taken = false) (hpolicy : entry.policy = armed)
      (hsequence : entry.sequence = none)
      (hnone : ∀ sequence policy, ¬ HandedIn pton start events key sequence policy)
  | fixed (htaken : entry.taken = true)
      (hfirst : FirstHanded pton start events key armed entry.sequence entry.policy)
      (hall : ∀ sequence policy, HandedIn pton start events key sequence policy →
        sequence = entry.sequence ∧ policy = entry.policy)

/-- What is known of the entry of a key while it is there. -/
structure OnRecord (pton : Dns.InetPton) (start events : List RegistryEvent) (key : PeerKey)
    (armed : Policy) (armedAt : ℕ) (entry : Entry) : Prop where
  expires : entry.expiresAtMs = expiry key armedAt events
  kept : ∀ e ∈ events, e.consumes pton ≠ some key ∧ e.call ≠ .clear
  stage : Stage pton start events key armed entry

/-- A call that hands nothing out leaves the stage. -/
theorem Stage.later {entry : Entry} (h : Stage pton start events key armed entry)
    (hnot : ∀ sequence policy, ¬ Handed pton (start ++ events) e key sequence policy)
    {entry' : Entry} (htaken : entry'.taken = entry.taken) (hpolicy : entry'.policy = entry.policy)
    (hsequence : entry'.sequence = entry.sequence) :
    Stage pton start (events ++ [e]) key armed entry' := by
  cases h with
  | free htaken' hpolicy' hsequence' hnone =>
      refine .free (htaken.trans htaken') (hpolicy.trans hpolicy') (hsequence.trans hsequence') ?_
      intro sequence policy hhanded
      rcases handedIn_concat.1 hhanded with hearlier | hnow
      · exact hnone sequence policy hearlier
      · exact hnot sequence policy hnow
  | fixed htaken' hfirst hall =>
      refine .fixed (htaken.trans htaken') ?_ fun sequence policy hhanded => ?_
      · rw [hpolicy, hsequence]
        exact hfirst.concat e
      · rw [hpolicy, hsequence]
        rcases handedIn_concat.1 hhanded with hearlier | hnow
        · exact hall sequence policy hearlier
        · exact absurd hnow (hnot sequence policy)

theorem OnRecord.step {entry entry' : Entry} {r : PolicyRegistry}
    (hr : run (PolicyRegistry.step pton) {} (start ++ events) = r)
    (h : OnRecord pton start events key armed armedAt entry)
    (hentry' : (r.step pton e).policies.lookup key = some entry')
    (hstays : PolicyRegistry.Stays pton r e key entry entry') :
    OnRecord pton start (events ++ [e]) key armed armedAt entry' := by
  have hkept : ∀ x ∈ events ++ [e], x.consumes pton ≠ some key ∧ x.call ≠ .clear := by
    intro x hx
    rcases List.mem_append.1 hx with hx | hx
    · exact h.kept x hx
    · rw [List.mem_singleton.1 hx]
      exact PolicyRegistry.kept_of_lookup hentry'
  cases hstays with
  | same hasks hnotes =>
      refine ⟨?_, hkept, h.stage.later (fun _ _ hhanded => hasks _ hhanded.asks) rfl rfl rfl⟩
      rw [expiry_concat, if_neg hnotes, h.expires]
  | noted hnotes =>
      refine ⟨?_, hkept, h.stage.later (fun _ _ hhanded => ?_) rfl rfl rfl⟩
      · rw [expiry_concat, if_pos hnotes, h.expires]
      · rw [notes_of_asks hhanded.asks] at hnotes
        cases hnotes
  | again hasks htaken hanswer =>
      have hexpires : entry.expiresAtMs = expiry key armedAt (events ++ [e]) := by
        rw [expiry_concat, notes_of_asks hasks, if_neg nofun, h.expires]
      refine ⟨hexpires, hkept, ?_⟩
      cases h.stage with
      | free hfree => simp [htaken] at hfree
      | fixed _ hfirst hall =>
          refine .fixed htaken (hfirst.concat e) fun sequence policy hhanded => ?_
          rcases handedIn_concat.1 hhanded with hearlier | hnow
          · exact hall sequence policy hearlier
          · have hsome := hnow.answer
            rw [hr, hanswer, Option.ite_none_right_eq_some, Option.some.injEq] at hsome
            have hsequence := hnow.asks
            rw [hasks, Option.some.injEq, Prod.mk.injEq] at hsequence
            exact ⟨hsequence.2.symm.trans hsome.1.2.symm, hsome.2.symm⟩
  | first hasks htaken hanswer =>
      rename_i asked
      have hexpires : entry.expiresAtMs = expiry key armedAt (events ++ [e]) := by
        rw [expiry_concat, notes_of_asks hasks, if_neg nofun, h.expires]
      refine ⟨hexpires, hkept, ?_⟩
      cases h.stage with
      | fixed hfixed => simp [htaken] at hfixed
      | free _ hpolicy hsequence hnone =>
          have hfixes : (if asked.isSome then asked else entry.sequence) = asked := by
            rw [hsequence]
            cases asked <;> rfl
          have hhanded : Handed pton (start ++ events) e key asked
              (r.settleTtl key entry.policy e.now) := ⟨hasks, hr ▸ hanswer⟩
          have hsampled : r.Sampled pton (start ++ events) :=
            hr ▸ PolicyRegistry.run_sampled pton (start ++ events)
          refine .fixed rfl ?_ fun sequence policy hin => ?_
          · dsimp only
            rw [hfixes, hpolicy]
            rw [hpolicy] at hhanded
            exact ⟨events, e, [], rfl, hhanded, hnone, settleTtl_resolved hsampled key armed e.now⟩
          · dsimp only
            rw [hfixes]
            rcases handedIn_concat.1 hin with hearlier | hnow
            · exact absurd hearlier (hnone sequence policy)
            · have hsequence' := hnow.asks.symm.trans hasks
              have hpolicy' := hnow.answer.symm.trans hhanded.answer
              rw [Option.some.injEq, Prod.mk.injEq] at hsequence'
              exact ⟨hsequence'.2, Option.some.inj hpolicy'⟩

theorem step_armed {r : PolicyRegistry} (harms : e.arms pton = some (key, armed)) :
    (r.step pton e).policies =
      (PolicyRegistry.roomFor Entry.expiresAtMs (r.pruneIfDue e.now).policies key e.now
        e.bucket).insert key { policy := armed, expiresAtMs := e.now + policyTtlMs } := by
  have hother : e.asks pton = none ∧ e.notes = none ∧ e.consumes pton = none ∧
      e.samples pton = none ∧ e.call ≠ .clear := by
    obtain ⟨call, now, bucket⟩ := e
    cases call <;> first | cases harms | exact ⟨rfl, rfl, rfl, rfl, nofun⟩
  obtain ⟨hasks, hnotes, hconsumes, hsamples, hclear⟩ := hother
  have heffect := PolicyRegistry.step_effect pton r e
  generalize r.step pton e = r' at heffect ⊢
  cases heffect with
  | armed harms' =>
      rw [harms, Option.some.injEq, Prod.mk.injEq] at harms'
      rw [harms'.1, harms'.2]
  | sampled h => exact absurd (hsamples.symm.trans h) nofun
  | asked h => exact absurd (hasks.symm.trans h) nofun
  | noted h => exact absurd (hnotes.symm.trans h) nofun
  | consumed h => exact absurd (hconsumes.symm.trans h) nofun
  | cleared h => exact absurd h hclear
  | none h =>
      rw [PolicyRegistry.policyKey_of_arms harms] at h
      cases h

/-- After a call that arms a key, and until the next one, the entry is on record. -/
theorem run_onRecord {before : List RegistryEvent} {a : RegistryEvent}
    (harms : a.arms pton = some (key, armed)) {between : List RegistryEvent}
    (hbetween : ∀ x ∈ between, ∀ policy, x.arms pton ≠ some (key, policy)) {entry : Entry}
    (hentry : (run (PolicyRegistry.step pton) {} (before ++ [a] ++ between)).policies.lookup key =
      some entry) :
    OnRecord pton (before ++ [a]) between key armed a.now entry := by
  induction between using List.reverseRecOn generalizing entry with
  | nil =>
      rw [List.append_nil, run_concat, step_armed harms, AList.lookup_insert,
        Option.some.injEq] at hentry
      subst hentry
      refine ⟨rfl, nofun, .free rfl rfl rfl fun _ _ hhanded => ?_⟩
      obtain ⟨first, x, later, heq, -⟩ := hhanded
      cases first <;> cases heq
  | append_singleton between x ih =>
      have hearlier := fun y hy => hbetween y (List.mem_append_left _ hy)
      have hx := hbetween x (by simp)
      rw [← List.append_assoc, run_concat] at hentry
      obtain ⟨r, hr⟩ : ∃ r, run (PolicyRegistry.step pton) {} (before ++ [a] ++ between) = r :=
        ⟨_, rfl⟩
      rw [hr] at hentry ih
      have hbounded : r.Bounded := hr ▸ PolicyRegistry.run_bounded pton _
      cases hlookup : r.policies.lookup key with
      | none =>
          rw [PolicyRegistry.step_absent hlookup hx] at hentry
          cases hentry
      | some entry₀ =>
          rcases PolicyRegistry.step_entry hbounded hlookup hx with
            ⟨entry', hentry', hstays⟩ | ⟨hnone, -⟩
          · rw [hentry', Option.some.injEq] at hentry
            subst hentry
            exact (ih hearlier hlookup).step hr hentry' hstays
          · rw [hnone] at hentry
            cases hentry

end

/-- The entry of a key goes with this call: it has expired, its report is fetched, the
table is cleared, or a new key comes into a full table of unexpired entries, none of which
expires before it. -/
inductive Gone (pton : Dns.InetPton) (past : List RegistryEvent) (key : PeerKey) (expiresAt : ℕ)
    (e : RegistryEvent) : Prop
  | expired (h : expiresAt ≤ e.now)
  | consumed (h : e.consumes pton = some key)
  | cleared (h : e.call = .clear)
  | evicted {key' : PeerKey}
      (hcrowds : Crowds maxEntries Entry.expiresAtMs e.now
        (run (PolicyRegistry.step pton) {} past).policies
        (run (PolicyRegistry.step pton) {} (past ++ [e])).policies key')
      (hloses : LosesOne Entry.expiresAtMs (run (PolicyRegistry.step pton) {} past).policies
        (run (PolicyRegistry.step pton) {} (past ++ [e])).policies key' key)

/-- How a policy is handed out between two calls that arm its key. -/
structure OneSegment (pton : Dns.InetPton) (start between : List RegistryEvent) (key : PeerKey)
    (armed : Policy) (armedAt : ℕ) : Prop where
  single : ∀ p₁ e₁ p₂ e₂ p₃ sequence₁ sequence₂ policy₁ policy₂,
    between = p₁ ++ e₁ :: (p₂ ++ e₂ :: p₃) →
    Handed pton (start ++ p₁) e₁ key sequence₁ policy₁ →
    Handed pton (start ++ (p₁ ++ e₁ :: p₂)) e₂ key sequence₂ policy₂ →
      sequence₁.isSome ∧ sequence₂ = sequence₁ ∧ policy₂ = policy₁
  in_time : ∀ p₁ e p₂ sequence policy, between = p₁ ++ e :: p₂ →
    Handed pton (start ++ p₁) e key sequence policy →
      e.now < expiry key armedAt p₁ ∧ ∀ x ∈ p₁, x.consumes pton ≠ some key ∧ x.call ≠ .clear
  resolved : ∀ p₁ e p₂ sequence policy, between = p₁ ++ e :: p₂ →
    Handed pton (start ++ p₁) e key sequence policy →
      FirstHanded pton start (p₁ ++ [e]) key armed sequence policy
  again : ∀ p₁ e₁ p₂ e₂ p₃ sequence policy, between = p₁ ++ e₁ :: (p₂ ++ e₂ :: p₃) →
    Handed pton (start ++ p₁) e₁ key sequence policy → sequence.isSome →
    e₂.asks pton = some (key, sequence) →
      Handed pton (start ++ (p₁ ++ e₁ :: p₂)) e₂ key sequence policy ∨
        ∃ p x q, p₂ ++ [e₂] = p ++ x :: q ∧
          Gone pton (start ++ (p₁ ++ e₁ :: p)) key (expiry key armedAt (p₁ ++ e₁ :: p)) x

section

variable {pton : Dns.InetPton} {before between : List RegistryEvent} {a : RegistryEvent}
  {key : PeerKey} {armed : Policy}

/-- The entry a policy is handed out of between two calls that arm its key. -/
theorem Handed.entry (harms : a.arms pton = some (key, armed)) {past : List RegistryEvent}
    (hpast : ∀ x ∈ past, ∀ policy, x.arms pton ≠ some (key, policy)) {e : RegistryEvent}
    {sequence : Option ℕ} {policy : Policy}
    (h : Handed pton (before ++ [a] ++ past) e key sequence policy) :
    ∃ entry, (run (PolicyRegistry.step pton) {} (before ++ [a] ++ past)).policies.lookup key =
        some entry ∧ e.now < entry.expiresAtMs ∧
      OnRecord pton (before ++ [a]) past key armed a.now entry := by
  obtain ⟨entry, hentry, hlive⟩ := PolicyRegistry.answer_eq_some h.asks h.answer
  exact ⟨entry, hentry, hlive, run_onRecord harms hpast hentry⟩

/-- Whoever is handed a policy is either the first or asks for the segment of the entry. -/
theorem Handed.stage (harms : a.arms pton = some (key, armed)) {past : List RegistryEvent}
    (hpast : ∀ x ∈ past, ∀ policy, x.arms pton ≠ some (key, policy)) {e : RegistryEvent}
    {sequence : Option ℕ} {policy : Policy}
    (h : Handed pton (before ++ [a] ++ past) e key sequence policy) :
    FirstHanded pton (before ++ [a]) (past ++ [e]) key armed sequence policy ∧
      ∀ sequence' policy', HandedIn pton (before ++ [a]) past key sequence' policy' →
        sequence.isSome ∧ sequence' = sequence ∧ policy' = policy := by
  obtain ⟨entry, hentry, hlive, hrecord⟩ := h.entry harms hpast
  have hanswer := (PolicyRegistry.answer_of_lookup h.asks hentry).symm.trans h.answer
  rw [if_neg (Nat.not_le.2 hlive)] at hanswer
  cases hrecord.stage with
  | free htaken hpolicy hsequence hnone =>
      refine ⟨⟨past, e, [], rfl, h, hnone, ?_⟩, fun _ _ hin => absurd hin (hnone _ _)⟩
      rw [htaken, if_neg nofun, hpolicy, Option.some.injEq] at hanswer
      rw [← hanswer]
      exact settleTtl_resolved (PolicyRegistry.run_sampled pton _) key armed e.now
  | fixed htaken hfirst hall =>
      rw [if_pos htaken] at hanswer
      obtain ⟨⟨hsome, hsequence⟩, hpolicy⟩ := Option.ite_none_right_eq_some.1 hanswer
      rw [Option.some.injEq] at hpolicy
      rw [hsequence, hpolicy] at hfirst hall
      exact ⟨hfirst.concat e, fun sequence' policy' hin => ⟨hsome, hall _ _ hin⟩⟩

/-- The entry of the key belongs to a segment. -/
def PolicyRegistry.Holds (r : PolicyRegistry) (key : PeerKey) (sequence : Option ℕ)
    (policy : Policy) : Prop :=
  ∃ entry, r.policies.lookup key = some entry ∧ entry.taken = true ∧ entry.sequence = sequence ∧
    entry.policy = policy

/-- The entry of the key goes with this call. -/
def PolicyRegistry.Loses (pton : Dns.InetPton) (key : PeerKey) (r : PolicyRegistry)
    (e : RegistryEvent) : Prop :=
  ∃ entry, r.policies.lookup key = some entry ∧ PolicyRegistry.Lost pton r e key entry

/-- An entry that belongs to a segment goes on doing so, or it is lost. -/
theorem holds_unless {r : PolicyRegistry} (hr : r.Bounded) {sequence : Option ℕ} {policy : Policy}
    (hholds : r.Holds key sequence policy) {events : List RegistryEvent}
    (hevents : ∀ x ∈ events, ∀ policy, x.arms pton ≠ some (key, policy)) :
    (run (PolicyRegistry.step pton) r events).Holds key sequence policy ∨
      ∃ p x q, events = p ++ x :: q ∧
        (run (PolicyRegistry.step pton) r p).Loses pton key x := by
  have hstep : ∀ r, ∀ x ∈ events, r.Bounded ∧ r.Holds key sequence policy →
      ¬ PolicyRegistry.Loses pton key r x →
        (r.step pton x).Bounded ∧ (r.step pton x).Holds key sequence policy := by
    rintro r x hx ⟨hbounded, entry, hlookup, htaken, hsequence, hpolicy⟩ hkeeps
    refine ⟨(PolicyRegistry.step_effect pton r x).bounded hbounded, ?_⟩
    rcases PolicyRegistry.step_entry hbounded hlookup (hevents x hx) with
      ⟨entry', hentry', hstays⟩ | ⟨-, hlost⟩
    · refine ⟨entry', hentry', ?_⟩
      cases hstays with
      | same => exact ⟨htaken, hsequence, hpolicy⟩
      | noted => exact ⟨htaken, hsequence, hpolicy⟩
      | again => exact ⟨htaken, hsequence, hpolicy⟩
      | first _ hfree => simp [htaken] at hfree
    · exact absurd ⟨entry, hlookup, hlost⟩ hkeeps
  exact (run_unless (PolicyRegistry.step pton) ⟨hr, hholds⟩ hstep).imp_left And.right

/-- A segment that is sent again is given the same policy, or the entry is gone by then. -/
theorem Handed.again (harms : a.arms pton = some (key, armed)) {p₁ p₂ : List RegistryEvent}
    {e₁ e₂ : RegistryEvent}
    (hpast : ∀ x ∈ p₁ ++ e₁ :: p₂, ∀ policy, x.arms pton ≠ some (key, policy))
    {sequence : Option ℕ} {policy : Policy}
    (h : Handed pton (before ++ [a] ++ p₁) e₁ key sequence policy) (hsome : sequence.isSome)
    (hasks : e₂.asks pton = some (key, sequence)) :
    Handed pton (before ++ [a] ++ (p₁ ++ e₁ :: p₂)) e₂ key sequence policy ∨
      ∃ p x q, p₂ ++ [e₂] = p ++ x :: q ∧ Gone pton (before ++ [a] ++ (p₁ ++ e₁ :: p)) key
        (expiry key a.now (p₁ ++ e₁ :: p)) x := by
  have hruns : ∀ p, run (PolicyRegistry.step pton) {} (before ++ [a] ++ (p₁ ++ e₁ :: p)) =
      run (PolicyRegistry.step pton)
        ((run (PolicyRegistry.step pton) {} (before ++ [a] ++ p₁)).step pton e₁) p := by
    intro p
    rw [← run_concat (PolicyRegistry.step pton), ← run_append]
    simp
  have hbounded :
      ((run (PolicyRegistry.step pton) {} (before ++ [a] ++ p₁)).step pton e₁).Bounded :=
    (PolicyRegistry.step_effect pton _ e₁).bounded (PolicyRegistry.run_bounded pton _)
  have hholds := PolicyRegistry.step_of_answer h.asks hsome h.answer
  have hlater : ∀ x ∈ p₂, ∀ policy, x.arms pton ≠ some (key, policy) := fun x hx =>
    hpast x (List.mem_append_right _ (List.mem_cons_of_mem _ hx))
  rcases holds_unless hbounded hholds hlater with
    ⟨entry, hentry, htaken, hsequence, hpolicy⟩ | ⟨p, x, q, heq, entry, hentry, hlost⟩
  · rw [← hruns] at hentry
    have hrecord := run_onRecord harms hpast hentry
    by_cases hexpired : entry.expiresAtMs ≤ e₂.now
    · exact Or.inr ⟨p₂, e₂, [], rfl, .expired (hrecord.expires ▸ hexpired)⟩
    · refine Or.inl ⟨hasks, ?_⟩
      rw [PolicyRegistry.answer_of_lookup hasks hentry, if_neg hexpired, if_pos htaken,
        if_pos ⟨hsome, hsequence⟩, hpolicy]
  · rw [← hruns] at hentry hlost
    have hprefix : ∀ x ∈ p₁ ++ e₁ :: p, ∀ policy, x.arms pton ≠ some (key, policy) := by
      intro x hx
      refine hpast x ?_
      rw [heq]
      simp only [List.mem_append, List.mem_cons] at hx ⊢
      tauto
    have hrecord := run_onRecord harms hprefix hentry
    refine Or.inr ⟨p, x, q ++ [e₂], by simp [heq], ?_⟩
    cases hlost with
    | expired hexpired => exact .expired (hrecord.expires ▸ hexpired)
    | consumed hconsumes => exact .consumed hconsumes
    | cleared hclear => exact .cleared hclear
    | evicted hcrowds hloses =>
        rw [← run_concat (PolicyRegistry.step pton)] at hcrowds hloses
        exact .evicted hcrowds hloses

end

/-- Between two calls that arm a key its policy belongs to one segment. -/
theorem one_segment {pton : Dns.InetPton} {before between : List RegistryEvent} {a : RegistryEvent}
    {key : PeerKey} {armed : Policy} (harms : a.arms pton = some (key, armed))
    (hbetween : ∀ e ∈ between, ∀ policy, e.arms pton ≠ some (key, policy)) :
    OneSegment pton (before ++ [a]) between key armed a.now := by
  have hpart : ∀ p q, between = p ++ q → ∀ x ∈ p, ∀ policy, x.arms pton ≠ some (key, policy) :=
    fun p q heq x hx => hbetween x (heq ▸ List.mem_append_left q hx)
  refine ⟨?_, ?_, ?_, ?_⟩
  · intro p₁ e₁ p₂ e₂ p₃ sequence₁ sequence₂ policy₁ policy₂ heq h₁ h₂
    have hpast := hpart (p₁ ++ e₁ :: p₂) (e₂ :: p₃) (by simp [heq])
    obtain ⟨hsome, hsequence, hpolicy⟩ := (h₂.stage harms hpast).2 sequence₁ policy₁
      ⟨p₁, e₁, p₂, rfl, h₁⟩
    exact ⟨hsequence ▸ hsome, hsequence.symm, hpolicy.symm⟩
  · intro p₁ e p₂ sequence policy heq h
    obtain ⟨entry, -, hlive, hrecord⟩ := h.entry harms (hpart p₁ (e :: p₂) heq)
    exact ⟨hrecord.expires ▸ hlive, hrecord.kept⟩
  · intro p₁ e p₂ sequence policy heq h
    exact (h.stage harms (hpart p₁ (e :: p₂) heq)).1
  · intro p₁ e₁ p₂ e₂ p₃ sequence policy heq h hsome hasks
    exact h.again harms (hpart (p₁ ++ e₁ :: p₂) (e₂ :: p₃) (by simp [heq])) hsome hasks

/-- An AutoTTL policy, taken for a segment that is sent twice. -/
theorem one_segment_sample :
    let address := addressFromBytes [203, 0, 113, 8] false
    OneSegment Traffic.samplePton
      ([⟨.observeHop address 52000 120, 1000, fun _ => 0⟩] ++
        [⟨.arm (ofString "203.0.113.8") 52000 { mode := .fakeAutoTtl }, 1001, fun _ => 0⟩])
      [⟨.take address 52000 (some 777), 1002, fun _ => 0⟩,
        ⟨.take address 52000 (some 777), 4000, fun _ => 0⟩]
      (entryKey address 52000) { mode := .fakeAutoTtl } 1001 :=
  one_segment (by decide +kernel) fun e he policy => by
    simp only [List.mem_cons, List.not_mem_nil, or_false] at he
    rcases he with rfl | rfl <;> exact nofun

/-! ## A segment that is sent again in vain -/

/-- A policy was handed out for a segment and has neither expired nor been armed again, nor
has its report been fetched, and still the segment does not get it again. -/
structure InVain (pton : Dns.InetPton) (key : PeerKey) (sequence : Option ℕ)
    (a e₁ : RegistryEvent) (between : List RegistryEvent) (e₂ : RegistryEvent) : Prop where
  clock : (a :: e₁ :: (between ++ [e₂])).Pairwise fun x y => x.now ≤ y.now
  arms : ∃ armed, a.arms pton = some (key, armed)
  between_arms : ∀ x ∈ e₁ :: between, ∀ policy, x.arms pton ≠ some (key, policy)
  between_consumes : ∀ x ∈ e₁ :: between, x.consumes pton ≠ some key
  handed : ∃ policy, Handed pton [a] e₁ key sequence policy
  asks : e₂.asks pton = some (key, sequence)
  in_time : e₂.now < expiry key a.now (e₁ :: between)
  refused : ∀ policy, ¬ Handed pton (a :: e₁ :: between) e₂ key sequence policy

def sampleAddress : Bytes := addressFromBytes [203, 0, 113, 8] false

def armSample (sourcePort now : ℕ) : RegistryEvent :=
  ⟨.arm (ofString "203.0.113.8") sourcePort { mode := .reverseOrder }, now, fun _ => 0⟩

def takeSample (now : ℕ) : RegistryEvent := ⟨.take sampleAddress 1 (some 7), now, fun _ => 0⟩

def clearSample : RegistryEvent := ⟨.clear, 1001, fun _ => 0⟩

/-- Policies for one port after the other. -/
def armedFlood (n : ℕ) : List RegistryEvent := (List.range n).map fun i => armSample (i + 2) 1001

theorem armedFlood_succ (n : ℕ) :
    armedFlood (n + 1) = armedFlood n ++ [armSample (n + 2) 1001] := by
  rw [armedFlood, List.range_succ, List.map_append]
  rfl

theorem armSample_arms (sourcePort now : ℕ) (hport : sourcePort ≠ 0) :
    (armSample sourcePort now).arms Traffic.samplePton =
      some (entryKey sampleAddress sourcePort, { mode := .reverseOrder }) := by
  have haddress : parseAddress Traffic.samplePton (ofString "203.0.113.8") =
      some sampleAddress := by
    decide +kernel
  simp [armSample, RegistryEvent.arms, PolicyRegistry.armedKey, haddress, hport]

def floodedKey (i : ℕ) : PeerKey := entryKey sampleAddress (i + 2)

theorem floodedKey_injective : floodedKey.Injective := by
  intro i j h
  exact Nat.add_right_cancel (PeerKey.mk.inj h).2.1

theorem floodedKey_ne (i : ℕ) : floodedKey i ≠ entryKey sampleAddress 1 := by
  simp [floodedKey, entryKey]

namespace PolicyRegistry

/-- The policy of port 1 and those of `n` other ports, which were armed later. -/
def Flooded (n : ℕ) (r : PolicyRegistry) : Prop :=
  Filled Entry.expiresAtMs (entryKey sampleAddress 1) floodedKey 16000 16001 n r.policies

theorem Flooded.pruned {n now : ℕ} {r : PolicyRegistry} (h : r.Flooded n) (hnow : now < 16000) :
    (r.pruneIfDue now).policies = r.policies := by
  rw [pruneIfDue]
  split
  · rfl
  · exact Filled.swept h (by decide) hnow

/-- Before the next key goes in, room is made for it. -/
theorem Flooded.step_eq {n : ℕ} {r : PolicyRegistry} (h : r.Flooded n) :
    (r.step Traffic.samplePton (armSample (n + 2) 1001)).policies =
      (makeRoom maxEntries (fun e => e.expiresAtMs ≤ 1001) Entry.expiresAtMs (fun _ => 0)
        r.policies).insert (floodedKey n)
          { policy := { mode := .reverseOrder }, expiresAtMs := 1001 + policyTtlMs } := by
  have hnew : entryKey sampleAddress (n + 2) ∉ r.policies :=
    h.notMem floodedKey_injective floodedKey_ne
  have hnow : (armSample (n + 2) 1001).now = 1001 := rfl
  have hbucket : (armSample (n + 2) 1001).bucket = fun _ => 0 := rfl
  rw [step_armed (armSample_arms (n + 2) 1001 (by omega)), hnow, hbucket, h.pruned (by decide),
    roomFor, if_neg hnew, floodedKey]

theorem Flooded.step {n : ℕ} {r : PolicyRegistry} (h : r.Flooded n) (hroom : n + 1 < maxEntries) :
    (r.step Traffic.samplePton (armSample (n + 2) 1001)).Flooded (n + 1) := by
  rw [Flooded, h.step_eq, makeRoom, if_pos (by rw [h.size_eq]; exact hroom)]
  exact h.insert floodedKey_injective floodedKey_ne rfl

theorem run_flooded {n : ℕ} (hroom : n < maxEntries) :
    (run (PolicyRegistry.step Traffic.samplePton) {}
      (armSample 1 1000 :: takeSample 1000 :: armedFlood n)).Flooded n := by
  induction n with
  | zero =>
      have hpolicies : (run (PolicyRegistry.step Traffic.samplePton) {}
          (armSample 1 1000 :: takeSample 1000 :: armedFlood 0)).policies =
          (∅ : Table PeerKey Entry).insert (entryKey sampleAddress 1)
            { policy := { mode := .reverseOrder }, expiresAtMs := 16000, taken := true
              sequence := some 7 } := AList.ext (by decide +kernel)
      rw [Flooded, hpolicies]
      refine ⟨rfl, ⟨_, AList.lookup_insert _, rfl⟩, fun key e he hne => ?_, nofun⟩
      rw [AList.lookup_insert_ne hne] at he
      cases he
  | succ n ih =>
      rw [armedFlood_succ, ← List.cons_append, ← List.cons_append, run_concat]
      exact (ih (by omega)).step hroom

/-- The last port, for which there is no room, costs the first one its policy. -/
theorem flood_evicts :
    (run (PolicyRegistry.step Traffic.samplePton) {}
      (armSample 1 1000 :: takeSample 1000 :: armedFlood maxEntries)).policies.lookup
        (entryKey sampleAddress 1) = none := by
  obtain ⟨n, hfull⟩ : ∃ n, n + 1 = maxEntries := ⟨8191, rfl⟩
  have hflooded := run_flooded (show n < maxEntries by omega)
  rw [← hfull, armedFlood_succ, ← List.cons_append, ← List.cons_append, run_concat,
    hflooded.step_eq, hflooded.makeRoom_eq (by decide) (by decide) hfull,
    AList.lookup_insert_ne (floodedKey_ne n).symm, AList.lookup_erase]

end PolicyRegistry

theorem InVain.of_lookup {between : List RegistryEvent} (hnow : ∀ x ∈ between, x.now = 1001)
    (hother : ∀ x ∈ between, (∀ policy, x.arms Traffic.samplePton ≠
      some (entryKey sampleAddress 1, policy)) ∧ x.consumes Traffic.samplePton = none)
    (hlookup : (run (PolicyRegistry.step Traffic.samplePton) {}
      (armSample 1 1000 :: takeSample 1000 :: between)).policies.lookup
        (entryKey sampleAddress 1) = none) :
    InVain Traffic.samplePton (entryKey sampleAddress 1) (some 7) (armSample 1 1000)
      (takeSample 1000) between (takeSample 1002) := by
  have hlast : ∀ x ∈ between ++ [takeSample 1002], 1001 ≤ x.now := by
    intro x hx
    rcases List.mem_append.1 hx with hx | hx
    · exact (hnow x hx).ge
    · rw [List.mem_singleton.1 hx]
      exact show 1001 ≤ 1002 by decide
  have hclock : (between ++ [takeSample 1002]).Pairwise fun x y => x.now ≤ y.now := by
    refine List.pairwise_append.2 ⟨?_, List.pairwise_singleton _ _, fun x hx y hy => ?_⟩
    · exact List.pairwise_of_forall_mem_list fun x hx y hy => (hnow x hx).le.trans (hnow y hy).ge
    · rw [hnow x hx, List.mem_singleton.1 hy]
      exact show 1001 ≤ 1002 by decide
  have hlater : ∀ x ∈ takeSample 1000 :: (between ++ [takeSample 1002]), 1000 ≤ x.now := by
    intro x hx
    rcases List.mem_cons.1 hx with rfl | hx
    · exact le_refl 1000
    · exact (Nat.le_succ 1000).trans (hlast x hx)
  refine ⟨List.pairwise_cons.2 ⟨hlater, List.pairwise_cons.2 ⟨fun x hx => hlater x (by simp_all),
    hclock⟩⟩, ⟨_, armSample_arms 1 1000 (by decide)⟩, ?_, ?_, ?_, rfl, ?_, ?_⟩
  · intro x hx policy
    rcases List.mem_cons.1 hx with rfl | hx
    · exact nofun
    · exact (hother x hx).1 policy
  · intro x hx
    rcases List.mem_cons.1 hx with rfl | hx
    · exact nofun
    · rw [(hother x hx).2]
      exact nofun
  · exact ⟨{ mode := .reverseOrder }, rfl, by decide +kernel⟩
  · exact (show 1002 < 1000 + policyTtlMs by decide).trans_le (le_expiry _ _ _)
  · intro policy h
    obtain ⟨entry, hentry, -⟩ := PolicyRegistry.answer_eq_some h.asks h.answer
    rw [hlookup] at hentry
    cases hentry

/-- The table is cleared, or it is flooded with other policies. -/
theorem taken_in_vain :
    InVain Traffic.samplePton (entryKey sampleAddress 1) (some 7) (armSample 1 1000)
        (takeSample 1000) [clearSample] (takeSample 1002) ∧
      InVain Traffic.samplePton (entryKey sampleAddress 1) (some 7) (armSample 1 1000)
        (takeSample 1000) (armedFlood maxEntries) (takeSample 1002) := by
  constructor
  · refine InVain.of_lookup (fun x hx => ?_) (fun x hx => ?_) rfl
    · rw [List.mem_singleton.1 hx]
      rfl
    · rw [List.mem_singleton.1 hx]
      exact ⟨nofun, rfl⟩
  · refine InVain.of_lookup (fun x hx => ?_) (fun x hx => ?_) PolicyRegistry.flood_evicts
    · obtain ⟨i, -, rfl⟩ := List.mem_map.1 hx
      rfl
    · obtain ⟨i, -, rfl⟩ := List.mem_map.1 hx
      refine ⟨fun policy => ?_, rfl⟩
      rw [armSample_arms (i + 2) 1001 (by omega)]
      exact fun h => floodedKey_ne i (Prod.mk.inj (Option.some.inj h)).1

end Packet

end SplitHello
