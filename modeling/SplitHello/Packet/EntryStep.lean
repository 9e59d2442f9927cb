import SplitHello.Packet.Capacity

/-!
# What becomes of an armed policy

What can become of the entry of a key in one call is said once, by `Stays` and `Lost`.
A call on another key leaves the entry alone unless it crowds it out; a call on the key
itself hands the policy out, reports on it or takes the entry away. Nothing but `arm`
brings a key in.
-/

namespace SplitHello

namespace Packet

open ByteString KeyedTable History Transparent

namespace PolicyRegistry

/-- What an entry that is still there has become. -/
inductive Stays (pton : Dns.InetPton) (r : PolicyRegistry) (e : RegistryEvent) (key : PeerKey)
    (entry : Entry) : Entry → Prop
  | same (hasks : ∀ sequence, e.asks pton ≠ some (key, sequence)) (hnotes : e.notes ≠ some key) :
      Stays pton r e key entry entry
  | noted (hnotes : e.notes = some key) :
      Stays pton r e key entry { entry with
        applied := true, expiresAtMs := max entry.expiresAtMs (e.now + appliedTtlMs) }
  | again {sequence : Option ℕ} (hasks : e.asks pton = some (key, sequence))
      (htaken : entry.taken = true) (hanswer : r.answer pton e =
        if sequence.isSome ∧ entry.sequence = sequence then some entry.policy else none) :
      Stays pton r e key entry entry
  | first {sequence : Option ℕ} (hasks : e.asks pton = some (key, sequence))
      (htaken : entry.taken = false)
      (hanswer : r.answer pton e = some (r.settleTtl key entry.policy e.now)) :
      Stays pton r e key entry { entry with
        taken := true
        sequence := if sequence.isSome then sequence else entry.sequence
        policy := r.settleTtl key entry.policy e.now }

/-- Why an entry is gone. -/
inductive Lost (pton : Dns.InetPton) (r : PolicyRegistry) (e : RegistryEvent) (key : PeerKey)
    (entry : Entry) : Prop
  | expired (h : entry.expiresAtMs ≤ e.now)
  | consumed (h : e.consumes pton = some key)
  | cleared (h : e.call = .clear)
  | evicted {key' : PeerKey}
      (hcrowds : Crowds maxEntries Entry.expiresAtMs e.now r.policies (r.step pton e).policies key')
      (hloses : LosesOne Entry.expiresAtMs r.policies (r.step pton e).policies key' key)

section

variable {pton : Dns.InetPton} {r : PolicyRegistry} {e : RegistryEvent} {key : PeerKey}
  {entry : Entry}

theorem take_of_lookup {target : Bytes} {sourcePort : ℕ} {sequence : Option ℕ} {now : ℕ}
    (hentry : r.policies.lookup (entryKey target sourcePort) = some entry) :
    r.take target sourcePort sequence now =
      if entry.expiresAtMs ≤ now then
        ({ r with policies := r.policies.erase (entryKey target sourcePort) }, none)
      else if entry.taken then
        (r, if sequence.isSome ∧ entry.sequence = sequence then some entry.policy else none)
      else
        ({ r with policies := r.policies.insert (entryKey target sourcePort) { entry with
            taken := true
            sequence := if sequence.isSome then sequence else entry.sequence
            policy := r.settleTtl (entryKey target sourcePort) entry.policy now } },
          some (r.settleTtl (entryKey target sourcePort) entry.policy now)) := by
  rw [take]
  dsimp only
  rw [hentry]
  dsimp only
  split
  · rfl
  · split
    · split <;> rfl
    · rfl

theorem noteApplied_of_lookup {target : Bytes} {sourcePort now : ℕ}
    (hentry : r.policies.lookup (entryKey target sourcePort) = some entry) :
    r.noteApplied target sourcePort now =
      { r with policies := r.policies.insert (entryKey target sourcePort) { entry with
          applied := true, expiresAtMs := max entry.expiresAtMs (now + appliedTtlMs) } } := by
  rw [noteApplied]
  dsimp only
  rw [hentry]

/-- The entries of other keys are there as they were, or they are not there. -/
theorem step_shrinks (hkey : e.policyKey pton ≠ some key) {entry' : Entry}
    (h : (r.step pton e).policies.lookup key = some entry') :
    r.policies.lookup key = some entry' := by
  have hsweep := (r.pruneIfDue_policies e.now).shrinks
  have heffect := step_effect pton r e
  generalize r.step pton e = r' at heffect h
  cases heffect with
  | armed harms =>
      rw [policyKey_of_arms harms] at hkey
      rw [AList.lookup_insert_ne fun heq => hkey (congrArg some heq.symm)] at h
      exact hsweep _ _ (roomFor_shrinks _ _ _ _ _ _ _ h)
  | sampled hsamples => exact hsweep _ _ h
  | asked hasks hcall =>
      rename_i target sourcePort sequence
      rw [policyKey_of_asks hasks] at hkey
      have hne : key ≠ entryKey target sourcePort := fun heq => hkey (congrArg some heq.symm)
      rw [take] at h
      dsimp only at h
      split at h
      · exact h
      · split at h
        · exact (lookup_erase_cases h).2
        · split at h
          · split at h <;> exact h
          · rw [AList.lookup_insert_ne hne] at h
            exact h
  | noted hnotes =>
      rename_i target sourcePort
      rw [policyKey_of_notes hnotes] at hkey
      have hne : key ≠ entryKey target sourcePort := fun heq => hkey (congrArg some heq.symm)
      rw [noteApplied] at h
      dsimp only at h
      split at h
      · exact h
      · rw [AList.lookup_insert_ne hne] at h
        exact h
  | consumed hconsumes => exact erase_shrinks _ _ _ _ h
  | cleared hclear => cases h
  | none hnone hsamples => exact h

/-- An entry of another key stays the same or is lost. -/
theorem step_other (hr : r.Bounded) (hentry : r.policies.lookup key = some entry)
    (hkey : e.policyKey pton ≠ some key) :
    (r.step pton e).policies.lookup key = some entry ∨
      (r.step pton e).policies.lookup key = none ∧ Lost pton r e key entry := by
  cases hafter : (r.step pton e).policies.lookup key with
  | some entry' => exact Or.inl ((step_shrinks hkey hafter).symm.trans hentry)
  | none =>
      refine Or.inr ⟨rfl, ?_⟩
      by_cases hclear : e.call = .clear
      · exact .cleared hclear
      by_cases hexpired : entry.expiresAtMs ≤ e.now
      · exact .expired hexpired
      have hfrugal := (step_effect pton r e).policies_frugal hr hclear
      rcases hfrugal.kept key entry hkey hentry (Nat.lt_of_not_le hexpired) with
        hkept | ⟨key', htouched, hcrowds⟩
      · rw [hafter] at hkept
        cases hkept
      · obtain ⟨lost, hloses⟩ := hfrugal.loses key' htouched hcrowds
        by_cases hlost : key = lost
        · subst hlost
          exact .evicted hcrowds hloses
        · have hne : key ≠ key' := fun heq => hkey (heq ▸ htouched)
          have hsame := hloses.others key hlost hne
          rw [hafter, hentry] at hsame
          cases hsame

theorem call_of_asks {sequence : Option ℕ} (h : e.asks pton = some (key, sequence)) :
    ∃ target sourcePort, key = entryKey target sourcePort ∧
      r.call pton e = r.take target sourcePort sequence e.now := by
  obtain ⟨call, now, bucket⟩ := e
  cases call with
  | takeText targetAddress sourcePort =>
      obtain ⟨address, haddress, heq⟩ := Option.map_eq_some_iff.1 h
      cases heq
      refine ⟨address, sourcePort, rfl, ?_⟩
      rw [PolicyRegistry.call]
      dsimp only
      rw [takeText, haddress]
  | take target sourcePort sequence =>
      cases h
      exact ⟨target, sourcePort, rfl, rfl⟩
  | _ => cases h

theorem step_of_notes (pton : Dns.InetPton) (r : PolicyRegistry) (h : e.notes = some key) :
    ∃ target sourcePort, key = entryKey target sourcePort ∧
      r.step pton e = r.noteApplied target sourcePort e.now := by
  obtain ⟨call, now, bucket⟩ := e
  cases call with
  | noteApplied target sourcePort =>
      cases h
      exact ⟨target, sourcePort, rfl, rfl⟩
  | _ => cases h

theorem step_of_consumes (h : e.consumes pton = some key) :
    r.step pton e = { r with policies := r.policies.erase key } := by
  obtain ⟨call, now, bucket⟩ := e
  cases call with
  | consumeApplied targetAddress sourcePort =>
      obtain ⟨address, haddress, rfl⟩ := Option.map_eq_some_iff.1 h
      exact consumeApplied_policies r pton haddress sourcePort now
  | _ => cases h

/-- The calls on a key other than `arm`. -/
theorem touches_of_policyKey (hkey : e.policyKey pton = some key)
    (harms : ∀ policy, e.arms pton ≠ some (key, policy)) :
    (∃ sequence, e.asks pton = some (key, sequence)) ∨ e.notes = some key ∨
      e.consumes pton = some key := by
  cases harmed : e.arms pton with
  | some armed =>
      obtain ⟨key', policy⟩ := armed
      rw [policyKey_of_arms harmed, Option.some.injEq] at hkey
      subst hkey
      exact absurd harmed (harms policy)
  | none =>
      cases hasked : e.asks pton with
      | some asked =>
          obtain ⟨key', sequence⟩ := asked
          rw [policyKey_of_asks hasked, Option.some.injEq] at hkey
          exact Or.inl ⟨sequence, by rw [hkey]⟩
      | none =>
          cases hnoted : e.notes with
          | some noted =>
              rw [policyKey_of_notes hnoted] at hkey
              exact Or.inr (Or.inl hkey)
          | none =>
              rw [RegistryEvent.policyKey, harmed, hasked, hnoted] at hkey
              exact Or.inr (Or.inr hkey)

/-- What one call does to an entry unless it arms its key again. -/
theorem step_entry (hr : r.Bounded) (hentry : r.policies.lookup key = some entry)
    (harms : ∀ policy, e.arms pton ≠ some (key, policy)) :
    (∃ entry', (r.step pton e).policies.lookup key = some entry' ∧
        Stays pton r e key entry entry') ∨
      (r.step pton e).policies.lookup key = none ∧ Lost pton r e key entry := by
  by_cases hkey : e.policyKey pton = some key
  · rcases touches_of_policyKey hkey harms with ⟨sequence, hasks⟩ | hnotes | hconsumes
    · obtain ⟨target, sourcePort, rfl, hcall⟩ := call_of_asks (r := r) hasks
      have hanswer := congrArg Prod.snd hcall
      rw [step, hcall]
      rw [take_of_lookup hentry] at hanswer ⊢
      by_cases hexpired : entry.expiresAtMs ≤ e.now
      · rw [if_pos hexpired]
        exact Or.inr ⟨AList.lookup_erase _ _, .expired hexpired⟩
      rw [if_neg hexpired] at hanswer ⊢
      by_cases htaken : entry.taken = true
      · rw [if_pos htaken] at hanswer ⊢
        exact Or.inl ⟨entry, hentry, .again hasks htaken hanswer⟩
      · rw [if_neg htaken] at hanswer ⊢
        exact Or.inl ⟨_, AList.lookup_insert _,
          .first hasks (Bool.not_eq_true _ ▸ htaken) hanswer⟩
    · obtain ⟨target, sourcePort, rfl, hstep⟩ := step_of_notes pton r hnotes
      rw [hstep, noteApplied_of_lookup hentry]
      exact Or.inl ⟨_, AList.lookup_insert _, .noted hnotes⟩
    · rw [step_of_consumes hconsumes]
      exact Or.inr ⟨AList.lookup_erase _ _, .consumed hconsumes⟩
  · rcases step_other hr hentry hkey with hsame | hlost
    · refine Or.inl ⟨entry, hsame, .same (fun sequence hasks => ?_) fun hnotes => ?_⟩
      · exact hkey (policyKey_of_asks hasks)
      · exact hkey (policyKey_of_notes hnotes)
    · exact Or.inr hlost

/-- A key that is not there comes in only by a call of `arm`. -/
theorem step_absent (hnone : r.policies.lookup key = none)
    (harms : ∀ policy, e.arms pton ≠ some (key, policy)) :
    (r.step pton e).policies.lookup key = none := by
  by_cases hkey : e.policyKey pton = some key
  · rcases touches_of_policyKey hkey harms with ⟨sequence, hasks⟩ | hnotes | hconsumes
    · obtain ⟨target, sourcePort, rfl, hcall⟩ := call_of_asks (r := r) hasks
      rw [step, hcall, take]
      dsimp only
      rw [hnone]
      exact hnone
    · obtain ⟨target, sourcePort, rfl, hstep⟩ := step_of_notes pton r hnotes
      rw [hstep, noteApplied]
      dsimp only
      rw [hnone]
      exact hnone
    · rw [step_of_consumes hconsumes]
      exact AList.lookup_erase _ _
  · cases hafter : (r.step pton e).policies.lookup key with
    | none => rfl
    | some entry' =>
        rw [step_shrinks hkey hafter] at hnone
        cases hnone

/-- After a call that fetches the report of a key, or clears the table, the key is gone. -/
theorem kept_of_lookup {entry' : Entry} (h : (r.step pton e).policies.lookup key = some entry') :
    e.consumes pton ≠ some key ∧ e.call ≠ .clear := by
  refine ⟨fun hconsumes => ?_, fun hclear => ?_⟩
  · rw [step_of_consumes hconsumes, AList.lookup_erase] at h
    cases h
  · obtain ⟨call, now, bucket⟩ := e
    cases hclear
    cases h

theorem answer_of_lookup {sequence : Option ℕ} (hasks : e.asks pton = some (key, sequence))
    (hentry : r.policies.lookup key = some entry) :
    r.answer pton e =
      if entry.expiresAtMs ≤ e.now then none
      else if entry.taken then
        if sequence.isSome ∧ entry.sequence = sequence then some entry.policy else none
      else some (r.settleTtl key entry.policy e.now) := by
  obtain ⟨target, sourcePort, rfl, hcall⟩ := call_of_asks (r := r) hasks
  rw [answer, hcall, take_of_lookup hentry]
  split
  · rfl
  · split <;> rfl

/-- The entry that a policy has just been handed out of. -/
theorem step_of_answer {sequence : Option ℕ} (hasks : e.asks pton = some (key, sequence))
    (hsome : sequence.isSome) {policy : Policy} (h : r.answer pton e = some policy) :
    ∃ entry', (r.step pton e).policies.lookup key = some entry' ∧ entry'.taken = true ∧
      entry'.sequence = sequence ∧ entry'.policy = policy := by
  obtain ⟨target, sourcePort, rfl, hcall⟩ := call_of_asks (r := r) hasks
  cases hentry : r.policies.lookup (entryKey target sourcePort) with
  | none =>
      rw [answer, hcall, take] at h
      dsimp only at h
      rw [hentry] at h
      cases h
  | some entry =>
      have hanswer := (answer_of_lookup hasks hentry).symm.trans h
      rw [step, hcall, take_of_lookup hentry]
      split at hanswer
      · cases hanswer
      · rename_i hlive
        rw [if_neg hlive]
        split at hanswer
        · rename_i htaken
          rw [if_pos htaken]
          obtain ⟨⟨-, hsequence⟩, hpolicy⟩ := Option.ite_none_right_eq_some.1 hanswer
          exact ⟨entry, hentry, htaken, hsequence, Option.some.inj hpolicy⟩
        · rename_i htaken
          rw [if_neg htaken]
          exact ⟨_, AList.lookup_insert _, rfl, if_pos hsome, Option.some.inj hanswer⟩

/-- A policy is handed out of an entry that has not expired. -/
theorem answer_eq_some {sequence : Option ℕ} (hasks : e.asks pton = some (key, sequence))
    {policy : Policy} (h : r.answer pton e = some policy) :
    ∃ entry, r.policies.lookup key = some entry ∧ e.now < entry.expiresAtMs := by
  obtain ⟨target, sourcePort, rfl, hcall⟩ := call_of_asks (r := r) hasks
  rw [answer, hcall] at h
  cases hentry : r.policies.lookup (entryKey target sourcePort) with
  | none =>
      rw [take] at h
      dsimp only at h
      rw [hentry] at h
      cases h
  | some entry =>
      refine ⟨entry, rfl, Nat.lt_of_not_le fun hexpired => ?_⟩
      rw [take_of_lookup hentry, if_pos hexpired] at h
      cases h

end

end PolicyRegistry

end Packet

end SplitHello
