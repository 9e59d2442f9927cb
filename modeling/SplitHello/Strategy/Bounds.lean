import SplitHello.Strategy.RoundTrip

/-!
# The bounds of the store

Three tables are filled by the loader and by the operations, each with its own rules for
what is clamped and for what makes way. `Represented latest s` is what holds of them
whatever the file said and whatever was called, with respect to the latest reading of the
two clocks. A new key that goes into the full table of entries displaces the expired
entries, or else the one that was verified longest ago.
-/

namespace SplitHello

namespace Strategy

open ByteString Tls Diagnosis KeyedTable Json History

/-- Neither clock goes back from one call to a later one. -/
def Clocked (calls : List Call) : Prop :=
  calls.Pairwise fun a b => a.now.wall ≤ b.now.wall ∧ a.now.mono ≤ b.now.mono

/-- The bounds of the three tables. A candidate lives on the monotonic clock once it was
struck, and on the wall clock as long as it only came from the file. -/
structure Represented (latest : Moment) (s : Store) : Prop where
  entries_le : size s.entries ≤ 1000
  candidates_le : size s.candidates ≤ 1000
  healthyAt_le : size s.healthyAt ≤ 4096
  entry : ∀ key e, s.entries.lookup key = some e →
    e.profile ∈ profileTable ∧ e.profile ≠ .none ∧ e.confidence ≤ 100 ∧
      e.expiresAt ≤ latest.wall + 7 * 24 * 60 * 60
  candidate : ∀ key c, s.candidates.lookup key = some c →
    c.profile ∈ profileTable ∧ c.profile ≠ .none ∧
      c.persistUntil ≤ latest.wall + 7 * 24 * 60 * 60 ∧
      c.expiresAt ≤ latest.mono + 6 * 60 * 60

/-! ## Health stamps -/

theorem learn_healthyAt (s : Store) (now : Moment) (key : Bytes) (profile : Profile)
    (kind : Kind) (confidence : ℕ) :
    (s.learn now key profile kind confidence).1.healthyAt = s.healthyAt := rfl

theorem strike_healthyAt (s : Store) (now : Moment) (key : Bytes) (profile : Profile)
    (confidence : ℕ) : (s.strike now key profile confidence).1.healthyAt = s.healthyAt := by
  rcases s.strike_cases now key profile confidence with
    ⟨-, heq⟩ | ⟨pending, -, -, ⟨-, heq⟩ | ⟨-, -, heq⟩ | ⟨-, -, heq⟩⟩
  · rw [heq]
  · rw [heq]
  · rw [heq]
  · rw [heq, learn_healthyAt]

theorem remember_healthyAt (s : Store) (now : Moment) (networkId host profileName : Bytes)
    (kind : Kind) (confidence : ℕ) :
    (s.remember now networkId host profileName kind confidence).1.healthyAt = s.healthyAt := by
  rcases s.remember_cases now networkId host profileName kind confidence with
    ⟨-, heq⟩ | ⟨-, profile, -, ⟨-, heq⟩ | ⟨-, heq⟩⟩
  · rw [heq]
  · rw [heq]
    rfl
  · rw [heq]
    rcases s.rememberProfile_cases now (scopeKey networkId host) profile kind confidence with
      hcase | ⟨e, -, hcase⟩ | ⟨e, -, hcase⟩ | ⟨-, hcase⟩ | ⟨-, hcase⟩
    · rw [hcase]
    · rw [hcase, Store.refresh]
      split <;> rfl
    · rw [hcase]
      rfl
    · rw [hcase, strike_healthyAt]
    · rw [hcase, learn_healthyAt]

theorem recordFailure_healthyAt (s : Store) (networkId host : Bytes) (profile : Profile) :
    (s.recordFailure networkId host profile).1.healthyAt = s.healthyAt := by
  rw [Store.recordFailure]
  split
  · rfl
  · dsimp only
    split <;> rfl

theorem probeOrder_healthyAt (s : Store) (now : Moment) (networkId host : Bytes)
    (hello : ClientHello) :
    (s.probeOrder now networkId host hello).1.healthyAt = s.healthyAt := by
  rw [Store.probeOrder]
  split
  · rfl
  · dsimp only
    split
    · split <;> rfl
    · split <;> rfl

theorem load_healthyAt (s : Store) (content : Bytes) (now : Moment) :
    (s.load content now).healthyAt = s.healthyAt := by
  rcases s.load_cases content now with heq | ⟨fuel, domains, heq⟩
  · rw [heq]
  · rw [heq]

theorem noteBaselineHealthy_healthyAt_le {s : Store} (hs : size s.healthyAt ≤ maxHealthyHosts)
    (now : Moment) (networkId host : Bytes) :
    size (s.noteBaselineHealthy now networkId host).1.healthyAt ≤ maxHealthyHosts := by
  rw [Store.noteBaselineHealthy]
  dsimp only
  cases h : s.healthyAt.lookup (scopeKey networkId host) with
  | none =>
      rw [if_pos (by rfl)]
      refine (size_insert_le _ _ _).trans ?_
      exact size_makeRoom_lt (by decide) _ _ _ hs
  | some t =>
      rw [if_neg (by simp), size_insert_of_lookup _ h]
      exact hs

theorem apply_healthyAt_le {s : Store} (hs : size s.healthyAt ≤ maxHealthyHosts) (call : Call) :
    size (s.apply call).healthyAt ≤ maxHealthyHosts := by
  obtain ⟨now, op⟩ := call
  cases op with
  | remember networkId host profileName kind confidence =>
      rw [Store.apply, remember_healthyAt]
      exact hs
  | noteBaselineHealthy networkId host =>
      exact noteBaselineHealthy_healthyAt_le hs now networkId host
  | recordFailure networkId host profile =>
      rw [Store.apply, recordFailure_healthyAt]
      exact hs
  | forget host => exact hs
  | clear => exact Nat.zero_le _
  | probeOrder networkId host hello =>
      rw [Store.apply, probeOrder_healthyAt]
      exact hs
  | load content =>
      rw [Store.apply, load_healthyAt]
      exact hs

/-! ## The life of a strike -/

/-- No strike outlives its candidate's time on the monotonic clock. -/
def StrikesBounded (mono : ℕ) (s : Store) : Prop :=
  ∀ key c, s.candidates.lookup key = some c → c.expiresAt ≤ mono + candidateTtlSeconds

theorem load_strikesBounded {mono : ℕ} {s : Store} (hs : StrikesBounded mono s) (content : Bytes)
    (now : Moment) : StrikesBounded mono (s.load content now) := by
  intro key c h
  rcases Store.load_candidate h with hprev | ⟨profile, persistUntil, rfl⟩
  · exact hs key c hprev
  · exact Nat.zero_le _

theorem StrikesBounded.apply {mono : ℕ} {s : Store} (hs : StrikesBounded mono s) {call : Call}
    (hcall : call.now.mono ≤ mono) : StrikesBounded mono (s.apply call) := by
  intro key c h
  cases Store.apply_candidateStep h with
  | kept hprev hcancel => exact hs key c hprev
  | @renewed c' profile hprev hcancel hne => exact hs key c' hprev
  | struck hstrikes hne hpersist =>
      rw [Candidate.struck]
      exact Nat.add_le_add_right hcall _
  | loaded hop hprev => exact load_strikesBounded hs _ _ key c hprev

theorem run_strikesBounded {mono : ℕ} (calls : List Call)
    (hcalls : ∀ call ∈ calls, call.now.mono ≤ mono) :
    StrikesBounded mono (run Store.apply {} calls) := by
  refine run_invariant Store.apply {}
    (fun calls s => (∀ call ∈ calls, call.now.mono ≤ mono) → StrikesBounded mono s)
    (fun _ key c h => by cases h) ?_ calls hcalls
  intro past s call ih hpast
  simp only [List.mem_append, List.mem_singleton] at hpast
  exact (ih fun c hc => hpast c (Or.inl hc)).apply (hpast call (Or.inr rfl))

theorem run_healthyAt_le (calls : List Call) :
    size (run Store.apply {} calls).healthyAt ≤ maxHealthyHosts :=
  run_invariant Store.apply {} (fun _ s => size s.healthyAt ≤ maxHealthyHosts) (Nat.zero_le _)
    (fun _ _ call hs => apply_healthyAt_le hs call) calls

/-- The bounds hold with respect to any clocks that no call has passed. -/
theorem run_represented (calls : List Call) (latest : Moment)
    (hcalls : ∀ call ∈ calls,
      call.now.wall ≤ latest.wall ∧ call.now.mono ≤ latest.mono) :
    Represented latest (run Store.apply {} calls) := by
  have hsound := run_sound calls fun call hcall => (hcalls call hcall).1
  have hstrikes := run_strikesBounded calls fun call hcall => (hcalls call hcall).2
  refine ⟨hsound.entries_le, hsound.candidates_le, run_healthyAt_le calls, ?_, ?_⟩
  · intro key e he
    have hentry := hsound.entry key e he
    exact ⟨mem_profileTable _, hentry.profile_ne, hentry.confidence_le, hentry.expiresAt_le⟩
  · intro key c hc
    have hcandidate := hsound.candidate key c hc
    exact ⟨mem_profileTable _, hcandidate.profile_ne, hcandidate.persistUntil_le,
      hstrikes key c hc⟩

theorem Clocked.le_latest {call : Call} {calls : List Call} (h : Clocked (call :: calls)) :
    ∀ c ∈ call :: calls, c.now.wall ≤ (calls.getLastD call).now.wall ∧
      c.now.mono ≤ (calls.getLastD call).now.mono := by
  induction calls generalizing call with
  | nil =>
      intro c hc
      rw [List.mem_singleton.1 hc]
      exact ⟨le_rfl, le_rfl⟩
  | cons next calls ih =>
      obtain ⟨hfirst, hrest⟩ := List.pairwise_cons.1 h
      have hlast := ih hrest
      intro c hc
      rw [List.getLastD_cons]
      rcases List.mem_cons.1 hc with rfl | hc
      · have hnext := hfirst next (by simp)
        have hle := hlast next (by simp)
        exact ⟨hnext.1.trans hle.1, hnext.2.trans hle.2⟩
      · exact hlast c hc

/-! ## What makes way -/

/-- A call other than a reload that leaves an entry for a key that had none. -/
def Inserts (s : Store) (call : Call) (key : Bytes) : Prop :=
  (∀ content, call.op ≠ .load content) ∧ s.entries.lookup key = none ∧
    ((s.apply call).entries.lookup key).isSome

theorem learn_entries_of_new {s : Store} {key : Bytes} (h : s.entries.lookup key = none)
    (now : Moment) (profile : Profile) (kind : Kind) (confidence : ℕ) :
    (s.learn now key profile kind confidence).1.entries =
      (s.makeRoomForEntry now).insert key (.winner now profile kind confidence) := by
  rw [Store.learn, h]
  rfl

/-- An entry for a new key goes into the table after room was made for it. -/
theorem Inserts.entries {s : Store} {call : Call} {key : Bytes} (h : Inserts s call key) :
    ∃ e, (s.apply call).entries = (s.makeRoomForEntry call.now).insert key e := by
  obtain ⟨hload, hnone, hsome⟩ := h
  obtain ⟨e, he⟩ := Option.isSome_iff_exists.1 hsome
  have hnew : ∀ e, s.entries.lookup key ≠ some e := by
    intro e he
    rw [hnone] at he
    cases he
  cases Store.apply_entryStep he with
  | kept hprev => exact absurd hprev (hnew _)
  | refreshed hprev => exact absurd hprev (hnew _)
  | reproven hprev => exact absurd hprev (hnew _)
  | degraded hprev => exact absurd hprev (hnew _)
  | claimed hop hkey hprev => exact absurd hprev (hnew _)
  | loaded hop hprev => exact absurd hop (hload _)
  | learned hop hne hkey houtcome =>
      obtain ⟨profile, kind, heq⟩ := Store.remember_eq_learn houtcome
      rw [Store.apply, hop]
      dsimp only
      rw [heq, hkey]
      exact ⟨_, learn_entries_of_new hnone _ _ _ _⟩

/-- What a new key displaces from a full table: the expired entries, or one entry that was
verified longest ago. -/
structure Displaces (s : Store) (call : Call) (key : Bytes) : Prop where
  expired : (∃ k e, s.entries.lookup k = some e ∧ e.expiresAt ≤ call.now.wall) →
    ∀ k, k ≠ key → (s.apply call).entries.lookup k =
      (s.entries.lookup k).filter fun e => call.now.wall < e.expiresAt
  oldest : (∀ k e, s.entries.lookup k = some e → call.now.wall < e.expiresAt) →
    ∃ victim e, s.entries.lookup victim = some e ∧
      (∀ k e', s.entries.lookup k = some e' → e.verifiedAt ≤ e'.verifiedAt) ∧
      ∀ k, k ≠ key → (s.apply call).entries.lookup k =
        if k = victim then none else s.entries.lookup k

theorem Inserts.displaces {s : Store} {call : Call} {key : Bytes} (h : Inserts s call key)
    (hfull : size s.entries = maxRememberedHosts) : Displaces s call key := by
  obtain ⟨e, hentries⟩ := h.entries
  constructor
  · rintro ⟨k, e', he', hexpired⟩ k' hne
    have hroom : s.makeRoomForEntry call.now =
        eraseIf (fun _ e => decide (e.expiresAt ≤ call.now.wall)) s.entries :=
      makeRoom_of_expired _ _ hfull he' (decide_eq_true hexpired)
    rw [hentries, AList.lookup_insert_ne hne, hroom, lookup_eraseIf]
    simp only [← decide_not, Nat.not_le]
  · intro hlive
    have hroom : s.makeRoomForEntry call.now =
        evictOldest Entry.verifiedAt call.now.bucket s.entries :=
      makeRoom_of_live _ _ hfull fun k e he =>
        decide_eq_false (Nat.not_le_of_lt (hlive k e he))
    obtain ⟨victim, e', he', holdest, hevict⟩ :=
      evictOldest_of_pos Entry.verifiedAt call.now.bucket
        (hfull.symm ▸ (by decide) : 0 < size s.entries)
    refine ⟨victim, e', he', holdest, ?_⟩
    intro k hne
    rw [hentries, AList.lookup_insert_ne hne, hroom, hevict, lookup_erase_eq]

/-- Whatever file the store was opened with and whatever was called since, on clocks that
do not go back, its tables keep their bounds, and the next call that inserts an entry for
a new key into the full table displaces what has expired, or else one entry that was
verified longest ago. -/
theorem representation_invariant (opened : Moment) (content : Bytes) (calls : List Call)
    (hclock : Clocked (⟨opened, .load content⟩ :: calls)) :
    let s := run Store.apply {} (⟨opened, .load content⟩ :: calls)
    Represented (calls.getLastD ⟨opened, .load content⟩).now s ∧
      ∀ call key, Inserts s call key → 1000 ≤ size s.entries → Displaces s call key := by
  intro s
  have hs : Represented (calls.getLastD ⟨opened, .load content⟩).now s :=
    run_represented _ _ hclock.le_latest
  refine ⟨hs, ?_⟩
  intro call key hinserts hfull
  exact hinserts.displaces (Nat.le_antisymm hs.entries_le hfull)

/-- A garbled file and two differentials a minute apart. -/
theorem representation_invariant_sample :
    let s := run Store.apply {} [⟨(sampleStrike 40 (by decide)).now, .load (ofString "\x7b")⟩,
      sampleStrike 100 (by decide), sampleStrike 160 (by decide)]
    Represented (sampleStrike 160 (by decide)).now s ∧
      ∀ call key, Inserts s call key → 1000 ≤ size s.entries → Displaces s call key :=
  representation_invariant (sampleStrike 40 (by decide)).now (ofString "\x7b")
    [sampleStrike 100 (by decide), sampleStrike 160 (by decide)]
    (by simp [Clocked, sampleStrike])

end Strategy

end SplitHello
