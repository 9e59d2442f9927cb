import SplitHello.Strategy.File
import Mathlib.Data.List.DropRight

/-!
# What one call does to the store

Two descriptions, one for each learned table. `EntryStep` lists every way the
entry of a key can look after a call, `CandidateStep` every way its candidate
can; both are complete, so an invariant of the store is a case analysis on
them and never looks into the operations again.
-/

namespace SplitHello

namespace Strategy

open ByteString Tls Diagnosis KeyedTable

theorem lowerByte_eq_dot (b : UInt8) : lowerByte b = 46 ↔ b = 46 := by
  by_cases h : 65 ≤ b ∧ b ≤ 90
  · rw [lowerByte, if_pos h]
    simp only [UInt8.le_iff_toNat_le, ← UInt8.toNat_inj, UInt8.toNat_add] at h ⊢
    simp at h ⊢
    omega
  · rw [lowerByte, if_neg h]

theorem normalizeHost_normalizeHost (host : Bytes) :
    normalizeHost (normalizeHost host) = normalizeHost host := by
  have hdots : (fun b => decide (b = 46)) ∘ lowerByte = fun b => decide (b = 46) := by
    funext b
    simp [lowerByte_eq_dot]
  have hlower (l : Bytes) : (lower l).reverse.dropWhile (· = 46) =
      lower (l.reverse.dropWhile (· = 46)) := by
    rw [lower, ← List.map_reverse, List.dropWhile_map, hdots, lower]
  rw [normalizeHost, normalizeHost, hlower, List.reverse_reverse, List.dropWhile_idempotent]
  rw [lower, lower, ← List.map_reverse, List.map_map]
  congr 1
  funext b
  exact lowerByte_idem b

@[simp] theorem scopeKey_normalizeHost (networkId host : Bytes) :
    scopeKey networkId (normalizeHost host) = scopeKey networkId host := by
  rw [scopeKey, scopeKey, normalizeHost_normalizeHost]

theorem liveEntry_eq_some {s : Store} {key : Bytes} {now : Moment} {e : Entry} :
    s.liveEntry key now = some e ↔
      s.entries.lookup key = some e ∧ now.wall < e.expiresAt := by
  simp [Store.liveEntry, Option.filter_eq_some_iff]

/-- A differential for a key: another profile won where the baseline failed. -/
def Strikes (key : Bytes) (call : Call) : Prop :=
  ∃ networkId host profileName profile confidence,
    call.op = .remember networkId host profileName .sniInterferenceLikely confidence ∧
      findProfile profileName = some profile ∧ profile ≠ .none ∧
      normalizeHost host ≠ [] ∧ scopeKey networkId host = key

/-- A call that takes back what is pending for a key: the baseline was seen to
work, or the user asked for it. -/
def Cancels (key : Bytes) (call : Call) : Prop :=
  match call.op with
  | .noteBaselineHealthy networkId host => scopeKey networkId host = key
  | .remember networkId host profileName _ _ =>
      profileName = Profile.none.name ∧ normalizeHost host ≠ [] ∧ scopeKey networkId host = key
  | .forget host => (ofString "|" ++ normalizeHost host).isSuffixOf key
  | .clear => True
  | _ => False

/-- The ways the entry of a key can look after a call. -/
inductive EntryStep (s : Store) (call : Call) (key : Bytes) : Entry → Prop
  | kept {e : Entry} (h : s.entries.lookup key = some e) : EntryStep s call key e
  | refreshed {e : Entry} (h : s.entries.lookup key = some e) :
      EntryStep s call key { e with failures := 0 }
  | reproven {e : Entry} (h : s.entries.lookup key = some e)
      (hlive : call.now.wall < e.expiresAt) (kind : Kind) (confidence : ℕ) :
      EntryStep s call key (e.reproven call.now kind confidence)
  | learned {networkId host profileName : Bytes} {profile : Profile} {kind : Kind}
      {confidence : ℕ} (hop : call.op = .remember networkId host profileName kind confidence)
      (hne : profile ≠ .none) (hkey : scopeKey networkId host = key)
      (houtcome :
        (s.remember call.now networkId host profileName kind confidence).2.1 = .learned) :
      EntryStep s call key (Entry.winner call.now profile kind confidence)
  | degraded {e : Entry} (h : s.entries.lookup key = some e) :
      EntryStep s call key
        { e with failures := (e.failures + 1) % 2 ^ 32, confidence := e.confidence - 20 }
  | claimed {e : Entry} {networkId host : Bytes} {hello : ClientHello}
      (hop : call.op = .probeOrder networkId host hello) (hkey : scopeKey networkId host = key)
      (h : s.entries.lookup key = some e) :
      EntryStep s call key { e with reverifyStartedAt := call.now.mono }
  | loaded {e : Entry} {content : Bytes} (hop : call.op = .load content)
      (h : (s.load content call.now).entries.lookup key = some e) : EntryStep s call key e

/-- The ways the candidate of a key can look after a call. -/
inductive CandidateStep (s : Store) (call : Call) (key : Bytes) : Candidate → Prop
  | kept {c : Candidate} (h : s.candidates.lookup key = some c) (hcall : ¬ Cancels key call) :
      CandidateStep s call key c
  | renewed {c : Candidate} {profile : Profile} (h : s.candidates.lookup key = some c)
      (hcall : ¬ Cancels key call) (hne : profile ≠ .none) :
      CandidateStep s call key { c with profile }
  | struck {profile : Profile} {persistUntil : ℕ} (hcall : Strikes key call)
      (hne : profile ≠ .none)
      (hpersist : persistUntil = 0 ∨
        ∃ c, s.candidates.lookup key = some c ∧ c.persistUntil = persistUntil) :
      CandidateStep s call key (.struck call.now profile persistUntil)
  | loaded {c : Candidate} {content : Bytes} (hop : call.op = .load content)
      (h : (s.load content call.now).candidates.lookup key = some c) :
      CandidateStep s call key c

namespace Store

/-! ## The branches of `remember` -/

theorem remember_cases (s : Store) (now : Moment) (networkId host profileName : Bytes)
    (kind : Kind) (confidence : ℕ) :
    (findProfile profileName = none ∨ normalizeHost host = []) ∧
        s.remember now networkId host profileName kind confidence = (s, .ignored, false) ∨
      normalizeHost host ≠ [] ∧ ∃ profile, findProfile profileName = some profile ∧
        (profile = .none ∧
            s.remember now networkId host profileName kind confidence =
              s.retire (scopeKey networkId host) ∨
          profile ≠ .none ∧
            s.remember now networkId host profileName kind confidence =
              s.rememberProfile now (scopeKey networkId host) profile kind confidence) := by
  rw [remember]
  cases findProfile profileName with
  | none => exact Or.inl ⟨Or.inl rfl, rfl⟩
  | some profile =>
      by_cases hhost : normalizeHost host = []
      · left
        simp [hhost]
      · right
        refine ⟨hhost, profile, rfl, ?_⟩
        by_cases hprofile : profile = .none
        · left
          simp [hhost, hprofile]
        · right
          simp [hhost, hprofile]

theorem rememberProfile_cases (s : Store) (now : Moment) (key : Bytes) (profile : Profile)
    (kind : Kind) (confidence : ℕ) :
    s.rememberProfile now key profile kind confidence = (s, .ignored, false) ∨
      (∃ e, s.liveEntry key now = some e ∧
        s.rememberProfile now key profile kind confidence = s.refresh key e) ∨
      (∃ e, s.liveEntry key now = some e ∧
        s.rememberProfile now key profile kind confidence =
          s.reverify now key e kind confidence) ∨
      (kind = .sniInterferenceLikely ∧
          (s.liveEntry key now).map Entry.profile ≠ some profile) ∧
        s.rememberProfile now key profile kind confidence =
          s.strike now key profile confidence ∨
      (kind ≠ .transientFailure ∧ kind ≠ .learnedProfile ∧ kind ≠ .sniInterferenceLikely) ∧
        s.rememberProfile now key profile kind confidence =
          s.learn now key profile kind confidence := by
  rw [rememberProfile]
  by_cases htransient : kind = .transientFailure
  · left
    rw [if_pos htransient]
  · rw [if_neg htransient]
    cases hlive : (s.liveEntry key now).filter fun e => e.profile = profile with
    | some e =>
        have he := (Option.filter_eq_some_iff.1 hlive).1
        by_cases hlearned : kind = .learnedProfile
        · exact Or.inr (Or.inl ⟨e, he, if_pos hlearned⟩)
        · exact Or.inr (Or.inr (Or.inl ⟨e, he, if_neg hlearned⟩))
    | none =>
        by_cases hlearned : kind = .learnedProfile
        · exact Or.inl (if_pos hlearned)
        · by_cases hsni : kind = .sniInterferenceLikely
          · have hnew : (s.liveEntry key now).map Entry.profile ≠ some profile := by
              simpa [Option.filter_eq_none_iff] using hlive
            refine Or.inr (Or.inr (Or.inr (Or.inl ⟨⟨hsni, hnew⟩, ?_⟩)))
            simp [hsni]
          · refine Or.inr (Or.inr (Or.inr (Or.inr ⟨⟨htransient, hlearned, hsni⟩, ?_⟩)))
            simp [hlearned, hsni]

/-- A strike nominates, counts for a candidate of the file, is too early, or
confirms. -/
theorem strike_cases (s : Store) (now : Moment) (key : Bytes) (profile : Profile)
    (confidence : ℕ) :
    (s.candidates.lookup key).filter (candidateLive · now) = none ∧
        s.strike now key profile confidence =
          ({ s with
              candidates := (makeRoomForCandidate (s.candidates.erase key) now).insert key
                (.struck now profile 0) }, .candidate, false) ∨
      ∃ pending, s.candidates.lookup key = some pending ∧ candidateLive pending now ∧
        (pending.firstStrikeAt = 0 ∧
            s.strike now key profile confidence =
              ({ s with
                  candidates := s.candidates.insert key
                    (.struck now profile pending.persistUntil) }, .candidate, false) ∨
          pending.firstStrikeAt ≠ 0 ∧ now.mono < pending.firstStrikeAt + confirmMinGapSeconds ∧
            s.strike now key profile confidence =
              ({ s with candidates := s.candidates.insert key { pending with profile } },
                .candidate, false) ∨
          pending.firstStrikeAt ≠ 0 ∧ pending.firstStrikeAt + confirmMinGapSeconds ≤ now.mono ∧
            s.strike now key profile confidence =
              s.learn now key profile .sniInterferenceLikely confidence) := by
  rw [strike]
  cases hpending : (s.candidates.lookup key).filter (candidateLive · now) with
  | none => exact Or.inl ⟨rfl, rfl⟩
  | some pending =>
      obtain ⟨hlookup, hlive⟩ := Option.filter_eq_some_iff.1 hpending
      refine Or.inr ⟨pending, hlookup, hlive, ?_⟩
      by_cases hfirst : pending.firstStrikeAt = 0
      · left
        simp [hfirst]
      · by_cases hearly : now.mono < pending.firstStrikeAt + confirmMinGapSeconds
        · right
          left
          refine ⟨hfirst, hearly, ?_⟩
          simp [hfirst, hearly]
        · right
          right
          refine ⟨hfirst, Nat.le_of_not_lt hearly, ?_⟩
          simp [hfirst, hearly]

/-! ## Entries -/

theorem learn_entries {s : Store} {now : Moment} {key key' : Bytes} {profile : Profile}
    {kind : Kind} {confidence : ℕ} {e : Entry}
    (h : (s.learn now key profile kind confidence).1.entries.lookup key' = some e) :
    key' = key ∧ e = Entry.winner now profile kind confidence ∨
      s.entries.lookup key' = some e := by
  rw [learn] at h
  rcases lookup_insert_cases h with h | ⟨-, h⟩
  · exact Or.inl h
  · right
    split at h
    · exact makeRoom_shrinks _ _ _ _ _ _ _ h
    · exact h

/-- A strike touches the entries only when it confirms. -/
theorem strike_entries {s : Store} {now : Moment} {key key' : Bytes} {profile : Profile}
    {confidence : ℕ} {e : Entry}
    (h : (s.strike now key profile confidence).1.entries.lookup key' = some e) :
    key' = key ∧ e = Entry.winner now profile .sniInterferenceLikely confidence ∧
        (s.strike now key profile confidence).2.1 = .learned ∨
      s.entries.lookup key' = some e := by
  rcases strike_cases s now key profile confidence with ⟨-, heq⟩ | ⟨pending, -, -, hcases⟩
  · rw [heq] at h
    exact Or.inr h
  · rcases hcases with ⟨-, heq⟩ | ⟨-, -, heq⟩ | ⟨-, -, heq⟩
    · rw [heq] at h
      exact Or.inr h
    · rw [heq] at h
      exact Or.inr h
    · rw [heq] at h ⊢
      rcases learn_entries h with ⟨hkey, he⟩ | h
      · exact Or.inl ⟨hkey, he, rfl⟩
      · exact Or.inr h

theorem refresh_entries {s : Store} {key key' : Bytes} {entry e : Entry}
    (hentry : s.entries.lookup key = some entry)
    (h : (s.refresh key entry).1.entries.lookup key' = some e) :
    s.entries.lookup key' = some e ∨
      ∃ e', s.entries.lookup key' = some e' ∧ e = { e' with failures := 0 } := by
  rw [refresh] at h
  split at h
  · rcases lookup_insert_cases h with ⟨rfl, he⟩ | ⟨-, h⟩
    · exact Or.inr ⟨entry, hentry, he⟩
    · exact Or.inl h
  · exact Or.inl h

/-- What a call reports is what it did: it learned a winner, it re-proved the one it found,
or it left every winner as it was, but for the failures. -/
theorem remember_outcomes (s : Store) (now : Moment) (networkId host profileName : Bytes)
    (kind : Kind) (confidence : ℕ) :
    let r := s.remember now networkId host profileName kind confidence
    let key := scopeKey networkId host
    (r.2.1 = .learned ∧ ∃ profile kind', r = s.learn now key profile kind' confidence) ∨
      (r.2.1 = .reverified ∧ ∃ e, s.entries.lookup key = some e ∧
        r = s.reverify now key e kind confidence) ∨
      (r.2.1 ≠ .learned ∧ r.2.1 ≠ .reverified) ∧ ∀ key' e, r.1.entries.lookup key' = some e →
        s.entries.lookup key' = some e ∨
          ∃ e', s.entries.lookup key' = some e' ∧ e = { e' with failures := 0 } := by
  dsimp only
  rcases s.remember_cases now networkId host profileName kind confidence with
    ⟨-, heq⟩ | ⟨-, profile, -, ⟨-, heq⟩ | ⟨-, heq⟩⟩
  · rw [heq]
    exact Or.inr (Or.inr ⟨⟨by simp, by simp⟩, fun _ _ h => Or.inl h⟩)
  · rw [heq, retire]
    refine Or.inr (Or.inr ⟨?_, fun _ _ h => Or.inl (lookup_erase_cases h).2⟩)
    dsimp only
    split <;> exact ⟨by simp, by simp⟩
  · rcases s.rememberProfile_cases now (scopeKey networkId host) profile kind confidence with
      hcase | ⟨e, hlive, hcase⟩ | ⟨e, hlive, hcase⟩ | ⟨-, hcase⟩ | ⟨-, hcase⟩
    · rw [heq, hcase]
      exact Or.inr (Or.inr ⟨⟨by simp, by simp⟩, fun _ _ h => Or.inl h⟩)
    · rw [heq, hcase]
      refine Or.inr (Or.inr ⟨?_, fun _ _ h => refresh_entries (liveEntry_eq_some.1 hlive).1 h⟩)
      rw [refresh]
      split <;> exact ⟨by simp, by simp⟩
    · rw [heq, hcase]
      exact Or.inr (Or.inl ⟨rfl, e, (liveEntry_eq_some.1 hlive).1, rfl⟩)
    · rw [heq, hcase]
      rcases s.strike_cases now (scopeKey networkId host) profile confidence with
        ⟨-, hstrike⟩ | ⟨pending, -, -, ⟨-, hstrike⟩ | ⟨-, -, hstrike⟩ | ⟨-, -, hstrike⟩⟩
      · rw [hstrike]
        exact Or.inr (Or.inr ⟨⟨by simp, by simp⟩, fun _ _ h => Or.inl h⟩)
      · rw [hstrike]
        exact Or.inr (Or.inr ⟨⟨by simp, by simp⟩, fun _ _ h => Or.inl h⟩)
      · rw [hstrike]
        exact Or.inr (Or.inr ⟨⟨by simp, by simp⟩, fun _ _ h => Or.inl h⟩)
      · rw [hstrike]
        exact Or.inl ⟨rfl, profile, _, rfl⟩
    · rw [heq, hcase]
      exact Or.inl ⟨rfl, profile, kind, rfl⟩

theorem remember_eq_learn {s : Store} {now : Moment} {networkId host profileName : Bytes}
    {kind : Kind} {confidence : ℕ}
    (h : (s.remember now networkId host profileName kind confidence).2.1 = .learned) :
    ∃ profile kind', s.remember now networkId host profileName kind confidence =
      s.learn now (scopeKey networkId host) profile kind' confidence := by
  rcases s.remember_outcomes now networkId host profileName kind confidence with
    ⟨-, heq⟩ | ⟨houtcome, -⟩ | ⟨⟨hlearned, -⟩, -⟩
  · exact heq
  · rw [h] at houtcome
    cases houtcome
  · exact absurd h hlearned

theorem remember_entryStep {s : Store} {now : Moment} {networkId host profileName : Bytes}
    {kind : Kind} {confidence : ℕ} {key : Bytes} {e : Entry}
    (h : (s.remember now networkId host profileName kind confidence).1.entries.lookup key =
      some e) :
    EntryStep s ⟨now, .remember networkId host profileName kind confidence⟩ key e := by
  rcases s.remember_cases now networkId host profileName kind confidence with
    ⟨-, heq⟩ | ⟨-, profile, -, ⟨-, heq⟩ | ⟨hne, heq⟩⟩
  · rw [heq] at h
    exact .kept h
  · rw [heq] at h
    exact .kept (lookup_erase_cases h).2
  · rcases s.rememberProfile_cases now (scopeKey networkId host) profile kind confidence with
      hcase | ⟨e', hlive, hcase⟩ | ⟨e', hlive, hcase⟩ | ⟨⟨rfl, -⟩, hcase⟩ | ⟨-, hcase⟩
    · rw [heq, hcase] at h
      exact .kept h
    · rw [heq, hcase] at h
      rcases refresh_entries (liveEntry_eq_some.1 hlive).1 h with hprev | ⟨e'', hprev, rfl⟩
      · exact .kept hprev
      · exact .refreshed hprev
    · rw [heq, hcase] at h
      obtain ⟨hlookup, hlive⟩ := liveEntry_eq_some.1 hlive
      rcases lookup_insert_cases h with ⟨rfl, rfl⟩ | ⟨-, h⟩
      · exact .reproven hlookup hlive kind confidence
      · exact .kept h
    · rw [heq, hcase] at h
      rcases strike_entries h with ⟨rfl, rfl, houtcome⟩ | h
      · refine .learned rfl hne rfl ?_
        rw [heq, hcase]
        exact houtcome
      · exact .kept h
    · rw [heq, hcase] at h
      rcases learn_entries h with ⟨rfl, rfl⟩ | h
      · refine .learned rfl hne rfl ?_
        rw [heq, hcase]
        rfl
      · exact .kept h

theorem recordFailure_entryStep {s : Store} {now : Moment} {networkId host : Bytes}
    {profile : Profile} {key : Bytes} {e : Entry}
    (h : (s.recordFailure networkId host profile).1.entries.lookup key = some e) :
    EntryStep s ⟨now, .recordFailure networkId host profile⟩ key e := by
  rw [recordFailure] at h
  cases hentry : (s.entries.lookup (scopeKey networkId host)).filter
      fun e => e.profile = profile with
  | none =>
      simp only [hentry] at h
      exact .kept h
  | some entry =>
      simp only [hentry] at h
      have hlookup := (Option.filter_eq_some_iff.1 hentry).1
      split at h
      · exact .kept (lookup_erase_cases h).2
      · rcases lookup_insert_cases h with ⟨rfl, rfl⟩ | ⟨-, h⟩
        · exact .degraded hlookup
        · exact .kept h

theorem probeOrder_entryStep {s : Store} {now : Moment} {networkId host : Bytes}
    {hello : ClientHello} {key : Bytes} {e : Entry}
    (h : (s.probeOrder now networkId host hello).1.entries.lookup key = some e) :
    EntryStep s ⟨now, .probeOrder networkId host hello⟩ key e := by
  rw [probeOrder] at h
  split at h
  · exact .kept h
  · dsimp only at h
    split at h
    · rename_i entry hlive
      split at h
      · rcases lookup_insert_cases h with ⟨rfl, rfl⟩ | ⟨-, h⟩
        · exact .claimed rfl rfl (liveEntry_eq_some.1 hlive).1
        · exact .kept h
      · exact .kept h
    · split at h
      · exact .kept h
      · exact .kept h

theorem apply_entryStep {s : Store} {call : Call} {key : Bytes} {e : Entry}
    (h : (s.apply call).entries.lookup key = some e) : EntryStep s call key e := by
  obtain ⟨now, op⟩ := call
  cases op with
  | remember networkId host profileName kind confidence => exact remember_entryStep h
  | noteBaselineHealthy networkId host => exact .kept h
  | recordFailure networkId host profile => exact recordFailure_entryStep h
  | forget host => exact .kept (eraseIf_shrinks _ _ _ _ h)
  | clear => cases h
  | probeOrder networkId host hello => exact probeOrder_entryStep h
  | load content => exact .loaded rfl h

/-! ## Candidates -/

theorem strike_candidateStep {s : Store} {call : Call} {key key' : Bytes} {profile : Profile}
    {confidence : ℕ} {c : Candidate} (hcall : Strikes key call) (hne : profile ≠ .none)
    (hcancel : ¬ Cancels key' call)
    (h : (s.strike call.now key profile confidence).1.candidates.lookup key' = some c) :
    CandidateStep s call key' c := by
  rcases strike_cases s call.now key profile confidence with
    ⟨-, heq⟩ | ⟨pending, hlookup, -, hcases⟩
  · rw [heq] at h
    rcases lookup_insert_cases h with ⟨rfl, rfl⟩ | ⟨-, h⟩
    · exact .struck hcall hne (Or.inl rfl)
    · exact .kept (lookup_erase_cases (makeRoom_shrinks _ _ _ _ _ _ _ h)).2 hcancel
  · rcases hcases with ⟨-, heq⟩ | ⟨-, -, heq⟩ | ⟨-, -, heq⟩
    · rw [heq] at h
      rcases lookup_insert_cases h with ⟨rfl, rfl⟩ | ⟨-, h⟩
      · exact .struck hcall hne (Or.inr ⟨pending, hlookup, rfl⟩)
      · exact .kept h hcancel
    · rw [heq] at h
      rcases lookup_insert_cases h with ⟨rfl, rfl⟩ | ⟨-, h⟩
      · exact .renewed hlookup hcancel hne
      · exact .kept h hcancel
    · rw [heq] at h
      exact .kept (lookup_erase_cases h).2 hcancel

theorem remember_candidateStep {s : Store} {now : Moment} {networkId host profileName : Bytes}
    {kind : Kind} {confidence : ℕ} {key : Bytes} {c : Candidate}
    (h : (s.remember now networkId host profileName kind confidence).1.candidates.lookup key =
      some c) :
    CandidateStep s ⟨now, .remember networkId host profileName kind confidence⟩ key c := by
  rcases s.remember_cases now networkId host profileName kind confidence with
    ⟨hignored, heq⟩ | ⟨hhost, profile, hprofile, ⟨-, heq⟩ | ⟨hne, heq⟩⟩
  · rw [heq] at h
    refine .kept h ?_
    rintro ⟨hname, hhost, -⟩
    rcases hignored with hfind | hempty
    · rw [hname, findProfile_name] at hfind
      cases hfind
    · exact hhost hempty
  · rw [heq] at h
    obtain ⟨hkey, h⟩ := lookup_erase_cases h
    exact .kept h fun hcancel => hkey hcancel.2.2.symm
  · have hcancel : ∀ key,
        ¬ Cancels key ⟨now, .remember networkId host profileName kind confidence⟩ := by
      rintro key ⟨hname, -⟩
      rw [hname, findProfile_name] at hprofile
      exact hne (Option.some.inj hprofile).symm
    rcases s.rememberProfile_cases now (scopeKey networkId host) profile kind confidence with
      hcase | ⟨e', -, hcase⟩ | ⟨e', -, hcase⟩ | ⟨⟨rfl, -⟩, hcase⟩ | ⟨-, hcase⟩
    · rw [heq, hcase] at h
      exact .kept h (hcancel key)
    · rw [heq, hcase, refresh] at h
      refine .kept ?_ (hcancel key)
      split at h
      · exact h
      · exact h
    · rw [heq, hcase] at h
      exact .kept h (hcancel key)
    · rw [heq, hcase] at h
      have hstrikes : Strikes (scopeKey networkId host)
          ⟨now, .remember networkId host profileName .sniInterferenceLikely confidence⟩ :=
        ⟨networkId, host, profileName, profile, confidence, rfl, hprofile, hne, hhost, rfl⟩
      exact strike_candidateStep hstrikes hne (hcancel key) h
    · rw [heq, hcase] at h
      exact .kept (lookup_erase_cases h).2 (hcancel key)

theorem noteBaselineHealthy_candidateStep {s : Store} {now : Moment} {networkId host : Bytes}
    {key : Bytes} {c : Candidate}
    (h : (s.noteBaselineHealthy now networkId host).1.candidates.lookup key = some c) :
    CandidateStep s ⟨now, .noteBaselineHealthy networkId host⟩ key c := by
  obtain ⟨hkey, h⟩ := lookup_erase_cases h
  exact .kept h fun hcancel => hkey hcancel.symm

theorem recordFailure_candidates (s : Store) (networkId host : Bytes) (profile : Profile) :
    (s.recordFailure networkId host profile).1.candidates = s.candidates := by
  rw [recordFailure]
  split
  · rfl
  · dsimp only
    split <;> rfl

theorem forget_candidateStep {s : Store} {now : Moment} {host : Bytes} {key : Bytes}
    {c : Candidate} (h : (s.forget host).1.candidates.lookup key = some c) :
    CandidateStep s ⟨now, .forget host⟩ key c := by
  rw [forget] at h
  dsimp only at h
  rw [lookup_eraseIf, Option.filter_eq_some_iff] at h
  refine .kept h.1 fun hcancel => ?_
  have hcancel : (ofString "|" ++ normalizeHost host).isSuffixOf key := hcancel
  simp [hcancel] at h

theorem probeOrder_candidates (s : Store) (now : Moment) (networkId host : Bytes)
    (hello : ClientHello) :
    (s.probeOrder now networkId host hello).1.candidates = s.candidates := by
  rw [probeOrder]
  split
  · rfl
  · dsimp only
    split
    · split <;> rfl
    · split <;> rfl

theorem apply_candidateStep {s : Store} {call : Call} {key : Bytes} {c : Candidate}
    (h : (s.apply call).candidates.lookup key = some c) : CandidateStep s call key c := by
  obtain ⟨now, op⟩ := call
  cases op with
  | remember networkId host profileName kind confidence => exact remember_candidateStep h
  | noteBaselineHealthy networkId host => exact noteBaselineHealthy_candidateStep h
  | recordFailure networkId host profile =>
      rw [apply, recordFailure_candidates] at h
      exact .kept h fun hcancel => hcancel
  | forget host => exact forget_candidateStep h
  | clear => cases h
  | probeOrder networkId host hello =>
      rw [apply, probeOrder_candidates] at h
      exact .kept h fun hcancel => hcancel
  | load content => exact .loaded rfl h

/-! ## What the loader can produce -/

/-- What every line of the file preserves holds of what the loader produces. -/
theorem loadLoop_invariant {now : Moment} {P : Loaded → Prop}
    (hrecord : ∀ key encoded acc, P acc → P (loadRecord now key encoded acc)) (fuel : ℕ)
    (s : Bytes) (acc : Loaded) (hacc : P acc) : P (loadLoop now fuel s acc) := by
  induction fuel generalizing s acc with
  | zero => exact hacc
  | succ fuel ih =>
      rw [loadLoop]
      split
      · exact hacc
      · split
        · exact hacc
        · split
          · exact ih _ _ hacc
          · split
            · exact hacc
            · dsimp only
              split
              · exact hacc
              · split
                · exact hacc
                · split
                  · exact hacc
                  · split
                    · exact hacc
                    · exact ih _ _ (hrecord _ _ _ hacc)

theorem load_cases (s : Store) (content : Bytes) (now : Moment) :
    s.load content now = s ∨ ∃ fuel domains,
      s.load content now =
        { s with
          entries := (loadLoop now fuel domains {}).entries
          candidates := (loadLoop now fuel domains {}).candidates } := by
  rw [load]
  split
  · exact Or.inl rfl
  · split
    · exact Or.inl rfl
    · exact Or.inr ⟨_, _, rfl⟩

/-- The table a usable line goes to. -/
theorem loadRecord_cases (now : Moment) (key encoded : Bytes) (acc : Loaded) :
    loadRecord now key encoded acc = acc ∨
      ∃ key' profile, bar ∈ key' ∧ profile ≠ .none ∧
        now.wall < (decodeEntry now profile (splitFields encoded)).expiresAt ∧
        (size acc.candidates < maxCandidates ∧
            loadRecord now key encoded acc =
              { acc with
                candidates := acc.candidates.insert key'
                  { profile
                    persistUntil :=
                      (decodeEntry now profile (splitFields encoded)).expiresAt } } ∨
          size acc.entries < maxRememberedHosts ∧
            (decodeEntry now profile (splitFields encoded)).verifiedAt ≠ 0 ∧
            loadRecord now key encoded acc =
              { acc with
                entries := acc.entries.insert key'
                  (decodeEntry now profile (splitFields encoded)) }) := by
  rw [loadRecord]
  dsimp only
  split
  · exact Or.inl rfl
  · rename_i profile hprofile
    by_cases hskip : key = [] ∨ profile = .none
    · exact Or.inl (if_pos hskip)
    · rw [if_neg hskip]
      have hbar : bar ∈ if bar ∈ key then key else scopeKey defaultNetwork key := by
        split
        · assumption
        · simp [scopeKey, bar, ofString]
      split
      · exact Or.inl rfl
      · rename_i hlive
        have hne : profile ≠ .none := fun h => hskip (Or.inr h)
        split
        · split
          · exact Or.inr ⟨_, profile, hbar, hne, Nat.lt_of_not_le hlive, Or.inl ⟨‹_›, rfl⟩⟩
          · exact Or.inl rfl
        · split
          · exact Or.inr
              ⟨_, profile, hbar, hne, Nat.lt_of_not_le hlive, Or.inr ⟨‹_›, ‹_›, rfl⟩⟩
          · exact Or.inl rfl

/-- An entry after a load was there before, or a line of the file describes it. -/
theorem load_entry {s : Store} {content : Bytes} {now : Moment} {key : Bytes} {e : Entry}
    (h : (s.load content now).entries.lookup key = some e) :
    s.entries.lookup key = some e ∨ ∃ profile fields, e = decodeEntry now profile fields := by
  rcases s.load_cases content now with heq | ⟨fuel, domains, heq⟩
  · rw [heq] at h
    exact Or.inl h
  · rw [heq] at h
    refine Or.inr ?_
    refine loadLoop_invariant (P := fun acc => ∀ key e, acc.entries.lookup key = some e →
      ∃ profile fields, e = decodeEntry now profile fields) ?_ fuel domains {}
      (fun key e he => by cases he) key e h
    intro key encoded acc hacc key' e' he'
    rcases loadRecord_cases now key encoded acc with
      hrec | ⟨k, profile, -, -, -, ⟨-, hrec⟩ | ⟨-, -, hrec⟩⟩
    · rw [hrec] at he'
      exact hacc key' e' he'
    · rw [hrec] at he'
      exact hacc key' e' he'
    · rw [hrec] at he'
      rcases lookup_insert_cases he' with ⟨-, rfl⟩ | ⟨-, he'⟩
      · exact ⟨profile, _, rfl⟩
      · exact hacc key' e' he'

/-- A candidate after a load was there before, or it comes from the file without a strike. -/
theorem load_candidate {s : Store} {content : Bytes} {now : Moment} {key : Bytes} {c : Candidate}
    (h : (s.load content now).candidates.lookup key = some c) :
    s.candidates.lookup key = some c ∨ ∃ profile persistUntil, c = { profile, persistUntil } := by
  rcases s.load_cases content now with heq | ⟨fuel, domains, heq⟩
  · rw [heq] at h
    exact Or.inl h
  · rw [heq] at h
    refine Or.inr ?_
    refine loadLoop_invariant (P := fun acc => ∀ key c, acc.candidates.lookup key = some c →
      ∃ profile persistUntil, c = { profile, persistUntil }) ?_ fuel domains {}
      (fun key c hc => by cases hc) key c h
    intro key encoded acc hacc key' c' hc'
    rcases loadRecord_cases now key encoded acc with
      hrec | ⟨k, profile, -, -, -, ⟨-, hrec⟩ | ⟨-, -, hrec⟩⟩
    · rw [hrec] at hc'
      exact hacc key' c' hc'
    · rw [hrec] at hc'
      rcases lookup_insert_cases hc' with ⟨-, rfl⟩ | ⟨-, hc'⟩
      · exact ⟨profile, _, rfl⟩
      · exact hacc key' c' hc'
    · rw [hrec] at hc'
      exact hacc key' c' hc'

end Store

end Strategy

end SplitHello
