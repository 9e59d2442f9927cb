import SplitHello.Strategy.Steps
import SplitHello.Library.History

/-!
# Two strikes make a winner

Over any history of calls, an entry appears or changes its profile only by the
second of two differentials, at least a minute and less than six hours apart,
with nothing in between that takes the first one back. The invariant that
carries it: every strike a candidate remembers is a call of the history, and no
later call cancelled it.
-/

namespace SplitHello

namespace Strategy

open ByteString Tls Diagnosis KeyedTable History

/-- The calls a running relay makes: no reload, and a profile other than the
baseline is remembered with one of the three kinds that its diagnosis gives. -/
def LearningCall (call : Call) : Prop :=
  match call.op with
  | .remember _ _ profileName kind _ =>
      profileName = Profile.none.name ∨ kind = .sniInterferenceLikely ∨
        kind = .learnedProfile ∨ kind = .transientFailure
  | .load _ => False
  | _ => True

/-- A store at the start of a session: empty, or as some file left it. -/
def Opened (s : Store) : Prop :=
  s = {} ∨ ∃ content now, s = ({} : Store).load content now

/-- A call that reports a new winner for a key, or after which the key has an
entry where there was none, an expired one or one of another profile. -/
def Learns (s : Store) (call : Call) (key : Bytes) : Prop :=
  (∃ networkId host profileName kind confidence,
      call.op = .remember networkId host profileName kind confidence ∧
        scopeKey networkId host = key ∧
        (s.remember call.now networkId host profileName kind confidence).2.1 = .learned) ∨
    ∃ e, (s.apply call).entries.lookup key = some e ∧
      ∀ e', s.entries.lookup key = some e' →
        e'.profile ≠ e.profile ∨ e'.expiresAt ≤ call.now.wall ∧ call.now.wall < e.expiresAt

/-- Every strike a candidate carries is on record and was not taken back. -/
def StrikesOnRecord (past : List Call) (s : Store) : Prop :=
  ∀ key c, s.candidates.lookup key = some c → c.firstStrikeAt ≠ 0 →
    c.expiresAt = c.firstStrikeAt + candidateTtlSeconds ∧
      Since (fun call => Strikes key call ∧ call.now.mono = c.firstStrikeAt) (Cancels key) past

theorem Opened.strikesOnRecord {s : Store} (hs : Opened s) : StrikesOnRecord [] s := by
  have hunstruck : ∀ key c, s.candidates.lookup key = some c → c.firstStrikeAt = 0 := by
    rcases hs with rfl | ⟨content, now, rfl⟩
    · intro key c h
      cases h
    · intro key c h
      rcases Store.load_candidate h with hprev | ⟨profile, persistUntil, rfl⟩
      · cases hprev
      · rfl
  intro key c h hstruck
  exact absurd (hunstruck key c h) hstruck

theorem StrikesOnRecord.apply {past : List Call} {s : Store} {call : Call}
    (hs : StrikesOnRecord past s) (hcall : LearningCall call) :
    StrikesOnRecord (past ++ [call]) (s.apply call) := by
  intro key c h hstruck
  cases Store.apply_candidateStep h with
  | kept hprev hcancel =>
      obtain ⟨hexpires, hsince⟩ := hs key c hprev hstruck
      exact ⟨hexpires, hsince.later hcancel⟩
  | @renewed c' profile hprev hcancel hne =>
      obtain ⟨hexpires, hsince⟩ := hs key c' hprev hstruck
      exact ⟨hexpires, hsince.later hcancel⟩
  | struck hstrikes hne hpersist => exact ⟨rfl, Since.here past ⟨hstrikes, rfl⟩⟩
  | loaded hop hprev =>
      rw [LearningCall, hop] at hcall
      exact hcall.elim

theorem run_strikesOnRecord {start : Store} (hstart : Opened start) (past : List Call)
    (hpast : ∀ call ∈ past, LearningCall call) :
    StrikesOnRecord past (run Store.apply start past) := by
  refine run_invariant Store.apply start
    (fun past s => (∀ call ∈ past, LearningCall call) → StrikesOnRecord past s)
    (fun _ => hstart.strikesOnRecord) ?_ past hpast
  intro past s call ih hcalls
  simp only [List.mem_append, List.mem_singleton] at hcalls
  exact (ih fun c hc => hcalls c (Or.inl hc)).apply (hcalls call (Or.inr rfl))

/-- A learning call that reports a winner is news, and it found a live strike old
enough. -/
theorem remember_learned {s : Store} {now : Moment} {networkId host profileName : Bytes}
    {kind : Kind} {confidence : ℕ}
    (hcall : LearningCall ⟨now, .remember networkId host profileName kind confidence⟩)
    (h : (s.remember now networkId host profileName kind confidence).2.1 = .learned) :
    Strikes (scopeKey networkId host)
        ⟨now, .remember networkId host profileName kind confidence⟩ ∧
      s.lookup networkId host now ≠ findProfile profileName ∧
      ∃ pending, s.candidates.lookup (scopeKey networkId host) = some pending ∧
        candidateLive pending now ∧ pending.firstStrikeAt ≠ 0 ∧
        pending.firstStrikeAt + confirmMinGapSeconds ≤ now.mono := by
  rcases s.remember_cases now networkId host profileName kind confidence with
    ⟨-, heq⟩ | ⟨hhost, profile, hprofile, ⟨-, heq⟩ | ⟨hne, heq⟩⟩
  · rw [heq] at h
    cases h
  · rw [heq, Store.retire] at h
    dsimp only at h
    split at h <;> cases h
  · rcases s.rememberProfile_cases now (scopeKey networkId host) profile kind confidence with
      hcase | ⟨e, -, hcase⟩ | ⟨e, -, hcase⟩ | ⟨⟨rfl, hnew⟩, hcase⟩ | ⟨hkind, hcase⟩
    · rw [heq, hcase] at h
      cases h
    · rw [heq, hcase, Store.refresh] at h
      split at h <;> cases h
    · rw [heq, hcase] at h
      cases h
    · refine ⟨⟨_, _, _, profile, _, rfl, hprofile, hne, hhost, rfl⟩, by rwa [hprofile], ?_⟩
      rw [heq, hcase] at h
      rcases s.strike_cases now (scopeKey networkId host) profile confidence with
        ⟨-, hstrike⟩ |
          ⟨pending, hlookup, hlive, ⟨-, hstrike⟩ | ⟨-, -, hstrike⟩ | ⟨hfirst, hgap, -⟩⟩
      · rw [hstrike] at h
        cases h
      · rw [hstrike] at h
        cases h
      · rw [hstrike] at h
        cases h
      · exact ⟨pending, hlookup, hlive, hfirst, hgap⟩
    · rcases hcall with hname | hsni | hlearned | htransient
      · rw [hname, findProfile_name] at hprofile
        exact absurd (Option.some.inj hprofile).symm hne
      · exact absurd hsni hkind.2.2
      · exact absurd hlearned hkind.2.1
      · exact absurd htransient hkind.1

theorem Entry.reproven_profile (e : Entry) (now : Moment) (kind : Kind) (confidence : ℕ) :
    (e.reproven now kind confidence).profile = e.profile := by
  rw [Entry.reproven]
  dsimp only
  split <;> rfl

/-- Only a call that reports a winner creates or replaces an entry. -/
theorem Learns.reported {s : Store} {call : Call} {key : Bytes} (hcall : LearningCall call)
    (h : Learns s call key) :
    ∃ networkId host profileName kind confidence,
      call.op = .remember networkId host profileName kind confidence ∧
        scopeKey networkId host = key ∧
        (s.remember call.now networkId host profileName kind confidence).2.1 = .learned := by
  rcases h with h | ⟨e, hafter, hbefore⟩
  · exact h
  · cases Store.apply_entryStep hafter with
    | kept hprev =>
        rcases hbefore _ hprev with h | h
        · exact absurd rfl h
        · omega
    | refreshed hprev =>
        rcases hbefore _ hprev with h | h
        · exact absurd rfl h
        · dsimp only at h
          omega
    | @reproven e' hprev hlive kind confidence =>
        rcases hbefore _ hprev with h | h
        · exact absurd (Entry.reproven_profile e' call.now kind confidence).symm h
        · omega
    | learned hop hne hkey houtcome => exact ⟨_, _, _, _, _, hop, hkey, houtcome⟩
    | degraded hprev =>
        rcases hbefore _ hprev with h | h
        · exact absurd rfl h
        · dsimp only at h
          omega
    | claimed hop hkey hprev =>
        rcases hbefore _ hprev with h | h
        · exact absurd rfl h
        · dsimp only at h
          omega
    | loaded hop hprev =>
        rw [LearningCall, hop] at hcall
        exact hcall.elim

/-- Whatever was called before, a winner is learned only by a differential that
confirms an earlier one of the same key, a minute to six hours back, that
nothing took back; a cache hit and a hiccup never make one. -/
theorem learns_only_on_second_strike {start : Store} (hstart : Opened start)
    (past : List Call) (hpast : ∀ call ∈ past, LearningCall call) (call : Call)
    (hcall : LearningCall call) (key : Bytes) :
    (Learns (run Store.apply start past) call key →
      Strikes key call ∧
        Since (fun strike => Strikes key strike ∧
            strike.now.mono + confirmMinGapSeconds ≤ call.now.mono ∧
            call.now.mono < strike.now.mono + candidateTtlSeconds)
          (Cancels key) past) ∧
      (∀ networkId host profileName kind confidence,
        call.op = .remember networkId host profileName kind confidence →
        kind = .learnedProfile ∨ kind = .transientFailure →
        ¬ Learns (run Store.apply start past) call key) := by
  have hfirst (h : Learns (run Store.apply start past) call key) : Strikes key call ∧
      Since (fun strike => Strikes key strike ∧
          strike.now.mono + confirmMinGapSeconds ≤ call.now.mono ∧
          call.now.mono < strike.now.mono + candidateTtlSeconds)
        (Cancels key) past := by
    obtain ⟨networkId, host, profileName, kind, confidence, hop, rfl, houtcome⟩ :=
      h.reported hcall
    obtain ⟨now, op⟩ := call
    cases hop
    obtain ⟨hstrikes, -, pending, hlookup, hlive, hstruck, hgap⟩ :=
      remember_learned hcall houtcome
    obtain ⟨hexpires, hsince⟩ :=
      run_strikesOnRecord hstart past hpast _ pending hlookup hstruck
    have hmono : now.mono < pending.expiresAt := by
      simpa [candidateLive, hstruck] using hlive
    refine ⟨hstrikes, hsince.mono ?_ fun _ h => h⟩
    rintro strike ⟨hstrike, hwhen⟩
    rw [hwhen]
    exact ⟨hstrike, hgap, by rw [← hexpires]; exact hmono⟩
  refine ⟨hfirst, ?_⟩
  intro networkId host profileName kind confidence hop hkind h
  obtain ⟨_, _, _, _, _, hstrike, -⟩ := (hfirst h).1
  rw [hop] at hstrike
  injection hstrike with _ _ _ hsni
  rw [hsni] at hkind
  simp at hkind

/-- A differential for one host a given number of seconds into the session. -/
def sampleStrike (seconds : ℕ) (h : 0 < seconds ∧ seconds < 2 ^ 63) : Call where
  now := { wall := seconds, mono := seconds, wall_pos := h.1, wall_lt := h.2, mono_pos := h.1 }
  op := .remember (ofString "lan") (ofString "a.bc") Profile.sniMid.name .sniInterferenceLikely 90

/-- Two differentials 60 seconds apart. -/
theorem learns_only_on_second_strike_sample :
    Since (fun strike => Strikes (ofString "lan|a.bc") strike ∧
        strike.now.mono + confirmMinGapSeconds ≤ 160 ∧
        160 < strike.now.mono + candidateTtlSeconds)
      (Cancels (ofString "lan|a.bc")) [sampleStrike 100 (by decide)] := by
  have hlearn : LearningCall (sampleStrike 100 (by decide)) := Or.inr (Or.inl rfl)
  refine ((learns_only_on_second_strike (Or.inl rfl) [sampleStrike 100 (by decide)]
    (by simpa using hlearn) (sampleStrike 160 (by decide)) (Or.inr (Or.inl rfl))
    (ofString "lan|a.bc")).1 (Or.inl ⟨_, _, _, _, _, rfl, ?_, ?_⟩)).2
  · decide
  · decide

end Strategy

end SplitHello
