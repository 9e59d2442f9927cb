import SplitHello.Relay.Outage
import SplitHello.Strategy.Learning

/-!
# Many connections on one store

Any number of connections share the strategy store, and their steps come in any order.
Beside the store the system keeps a log of how every attempt ended and when. The store
stamps a strike when it is reported, not when the untouched attempt failed, and it
hears of an untouched attempt that got through only after the fact; so what it learns
rests on two failures a minute apart only in runs where every strike is still good when
it is reported.
-/

namespace SplitHello

namespace Relay

open ByteString Tls Strategy Diagnosis KeyedTable History

/-- How one attempt of some connection ended, and when. -/
structure Observation where
  conn : ℕ
  key : Bytes
  profile : Profile
  signal : ProbeSignal
  ms : ℕ
  deriving DecidableEq, Repr

/-- An untouched attempt for the key did not get through. -/
def Observation.Failed (e : Observation) (key : Bytes) : Prop :=
  e.key = key ∧ e.profile = .none ∧ e.signal ≠ .serverHello

/-- An untouched attempt for the key got through. -/
def Observation.Passed (e : Observation) (key : Bytes) : Prop :=
  e.key = key ∧ e.profile = .none ∧ e.signal = .serverHello

instance (e : Observation) (key : Bytes) : Decidable (e.Failed key) :=
  inferInstanceAs (Decidable (_ ∧ _))

instance (e : Observation) (key : Bytes) : Decidable (e.Passed key) :=
  inferInstanceAs (Decidable (_ ∧ _))

structure System where
  store : Store := {}
  conns : List Conn := []
  log : List Observation := []
  clock : ℕ := 0

inductive Event
  | accept (networkId targetHost : Bytes) (transparent : Bool) (sends : List SendResult)
      (recvs : List RecvResult)
  | act (conn : ℕ) (input : Input)

/-- What a step adds to the log. -/
def observed (i : ℕ) (c c' : Conn) (ms : ℕ) : List Observation :=
  (c'.evidence.drop c.evidence.length).map fun a => ⟨i, c'.key, a.profile, a.signal, ms⟩

namespace System

/-- The connection that an event lets take a step. The clock does not run backwards. -/
def turn (sys : System) (i : ℕ) (input : Input) : Option Conn :=
  if sys.clock ≤ input.tick.ms then sys.conns[i]? else none

def step (setup : Setup) (sys : System) : Event → System
  | .accept networkId targetHost transparent sends recvs =>
      { sys with
        conns := sys.conns ++ [Conn.accepted networkId targetHost transparent sends recvs] }
  | .act i input =>
      match sys.turn i input with
      | none => sys
      | some c =>
          let (store, c') := c.step setup sys.store input
          { store
            conns := sys.conns.set i c'
            log := sys.log ++ observed i c c' input.tick.ms
            clock := input.tick.ms }

/-- What the store reports to a connection, and the key it is about. -/
def report (sys : System) : Event → Option (Bytes × Outcome)
  | .accept .. => none
  | .act i input =>
      match sys.turn i input with
      | none => none
      | some c =>
          match c.phase with
          | .rememberNone => some (c.key, (c.learned sys.store .none input).2.1)
          | .rememberWin profile => some (c.key, (c.learned sys.store profile input).2.1)
          | _ => none

end System

/-- Two connections whose untouched attempts failed a minute apart, with none that got
through in between. -/
def TwoFailures (log : List Observation) (key : Bytes) : Prop :=
  ∃ a ∈ log, ∃ b ∈ log, a.conn ≠ b.conn ∧ a.Failed key ∧ b.Failed key ∧
    a.ms + 1000 * confirmMinGapSeconds ≤ b.ms ∧
    ∀ e ∈ log, e.Passed key → ¬ (a.ms ≤ e.ms ∧ e.ms ≤ b.ms)

instance (log : List Observation) (key : Bytes) : Decidable (TwoFailures log key) :=
  inferInstanceAs (Decidable (∃ _ ∈ _, _))

/-! ## Strikes that are still good -/

/-- The strike that waits for its second. -/
def pendingStrike (s : Store) (key : Bytes) (now : Moment) : Option Candidate :=
  (s.candidates.lookup key).filter fun c => candidateLive c now && c.firstStrikeAt ≠ 0

/-- The profile that a connection is about to report. -/
def Phase.winner : Phase → Option Profile
  | .rememberWin profile => some profile
  | _ => none

namespace System

/-- No untouched attempt for the key got through from some time on. -/
def QuietSince (sys : System) (key : Bytes) (ms : ℕ) : Prop :=
  ∀ e ∈ sys.log, e.Passed key → e.ms < ms

/-- The store knows of every untouched attempt for the key that got through. -/
def AllNoted (sys : System) (key : Bytes) : Prop :=
  ∀ c ∈ sys.conns, c.key = key → c.phase ≠ .noteHealthy

/-- A strike whose untouched attempt failed at `ms` is good when it is reported: since
then none got through, and if it confirms another one, that one was stamped a minute
before `ms` and no success is on its way to the store. -/
def Good (sys : System) (key : Bytes) (now : Moment) (ms : ℕ) : Prop :=
  (pendingStrike sys.store key now = none → sys.QuietSince key ms) ∧
    ∀ pending ∈ pendingStrike sys.store key now,
      pending.firstStrikeAt + confirmMinGapSeconds ≤ now.mono →
        sys.QuietSince key ms ∧ sys.AllNoted key ∧
          1000 * (pending.firstStrikeAt + confirmMinGapSeconds) ≤ ms

instance (sys : System) (key : Bytes) (ms : ℕ) : Decidable (sys.QuietSince key ms) :=
  inferInstanceAs (Decidable (∀ _ ∈ _, _))

instance (sys : System) (key : Bytes) : Decidable (sys.AllNoted key) :=
  inferInstanceAs (Decidable (∀ _ ∈ _, _))

instance (sys : System) (key : Bytes) (now : Moment) (ms : ℕ) :
    Decidable (sys.Good key now ms) :=
  inferInstanceAs (Decidable (_ ∧ ∀ _ ∈ _, _))

/-- Every strike that an event reports is good. -/
def Fits (sys : System) : Event → Prop
  | .accept .. => True
  | .act i input =>
      ∀ c ∈ sys.turn i input, ∀ profile ∈ c.phase.winner,
        c.verdict.kind = .sniInterferenceLikely →
        sys.store.lookup c.networkId c.targetHost input.tick.moment ≠ some profile →
        ∀ e ∈ sys.log, e.conn = i → e.Failed c.key → sys.Good c.key input.tick.moment e.ms

/-- Every strike of a run is good when it is reported. -/
def Meets (setup : Setup) (sys : System) : List Event → Prop
  | [] => True
  | event :: events => sys.Fits event ∧ Meets setup (sys.step setup event) events

instance (sys : System) (event : Event) : Decidable (sys.Fits event) :=
  match event with
  | .accept .. => inferInstanceAs (Decidable True)
  | .act .. => inferInstanceAs (Decidable (∀ _ ∈ _, ∀ _ ∈ _, _))

instance decidableMeets (setup : Setup) (sys : System) (events : List Event) :
    Decidable (sys.Meets setup events) :=
  match events with
  | [] => inferInstanceAs (Decidable True)
  | event :: events =>
      have := decidableMeets setup (sys.step setup event) events
      inferInstanceAs (Decidable (_ ∧ _))

end System

/-! ## One connection -/

namespace Conn

theorem step_ended (setup : Setup) {c : Conn} (h : c.Ended) (s : Store) (input : Input) :
    (c.step setup s input).2.Ended := by
  rw [step]
  rcases h with hphase | hphase | hphase | hphase
  · obtain ⟨_, _, _, _, _, heq, hcases⟩ := c.flush_frame
    rw [hphase]
    dsimp only
    rw [heq]
    rcases hcases with rfl | rfl | rfl
    · exact Or.inr (Or.inr (Or.inl rfl))
    · exact Or.inr (Or.inl rfl)
    · exact Or.inr (Or.inr (Or.inr rfl))
  · rw [hphase]
    exact Or.inr (Or.inl hphase)
  · rw [hphase]
    exact Or.inr (Or.inr (Or.inl hphase))
  · rw [hphase]
    exact Or.inr (Or.inr (Or.inr hphase))

/-- What a profile that got through stands on. -/
structure Proven (setup : Setup) (log : List Observation) (i : ℕ) (c : Conn)
    (profile : Profile) : Prop where
  learning : setup.forcedProfile = none
  profile_ne : profile ≠ .none
  kind : c.verdict.kind = .sniInterferenceLikely ∨ c.verdict.kind = .learnedProfile ∨
    c.verdict.kind = .transientFailure
  failed : c.verdict.kind = .sniInterferenceLikely → ∃ e ∈ log, e.conn = i ∧ e.Failed c.key

/-- What the log has to say of a connection in each phase. -/
def Tracked (setup : Setup) (log : List Observation) (i : ℕ) (c : Conn) : Prop :=
  match c.phase with
  | .start | .prepare _ | .deliver | .order | .lookup | .health => c.evidence = []
  | .attempt =>
      ∀ a ∈ c.evidence, a.signal ≠ .serverHello ∧
        ∃ ms, (⟨i, c.key, a.profile, a.signal, ms⟩ : Observation) ∈ log
  | .settleWin profile | .rememberWin profile => Proven setup log i c profile
  | _ => True

theorem Proven.mono {setup : Setup} {log log' : List Observation} {i : ℕ} {c : Conn}
    {profile : Profile} (h : Proven setup log i c profile) (hlog : log ⊆ log') :
    Proven setup log' i c profile where
  learning := h.learning
  profile_ne := h.profile_ne
  kind := h.kind
  failed := by
    intro hkind
    obtain ⟨e, he, hfailed⟩ := h.failed hkind
    exact ⟨e, hlog he, hfailed⟩

theorem Tracked.mono {setup : Setup} {log log' : List Observation} {i : ℕ} {c : Conn}
    (h : Tracked setup log i c) (hlog : log ⊆ log') : Tracked setup log' i c := by
  rw [Tracked] at h ⊢
  cases hphase : c.phase with
  | attempt =>
      rw [hphase] at h
      intro a ha
      obtain ⟨hsignal, ms, hmem⟩ := h a ha
      exact ⟨hsignal, ms, hlog hmem⟩
  | settleWin profile =>
      rw [hphase] at h
      exact h.mono hlog
  | rememberWin profile =>
      rw [hphase] at h
      exact h.mono hlog
  | _ =>
      rw [hphase] at h
      exact h

theorem round_tracked {setup : Setup} {log : List Observation} {i : ℕ} {c c' : Conn}
    (hphase : c.phase = .attempt) (h : Tracked setup log i c) (hround : Round setup c c')
    (ms : ℕ) : Tracked setup (log ++ observed i c c' ms) i c' := by
  rw [Tracked, hphase] at h
  cases hround with
  | gaveUp => trivial
  | passed horder =>
      rw [Tracked]
      dsimp only
      rw [hphase]
      intro a ha
      obtain ⟨hsignal, ms', hmem⟩ := h a ha
      exact ⟨hsignal, ms', List.mem_append_left _ hmem⟩
  | @failed profile order attempts elapsedMs target dropped signal horder hsignal =>
      rw [Tracked]
      dsimp only
      rw [hphase]
      intro a ha
      rcases List.mem_append.1 ha with ha | ha
      · obtain ⟨hsignal, ms', hmem⟩ := h a ha
        exact ⟨hsignal, ms', List.mem_append_left _ hmem⟩
      · rw [List.mem_singleton.1 ha]
        refine ⟨hsignal, ms, List.mem_append_right _ ?_⟩
        simp [observed, key]
  | @won profile order attempts elapsedMs target dropped firstResponse phase horder hlead =>
      have hsuccess : findSuccess (c.evidence ++ [⟨profile, .serverHello, elapsedMs⟩]) =
          some ⟨profile, .serverHello, elapsedMs⟩ :=
        findSuccess_concat (fun a ha => (h a ha).1) rfl
      rcases hlead.cases with rfl | ⟨-, -, rfl⟩ | ⟨hlearning, hne, -, rfl⟩
      · trivial
      · trivial
      · refine ⟨hlearning, hne, ?_, ?_⟩
        · dsimp only
          rw [infer_of_findSuccess hsuccess]
          exact inferSuccess_kind hne
        · intro hkind
          obtain ⟨⟨baseline, hbaseline, hnone, hsignal⟩, -⟩ := infer_sniInterferenceLikely hkind
          rcases List.mem_append.1 hbaseline with ha | ha
          · obtain ⟨-, ms', hmem⟩ := h baseline ha
            exact ⟨_, List.mem_append_left _ hmem, rfl, rfl, hnone, hsignal⟩
          · rw [List.mem_singleton.1 ha] at hsignal
            exact absurd rfl hsignal

theorem tracked_early {setup : Setup} {log : List Observation} {i : ℕ} {c : Conn}
    (hearly : Early c.phase) : Tracked setup log i c ↔ c.evidence = [] := by
  rw [Tracked]
  rcases hearly with hphase | ⟨_, hphase⟩ | hphase
  · rw [hphase]
  · rw [hphase]
  · rw [hphase]

theorem step_tracked (setup : Setup) {log : List Observation} {i : ℕ} {c : Conn}
    (h : Tracked setup log i c) (s : Store) (input : Input) (ms : ℕ) :
    Tracked setup (log ++ observed i c (c.step setup s input).2 ms) i
      (c.step setup s input).2 := by
  have hmoves := step_moves setup c s input
  generalize c.step setup s input = x at hmoves ⊢
  cases hmoves with
  | early hfrom hto =>
      have hevidence := (tracked_early hfrom).1 h
      rcases hto with hearly | rfl | rfl | rfl | rfl
      · exact (tracked_early hearly).2 hevidence
      · exact hevidence
      · trivial
      · trivial
      · trivial
  | ordered hfrom | forced hfrom | looked hfrom =>
      rw [Tracked, hfrom] at h
      exact h
  | asked hfrom =>
      rw [Tracked, hfrom] at h
      rw [Tracked]
      dsimp only
      rw [h]
      simp
  | tried hfrom hround => exact round_tracked hfrom h hround ms
  | noted hfrom hto => rcases hto with rfl | rfl <;> trivial
  | settled hfrom =>
      rw [Tracked, hfrom] at h
      exact ⟨h.learning, h.profile_ne, h.kind, (h.mono (List.subset_append_left _ _)).failed⟩
  | retired | remembered | lost => trivial
  | flushed hfrom hto => rcases hto with rfl | rfl | rfl <;> trivial
  | idle => exact h.mono (List.subset_append_left _ _)

/-- An untouched attempt that gets through is noted next. -/
theorem observed_passed {setup : Setup} (hlearning : setup.forcedProfile = none) {c : Conn}
    {s : Store} {input : Input} {i ms : ℕ} {e : Observation} {k : Bytes}
    (he : e ∈ observed i c (c.step setup s input).2 ms) (hpassed : e.Passed k) :
    e.conn = i ∧ (c.step setup s input).2.phase = .noteHealthy ∧
      (c.step setup s input).2.key = k := by
  obtain ⟨a, ha, rfl⟩ := List.mem_map.1 he
  obtain ⟨hkey, hnone, hsignal⟩ := hpassed
  refine ⟨rfl, ?_, hkey⟩
  dsimp only at hnone hsignal
  have hmoves := step_moves setup c s input
  generalize c.step setup s input = x at hmoves ha ⊢
  cases hmoves with
  | tried hfrom hround =>
      cases hround with
      | gaveUp => simp [giveUp] at ha
      | passed horder => simp at ha
      | failed horder hfailed =>
          simp only [List.drop_left, List.mem_singleton] at ha
          rw [ha] at hsignal
          exact absurd hsignal hfailed
      | won horder hlead =>
          simp only [List.drop_left, List.mem_singleton] at ha
          rw [ha] at hnone
          exact hlead.baseline hlearning hnone
  | _ => simp at ha

end Conn

/-! ## What a step does to a strike that waits -/

/-- A strike is stamped when it is reported, unless one is waiting already. -/
theorem remember_strike {s : Store} {now : Moment} {networkId host : Bytes} {profile : Profile}
    {confidence : ℕ} {key : Bytes} {candidate : Candidate}
    (h : (s.remember now networkId host profile.name .sniInterferenceLikely
      confidence).1.candidates.lookup key = some candidate) :
    (∃ old, s.candidates.lookup key = some old ∧
        old.firstStrikeAt = candidate.firstStrikeAt) ∨
      scopeKey networkId host = key ∧ s.lookup networkId host now ≠ some profile ∧
        pendingStrike s key now = none ∧ candidate.firstStrikeAt = now.mono := by
  rcases s.remember_cases now networkId host profile.name .sniInterferenceLikely confidence with
    ⟨-, heq⟩ | ⟨-, profile', hprofile, ⟨-, heq⟩ | ⟨-, heq⟩⟩
  · rw [heq] at h
    exact Or.inl ⟨candidate, h, rfl⟩
  · rw [heq] at h
    exact Or.inl ⟨candidate, (lookup_erase_cases h).2, rfl⟩
  · rw [findProfile_name] at hprofile
    obtain rfl := Option.some.inj hprofile
    rcases s.rememberProfile_cases now (scopeKey networkId host) profile .sniInterferenceLikely
        confidence with hcase | ⟨e, -, hcase⟩ | ⟨e, -, hcase⟩ | ⟨⟨-, hnew⟩, hcase⟩ | ⟨hkind, -⟩
    · rw [heq, hcase] at h
      exact Or.inl ⟨candidate, h, rfl⟩
    · rw [heq, hcase, Store.refresh] at h
      refine Or.inl ⟨candidate, ?_, rfl⟩
      split at h
      · exact h
      · exact h
    · rw [heq, hcase] at h
      exact Or.inl ⟨candidate, h, rfl⟩
    · rw [heq, hcase] at h
      rcases s.strike_cases now (scopeKey networkId host) profile confidence with
        ⟨hnone, hstrike⟩ |
          ⟨pending, hlookup, hlive, ⟨hfirst, hstrike⟩ | ⟨-, -, hstrike⟩ | ⟨-, -, hstrike⟩⟩
      · rw [hstrike] at h
        rcases lookup_insert_cases h with ⟨rfl, rfl⟩ | ⟨-, h⟩
        · refine Or.inr ⟨rfl, hnew, ?_, rfl⟩
          simp only [Option.filter_eq_none_iff] at hnone
          simp only [pendingStrike, Option.filter_eq_none_iff]
          intro c hc hlive
          exact hnone c hc (Bool.and_eq_true_iff.1 hlive).1
        · exact Or.inl ⟨candidate,
            (lookup_erase_cases (makeRoom_shrinks _ _ _ _ _ _ _ h)).2, rfl⟩
      · rw [hstrike] at h
        rcases lookup_insert_cases h with ⟨rfl, rfl⟩ | ⟨-, h⟩
        · refine Or.inr ⟨rfl, hnew, ?_, rfl⟩
          simp [pendingStrike, hlookup, hfirst]
        · exact Or.inl ⟨candidate, h, rfl⟩
      · rw [hstrike] at h
        rcases lookup_insert_cases h with ⟨rfl, rfl⟩ | ⟨-, h⟩
        · exact Or.inl ⟨pending, hlookup, rfl⟩
        · exact Or.inl ⟨candidate, h, rfl⟩
      · rw [hstrike] at h
        exact Or.inl ⟨candidate, (lookup_erase_cases h).2, rfl⟩
    · exact absurd rfl hkind.2.2

namespace Conn

/-- A waiting strike was there before the step, which noted no success for its key, or it
is the one that the step reports. -/
theorem step_candidate (setup : Setup) {c : Conn} {s : Store} {input : Input} {k : Bytes}
    {candidate : Candidate}
    (h : (c.step setup s input).1.candidates.lookup k = some candidate) :
    (∃ old, s.candidates.lookup k = some old ∧ old.firstStrikeAt = candidate.firstStrikeAt ∧
        (c.phase = .noteHealthy → c.key ≠ k)) ∨
      ∃ profile, c.phase = .rememberWin profile ∧ c.key = k ∧
        c.verdict.kind = .sniInterferenceLikely ∧
        s.lookup c.networkId c.targetHost input.tick.moment ≠ some profile ∧
        pendingStrike s k input.tick.moment = none ∧
        candidate.firstStrikeAt = input.tick.moment.mono := by
  rw [step_store] at h
  split at h
  · rename_i hcall
    refine Or.inl ⟨candidate, h, rfl, ?_⟩
    intro hphase
    rw [call, hphase] at hcall
    cases hcall
  · rename_i op hcall
    by_cases hwin : ∃ profile, c.phase = .rememberWin profile ∧
        c.verdict.kind = .sniInterferenceLikely
    · obtain ⟨profile, hphase, hkind⟩ := hwin
      rw [call, hphase, hkind] at hcall
      obtain rfl := Option.some.inj hcall
      rcases remember_strike h with ⟨old, hold, hstamp⟩ | ⟨hkey, hnew, hfree, hstamp⟩
      · refine Or.inl ⟨old, hold, hstamp, ?_⟩
        intro hnote
        rw [hphase] at hnote
        cases hnote
      · exact Or.inr ⟨profile, hphase, hkey, hkind, hnew, hfree, hstamp⟩
    · refine Or.inl ?_
      have hnote : c.phase = .noteHealthy → ¬ Cancels k ⟨input.tick.moment, op⟩ → c.key ≠ k := by
        intro hphase hcancel hkey
        rw [call, hphase] at hcall
        obtain rfl := Option.some.inj hcall
        exact hcancel hkey
      cases Store.apply_candidateStep h with
      | kept hprev hcancel => exact ⟨candidate, hprev, rfl, fun hphase => hnote hphase hcancel⟩
      | @renewed old profile hprev hcancel hne =>
          exact ⟨old, hprev, rfl, fun hphase => hnote hphase hcancel⟩
      | struck hstrikes hne hpersist =>
          obtain ⟨_, _, profileName, profile, _, hop, hprofile, hne', -, -⟩ := hstrikes
          dsimp only at hop
          cases calls_of_call hcall with
          | retired _ =>
              obtain ⟨-, -, rfl, -⟩ := Op.remember.inj hop
              rw [findProfile_name] at hprofile
              exact absurd (Option.some.inj hprofile).symm hne'
          | won hphase =>
              obtain ⟨-, -, -, hkind, -⟩ := Op.remember.inj hop
              exact absurd ⟨_, hphase, hkind⟩ hwin
          | _ => cases hop
      | loaded hop hprev =>
          dsimp only at hop
          cases calls_of_call hcall <;> cases hop

end Conn

/-! ## The system -/

namespace System

/-- A strike stamped at second `t` rests on a failure before that second, of a connection
that is through, and every success since is still on its way to the store. -/
structure Grounded (setup : Setup) (sys : System) (key : Bytes) (t : ℕ) (e : Observation) :
    Prop where
  learning : setup.forcedProfile = none
  mem : e ∈ sys.log
  failed : e.Failed key
  before : e.ms < 1000 * t
  ended : ∃ c, sys.conns[e.conn]? = some c ∧ c.Ended
  passed : ∀ e' ∈ sys.log, e'.Passed key →
    e'.ms < e.ms ∨ ∃ c, sys.conns[e'.conn]? = some c ∧ c.phase = .noteHealthy ∧ c.key = key

structure Consistent (setup : Setup) (sys : System) : Prop where
  tracked : ∀ i c, sys.conns[i]? = some c → Conn.Tracked setup sys.log i c
  clock : ∀ e ∈ sys.log, e.ms ≤ sys.clock
  pending : ∀ key pending, sys.store.candidates.lookup key = some pending →
    pending.firstStrikeAt ≠ 0 → ∃ e, Grounded setup sys key pending.firstStrikeAt e

theorem turn_eq_some {sys : System} {i : ℕ} {input : Input} {c : Conn} :
    sys.turn i input = some c ↔ sys.clock ≤ input.tick.ms ∧ sys.conns[i]? = some c := by
  rw [turn]
  split <;> simp_all

/-- The system after the step of a connection. -/
theorem step_act {setup : Setup} {sys : System} {i : ℕ} {input : Input} {c : Conn}
    (h : sys.turn i input = some c) :
    sys.step setup (.act i input) =
      { store := (c.step setup sys.store input).1
        conns := sys.conns.set i (c.step setup sys.store input).2
        log := sys.log ++ observed i c (c.step setup sys.store input).2 input.tick.ms
        clock := input.tick.ms } := by
  rw [step, h]

theorem getElem?_accept {sys : System} {i : ℕ} {c : Conn} (h : sys.conns[i]? = some c)
    (c' : Conn) : (sys.conns ++ [c'])[i]? = some c := by
  obtain ⟨hi, -⟩ := List.getElem?_eq_some_iff.1 h
  rw [List.getElem?_append_left hi, h]

theorem Consistent.accept {setup : Setup} {sys : System} (h : Consistent setup sys)
    (networkId targetHost : Bytes) (transparent : Bool) (sends : List SendResult)
    (recvs : List RecvResult) :
    Consistent setup
      (sys.step setup (.accept networkId targetHost transparent sends recvs)) where
  tracked := by
    intro i c hc
    rw [step] at hc
    dsimp only at hc
    rw [List.getElem?_append] at hc
    split at hc
    · exact h.tracked i c hc
    · rw [List.getElem?_singleton] at hc
      split at hc
      · obtain rfl := Option.some.inj hc
        rfl
      · cases hc
  clock := h.clock
  pending := by
    intro key pending hpending hstruck
    obtain ⟨e, he⟩ := h.pending key pending hpending hstruck
    refine ⟨e, he.learning, he.mem, he.failed, he.before, ?_, ?_⟩
    · obtain ⟨c, hc, hended⟩ := he.ended
      exact ⟨c, getElem?_accept hc _, hended⟩
    · intro e' he' hpassed
      refine (he.passed e' he' hpassed).imp_right ?_
      rintro ⟨c, hc, hphase, hkey⟩
      exact ⟨c, getElem?_accept hc _, hphase, hkey⟩

/-- A step that notes no success for the key leaves the ground of its strike. -/
theorem Grounded.act {setup : Setup} {sys : System} {key : Bytes} {t : ℕ} {e : Observation}
    (h : Grounded setup sys key t e) {i : ℕ} {input : Input} {c : Conn}
    (hturn : sys.turn i input = some c) (hnote : c.phase = .noteHealthy → c.key ≠ key) :
    Grounded setup (sys.step setup (.act i input)) key t e := by
  obtain ⟨-, hc⟩ := turn_eq_some.1 hturn
  obtain ⟨hi, -⟩ := List.getElem?_eq_some_iff.1 hc
  rw [step_act hturn]
  refine ⟨h.learning, List.mem_append_left _ h.mem, h.failed, h.before, ?_, ?_⟩
  · obtain ⟨c₁, hc₁, hended⟩ := h.ended
    by_cases heq : e.conn = i
    · rw [heq, hc] at hc₁
      obtain rfl := Option.some.inj hc₁
      refine ⟨_, ?_, c.step_ended setup hended sys.store input⟩
      rw [heq, List.getElem?_set_self hi]
    · refine ⟨c₁, ?_, hended⟩
      rw [List.getElem?_set_ne (Ne.symm heq), hc₁]
  · intro e' he' hpassed
    rcases List.mem_append.1 he' with he' | he'
    · refine (h.passed e' he' hpassed).imp_right ?_
      rintro ⟨c₁, hc₁, hphase, hkey⟩
      have hne : i ≠ e'.conn := by
        rintro rfl
        rw [hc] at hc₁
        obtain rfl := Option.some.inj hc₁
        exact hnote hphase hkey
      refine ⟨c₁, ?_, hphase, hkey⟩
      rw [List.getElem?_set_ne hne, hc₁]
    · obtain ⟨rfl, hphase, hkey⟩ := Conn.observed_passed h.learning he' hpassed
      refine Or.inr ⟨_, ?_, hphase, hkey⟩
      rw [List.getElem?_set_self hi]

theorem Consistent.act {setup : Setup} {sys : System} (h : Consistent setup sys) {i : ℕ}
    {input : Input} {c : Conn} (hturn : sys.turn i input = some c)
    (hfits : sys.Fits (.act i input)) :
    Consistent setup (sys.step setup (.act i input)) := by
  obtain ⟨hclock, hc⟩ := turn_eq_some.1 hturn
  obtain ⟨hi, -⟩ := List.getElem?_eq_some_iff.1 hc
  refine ⟨?_, ?_, ?_⟩
  · intro j c₁ hc₁
    rw [step_act hturn] at hc₁ ⊢
    dsimp only at hc₁
    by_cases heq : i = j
    · subst heq
      rw [List.getElem?_set_self hi] at hc₁
      obtain rfl := Option.some.inj hc₁
      exact Conn.step_tracked setup (h.tracked i c hc) sys.store input input.tick.ms
    · rw [List.getElem?_set_ne heq] at hc₁
      exact (h.tracked j c₁ hc₁).mono (List.subset_append_left _ _)
  · intro e he
    rw [step_act hturn] at he ⊢
    rcases List.mem_append.1 he with he | he
    · exact (h.clock e he).trans hclock
    · obtain ⟨a, -, rfl⟩ := List.mem_map.1 he
      exact le_rfl
  · intro key pending hpending hstruck
    have hstep := hpending
    rw [step_act hturn] at hstep
    rcases c.step_candidate setup hstep with ⟨old, hold, hstamp, hnote⟩ |
      ⟨profile, hphase, rfl, hkind, hnew, hfree, hstamp⟩
    · rw [← hstamp] at hstruck ⊢
      obtain ⟨e, he⟩ := h.pending key old hold hstruck
      exact ⟨e, he.act hturn hnote⟩
    · -- The strike is stamped now; it was good, so nothing got through since its failure.
      have htracked := h.tracked i c hc
      rw [Conn.Tracked, hphase] at htracked
      obtain ⟨e, he, hconn, hfailed⟩ := htracked.failed hkind
      have hgood := hfits c hturn profile (by rw [hphase]; rfl) hkind hnew e he hconn hfailed
      have hquiet := hgood.1 hfree
      refine ⟨e, htracked.learning, ?_, hfailed, ?_, ?_, ?_⟩
      · rw [step_act hturn]
        exact List.mem_append_left _ he
      · have hms := (h.clock e he).trans hclock
        rw [hstamp, Tick.moment]
        dsimp only
        omega
      · refine ⟨(c.step setup sys.store input).2, ?_, Or.inl ?_⟩
        · rw [step_act hturn, hconn, List.getElem?_set_self hi]
        · rw [Conn.step, hphase]
      · intro e' he' hpassed
        rw [step_act hturn] at he'
        rcases List.mem_append.1 he' with he' | he'
        · exact Or.inl (hquiet e' he' hpassed)
        · obtain ⟨-, hnoted, -⟩ := Conn.observed_passed htracked.learning he' hpassed
          rw [Conn.step, hphase] at hnoted
          cases hnoted

theorem Consistent.step {setup : Setup} {sys : System} (h : Consistent setup sys)
    (event : Event) (hfits : sys.Fits event) : Consistent setup (sys.step setup event) := by
  cases event with
  | accept networkId targetHost transparent sends recvs =>
      exact h.accept networkId targetHost transparent sends recvs
  | act i input =>
      cases hturn : sys.turn i input with
      | none =>
          rw [System.step, hturn]
          exact h
      | some c => exact h.act hturn hfits

/-- A good strike that makes a winner is the second of two failures a minute apart. -/
theorem Consistent.confirmed {setup : Setup} {sys : System} (h : Consistent setup sys) {i : ℕ}
    {input : Input} {c : Conn} {profile : Profile} (hfits : sys.Fits (.act i input))
    (hturn : sys.turn i input = some c) (hphase : c.phase = .rememberWin profile)
    (houtcome : (c.learned sys.store profile input).2.1 = .learned) :
    TwoFailures sys.log c.key := by
  obtain ⟨-, hc⟩ := turn_eq_some.1 hturn
  have htracked := h.tracked i c hc
  rw [Conn.Tracked, hphase] at htracked
  obtain ⟨⟨_, _, _, _, _, hop, -⟩, hnew, pending, hlookup, hlive, hstruck, hgap⟩ :=
    remember_learned (Or.inr htracked.kind) houtcome
  have hkind : c.verdict.kind = .sniInterferenceLikely := by
    injection hop
  rw [findProfile_name] at hnew
  obtain ⟨b, hb, hconn, hfailed⟩ := htracked.failed hkind
  obtain ⟨-, hconfirm⟩ := hfits c hturn profile (by rw [hphase]; rfl) hkind hnew b hb hconn hfailed
  have hpending : pendingStrike sys.store c.key input.tick.moment = some pending := by
    rw [pendingStrike, Conn.key, hlookup]
    simp [hlive, hstruck]
  obtain ⟨hquiet, hnoted, hspaced⟩ := hconfirm pending hpending hgap
  obtain ⟨a, ha⟩ := h.pending _ pending hlookup hstruck
  refine ⟨a, ha.mem, b, hb, ?_, ha.failed, hfailed, ?_, ?_⟩
  · intro heq
    obtain ⟨c₁, hc₁, hended⟩ := ha.ended
    rw [heq, hconn, hc] at hc₁
    obtain rfl := Option.some.inj hc₁
    rcases hended with hended | hended | hended | hended <;> rw [hphase] at hended <;> cases hended
  · have hbefore := ha.before
    omega
  · rintro e he hpassed ⟨hfrom, -⟩
    rcases ha.passed e he hpassed with hearlier | ⟨c₁, hc₁, hnote, hkey⟩
    · omega
    · exact hnoted c₁ (List.mem_of_getElem? hc₁) hkey hnote

theorem Consistent.learned {setup : Setup} {sys : System} (h : Consistent setup sys)
    {event : Event} (hfits : sys.Fits event) {key : Bytes}
    (hreport : sys.report event = some (key, .learned)) : TwoFailures sys.log key := by
  cases event with
  | accept => cases hreport
  | act i input =>
      rw [report] at hreport
      cases hturn : sys.turn i input with
      | none =>
          rw [hturn] at hreport
          cases hreport
      | some c =>
          rw [hturn] at hreport
          dsimp only at hreport
          split at hreport
          · obtain ⟨-, houtcome⟩ := Prod.mk.inj (Option.some.inj hreport)
            obtain ⟨⟨_, _, _, profile, _, hop, hprofile, hne, -⟩, -⟩ :=
              remember_learned (Or.inl rfl) houtcome
            injection hop with _ _ hname
            rw [← hname, findProfile_name] at hprofile
            exact absurd (Option.some.inj hprofile).symm hne
          · rename_i profile hphase
            obtain ⟨rfl, houtcome⟩ := Prod.mk.inj (Option.some.inj hreport)
            exact h.confirmed hfits hturn hphase houtcome
          · cases hreport

theorem Consistent.run {setup : Setup} {sys : System} (h : Consistent setup sys)
    (events : List Event) {later : List Event} (hmeets : Meets setup sys (events ++ later)) :
    Consistent setup (History.run (System.step setup) sys events) ∧
      Meets setup (History.run (System.step setup) sys events) later := by
  induction events generalizing sys with
  | nil => exact ⟨h, hmeets⟩
  | cons event events ih =>
      obtain ⟨hfits, hmeets⟩ := hmeets
      exact ih (h.step event hfits) hmeets

theorem consistent_start (setup : Setup) {start : Store} (hstart : Opened start) :
    Consistent setup { store := start } where
  tracked := by
    intro i c hc
    cases hc
  clock := by
    intro e he
    cases he
  pending := by
    intro key pending hpending hstruck
    obtain ⟨-, before, strike, after, hnil, -⟩ :=
      hstart.strikesOnRecord key pending hpending hstruck
    simp at hnil

/-- In a run whose every strike is good when it is reported, a winner is learned only
after two connections saw their untouched attempts fail a minute apart, with no
untouched attempt in between that got through. -/
theorem learned_twoFailures (setup : Setup) {start : Store} (hstart : Opened start)
    (events : List Event) (hmeets : Meets setup { store := start } events)
    (before : List Event) (event : Event) (after : List Event)
    (hevents : events = before ++ event :: after) (key : Bytes)
    (hreport : (run (step setup) { store := start } before).report event =
      some (key, .learned)) :
    TwoFailures (run (step setup) { store := start } before).log key := by
  subst hevents
  obtain ⟨hconsistent, hfits, -⟩ := (consistent_start setup hstart).run before hmeets
  exact hconsistent.learned hfits hreport

/-! ## A burst -/

/-- A step of a connection at some millisecond. -/
def sampleAct (i ms : ℕ) (answers : List RecvResult) : Event :=
  .act i
    { tick := { ms, wall := 1 + min (ms / 1000) 100, wall_pos := by omega, wall_lt := by omega }
      rounds := 1
      connect := some ([], answers) }

/-- A connection whose untouched attempt is reset. -/
def sampleStruck (i ms : ℕ) : List Event :=
  .accept (ofString "lan") (ofString "x") false [] [.data sampleBuffer] ::
    List.replicate 10 (sampleAct i ms [.failed])

/-- The first connection is through after four seconds. The second one fails its untouched
attempt a second later, and waits twice half a minute before it finds a way. -/
def sampleBurst : List Event :=
  sampleStruck 0 3000 ++ List.replicate 3 (sampleAct 0 4000 [.data Conn.sampleServerHello]) ++
    sampleStruck 1 5000 ++ [sampleAct 1 35000 [.timedOut], sampleAct 1 65000 [.timedOut]] ++
    List.replicate 7 (sampleAct 1 66000 [.data Conn.sampleServerHello])

/-- The second connection comes more than a minute after the first. -/
def samplePair : List Event :=
  sampleStruck 0 3000 ++ List.replicate 3 (sampleAct 0 4000 [.data Conn.sampleServerHello]) ++
    sampleStruck 1 70000 ++ List.replicate 2 (sampleAct 1 71000 [.data Conn.sampleServerHello])

/-- Two failures two seconds apart make a winner. -/
theorem burst_learns :
    Opened {} ∧
      (run (step {}) { store := {} } sampleBurst).report (sampleAct 1 66000 []) =
        some (ofString "lan|a.bc", .learned) ∧
      ¬ TwoFailures (run (step {}) { store := {} } sampleBurst).log (ofString "lan|a.bc") := by
  refine ⟨Or.inl rfl, ?_, ?_⟩
  · decide +kernel
  · decide +kernel

theorem learned_twoFailures_sample :
    (run (step {}) { store := {} } samplePair).report (sampleAct 1 71000 []) =
        some (ofString "lan|a.bc", .learned) ∧
      TwoFailures (run (step {}) { store := {} } samplePair).log (ofString "lan|a.bc") := by
  have hreport : (run (step {}) { store := {} } samplePair).report (sampleAct 1 71000 []) =
      some (ofString "lan|a.bc", .learned) := by
    decide +kernel
  refine ⟨hreport, ?_⟩
  refine learned_twoFailures {} (Or.inl rfl) (samplePair ++ [sampleAct 1 71000 []]) ?_ samplePair
    (sampleAct 1 71000 []) [] rfl (ofString "lan|a.bc") hreport
  decide +kernel

end System

end Relay

end SplitHello
