import SplitHello.Relay.Connection
import SplitHello.Strategy.RoundTrip

/-!
# What a step does to the books

A connection keeps books on its attempts: the rest of the probe order, the evidence,
and whether the winner failed. `Round` lists everything one round of the probe loop
can do to them, `Moves` everything a step can, and `step_store` says that a step
changes the store by one call at most. In learning mode the probe order names no
profile twice, so every profile has at most one attempt as evidence.
-/

namespace SplitHello

namespace Relay

open ByteString Tls Strategy Diagnosis KeyedTable History

namespace Conn

/-- The ways a ServerHello can lead on. -/
structure Leads (setup : Setup) (profile : Profile) (verdict : Verdict) (phase : Phase) :
    Prop where
  cases : phase = .flush ∨
    setup.forcedProfile = none ∧ profile = .none ∧ phase = .noteHealthy ∨
    setup.forcedProfile = none ∧ profile ≠ .none ∧ verdict.kind ≠ .transientFailure ∧
      phase = .settleWin profile
  baseline : setup.forcedProfile = none → profile = .none → phase = .noteHealthy

theorem successPhase_leads (setup : Setup) (c : Conn) (profile : Profile) (input : Input) :
    Leads setup profile c.verdict (successPhase setup c profile input) := by
  rw [successPhase]
  split
  · rename_i hforced
    refine ⟨Or.inl rfl, fun hnone => ?_⟩
    rw [hnone] at hforced
    cases hforced
  · rename_i hforced
    have hforced : setup.forcedProfile = none := by simpa using hforced
    split
    · rename_i hprofile
      exact ⟨Or.inr (Or.inl ⟨hforced, hprofile, rfl⟩), fun _ _ => rfl⟩
    · rename_i hprofile
      split
      · exact ⟨Or.inl rfl, fun _ h => absurd h hprofile⟩
      · split
        · exact ⟨Or.inl rfl, fun _ h => absurd h hprofile⟩
        · exact ⟨Or.inr (Or.inr ⟨hforced, hprofile, ‹_›, rfl⟩), fun _ h => absurd h hprofile⟩

/-- What one round of the probe loop can do. Endpoints are left open here. -/
inductive Round (setup : Setup) (c : Conn) : Conn → Prop
  | gaveUp {target : Option Endpoint} {dropped : List Endpoint} :
      Round setup c (giveUp { c with target, dropped })
  | passed {profile : Profile} {order : List Profile} {attempts : ℕ}
      {target : Option Endpoint} {dropped : List Endpoint}
      (horder : c.order = profile :: order) :
      Round setup c { c with order, attempts, target, dropped }
  | failed {profile : Profile} {order : List Profile} {attempts elapsedMs : ℕ}
      {target : Option Endpoint} {dropped : List Endpoint} {signal : ProbeSignal}
      (horder : c.order = profile :: order) (hsignal : signal ≠ .serverHello) :
      Round setup c { c with
        order, attempts, target, dropped
        evidence := c.evidence ++ [⟨profile, signal, elapsedMs⟩]
        rememberedFailed := c.rememberedFailed ||
          (setup.forcedProfile.isNone && c.remembered = some profile)
        firstResponse := [] }
  | won {profile : Profile} {order : List Profile} {attempts elapsedMs : ℕ}
      {target : Option Endpoint} {dropped : List Endpoint} {firstResponse : Bytes}
      {phase : Phase} (horder : c.order = profile :: order)
      (hphase : Leads setup profile
        (infer (c.evidence ++ [⟨profile, .serverHello, elapsedMs⟩]) c.context) phase) :
      Round setup c { c with
        order, attempts, target, dropped, firstResponse, phase
        evidence := c.evidence ++ [⟨profile, .serverHello, elapsedMs⟩]
        activeProfile := profile
        verdict := infer (c.evidence ++ [⟨profile, .serverHello, elapsedMs⟩]) c.context }

theorem probe_round (setup : Setup) (c : Conn) {profile : Profile} {order : List Profile}
    (horder : c.order = profile :: order) (attempts : ℕ) (target : Option Endpoint)
    (dropped : List Endpoint) (plan : FragmentPlan) (input : Input) :
    Round setup c
      (probe setup { c with order, attempts, target, dropped } profile plan input) := by
  rw [probe, sendTarget]
  cases target with
  | none => exact .passed horder
  | some t =>
      dsimp only
      split
      · rename_i c' hc'
        obtain ⟨-, rfl⟩ := Prod.mk.inj hc'
        exact .passed horder
      · rename_i c' hc'
        obtain ⟨-, rfl⟩ := Prod.mk.inj hc'
        rw [judge]
        dsimp only
        split
        · rename_i hsignal
          have hlead := successPhase_leads setup { c with
              order, attempts, dropped
              target := some (Endpoint.awaitResponse { t with
                socket := (writePlan c.clientBuffer c.hello c.helloComplete plan t.socket).2 }).2.2
              firstResponse := (Endpoint.awaitResponse { t with
                socket := (writePlan c.clientBuffer c.hello c.helloComplete plan t.socket).2 }).2.1
              evidence := c.evidence ++
                [⟨profile, .serverHello, min input.elapsedMs (2 ^ 32 - 1)⟩]
              activeProfile := profile
              verdict := infer (c.evidence ++
                [⟨profile, .serverHello, min input.elapsedMs (2 ^ 32 - 1)⟩]) c.context }
            profile input
          rw [hsignal]
          exact .won horder hlead
        · exact .failed horder ‹_›

theorem attempt_round (setup : Setup) (c : Conn) (input : Input) :
    Round setup c (c.attempt setup input) := by
  rw [attempt]
  split
  · exact .gaveUp
  · rename_i profile order horder
    split
    · exact .gaveUp
    · split
      · exact .passed horder
      · split
        · exact probe_round setup c horder 1 c.target c.dropped _ input
        · rw [reconnect]
          cases input.connect with
          | none => exact .gaveUp
          | some script =>
              exact probe_round setup c horder (c.attempts + 1) _ (c.dropped ++ c.target.toList)
                _ input

/-! ## What the other steps leave alone -/

/-- Collecting the hello changes only what is known of the client. -/
theorem collectLoop_frame (rounds : ℕ) (c : Conn) :
    ∃ client clientBuffer hello helloComplete targetHost,
      (collectLoop rounds c).2 =
        { c with client, clientBuffer, hello, helloComplete, targetHost } := by
  induction rounds generalizing c with
  | zero => exact ⟨_, _, _, _, _, rfl⟩
  | succ rounds ih =>
      rw [collectLoop]
      split
      · exact ⟨_, _, _, _, _, rfl⟩
      · exact ⟨_, _, _, _, _, rfl⟩
      · split
        · exact ⟨_, _, _, _, _, rfl⟩
        · dsimp only
          split
          · exact ⟨_, _, _, _, _, rfl⟩
          · split
            · exact ⟨_, _, _, _, _, rfl⟩
            · obtain ⟨client, clientBuffer, hello, helloComplete, targetHost, heq⟩ := ih _
              exact ⟨client, clientBuffer, hello, helloComplete, targetHost, heq⟩
          · exact ⟨_, _, _, _, _, rfl⟩

theorem prepare_frame (c : Conn) (stages : List Stage) (input : Input) :
    ∃ client clientBuffer hello helloComplete targetHost target dropped phase,
      c.prepare stages input =
        { c with client, clientBuffer, hello, helloComplete, targetHost, target, dropped, phase } ∧
      (phase = .closed ∨ phase = .deliver ∨ ∃ stages, phase = .prepare stages) := by
  cases stages with
  | nil => exact ⟨_, _, _, _, _, _, _, _, rfl, Or.inr (Or.inl rfl)⟩
  | cons stage stages =>
      cases stage with
      | candidates =>
          rw [prepare]
          split
          · exact ⟨_, _, _, _, _, _, _, _, rfl, Or.inr (Or.inr ⟨_, rfl⟩)⟩
          · exact ⟨_, _, _, _, _, _, _, _, rfl, Or.inl rfl⟩
      | connect =>
          rw [prepare, reconnect]
          cases input.connect with
          | none => exact ⟨_, _, _, _, _, _, _, _, rfl, Or.inl rfl⟩
          | some script => exact ⟨_, _, _, _, _, _, _, _, rfl, Or.inr (Or.inr ⟨_, rfl⟩)⟩
      | collect =>
          obtain ⟨client, clientBuffer, hello, helloComplete, targetHost, heq⟩ :=
            collectLoop_frame input.rounds { c with clientBuffer := [], helloComplete := false }
          rw [prepare, collectClientHello]
          split
          · rename_i c' hc'
            rw [hc'] at heq
            dsimp only at heq
            rw [heq]
            exact ⟨_, _, _, _, _, _, _, _, rfl, Or.inl rfl⟩
          · rename_i c' hc'
            rw [hc'] at heq
            dsimp only at heq
            rw [heq]
            exact ⟨_, _, _, _, _, _, _, _, rfl, Or.inr (Or.inr ⟨_, rfl⟩)⟩

theorem sendTarget_frame (c : Conn) (write : Socket → Bool × Socket) :
    ∃ target, (c.sendTarget write).2 = { c with target } := by
  rw [sendTarget]
  split
  · exact ⟨_, rfl⟩
  · exact ⟨_, rfl⟩

theorem deliver_frame (c : Conn) :
    ∃ target activeProfile phase, c.deliver = { c with target, activeProfile, phase } ∧
      (phase = .flush ∨ phase = .handOff ∨ phase = .order) := by
  have hwhole : ∀ c' : Conn, ∃ target phase, c'.sendWhole = { c' with target, phase } ∧
      (phase = .flush ∨ phase = .handOff ∨ phase = .order) := by
    intro c'
    obtain ⟨target, heq⟩ := c'.sendTarget_frame (sendAll · c'.clientBuffer)
    rw [sendWhole]
    dsimp only
    rw [heq]
    split
    · exact ⟨_, _, rfl, Or.inl rfl⟩
    · exact ⟨_, _, rfl, Or.inr (Or.inl rfl)⟩
  rw [deliver]
  split
  · exact ⟨_, _, _, rfl, Or.inl rfl⟩
  · split
    · obtain ⟨target, phase, heq, hphase⟩ := hwhole c
      exact ⟨target, _, phase, heq, hphase⟩
    · split
      · obtain ⟨target, phase, heq, hphase⟩ := hwhole { c with activeProfile := .none }
        exact ⟨target, _, phase, heq, hphase⟩
      · exact ⟨_, _, _, rfl, Or.inr (Or.inr rfl)⟩

theorem flush_frame (c : Conn) :
    ∃ client target clientBuffer firstResponse phase,
      c.flush = { c with client, target, clientBuffer, firstResponse, phase } ∧
      (phase = .handOff ∨ phase = .pump ∨ phase = .closed) := by
  have htrailing : ∃ target, c.flushTrailingClientData.2 = { c with target } := by
    rw [flushTrailingClientData]
    split
    · exact ⟨_, rfl⟩
    · exact sendTarget_frame _ _
  obtain ⟨target, htrailing⟩ := htrailing
  rw [flush]
  split
  · rename_i c' hc'
    rw [hc'] at htrailing
    dsimp only at htrailing
    rw [htrailing]
    exact ⟨_, _, _, _, _, rfl, Or.inl rfl⟩
  · rename_i c' hc'
    rw [hc'] at htrailing
    dsimp only at htrailing
    rw [htrailing]
    exact ⟨_, _, _, _, _, rfl, Or.inr (ite_eq_or_eq _ _ _)⟩

/-- Nothing was tried yet, and the store was not asked. -/
def Early (phase : Phase) : Prop :=
  phase = .start ∨ (∃ stages, phase = .prepare stages) ∨ phase = .deliver

/-- Everything a step can do. Endpoints are left open here. -/
inductive Moves (setup : Setup) (c : Conn) (s : Store) (input : Input) : Store × Conn → Prop
  | early {client : Endpoint} {clientBuffer : Bytes} {hello : ClientHello} {helloComplete : Bool}
      {targetHost : Bytes} {target : Option Endpoint} {dropped : List Endpoint}
      {activeProfile : Profile} {phase : Phase} (hfrom : Early c.phase)
      (hto : Early phase ∨ phase = .order ∨ phase = .flush ∨ phase = .handOff ∨
        phase = .closed) :
      Moves setup c s input (s, { c with
        client, clientBuffer, hello, helloComplete, targetHost, target, dropped, activeProfile,
        phase })
  | ordered (hfrom : c.phase = .order) (hlearning : setup.forcedProfile = none) :
      Moves setup c s input
        ((s.probeOrder input.tick.moment c.networkId c.targetHost c.hello).1, { c with
          order := (s.probeOrder input.tick.moment c.networkId c.targetHost c.hello).2
          phase := .lookup })
  | forced {order : List Profile} (hfrom : c.phase = .order)
      (hforced : setup.forcedProfile ≠ none) :
      Moves setup c s input (s, { c with order, phase := .lookup })
  | looked (hfrom : c.phase = .lookup) :
      Moves setup c s input (s, { c with
        remembered := s.lookup c.networkId c.targetHost input.tick.moment
        phase := .health })
  | asked {context : Context} (hfrom : c.phase = .health)
      (hcontext : setup.forcedProfile = none → context =
        ⟨c.remembered, s.baselineRecentlyHealthy input.tick.moment c.networkId c.targetHost⟩) :
      Moves setup c s input (s, { c with context, phase := .attempt })
  | tried {c' : Conn} (hfrom : c.phase = .attempt) (hround : Round setup c c') :
      Moves setup c s input (s, c')
  | noted {phase : Phase} (hfrom : c.phase = .noteHealthy)
      (hto : phase = .rememberNone ∨ phase = .flush) :
      Moves setup c s input
        ((s.noteBaselineHealthy input.tick.moment c.networkId c.targetHost).1, { c with phase })
  | retired (hfrom : c.phase = .rememberNone) :
      Moves setup c s input ((c.learned s .none input).1, { c with phase := .flush })
  | settled {profile : Profile} (hfrom : c.phase = .settleWin profile) :
      Moves setup c s input
        (c.settleFailure setup s, { c with phase := .rememberWin profile })
  | remembered {profile : Profile} {verdict : Diagnosis.Verdict}
      (hfrom : c.phase = .rememberWin profile) :
      Moves setup c s input
        ((c.learned s profile input).1, { c with verdict, phase := .flush })
  | lost (hfrom : c.phase = .settleLoss) :
      Moves setup c s input (c.settleFailure setup s, { c with phase := .handOff })
  | flushed {client : Endpoint} {target : Option Endpoint} {clientBuffer firstResponse : Bytes}
      {phase : Phase} (hfrom : c.phase = .flush)
      (hto : phase = .handOff ∨ phase = .pump ∨ phase = .closed) :
      Moves setup c s input
        (s, { c with client, target, clientBuffer, firstResponse, phase })
  | idle (hfrom : c.phase = .pump ∨ c.phase = .handOff ∨ c.phase = .closed) :
      Moves setup c s input (s, c)

theorem step_moves (setup : Setup) (c : Conn) (s : Store) (input : Input) :
    Moves setup c s input (c.step setup s input) := by
  rw [step]
  cases hphase : c.phase with
  | start =>
      dsimp only
      split
      · exact .early (Or.inl hphase) (Or.inr (Or.inr (Or.inr (Or.inr rfl))))
      · exact .early (Or.inl hphase) (Or.inl (Or.inr (Or.inl ⟨_, rfl⟩)))
  | prepare stages =>
      have hfrom : Early c.phase := Or.inr (Or.inl ⟨stages, hphase⟩)
      obtain ⟨_, _, _, _, _, _, _, phase, heq, hcases⟩ := c.prepare_frame stages input
      dsimp only
      rw [heq]
      rcases hcases with rfl | rfl | ⟨_, rfl⟩
      · exact .early hfrom (Or.inr (Or.inr (Or.inr (Or.inr rfl))))
      · exact .early hfrom (Or.inl (Or.inr (Or.inr rfl)))
      · exact .early hfrom (Or.inl (Or.inr (Or.inl ⟨_, rfl⟩)))
  | deliver =>
      have hfrom : Early c.phase := Or.inr (Or.inr hphase)
      obtain ⟨_, _, phase, heq, hcases⟩ := c.deliver_frame
      dsimp only
      rw [heq]
      rcases hcases with rfl | rfl | rfl
      · exact .early hfrom (Or.inr (Or.inr (Or.inl rfl)))
      · exact .early hfrom (Or.inr (Or.inr (Or.inr (Or.inl rfl))))
      · exact .early hfrom (Or.inr (Or.inl rfl))
  | order =>
      dsimp only
      split
      · exact .ordered hphase ‹_›
      · rename_i hforced
        exact .forced hphase (by rw [hforced]; simp)
  | lookup => exact .looked hphase
  | health =>
      refine .asked hphase ?_
      intro hlearning
      rw [hlearning]
      rfl
  | attempt => exact .tried hphase (c.attempt_round setup input)
  | noteHealthy => exact .noted hphase (ite_eq_or_eq _ _ _)
  | rememberNone => exact .retired hphase
  | settleWin profile => exact .settled hphase
  | rememberWin profile => exact .remembered hphase
  | settleLoss => exact .lost hphase
  | flush =>
      obtain ⟨_, _, _, _, phase, heq, hcases⟩ := c.flush_frame
      dsimp only
      rw [heq]
      exact .flushed hphase hcases
  | pump => exact .idle (Or.inl hphase)
  | handOff => exact .idle (Or.inr (Or.inl hphase))
  | closed => exact .idle (Or.inr (Or.inr hphase))

/-! ## The store -/

/-- The call of the store that a step makes. -/
def call (setup : Setup) (c : Conn) : Option Op :=
  match c.phase with
  | .order =>
      if setup.forcedProfile.isNone then some (.probeOrder c.networkId c.targetHost c.hello)
      else none
  | .noteHealthy => some (.noteBaselineHealthy c.networkId c.targetHost)
  | .rememberNone =>
      some (.remember c.networkId c.targetHost Profile.none.name c.verdict.kind
        c.verdict.confidence)
  | .rememberWin profile =>
      some (.remember c.networkId c.targetHost profile.name c.verdict.kind c.verdict.confidence)
  | .settleWin _ | .settleLoss =>
      if setup.forcedProfile.isNone && c.rememberedFailed then
        c.remembered.map (.recordFailure c.networkId c.targetHost)
      else none
  | _ => none

/-- The calls there are, with the phase each is made in. -/
inductive Calls (setup : Setup) (c : Conn) : Op → Prop
  | ordered (hphase : c.phase = .order) (hlearning : setup.forcedProfile = none) :
      Calls setup c (.probeOrder c.networkId c.targetHost c.hello)
  | noted (hphase : c.phase = .noteHealthy) :
      Calls setup c (.noteBaselineHealthy c.networkId c.targetHost)
  | retired (hphase : c.phase = .rememberNone) :
      Calls setup c (.remember c.networkId c.targetHost Profile.none.name c.verdict.kind
        c.verdict.confidence)
  | won {profile : Profile} (hphase : c.phase = .rememberWin profile) :
      Calls setup c (.remember c.networkId c.targetHost profile.name c.verdict.kind
        c.verdict.confidence)
  | settled {failed : Profile} (hlearning : setup.forcedProfile = none) :
      Calls setup c (.recordFailure c.networkId c.targetHost failed)

theorem calls_of_call {setup : Setup} {c : Conn} {op : Op} (h : c.call setup = some op) :
    Calls setup c op := by
  have hsettled (hcall : (if setup.forcedProfile.isNone && c.rememberedFailed then
      c.remembered.map (Op.recordFailure c.networkId c.targetHost) else none) = some op) :
      Calls setup c op := by
    rw [Option.ite_none_right_eq_some, Bool.and_eq_true, Option.isNone_iff_eq_none] at hcall
    obtain ⟨⟨hlearning, -⟩, hcall⟩ := hcall
    obtain ⟨failed, -, rfl⟩ := Option.map_eq_some_iff.1 hcall
    exact .settled hlearning
  rw [call] at h
  cases hphase : c.phase <;> rw [hphase] at h
  case order =>
    obtain ⟨hlearning, hop⟩ := Option.ite_none_right_eq_some.1 h
    obtain rfl := Option.some.inj hop
    exact .ordered hphase (Option.isNone_iff_eq_none.1 hlearning)
  case noteHealthy =>
    cases h
    exact .noted hphase
  case rememberNone =>
    cases h
    exact .retired hphase
  case rememberWin profile =>
    cases h
    exact .won hphase
  case settleWin profile => exact hsettled h
  case settleLoss => exact hsettled h
  all_goals cases h

theorem settleFailure_store (setup : Setup) (c : Conn) (s : Store) (now : Moment) :
    c.settleFailure setup s =
      match
        if setup.forcedProfile.isNone && c.rememberedFailed then
          c.remembered.map (Op.recordFailure c.networkId c.targetHost)
        else none
      with
      | none => s
      | some op => s.apply ⟨now, op⟩ := by
  rw [settleFailure]
  split
  · cases c.remembered <;> rfl
  · rfl

/-- A step calls the store once at most. -/
theorem step_store (setup : Setup) (c : Conn) (s : Store) (input : Input) :
    (c.step setup s input).1 =
      match c.call setup with
      | none => s
      | some op => s.apply ⟨input.tick.moment, op⟩ := by
  rw [step, call]
  cases c.phase with
  | start =>
      dsimp only
      split <;> rfl
  | order =>
      dsimp only
      cases setup.forcedProfile <;> rfl
  | settleWin profile => exact settleFailure_store setup c s input.tick.moment
  | settleLoss => exact settleFailure_store setup c s input.tick.moment
  | _ => rfl

/-! ## The probe order -/

/-- A store as some history of calls left it. -/
def Reached (s : Store) : Prop := ∃ calls, s = run Store.apply {} calls

theorem Reached.step {s : Store} (h : Reached s) (setup : Setup) (c : Conn) (input : Input) :
    Reached (c.step setup s input).1 := by
  obtain ⟨calls, rfl⟩ := h
  rw [step_store]
  split
  · exact ⟨calls, rfl⟩
  · rename_i op _
    exact ⟨calls ++ [⟨input.tick.moment, op⟩], by rw [run_concat]⟩

/-- The baseline is never a winner or a candidate. -/
theorem Reached.profile_ne {s : Store} (h : Reached s) :
    (∀ key e, s.entries.lookup key = some e → e.profile ≠ .none) ∧
      ∀ key c, s.candidates.lookup key = some c → c.profile ≠ .none := by
  obtain ⟨calls, rfl⟩ := h
  obtain ⟨wall, hsound⟩ := exists_sound calls
  exact ⟨fun key e he => (hsound.entry key e he).profile_ne,
    fun key c hc => (hsound.candidate key c hc).profile_ne⟩

theorem nodup_probeRest (hello : ClientHello) (lead : Option Profile) (baselineQueued : Bool) :
    (Store.probeRest hello lead baselineQueued).Nodup :=
  nodup_profileTable.filter _

theorem notMem_probeRest {hello : ClientHello} {lead : Profile} {baselineQueued : Bool} :
    lead ∉ Store.probeRest hello (some lead) baselineQueued := by
  simp [Store.probeRest]

theorem none_notMem_probeRest {hello : ClientHello} {lead : Option Profile} :
    Profile.none ∉ Store.probeRest hello lead true := by
  simp [Store.probeRest]

theorem nodup_probeOrder {s : Store} (hs : Reached s) (now : Moment) (networkId host : Bytes)
    (hello : ClientHello) : (s.probeOrder now networkId host hello).2.Nodup := by
  obtain ⟨hentries, hcandidates⟩ := hs.profile_ne
  have hled : ∀ p : Profile, p ≠ .none →
      (Profile.none :: p :: Store.probeRest hello (some p) true).Nodup := by
    intro p hp
    refine List.nodup_cons.2 ⟨?_, List.nodup_cons.2 ⟨notMem_probeRest, nodup_probeRest _ _ _⟩⟩
    simp only [List.mem_cons, not_or]
    exact ⟨hp.symm, none_notMem_probeRest⟩
  rw [Store.probeOrder]
  split
  · exact List.nodup_singleton _
  · dsimp only
    split
    · rename_i entry hlive
      split
      · exact hled _ (hentries _ _ (liveEntry_eq_some.1 hlive).1)
      · exact List.nodup_cons.2 ⟨notMem_probeRest, nodup_probeRest _ _ _⟩
    · split
      · rename_i candidate hcandidate
        exact hled _ (hcandidates _ _ (Option.filter_eq_some_iff.1 hcandidate).1)
      · exact nodup_probeRest hello none false

end Conn

end Relay

end SplitHello
