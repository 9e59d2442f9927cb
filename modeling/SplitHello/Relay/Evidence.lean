import SplitHello.Relay.ProbeOrder

/-!
# What reaches the store

A connection reports to the store what its attempts showed. The evidence names every
profile once and ends at the first ServerHello. A profile is reported as a winner only
if it drew that ServerHello, as a differential only against an untouched attempt of the
same connection that failed, and a packet profile only if its policy was applied. With a
profile forced by the user the store is left alone.
-/

namespace SplitHello

namespace Relay

open ByteString Tls Strategy Diagnosis KeyedTable History

namespace Conn

/-! ## What a round shows -/

/-- No attempt was answered so far, and none will be made twice. -/
structure Open (c : Conn) : Prop where
  nodup : (c.evidence.map Attempt.profile ++ c.order).Nodup
  unanswered : ∀ a ∈ c.evidence, a.signal ≠ .serverHello

/-- The evidence at any time: profiles differ, and a ServerHello is the last thing in it
and the one the connection goes on with. -/
structure Orderly (c : Conn) : Prop where
  nodup : (c.evidence.map Attempt.profile).Nodup
  last : ∀ before a after, c.evidence = before ++ a :: after → a.signal = .serverHello →
    after = [] ∧ c.verdict.winningProfile = some a.profile ∧ c.activeProfile = a.profile

/-- The policy of a packet profile was applied, as far as this step was told. -/
def PolicyApplied (setup : Setup) (input : Input) : Prop :=
  setup.packetPolicies = true ∧ input.localPort ≠ 0 ∧ input.applied = true

/-- A profile other than the baseline won, and it will be reported. -/
structure Winning (setup : Setup) (c : Conn) (profile : Profile) : Prop where
  orderly : c.Orderly
  learning : setup.forcedProfile = none
  ne_none : profile ≠ .none
  answered : ∃ elapsedMs, ⟨profile, .serverHello, elapsedMs⟩ ∈ c.evidence
  verdict : c.verdict = infer c.evidence c.context
  kind : c.verdict.kind = .learnedProfile ∨ c.verdict.kind = .sniInterferenceLikely

theorem Orderly.of_nil {c : Conn} (h : c.evidence = []) : c.Orderly := by
  refine ⟨by simp [h], ?_⟩
  intro before a after heq
  rw [h] at heq
  cases before <;> cases heq

theorem Open.orderly {c : Conn} (h : c.Open) : c.Orderly := by
  refine ⟨h.nodup.of_append_left, ?_⟩
  intro before a after heq hsignal
  exact absurd hsignal (h.unanswered a (by simp [heq]))

theorem infer_concat {evidence : List Attempt} (h : ∀ a ∈ evidence, a.signal ≠ .serverHello)
    (profile : Profile) (elapsedMs : ℕ) (context : Context) :
    infer (evidence ++ [⟨profile, .serverHello, elapsedMs⟩]) context =
      inferSuccess (evidence ++ [⟨profile, .serverHello, elapsedMs⟩]) context
        ⟨profile, .serverHello, elapsedMs⟩ :=
  infer_of_findSuccess (findSuccess_concat h rfl)

theorem inferSuccess_winningProfile (attempts : List Attempt) (context : Context)
    (success : Attempt) :
    (inferSuccess attempts context success).winningProfile = some success.profile := by
  rw [inferSuccess]
  repeat' split
  all_goals rfl

/-- The books after a ServerHello. -/
theorem Open.won {c : Conn} (h : c.Open) {profile : Profile} {order : List Profile}
    (horder : c.order = profile :: order) (elapsedMs attempts : ℕ) (target : Option Endpoint)
    (dropped : List Endpoint) (firstResponse : Bytes) (phase : Phase) :
    Orderly { c with
      order, attempts, target, dropped, firstResponse, phase
      evidence := c.evidence ++ [⟨profile, .serverHello, elapsedMs⟩]
      activeProfile := profile
      verdict := infer (c.evidence ++ [⟨profile, .serverHello, elapsedMs⟩]) c.context } := by
  refine ⟨(nodup_concat h.nodup horder rfl).of_append_left, ?_⟩
  intro before a after heq hsignal
  dsimp only at heq ⊢
  rw [infer_concat h.unanswered, inferSuccess_winningProfile]
  rcases History.concat_eq_cases heq with ⟨rfl, -, rfl⟩ | ⟨rest, -, hevidence⟩
  · exact ⟨rfl, rfl, rfl⟩
  · exact absurd hsignal (h.unanswered a (by simp [hevidence]))

theorem Open.winning {setup : Setup} {c : Conn} (h : c.Open) {profile : Profile}
    {order : List Profile} (horder : c.order = profile :: order) (elapsedMs attempts : ℕ)
    (target : Option Endpoint) (dropped : List Endpoint) (firstResponse : Bytes) (phase : Phase)
    (hlearning : setup.forcedProfile = none) (hne : profile ≠ .none)
    (hkind : (infer (c.evidence ++ [⟨profile, .serverHello, elapsedMs⟩]) c.context).kind ≠
      .transientFailure) :
    Winning setup { c with
      order, attempts, target, dropped, firstResponse, phase
      evidence := c.evidence ++ [⟨profile, .serverHello, elapsedMs⟩]
      activeProfile := profile
      verdict := infer (c.evidence ++ [⟨profile, .serverHello, elapsedMs⟩]) c.context }
      profile := by
  refine ⟨h.won horder elapsedMs attempts target dropped firstResponse phase, hlearning, hne,
    ⟨elapsedMs, by simp⟩, rfl, ?_⟩
  dsimp only
  rw [infer_concat h.unanswered] at hkind ⊢
  have hne : (⟨profile, .serverHello, elapsedMs⟩ : Attempt).profile ≠ .none := hne
  rcases inferSuccess_kind hne with hsni | hlearned | htransient
  · exact Or.inr hsni
  · exact Or.inl hlearned
  · exact absurd htransient hkind

theorem successPhase_settleWin {setup : Setup} {c : Conn} {profile p : Profile} {input : Input}
    (h : successPhase setup c profile input = .settleWin p) :
    isPacketProfile p = true → PolicyApplied setup input := by
  rw [successPhase] at h
  split at h
  · cases h
  · split at h
    · cases h
    · split at h
      · cases h
      · rename_i hpacket
        split at h
        · cases h
        · cases h
          intro hp
          simp only [hp, Bool.true_and, Bool.not_eq_true', Bool.not_eq_false,
            Bool.and_eq_true, decide_eq_true_eq] at hpacket
          exact ⟨hpacket.1.1, hpacket.1.2, hpacket.2⟩

theorem judge_settleWin {setup : Setup} {c : Conn} {profile p : Profile} {input : Input}
    (h : (c.judge setup profile input).phase = .settleWin p) (hphase : c.phase = .attempt) :
    isPacketProfile p = true → PolicyApplied setup input := by
  rw [judge] at h
  split at h
  · rw [hphase] at h
    cases h
  · dsimp only at h
    split at h
    · exact successPhase_settleWin h
    · rw [hphase] at h
      cases h

theorem probe_settleWin {setup : Setup} {c : Conn} {profile p : Profile} {plan : FragmentPlan}
    {input : Input} (h : (c.probe setup profile plan input).phase = .settleWin p)
    (hphase : c.phase = .attempt) :
    isPacketProfile p = true → PolicyApplied setup input := by
  obtain ⟨target, hframe⟩ :=
    c.sendTarget_frame (writePlan c.clientBuffer c.hello c.helloComplete plan)
  rw [probe] at h
  split at h
  · rename_i c' hsent
    rw [hsent] at hframe
    dsimp only at hframe
    rw [hframe, hphase] at h
    cases h
  · rename_i c' hsent
    rw [hsent] at hframe
    dsimp only at hframe
    rw [hframe] at h
    exact judge_settleWin h hphase

/-- A packet profile that is to be reported had its policy applied in this round. -/
theorem attempt_settleWin {setup : Setup} {c : Conn} {p : Profile} {input : Input}
    (hphase : c.phase = .attempt) (h : (c.attempt setup input).phase = .settleWin p) :
    isPacketProfile p = true → PolicyApplied setup input := by
  rw [attempt] at h
  split at h
  · cases h
  · split at h
    · cases h
    · split at h
      · rw [hphase] at h
        cases h
      · split at h
        · exact probe_settleWin h hphase
        · split at h
          · cases h
          · rename_i c' hconnect
            obtain ⟨-, rfl⟩ := Prod.mk.inj hconnect
            exact probe_settleWin h hphase

/-! ## Runs -/

section

variable (setup : Setup) (first : Conn)

/-- Before the attempts the store was asked about the baseline, and this is what it said. -/
def HealthAsked (past : List (Store × Input)) (c : Conn) : Prop :=
  ∃ before turn after, past = before ++ turn :: after ∧
    (interleaved setup first before).phase = .health ∧
    c.context.baselineRecentlyHealthy =
      turn.1.baselineRecentlyHealthy turn.2.tick.moment c.networkId c.targetHost

/-- The round that a profile won in, and what was reported about its policy there. -/
def PolicyReported (past : List (Store × Input)) (profile : Profile) : Prop :=
  isPacketProfile profile = true → ∃ before turn after, past = before ++ turn :: after ∧
    (interleaved setup first before).phase = .attempt ∧
    (interleaved setup first (before ++ [turn])).phase = .settleWin profile ∧
    PolicyApplied setup turn.2

/-- What holds of a connection and its past in each phase. -/
def Backed (past : List (Store × Input)) (c : Conn) : Prop :=
  match c.phase with
  | .start | .prepare _ | .deliver | .order => c.evidence = []
  | .lookup | .health => c.evidence = [] ∧ c.order.Nodup
  | .attempt => c.Open ∧ (setup.forcedProfile = none → HealthAsked setup first past c)
  | .noteHealthy | .rememberNone => c.Orderly ∧ setup.forcedProfile = none
  | .settleWin profile | .rememberWin profile =>
      Winning setup c profile ∧ HealthAsked setup first past c ∧
        PolicyReported setup first past profile
  | .settleLoss | .flush | .pump | .handOff | .closed => c.Orderly

end

variable {setup : Setup} {first : Conn} {past : List (Store × Input)}

theorem HealthAsked.later {c c' : Conn} (h : HealthAsked setup first past c)
    (hcontext : c'.context = c.context) (hnetwork : c'.networkId = c.networkId)
    (hhost : c'.targetHost = c.targetHost) (turn : Store × Input) :
    HealthAsked setup first (past ++ [turn]) c' := by
  obtain ⟨before, asked, after, rfl, hphase, hhealth⟩ := h
  refine ⟨before, asked, after ++ [turn], by simp, hphase, ?_⟩
  rw [hcontext, hnetwork, hhost, hhealth]

theorem PolicyReported.later {profile : Profile} (h : PolicyReported setup first past profile)
    (turn : Store × Input) : PolicyReported setup first (past ++ [turn]) profile := by
  intro hpacket
  obtain ⟨before, round, after, rfl, hphase, hwon, happlied⟩ := h hpacket
  exact ⟨before, round, after ++ [turn], by simp, hphase, hwon, happlied⟩

theorem Backed.orderly {c : Conn} (h : Backed setup first past c) : c.Orderly := by
  rw [Backed] at h
  split at h
  · exact .of_nil h
  · exact .of_nil h
  · exact .of_nil h
  · exact .of_nil h
  · exact .of_nil h.1
  · exact .of_nil h.1
  · exact h.1.orderly
  · exact h.1
  · exact h.1
  · exact h.1.orderly
  · exact h.1.orderly
  · exact h
  · exact h
  · exact h
  · exact h
  · exact h

theorem Backed.evidence_eq_nil {c : Conn} (h : Backed setup first past c)
    (hfrom : Early c.phase ∨ c.phase = .order) : c.evidence = [] := by
  rw [Backed] at h
  rcases hfrom with (hphase | ⟨_, hphase⟩ | hphase) | hphase <;> rwa [hphase] at h

theorem order_nodup (setup : Setup) {s : Store} (hs : Reached s) {c : Conn}
    (hphase : c.phase = .order) (input : Input) :
    (c.step setup s input).2.phase = .lookup ∧ (c.step setup s input).2.order.Nodup ∧
      (c.step setup s input).2.evidence = c.evidence := by
  rw [step, hphase]
  dsimp only
  split
  · exact ⟨rfl, nodup_probeOrder hs _ _ _ _, rfl⟩
  · rename_i forced hforced
    refine ⟨rfl, ?_, rfl⟩
    dsimp only
    split
    · exact List.nodup_singleton _
    · simpa using ‹_›

theorem Verdict.after_winningProfile (verdict : Verdict) (outcome : Outcome) :
    (Verdict.after verdict outcome).winningProfile = verdict.winningProfile := by
  rw [Verdict.after]
  split <;> rfl

/-- The record of a suspicion names the same winner. -/
theorem Orderly.rememberWin {c : Conn} (h : c.Orderly) {profile : Profile}
    (hphase : c.phase = .rememberWin profile) (setup : Setup) (s : Store) (input : Input) :
    (c.step setup s input).2.phase = .flush ∧ (c.step setup s input).2.Orderly := by
  rw [Conn.step, hphase]
  dsimp only
  refine ⟨rfl, h.nodup, ?_⟩
  intro before a after heq hsignal
  dsimp only
  rw [Verdict.after_winningProfile]
  exact h.last before a after heq hsignal

/-- A round keeps the books backed. -/
theorem Backed.attempt {c : Conn} (h : Backed setup first past c) (hphase : c.phase = .attempt)
    (hc : c = interleaved setup first past) (turn : Store × Input)
    (hstep : interleaved setup first (past ++ [turn]) = c.attempt setup turn.2) :
    Backed setup first (past ++ [turn]) (c.attempt setup turn.2) := by
  have happlied (p : Profile) : (c.attempt setup turn.2).phase = .settleWin p →
      isPacketProfile p = true → PolicyApplied setup turn.2 := attempt_settleWin hphase
  have hround := c.attempt_round setup turn.2
  rw [Backed, hphase] at h
  obtain ⟨hopen, hasked⟩ := h
  generalize c.attempt setup turn.2 = c' at hstep happlied hround ⊢
  cases hround with
  | gaveUp => exact Open.orderly ⟨hopen.nodup, hopen.unanswered⟩
  | passed horder =>
      rw [Backed]
      dsimp only
      rw [hphase]
      refine ⟨⟨?_, hopen.unanswered⟩, fun hlearning => (hasked hlearning).later rfl rfl rfl turn⟩
      have hnodup := hopen.nodup
      rw [horder] at hnodup
      exact hnodup.sublist ((List.sublist_cons_self _ _).append_left _)
  | failed horder hsignal =>
      rw [Backed]
      dsimp only
      rw [hphase]
      refine ⟨⟨nodup_concat hopen.nodup horder rfl, ?_⟩,
        fun hlearning => (hasked hlearning).later rfl rfl rfl turn⟩
      intro a ha
      rcases List.mem_append.1 ha with ha | ha
      · exact hopen.unanswered a ha
      · rw [List.mem_singleton.1 ha]
        exact hsignal
  | won horder hlead =>
      rcases hlead.cases with rfl | ⟨hlearning, -, rfl⟩ | ⟨hlearning, hne, hkind, rfl⟩
      · exact hopen.won horder _ _ _ _ _ _
      · exact ⟨hopen.won horder _ _ _ _ _ _, hlearning⟩
      · refine ⟨hopen.winning horder _ _ _ _ _ _ hlearning hne hkind,
          (hasked hlearning).later rfl rfl rfl turn, fun hpacket => ?_⟩
        exact ⟨past, turn, [], rfl, by rw [← hc, hphase], by rw [hstep], happlied _ rfl hpacket⟩

theorem Backed.step {c : Conn} (h : Backed setup first past c)
    (hc : c = interleaved setup first past) (turn : Store × Input) (hs : Reached turn.1) :
    Backed setup first (past ++ [turn]) (c.step setup turn.1 turn.2).2 := by
  have hnext : interleaved setup first (past ++ [turn]) = (c.step setup turn.1 turn.2).2 := by
    rw [hc]
    exact History.run_concat _ _ _ _
  by_cases hattempt : c.phase = .attempt
  · have hstep : (c.step setup turn.1 turn.2).2 = c.attempt setup turn.2 := by
      rw [Conn.step, hattempt]
    rw [hstep] at hnext ⊢
    exact h.attempt hattempt hc turn hnext
  by_cases horder : c.phase = .order
  · obtain ⟨hphase, hnodup, hevidence⟩ := order_nodup setup hs horder turn.2
    have hnil := h.evidence_eq_nil (Or.inr horder)
    rw [Backed, hphase]
    exact ⟨hevidence.trans hnil, hnodup⟩
  by_cases hreport : ∃ profile, c.phase = .rememberWin profile
  · obtain ⟨profile, hreport⟩ := hreport
    obtain ⟨hphase, horderly⟩ := h.orderly.rememberWin hreport setup turn.1 turn.2
    rw [Backed, hphase]
    exact horderly
  · have hmoves := step_moves setup c turn.1 turn.2
    have horderly := h.orderly
    generalize c.step setup turn.1 turn.2 = x at hmoves ⊢
    cases hmoves with
    | early hfrom hto =>
        have hnil := h.evidence_eq_nil (Or.inl hfrom)
        rcases hto with (rfl | ⟨_, rfl⟩ | rfl) | rfl | rfl | rfl | rfl
        · exact hnil
        · exact hnil
        · exact hnil
        · exact hnil
        · exact .of_nil hnil
        · exact .of_nil hnil
        · exact .of_nil hnil
    | ordered hfrom => exact absurd hfrom horder
    | forced hfrom => exact absurd hfrom horder
    | looked hfrom =>
        rw [Backed, hfrom] at h
        exact h
    | asked hfrom hcontext =>
        rw [Backed, hfrom] at h
        obtain ⟨hnil, hnodup⟩ := h
        refine ⟨⟨by simpa [hnil] using hnodup, by simp [hnil]⟩, fun hlearning => ?_⟩
        refine ⟨past, turn, [], rfl, by rw [← hc, hfrom], ?_⟩
        dsimp only
        rw [hcontext hlearning]
    | tried hfrom => exact absurd hfrom hattempt
    | noted hfrom hto =>
        rw [Backed, hfrom] at h
        rcases hto with rfl | rfl
        · exact ⟨⟨h.1.nodup, h.1.last⟩, h.2⟩
        · exact ⟨h.1.nodup, h.1.last⟩
    | retired hfrom => exact ⟨horderly.nodup, horderly.last⟩
    | settled hfrom =>
        rw [Backed, hfrom] at h
        obtain ⟨hwinning, hasked, hreported⟩ := h
        exact ⟨⟨⟨horderly.nodup, horderly.last⟩, hwinning.learning, hwinning.ne_none,
          hwinning.answered, hwinning.verdict, hwinning.kind⟩, hasked.later rfl rfl rfl turn,
          hreported.later turn⟩
    | remembered hfrom => exact absurd ⟨_, hfrom⟩ hreport
    | lost hfrom => exact ⟨horderly.nodup, horderly.last⟩
    | flushed hfrom hto =>
        rcases hto with rfl | rfl | rfl <;> exact ⟨horderly.nodup, horderly.last⟩
    | idle hfrom =>
        rw [Backed]
        rcases hfrom with hphase | hphase | hphase <;> rw [hphase] <;> exact horderly

theorem interleaved_backed (networkId targetHost : Bytes) (transparent : Bool)
    (sends : List SendResult) (recvs : List RecvResult) {turns : List (Store × Input)}
    (hturns : ∀ turn ∈ turns, Reached turn.1) :
    let first := accepted networkId targetHost transparent sends recvs
    Backed setup first turns (interleaved setup first turns) := by
  intro first
  have hboth := History.run_invariant (fun c turn => (step setup c turn.1 turn.2).2) first
    (fun past c => (∀ turn ∈ past, Reached turn.1) →
      c = interleaved setup first past ∧ Backed setup first past c) ?_ ?_ turns hturns
  · exact hboth.2
  · intro _
    exact ⟨rfl, Eq.refl []⟩
  · intro past c turn ih hpast
    obtain ⟨hc, hbacked⟩ := ih fun t ht => hpast t (List.mem_append_left _ ht)
    refine ⟨?_, hbacked.step hc turn (hpast turn (by simp))⟩
    rw [hc, interleaved, interleaved, History.run_concat]

/-! ## Reports -/

/-- What stands behind the report of a profile as a winner. -/
structure Justified (setup : Setup) (first : Conn) (past : List (Store × Input)) (c : Conn)
    (profile : Profile) (kind : Kind) : Prop where
  answered : ∃ elapsedMs, ⟨profile, .serverHello, elapsedMs⟩ ∈ c.evidence
  kinds : kind = .learnedProfile ∨ kind = .sniInterferenceLikely
  baseline : kind = .sniInterferenceLikely →
    (∃ a ∈ c.evidence, a.profile = .none ∧ a.signal ≠ .serverHello) ∧
      ∃ before turn after, past = before ++ turn :: after ∧
        (interleaved setup first before).phase = .health ∧
        turn.1.baselineRecentlyHealthy turn.2.tick.moment c.networkId c.targetHost = false
  policy : PolicyReported setup first past profile

theorem Winning.justified {c : Conn} {profile : Profile} (h : Winning setup c profile)
    (hasked : HealthAsked setup first past c)
    (hreported : PolicyReported setup first past profile) :
    Justified setup first past c profile c.verdict.kind := by
  refine ⟨h.answered, h.kind, ?_, hreported⟩
  intro hsni
  rw [h.verdict] at hsni
  obtain ⟨hbaseline, hunhealthy⟩ := infer_sniInterferenceLikely hsni
  obtain ⟨before, turn, after, heq, hphase, hhealth⟩ := hasked
  exact ⟨hbaseline, before, turn, after, heq, hphase, hhealth ▸ hunhealthy⟩

/-- What is reported as a winner is justified. -/
theorem Backed.justified {c : Conn} (h : Backed setup first past c) {networkId host name : Bytes}
    {kind : Kind} {confidence : ℕ}
    (hcall : c.call setup = some (.remember networkId host name kind confidence))
    (hname : name ≠ Profile.none.name) :
    ∃ profile, name = profile.name ∧ Justified setup first past c profile kind := by
  cases calls_of_call hcall with
  | retired hphase => exact absurd rfl hname
  | won hphase =>
      rename_i profile
      rw [Backed, hphase] at h
      exact ⟨profile, rfl, h.1.justified h.2.1 h.2.2⟩

/-- With a profile forced by the user no call is made. -/
theorem Backed.call_eq_none {c : Conn} (h : Backed setup first past c)
    (hforced : setup.forcedProfile ≠ none) : c.call setup = none := by
  rw [Option.eq_none_iff_forall_ne_some]
  intro op hcall
  rw [Backed] at h
  cases calls_of_call hcall with
  | ordered hphase hlearning => exact hforced hlearning
  | settled hlearning => exact hforced hlearning
  | noted hphase =>
      rw [hphase] at h
      exact hforced h.2
  | retired hphase =>
      rw [hphase] at h
      exact hforced h.2
  | won hphase =>
      rw [hphase] at h
      exact hforced h.1.learning

/-- Whatever order the store gives and whatever the peers, the socket and the packet loop
do: the evidence of a connection is orderly at all times, what it reports as a winner is
justified, and with a profile forced by the user it does not change the store. -/
theorem evidence_sound (setup : Setup) (networkId targetHost : Bytes) (transparent : Bool)
    (sends : List SendResult) (recvs : List RecvResult) (turns : List (Store × Input))
    (hturns : ∀ turn ∈ turns, Reached turn.1) :
    let first := accepted networkId targetHost transparent sends recvs
    let c := interleaved setup first turns
    c.Orderly ∧
      (∀ networkId host name kind confidence,
        c.call setup = some (.remember networkId host name kind confidence) →
        name ≠ Profile.none.name →
          ∃ profile, name = profile.name ∧ Justified setup first turns c profile kind) ∧
      (setup.forcedProfile ≠ none → c.call setup = none ∧
        ∀ s input, (c.step setup s input).1 = s) := by
  intro first c
  have hbacked : Backed setup first turns c :=
    interleaved_backed networkId targetHost transparent sends recvs hturns
  refine ⟨hbacked.orderly, fun _ _ _ _ _ => hbacked.justified, fun hforced => ?_⟩
  refine ⟨hbacked.call_eq_none hforced, fun s input => ?_⟩
  rw [step_store, hbacked.call_eq_none hforced]

/-- The untouched attempt is closed, then a profile is answered on a new connection. -/
def sampleDifferential : List (Store × Input) :=
  (sampleLost ++ [{ sampleInput with connect := some ([], [.data sampleServerHello]) },
    sampleInput]).map fun input => ({}, input)

theorem evidence_sound_sample :
    let c := interleaved {} sampleClient sampleDifferential
    c.phase = .rememberWin .sniMid ∧ c.Orderly ∧
      Justified {} sampleClient sampleDifferential c .sniMid .sniInterferenceLikely := by
  intro c
  have hphase : c.phase = .rememberWin .sniMid := by decide +kernel
  have hkind : c.verdict.kind = .sniInterferenceLikely := by decide +kernel
  have hturns : ∀ turn ∈ sampleDifferential, Reached turn.1 := by
    intro turn hturn
    obtain ⟨input, -, rfl⟩ := List.mem_map.1 hturn
    exact ⟨[], rfl⟩
  obtain ⟨horderly, hreports, -⟩ := evidence_sound {} (ofString "lan") (ofString "x") false []
    [.data sampleBuffer] sampleDifferential hturns
  refine ⟨hphase, horderly, ?_⟩
  have hcall : c.call {} = some (.remember c.networkId c.targetHost Profile.sniMid.name
      .sniInterferenceLikely c.verdict.confidence) := by
    rw [call, hphase, hkind]
  obtain ⟨profile, hname, hjustified⟩ := hreports _ _ _ _ _ hcall (by decide)
  have hprofile : profile = .sniMid := by
    have hfound := findProfile_name profile
    rw [← hname, findProfile_name] at hfound
    exact (Option.some.inj hfound).symm
  rwa [hprofile] at hjustified

end Conn

end Relay

end SplitHello
