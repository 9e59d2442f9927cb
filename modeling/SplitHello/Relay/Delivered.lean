import SplitHello.Relay.Rounds

/-!
# What the two peers see before the pump

Up to record framing the relay passes bytes on unchanged. `Conn.Sound` says, phase by
phase, what the client, the current target and the connections of failed attempts
have seen of each other; it holds after every step, whatever the store answers and
however the peers behave.
-/

namespace SplitHello

namespace Relay

open ByteString Tls Strategy Diagnosis

/-! ## Reading -/

/-- The bytes a receive call brought. -/
def RecvResult.bytes : RecvResult → Bytes
  | .data bytes => bytes
  | _ => []

theorem recv_facts (t : Endpoint) :
    t.recv.2.socket = t.socket ∧ t.recv.2.read = t.read ++ t.recv.1.bytes := by
  rw [Endpoint.recv]
  split
  · exact ⟨rfl, (List.append_nil _).symm⟩
  · exact ⟨rfl, rfl⟩
  · rename_i r recvs hne hrecvs
    cases r with
    | data bytes => exact absurd rfl (hne bytes)
    | timedOut => exact ⟨rfl, (List.append_nil _).symm⟩
    | failed => exact ⟨rfl, (List.append_nil _).symm⟩

/-- What the loop collects is what it read, and it writes nothing. -/
theorem awaitLoop_read (fuel : ℕ) (out : Bytes) (t : Endpoint) :
    (awaitLoop fuel out t).2.2.socket = t.socket ∧
      ∃ p, (awaitLoop fuel out t).2.1 = out ++ p ∧
        (awaitLoop fuel out t).2.2.read = t.read ++ p := by
  induction fuel generalizing out t with
  | zero => exact ⟨rfl, [], (List.append_nil _).symm, (List.append_nil _).symm⟩
  | succ fuel ih =>
      rw [awaitLoop]
      split
      · exact ⟨rfl, [], (List.append_nil _).symm, (List.append_nil _).symm⟩
      · obtain ⟨hsocket, hread⟩ := recv_facts t
        split
        · rename_i t' hrecv
          rw [hrecv] at hsocket hread
          exact ⟨hsocket, [], (List.append_nil _).symm, hread⟩
        · rename_i t' hrecv
          rw [hrecv] at hsocket hread
          exact ⟨hsocket, [], (List.append_nil _).symm, hread⟩
        · rename_i bytes t' hrecv
          rw [hrecv] at hsocket hread
          split
          · rename_i hnil
            rw [hnil] at hread
            exact ⟨hsocket, [], (List.append_nil _).symm, hread⟩
          · split
            · exact ⟨hsocket, bytes, rfl, hread⟩
            · exact ⟨hsocket, bytes, rfl, hread⟩
            · exact ⟨hsocket, bytes, rfl, hread⟩
            · obtain ⟨hsocket', p, hout, hread'⟩ := ih (out ++ bytes) t'
              refine ⟨hsocket'.trans hsocket, bytes ++ p, ?_, ?_⟩
              · rw [hout, List.append_assoc]
              · rw [hread', hread, RecvResult.bytes, List.append_assoc]

theorem awaitResponse_read (t : Endpoint) :
    t.awaitResponse.2.2.socket = t.socket ∧
      t.awaitResponse.2.2.read = t.read ++ t.awaitResponse.2.1 := by
  obtain ⟨hsocket, p, hout, hread⟩ := awaitLoop_read (t.recvs.length + 1) [] t
  refine ⟨hsocket, ?_⟩
  rw [Endpoint.awaitResponse, hread, hout, List.nil_append]

/-! ## Framing -/

/-- The same TLS record, as it is or cut into several records of its kind. -/
def Reframes (record framed : Bytes) : Prop :=
  framed = record ∨
    ∃ records : List Record, framed = records.flatMap Record.encode ∧
      records.flatMap Record.payload = record.drop recordHeaderSize ∧
      ∀ r ∈ records, [r.contentType, r.versionMajor, r.versionMinor] = record.take 3 ∧
        be16 (memory r.encode) 3 = r.payload.length

/-- Every plan writes the first record, or a prefix of it. -/
theorem writePlan_wrote {clientBuffer : Bytes} {hello : ClientHello} {profile : Profile}
    {baseDelayMs : ℕ} {plan : FragmentPlan}
    (hparse : parseClientHello (memory clientBuffer) clientBuffer.length = (.ok, hello))
    (hplan : buildPlan profile hello baseDelayMs = some plan) (sock : Socket) :
    ∃ framed, Reframes (clientBuffer.take hello.recordTotalLength) framed ∧
      Wrote sock framed (writePlan clientBuffer hello true plan sock) := by
  have hrecord := parseClientHello_ok hparse
  have hpos : 0 < hello.recordPayloadLength := by
    have := hrecord.payload_ge
    omega
  have hinside := hrecord.inside
  rw [hrecord.total] at hinside
  rw [writePlan]
  by_cases hsplits : plan.splitsAnything = true
  · simp only [Bool.true_and, hsplits, if_true]
    refine ⟨_, Or.inr ⟨_, rfl, ?_, ?_⟩, writeFragmented_wrote clientBuffer hello plan sock⟩
    · rw [reframed, recordsFrom_payload _ (Cuts.boundaries (buildPlan_cuts hplan) hpos),
        Nat.add_zero, Nat.sub_zero, slice_memory _ _ _ hinside, hrecord.total, List.drop_take]
      congr 1
      omega
    · intro r hr
      obtain ⟨⟨htype, hmajor, hminor⟩, -, hhi⟩ :=
        recordsFrom_lengths _ (Cuts.boundaries (buildPlan_cuts hplan) hpos) r hr
      have hmax := hrecord.payload_le
      simp only [maxRecordPayload, recordHeaderSize] at hmax hinside
      constructor
      · have hthree : slice (memory clientBuffer) 0 3 = (clientBuffer.drop 0).take 3 :=
          slice_memory _ _ _ (by omega)
        have htake : (clientBuffer.take hello.recordTotalLength).take 3 = clientBuffer.take 3 := by
          rw [List.take_take, hrecord.total, recordHeaderSize]
          congr 1
          omega
        rw [htype, hmajor, hminor, htake]
        exact hthree
      · have hfield := Record.lengthField (r := r) (by omega) []
        rwa [List.append_nil] at hfield
  · simp only [Bool.true_and, hsplits, if_true, Bool.false_eq_true, if_false]
    exact ⟨_, Or.inl rfl, sendAll_wrote _ _⟩

/-! ## What holds in each phase -/

/-- An endpoint nothing was sent to and nothing was read from. -/
structure Fresh (t : Endpoint) : Prop where
  sent : t.socket.sent = []
  read : t.read = []

/-- The connection of a failed attempt: it saw a part of the first record. -/
def Tried (record : Bytes) (t : Endpoint) : Prop :=
  ∃ framed, Reframes record framed ∧ t.socket.sent <+: framed

/-- The buffer is what the client sent so far, and the hello is what it parses to. -/
structure Collected (stream clientBuffer : Bytes) (hello : ClientHello) (helloComplete : Bool) :
    Prop where
  buffer : clientBuffer = stream
  complete : helloComplete = true →
    parseClientHello (memory clientBuffer) clientBuffer.length = (.ok, hello)
  incomplete : helloComplete = false →
    (parseClientHello (memory clientBuffer) clientBuffer.length).1 ≠ .ok

namespace Conn

def record (c : Conn) : Bytes := c.clientBuffer.take c.hello.recordTotalLength

/-- Before the hello is delivered. -/
structure Preparing (c : Conn) (stages : List Stage) : Prop where
  nodup : stages.Nodup
  silent : c.client.socket.sent = []
  nothing : c.firstResponse = []
  attempts : c.attempts = 0
  dropped : c.dropped = []
  target : if .connect ∈ stages then c.target = none else ∃ t, c.target = some t ∧ Fresh t
  collected : if .collect ∈ stages then c.client.read = []
    else Collected c.client.read c.clientBuffer c.hello c.helloComplete

/-- A complete hello in one record is being probed. -/
structure Probing (c : Conn) : Prop where
  collected : Collected c.client.read c.clientBuffer c.hello c.helloComplete
  complete : c.helloComplete = true
  single : c.hello.spansRecords = false
  dropped : ∀ t ∈ c.dropped, Tried c.record t

/-- Between two attempts. -/
structure Trying (c : Conn) : Prop extends c.Probing where
  silent : c.client.socket.sent = []
  nothing : c.firstResponse = []
  first : c.attempts = 0 → ∃ t, c.target = some t ∧ Fresh t
  later : c.attempts ≠ 0 → ∀ t, c.target = some t → Tried c.record t

/-- An attempt drew a ServerHello. -/
structure Won (c : Conn) : Prop extends c.Probing where
  silent : c.client.socket.sent = []
  target : ∃ t, c.target = some t ∧ Reframes c.record t.socket.sent ∧ t.read = c.firstResponse

/-- The books a connection keeps are no part of what the peers saw. -/
theorem Trying.books {c : Conn} (h : c.Trying) (order : List Profile)
    (remembered : Option Profile) (context : Context) (phase : Phase) :
    Trying { c with order, remembered, context, phase } :=
  ⟨⟨h.collected, h.complete, h.single, h.dropped⟩, h.silent, h.nothing, h.first, h.later⟩

theorem Won.books {c : Conn} (h : c.Won) (verdict : Verdict) (phase : Phase) :
    Won { c with verdict, phase } :=
  ⟨⟨h.collected, h.complete, h.single, h.dropped⟩, h.silent, h.target⟩

/-- The client's bytes went out as they came. -/
structure Whole (c : Conn) : Prop where
  collected : Collected c.client.read c.clientBuffer c.hello c.helloComplete
  streamed : ¬ (c.helloComplete = true ∧ c.hello.spansRecords = false)
  silent : c.client.socket.sent = []
  nothing : c.firstResponse = []
  dropped : c.dropped = []
  target : ∃ t, c.target = some t ∧ t.socket.sent = c.clientBuffer ∧ t.read = []

/-- What the peers saw of each other when the pump starts: the target has the client's
bytes, at most re-framed, the connections of failed attempts have parts of the first
record, and the client has what was read from the target. -/
def Delivered (c : Conn) : Prop :=
  let stream := c.client.read
  ∃ t, c.target = some t ∧ c.client.socket.sent = t.read ∧
    match parseClientHello (memory stream) stream.length with
    | (.ok, hello) =>
        if hello.spansRecords then t.socket.sent = stream ∧ c.dropped = []
        else
          (∃ framed, Reframes (stream.take hello.recordTotalLength) framed ∧
            t.socket.sent = framed ++ stream.drop hello.recordTotalLength) ∧
          ∀ t' ∈ c.dropped, Tried (stream.take hello.recordTotalLength) t'
    | _ => t.socket.sent = stream ∧ c.dropped = []

def Sound (c : Conn) : Prop :=
  match c.phase with
  | .start => c.Preparing [.collect, .connect]
  | .prepare stages => c.Preparing stages
  | .deliver => c.Preparing []
  | .order | .lookup | .health | .attempt => c.Trying
  | .noteHealthy | .rememberNone | .settleWin _ | .rememberWin _ => c.Won
  | .flush => c.Won ∨ c.Whole
  | .pump => c.Delivered
  | .settleLoss | .handOff | .closed => True

/-! ## Collecting the hello -/

theorem collectLoop_spec (rounds : ℕ) (c : Conn)
    (hc : Collected c.client.read c.clientBuffer c.hello c.helloComplete)
    (hincomplete : c.helloComplete = false) :
    Collected (collectLoop rounds c).2.client.read (collectLoop rounds c).2.clientBuffer
        (collectLoop rounds c).2.hello (collectLoop rounds c).2.helloComplete ∧
      (collectLoop rounds c).2.client.socket = c.client.socket := by
  induction rounds generalizing c with
  | zero => exact ⟨hc, rfl⟩
  | succ rounds ih =>
      rw [collectLoop]
      obtain ⟨hsocket, hread⟩ := recv_facts c.client
      have hquiet : ∀ client : Endpoint, client.read = c.client.read ++ [] →
          Collected client.read c.clientBuffer c.hello c.helloComplete := by
        intro client hclient
        rw [hclient, List.append_nil]
        exact hc
      split
      · rename_i client hrecv
        rw [hrecv] at hsocket hread
        exact ⟨hquiet client hread, hsocket⟩
      · rename_i client hrecv
        rw [hrecv] at hsocket hread
        exact ⟨hquiet client hread, hsocket⟩
      · rename_i bytes client hrecv
        rw [hrecv] at hsocket hread
        split
        · rename_i hnil
          rw [hnil] at hread
          exact ⟨hquiet client hread, hsocket⟩
        · have hbuffer : c.clientBuffer ++ bytes = client.read := by
            rw [hread, hc.buffer]
            rfl
          dsimp only
          split
          · rename_i hstatus
            refine ⟨⟨hbuffer, fun _ => ?_, by simp⟩, hsocket⟩
            rw [← hstatus]
          · rename_i hstatus
            have hne : (parseClientHello (memory (c.clientBuffer ++ bytes))
                (c.clientBuffer ++ bytes).length).1 ≠ .ok := by
              rw [hstatus]
              simp
            split
            · exact ⟨⟨hbuffer, by simp [hincomplete], fun _ => hne⟩, hsocket⟩
            · obtain ⟨h₁, h₂⟩ := ih
                { c with
                  client
                  clientBuffer := c.clientBuffer ++ bytes
                  hello := (parseClientHello (memory (c.clientBuffer ++ bytes))
                    (c.clientBuffer ++ bytes).length).2 }
                ⟨hbuffer, by simp [hincomplete], fun _ => hne⟩ hincomplete
              exact ⟨h₁, h₂.trans hsocket⟩
          · rename_i hok hmore
            exact ⟨⟨hbuffer, by simp [hincomplete], fun _ => hok⟩, hsocket⟩

theorem prepare_sound {c : Conn} {stages : List Stage} (h : c.Preparing stages)
    (input : Input) : (c.prepare stages input).Sound := by
  cases stages with
  | nil => exact ⟨h.nodup, h.silent, h.nothing, h.attempts, h.dropped, h.target, h.collected⟩
  | cons stage stages =>
      obtain ⟨hnotMem, hnodup⟩ := List.nodup_cons.1 h.nodup
      cases stage with
      | candidates =>
          rw [prepare]
          split
          · refine ⟨hnodup, h.silent, h.nothing, h.attempts, h.dropped, ?_, ?_⟩
            · simpa using h.target
            · simpa using h.collected
          · trivial
      | connect =>
          have htarget : c.target = none := by simpa using h.target
          rw [prepare, reconnect]
          cases input.connect with
          | none => trivial
          | some script =>
              refine ⟨hnodup, h.silent, h.nothing, h.attempts, ?_, ?_, ?_⟩
              · simp [h.dropped, htarget]
              · rw [if_neg hnotMem]
                exact ⟨_, rfl, rfl, rfl⟩
              · simpa using h.collected
      | collect =>
          have hread : c.client.read = [] := by simpa using h.collected
          have hstart : Collected c.client.read [] c.hello false :=
            ⟨hread.symm, by simp, fun _ => by decide⟩
          obtain ⟨hcollected, hsocket⟩ :=
            collectLoop_spec input.rounds { c with clientBuffer := [], helloComplete := false }
              hstart rfl
          obtain ⟨client, clientBuffer, hello, helloComplete, targetHost, heq⟩ :=
            collectLoop_frame input.rounds { c with clientBuffer := [], helloComplete := false }
          rw [prepare, collectClientHello]
          split
          · trivial
          · rename_i c' hc'
            rw [hc'] at hcollected hsocket heq
            dsimp only at heq
            rw [heq] at hcollected hsocket ⊢
            refine ⟨hnodup, hsocket ▸ h.silent, h.nothing, h.attempts, h.dropped, ?_, ?_⟩
            · simpa using h.target
            · rw [if_neg hnotMem]
              exact hcollected

/-! ## Delivering the hello -/

theorem sendTarget_eq {c : Conn} {t : Endpoint} (h : c.target = some t)
    (write : Socket → Bool × Socket) :
    c.sendTarget write =
      ((write t.socket).1, { c with target := some { t with socket := (write t.socket).2 } }) := by
  rw [sendTarget, h]

theorem deliver_sound {c : Conn} (h : c.Preparing []) : c.deliver.Sound := by
  obtain ⟨t, ht, hfresh⟩ : ∃ t, c.target = some t ∧ Fresh t := by simpa using h.target
  have hcollected : Collected c.client.read c.clientBuffer c.hello c.helloComplete := by
    simpa using h.collected
  -- Whatever cannot be probed is sent whole, on the first connection.
  have hwhole : ∀ c' : Conn, c' = { c with activeProfile := c'.activeProfile } →
      ¬ (c.helloComplete = true ∧ c.hello.spansRecords = false) →
      c'.sendWhole.Sound := by
    intro c' hc' hstreamed
    have ht' : c'.target = some t := by rw [hc']; exact ht
    have hwrote := sendAll_wrote t.socket c'.clientBuffer
    rw [sendWhole, sendTarget_eq ht']
    dsimp only
    by_cases hok : (sendAll t.socket c'.clientBuffer).1 = true
    · rw [if_pos hok]
      have hsent := hwrote.all hok
      rw [hfresh.sent, List.nil_append] at hsent
      rw [hc'] at hsent ⊢
      exact Or.inr ⟨hcollected, hstreamed, h.silent, h.nothing, h.dropped,
        ⟨_, rfl, hsent, hfresh.read⟩⟩
    · rw [if_neg hok]
      trivial
  rw [deliver]
  split
  · rename_i hnil
    have hincomplete : ¬ c.helloComplete = true := by
      intro hcomplete
      have hrecord := parseClientHello_ok (hcollected.complete hcomplete)
      have hinside := hrecord.inside
      have hge := hrecord.payload_ge
      rw [hrecord.total, hnil, List.length_nil] at hinside
      omega
    exact Or.inr ⟨hcollected, fun hc => hincomplete hc.1, h.silent, h.nothing, h.dropped,
      ⟨t, ht, by rw [hfresh.sent]; exact hnil.symm, hfresh.read⟩⟩
  · split
    · rename_i hincomplete
      exact hwhole c rfl fun hc => by simp [hc.1] at hincomplete
    · rename_i hcomplete
      split
      · rename_i hspans
        exact hwhole { c with activeProfile := .none } rfl fun hc => by simp [hc.2] at hspans
      · rename_i hsingle
        have hdropped : ∀ t ∈ c.dropped, Tried c.record t := by simp [h.dropped]
        exact ⟨⟨hcollected, by simpa using hcomplete, by simpa using hsingle, hdropped⟩,
          h.silent, h.nothing, fun _ => ⟨t, ht, hfresh⟩, fun hne => absurd h.attempts hne⟩

theorem judge_sound (setup : Setup) {c : Conn} (hprobing : c.Probing)
    (hphase : c.phase = .attempt) (hsilent : c.client.socket.sent = [])
    (hattempts : c.attempts ≠ 0) {t : Endpoint} (ht : c.target = some t) (hread : t.read = [])
    (hsent : Reframes c.record t.socket.sent) (profile : Profile) (input : Input) :
    (c.judge setup profile input).Sound := by
  obtain ⟨hsocket, hout⟩ := awaitResponse_read t
  rw [hread, List.nil_append] at hout
  rw [judge, ht]
  dsimp only
  split
  · have hwon : ∀ evidence activeProfile verdict phase, Won { c with
          target := some t.awaitResponse.2.2
          firstResponse := t.awaitResponse.2.1
          evidence, activeProfile, verdict, phase } := by
      intro evidence activeProfile verdict phase
      refine ⟨⟨hprobing.collected, hprobing.complete, hprobing.single, hprobing.dropped⟩,
        hsilent, ⟨_, rfl, ?_, hout⟩⟩
      rw [hsocket]
      exact hsent
    rcases (successPhase_leads setup { c with
        target := some t.awaitResponse.2.2
        firstResponse := t.awaitResponse.2.1
        evidence := c.evidence ++
          [⟨profile, t.awaitResponse.1, min input.elapsedMs (2 ^ 32 - 1)⟩]
        activeProfile := profile
        verdict := infer (c.evidence ++
          [⟨profile, t.awaitResponse.1, min input.elapsedMs (2 ^ 32 - 1)⟩]) c.context }
        profile input).cases with hnext | ⟨-, -, hnext⟩ | ⟨-, -, -, hnext⟩
    · rw [hnext]
      exact Or.inl (hwon _ _ _ _)
    · rw [hnext]
      exact hwon _ _ _ _
    · rw [hnext]
      exact hwon _ _ _ _
  · rw [Sound]
    dsimp only
    rw [hphase]
    refine ⟨⟨hprobing.collected, hprobing.complete, hprobing.single, hprobing.dropped⟩,
      hsilent, rfl, fun hzero => absurd hzero hattempts, ?_⟩
    rintro _ - ⟨⟩
    exact ⟨_, hsent, hsocket ▸ List.prefix_rfl⟩

theorem probe_sound (setup : Setup) {c : Conn} (hprobing : c.Probing)
    (hphase : c.phase = .attempt) (hsilent : c.client.socket.sent = [])
    (hnothing : c.firstResponse = []) (hattempts : c.attempts ≠ 0) {t : Endpoint}
    (ht : c.target = some t) (hfresh : Fresh t) {profile : Profile} {plan : FragmentPlan}
    (hplan : buildPlan profile c.hello setup.splitDelayMs = some plan) (input : Input) :
    (c.probe setup profile plan input).Sound := by
  obtain ⟨framed, hframed, hwrote⟩ :=
    writePlan_wrote (hprobing.collected.complete hprobing.complete) hplan t.socket
  rw [← hprobing.complete] at hwrote
  rw [probe, sendTarget_eq ht]
  split
  · rename_i c' hc'
    obtain ⟨-, rfl⟩ := Prod.mk.inj hc'
    rw [Sound]
    dsimp only
    rw [hphase]
    refine ⟨⟨hprobing.collected, hprobing.complete, hprobing.single, hprobing.dropped⟩,
      hsilent, hnothing, fun hzero => absurd hzero hattempts, ?_⟩
    rintro _ - ⟨⟩
    obtain ⟨p, hp, hsent⟩ := hwrote.part
    refine ⟨framed, hframed, ?_⟩
    rw [hsent, hfresh.sent]
    exact hp
  · rename_i c' hc'
    obtain ⟨hok, rfl⟩ := Prod.mk.inj hc'
    have hsent := hwrote.all hok
    rw [hfresh.sent, List.nil_append] at hsent
    have hprobing' : Probing { c with target := some { t with
        socket := (writePlan c.clientBuffer c.hello c.helloComplete plan t.socket).2 } } :=
      ⟨hprobing.collected, hprobing.complete, hprobing.single, hprobing.dropped⟩
    refine judge_sound setup hprobing' hphase hsilent hattempts rfl hfresh.read ?_ profile input
    dsimp only
    rw [hsent]
    exact hframed

theorem planFor_eq_some {setup : Setup} {hello : ClientHello} {profile : Profile}
    {plan : FragmentPlan} (h : planFor setup hello profile = some plan) :
    buildPlan profile hello setup.splitDelayMs = some plan := by
  rw [planFor] at h
  split at h
  · cases h
  · exact h

theorem attempt_sound (setup : Setup) {c : Conn} (h : c.Trying) (hphase : c.phase = .attempt)
    (input : Input) : (c.attempt setup input).Sound := by
  rw [attempt]
  split
  · trivial
  · rename_i profile order horder
    split
    · trivial
    · split
      · rw [Sound]
        dsimp only
        rw [hphase]
        exact h.books _ _ _ _
      · rename_i plan hplan
        have hplan := planFor_eq_some hplan
        split
        · rename_i hzero
          obtain ⟨t, ht, hfresh⟩ := h.first hzero
          have hprobing : Probing { c with order, attempts := 1 } :=
            ⟨h.collected, h.complete, h.single, h.dropped⟩
          exact probe_sound setup hprobing hphase h.silent h.nothing (by simp) ht hfresh hplan input
        · rename_i hzero
          rw [reconnect]
          cases input.connect with
          | none => trivial
          | some script =>
              -- The connection of the failed attempt joins the dropped ones.
              have hprobing : Probing { c with
                  order
                  attempts := c.attempts + 1
                  target := some { socket := { sends := script.1 }, recvs := script.2 }
                  dropped := c.dropped ++ c.target.toList } := by
                refine ⟨h.collected, h.complete, h.single, ?_⟩
                intro t ht
                rcases List.mem_append.1 ht with ht | ht
                · exact h.dropped t ht
                · exact h.later hzero t (Option.mem_toList.1 ht)
              exact probe_sound setup hprobing hphase h.silent h.nothing (by simp) rfl ⟨rfl, rfl⟩
                hplan input

/-! ## The last bytes before the pump -/

/-- The answer that was read reaches the client, or the pump does not start. -/
theorem flush_client {c : Conn} (hsilent : c.client.socket.sent = []) {t : Endpoint}
    (hread : t.read = c.firstResponse) (hok :
      (if c.firstResponse = [] then (true, c.client.socket)
        else sendAll c.client.socket c.firstResponse).1 = true) :
    (if c.firstResponse = [] then (true, c.client.socket)
      else sendAll c.client.socket c.firstResponse).2.sent = t.read := by
  by_cases hnil : c.firstResponse = []
  · rw [if_pos hnil, hread, hnil]
    exact hsilent
  · rw [if_neg hnil] at hok ⊢
    have hsent := (sendAll_wrote c.client.socket c.firstResponse).all hok
    rw [hsilent, List.nil_append] at hsent
    rw [hsent, hread]

theorem flush_won {c : Conn} (h : c.Won) : c.flush.Sound := by
  obtain ⟨t, ht, hframed, hread⟩ := h.target
  have hparse := h.collected.complete h.complete
  rw [h.collected.buffer] at hparse
  -- The trailing bytes follow the record on the winning connection, once.
  obtain ⟨ok, t', hflush, hread', hsent⟩ : ∃ ok t',
      c.flushTrailingClientData = (ok, { c with target := some t' }) ∧ t'.read = t.read ∧
        (ok = true → t'.socket.sent = t.socket.sent ++
          c.clientBuffer.drop c.hello.recordTotalLength) := by
    rw [flushTrailingClientData]
    split
    · rename_i hnone
      have hshort : c.clientBuffer.length ≤ c.hello.recordTotalLength := by
        simpa [h.complete, h.single] using hnone
      refine ⟨true, t, by rw [← ht], rfl, fun _ => ?_⟩
      rw [List.drop_eq_nil_of_le hshort, List.append_nil]
    · rw [sendTarget_eq ht]
      exact ⟨_, _, rfl, rfl, fun hok => (sendAll_wrote _ _).all hok⟩
  rw [flush, hflush]
  cases ok with
  | false => trivial
  | true =>
      rw [Sound]
      dsimp only
      by_cases hok : (if c.firstResponse = [] then (true, c.client.socket)
          else sendAll c.client.socket c.firstResponse).1 = true
      · rw [if_pos hok]
        refine ⟨t', rfl, ?_, ?_⟩
        · exact flush_client h.silent (hread'.trans hread) hok
        · dsimp only
          rw [hparse]
          dsimp only
          have hrecord : c.record = c.client.read.take c.hello.recordTotalLength := by
            rw [record, h.collected.buffer]
          rw [h.single, if_neg (by simp), ← hrecord]
          refine ⟨⟨t.socket.sent, hframed, ?_⟩, h.dropped⟩
          rw [hsent rfl, h.collected.buffer]
      · rw [if_neg hok]
        trivial

theorem flush_whole {c : Conn} (h : c.Whole) : c.flush.Sound := by
  obtain ⟨t, ht, hsent, hread⟩ := h.target
  have hflush : c.flushTrailingClientData = (true, c) := by
    rw [flushTrailingClientData]
    refine if_pos ?_
    by_cases hcomplete : c.helloComplete = true
    · refine Or.inr (Or.inl ?_)
      by_contra hsingle
      exact h.streamed ⟨hcomplete, by simpa using hsingle⟩
    · exact Or.inl (by simpa using hcomplete)
  rw [flush, hflush]
  dsimp only
  rw [h.nothing, if_pos rfl]
  refine ⟨t, ht, by rw [hread]; exact h.silent, ?_⟩
  dsimp only
  rw [hsent, h.collected.buffer]
  split
  · rename_i hello hparse
    by_cases hcomplete : c.helloComplete = true
    · have hown := h.collected.complete hcomplete
      rw [h.collected.buffer, hparse] at hown
      obtain ⟨-, rfl⟩ := Prod.mk.inj hown
      rw [if_pos]
      · exact ⟨rfl, h.dropped⟩
      · by_contra hsingle
        exact h.streamed ⟨hcomplete, by simpa using hsingle⟩
    · have hown := h.collected.incomplete (by simpa using hcomplete)
      rw [h.collected.buffer, hparse] at hown
      exact absurd rfl hown
  · exact ⟨rfl, h.dropped⟩

/-! ## Whole runs -/

theorem step_sound (setup : Setup) {c : Conn} (h : c.Sound) (s : Store) (input : Input) :
    (c.step setup s input).2.Sound := by
  have hsame := h
  rw [Sound] at h
  rw [step]
  cases hphase : c.phase with
  | start =>
      rw [hphase] at h
      dsimp only
      split
      · trivial
      · split
        · exact ⟨by decide, h.silent, h.nothing, h.attempts, h.dropped, h.target, h.collected⟩
        · exact ⟨by decide, h.silent, h.nothing, h.attempts, h.dropped, h.target, h.collected⟩
  | prepare stages =>
      rw [hphase] at h
      exact prepare_sound h input
  | deliver =>
      rw [hphase] at h
      exact deliver_sound h
  | order =>
      rw [hphase] at h
      dsimp only
      split
      · exact h.books _ _ _ _
      · exact h.books _ _ _ _
  | lookup =>
      rw [hphase] at h
      exact h.books _ _ _ _
  | health =>
      rw [hphase] at h
      exact h.books _ _ _ _
  | attempt =>
      rw [hphase] at h
      exact attempt_sound setup h hphase input
  | noteHealthy =>
      rw [hphase] at h
      dsimp only
      by_cases hremembered : c.remembered.isSome = true
      · rw [if_pos hremembered]
        exact h.books _ _
      · rw [if_neg hremembered]
        exact Or.inl (h.books _ _)
  | rememberNone =>
      rw [hphase] at h
      exact Or.inl (h.books _ _)
  | settleWin profile =>
      rw [hphase] at h
      exact h.books _ _
  | rememberWin profile =>
      rw [hphase] at h
      exact Or.inl (h.books _ _)
  | settleLoss => trivial
  | flush =>
      rw [hphase] at h
      rcases h with h | h
      · exact flush_won h
      · exact flush_whole h
  | _ => exact hsame

/-- A connection that was just accepted. -/
def accepted (networkId targetHost : Bytes) (transparent : Bool) (sends : List SendResult)
    (recvs : List RecvResult) : Conn where
  networkId := networkId
  targetHost := targetHost
  transparent := transparent
  client := { socket := { sends }, recvs }

/-- For every client stream in any chunks, any peers and any answers of the store, a
connection that reaches the pump has delivered the client's bytes once, at most
re-framed, and nothing but the winning connection's bytes went to the client. -/
theorem run_delivered (setup : Setup) (networkId targetHost : Bytes) (transparent : Bool)
    (sends : List SendResult) (recvs : List RecvResult) (steps : List (Store × Input))
    (hpump : (History.run (fun c x => (step setup c x.1 x.2).2)
      (accepted networkId targetHost transparent sends recvs) steps).phase = .pump) :
    (History.run (fun c x => (step setup c x.1 x.2).2)
      (accepted networkId targetHost transparent sends recvs) steps).Delivered := by
  have hsound : (History.run (fun c x => (step setup c x.1 x.2).2)
      (accepted networkId targetHost transparent sends recvs) steps).Sound := by
    refine History.run_invariant _ _ (fun _ (c : Conn) => c.Sound) ?_
      (fun _ _ x h => step_sound setup h x.1 x.2) steps
    exact ⟨by decide, rfl, rfl, rfl, rfl, rfl, rfl⟩
  rw [Sound, hpump] at hsound
  exact hsound

/-- The input of a step at the first moment of the session. -/
def sampleInput : Input where
  tick := { ms := 0, wall := 1, wall_pos := by decide, wall_lt := by decide }

def sampleServerHello : Bytes := [0x16, 3, 3, 0, 4, 2, 0, 0, 0]

/-- The hello arrives in two reads, the untouched attempt is closed by the target, and the
cut one is answered. -/
def sampleSteps : List (Store × Input) :=
  ([sampleInput, sampleInput, { sampleInput with connect := some ([], [.data []]) },
    { sampleInput with rounds := 2 }] ++ List.replicate 6 sampleInput ++
    { sampleInput with connect := some ([.accepted 3], [.data sampleServerHello]) } ::
    List.replicate 3 sampleInput).map fun input => ({}, input)

theorem run_delivered_sample :
    let c := History.run (fun c x => (step {} c x.1 x.2).2)
      (accepted (ofString "lan") (ofString "x") false []
        [.data (sampleBuffer.take 20), .data (sampleBuffer.drop 20)]) sampleSteps
    c.phase = .pump ∧ c.dropped.length = 1 ∧ c.Delivered := by
  refine ⟨?_, ?_, run_delivered _ _ _ _ _ _ _ ?_⟩
  · decide
  · decide
  · decide

end Conn

end Relay

end SplitHello
