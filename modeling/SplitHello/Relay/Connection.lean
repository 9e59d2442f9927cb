import SplitHello.Relay.Reframe
import SplitHello.Strategy.Store

/-!
# One relayed connection

`Conn` is a relayed connection with the fields of the relay and the local variables
of `deliverHello`; its `Phase` is the place its thread has reached. One step goes up
to the next access to the shared strategy store, or through one round of the probe
loop, so the steps of many connections can be interleaved on one store. Everything
the thread meets outside (clock, connects, what a peer sends and takes, the report
on packet policies) comes in through the endpoints and the `Input` of the step.
-/

namespace SplitHello

namespace Relay

open ByteString Tls Strategy Diagnosis

def maxHelloBuffer : ℕ := 64 * 1024
def maxProbeAttempts : ℕ := 12
def maxProbeResponse : ℕ := 64 * 1024

/-- What one receive call answers. -/
inductive RecvResult
  | data (bytes : Bytes)
  | timedOut
  | failed
  deriving DecidableEq, Repr

/-- One end of a TCP connection: what it took, what it will say, and what of that was
read. Past the end of the list nothing arrives any more. -/
structure Endpoint where
  socket : Socket := {}
  recvs : List RecvResult := []
  read : Bytes := []
  deriving DecidableEq, Repr

def Endpoint.recv (t : Endpoint) : RecvResult × Endpoint :=
  match t.recvs with
  | [] => (.timedOut, t)
  | .data bytes :: recvs => (.data bytes, { t with recvs, read := t.read ++ bytes })
  | r :: recvs => (r, { t with recvs })

/-! ## Waiting for an answer -/

/-- The loop of `awaitResponse`: the signal and the bytes it collected. -/
def awaitLoop : ℕ → Bytes → Endpoint → ProbeSignal × Bytes × Endpoint
  | 0, out, t => (.timeout, out, t)
  | fuel + 1, out, t =>
      if maxProbeResponse ≤ out.length then (.unexpected, out, t)
      else
        match t.recv with
        | (.timedOut, t) => (.timeout, out, t)
        | (.failed, t) => (.reset, out, t)
        | (.data bytes, t) =>
            if bytes = [] then (.closed, out, t)
            else
              match classifyServerResponse (memory (out ++ bytes)) (out ++ bytes).length with
              | .serverHello => (.serverHello, out ++ bytes, t)
              | .alert => (.alert, out ++ bytes, t)
              | .unexpected => (.unexpected, out ++ bytes, t)
              | .needMore => awaitLoop fuel (out ++ bytes) t

/-- Every round but the last takes one answer of the endpoint. -/
def Endpoint.awaitResponse (t : Endpoint) : ProbeSignal × Bytes × Endpoint :=
  awaitLoop (t.recvs.length + 1) [] t

/-! ## Connections -/

/-- What `run` still has to do before it can deliver the hello. -/
inductive Stage
  | candidates
  | connect
  | collect
  deriving DecidableEq, Repr

/-- Where a connection stands. -/
inductive Phase
  | start
  | prepare (stages : List Stage)
  | deliver
  | order
  | lookup
  | health
  | attempt
  | noteHealthy
  | rememberNone
  | settleWin (profile : Profile)
  | rememberWin (profile : Profile)
  | settleLoss
  | flush
  | pump
  | handOff
  | closed
  deriving DecidableEq, Repr

/-- What is the same for all connections of the process. -/
structure Setup where
  forcedProfile : Option Profile := none
  packetPolicies : Bool := false
  splitDelayMs : ℕ := 20
  deriving DecidableEq, Repr

structure Conn where
  networkId : Bytes := []
  targetHost : Bytes := []
  transparent : Bool := false
  client : Endpoint := {}
  target : Option Endpoint := none
  dropped : List Endpoint := []
  clientBuffer : Bytes := []
  hello : ClientHello := {}
  helloComplete : Bool := false
  firstResponse : Bytes := []
  activeProfile : Profile := .none
  order : List Profile := []
  remembered : Option Profile := none
  context : Context := {}
  rememberedFailed : Bool := false
  attempts : ℕ := 0
  evidence : List Attempt := []
  verdict : Verdict := {}
  phase : Phase := .start
  deriving DecidableEq, Repr

/-- When a step runs: the monotonic clock in milliseconds, the wall clock in seconds and
the bucket every key sits in. -/
structure Tick where
  ms : ℕ
  wall : ℕ
  bucket : Bytes → ℕ := fun _ => 0
  wall_pos : 0 < wall
  wall_lt : wall < 2 ^ 63

/-- The clocks as the store reads them. -/
def Tick.moment (t : Tick) : Moment where
  wall := t.wall
  mono := 1 + t.ms / 1000
  bucket := t.bucket
  wall_pos := t.wall_pos
  wall_lt := t.wall_lt
  mono_pos := by omega

/-- What one step meets outside. `rounds` is how often the client is read before a stop
is seen, `connect` is a new connection to the target if one comes about. -/
structure Input where
  tick : Tick
  stopping : Bool := false
  rounds : ℕ := 0
  resolved : Bool := true
  connect : Option (List SendResult × List RecvResult) := none
  localPort : ℕ := 0
  applied : Bool := false
  elapsedMs : ℕ := 0

namespace Conn

/-! ## Before the hello is delivered -/

/-- The loop of `collectClientHello`, one round for each read. -/
def collectLoop : ℕ → Conn → Bool × Conn
  | 0, c => (false, c)
  | rounds + 1, c =>
      match c.client.recv with
      | (.timedOut, client) => (true, { c with client })
      | (.failed, client) => (!c.clientBuffer.isEmpty, { c with client })
      | (.data bytes, client) =>
          if bytes = [] then (!c.clientBuffer.isEmpty, { c with client })
          else
            let clientBuffer := c.clientBuffer ++ bytes
            let (status, hello) := parseClientHello (memory clientBuffer) clientBuffer.length
            let c := { c with client, clientBuffer, hello }
            match status with
            | .ok =>
                (true, { c with
                  helloComplete := true
                  targetHost :=
                    if hello.serverName.isEmpty then c.targetHost
                    else normalizeHost hello.serverName })
            | .needMore =>
                if maxHelloBuffer ≤ clientBuffer.length then (true, c) else collectLoop rounds c
            | _ => (true, c)

def collectClientHello (c : Conn) (rounds : ℕ) : Bool × Conn :=
  collectLoop rounds { c with clientBuffer := [], helloComplete := false }

/-- A new connection to the target, the old one closed. -/
def reconnect (c : Conn) (connect : Option (List SendResult × List RecvResult)) :
    Option Endpoint × Conn :=
  let target := connect.map fun (sends, recvs) => { socket := { sends }, recvs }
  (target, { c with target, dropped := c.dropped ++ c.target.toList })

def prepare (c : Conn) (stages : List Stage) (input : Input) : Conn :=
  match stages with
  | [] => { c with phase := .deliver }
  | .candidates :: stages =>
      if input.resolved then { c with phase := .prepare stages } else { c with phase := .closed }
  | .connect :: stages =>
      match c.reconnect input.connect with
      | (none, c) => { c with phase := .closed }
      | (some _, c) => { c with phase := .prepare stages }
  | .collect :: stages =>
      match c.collectClientHello input.rounds with
      | (false, c) => { c with phase := .closed }
      | (true, c) => { c with phase := .prepare stages }

/-! ## The probe loop -/

/-- Writes to the target; without one the write fails. -/
def sendTarget (c : Conn) (write : Socket → Bool × Socket) : Bool × Conn :=
  match c.target with
  | none => (false, c)
  | some t =>
      let (ok, socket) := write t.socket
      (ok, { c with target := some { t with socket } })

/-- The plan of a profile that can be tried on this connection. -/
def planFor (setup : Setup) (hello : ClientHello) (profile : Profile) : Option FragmentPlan :=
  if !setup.packetPolicies && isPacketProfile profile then none
  else buildPlan profile hello setup.splitDelayMs

/-- Where a ServerHello leads to. What a forced profile, a hiccup or an unapplied packet
policy shows is not learned. -/
def successPhase (setup : Setup) (c : Conn) (profile : Profile) (input : Input) : Phase :=
  if setup.forcedProfile.isSome then .flush
  else if profile = .none then .noteHealthy
  else if isPacketProfile profile &&
      !(setup.packetPolicies && input.localPort ≠ 0 && input.applied) then .flush
  else if c.verdict.kind = .transientFailure then .flush
  else .settleWin profile

/-- The end of a round: what came back is judged. -/
def judge (setup : Setup) (c : Conn) (profile : Profile) (input : Input) : Conn :=
  match c.target with
  | none => c
  | some t =>
      let (signal, firstResponse, t) := t.awaitResponse
      let evidence := c.evidence ++ [⟨profile, signal, min input.elapsedMs (2 ^ 32 - 1)⟩]
      let c := { c with target := some t, firstResponse, evidence }
      if signal = .serverHello then
        let c := { c with activeProfile := profile, verdict := infer evidence c.context }
        { c with phase := successPhase setup c profile input }
      else
        { c with
          rememberedFailed := c.rememberedFailed ||
            (setup.forcedProfile.isNone && c.remembered = some profile)
          firstResponse := [] }

/-- The hello goes out as the plan says; a write that fails is no evidence. -/
def probe (setup : Setup) (c : Conn) (profile : Profile) (plan : FragmentPlan)
    (input : Input) : Conn :=
  match c.sendTarget (writePlan c.clientBuffer c.hello c.helloComplete plan) with
  | (false, c) => c
  | (true, c) => c.judge setup profile input

/-- The attempts are over without a ServerHello. -/
def giveUp (c : Conn) : Conn :=
  { c with verdict := infer c.evidence c.context, phase := .settleLoss }

/-- One round of the loop over the probe order. -/
def attempt (setup : Setup) (c : Conn) (input : Input) : Conn :=
  match c.order with
  | [] => c.giveUp
  | profile :: order =>
      if maxProbeAttempts ≤ c.attempts ∨ input.stopping then c.giveUp
      else
        match planFor setup c.hello profile with
        | none => { c with order }
        | some plan =>
            if c.attempts = 0 then
              { c with order, attempts := 1 }.probe setup profile plan input
            else
              match c.reconnect input.connect with
              | (none, c) => c.giveUp
              | (some _, c) =>
                  { c with order, attempts := c.attempts + 1 }.probe setup profile plan input

/-! ## Steps -/

/-- A failed winner is held against it. -/
def settleFailure (setup : Setup) (c : Conn) (s : Store) : Store :=
  if setup.forcedProfile.isNone && c.rememberedFailed then
    match c.remembered with
    | some profile => (s.recordFailure c.networkId c.targetHost profile).1
    | none => s
  else s

/-- The client's bytes go out as they are. -/
def sendWhole (c : Conn) : Conn :=
  let (ok, c) := c.sendTarget (sendAll · c.clientBuffer)
  { c with phase := if ok then .flush else .handOff }

/-- The start of `deliverHello`: what cannot be re-framed goes out as it is. -/
def deliver (c : Conn) : Conn :=
  if c.clientBuffer = [] then { c with phase := .flush }
  else if !c.helloComplete then c.sendWhole
  else if c.hello.spansRecords then { c with activeProfile := .none }.sendWhole
  else { c with phase := .order }

/-- What the client sent behind its hello goes to the winning connection only. -/
def flushTrailingClientData (c : Conn) : Bool × Conn :=
  if !c.helloComplete ∨ c.hello.spansRecords ∨
      c.clientBuffer.length ≤ c.hello.recordTotalLength then (true, c)
  else c.sendTarget (sendAll · (c.clientBuffer.drop c.hello.recordTotalLength))

/-- The end of `run` before the pump: what the probe read goes to the client. -/
def flush (c : Conn) : Conn :=
  match c.flushTrailingClientData with
  | (false, c) => { c with phase := .handOff }
  | (true, c) =>
      let (flushed, socket) :=
        if c.firstResponse = [] then (true, c.client.socket)
        else sendAll c.client.socket c.firstResponse
      { c with
        client := { c.client with socket }
        clientBuffer := []
        firstResponse := []
        phase := if flushed then .pump else .closed }

def learned (c : Conn) (s : Store) (profile : Profile) (input : Input) : Store × Outcome × Bool :=
  s.remember input.tick.moment c.networkId c.targetHost profile.name c.verdict.kind
    c.verdict.confidence

/-- One differential is a suspicion, and the record says so. -/
def Verdict.after (verdict : Verdict) (outcome : Outcome) : Verdict :=
  if outcome = .candidate then
    { verdict with kind := .interferenceSuspected, confidence := min verdict.confidence 55 }
  else verdict

def step (setup : Setup) (c : Conn) (s : Store) (input : Input) : Store × Conn :=
  match c.phase with
  | .start =>
      if input.stopping then (s, { c with phase := .closed })
      else
        (s, { c with
          phase := .prepare
            (if c.transparent then [.collect, .candidates, .connect]
            else [.candidates, .connect, .collect]) })
  | .prepare stages => (s, c.prepare stages input)
  | .deliver => (s, c.deliver)
  | .order =>
      match setup.forcedProfile with
      | none =>
          let (s, order) := s.probeOrder input.tick.moment c.networkId c.targetHost c.hello
          (s, { c with order, phase := .lookup })
      | some forced =>
          (s, { c with
            order := if forced = .none then [.none] else [forced, .none]
            phase := .lookup })
  | .lookup =>
      (s, { c with
        remembered := s.lookup c.networkId c.targetHost input.tick.moment
        phase := .health })
  | .health =>
      (s, { c with
        context :=
          if setup.forcedProfile.isSome then {}
          else
            ⟨c.remembered, s.baselineRecentlyHealthy input.tick.moment c.networkId c.targetHost⟩
        phase := .attempt })
  | .attempt => (s, c.attempt setup input)
  | .noteHealthy =>
      ((s.noteBaselineHealthy input.tick.moment c.networkId c.targetHost).1,
        { c with phase := if c.remembered.isSome then .rememberNone else .flush })
  | .rememberNone => ((c.learned s .none input).1, { c with phase := .flush })
  | .settleWin profile => (c.settleFailure setup s, { c with phase := .rememberWin profile })
  | .rememberWin profile =>
      let (s, outcome, _) := c.learned s profile input
      (s, { c with verdict := Verdict.after c.verdict outcome, phase := .flush })
  | .settleLoss => (c.settleFailure setup s, { c with phase := .handOff })
  | .flush => (s, c.flush)
  | .pump | .handOff | .closed => (s, c)

end Conn

end Relay

end SplitHello
