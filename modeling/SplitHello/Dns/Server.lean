import SplitHello.Dns.Built
import SplitHello.Dns.Resolver
import SplitHello.Library.History

/-!
# Calls on the resolver

A `Call` is one thread inside `buildReply`, or inside a plain `resolve` on behalf of
a connection. Its `Phase` is the place it has reached between two blocks on the
shared resolver; one step runs one block and what the thread does on its own behind
it. A `System` is the resolver with all the calls on it, and its events interleave
them in any order. What a step reads from outside (clocks, answers of the Worker, the
order of a walk over a table) comes in as its `Input`.
-/

namespace SplitHello

namespace Dns

open ByteString KeyedTable Recovery

/-- Which request to the Worker a call is on its way to. -/
inductive Errand
  | name (key : Bytes) (asker : Option Query)
  | wire (query : Query)

/-- Where a call stands. A lookup without an asker is a plain `resolve`. -/
inductive Phase
  | resolve (key : Bytes) (asker : Option Query)
  | gate (errand : Errand)
  | refresh (errand : Errand)
  | refreshed (errand : Errand) (stored : Bool)
  | enter (errand : Errand)
  | ask (errand : Errand)
  | keep (key : Bytes) (asker : Option Query) (result : Result)
  | relay (query : Query)
  | keepWire (query : Query) (answer : Bytes) (lifetime : ℕ)
  | found (result : Result)
  | replied (whole reply : Bytes)
  | thrown

structure Call where
  datagram : Option Bytes
  deadlineMs : ℕ
  phase : Phase

/-- What one step reads from outside. An HTTP request may also throw. -/
structure Input where
  nowMs : ℕ := 0
  laterMs : ℕ := 0
  response : Option HttpResponse := none
  bootstrap : Option (HttpResponse × HttpResponse) := none
  bucket : Bytes → ℕ := fun _ => 0

/-! ## What a call does on its own -/

section

variable (pton : InetPton)

/-- The end of `buildReply`: nothing usable becomes SERVFAIL, and the message is cut to
what the client can take. -/
def finish (query : Query) (response : Bytes) : Phase :=
  let whole := if response = [] then buildResponse pton query [] 60 true 0 else response
  .replied whole (truncateForUdp whole (max classicUdpPayload query.ednsPayload)).1

/-- How `buildReply` goes on with what `resolve` returned. -/
def answer (query : Query) (resolved : Result) : Phase :=
  let addresses := if query.type = typeA then resolved.v4 else resolved.v6
  let ttl := if resolved.ttlSeconds = 0 then 60 else resolved.ttlSeconds
  if !resolved.empty then
    -- With one family missing, an empty answer for it would be a lie.
    if !addresses.isEmpty || !resolved.transient then
      finish pton query (buildResponse pton query addresses ttl false 0)
    else finish pton query []
  else if resolved.allowWireFallback then .relay query
  else if !resolved.transient then
    finish pton query (buildResponse pton query [] ttl false resolved.rcode)
  else finish pton query []

def returned (asker : Option Query) (result : Result) : Phase :=
  match asker with
  | none => .found result
  | some query => answer pton query result

/-- The start of `query`, up to its request. -/
def startQuery (r : Resolver) (key : Bytes) (asker : Option Query) : Phase :=
  if r.workerHost.isEmpty then .keep key asker {}
  else if !isResolvableHost key then .keep key asker { allowWireFallback := true }
  else .gate (.name key asker)

/-- No request is made: the deadline has passed, or there is nothing to ask. -/
def refused : Errand → Phase
  | .name key asker => .keep key asker { transient := true }
  | .wire query => finish pton query []

/-- The answer about the Worker's own name. This name never waits for a request. -/
def bootstrapAnswer (r : Resolver) (query : Query) (now : ℕ) : Bytes :=
  let bootstrap : Result :=
    match (r.resolveStart pton (lowercase query.name) now).1 with
    | .settled result => result
    | _ => {}
  let addresses :=
    if query.type = typeA then bootstrap.v4
    else if query.type = typeAaaa then bootstrap.v6
    else []
  buildResponse pton query addresses
    (if bootstrap.ttlSeconds = 0 then minTtlSeconds else bootstrap.ttlSeconds) bootstrap.empty 0

/-- What `queryWire` makes of the Worker's answer. -/
def received (query : Query) (response : HttpResponse) : Phase :=
  match readWireAnswer query response with
  | none => finish pton query []
  | some (answer, lifetime) =>
      if lifetime = 0 then finish pton query answer else .keepWire query answer lifetime

/-! ## Steps -/

def Call.step (c : Call) (r : Resolver) (input : Input) : Resolver × Phase :=
  match c.phase with
  | .resolve key asker =>
      match r.resolveStart pton key input.nowMs with
      | (.settled result, r) => (r, returned pton asker result)
      | (.waits, r) => (r, .resolve key asker)
      | (.begins, r) => (r, startQuery r key asker)
  | .gate errand =>
      if c.deadlineMs ≠ 0 ∧ c.deadlineMs ≤ input.nowMs then (r, refused pton errand)
      else if !r.bootstrapNeeded ∨ input.laterMs < r.bootstrapNextMs ∨ r.bootstrapBusy then
        (r, .enter errand)
      else ({ r with bootstrapBusy := true }, .refresh errand)
  | .refresh errand =>
      let fresh := input.bootstrap.bind fun (a, aaaa) =>
        lookupViaDohByAddress pton (lowercase r.workerHost) a aaaa
      match fresh with
      | none => (r, .refreshed errand false)
      | some result =>
          ({ r with cache := r.cache.insert (lowercase r.workerHost) ⟨result, neverExpires⟩ },
            .refreshed errand true)
  | .refreshed errand stored =>
      ({ r with
          bootstrapNextMs := input.nowMs + if stored then bootstrapTtlMs else bootstrapRetryMs
          bootstrapBusy := false },
        .enter errand)
  | .enter errand =>
      if !r.hasBootstrap ∨ r.health.backingOff input.nowMs then (r, refused pton errand)
      else (r, .ask errand)
  | .ask (.name key asker) =>
      match input.response with
      | none => (r, .keep key asker { transient := true })
      | some response =>
          (r.observe response input.nowMs, .keep key asker (readAnswer pton response))
  | .ask (.wire query) =>
      match input.response with
      | none => (r, .thrown)
      | some response => (r.observe response input.nowMs, received pton query response)
  | .keep key asker result =>
      (r.keep key result input.nowMs input.bucket, returned pton asker result)
  | .relay query =>
      if r.workerHost.isEmpty then (r, finish pton query [])
      else if lowercase query.name = lowercase r.workerHost then
        (r, finish pton query (bootstrapAnswer pton r query input.nowMs))
      else
        match r.lookupWire (wireKey query) input.nowMs with
        | (some (cached, age), r) =>
            (r, finish pton query (ageTtls (setId cached query.id) (min age wireMaxTtlSeconds)))
        | (none, r) => (r, .gate (.wire query))
  | .keepWire query answer lifetime =>
      (r.keepWire (wireKey query) answer lifetime input.nowMs input.bucket,
        finish pton query answer)
  | phase => (r, phase)

/-- A datagram arrives. A query that cannot be parsed is answered at once, or not at
all. -/
def Call.buildReply (datagram : Bytes) (deadlineMs : ℕ) : Call where
  datagram := some datagram
  deadlineMs := deadlineMs
  phase :=
    match parseQuery (memory datagram) datagram.length with
    | (query, false) =>
        let reply := if query.error ≠ 0 then buildError query query.error else []
        .replied reply reply
    | (query, true) =>
        if query.type = typeA ∨ query.type = typeAaaa then
          .resolve (lowercase query.name) (some query)
        else .relay query

def Call.resolve (host : Bytes) (deadlineMs : ℕ) : Call :=
  ⟨none, deadlineMs, .resolve (lowercase host) none⟩

structure System where
  resolver : Resolver
  calls : List Call := []

inductive Event
  | buildReply (datagram : Bytes) (deadlineMs : ℕ)
  | resolve (host : Bytes) (deadlineMs : ℕ)
  | act (index : ℕ) (input : Input)
  | clearCache

def System.step (s : System) : Event → System
  | .buildReply datagram deadlineMs =>
      { s with calls := s.calls ++ [Call.buildReply datagram deadlineMs] }
  | .resolve host deadlineMs => { s with calls := s.calls ++ [Call.resolve host deadlineMs] }
  | .act index input =>
      match s.calls[index]? with
      | none => s
      | some c =>
          let (resolver, phase) := c.step pton s.resolver input
          { resolver, calls := s.calls.set index { c with phase } }
  | .clearCache => { s with resolver := s.resolver.clearCache }

end

/-! ## What a good reply is -/

/-- The header that refuses a query: its id, opcode and RD, and nothing behind it. -/
structure Refuses (datagram : Bytes) (rcode : ℕ) (reply : Bytes) : Prop where
  length : reply.length = headerSize
  id : be16 (memory reply) 0 = be16 (memory datagram) 0
  -- QR and RA are set, and AA, TC and the reserved bits are not.
  flags : be16 (memory reply) 2 = 0x8000 + be16 (memory datagram) 2 / 2048 % 16 * 2048 +
    (if (be16 (memory datagram) 2).testBit 8 then 0x0100 else 0) + 0x0080 + rcode
  counts : ∀ i ∈ [4, 6, 8, 10], be16 (memory reply) i = 0
  code : rcode = rcodeFormErr ∨ rcode = rcodeNotImp

/-- The message that answers a query, and what was left of it for the client. -/
structure Answers (query : Query) (whole reply : Bytes) : Prop where
  id : be16 (memory reply) 0 = query.id
  response : (be16 (memory reply) 2).testBit 15 = true
  questions : be16 (memory reply) 4 = 1
  echoes : echoesQuestion (memory reply) reply.length query = true
  wellFormed : (inspectResponse (memory reply) reply.length).isSome
  fits : reply.length ≤ max classicUdpPayload query.ednsPayload
  uncut : whole.length ≤ max classicUdpPayload query.ednsPayload → reply = whole
  cut : max classicUdpPayload query.ednsPayload < whole.length →
    (be16 (memory reply) 2).testBit 9 = true ∧ ∀ i ∈ [6, 8, 10], be16 (memory reply) i = 0

/-- What a server owes the sender of a datagram. -/
structure Served (datagram whole reply : Bytes) : Prop where
  silent : reply = [] ↔
    datagram.length < headerSize ∨ (be16 (memory datagram) 2).testBit 15 = true
  refuses : ∀ query, parseQuery (memory datagram) datagram.length = (query, false) →
    reply ≠ [] → Refuses datagram query.error reply
  answers : ∀ query, parseQuery (memory datagram) datagram.length = (query, true) →
    Answers query whole reply

end Dns

end SplitHello
