import SplitHello.Dns.Message
import SplitHello.Json.Helpers
import SplitHello.Library.KeyedTable
import SplitHello.Recovery
import Mathlib.Data.Finset.Basic

/-!
# The resolver

Names are resolved through the Worker, and both its JSON answers and its raw DNS
answers are cached. The resolver is shared between threads: every function here
that takes and returns a `Resolver` is one block the source runs under its lock or
one access to an atomic, so that the calls of `Server` can be interleaved between
them.
-/

namespace SplitHello

namespace Dns

open ByteString KeyedTable Recovery

def minTtlSeconds : ℕ := 60
def maxTtlSeconds : ℕ := 3600
def negativeCacheSeconds : ℕ := 30
def transientCacheSeconds : ℕ := 3
def maxCacheEntries : ℕ := 2048
def maxWireCacheEntries : ℕ := 1024
def wireMinTtlSeconds : ℕ := 10
def wireMaxTtlSeconds : ℕ := 3600
def wireNegativeMaxSeconds : ℕ := 60
def bootstrapTtlMs : ℕ := 10 * 60 * 1000
def bootstrapRetryMs : ℕ := 30 * 1000
def neverExpires : ℕ := 2 ^ 64 - 1

/-- What a lookup says about a name. -/
structure Result where
  v4 : List Bytes := []
  v6 : List Bytes := []
  ttlSeconds : ℕ := 0
  allowWireFallback : Bool := false
  rcode : ℕ := 0
  transient : Bool := false
  deriving DecidableEq, Repr

def Result.empty (result : Result) : Bool := result.v4.isEmpty && result.v6.isEmpty

/-- An answer to an HTTP request; a negative status is a transport failure. -/
structure HttpResponse where
  status : ℤ := 0
  body : Bytes := []
  retryAfterSeconds : ℕ := 0
  deriving DecidableEq, Repr

def HttpResponse.ok (response : HttpResponse) : Bool :=
  200 ≤ response.status && response.status < 300

structure Entry where
  result : Result
  expiresAtMs : ℕ
  deriving DecidableEq, Repr

structure WireEntry where
  response : Bytes
  storedAtMs : ℕ
  expiresAtMs : ℕ
  deriving DecidableEq, Repr

structure Resolver where
  workerHost : Bytes
  bootstrapNeeded : Bool
  cache : Table Bytes Entry := ∅
  wireCache : Table Bytes WireEntry := ∅
  inFlight : Finset Bytes := ∅
  health : WorkerHealth := {}
  bootstrapNextMs : ℕ := 0
  bootstrapBusy : Bool := false

/-! ## Names, keys and lifetimes -/

/-- Lower case, without trailing dots. -/
def lowercase (value : Bytes) : Bytes := ((lower value).reverse.dropWhile (· = 46)).reverse

def isHostByte (c : UInt8) : Bool :=
  (97 ≤ c && c ≤ 122) || (48 ≤ c && c ≤ 57) || c = 45 || c = 46

def isResolvableHost (host : Bytes) : Bool :=
  !host.isEmpty && host.length ≤ 253 && host.all isHostByte

def isIpLiteral (pton : InetPton) (value : Bytes) : Bool :=
  !value.isEmpty && ((pton.v4 value).isSome || (pton.v6 value).isSome)

/-- A cached result with the lifetime that is left of it. -/
def agedResult (result : Result) (expiresAtMs now : ℕ) : Result :=
  if expiresAtMs = neverExpires ∨ result.ttlSeconds = 0 then result
  else
    let remaining := (expiresAtMs - now + 999) / 1000
    { result with ttlSeconds := max 1 (min remaining result.ttlSeconds) }

def wireKey (query : Query) : Bytes :=
  query.name ++ ofString "|" ++ Json.decimal query.type ++
    ofString (if query.recursionDesired then "|r" else "|-") ++
    ofString (if query.dnssecOk then "d" else "-") ++
    ofString (if query.ednsPayload ≠ 0 then "e" else "-")

def clamp (value low high : ℕ) : ℕ :=
  if value < low then low else if high < value then high else value

/-- The seconds a relayed answer may be served again; zero means it is not kept. -/
def wireLifetimeSeconds (info : ResponseInfo) : ℕ :=
  if info.truncated then 0
  else if info.rcode = rcodeNoError ∧ 0 < info.answers then
    match info.answerTtl with
    | none => 0
    | some ttl => if ttl = 0 then 0 else clamp ttl wireMinTtlSeconds wireMaxTtlSeconds
  else if info.rcode = rcodeNoError ∨ info.rcode = rcodeNxDomain then
    match info.authorityTtl with
    | none => negativeCacheSeconds
    | some ttl => clamp ttl wireMinTtlSeconds wireNegativeMaxSeconds
  else 0

/-! ## What the Worker's answers say -/

/-- The result of a name lookup, read from the answer to `/resolve`. -/
def readAnswer (pton : InetPton) (response : HttpResponse) : Result :=
  if response.status = 401 ∨ response.status = 403 ∨ response.status = 429 then
    { transient := true }
  else if response.status = 404 then { allowWireFallback := true }
  else if !response.ok then { transient := true }
  else
    let v4 := Json.getStringArray response.body (ofString "a")
    let v6 := Json.getStringArray response.body (ofString "aaaa")
    let legacy := Json.getString response.body (ofString "ip")
    -- The shape that older Workers answered with has one address only.
    let v4 := if v4.isEmpty && v6.isEmpty && !legacy.isEmpty then [legacy] else v4
    let v4 := v4.filter (isIpLiteral pton)
    let v6 := v6.filter (isIpLiteral pton)
    let rcode := Json.getInt response.body (ofString "rcode") (-1)
    let partly := Json.getBool response.body (ofString "partial")
    let ttl := Json.getInt response.body (ofString "ttl") minTtlSeconds
    let ttlSeconds := (max (minTtlSeconds : ℤ) (min ttl maxTtlSeconds)).toNat
    { v4, v6
      rcode := if 0 ≤ rcode then (min rcode 15).toNat else 0
      allowWireFallback := rcode < 0 && v4.isEmpty && v6.isEmpty
      transient := partly
      ttlSeconds := if partly then min ttlSeconds transientCacheSeconds else ttlSeconds }

/-- The answer to a raw query, with its lifetime, if it may go to the application: a
well-formed response to this very question. -/
def readWireAnswer (query : Query) (response : HttpResponse) : Option (Bytes × ℕ) :=
  let answer := response.body
  if response.status = 401 ∨ response.status = 403 then none
  else if !response.ok ∨ answer.length < 12 ∨ answer.length > 65535 then none
  else
    match inspectResponse (memory answer) answer.length with
    | none => none
    | some info =>
        if !info.response || !echoesQuestion (memory answer) answer.length query then none
        else some (setId answer query.id, wireLifetimeSeconds info)

def appendUnique (list : List Bytes) (value : Bytes) : List Bytes :=
  if list.contains value then list else list ++ [value]

/-- One result of the system's resolver. An address of another family, or one that has
no text, is of no use. -/
inductive SystemAddress
  | v4 (text : Bytes)
  | v6 (text : Bytes)
  | unusable

/-- The Worker's own addresses, as the system resolves them before anything is
intercepted. -/
def lookupViaSystemResolver (resolved : Option (List SystemAddress)) : Option Result :=
  resolved.bind fun addresses =>
    let out := addresses.foldl (fun (out : Result) address =>
        match address with
        | .v4 text => { out with v4 := appendUnique out.v4 text }
        | .v6 text => { out with v6 := appendUnique out.v6 text }
        | .unusable => out) { ttlSeconds := bootstrapTtlMs / 1000 }
    if out.empty then none else some out

/-- The address literals of one family among the `data` members of a JSON answer. -/
def dataLoop (pton : InetPton) (wantsV6 : Bool) : ℕ → Bytes → List Bytes → List Bytes
  | 0, _, found => found
  | fuel + 1, text, found =>
      match Json.findValue (ofString "data") text with
      | none => found
      | some value =>
          let (address, behind) := Json.parseString value
          let next := if behind.length < value.length then behind else value.drop 1
          let fits := isIpLiteral pton address && address.contains 58 == wantsV6
          dataLoop pton wantsV6 fuel next
            (if fits && !found.contains address then found ++ [address] else found)

/-- The Worker's own addresses, asked for at an address literal. -/
def lookupViaDohByAddress (pton : InetPton) (name : Bytes) (a aaaa : HttpResponse) :
    Option Result :=
  if !isResolvableHost name then none
  else
    let read (wantsV6 : Bool) (response : HttpResponse) : List Bytes :=
      if response.ok then dataLoop pton wantsV6 (response.body.length + 1) response.body []
      else []
    let out : Result :=
      { v4 := read false a, v6 := read true aaaa, ttlSeconds := bootstrapTtlMs / 1000 }
    if out.empty then none else some out

namespace Resolver

/-! ## Blocks under the lock -/

/-- A resolver whose Worker was looked up before anything was intercepted, if the
system could resolve it. -/
def start (pton : InetPton) (workerHost : Bytes) (bootstrap : Option Result) (now : ℕ) :
    Resolver :=
  if workerHost.isEmpty then { workerHost, bootstrapNeeded := false }
  else if isIpLiteral pton (lowercase workerHost) then { workerHost, bootstrapNeeded := false }
  else
    match bootstrap with
    | none => { workerHost, bootstrapNeeded := true }
    | some result =>
        { workerHost
          bootstrapNeeded := true
          cache := (∅ : Table Bytes Entry).insert (lowercase workerHost) ⟨result, neverExpires⟩
          bootstrapNextMs := now + bootstrapTtlMs }

/-- What one round of the loop in `resolve` decides. -/
inductive Lookup
  | settled (result : Result)
  | waits
  | begins

def lookup (r : Resolver) (key : Bytes) (now : ℕ) : Lookup × Resolver :=
  match (r.cache.lookup key).filter fun e => now < e.expiresAtMs with
  | some e => (.settled (agedResult e.result e.expiresAtMs now), r)
  | none =>
      if key = lowercase r.workerHost then (.settled { transient := true }, r)
      else if key ∈ r.inFlight then (.waits, r)
      else (.begins, { r with inFlight := insert key r.inFlight })

/-- The whole of `resolve` up to its first query: literals need no lookup. -/
def resolveStart (pton : InetPton) (r : Resolver) (key : Bytes) (now : ℕ) : Lookup × Resolver :=
  if key.isEmpty then (.settled {}, r)
  else if isIpLiteral pton key then
    (.settled (if key.contains 58 then { v6 := [key] } else { v4 := [key] }), r)
  else r.lookup key now

/-- The entry that leaves a full cache: the first to expire, the Worker's own aside. -/
def makeRoom (r : Resolver) (bucket : Bytes → ℕ) (key : Bytes) : Table Bytes Entry :=
  if key ∉ r.cache ∧ maxCacheEntries ≤ size r.cache then
    let others := eraseIf (fun k _ => k = lowercase r.workerHost) r.cache
    match oldest Entry.expiresAtMs bucket others with
    | some victim => r.cache.erase victim.1
    | none => r.cache
  else r.cache

/-- The second block of `resolve`: the result goes into the cache and the key is free
again. -/
def keep (r : Resolver) (key : Bytes) (result : Result) (now : ℕ) (bucket : Bytes → ℕ) :
    Resolver :=
  let lifetime :=
    if result.transient then transientCacheSeconds
    else if result.empty then negativeCacheSeconds
    else result.ttlSeconds
  { r with
    cache := (r.makeRoom bucket key).insert key ⟨result, now + lifetime * 1000⟩
    inFlight := r.inFlight.erase key }

/-- The first block of `queryWire`: the cached answer and its age, or the expired entry
is gone. -/
def lookupWire (r : Resolver) (key : Bytes) (now : ℕ) : Option (Bytes × ℕ) × Resolver :=
  match r.wireCache.lookup key with
  | none => (none, r)
  | some e =>
      if now < e.expiresAtMs then (some (e.response, WorkerHealth.since now e.storedAtMs / 1000), r)
      else (none, { r with wireCache := r.wireCache.erase key })

/-- The second block of `queryWire`. -/
def keepWire (r : Resolver) (key answer : Bytes) (lifetime now : ℕ) (bucket : Bytes → ℕ) :
    Resolver :=
  let wireCache :=
    if key ∉ r.wireCache ∧ maxWireCacheEntries ≤ size r.wireCache then
      evictOldest WireEntry.expiresAtMs bucket r.wireCache
    else r.wireCache
  { r with wireCache := wireCache.insert key ⟨answer, now, now + lifetime * 1000⟩ }

def clearCache (r : Resolver) : Resolver :=
  { r with
    cache := eraseIf (fun k _ => k ≠ lowercase r.workerHost) r.cache
    wireCache := ∅ }

def hasBootstrap (r : Resolver) : Bool :=
  !r.bootstrapNeeded ||
    (r.cache.lookup (lowercase r.workerHost)).any fun e => !e.result.empty

def observe (r : Resolver) (response : HttpResponse) (now : ℕ) : Resolver :=
  { r with health := r.health.observe response.status now response.retryAfterSeconds }

end Resolver

end Dns

end SplitHello
