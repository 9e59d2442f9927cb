import SplitHello.Diagnosis
import SplitHello.Library.KeyedTable

/-!
# The learned-profile store

The in-memory state of the store and its operations, each as one step taken
under the store's mutex. A step is given the `Moment` it runs at: the two clocks,
and the order in which the hash tables happen to be walked. Steps that write the
file report it in their `dirty` result.
-/

namespace SplitHello

namespace Strategy

open ByteString Tls Diagnosis KeyedTable

def maxRememberedHosts : ℕ := 1000
def learningTtlSeconds : ℕ := 7 * 24 * 60 * 60
def defaultNetwork : Bytes := ofString "network-default"
def reverifyIntervalSeconds : ℕ := 30 * 60
def reverifyHoldSeconds : ℕ := 15
def baselineHealthyWindowSeconds : ℕ := 15 * 60
def maxHealthyHosts : ℕ := 4096
def confirmMinGapSeconds : ℕ := 60
def candidateTtlSeconds : ℕ := 6 * 60 * 60
def maxCandidates : ℕ := maxRememberedHosts
def clockSkewSeconds : ℕ := 5 * 60

/-- When a step runs: wall clock and monotonic clock in seconds, and the bucket
every key sits in. Neither clock ever reads zero, and seconds since the epoch are
a signed 64-bit count. -/
structure Moment where
  wall : ℕ
  mono : ℕ
  bucket : Bytes → ℕ := fun _ => 0
  wall_pos : 0 < wall
  wall_lt : wall < 2 ^ 63
  mono_pos : 0 < mono

structure Entry where
  profile : Profile
  kind : Kind := .unknown
  confidence : ℕ := 0
  expiresAt : ℕ := 0
  failures : ℕ := 0
  verifiedAt : ℕ := 0
  reverifyStartedAt : ℕ := 0
  deriving DecidableEq, Repr

/-- What a fresh win over the baseline leaves of the entry: the stamps start over,
and a surer verdict replaces the one on record. -/
def Entry.reproven (entry : Entry) (now : Moment) (kind : Kind) (confidence : ℕ) : Entry :=
  let entry := { entry with
    failures := 0
    verifiedAt := now.wall
    reverifyStartedAt := 0
    expiresAt := now.wall + learningTtlSeconds }
  if confidence > entry.confidence then { entry with confidence := min confidence 100, kind }
  else entry

/-- The entry of a new winner. -/
def Entry.winner (now : Moment) (profile : Profile) (kind : Kind) (confidence : ℕ) : Entry where
  profile
  kind
  confidence := min confidence 100
  expiresAt := now.wall + learningTtlSeconds
  verifiedAt := now.wall

/-- A differential seen once. A candidate from the file has no strike yet
(`firstStrikeAt = 0`) and lives on `persistUntil`. -/
structure Candidate where
  profile : Profile
  firstStrikeAt : ℕ := 0
  expiresAt : ℕ := 0
  persistUntil : ℕ := 0
  deriving DecidableEq, Repr

/-- The candidate of a first strike. -/
def Candidate.struck (now : Moment) (profile : Profile) (persistUntil : ℕ) : Candidate where
  profile
  firstStrikeAt := now.mono
  expiresAt := now.mono + candidateTtlSeconds
  persistUntil

structure Store where
  entries : Table Bytes Entry := ∅
  candidates : Table Bytes Candidate := ∅
  healthyAt : Table Bytes ℕ := ∅

/-- What a `remember` call reports. -/
inductive Outcome
  | ignored
  | forgotten
  | candidate
  | learned
  | reverified
  | refreshed
  deriving DecidableEq, Repr

def candidateLive (candidate : Candidate) (now : Moment) : Bool :=
  if candidate.firstStrikeAt = 0 then candidate.persistUntil > now.wall
  else candidate.expiresAt > now.mono

/-- Trailing dots dropped, lower case. -/
def normalizeHost (host : Bytes) : Bytes :=
  lower (host.reverse.dropWhile (· = 46)).reverse

def scopeKey (networkId host : Bytes) : Bytes :=
  (if networkId = [] then defaultNetwork else networkId) ++ ofString "|" ++ normalizeHost host

namespace Store

/-- The entry of a key while it has not expired. -/
def liveEntry (s : Store) (key : Bytes) (now : Moment) : Option Entry :=
  (s.entries.lookup key).filter fun e => e.expiresAt > now.wall

def lookup (s : Store) (networkId host : Bytes) (now : Moment) : Option Profile :=
  (s.liveEntry (scopeKey networkId host) now).map Entry.profile

def makeRoomForEntry (s : Store) (now : Moment) : Table Bytes Entry :=
  makeRoom maxRememberedHosts (fun e => e.expiresAt ≤ now.wall) Entry.verifiedAt now.bucket
    s.entries

def makeRoomForCandidate (candidates : Table Bytes Candidate) (now : Moment) :
    Table Bytes Candidate :=
  makeRoom maxCandidates (fun c => !candidateLive c now) Candidate.firstStrikeAt now.bucket
    candidates

/-- The untouched baseline works: whatever was learned or pending is dropped. -/
def retire (s : Store) (key : Bytes) : Store × Outcome × Bool :=
  let hadEntry := (s.entries.lookup key).isSome
  let hadPersistedCandidate :=
    match s.candidates.lookup key with
    | some candidate => candidate.persistUntil ≠ 0
    | none => false
  ({ s with entries := s.entries.erase key, candidates := s.candidates.erase key },
    if hadEntry then .forgotten else .ignored, hadEntry || hadPersistedCandidate)

/-- A cache hit keeps the winner alive. -/
def refresh (s : Store) (key : Bytes) (entry : Entry) : Store × Outcome × Bool :=
  if entry.failures ≠ 0 then
    ({ s with entries := s.entries.insert key { entry with failures := 0 } }, .refreshed, true)
  else (s, .refreshed, false)

/-- The winner re-proved itself against a fresh baseline. -/
def reverify (s : Store) (now : Moment) (key : Bytes) (entry : Entry) (kind : Kind)
    (confidence : ℕ) : Store × Outcome × Bool :=
  ({ s with entries := s.entries.insert key (entry.reproven now kind confidence) },
    .reverified, true)

/-- A new winner; it supersedes any pending nomination. -/
def learn (s : Store) (now : Moment) (key : Bytes) (profile : Profile) (kind : Kind)
    (confidence : ℕ) : Store × Outcome × Bool :=
  let entries := if (s.entries.lookup key).isNone then s.makeRoomForEntry now else s.entries
  ({ s with
      entries := entries.insert key (Entry.winner now profile kind confidence)
      candidates := s.candidates.erase key }, .learned, true)

/-- One differential nominates, a later one confirms. -/
def strike (s : Store) (now : Moment) (key : Bytes) (profile : Profile) (confidence : ℕ) :
    Store × Outcome × Bool :=
  match (s.candidates.lookup key).filter (candidateLive · now) with
  | none =>
      -- A candidate that is no longer live is dropped before room is made.
      let candidates := makeRoomForCandidate (s.candidates.erase key) now
      ({ s with candidates := candidates.insert key (.struck now profile 0) },
        .candidate, false)
  | some pending =>
      if pending.firstStrikeAt = 0 then
        let struck := Candidate.struck now profile pending.persistUntil
        ({ s with candidates := s.candidates.insert key struck }, .candidate, false)
      else if now.mono < pending.firstStrikeAt + confirmMinGapSeconds then
        ({ s with candidates := s.candidates.insert key { pending with profile } },
          .candidate, false)
      else s.learn now key profile .sniInterferenceLikely confidence

/-- What a known profile other than the baseline does to the store. -/
def rememberProfile (s : Store) (now : Moment) (key : Bytes) (profile : Profile) (kind : Kind)
    (confidence : ℕ) : Store × Outcome × Bool :=
  if kind = .transientFailure then (s, .ignored, false)
  else
    match (s.liveEntry key now).filter fun e => e.profile = profile with
    | some entry =>
        if kind = .learnedProfile then s.refresh key entry
        else s.reverify now key entry kind confidence
    | none =>
        if kind = .learnedProfile then (s, .ignored, false)
        else if kind = .sniInterferenceLikely then s.strike now key profile confidence
        else s.learn now key profile kind confidence

def remember (s : Store) (now : Moment) (networkId host profileName : Bytes) (kind : Kind)
    (confidence : ℕ) : Store × Outcome × Bool :=
  match findProfile profileName with
  | none => (s, .ignored, false)
  | some profile =>
      if normalizeHost host = [] then (s, .ignored, false)
      else
        let key := scopeKey networkId (normalizeHost host)
        if profile = .none then s.retire key
        else s.rememberProfile now key profile kind confidence

def noteBaselineHealthy (s : Store) (now : Moment) (networkId host : Bytes) : Store × Bool :=
  let key := scopeKey networkId host
  let persisted :=
    match s.candidates.lookup key with
    | some candidate => candidate.persistUntil ≠ 0
    | none => false
  let healthyAt :=
    if (s.healthyAt.lookup key).isNone then
      makeRoom maxHealthyHosts (fun t => t + baselineHealthyWindowSeconds ≤ now.mono)
        (fun _ => 0) now.bucket s.healthyAt
    else s.healthyAt
  ({ s with
      candidates := s.candidates.erase key
      healthyAt := healthyAt.insert key now.mono }, persisted)

def baselineRecentlyHealthy (s : Store) (now : Moment) (networkId host : Bytes) : Bool :=
  match s.healthyAt.lookup (scopeKey networkId host) with
  | none => false
  | some t => t ≤ now.mono && t + baselineHealthyWindowSeconds > now.mono

def recordFailure (s : Store) (networkId host : Bytes) (profile : Profile) : Store × Bool :=
  let key := scopeKey networkId host
  match (s.entries.lookup key).filter fun e => e.profile = profile with
  | none => (s, false)
  | some entry =>
      let failures := (entry.failures + 1) % 2 ^ 32
      if failures ≥ 2 then ({ s with entries := s.entries.erase key }, true)
      else
        let degraded := { entry with failures, confidence := entry.confidence - 20 }
        ({ s with entries := s.entries.insert key degraded }, true)

/-- Drops what was learned for a host on every network. -/
def forget (s : Store) (host : Bytes) : Store × Bool :=
  let ofHost (key : Bytes) : Bool := (ofString "|" ++ normalizeHost host).isSuffixOf key
  let changed := s.entries.entries.any (fun e => ofHost e.1) ||
    s.candidates.entries.any fun c => ofHost c.1 && c.2.persistUntil ≠ 0
  ({ s with
      entries := eraseIf (fun key _ => ofHost key) s.entries
      candidates := eraseIf (fun key _ => ofHost key) s.candidates }, changed)

def clear (_ : Store) : Store := {}

/-- A winner is overdue when it was not re-proven for a while, or when its stamp
lies in the future because the wall clock stepped back. -/
def reverifyDue (entry : Entry) (now : Moment) : Bool :=
  entry.verifiedAt > now.wall + clockSkewSeconds ||
    entry.verifiedAt + reverifyIntervalSeconds ≤ now.wall

def reverifyFree (entry : Entry) (now : Moment) : Bool :=
  entry.reverifyStartedAt = 0 || entry.reverifyStartedAt + reverifyHoldSeconds ≤ now.mono

/-- The profiles behind the lead: the table without what is queued already and
without what the hello cannot carry. -/
def probeRest (hello : ClientHello) (lead : Option Profile) (baselineQueued : Bool) :
    List Profile :=
  profileTable.filter fun p =>
    !(some p = lead) && !(baselineQueued && p = .none) && !(p.requiresSni && !hello.hasSni)

def probeOrder (s : Store) (now : Moment) (networkId host : Bytes) (hello : ClientHello) :
    Store × List Profile :=
  if hello.spansRecords then (s, [.none])
  else
    let key := scopeKey networkId host
    match s.liveEntry key now with
    | some entry =>
        if reverifyDue entry now && reverifyFree entry now then
          ({ s with entries := s.entries.insert key { entry with reverifyStartedAt := now.mono } },
            .none :: entry.profile :: probeRest hello (some entry.profile) true)
        else (s, entry.profile :: probeRest hello (some entry.profile) false)
    | none =>
        match (s.candidates.lookup key).filter (candidateLive · now) with
        | some candidate =>
            (s, .none :: candidate.profile :: probeRest hello (some candidate.profile) true)
        | none => (s, probeRest hello none false)

end Store

end Strategy

end SplitHello
