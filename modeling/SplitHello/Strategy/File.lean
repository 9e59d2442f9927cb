import SplitHello.Strategy.Store
import SplitHello.Json.Written

/-!
# The strategy file

The text the store writes and the loader that reads it back. The loader believes
nothing it can check: unknown profiles are dropped, an expiry never reaches
beyond one lifetime from now, and an entry without a believable verification
stamp comes back as a candidate.

`Call` is one operation with the moment it runs at; a history of the store is a
list of calls.
-/

namespace SplitHello

namespace Strategy

open ByteString Tls Diagnosis KeyedTable Json

def semicolon : UInt8 := 59
def bar : UInt8 := 124

def allKinds : List Kind :=
  [.unknown, .noInterference, .sniInterferenceLikely, .tlsIncompatible, .transportFailure,
    .throttlingSuspected, .learnedProfile, .transientFailure, .interferenceSuspected]

def parseKind (text : Bytes) : Kind :=
  (allKinds.find? fun kind => text = kind.name).getD .unknown

def splitFields (encoded : Bytes) : List Bytes := encoded.splitOn semicolon

/-- A numeric field; an absent field, or one that does not start with a number
in range, leaves the default. -/
def numericField (bits : ℕ) (fields : List Bytes) (i fallback : ℕ) : ℕ :=
  ((fields[i]?).bind (fromChars bits)).getD fallback

/-- The entry a line of the file describes, clamped to what the clock allows. -/
def decodeEntry (now : Moment) (profile : Profile) (fields : List Bytes) : Entry :=
  let verifiedAt := numericField 64 fields 5 0
  { profile
    kind := ((fields[1]?).map parseKind).getD .unknown
    confidence := min (numericField 32 fields 2 50) 100
    expiresAt := min (numericField 64 fields 3 (now.wall + learningTtlSeconds))
      (now.wall + learningTtlSeconds)
    failures := numericField 32 fields 4 0
    verifiedAt := if verifiedAt > now.wall + clockSkewSeconds then 0 else verifiedAt }

/-- The two tables the loader fills. -/
structure Loaded where
  entries : Table Bytes Entry := ∅
  candidates : Table Bytes Candidate := ∅

/-- One key with its value, if it can be used. -/
def loadRecord (now : Moment) (key encoded : Bytes) (acc : Loaded) : Loaded :=
  let fields := splitFields encoded
  match fields.head?.bind findProfile with
  | none => acc
  | some profile =>
      if key = [] ∨ profile = .none then acc
      else
        -- The first file version had bare host names as keys.
        let key := if bar ∈ key then key else scopeKey defaultNetwork key
        let entry := decodeEntry now profile fields
        if entry.expiresAt ≤ now.wall then acc
        else if entry.verifiedAt = 0 then
          if size acc.candidates < maxCandidates then
            { acc with candidates :=
                acc.candidates.insert key { profile, persistUntil := entry.expiresAt } }
          else acc
        else if size acc.entries < maxRememberedHosts then
          { acc with entries := acc.entries.insert key entry }
        else acc

/-- The members of the `domains` object. A value cut off by a torn write has no
closing quote and ends the loop. -/
def loadLoop (now : Moment) : ℕ → Bytes → Loaded → Loaded
  | 0, _, acc => acc
  | fuel + 1, s, acc =>
      match skipWs s with
      | [] => acc
      | c :: s =>
          if c = 125 then acc
          else if c = comma then loadLoop now fuel s acc
          else if c ≠ quote then acc
          else
            let (key, rest) := parseString (c :: s)
            match skipWs rest with
            | [] => acc
            | d :: rest =>
                if d ≠ colon then acc
                else
                  let text := skipWs rest
                  if text.head? ≠ some quote then acc
                  else
                    let (encoded, behind) := parseString text
                    let consumed := text.take (text.length - behind.length)
                    if consumed.length < 2 ∨ consumed.getLast? ≠ some quote then acc
                    else loadLoop now fuel behind (loadRecord now key encoded acc)

namespace Store

/-- Replaces the learned state by that of a file. -/
def load (s : Store) (content : Bytes) (now : Moment) : Store :=
  match getRaw content (ofString "domains") with
  | [] => s
  | c :: domains =>
      if c ≠ 123 then s
      else
        let loaded := loadLoop now domains.length domains {}
        { s with entries := loaded.entries, candidates := loaded.candidates }

def encodeEntry (entry : Entry) : Bytes :=
  [semicolon].intercalate
    [entry.profile.name, entry.kind.name, decimal entry.confidence, decimal entry.expiresAt,
      decimal entry.failures, decimal entry.verifiedAt]

def encodeCandidate (candidate : Candidate) : Bytes :=
  [semicolon].intercalate
    [candidate.profile.name, Kind.unknown.name, ofString "50", decimal candidate.persistUntil,
      ofString "0", ofString "0"]

/-- The lines of the file: live winners, then persisted nominations of keys
without one. -/
def savedRecords (s : Store) (now : Moment) : List (Bytes × Bytes) :=
  (((walk now.bucket s.entries).filter fun e => e.2.expiresAt > now.wall).map
      fun e => (e.1, encodeEntry e.2)) ++
    ((walk now.bucket s.candidates).filter fun c =>
        !(c.2.persistUntil ≤ now.wall || (s.entries.lookup c.1).isSome)).map
      fun c => (c.1, encodeCandidate c.2)

def recordText (record : Bytes × Bytes) : Bytes :=
  ofString "    " ++ quoted record.1 ++ ofString ": " ++ quoted record.2

/-- The text of the file. -/
def snapshotText (s : Store) (now : Moment) : Bytes :=
  ofString "\x7b\n  \"version\": 2,\n  \"domains\": \x7b\n" ++
    (ofString ",\n").intercalate ((s.savedRecords now).map recordText) ++
    ofString "\n  \x7d\n\x7d\n"

end Store

/-- The operations of the store. -/
inductive Op
  | remember (networkId host profileName : Bytes) (kind : Kind) (confidence : ℕ)
  | noteBaselineHealthy (networkId host : Bytes)
  | recordFailure (networkId host : Bytes) (profile : Profile)
  | forget (host : Bytes)
  | clear
  | probeOrder (networkId host : Bytes) (hello : ClientHello)
  | load (content : Bytes)

/-- An operation and when it runs. -/
structure Call where
  now : Moment
  op : Op

/-- The store after a call. -/
def Store.apply (s : Store) (call : Call) : Store :=
  match call.op with
  | .remember networkId host profileName kind confidence =>
      (s.remember call.now networkId host profileName kind confidence).1
  | .noteBaselineHealthy networkId host => (s.noteBaselineHealthy call.now networkId host).1
  | .recordFailure networkId host profile => (s.recordFailure networkId host profile).1
  | .forget host => (s.forget host).1
  | .clear => s.clear
  | .probeOrder networkId host hello => (s.probeOrder call.now networkId host hello).1
  | .load content => s.load content call.now

end Strategy

end SplitHello
