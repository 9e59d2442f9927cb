import SplitHello.Library.ByteString
import Mathlib.Data.Nat.Bits

/-!
# DNS messages

The query parser, the bounds-checked walk over a whole message, and what the
relay writes: hand-built answers, header-only errors, aged TTLs and messages cut
to a UDP limit. Readers take a memory and its length, writers return bytes.
-/

namespace SplitHello

namespace Dns

open ByteString

def headerSize : ℕ := 12
def classInternet : ℕ := 1
def typeA : ℕ := 1
def typeAaaa : ℕ := 28
def typeOpt : ℕ := 41
def maxNameLength : ℕ := 253
def maxAnswers : ℕ := 8
def advertisedPayload : ℕ := 1232
def rcodeNoError : ℕ := 0
def rcodeFormErr : ℕ := 1
def rcodeServFail : ℕ := 2
def rcodeNxDomain : ℕ := 3
def rcodeNotImp : ℕ := 4
def classicUdpPayload : ℕ := 512

structure Query where
  id : ℕ := 0
  type : ℕ := 0
  recursionDesired : Bool := false
  opcode : ℕ := 0
  ednsPayload : ℕ := 0
  dnssecOk : Bool := false
  error : ℕ := 0
  name : Bytes := []
  question : Bytes := []
  deriving DecidableEq, Repr

def isNameChar (c : UInt8) : Bool :=
  (97 ≤ c && c ≤ 122) || (48 ≤ c && c ≤ 57) || c = 45 || c = 95

/-- The payload size and the DO bit of the first OPT record behind the question; a
tail that cannot be read means there is none. -/
def ednsLoop (m : Memory) (length : ℕ) : ℕ → ℕ → Option (ℕ × Bool)
  | 0, _ => none
  | count + 1, offset =>
      if offset + 11 > length ∨ m offset ≠ 0 then none
      else
        let rdLength := be16 m (offset + 9)
        if offset + 11 + rdLength > length then none
        else if be16 m (offset + 1) = typeOpt then
          some (be16 m (offset + 3), (be32 m (offset + 5)).testBit 15)
        else ednsLoop m length count (offset + 11 + rdLength)

def parseEdns (m : Memory) (length offset : ℕ) (out : Query) : Query :=
  if be16 m 6 ≠ 0 ∨ be16 m 8 ≠ 0 then out
  else
    match ednsLoop m length (be16 m 10) offset with
    | none => out
    | some (ednsPayload, dnssecOk) => { out with ednsPayload, dnssecOk }

/-- The offset behind a name, which may end in a compression pointer. -/
def skipNameLoop (m : Memory) (length : ℕ) : ℕ → ℕ → Option ℕ
  | 0, _ => none
  | fuel + 1, offset =>
      if offset ≥ length then none
      else
        let first := (m offset).toNat
        if first = 0 then some (offset + 1)
        else if first ≥ 0xC0 then if offset + 2 > length then none else some (offset + 2)
        else if first ≥ 0x40 then none
        else skipNameLoop m length fuel (offset + 1 + first)

/-- Every round moves forward and stops at the end of the message. -/
def skipName (m : Memory) (length offset : ℕ) : Option ℕ :=
  skipNameLoop m length (length + 1) offset

structure RecordRef where
  type : ℕ
  sectionIndex : ℕ
  ttlOffset : ℕ
  deriving DecidableEq, Repr

def questionsLoop (m : Memory) (length : ℕ) : ℕ → ℕ → Option ℕ
  | 0, offset => some offset
  | count + 1, offset =>
      match skipName m length offset with
      | none => none
      | some offset =>
          if offset + 4 > length then none else questionsLoop m length count (offset + 4)

/-- The records of one section, and the offset behind them. -/
def recordsLoop (m : Memory) (length sectionIndex : ℕ) : ℕ → ℕ → Option (ℕ × List RecordRef)
  | 0, offset => some (offset, [])
  | count + 1, offset =>
      match skipName m length offset with
      | none => none
      | some offset =>
          if offset + 10 > length then none
          else
            let rdLength := be16 m (offset + 8)
            if offset + 10 + rdLength > length then none
            else
              (recordsLoop m length sectionIndex count (offset + 10 + rdLength)).map fun rest =>
                (rest.1, ⟨be16 m offset, sectionIndex, offset + 4⟩ :: rest.2)

/-- The end of the question section and every record behind it. -/
def walk (m : Memory) (length : ℕ) : Option (ℕ × List RecordRef) :=
  if length < headerSize then none
  else if be16 m 4 * 5 + (be16 m 6 + be16 m 8 + be16 m 10) * 11 > length then none
  else
    match questionsLoop m length (be16 m 4) headerSize with
    | none => none
    | some questionEnd =>
        match recordsLoop m length 0 (be16 m 6) questionEnd with
        | none => none
        | some (offset, answers) =>
            match recordsLoop m length 1 (be16 m 8) offset with
            | none => none
            | some (offset, authority) =>
                match recordsLoop m length 2 (be16 m 10) offset with
                | none => none
                | some (_, additional) => some (questionEnd, answers ++ authority ++ additional)

/-- A name that another label can follow. -/
def withDot (name : Bytes) : Bytes := if name = [] then name else name ++ ofString "."

/-- The labels of a query's name, joined with dots, and the offset behind it. -/
def nameLoop (m : Memory) (length : ℕ) : ℕ → ℕ → Bytes → Option (Bytes × ℕ)
  | 0, _, _ => none
  | fuel + 1, offset, name =>
      if offset ≥ length then none
      else
        let labelLength := (m offset).toNat
        let offset := offset + 1
        if labelLength = 0 then some (name, offset)
        else if labelLength > 63 ∨ offset + labelLength > length then none
        else
          let label := lower (slice m offset labelLength)
          if (withDot name).length + labelLength > maxNameLength then none
          else if !label.all isNameChar then none
          else nameLoop m length fuel (offset + labelLength) (withDot name ++ label)

/-- The query, and whether it was accepted. A refused one carries the code to
answer with, or zero when it must not be answered. -/
def parseQuery (m : Memory) (length : ℕ) : Query × Bool :=
  if length < headerSize then ({}, false)
  else
    let flags := be16 m 2
    if flags.testBit 15 then ({}, false)
    else
      let out : Query :=
        { id := be16 m 0, opcode := flags / 2048 % 16, recursionDesired := flags.testBit 8 }
      if out.opcode ≠ 0 then ({ out with error := rcodeNotImp }, false)
      else
        let malformed : Query := { out with error := rcodeFormErr }
        if be16 m 4 ≠ 1 then (malformed, false)
        else
          match nameLoop m length (length + 1) headerSize [] with
          | none => (malformed, false)
          | some (name, offset) =>
              if name = [] ∨ offset + 4 > length then (malformed, false)
              else if be16 m (offset + 2) ≠ classInternet then
                ({ out with error := rcodeNotImp }, false)
              else
                let query : Query := { out with
                  type := be16 m offset
                  name
                  question := slice m headerSize (offset + 4 - headerSize) }
                (parseEdns m length (offset + 4) query, true)

/-- What the operating system makes of an address literal. -/
structure InetPton where
  v4 : Bytes → Option Bytes
  v6 : Bytes → Option Bytes
  length_v4 : ∀ text b, v4 text = some b → b.length = 4
  length_v6 : ∀ text b, v6 text = some b → b.length = 16

/-- The addresses that go into an answer of this type. -/
def encodedAddresses (pton : InetPton) (type : ℕ) (addresses : List Bytes) : List Bytes :=
  if type = typeA then (addresses.filterMap pton.v4).take maxAnswers
  else if type = typeAaaa then (addresses.filterMap pton.v6).take maxAnswers
  else []

def answerRecord (type ttlSeconds : ℕ) (address : Bytes) : Bytes :=
  put16 0xC00C ++ put16 type ++ put16 classInternet ++ put32 ttlSeconds ++
    put16 address.length ++ address

def optRecord : Bytes :=
  [0] ++ put16 typeOpt ++ put16 advertisedPayload ++ put32 0 ++ put16 0

/-- The flags of every reply: response, recursion available, and what is echoed. -/
def replyFlags (opcode : ℕ) (recursionDesired : Bool) (rcode : ℕ) : ℕ :=
  0x8080 + opcode % 16 * 2048 + (if recursionDesired then 0x0100 else 0) + rcode % 16

def buildResponse (pton : InetPton) (query : Query) (addresses : List Bytes) (ttlSeconds : ℕ)
    (failed : Bool) (rcode : ℕ) : Bytes :=
  let effectiveRcode := if failed && rcode = 0 then rcodeServFail else rcode
  let encoded := if effectiveRcode = 0 then encodedAddresses pton query.type addresses else []
  let withOpt : Bool := query.ednsPayload ≠ 0
  put16 query.id ++ put16 (replyFlags 0 query.recursionDesired effectiveRcode) ++ put16 1 ++
    put16 encoded.length ++ put16 0 ++ put16 (if withOpt then 1 else 0) ++ query.question ++
    encoded.flatMap (answerRecord query.type ttlSeconds) ++ (if withOpt then optRecord else [])

/-- A header without a question, for a query that could not be parsed. -/
def buildError (query : Query) (rcode : ℕ) : Bytes :=
  put16 query.id ++ put16 (replyFlags query.opcode query.recursionDesired rcode) ++
    put16 0 ++ put16 0 ++ put16 0 ++ put16 0

structure ResponseInfo where
  response : Bool := false
  truncated : Bool := false
  rcode : ℕ := 0
  answers : ℕ := 0
  answerTtl : Option ℕ := none
  authorityTtl : Option ℕ := none
  deriving DecidableEq, Repr

/-- The smaller of a minimum so far and another value. -/
def lowest (found : Option ℕ) (ttl : ℕ) : Option ℕ := some (found.elim ttl fun t => min t ttl)

def noteTtl (m : Memory) (info : ResponseInfo) (record : RecordRef) : ResponseInfo :=
  let ttl := be32 m record.ttlOffset
  if record.type = typeOpt then info
  else if record.sectionIndex = 0 then { info with answerTtl := lowest info.answerTtl ttl }
  else if record.sectionIndex = 1 then { info with authorityTtl := lowest info.authorityTtl ttl }
  else info

/-- The facts about a message, unless it is malformed. -/
def inspectResponse (m : Memory) (length : ℕ) : Option ResponseInfo :=
  (walk m length).map fun walked =>
    let flags := be16 m 2
    walked.2.foldl (noteTtl m)
      { response := flags.testBit 15
        truncated := flags.testBit 9
        rcode := flags % 16
        answers := be16 m 6 }

/-- The message repeats the question, upper and lower case aside. -/
def echoesQuestion (m : Memory) (length : ℕ) (query : Query) : Bool :=
  !(length < headerSize + query.question.length || be16 m 4 ≠ 1 || query.question.isEmpty) &&
    lower (slice m headerSize query.question.length) = lower query.question

def setId (message : Bytes) (id : ℕ) : Bytes :=
  if message.length ≥ 2 then splice message 0 (put16 id) else message

/-- Time takes a record's TTL down, but never from a positive value to zero. -/
def agedTtl (ttl ageSeconds : ℕ) : ℕ :=
  if ttl > ageSeconds then ttl - ageSeconds else if ttl > 0 then 1 else 0

def ageRecord (ageSeconds : ℕ) (message : Bytes) (record : RecordRef) : Bytes :=
  if record.type = typeOpt then message
  else
    splice message record.ttlOffset
      (put32 (agedTtl (be32 (memory message) record.ttlOffset) ageSeconds))

def ageTtls (message : Bytes) (ageSeconds : ℕ) : Bytes :=
  match walk (memory message) message.length with
  | none => message
  | some (_, records) => records.foldl (ageRecord ageSeconds) message

/-- The flags with the TC bit set. -/
def withTc (flags : ℕ) : ℕ := if flags.testBit 9 then flags else flags + 0x0200

/-- Header and question with the TC bit set and without records; a malformed message
loses its question too. -/
def truncated (message : Bytes) : Bytes :=
  let walked := walk (memory message) message.length
  let kept := message.take ((walked.map Prod.fst).getD headerSize)
  let marked := splice kept 2 (put16 (withTc (be16 (memory kept) 2)))
  let questions := if walked.isSome then marked else splice marked 4 (put16 0)
  splice (splice (splice questions 6 (put16 0)) 8 (put16 0)) 10 (put16 0)

/-- The message as it fits the limit, and whether it had to be cut. -/
def truncateForUdp (message : Bytes) (limit : ℕ) : Bytes × Bool :=
  if message.length ≤ limit ∨ message.length < headerSize then (message, false)
  else (truncated message, true)

end Dns

end SplitHello
