import SplitHello.Library.ByteString
import Mathlib.Data.Nat.Digits.Defs

/-!
# The JSON helpers

Read-only lookups into flat or shallow JSON text, and the escaping used to write
it. A position in the text is the rest of the text from there on, so `findValue`
returns the text behind the colon and the string reader returns the decoded
string with the text behind its closing quote. The loops that may consume
several bytes a round run on the length of the text.
-/

namespace SplitHello

namespace Json

open ByteString

def quote : UInt8 := 34
def backslash : UInt8 := 92
def comma : UInt8 := 44
def colon : UInt8 := 58

def isWs (c : UInt8) : Bool := c = 32 || c = 9 || c = 10 || c = 13

def skipWs (s : Bytes) : Bytes := s.dropWhile isWs

/-- The text of the value of a key: the first occurrence of the quoted key that
a colon follows. An occurrence as a value has no colon behind it. -/
def findValue (key : Bytes) : Bytes → Option Bytes
  | [] => none
  | c :: tail =>
      match (quote :: key ++ [quote]).isPrefixOf? (c :: tail) with
      | none => findValue key tail
      | some behind =>
          match skipWs behind with
          | [] => findValue key tail
          | d :: value => if d = colon then some (skipWs value) else findValue key tail

def isHexDigit (c : UInt8) : Bool :=
  (48 ≤ c && c ≤ 57) || (65 ≤ c && c ≤ 70) || (97 ≤ c && c ≤ 102)

def hexValue (c : UInt8) : ℕ :=
  if c ≤ 57 then c.toNat - 48 else (c ||| 0x20).toNat - 97 + 10

/-- Up to `n` hexadecimal digits: their value, how many there were, the rest. -/
def readHex : ℕ → ℕ → ℕ → Bytes → ℕ × ℕ × Bytes
  | 0, code, digits, s => (code, digits, s)
  | _ + 1, code, digits, [] => (code, digits, [])
  | n + 1, code, digits, c :: s =>
      if isHexDigit c then readHex n (code * 16 + hexValue c) (digits + 1) s
      else (code, digits, c :: s)

/-- What a backslash followed by `esc` stands for. -/
def unescape (esc : UInt8) : UInt8 :=
  if esc = 110 then 10
  else if esc = 116 then 9
  else if esc = 114 then 13
  else if esc = 98 then 8
  else if esc = 102 then 12
  else esc

/-- The inside of a string literal, and the text behind its closing quote. -/
def parseBody : ℕ → Bytes → Bytes × Bytes
  | 0, s => ([], s)
  | _ + 1, [] => ([], [])
  | fuel + 1, c :: s =>
      if c = quote then ([], s)
      else if c ≠ backslash then
        let (out, rest) := parseBody fuel s
        (c :: out, rest)
      else
        match s with
        | [] => ([], [])
        | esc :: s =>
            if esc = 117 then
              let (code, digits, s) := readHex 4 0 0 s
              let (out, rest) := parseBody fuel s
              ((if digits = 4 ∧ code < 0x80 then UInt8.ofNat code else 63) :: out, rest)
            else
              let (out, rest) := parseBody fuel s
              (unescape esc :: out, rest)

/-- A string literal at the front of the text; anything else reads as empty and
consumes nothing. -/
def parseString : Bytes → Bytes × Bytes
  | [] => ([], [])
  | c :: s => if c = quote then parseBody (s.length + 1) s else ([], c :: s)

def getString (s key : Bytes) : Bytes :=
  match findValue key s with
  | none => []
  | some value => (parseString value).1

def getBool (s key : Bytes) : Bool :=
  match findValue key s with
  | none => false
  | some value => (ofString "true").isPrefixOf value

def isDigit (c : UInt8) : Bool := 48 ≤ c && c ≤ 57

/-- The number a run of decimal digits stands for. -/
def digitsValue (ds : Bytes) : ℕ := ds.foldl (fun acc d => acc * 10 + (d.toNat - 48)) 0

/-- `strtoll` on text that starts with a digit or a minus sign. -/
def strtoll : Bytes → ℤ
  | [] => 0
  | c :: s =>
      if c = 45 then max (-(digitsValue (s.takeWhile isDigit) : ℤ)) (-(2 ^ 63))
      else min (digitsValue ((c :: s).takeWhile isDigit) : ℤ) (2 ^ 63 - 1)

def getInt (s key : Bytes) (fallback : ℤ) : ℤ :=
  match findValue key s with
  | none => fallback
  | some [] => fallback
  | some (c :: value) => if isDigit c || c = 45 then strtoll (c :: value) else fallback

/-- The string elements of an array from behind the opening bracket on, up to
the first element that is no string. -/
def arrayLoop : ℕ → Bytes → List Bytes
  | 0, _ => []
  | fuel + 1, s =>
      match skipWs s with
      | [] => []
      | c :: s =>
          if c = 93 then []
          else if c = comma then arrayLoop fuel s
          else if c ≠ quote then []
          else
            let (value, rest) := parseString (c :: s)
            value :: arrayLoop fuel rest

def getStringArray (s key : Bytes) : List Bytes :=
  match findValue key s with
  | none => []
  | some [] => []
  | some (c :: value) => if c = 91 then arrayLoop (value.length + 1) value else []

/-- The text up to the bracket that closes the first one, strings skipped; all
of it when there is none. -/
def rawLoop (openByte closeByte : UInt8) : ℕ → Bool → Bytes → Bytes
  | _, _, [] => []
  | depth, true, c :: s =>
      if c = backslash then
        match s with
        | [] => [c]
        | d :: s => c :: d :: rawLoop openByte closeByte depth true s
      else c :: rawLoop openByte closeByte depth (c ≠ quote) s
  | depth, false, c :: s =>
      if c = quote then c :: rawLoop openByte closeByte depth true s
      else if c = openByte then c :: rawLoop openByte closeByte (depth + 1) false s
      else if c = closeByte then
        if depth = 1 then [c] else c :: rawLoop openByte closeByte (depth - 1) false s
      else c :: rawLoop openByte closeByte depth false s

/-- The raw text of a nested value. -/
def getRaw (s key : Bytes) : Bytes :=
  match findValue key s with
  | none => []
  | some [] => []
  | some (c :: value) =>
      if c = 123 then rawLoop 123 125 0 false (c :: value)
      else if c = 91 then rawLoop 91 93 0 false (c :: value)
      else c :: value

def hexDigit (n : ℕ) : UInt8 := UInt8.ofNat (if n < 10 then 48 + n else 87 + n)

def escapeByte (c : UInt8) : Bytes :=
  if c = quote then [backslash, quote]
  else if c = backslash then [backslash, backslash]
  else if c = 10 then [backslash, 110]
  else if c = 13 then [backslash, 114]
  else if c = 9 then [backslash, 116]
  else if c < 0x20 then
    [backslash, 117, 48, 48, hexDigit (c.toNat / 16), hexDigit (c.toNat % 16)]
  else [c]

def escape (s : Bytes) : Bytes := s.flatMap escapeByte

/-- A string literal. -/
def quoted (s : Bytes) : Bytes := quote :: escape s ++ [quote]

/-- The decimal text of a number. -/
def decimal (n : ℕ) : Bytes :=
  if n = 0 then [48] else (Nat.digits 10 n).reverse.map fun d => UInt8.ofNat (48 + d)

/-- `from_chars` for an unsigned type of `bits` bits: the value of the leading
digits, unless there are none or they overflow. -/
def fromChars (bits : ℕ) (text : Bytes) : Option ℕ :=
  let ds := text.takeWhile isDigit
  if ds = [] ∨ digitsValue ds ≥ 2 ^ bits then none else some (digitsValue ds)

end Json

end SplitHello
