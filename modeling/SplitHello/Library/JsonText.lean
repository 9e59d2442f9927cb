import SplitHello.Library.ByteString

/-!
# JSON texts

A reader of JSON in UTF-8. It accepts the grammar of the standard and nothing else: a value with
white space around it. A numeral is kept as it is written, and of members with the same name the
last one counts. A unit of a surrogate pair that stands alone is written like any other code.
-/

namespace JsonText

open ByteString

inductive Value
  | null
  | boolean (value : Bool)
  | number (numeral : Bytes)
  | string (text : Bytes)
  | array (items : List Value)
  | object (members : List (Bytes × Value))

/-- What a reader finds at the front of a text, and the text behind it. -/
abbrev Reader (α : Type) := Bytes → Option (α × Bytes)

def quote : UInt8 := 34
def backslash : UInt8 := 92
def comma : UInt8 := 44
def colon : UInt8 := 58

def isWhite (c : UInt8) : Bool := c = 32 || c = 9 || c = 10 || c = 13

def skipWhite (s : Bytes) : Bytes := s.dropWhile isWhite

def isDigit (c : UInt8) : Bool := 48 ≤ c && c ≤ 57

/-! ## Strings -/

def hexValue (c : UInt8) : Option ℕ :=
  if isDigit c then some (c.toNat - 48)
  else if 65 ≤ c && c ≤ 70 then some (c.toNat - 55)
  else if 97 ≤ c && c ≤ 102 then some (c.toNat - 87)
  else none

/-- Four hexadecimal digits. -/
def codeUnit : Reader ℕ
  | a :: b :: c :: d :: s =>
      match hexValue a, hexValue b, hexValue c, hexValue d with
      | some a, some b, some c, some d => some (((a * 16 + b) * 16 + c) * 16 + d, s)
      | _, _, _, _ => none
  | _ => none

def utf8 (code : ℕ) : Bytes :=
  let tail (shift : ℕ) : UInt8 := UInt8.ofNat (0x80 + code / 2 ^ shift % 64)
  if code < 0x80 then [UInt8.ofNat code]
  else if code < 0x800 then [UInt8.ofNat (0xC0 + code / 2 ^ 6), tail 0]
  else if code < 0x10000 then [UInt8.ofNat (0xE0 + code / 2 ^ 12), tail 6, tail 0]
  else [UInt8.ofNat (0xF0 + code / 2 ^ 18), tail 12, tail 6, tail 0]

/-- The other half of a pair whose first half was `unit`. -/
def lowHalf (unit : ℕ) : Reader ℕ
  | c :: d :: s =>
      if 0xD800 ≤ unit ∧ unit < 0xDC00 ∧ c = backslash ∧ d = 117 then
        match codeUnit s with
        | none => none
        | some (low, s) =>
            if 0xDC00 ≤ low ∧ low < 0xE000 then
              some (0x10000 + (unit - 0xD800) * 0x400 + (low - 0xDC00), s)
            else none
      else none
  | _ => none

/-- What is behind `\u`. -/
def escapedCode (s : Bytes) : Option (Bytes × Bytes) :=
  match codeUnit s with
  | none => none
  | some (unit, s) =>
      match lowHalf unit s with
      | none => some (utf8 unit, s)
      | some (code, s) => some (utf8 code, s)

/-- What a backslash and this letter stand for. -/
def escapedLetter (c : UInt8) : Option UInt8 :=
  if c = quote ∨ c = backslash ∨ c = 47 then some c
  else if c = 98 then some 8
  else if c = 102 then some 12
  else if c = 110 then some 10
  else if c = 114 then some 13
  else if c = 116 then some 9
  else none

/-- One character of a string. -/
def character : Reader Bytes
  | [] => none
  | c :: s =>
      if c < 0x20 then none
      else if c ≠ backslash then some ([c], s)
      else
        match s with
        | [] => none
        | d :: s =>
            if d = 117 then escapedCode s
            else (escapedLetter d).map fun c => ([c], s)

/-- The inside of a string, up to its closing quote. -/
def body : ℕ → Reader Bytes
  | 0, _ => none
  | _ + 1, [] => none
  | fuel + 1, c :: s =>
      if c = quote then some ([], s)
      else
        match character (c :: s) with
        | none => none
        | some (bytes, s) => (body fuel s).map fun (text, s) => (bytes ++ text, s)

def literal : Reader Bytes
  | [] => none
  | c :: s => if c = quote then body (s.length + 1) s else none

/-! ## Numbers -/

/-- The text behind one digit or more, the first of several being no zero if `plain`. -/
def digits (plain : Bool) (s : Bytes) : Option Bytes :=
  let run := s.takeWhile isDigit
  if run = [] ∨ plain = true ∧ run.head? = some 48 ∧ 1 < run.length then none
  else some (s.dropWhile isDigit)

def skipMinus : Bytes → Bytes
  | [] => []
  | c :: s => if c = 45 then s else c :: s

def fraction : Bytes → Option Bytes
  | [] => some []
  | c :: s => if c = 46 then digits false s else some (c :: s)

def exponent : Bytes → Option Bytes
  | [] => some []
  | c :: s =>
      if c = 69 ∨ c = 101 then
        match s with
        | [] => none
        | d :: t => digits false (if d = 43 ∨ d = 45 then t else d :: t)
      else some (c :: s)

def numeral (s : Bytes) : Option (Bytes × Bytes) :=
  (((digits true (skipMinus s)).bind fraction).bind exponent).map fun rest =>
    (s.take (s.length - rest.length), rest)

/-! ## Values -/

/-- One item or more with commas between them, up to `close`. -/
def items {α : Type} (item : Reader α) (close : UInt8) : ℕ → Reader (List α)
  | 0, _ => none
  | fuel + 1, s =>
      match item s with
      | none => none
      | some (x, s) =>
          match skipWhite s with
          | [] => none
          | c :: s =>
              if c = close then some ([x], s)
              else if c = comma then (items item close fuel s).map fun (xs, s) => (x :: xs, s)
              else none

def enclosed {α : Type} (item : Reader α) (close : UInt8) (s : Bytes) :
    Option (List α × Bytes) :=
  match skipWhite s with
  | [] => none
  | c :: t => if c = close then some ([], t) else items item close (s.length + 1) s

def member (value : Reader Value) (s : Bytes) : Option ((Bytes × Value) × Bytes) :=
  match literal (skipWhite s) with
  | none => none
  | some (name, s) =>
      match skipWhite s with
      | [] => none
      | c :: s =>
          if c = colon then (value s).map fun (value, s) => ((name, value), s) else none

def word (text : Bytes) (value : Value) (s : Bytes) : Option (Value × Bytes) :=
  (text.isPrefixOf? s).map fun s => (value, s)

def value : ℕ → Reader Value
  | 0, _ => none
  | fuel + 1, s =>
      match skipWhite s with
      | [] => none
      | c :: s =>
          if c = quote then (literal (c :: s)).map fun (text, s) => (.string text, s)
          else if c = 123 then
            (enclosed (member (value fuel)) 125 s).map fun (members, s) => (.object members, s)
          else if c = 91 then
            (enclosed (value fuel) 93 s).map fun (items, s) => (.array items, s)
          else
            (word (ofString "null") .null (c :: s)).or
              ((word (ofString "true") (.boolean true) (c :: s)).or
                ((word (ofString "false") (.boolean false) (c :: s)).or
                  ((numeral (c :: s)).map fun (numeral, s) => (.number numeral, s))))

def parse (s : Bytes) : Option Value :=
  match value (s.length + 1) s with
  | none => none
  | some (value, rest) => if skipWhite rest = [] then some value else none

/-- The member of this name. -/
def Value.get (name : Bytes) : Value → Option Value
  | .object members => (members.reverse.find? fun m => m.1 = name).map Prod.snd
  | _ => none

/-! ## Reading what is written -/

/-- The inside of a string that stands for a text. -/
inductive Spells : Bytes → Bytes → Prop
  | nil : Spells [] []
  | plain {c : UInt8} {text s : Bytes} (hprintable : ¬ c < 0x20) (hquote : c ≠ quote)
      (hbackslash : c ≠ backslash) (h : Spells text s) : Spells (c :: text) (c :: s)
  | letter {c d : UInt8} {text s : Bytes} (hd : d ≠ 117) (hletter : escapedLetter d = some c)
      (h : Spells text s) : Spells (c :: text) (backslash :: d :: s)
  | code {c d₀ d₁ d₂ d₃ : UInt8} {text s : Bytes} (hascii : c.toNat < 0x80)
      (hcode : ∀ rest, codeUnit (d₀ :: d₁ :: d₂ :: d₃ :: rest) = some (c.toNat, rest))
      (h : Spells text s) :
      Spells (c :: text) (backslash :: 117 :: d₀ :: d₁ :: d₂ :: d₃ :: s)

theorem lowHalf_ascii {unit : ℕ} (h : unit < 0x80) (s : Bytes) : lowHalf unit s = none := by
  have hno : ¬ 0xD800 ≤ unit := by omega
  unfold lowHalf
  split
  · rw [if_neg fun hpair => hno hpair.1]
  · rfl

theorem utf8_ascii {c : UInt8} (h : c.toNat < 0x80) : utf8 c.toNat = [c] := by
  rw [utf8, if_pos h, UInt8.ofNat_toNat]

theorem body_cons {fuel : ℕ} {bytes s rest : Bytes} {c : UInt8} (hquote : c ≠ quote)
    (hcharacter : character (c :: s) = some (bytes, rest)) :
    body (fuel + 1) (c :: s) = (body fuel rest).map fun (text, s) => (bytes ++ text, s) := by
  rw [body, if_neg hquote, hcharacter]

/-- The reader of a string finds what its inside spells. -/
theorem Spells.body {text s : Bytes} (h : Spells text s) {fuel : ℕ} (hfuel : s.length < fuel)
    (rest : Bytes) : body fuel (s ++ quote :: rest) = some (text, rest) := by
  induction h generalizing fuel with
  | nil =>
      obtain ⟨fuel, rfl⟩ := Nat.exists_eq_succ_of_ne_zero (Nat.ne_of_gt hfuel)
      rw [List.nil_append, Nat.succ_eq_add_one, JsonText.body, if_pos rfl]
  | @plain c text s hprintable hquote hbackslash h ih =>
      obtain ⟨fuel, rfl⟩ := Nat.exists_eq_succ_of_ne_zero (Nat.ne_zero_of_lt hfuel)
      have hcharacter : character (c :: (s ++ quote :: rest)) = some ([c], s ++ quote :: rest) := by
        unfold character
        dsimp only
        rw [if_neg hprintable, if_pos hbackslash]
      rw [List.cons_append, Nat.succ_eq_add_one, body_cons hquote hcharacter,
        ih (Nat.lt_of_succ_lt_succ hfuel)]
      rfl
  | @letter c d text s hd hletter h ih =>
      obtain ⟨fuel, rfl⟩ := Nat.exists_eq_succ_of_ne_zero (Nat.ne_zero_of_lt hfuel)
      have hcharacter : character (backslash :: d :: (s ++ quote :: rest)) =
          some ([c], s ++ quote :: rest) := by
        unfold character
        dsimp only
        rw [if_neg (by decide), if_neg (by decide)]
        rw [if_neg hd, hletter]
        rfl
      rw [List.cons_append, List.cons_append, Nat.succ_eq_add_one,
        body_cons (by decide) hcharacter, ih (by simp only [List.length_cons] at hfuel; omega)]
      rfl
  | @code c d₀ d₁ d₂ d₃ text s hascii hcode h ih =>
      obtain ⟨fuel, rfl⟩ := Nat.exists_eq_succ_of_ne_zero (Nat.ne_zero_of_lt hfuel)
      have hcharacter : character
          (backslash :: 117 :: d₀ :: d₁ :: d₂ :: d₃ :: (s ++ quote :: rest)) =
          some ([c], s ++ quote :: rest) := by
        unfold character
        dsimp only
        rw [if_neg (by decide), if_neg (by decide)]
        rw [if_pos rfl, escapedCode, hcode]
        dsimp only
        rw [lowHalf_ascii hascii, utf8_ascii hascii]
      simp only [List.cons_append]
      rw [Nat.succ_eq_add_one, body_cons (by decide) hcharacter,
        ih (by simp only [List.length_cons] at hfuel; omega)]
      rfl

theorem Spells.literal {text s : Bytes} (h : Spells text s) (rest : Bytes) :
    literal (quote :: (s ++ quote :: rest)) = some (text, rest) := by
  rw [JsonText.literal, if_pos rfl]
  exact h.body (by rw [List.length_append]; omega) rest

/-- A text that does not go on with a number. -/
def Delimited (rest : Bytes) : Prop :=
  ∀ c ∈ rest.head?, isDigit c = false ∧ c ≠ 46 ∧ c ≠ 69 ∧ c ≠ 101

theorem numeral_digits {run rest : Bytes} (hdigits : ∀ c ∈ run, isDigit c = true)
    (hne : run ≠ []) (hplain : run.head? = some 48 → run.length = 1) (hrest : Delimited rest) :
    numeral (run ++ rest) = some (run, rest) := by
  obtain ⟨c, cs, rfl⟩ := List.exists_cons_of_ne_nil hne
  have hminus : c ≠ 45 := by
    rintro rfl
    exact absurd (hdigits 45 (by simp)) (by decide)
  have htake : (c :: cs ++ rest).takeWhile isDigit = c :: cs := by
    rw [List.takeWhile_append_of_pos hdigits]
    cases rest with
    | nil => rw [List.takeWhile_nil, List.append_nil]
    | cons d rest =>
        rw [List.takeWhile_cons_of_neg (by simp [(hrest d (by simp)).1]), List.append_nil]
  have hdrop : (c :: cs ++ rest).dropWhile isDigit = rest := by
    rw [List.dropWhile_append_of_pos hdigits]
    cases rest with
    | nil => rfl
    | cons d rest => rw [List.dropWhile_cons_of_neg (by simp [(hrest d (by simp)).1])]
  have hrun : digits true (skipMinus (c :: cs ++ rest)) = some rest := by
    rw [List.cons_append, skipMinus, if_neg hminus, ← List.cons_append, digits, htake, hdrop,
      if_neg]
    rintro (hnil | ⟨-, hzero, hlong⟩)
    · exact hne hnil
    · rw [hplain hzero] at hlong
      exact absurd hlong (by decide)
  have hbehind : (fraction rest).bind exponent = some rest := by
    cases rest with
    | nil => rfl
    | cons d rest =>
        obtain ⟨-, hdot, hupper, hlower⟩ := hrest d (by simp)
        have hexponent : exponent (d :: rest) = some (d :: rest) := by
          unfold exponent
          exact if_neg (by simp [hupper, hlower])
        rw [fraction, if_neg hdot, Option.bind_some, hexponent]
  rw [numeral, hrun, Option.bind_some, hbehind, Option.map_some, List.length_append,
    Nat.add_sub_cancel_right, List.take_left]

theorem skipWhite_of_not {c : UInt8} (h : isWhite c = false) (s : Bytes) :
    skipWhite (c :: s) = c :: s := by
  rw [skipWhite, List.dropWhile_cons_of_neg (by simp [h])]

theorem value_string {text s : Bytes} (h : Spells text s) (fuel : ℕ) (rest : Bytes) :
    value (fuel + 1) (quote :: (s ++ quote :: rest)) = some (.string text, rest) := by
  rw [value, skipWhite_of_not rfl]
  dsimp only
  rw [if_pos rfl, h.literal]
  rfl

theorem value_numeral {run rest : Bytes} (hdigits : ∀ c ∈ run, isDigit c = true)
    (hne : run ≠ []) (hplain : run.head? = some 48 → run.length = 1) (hrest : Delimited rest)
    (fuel : ℕ) : value (fuel + 1) (run ++ rest) = some (.number run, rest) := by
  have hnumeral := numeral_digits hdigits hne hplain hrest
  obtain ⟨c, cs, rfl⟩ := List.exists_cons_of_ne_nil hne
  have hdigit := hdigits c (by simp)
  have hcode : 48 ≤ c ∧ c ≤ 57 := by simpa [isDigit] using hdigit
  have hnot (d : UInt8) (hd : isDigit d = false) : c ≠ d := by
    rintro rfl
    rw [hdigit] at hd
    cases hd
  have hwhite : isWhite c = false := by
    simp [isWhite, hnot 32 rfl, hnot 9 rfl, hnot 10 rfl, hnot 13 rfl]
  have hword (d : UInt8) (text : Bytes) (v : Value) (hd : isDigit d = false) :
      word (d :: text) v (c :: (cs ++ rest)) = none := by
    have hcons : (d :: text).isPrefixOf? (c :: (cs ++ rest)) = none := by
      simp [List.isPrefixOf?, (hnot d hd).symm]
    rw [word, hcons]
    rfl
  rw [List.cons_append] at hnumeral ⊢
  rw [value, skipWhite_of_not hwhite]
  dsimp only
  rw [if_neg (hnot _ rfl), if_neg (hnot _ rfl), if_neg (hnot _ rfl), hnumeral]
  exact congrArg₂ Option.or (hword 110 _ _ rfl)
    (congrArg₂ Option.or (hword 116 _ _ rfl) (congrArg₂ Option.or (hword 102 _ _ rfl) rfl))

theorem member_cons {reader : Reader Value} {name s rest tail : Bytes} {v : Value}
    (hname : Spells name s) (hvalue : reader rest = some (v, tail)) :
    member reader (quote :: (s ++ quote :: colon :: rest)) = some ((name, v), tail) := by
  rw [member, skipWhite_of_not rfl, hname.literal]
  dsimp only
  rw [skipWhite_of_not rfl]
  dsimp only
  rw [if_pos rfl, hvalue]
  rfl

section

variable {α : Type} {item : Reader α} {close : UInt8} {fuel : ℕ} {s rest : Bytes} {x : α}

theorem items_last (h : item s = some (x, close :: rest)) (hclose : isWhite close = false) :
    items item close (fuel + 1) s = some ([x], rest) := by
  rw [items, h]
  dsimp only
  rw [skipWhite_of_not hclose]
  dsimp only
  rw [if_pos rfl]

theorem items_cons (h : item s = some (x, comma :: rest)) (hclose : comma ≠ close) :
    items item close (fuel + 1) s =
      (items item close fuel rest).map fun (xs, s) => (x :: xs, s) := by
  rw [items, h]
  dsimp only
  rw [skipWhite_of_not rfl]
  dsimp only
  rw [if_neg hclose, if_pos rfl]

end

end JsonText
