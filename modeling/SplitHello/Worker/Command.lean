import SplitHello.Json.Written
import SplitHello.Library.JsonText
import SplitHello.Worker.Tunnel
import Mathlib.Data.Nat.Digits.Lemmas

/-!
# The command of a tunnel

The relay writes it with its own helpers, the Worker reads it with `JSON.parse` and `Number`.
-/

namespace SplitHello

namespace Worker

open ByteString JsonText

/-- The command as the relay writes it. -/
def connectText (host : Bytes) (port : ℕ) : Bytes :=
  ofString "\x7b\"cmd\":\"connect\",\"host\":\"" ++ Json.escape host ++
    ofString "\",\"port\":" ++ Json.decimal port ++ ofString "\x7d"

/-- A value that is a text. -/
def asText : Value → Option Bytes
  | .string text => some text
  | _ => none

/-- What the Worker reads in a value: the members of `null` cannot be read, and those of what is
no object are missing. `number` is `Number`, where that makes a natural number of a value. -/
def Command.ofValue (number : Value → Option ℕ) : Value → Option Command
  | .null => none
  | value =>
      some
        { cmd := (value.get (ofString "cmd")).bind asText
          host := (value.get (ofString "host")).bind asText
          port := (value.get (ofString "port")).bind number }

/-- A message that is sent as a text. One that is sent as bytes is no JSON. -/
def Message.text (number : Value → Option ℕ) (data : Bytes) : Message :=
  { data, command := (parse data).bind (Command.ofValue number) }

/-- `Number` reads the numerals of natural numbers, up to where they have neighbours. -/
def ReadsNumerals (number : Value → Option ℕ) : Prop :=
  ∀ n < 2 ^ 53, number (.number (Json.decimal n)) = some n

def connectMessage (number : Value → Option ℕ) (host : Bytes) (port : ℕ) : Message :=
  Message.text number (connectText host port)

/-- What the relay asks for. -/
def connectCommand (host : Bytes) (port : ℕ) : Command where
  cmd := some (ofString "connect")
  host := some host
  port := some port

/-! ## The writer's side -/

theorem codeUnit_control : ∀ c : UInt8, c.toNat < 32 → ∀ rest,
    codeUnit (48 :: 48 :: Json.hexDigit (c.toNat / 16) :: Json.hexDigit (c.toNat % 16) :: rest) =
      some (c.toNat, rest) := by
  intro c hc rest
  have hdigit : ∀ n < 16, hexValue (Json.hexDigit n) = some n := by decide
  have hzero : hexValue 48 = some 0 := by decide
  rw [codeUnit, hzero, hdigit _ (by omega), hdigit _ (by omega)]
  dsimp only
  rw [Option.some.injEq, Prod.mk.injEq]
  exact ⟨by omega, rfl⟩

/-- The escaped byte spells the byte, in front of whatever the rest spells. -/
theorem spells_escapeByte (c : UInt8) {text s : Bytes} (h : Spells text s) :
    Spells (c :: text) (Json.escapeByte c ++ s) := by
  unfold Json.escapeByte
  split
  · subst c
    exact .letter (by decide) (by decide) h
  split
  · subst c
    exact .letter (by decide) (by decide) h
  split
  · subst c
    exact .letter (by decide) (by decide) h
  split
  · subst c
    exact .letter (by decide) (by decide) h
  split
  · subst c
    exact .letter (by decide) (by decide) h
  split
  · rename_i hcontrol
    have hlt : c.toNat < 32 := by simpa [UInt8.lt_iff_toNat_lt] using hcontrol
    exact .code (by omega) (codeUnit_control c hlt) h
  · rename_i hquote hbackslash _ _ _ hcontrol
    exact .plain hcontrol hquote hbackslash h

theorem spells_escape (v : Bytes) : Spells v (Json.escape v) := by
  induction v with
  | nil => exact .nil
  | cons c v ih => exact spells_escapeByte c ih

theorem decimal_plain (n : ℕ) : (Json.decimal n).head? = some 48 → (Json.decimal n).length = 1 := by
  unfold Json.decimal
  split
  · exact fun _ => rfl
  · rename_i hn
    intro hhead
    have hne : Nat.digits 10 n ≠ [] := Nat.digits_ne_nil_iff_ne_zero.2 hn
    have hlast := Nat.getLast_digit_ne_zero 10 hn
    rw [List.head?_map, List.head?_reverse, List.getLast?_eq_getLast_of_ne_nil hne,
      Option.map_some, Option.some.injEq] at hhead
    have hsmall : (Nat.digits 10 n).getLast hne < 10 :=
      Nat.digits_lt_base (by decide) (List.getLast_mem hne)
    have hdigit : ∀ d < 10, UInt8.ofNat (48 + d) = 48 → d = 0 := by decide
    exact absurd (hdigit _ hsmall hhead) hlast

/-- The Worker reads the command that the relay has written. -/
theorem parse_connectText (host : Bytes) (port : ℕ) :
    parse (connectText host port) =
      some (.object
        [(ofString "cmd", .string (ofString "connect")), (ofString "host", .string host),
          (ofString "port", .number (Json.decimal port))]) := by
  have hplain (text : Bytes) (h : Json.escape text = text) : Spells text text := by
    have hspells := spells_escape text
    rwa [h] at hspells
  have htext : connectText host port =
      123 :: quote :: (ofString "cmd" ++ quote :: colon ::
        quote :: (ofString "connect" ++ quote :: comma ::
          quote :: (ofString "host" ++ quote :: colon ::
            quote :: (Json.escape host ++ quote :: comma ::
              quote :: (ofString "port" ++ quote :: colon :: (Json.decimal port ++ [125])))))) := by
    have hopening : ofString "\x7b\"cmd\":\"connect\",\"host\":\"" =
        123 :: quote :: (ofString "cmd" ++ quote :: colon ::
          quote :: (ofString "connect" ++ quote :: comma ::
            quote :: (ofString "host" ++ quote :: colon :: [quote]))) := by decide
    have hmiddle : ofString "\",\"port\":" =
        quote :: comma :: quote :: (ofString "port" ++ quote :: [colon]) := by decide
    have hclosing : ofString "\x7d" = [125] := by decide
    rw [connectText, hopening, hmiddle, hclosing]
    simp only [List.append_assoc, List.cons_append, List.nil_append]
  have hport (fuel : ℕ) : value (fuel + 1) (Json.decimal port ++ [125]) =
      some (.number (Json.decimal port), [125]) := by
    refine value_numeral (Json.decimal_isDigit port) (Json.decimal_ne_nil port)
      (decimal_plain port) ?_ fuel
    intro c hc
    cases hc
    decide
  have hmembers (fuel n : ℕ) :
      items (member (value (fuel + 1))) 125 (n + 3)
          (quote :: (ofString "cmd" ++ quote :: colon ::
            quote :: (ofString "connect" ++ quote :: comma ::
              quote :: (ofString "host" ++ quote :: colon ::
                quote :: (Json.escape host ++ quote :: comma ::
                  quote :: (ofString "port" ++ quote :: colon ::
                    (Json.decimal port ++ [125]))))))) =
        some ([(ofString "cmd", .string (ofString "connect")), (ofString "host", .string host),
          (ofString "port", .number (Json.decimal port))], []) := by
    rw [items_cons (member_cons (hplain _ (by decide)) (value_string (hplain _ (by decide)) fuel _))
        (by decide),
      items_cons (member_cons (hplain _ (by decide)) (value_string (spells_escape host) fuel _))
        (by decide),
      items_last (member_cons (hplain _ (by decide)) (hport fuel)) rfl]
    rfl
  rw [parse, htext]
  generalize hs : ofString "cmd" ++ _ = s at hmembers
  have hlong : 1 ≤ s.length := by
    rw [← hs, List.length_append]
    exact Nat.le_add_right_of_le (by decide)
  have hcount : (quote :: s).length + 1 = s.length - 1 + 3 := by
    rw [List.length_cons]
    omega
  rw [value, skipWhite_of_not rfl]
  dsimp only
  rw [if_neg (by decide), if_pos rfl, enclosed, skipWhite_of_not rfl]
  dsimp only
  rw [if_neg (by decide), hcount, List.length_cons, hmembers]
  rfl

theorem command_connectMessage {number : Value → Option ℕ} (hnumber : ReadsNumerals number)
    {port : ℕ} (hport : port < 65536) (host : Bytes) :
    (connectMessage number host port).command = some (connectCommand host port) := by
  have hport' := hnumber port (Nat.lt_trans hport (by decide))
  rw [connectMessage, Message.text, parse_connectText]
  dsimp only
  rw [Option.bind_some, connectCommand]
  unfold Command.ofValue
  exact congrArg some ((Command.mk.injEq ..).mpr ⟨rfl, rfl, hport'⟩)

end Worker

end SplitHello
