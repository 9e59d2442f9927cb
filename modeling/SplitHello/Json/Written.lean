import SplitHello.Json.Helpers
import Mathlib.Data.List.Chain

/-!
# Reading back what was written

How the helpers behave on text made of string literals and numbers: the string
reader inverts `escape`, the number reader inverts `decimal`, a key lookup passes
over a string literal whatever its content, and the bracket matcher passes over
it as one unit.
-/

namespace SplitHello

namespace Json

open ByteString

theorem isHexDigit_hexDigit : ∀ n < 16, isHexDigit (hexDigit n) = true := by decide

theorem hexValue_hexDigit : ∀ n < 16, hexValue (hexDigit n) = n := by decide

theorem readHex_control {n : ℕ} (h : n < 32) (s : Bytes) :
    readHex 4 0 0 (48 :: 48 :: hexDigit (n / 16) :: hexDigit (n % 16) :: s) = (n, 4, s) := by
  have hhi : n / 16 < 16 := by omega
  have hlo : n % 16 < 16 := by omega
  have hzero : isHexDigit 48 = true ∧ hexValue 48 = 0 := by decide
  simp [readHex, hzero, isHexDigit_hexDigit _ hhi, isHexDigit_hexDigit _ hlo,
    hexValue_hexDigit _ hhi, hexValue_hexDigit _ hlo]
  omega

/-- One escaped byte is one round of the string reader. -/
theorem parseBody_escapeByte (fuel : ℕ) (c : UInt8) (s : Bytes) :
    parseBody (fuel + 1) (escapeByte c ++ s) =
      (c :: (parseBody fuel s).1, (parseBody fuel s).2) := by
  unfold escapeByte
  split
  · subst c
    simp [parseBody, quote, backslash, unescape]
  split
  · subst c
    simp [parseBody, quote, backslash, unescape]
  split
  · subst c
    simp [parseBody, quote, backslash, unescape]
  split
  · subst c
    simp [parseBody, quote, backslash, unescape]
  split
  · subst c
    simp [parseBody, quote, backslash, unescape]
  split
  · rename_i hctrl
    have hlt : c.toNat < 32 := by simpa [UInt8.lt_iff_toNat_lt] using hctrl
    have hcode : c.toNat < 0x80 := by omega
    simp [parseBody, quote, backslash, readHex_control hlt, hcode]
  · rename_i hquote hback _ _ _ _
    simp [parseBody, hquote, hback]

theorem parseBody_escape (v rest : Bytes) (fuel : ℕ) (h : v.length < fuel) :
    parseBody fuel (escape v ++ quote :: rest) = (v, rest) := by
  induction v generalizing fuel with
  | nil =>
      obtain ⟨fuel, rfl⟩ := Nat.exists_eq_succ_of_ne_zero (Nat.ne_of_gt h)
      simp [escape, parseBody]
  | cons c v ih =>
      obtain ⟨fuel, rfl⟩ := Nat.exists_eq_succ_of_ne_zero (by omega : fuel ≠ 0)
      have hfuel : v.length < fuel := by simpa using h
      have hsplit : escape (c :: v) ++ quote :: rest =
          escapeByte c ++ (escape v ++ quote :: rest) := by
        simp [escape]
      rw [hsplit, Nat.succ_eq_add_one, parseBody_escapeByte, ih fuel hfuel]

theorem length_escapeByte_pos (c : UInt8) : 1 ≤ (escapeByte c).length := by
  unfold escapeByte
  repeat' split
  all_goals simp

theorem length_le_length_escape (v : Bytes) : v.length ≤ (escape v).length := by
  induction v with
  | nil => simp
  | cons c v ih =>
      have := length_escapeByte_pos c
      simp only [escape, List.flatMap_cons, List.length_append, List.length_cons] at ih ⊢
      omega

/-- The string reader inverts the writer, whatever follows the literal. -/
theorem parseString_quoted (v rest : Bytes) : parseString (quoted v ++ rest) = (v, rest) := by
  have hlen := length_le_length_escape v
  have htext : quoted v ++ rest = quote :: (escape v ++ quote :: rest) := by simp [quoted]
  rw [htext, parseString, if_pos rfl]
  apply parseBody_escape
  simp
  omega

/-! Key lookups. Between the quotes of a literal every quote follows a backslash,
so a quoted key can only match there as the whole literal or its last part, and
then no colon follows. -/

/-- A key without anything that would be escaped. -/
structure PlainKey (key : Bytes) : Prop where
  ne_nil : key ≠ []
  quote_notMem : quote ∉ key
  backslash_notMem : backslash ∉ key

/-- Text that can follow a value: it does not continue a key, and no colon comes
next. -/
structure Behind (key rest : Bytes) : Prop where
  head : ∀ c, rest.head? = some c → c ∉ key
  noColon : (skipWs rest).head? ≠ some colon

/-- A quote follows a backslash. -/
def GuardedQuote (a b : UInt8) : Prop := b = quote → a = backslash

theorem escapeByte_guarded (c : UInt8) :
    (escapeByte c).IsChain GuardedQuote ∧ (escapeByte c).head? ≠ some quote := by
  unfold escapeByte
  split
  · simp [GuardedQuote, backslash, quote]
  split
  · simp [GuardedQuote, backslash, quote]
  split
  · simp [GuardedQuote, backslash, quote]
  split
  · simp [GuardedQuote, backslash, quote]
  split
  · simp [GuardedQuote, backslash, quote]
  split
  · have hdigit : ∀ n < 16, hexDigit n ≠ quote := by decide
    have hhi : c.toNat / 16 < 16 := by
      have := c.toNat_lt
      omega
    have hlo : c.toNat % 16 < 16 := by omega
    have h₁ := hdigit _ hhi
    have h₂ := hdigit _ hlo
    simp [GuardedQuote, h₁, h₂]
    decide
  · rename_i hquote _ _ _ _ _
    simpa using hquote

theorem escape_guarded (v : Bytes) :
    (escape v).IsChain GuardedQuote ∧ (escape v).head? ≠ some quote := by
  induction v with
  | nil => simp [escape]
  | cons c v ih =>
      obtain ⟨hchain, hhead⟩ := escapeByte_guarded c
      have hpos := length_escapeByte_pos c
      have hcons : escape (c :: v) = escapeByte c ++ escape v := by simp [escape]
      rw [hcons]
      refine ⟨List.isChain_append.2 ⟨hchain, ih.1, ?_⟩, ?_⟩
      · intro x _ y hy hquote
        exact absurd (hquote ▸ hy) ih.2
      · cases hbyte : escapeByte c with
        | nil => simp [hbyte] at hpos
        | cons d ds => simpa [hbyte] using hhead

/-- A literal up to its closing quote. -/
theorem quote_escape_guarded (v : Bytes) : (quote :: escape v).IsChain GuardedQuote := by
  obtain ⟨hchain, hhead⟩ := escape_guarded v
  refine List.isChain_cons.2 ⟨?_, hchain⟩
  intro y hy hquote
  exact absurd (hquote ▸ hy) hhead

theorem quoted_append (v rest : Bytes) :
    quoted v ++ rest = (quote :: escape v) ++ quote :: rest := by simp [quoted]

theorem findValue_cons_of_ne {key : Bytes} {c : UInt8} (h : c ≠ quote) (s : Bytes) :
    findValue key (c :: s) = findValue key s := by
  have hne : (quote == c) = false := by simpa using h.symm
  simp [findValue, List.isPrefixOf?, hne]

theorem findValue_append_of_notMem (key : Bytes) {b : Bytes} (h : quote ∉ b) (s : Bytes) :
    findValue key (b ++ s) = findValue key s := by
  induction b with
  | nil => rfl
  | cons c b ih =>
      rw [List.mem_cons, not_or] at h
      rw [List.cons_append, findValue_cons_of_ne (Ne.symm h.1), ih h.2]

theorem findValue_here (key s : Bytes) :
    findValue key (quote :: key ++ quote :: colon :: s) = some (skipWs s) := by
  have hprefix : (quote :: (key ++ [quote])).isPrefixOf? (quote :: (key ++ quote :: colon :: s)) =
      some (colon :: s) := by
    simp
  have hskip : skipWs (colon :: s) = colon :: s := by
    simp [skipWs, isWs, colon]
  rw [List.cons_append, findValue, List.cons_append, hprefix]
  simp [hskip]

/-- Inside a literal the only matches end at its closing quote. -/
theorem eq_of_match_inside {key b rest behind : Bytes} (hkey : PlainKey key)
    (hb : b.IsChain GuardedQuote) (h : key ++ quote :: behind = b ++ quote :: rest) :
    behind = rest := by
  rcases List.append_eq_append_iff.1 h with ⟨a, hba, hrest⟩ | ⟨a, hka, hrest⟩
  · cases a with
    | nil => simpa using hrest
    | cons x a =>
        obtain ⟨rfl, -⟩ := List.cons.inj hrest
        rw [hba] at hb
        obtain ⟨-, -, hlast⟩ := List.isChain_append.1 hb
        have hmem := List.getLast?_eq_some_getLast hkey.ne_nil
        have hguard := hlast _ hmem quote rfl rfl
        exact absurd (hguard ▸ List.getLast_mem hkey.ne_nil) hkey.backslash_notMem
  · cases a with
    | nil => simpa using hrest.symm
    | cons x a =>
        obtain ⟨rfl, -⟩ := List.cons.inj hrest
        exact absurd (by simp [hka]) hkey.quote_notMem

theorem findValue_guarded {key b rest : Bytes} (hkey : PlainKey key) (hrest : Behind key rest)
    (hb : b.IsChain GuardedQuote) :
    findValue key (b ++ quote :: rest) = findValue key rest := by
  induction b with
  | nil =>
      have hnone : (quote :: (key ++ [quote])).isPrefixOf? (quote :: rest) = none := by
        rw [Option.eq_none_iff_forall_not_mem]
        intro behind hmem
        have happ : key ++ quote :: behind = rest := by
          simpa using List.isPrefixOf?_eq_some_iff_append_eq.1 hmem
        cases hk : key with
        | nil => exact hkey.ne_nil hk
        | cons k ks =>
            refine hrest.head k ?_ (by simp [hk])
            rw [← happ, hk]
            rfl
      rw [List.nil_append, findValue, List.cons_append, hnone]
  | cons c b ih =>
      have ih := ih hb.tail
      rw [List.cons_append, findValue]
      split
      · exact ih
      · rename_i behind hmatch
        have happ := List.isPrefixOf?_eq_some_iff_append_eq.1 hmatch
        simp only [List.cons_append, List.cons.injEq, List.append_assoc] at happ
        have hbehind : behind = rest := eq_of_match_inside hkey hb.tail (by simpa using happ.2)
        rw [hbehind]
        split
        · exact ih
        · rename_i d value hskip
          have hcolon : d ≠ colon := by
            intro hd
            exact hrest.noColon (by rw [hskip, hd]; rfl)
          rw [if_neg hcolon, ih]

/-- A key lookup passes over a string literal, whatever its content. -/
theorem findValue_quoted {key rest : Bytes} (hkey : PlainKey key) (hrest : Behind key rest)
    (v : Bytes) : findValue key (quoted v ++ rest) = findValue key rest := by
  rw [quoted_append]
  exact findValue_guarded hkey hrest (quote_escape_guarded v)

/-! White space. -/

theorem skipWs_append {ws : Bytes} (hws : ∀ c ∈ ws, isWs c) (s : Bytes) :
    skipWs (ws ++ s) = skipWs s := by
  rw [skipWs, skipWs, List.dropWhile_append_of_pos hws]

theorem skipWs_quoted (v rest : Bytes) : skipWs (quoted v ++ rest) = quoted v ++ rest := by
  simp [skipWs, quoted, isWs, quote]

/-! The bracket matcher. -/

theorem rawLoop_inside (o c : UInt8) (depth : ℕ) {x : UInt8} (h : x ≠ backslash) (s : Bytes) :
    rawLoop o c depth true (x :: s) = x :: rawLoop o c depth (x ≠ quote) s := by
  cases s <;> simp [rawLoop, h]

theorem rawLoop_escapeByte (o c : UInt8) (depth : ℕ) (x : UInt8) (s : Bytes) :
    rawLoop o c depth true (escapeByte x ++ s) = escapeByte x ++ rawLoop o c depth true s := by
  unfold escapeByte
  split
  · simp [rawLoop]
  split
  · simp [rawLoop]
  split
  · simp [rawLoop]
  split
  · simp [rawLoop]
  split
  · simp [rawLoop]
  split
  · have hdigit : ∀ n < 16, hexDigit n ≠ quote ∧ hexDigit n ≠ backslash := by decide
    have hhi : x.toNat / 16 < 16 := by
      have := x.toNat_lt
      omega
    have hlo : x.toNat % 16 < 16 := by omega
    have h₁ := hdigit _ hhi
    have h₂ := hdigit _ hlo
    have h₃ : (48 : UInt8) ≠ backslash ∧ (48 : UInt8) ≠ quote := by decide
    simp [rawLoop, rawLoop_inside, h₁, h₂, h₃]
  · rename_i hquote hback _ _ _ _
    simp [rawLoop_inside, hquote, hback]

theorem rawLoop_escape (o c : UInt8) (depth : ℕ) (v s : Bytes) :
    rawLoop o c depth true (escape v ++ s) = escape v ++ rawLoop o c depth true s := by
  induction v with
  | nil => rfl
  | cons x v ih =>
      have hcons : escape (x :: v) = escapeByte x ++ escape v := by simp [escape]
      rw [hcons, List.append_assoc, rawLoop_escapeByte, ih, List.append_assoc]

/-- The bracket matcher passes over a string literal, whatever its content. -/
theorem rawLoop_quoted (o c : UInt8) (depth : ℕ) (v s : Bytes) :
    rawLoop o c depth false (quoted v ++ s) = quoted v ++ rawLoop o c depth false s := by
  have htext : quoted v ++ s = quote :: (escape v ++ quote :: s) := by simp [quoted]
  have hclose : rawLoop o c depth true (quote :: s) = quote :: rawLoop o c depth false s := by
    simp [rawLoop_inside, show quote ≠ backslash by decide]
  rw [htext, rawLoop, if_pos rfl, rawLoop_escape, hclose]
  simp [quoted]

/-- The bracket matcher passes over bytes that are neither quotes nor brackets. -/
theorem rawLoop_plain {o c : UInt8} (depth : ℕ) {b : Bytes}
    (hb : quote ∉ b ∧ o ∉ b ∧ c ∉ b) (s : Bytes) :
    rawLoop o c depth false (b ++ s) = b ++ rawLoop o c depth false s := by
  induction b with
  | nil => rfl
  | cons x b ih =>
      simp only [List.mem_cons, not_or] at hb
      obtain ⟨⟨hq, hqs⟩, ⟨ho, hos⟩, hc, hcs⟩ := hb
      rw [List.cons_append, rawLoop, if_neg (Ne.symm hq), if_neg (Ne.symm ho),
        if_neg (Ne.symm hc), ih ⟨hqs, hos, hcs⟩, List.cons_append]

/-! Numbers. -/

theorem isDigit_ofNat : ∀ d < 10, isDigit (UInt8.ofNat (48 + d)) = true := by decide

theorem toNat_ofNat_digit : ∀ d < 10, (UInt8.ofNat (48 + d)).toNat - 48 = d := by decide

theorem decimal_isDigit (n : ℕ) : ∀ c ∈ decimal n, isDigit c = true := by
  intro c hc
  unfold decimal at hc
  split at hc
  · rw [List.mem_singleton.1 hc]
    decide
  · obtain ⟨d, hd, rfl⟩ := List.mem_map.1 hc
    exact isDigit_ofNat d (Nat.digits_lt_base (by omega) (List.mem_reverse.1 hd))

theorem notMem_decimal {c : UInt8} (h : isDigit c = false) (n : ℕ) : c ∉ decimal n := by
  intro hmem
  rw [decimal_isDigit n c hmem] at h
  cases h

theorem decimal_ne_nil (n : ℕ) : decimal n ≠ [] := by
  unfold decimal
  split
  · simp
  · rename_i h
    simpa [Nat.digits_ne_nil_iff_ne_zero] using h

theorem foldl_digits (ds : List ℕ) (h : ∀ d ∈ ds, d < 10) :
    digitsValue (ds.reverse.map fun d => UInt8.ofNat (48 + d)) = Nat.ofDigits 10 ds := by
  induction ds with
  | nil => rfl
  | cons d ds ih =>
      have hd := toNat_ofNat_digit d (h d (by simp))
      have hih := ih fun e he => h e (List.mem_cons_of_mem _ he)
      rw [Nat.ofDigits_cons, ← hih]
      simp only [digitsValue, List.reverse_cons, List.map_append, List.foldl_append,
        List.map_cons, List.map_nil, List.foldl_cons, List.foldl_nil]
      rw [hd]
      ring

theorem digitsValue_decimal (n : ℕ) : digitsValue (decimal n) = n := by
  unfold decimal
  split
  · rename_i h
    rw [h]
    rfl
  · rw [foldl_digits _ fun d hd => Nat.digits_lt_base (by omega) hd, Nat.ofDigits_digits]

theorem takeWhile_decimal (n : ℕ) (rest : Bytes)
    (hrest : ∀ c, rest.head? = some c → isDigit c = false) :
    (decimal n ++ rest).takeWhile isDigit = decimal n := by
  rw [List.takeWhile_append_of_pos (decimal_isDigit n)]
  cases rest with
  | nil => simp
  | cons c rest => simp [hrest c rfl]

/-- The number reader inverts the writer. -/
theorem fromChars_decimal {bits n : ℕ} (h : n < 2 ^ bits) (rest : Bytes)
    (hrest : ∀ c, rest.head? = some c → isDigit c = false) :
    fromChars bits (decimal n ++ rest) = some n := by
  have hvalue := digitsValue_decimal n
  unfold fromChars
  rw [takeWhile_decimal n rest hrest]
  simp only
  rw [if_neg, hvalue]
  rintro (hnil | hbig)
  · exact decimal_ne_nil n hnil
  · omega

end Json

end SplitHello
