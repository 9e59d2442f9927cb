import SplitHello.Json.Written

/-!
# Flat objects as the program writes them

One member a line, keys of letters and underscores, values that a key lookup
passes over. The lookup of a key then finds the value that was written for it,
whatever strings the values before it hold.
-/

namespace SplitHello

namespace Json

open ByteString

/-- A letter or an underscore. -/
def isKeyByte (c : UInt8) : Bool :=
  (65 ≤ c && c ≤ 90) || (97 ≤ c && c ≤ 122) || c = 95

/-- What the program uses as a key. -/
def IsKey (key : Bytes) : Prop := key ≠ [] ∧ ∀ c ∈ key, isKeyByte c

instance (key : Bytes) : Decidable (IsKey key) :=
  decidable_of_iff (key ≠ [] ∧ key.all isKeyByte) (by rw [IsKey, List.all_eq_true])

theorem isKeyByte_range {c : UInt8} (h : isKeyByte c) : 65 ≤ c.toNat ∧ c.toNat ≠ 92 := by
  simp only [isKeyByte, Bool.or_eq_true, Bool.and_eq_true, decide_eq_true_eq,
    UInt8.le_iff_toNat_le, ← UInt8.toNat_inj] at h
  simp at h
  omega

theorem isKeyByte_ne {c d : UInt8} (h : isKeyByte c) (hd : d.toNat < 65 ∨ d.toNat = 92) :
    c ≠ d := by
  rintro rfl
  have := isKeyByte_range h
  omega

theorem IsKey.notMem {key : Bytes} (hkey : IsKey key) {d : UInt8}
    (hd : d.toNat < 65 ∨ d.toNat = 92) : d ∉ key :=
  fun h => isKeyByte_ne (hkey.2 d h) hd rfl

theorem IsKey.plain {key : Bytes} (hkey : IsKey key) : PlainKey key where
  ne_nil := hkey.1
  quote_notMem := hkey.notMem (by decide)
  backslash_notMem := hkey.notMem (by decide)

theorem escapeByte_of_isKeyByte {c : UInt8} (h : isKeyByte c) : escapeByte c = [c] := by
  have hrange := isKeyByte_range h
  have hlow : ¬ c < 0x20 := by
    rw [UInt8.lt_iff_toNat_lt]
    simp
    omega
  rw [escapeByte, if_neg (isKeyByte_ne h (by decide)), if_neg (isKeyByte_ne h (by decide)),
    if_neg (isKeyByte_ne h (by decide)), if_neg (isKeyByte_ne h (by decide)),
    if_neg (isKeyByte_ne h (by decide)), if_neg hlow]

theorem IsKey.quoted {key : Bytes} (hkey : IsKey key) : quoted key = quote :: key ++ [quote] := by
  have hescape : escape key = key := by
    have hbytes := hkey.2
    clear hkey
    induction key with
    | nil => rfl
    | cons c key ih =>
        have hrest : escape key = key := ih fun d hd => hbytes d (List.mem_cons_of_mem _ hd)
        rw [escape, List.flatMap_cons, escapeByte_of_isKeyByte (hbytes c (by simp)), ← escape,
          hrest]
        rfl
  rw [Json.quoted, hescape]

/-- What can follow a value on its line. -/
def LineEnd (rest : Bytes) : Prop := rest.head? = some comma ∨ rest.head? = some 10 ∧
  (skipWs rest).head? ≠ some colon

theorem LineEnd.behind {key rest : Bytes} (hkey : IsKey key) (h : LineEnd rest) :
    Behind key rest where
  head := by
    intro c hc
    rcases h with h | h
    · rw [h] at hc
      cases hc
      exact hkey.notMem (by decide)
    · rw [h.1] at hc
      cases hc
      exact hkey.notMem (by decide)
  noColon := by
    rcases h with h | h
    · cases rest with
      | nil => cases h
      | cons c rest =>
          cases h
          simp [skipWs, isWs, comma, colon]
    · exact h.2

/-- A value text that a lookup of the key passes over. -/
def Passes (key value : Bytes) : Prop :=
  ∀ rest, Behind key rest → findValue key (value ++ rest) = findValue key rest

theorem passes_quoted {key : Bytes} (hkey : IsKey key) (v : Bytes) : Passes key (quoted v) :=
  fun _ hrest => findValue_quoted hkey.plain hrest v

theorem passes_of_notMem (key : Bytes) {value : Bytes} (h : quote ∉ value) : Passes key value :=
  fun rest _ => findValue_append_of_notMem key h rest

theorem passes_decimal (key : Bytes) (n : ℕ) : Passes key (decimal n) :=
  passes_of_notMem key (notMem_decimal rfl n)

/-- The needle of a key does not match another key. -/
theorem isPrefixOf?_otherKey {key k : Bytes} (hkey : quote ∉ key) (hk : quote ∉ k) (hne : k ≠ key)
    (s : Bytes) :
    (quote :: (key ++ [quote])).isPrefixOf? (quote :: (k ++ quote :: s)) = none := by
  rw [Option.eq_none_iff_forall_not_mem]
  intro behind hmem
  have happ := List.isPrefixOf?_eq_some_iff_append_eq.1 hmem
  simp only [List.cons_append, List.cons.injEq, true_and, List.append_assoc] at happ
  rcases List.append_eq_append_iff.1 happ with ⟨a, hka, hrest⟩ | ⟨a, hka, hrest⟩
  · cases a with
    | nil => exact hne (by simpa using hka)
    | cons x a =>
        rw [List.nil_append, List.cons_append, List.cons.injEq] at hrest
        exact hk (by rw [hka, ← hrest.1]; simp)
  · cases a with
    | nil => exact hne (by simpa using hka.symm)
    | cons x a =>
        rw [List.cons_append, List.cons.injEq] at hrest
        exact hkey (by rw [hka, ← hrest.1]; simp)

/-- No needle begins at a closing quote. -/
theorem isPrefixOf?_close {key : Bytes} (hkey : ∀ c ∈ key, isKeyByte c) {c : UInt8}
    (hc : isKeyByte c = false) (hquote : c ≠ quote) (s : Bytes) :
    (quote :: (key ++ [quote])).isPrefixOf? (quote :: c :: s) = none := by
  rw [Option.eq_none_iff_forall_not_mem]
  intro behind hmem
  have happ := List.isPrefixOf?_eq_some_iff_append_eq.1 hmem
  cases key with
  | nil =>
      simp only [List.nil_append, List.cons_append, List.cons.injEq, true_and] at happ
      exact hquote happ.1.symm
  | cons d key =>
      simp only [List.cons_append, List.cons.injEq, true_and] at happ
      have hd := hkey d (List.mem_cons_self ..)
      rw [happ.1, hc] at hd
      cases hd

/-- A lookup does not stop at another key. -/
theorem findValue_otherKey {key k : Bytes} (hkey : IsKey key) (hk : IsKey k) (hne : k ≠ key)
    (s : Bytes) :
    findValue key (quoted k ++ colon :: s) = findValue key s := by
  have htext : quoted k ++ colon :: s = quote :: (k ++ quote :: colon :: s) := by
    rw [hk.quoted]
    simp
  have hquote := hkey.plain.quote_notMem
  have hquote' := hk.plain.quote_notMem
  have hopen := isPrefixOf?_otherKey hquote hquote' hne (colon :: s)
  have hcolon : colon ≠ quote := by decide
  have hclose := isPrefixOf?_close hkey.2 (by decide) hcolon s
  rw [htext, findValue, List.cons_append, hopen]
  dsimp only
  rw [findValue_append_of_notMem key hquote', findValue, List.cons_append, hclose]
  dsimp only
  rw [findValue_cons_of_ne hcolon]

/-- One member with the text of its value. -/
def memberText (m : Bytes × Bytes) : Bytes :=
  ofString "  " ++ quoted m.1 ++ ofString ": " ++ m.2

/-- The text of an object, one member a line. -/
def objectText (members : List (Bytes × Bytes)) : Bytes :=
  ofString "\x7b\n" ++ (ofString ",\n").intercalate (members.map memberText) ++ ofString "\n\x7d\n"

theorem findValue_memberText_of_ne {key : Bytes} (hkey : IsKey key) {m : Bytes × Bytes}
    (hm : IsKey m.1) (hne : m.1 ≠ key) (hpasses : Passes key m.2) {rest : Bytes}
    (hrest : Behind key rest) :
    findValue key (memberText m ++ rest) = findValue key rest := by
  have htext : memberText m ++ rest =
      ofString "  " ++ (quoted m.1 ++ colon :: (ofString " " ++ (m.2 ++ rest))) := by
    simp [memberText, ofString, colon]
  rw [htext, findValue_append_of_notMem key (by decide), findValue_otherKey hkey hm hne,
    findValue_append_of_notMem key (by decide), hpasses rest hrest]

theorem findValue_memberText {key : Bytes} (hkey : IsKey key) (value rest : Bytes) :
    findValue key (memberText (key, value) ++ rest) = some (skipWs (value ++ rest)) := by
  have htext : memberText (key, value) ++ rest =
      ofString "  " ++ (quote :: key ++ quote :: colon :: (ofString " " ++ (value ++ rest))) := by
    rw [memberText, hkey.quoted]
    simp [ofString, colon]
  rw [htext, findValue_append_of_notMem key (by decide), findValue_here,
    skipWs_append (List.all_eq_true.1 (by decide))]

theorem lineEnd_more (s : Bytes) : LineEnd (ofString ",\n" ++ s) := Or.inl rfl

theorem lineEnd_comma (s : Bytes) : LineEnd (comma :: s) := Or.inl rfl

theorem lineEnd_last : LineEnd (ofString "\n\x7d\n") := Or.inr ⟨rfl, by decide⟩

/-- What follows the first member on its line. -/
theorem exists_intercalate_eq (key : Bytes) {close : Bytes} (hclose : LineEnd close)
    (m : Bytes × Bytes) (members : List (Bytes × Bytes)) :
    ∃ rest, LineEnd rest ∧
      (ofString ",\n").intercalate ((m :: members).map memberText) ++ close =
        memberText m ++ rest ∧
      findValue key rest =
        findValue key ((ofString ",\n").intercalate (members.map memberText) ++ close) := by
  cases members with
  | nil => exact ⟨close, hclose, by simp [List.intercalate], rfl⟩
  | cons m' members =>
      refine ⟨_, lineEnd_more _, ?_, findValue_append_of_notMem key (by decide) _⟩
      rw [List.map_cons, List.map_cons, List.intercalate_cons_cons]
      simp

theorem findValue_members {key value close : Bytes} (hkey : IsKey key) (hclose : LineEnd close)
    {members : List (Bytes × Bytes)} (hkeys : (members.map Prod.fst).Nodup)
    (hmembers : ∀ m ∈ members, IsKey m.1 ∧ Passes key m.2) (hmem : (key, value) ∈ members) :
    ∃ rest, LineEnd rest ∧
      findValue key ((ofString ",\n").intercalate (members.map memberText) ++ close) =
        some (skipWs (value ++ rest)) := by
  induction members with
  | nil => cases hmem
  | cons m members ih =>
      rw [List.map_cons, List.nodup_cons] at hkeys
      obtain ⟨rest, hrest, htext, hnext⟩ := exists_intercalate_eq key hclose m members
      rw [htext]
      by_cases heq : m.1 = key
      · have hvalue : m = (key, value) := by
          rcases List.mem_cons.1 hmem with h | h
          · exact h.symm
          · exact absurd (List.mem_map.2 ⟨_, h, heq.symm⟩) hkeys.1
        rw [hvalue, findValue_memberText hkey]
        exact ⟨rest, hrest, rfl⟩
      · have hin : (key, value) ∈ members := by
          rcases List.mem_cons.1 hmem with h | h
          · exact absurd (by rw [← h]) heq
          · exact h
        obtain ⟨hm, hpasses⟩ := hmembers m (by simp)
        rw [findValue_memberText_of_ne hkey hm heq hpasses (hrest.behind hkey), hnext]
        exact ih hkeys.2 (fun m' hm' => hmembers m' (List.mem_cons_of_mem _ hm')) hin

/-- In the text of an object a key is found with the value written for it. -/
theorem findValue_objectText {key value : Bytes} (hkey : IsKey key)
    {members : List (Bytes × Bytes)} (hkeys : (members.map Prod.fst).Nodup)
    (hmembers : ∀ m ∈ members, IsKey m.1 ∧ Passes key m.2) (hmem : (key, value) ∈ members) :
    ∃ rest, LineEnd rest ∧ findValue key (objectText members) = some (skipWs (value ++ rest)) := by
  rw [objectText, List.append_assoc, findValue_append_of_notMem key (by decide)]
  exact findValue_members hkey lineEnd_last hkeys hmembers hmem

/-- A key that was not written is not found. -/
theorem findValue_members_eq_none {key close : Bytes} (hkey : IsKey key) (hclose : LineEnd close)
    {members : List (Bytes × Bytes)} (hmembers : ∀ m ∈ members, IsKey m.1 ∧ Passes key m.2)
    (hnot : ∀ m ∈ members, m.1 ≠ key) (hend : findValue key close = none) :
    findValue key ((ofString ",\n").intercalate (members.map memberText) ++ close) = none := by
  induction members with
  | nil => exact hend
  | cons m members ih =>
      have ih := ih (fun m' hm' => hmembers m' (List.mem_cons_of_mem _ hm'))
        fun m' hm' => hnot m' (List.mem_cons_of_mem _ hm')
      obtain ⟨rest, hrest, htext, hnext⟩ := exists_intercalate_eq key hclose m members
      obtain ⟨hm, hpasses⟩ := hmembers m (by simp)
      rw [htext, findValue_memberText_of_ne hkey hm (hnot m (by simp)) hpasses (hrest.behind hkey),
        hnext, ih]

theorem findValue_objectText_eq_none {key : Bytes} (hkey : IsKey key)
    {members : List (Bytes × Bytes)} (hmembers : ∀ m ∈ members, IsKey m.1 ∧ Passes key m.2)
    (hnot : ∀ m ∈ members, m.1 ≠ key) : findValue key (objectText members) = none := by
  have hend : findValue key (ofString "\n\x7d\n") = none := by
    have := findValue_append_of_notMem key (b := ofString "\n\x7d\n") (by decide) []
    rwa [List.append_nil] at this
  rw [objectText, List.append_assoc, findValue_append_of_notMem key (by decide)]
  exact findValue_members_eq_none hkey lineEnd_last hmembers hnot hend

/-! ## Strings, numbers and truth values -/

theorem isWs_of_isDigit {c : UInt8} (h : isDigit c = true) : isWs c = false := by
  simp only [isDigit, Bool.and_eq_true, decide_eq_true_eq, UInt8.le_iff_toNat_le] at h
  simp only [isWs, Bool.or_eq_false_iff, decide_eq_false_iff_not, ← UInt8.toNat_inj]
  simp at h ⊢
  omega

theorem exists_decimal_cons (n : ℕ) : ∃ c digits, decimal n = c :: digits ∧ isDigit c = true := by
  obtain ⟨c, digits, hdecimal⟩ := List.exists_cons_of_ne_nil (decimal_ne_nil n)
  exact ⟨c, digits, hdecimal, decimal_isDigit n c (by simp [hdecimal])⟩

theorem skipWs_decimal (n : ℕ) (rest : Bytes) :
    skipWs (decimal n ++ rest) = decimal n ++ rest := by
  obtain ⟨c, digits, hdecimal, hdigit⟩ := exists_decimal_cons n
  have hws : isWs c = false := isWs_of_isDigit hdigit
  rw [hdecimal, List.cons_append, skipWs, List.dropWhile_cons_of_neg (by simp [hws])]

/-- A number is read up to the first byte that is no digit. -/
theorem getInt_decimal {s key rest : Bytes} {n : ℕ}
    (hfind : findValue key s = some (decimal n ++ rest))
    (hstop : ∀ c, rest.head? = some c → isDigit c = false) (hn : n < 2 ^ 63) (fallback : ℤ) :
    getInt s key fallback = n := by
  have htake := takeWhile_decimal n rest hstop
  have hvalue := digitsValue_decimal n
  obtain ⟨c, digits, hdecimal, hdigit⟩ := exists_decimal_cons n
  rw [hdecimal, List.cons_append] at htake
  rw [hdecimal] at hvalue
  have hminus : c ≠ 45 := by
    rintro rfl
    cases hdigit
  rw [getInt, hfind, hdecimal, List.cons_append]
  dsimp only
  rw [if_pos (by simp [hdigit]), strtoll, if_neg hminus, htake, hvalue]
  omega

section

variable {key : Bytes} {members : List (Bytes × Bytes)} (hkey : IsKey key)
  (hkeys : (members.map Prod.fst).Nodup) (hmembers : ∀ m ∈ members, IsKey m.1 ∧ Passes key m.2)

include hkey hkeys hmembers

theorem getString_objectText {value : Bytes} (hmem : (key, quoted value) ∈ members) :
    getString (objectText members) key = value := by
  obtain ⟨rest, -, hfind⟩ := findValue_objectText hkey hkeys hmembers hmem
  rw [getString, hfind, skipWs_quoted]
  dsimp only
  rw [parseString_quoted]

theorem getBool_objectText {value : Bool}
    (hmem : (key, if value then ofString "true" else ofString "false") ∈ members) :
    getBool (objectText members) key = value := by
  obtain ⟨rest, -, hfind⟩ := findValue_objectText hkey hkeys hmembers hmem
  rw [getBool, hfind]
  cases value <;> rfl

theorem getInt_objectText {n : ℕ} (hn : n < 2 ^ 63) (hmem : (key, decimal n) ∈ members)
    (fallback : ℤ) : getInt (objectText members) key fallback = n := by
  obtain ⟨rest, hrest, hfind⟩ := findValue_objectText hkey hkeys hmembers hmem
  have hstop : ∀ c, rest.head? = some c → isDigit c = false := by
    intro c hc
    rcases hrest with h | ⟨h, -⟩
    · rw [h] at hc
      cases hc
      rfl
    · rw [h] at hc
      cases hc
      rfl
  rw [skipWs_decimal] at hfind
  exact getInt_decimal hfind hstop hn fallback

end

/-! ## String arrays -/

def stringArrayJson (values : List Bytes) : Bytes :=
  ofString "[" ++ (ofString ", ").intercalate (values.map quoted) ++ ofString "]"

/-- The elements behind the first one. -/
def moreStrings (values : List Bytes) : Bytes := values.flatMap fun v => ofString ", " ++ quoted v

theorem intercalate_quoted (v : Bytes) (values : List Bytes) :
    (ofString ", ").intercalate ((v :: values).map quoted) = quoted v ++ moreStrings values := by
  induction values generalizing v with
  | nil => simp [moreStrings, List.intercalate]
  | cons next values ih =>
      have ih := ih next
      rw [List.map_cons, List.map_cons, List.intercalate_cons_cons, ← List.map_cons, ih]
      simp [moreStrings]

theorem behind_moreStrings {key : Bytes} (hkey : IsKey key) (values : List Bytes) (rest : Bytes) :
    Behind key (moreStrings values ++ 93 :: rest) := by
  cases values with
  | nil =>
      refine ⟨?_, by simp [moreStrings, skipWs, isWs, colon]⟩
      intro c hc
      cases hc
      intro hmem
      have hbyte := hkey.2 _ hmem
      cases hbyte
  | cons v values => exact (lineEnd_comma _).behind hkey

theorem findValue_moreStrings {key : Bytes} (hkey : IsKey key) (values : List Bytes)
    (rest : Bytes) :
    findValue key (moreStrings values ++ 93 :: rest) = findValue key rest := by
  induction values with
  | nil => exact findValue_cons_of_ne (by decide) rest
  | cons v values ih =>
      have htext : moreStrings (v :: values) ++ 93 :: rest =
          ofString ", " ++ (quoted v ++ (moreStrings values ++ 93 :: rest)) := by
        simp [moreStrings]
      rw [htext, findValue_append_of_notMem key (by decide),
        findValue_quoted hkey.plain (behind_moreStrings hkey values rest), ih]

theorem passes_stringArrayJson {key : Bytes} (hkey : IsKey key) (values : List Bytes) :
    Passes key (stringArrayJson values) := by
  intro rest _
  have htext : stringArrayJson values ++ rest =
      ofString "[" ++ ((ofString ", ").intercalate (values.map quoted) ++ 93 :: rest) := by
    simp [stringArrayJson, ofString]
  rw [htext, findValue_append_of_notMem key (by decide)]
  cases values with
  | nil => exact findValue_cons_of_ne (by decide) rest
  | cons v values =>
      rw [intercalate_quoted, List.append_assoc,
        findValue_quoted hkey.plain (behind_moreStrings hkey values rest),
        findValue_moreStrings hkey]

theorem arrayLoop_quoted (fuel : ℕ) (ws : Bytes) (hws : ∀ c ∈ ws, isWs c) (v s : Bytes) :
    arrayLoop (fuel + 1) (ws ++ quoted v ++ s) = v :: arrayLoop fuel s := by
  have hcons : quoted v ++ s = quote :: (escape v ++ quote :: s) := by simp [quoted]
  rw [List.append_assoc, arrayLoop, skipWs_append hws, skipWs_quoted, hcons]
  dsimp only
  rw [if_neg (by decide), if_neg (by decide), if_neg (by simp), ← hcons, parseString_quoted]

theorem arrayLoop_comma (fuel : ℕ) (s : Bytes) :
    arrayLoop (fuel + 1) (comma :: s) = arrayLoop fuel s := by
  have hskip : skipWs (comma :: s) = comma :: s := by simp [skipWs, isWs, comma]
  rw [arrayLoop, hskip]
  dsimp only
  rw [if_neg (by decide), if_pos rfl]

theorem arrayLoop_moreStrings (values : List Bytes) (rest : Bytes) (fuel : ℕ)
    (hfuel : 2 * values.length ≤ fuel) :
    arrayLoop fuel (moreStrings values ++ 93 :: rest) = values := by
  induction values generalizing fuel with
  | nil => cases fuel <;> rfl
  | cons v values ih =>
      rw [List.length_cons] at hfuel
      obtain ⟨fuel, rfl⟩ : ∃ n, fuel = n + 2 := ⟨fuel - 2, by omega⟩
      have htext : moreStrings (v :: values) ++ 93 :: rest =
          comma :: ([32] ++ quoted v ++ (moreStrings values ++ 93 :: rest)) := by
        simp [moreStrings, ofString, comma]
      rw [htext, arrayLoop_comma, arrayLoop_quoted fuel _ (List.all_eq_true.1 (by decide)),
        ih fuel (by omega)]

theorem length_moreStrings (values : List Bytes) :
    2 * values.length ≤ (moreStrings values).length := by
  induction values with
  | nil => simp
  | cons v values ih =>
      simp only [moreStrings, List.flatMap_cons, List.length_append, List.length_cons] at ih ⊢
      have hcomma : (ofString ", ").length = 2 := by decide
      omega

/-- The array reader returns the strings that were written. -/
theorem arrayLoop_stringArray (values : List Bytes) (rest : Bytes) (fuel : ℕ)
    (hfuel : ((ofString ", ").intercalate (values.map quoted)).length + 1 ≤ fuel) :
    arrayLoop fuel ((ofString ", ").intercalate (values.map quoted) ++ 93 :: rest) = values := by
  cases values with
  | nil => cases fuel <;> rfl
  | cons v values =>
      have hlength := length_moreStrings values
      rw [intercalate_quoted] at hfuel ⊢
      rw [List.length_append] at hfuel
      obtain ⟨fuel, rfl⟩ : ∃ n, fuel = n + 1 := ⟨fuel - 1, by omega⟩
      have := arrayLoop_quoted fuel [] (by simp) v (moreStrings values ++ 93 :: rest)
      rw [List.nil_append] at this
      rw [List.append_assoc, this, arrayLoop_moreStrings values rest fuel (by omega)]

theorem getStringArray_objectText {key : Bytes} (hkey : IsKey key) {values : List Bytes}
    {members : List (Bytes × Bytes)} (hkeys : (members.map Prod.fst).Nodup)
    (hmembers : ∀ m ∈ members, IsKey m.1 ∧ Passes key m.2)
    (hmem : (key, stringArrayJson values) ∈ members) :
    getStringArray (objectText members) key = values := by
  obtain ⟨rest, -, hfind⟩ := findValue_objectText hkey hkeys hmembers hmem
  have htext : stringArrayJson values ++ rest =
      91 :: ((ofString ", ").intercalate (values.map quoted) ++ 93 :: rest) := by
    simp [stringArrayJson, ofString]
  have hskip (s : Bytes) : skipWs (91 :: s) = 91 :: s := by simp [skipWs, isWs]
  rw [getStringArray, hfind, htext, hskip]
  dsimp only
  rw [if_pos rfl]
  apply arrayLoop_stringArray
  simp

end Json

end SplitHello
