import SplitHello.Library.AddressText
import Mathlib.Data.Int.Log
import Mathlib.Data.Rat.Floor
import Mathlib.Data.List.TakeWhile
import Mathlib.Tactic.NormNum

/-!
# Which addresses the Worker drops

The Worker drops the private addresses of an answer so that a public name cannot lead into the
client's own network. It looks at the text of an address. For IPv4 that is enough; for IPv6 the
text has to be one of those that the filter thinks of.
-/

namespace SplitHello

namespace Worker

open ByteString AddressText

/-! ## Numbers -/

/-- White space and line ends of JavaScript, in UTF-8. -/
def spaces : List Bytes :=
  [[9], [10], [11], [12], [13], [32], [0xC2, 0xA0], [0xEF, 0xBB, 0xBF], [0xE1, 0x9A, 0x80],
    [0xE2, 0x80, 0x80], [0xE2, 0x80, 0x81], [0xE2, 0x80, 0x82], [0xE2, 0x80, 0x83],
    [0xE2, 0x80, 0x84], [0xE2, 0x80, 0x85], [0xE2, 0x80, 0x86], [0xE2, 0x80, 0x87],
    [0xE2, 0x80, 0x88], [0xE2, 0x80, 0x89], [0xE2, 0x80, 0x8A], [0xE2, 0x80, 0xA8],
    [0xE2, 0x80, 0xA9], [0xE2, 0x80, 0xAF], [0xE2, 0x81, 0x9F], [0xE3, 0x80, 0x80]]

def trimFront : ℕ → Bytes → Bytes
  | 0, text => text
  | rounds + 1, text =>
      match spaces.find? fun space => decide (space <+: text) with
      | none => text
      | some space => trimFront rounds (text.drop space.length)

def trimBack : ℕ → Bytes → Bytes
  | 0, text => text
  | rounds + 1, text =>
      match spaces.find? fun space => decide (space <:+ text) with
      | none => text
      | some space => trimBack rounds (text.take (text.length - space.length))

def trim (text : Bytes) : Bytes :=
  let text := trimFront text.length text
  trimBack text.length text

def isDecimal (c : UInt8) : Bool := 48 ≤ c && c ≤ 57

def radixNumber (base : ℕ) (digits : Bytes) : Option ℚ :=
  if digits ≠ [] ∧ digits.all (fun c => (digitValue c).any (· < base)) then
    some ((digits.foldl (fun n c => n * base + (digitValue c).getD 0) 0 : ℕ) : ℚ)
  else none

/-- Digits with an exponent or without; the parts of an address have no dot. -/
def unsignedNumber (text : Bytes) : Option ℚ :=
  let mantissa := text.takeWhile isDecimal
  if mantissa = [] then none
  else
    match text.dropWhile isDecimal with
    | [] => some (decimalNumber mantissa : ℚ)
    | e :: exponent =>
        let negative : Bool := exponent.head? = some 45
        let digits := if negative ∨ exponent.head? = some 43 then exponent.tail else exponent
        if lowerByte e ≠ 101 ∨ digits = [] ∨ digits.all isDecimal = false then none
        else
          let power : ℚ := 10 ^ decimalNumber digits
          some (if negative then decimalNumber mantissa / power else decimalNumber mantissa * power)

def signedNumber : Bytes → Option ℚ
  | [] => none
  | c :: text =>
      if c = 43 then unsignedNumber text
      else if c = 45 then (unsignedNumber text).map fun n => -n
      else unsignedNumber (c :: text)

/-- The value of a text as it is written, if it is that of a number. -/
def writtenNumber (text : Bytes) : Option ℚ :=
  match trim text with
  | [] => some 0
  | [c] => signedNumber [c]
  | c :: x :: digits =>
      if c = 48 ∧ lowerByte x = 120 then radixNumber 16 digits
      else if c = 48 ∧ lowerByte x = 111 then radixNumber 8 digits
      else if c = 48 ∧ lowerByte x = 98 then radixNumber 2 digits
      else signedNumber (c :: x :: digits)

def roundEven (q : ℚ) : ℤ :=
  let below := ⌊q⌋
  let rest := q - below
  if rest < 1 / 2 ∨ rest = 1 / 2 ∧ below % 2 = 0 then below else below + 1

/-- The double next to a number that is not too large for one. -/
def nearestDouble (q : ℚ) : ℚ :=
  if q = 0 then 0
  else
    let shift : ℤ := min 1074 (52 - Int.log 2 |q|)
    roundEven (q * 2 ^ shift) / 2 ^ shift

/-- `Number`, where no result stands for NaN and the infinities. -/
def number (text : Bytes) : Option ℚ := (writtenNumber text).map nearestDouble

/-! ## The filter -/

def isByte : Option ℚ → Bool
  | none => false
  | some n => n.isInt && decide (0 ≤ n) && decide (n ≤ 255)

def isPrivateV4 (ip : Bytes) : Bool :=
  let parts := (ip.splitOn 46).map number
  if parts.length ≠ 4 then true
  else if parts.any (fun n => !isByte n) then true
  else
    match parts with
    | some a :: some b :: _ =>
        decide (a = 0 ∨ a = 10 ∨ a = 127 ∨ a = 169 ∧ b = 254 ∨ a = 172 ∧ 16 ≤ b ∧ b ≤ 31 ∨
          a = 192 ∧ b = 168 ∨ a = 100 ∧ 64 ≤ b ∧ b ≤ 127 ∨ 224 ≤ a)
    | _ => true

def isPrivateV6 (ip : Bytes) : Bool :=
  let value := lower ip
  if value = ofString "::" ∨ value = ofString "::1" then true
  else if ofString "::ffff:" <+: value then isPrivateV4 (value.drop 7)
  else decide (ofString "fe80" <+: value ∨ ofString "fc" <+: value ∨ ofString "fd" <+: value)

def isPublicAddress (ip : Bytes) (family : ℕ) : Bool :=
  if family = 6 then !isPrivateV6 ip else !isPrivateV4 ip

/-! ## The number of an octet -/

theorem roundEven_natCast (n : ℕ) : roundEven (n : ℚ) = n := by
  rw [roundEven, Int.floor_natCast, Int.cast_natCast, sub_self, if_pos (Or.inl (by norm_num))]

/-- A small whole number is a double. -/
theorem nearestDouble_natCast {n : ℕ} (h : n ≤ 255) : nearestDouble (n : ℚ) = n := by
  rw [nearestDouble]
  by_cases hzero : (n : ℚ) = 0
  · rw [if_pos hzero, hzero]
  rw [if_neg hzero, Nat.abs_cast, Int.log_natCast]
  dsimp only
  have hlog : Nat.log 2 n < 8 := Nat.log_lt_of_lt_pow (by exact_mod_cast hzero) (by omega)
  have hshift : min 1074 (52 - (Nat.log 2 n : ℤ)) = ((52 - Nat.log 2 n : ℕ) : ℤ) := by omega
  rw [hshift, zpow_natCast]
  have hproduct : (n : ℚ) * 2 ^ (52 - Nat.log 2 n) = ((n * 2 ^ (52 - Nat.log 2 n) : ℕ) : ℚ) := by
    push_cast
    rfl
  rw [hproduct, roundEven_natCast, Int.cast_natCast, ← hproduct,
    mul_div_cancel_right₀ _ (pow_ne_zero _ (by norm_num))]

/-- White space has no digit at either end. -/
theorem spaces_ends : ∀ space ∈ spaces, (space.head?.any isDecimal = false ∧ space ≠ []) ∧
    space.getLast?.any isDecimal = false := by
  decide

theorem not_space_prefix {word : Bytes} (h : ∀ c ∈ word, isDecimal c = true) {space : Bytes}
    (hspace : space ∈ spaces) : ¬ space <+: word := by
  rintro ⟨rest, rfl⟩
  obtain ⟨⟨hhead, hne⟩, -⟩ := spaces_ends space hspace
  obtain ⟨c, space, rfl⟩ := List.exists_cons_of_ne_nil hne
  have hc := h c (by simp)
  rw [List.head?_cons, Option.any_some, hc] at hhead
  cases hhead

theorem not_space_suffix {word : Bytes} (h : ∀ c ∈ word, isDecimal c = true) {space : Bytes}
    (hspace : space ∈ spaces) : ¬ space <:+ word := by
  rintro ⟨rest, rfl⟩
  obtain ⟨⟨-, hne⟩, hlast⟩ := spaces_ends space hspace
  have hc := h (space.getLast hne) (List.mem_append_right _ (List.getLast_mem hne))
  rw [List.getLast?_eq_some_getLast hne, Option.any_some, hc] at hlast
  cases hlast

theorem trim_digits {word : Bytes} (h : ∀ c ∈ word, isDecimal c = true) : trim word = word := by
  have hfront : ∀ rounds, trimFront rounds word = word := by
    intro rounds
    cases rounds with
    | zero => rfl
    | succ rounds =>
        have hnone : (spaces.find? fun space => decide (space <+: word)) = none :=
          List.find?_eq_none.2 fun space hspace => by simpa using not_space_prefix h hspace
        rw [trimFront, hnone]
  have hback : ∀ rounds, trimBack rounds word = word := by
    intro rounds
    cases rounds with
    | zero => rfl
    | succ rounds =>
        have hnone : (spaces.find? fun space => decide (space <:+ word)) = none :=
          List.find?_eq_none.2 fun space hspace => by simpa using not_space_suffix h hspace
        rw [trimBack, hnone]
  rw [trim, hfront, hback]

theorem unsignedNumber_digits {word : Bytes} (h : ∀ c ∈ word, isDecimal c = true)
    (hne : word ≠ []) : unsignedNumber word = some (decimalNumber word : ℚ) := by
  have htake : word.takeWhile isDecimal = word := List.takeWhile_eq_self_iff.2 h
  have hdrop : word.dropWhile isDecimal = [] := List.dropWhile_eq_nil_iff.2 h
  rw [unsignedNumber, htake, hdrop]
  exact if_neg hne

theorem signedNumber_digits {c : UInt8} {word : Bytes}
    (h : ∀ d ∈ c :: word, isDecimal d = true) :
    signedNumber (c :: word) = some (decimalNumber (c :: word) : ℚ) := by
  have hc := h c (List.mem_cons_self ..)
  rw [signedNumber, if_neg (by rintro rfl; cases hc), if_neg (by rintro rfl; cases hc)]
  exact unsignedNumber_digits h (List.cons_ne_nil _ _)

theorem writtenNumber_digits {word : Bytes} (h : ∀ c ∈ word, isDecimal c = true)
    (hne : word ≠ []) : writtenNumber word = some (decimalNumber word : ℚ) := by
  have hsigned : ∀ c rest, word = c :: rest →
      signedNumber (c :: rest) = some (decimalNumber (c :: rest) : ℚ) := by
    rintro c rest rfl
    exact signedNumber_digits h
  rw [writtenNumber, trim_digits h]
  match word, hne with
  | [c], _ => exact hsigned c [] rfl
  | c :: x :: digits, _ =>
      have hx := h x (by simp)
      have hletter : ∀ letter : UInt8, isDecimal letter = false → lowerByte x ≠ letter := by
        rintro letter hletter rfl
        have hsame : lowerByte x = x := by
          rw [isDecimal, Bool.and_eq_true, decide_eq_true_eq, decide_eq_true_eq] at hx
          rw [lowerByte, if_neg]
          rintro ⟨hlow, -⟩
          have h₁ := UInt8.le_iff_toNat_le.1 hx.2
          have h₂ := UInt8.le_iff_toNat_le.1 hlow
          simp at h₁ h₂
          omega
        rw [hsame, hx] at hletter
        cases hletter
      dsimp only
      rw [if_neg fun hradix => hletter 120 rfl hradix.2,
        if_neg fun hradix => hletter 111 rfl hradix.2,
        if_neg fun hradix => hletter 98 rfl hradix.2]
      exact hsigned c (x :: digits) rfl

theorem IsOctet.isDecimal {word : Bytes} {n : ℕ} (h : IsOctet word n) :
    ∀ c ∈ word, isDecimal c = true := by
  intro c hc
  obtain ⟨hlow, hhigh⟩ := h.digits c hc
  rw [Worker.isDecimal, decide_eq_true hlow, decide_eq_true hhigh]
  rfl

theorem number_octet {word : Bytes} {n : ℕ} (h : IsOctet word n) : number word = some (n : ℚ) := by
  rw [number, writtenNumber_digits (IsOctet.isDecimal h) h.ne_nil, h.number, Option.map_some,
    nearestDouble_natCast h.le]

/-! ## IPv4 -/

/-- The ranges that the Worker keeps to itself, by the first two octets. -/
def PrivateV4 (a b : ℕ) : Prop :=
  a = 0 ∨ a = 10 ∨ a = 127 ∨ a = 169 ∧ b = 254 ∨ a = 172 ∧ 16 ≤ b ∧ b ≤ 31 ∨
    a = 192 ∧ b = 168 ∨ a = 100 ∧ 64 ≤ b ∧ b ≤ 127 ∨ 224 ≤ a

theorem isPrivateV4_iff {text : Bytes} {a b c d : ℕ} (h : IsQuad text a b c d) :
    isPrivateV4 text = true ↔ PrivateV4 a b := by
  obtain ⟨ha, hb, hc, hd⟩ := h
  rename_i u v w x
  have hdot : ∀ {word : Bytes} {n : ℕ}, IsOctet word n → (46 : UInt8) ∉ word := by
    intro word n hword hmem
    exact absurd (IsOctet.isDecimal hword 46 hmem) (by decide)
  have hsplit : (u ++ 46 :: (v ++ 46 :: (w ++ 46 :: x))).splitOn 46 = [u, v, w, x] := by
    have hwords : (([46] : Bytes).intercalate [u, v, w, x]).splitOn 46 = [u, v, w, x] :=
      List.splitOn_intercalate _ (by simp [hdot ha, hdot hb, hdot hc, hdot hd]) (by simp)
    rw [List.intercalate_cons_cons, List.intercalate_cons_cons, List.intercalate_cons_cons,
      List.intercalate_singleton] at hwords
    simpa only [List.append_assoc, List.singleton_append] using hwords
  have hbyte : ∀ {n : ℕ}, n ≤ 255 → isByte (some (n : ℚ)) = true := by
    intro n hn
    rw [isByte, Rat.isInt]
    simp only [Rat.den_natCast, beq_self_eq_true, Bool.true_and, Bool.and_eq_true,
      decide_eq_true_eq]
    exact ⟨Nat.cast_nonneg n, by exact_mod_cast hn⟩
  rw [isPrivateV4, hsplit]
  simp only [List.map_cons, List.map_nil, number_octet ha, number_octet hb, number_octet hc,
    number_octet hd]
  rw [if_neg (by simp), if_neg (by simp [hbyte ha.le, hbyte hb.le, hbyte hc.le, hbyte hd.le])]
  have hcast : ∀ (n m : ℕ) [m.AtLeastTwo], (n : ℚ) = OfNat.ofNat m ↔ n = OfNat.ofNat m := by
    intro n m _
    rw [← Nat.cast_ofNat, Nat.cast_inj]
  simp only [decide_eq_true_eq, PrivateV4, Nat.cast_eq_zero, hcast, Nat.ofNat_le_cast,
    Nat.cast_le_ofNat]

/-! ## IPv6 -/

/-- The unspecified address, loopback, the link-local and the unique local addresses, and the
private ranges of IPv4 in IPv6. -/
inductive PrivateV6 : List ℕ → Prop
  | unspecified : PrivateV6 [0, 0, 0, 0, 0, 0, 0, 0]
  | loopback : PrivateV6 [0, 0, 0, 0, 0, 0, 0, 1]
  | linkLocal {group : ℕ} {groups : List ℕ} (hlow : 0xFE80 ≤ group) (hhigh : group ≤ 0xFEBF) :
      PrivateV6 (group :: groups)
  | uniqueLocal {group : ℕ} {groups : List ℕ} (hlow : 0xFC00 ≤ group) (hhigh : group ≤ 0xFDFF) :
      PrivateV6 (group :: groups)
  | mapped {high low : ℕ} (h : PrivateV4 (high / 256) (high % 256)) :
      PrivateV6 [0, 0, 0, 0, 0, 0xFFFF, high, low]

/-- The first groups that a private address can have. -/
theorem PrivateV6.head {group : ℕ} {groups : List ℕ} (h : PrivateV6 (group :: groups)) :
    group = 0 ∨ 0xFE80 ≤ group ∧ group ≤ 0xFEBF ∨ 0xFC00 ≤ group ∧ group ≤ 0xFDFF := by
  cases h with
  | unspecified => exact Or.inl rfl
  | loopback => exact Or.inl rfl
  | linkLocal hlow hhigh => exact Or.inr (Or.inl ⟨hlow, hhigh⟩)
  | uniqueLocal hlow hhigh => exact Or.inr (Or.inr ⟨hlow, hhigh⟩)
  | mapped h => exact Or.inl rfl

/-- The spellings that the filter thinks of. -/
def Expected (text : Bytes) (groups : List ℕ) : Prop :=
  text = ofString "::" ∨ text = ofString "::1" ∨ ofString "::ffff:" <+: lower text ∨
    groups.head? = some 0xFE80 ∨
    ∃ group, groups.head? = some group ∧ 0xFC00 ≤ group ∧ group ≤ 0xFDFF

theorem lower_of_le {text : Bytes} (h : ∀ c ∈ text, c ≤ 57) : lower text = text := by
  refine (List.map_congr_left fun c hc => ?_).trans (List.map_id text)
  rw [lowerByte, if_neg]
  · rfl
  · rintro ⟨hlow, -⟩
    have h₁ := UInt8.le_iff_toNat_le.1 (h c hc)
    have h₂ := UInt8.le_iff_toNat_le.1 hlow
    simp at h₁ h₂
    omega

theorem quad_letter_le {text : Bytes} {a b c d : ℕ} (h : IsQuad text a b c d) :
    ∀ letter ∈ text, letter ≤ 57 := by
  intro letter hletter
  obtain ⟨ha, hb, hc, hd⟩ := h
  have hdot : (46 : UInt8) ≤ 57 := by decide
  simp only [List.mem_append, List.mem_cons] at hletter
  rcases hletter with hu | rfl | hv | rfl | hw | rfl | hx
  · exact (ha.digits letter hu).2
  · exact hdot
  · exact (hb.digits letter hv).2
  · exact hdot
  · exact (hc.digits letter hw).2
  · exact hdot
  · exact (hd.digits letter hx).2

/-- An IPv4 address is its own lower case. -/
theorem lower_quad {text : Bytes} {a b c d : ℕ} (h : IsQuad text a b c d) : lower text = text :=
  lower_of_le (quad_letter_le h)

theorem splitOn_of_notMem {text : Bytes} (h : (46 : UInt8) ∉ text) : text.splitOn 46 = [text] := by
  have hwords : (([46] : Bytes).intercalate [text]).splitOn 46 = [text] :=
    List.splitOn_intercalate _ (by simpa using h) (by simp)
  rwa [List.intercalate_singleton] at hwords

/-- What stands behind the prefix of a private IPv4 address in IPv6 counts as private. -/
theorem isPrivateV4_mapped {rest : Bytes} {high low : ℕ} (h : Tail rest [high, low])
    (hprivate : PrivateV4 (high / 256) (high % 256)) : isPrivateV4 (lower rest) = true := by
  cases h with
  | @quad _ a b c d hquad =>
      rw [lower_quad hquad, isPrivateV4_iff hquad]
      have hb : b ≤ 255 := by
        obtain ⟨-, hb, -, -⟩ := hquad
        exact hb.le
      have hdiv : (a * 256 + b) / 256 = a := by omega
      have hmod : (a * 256 + b) % 256 = b := by omega
      rwa [hdiv, hmod] at hprivate
  | @cons word _ hword text _ htext =>
      cases htext with
      | last hlast =>
          have hdot : (46 : UInt8) ∉ lower (word ++ 58 :: text) := by
            rw [lower_append, List.mem_append, not_or]
            refine ⟨hword.notMem_lower (by decide), ?_⟩
            rintro (_ | ⟨_, hmem⟩)
            exact hlast.notMem_lower (by decide) hmem
          rw [isPrivateV4, splitOn_of_notMem hdot]
          exact if_pos (by simp)
      | cons hlast hnone => cases hnone

/-- Only the private ranges of IPv4 in IPv6 have such a group behind zeros. -/
theorem PrivateV6.mapped_of_ffff {more : List ℕ} {k : ℕ} (hk : 0 < k)
    (hlength : k + more.length = 7) (h : PrivateV6 (List.replicate k 0 ++ 0xFFFF :: more)) :
    ∃ high low, more = [high, low] ∧ PrivateV4 (high / 256) (high % 256) := by
  generalize hgroups : List.replicate k 0 ++ 0xFFFF :: more = groups at h
  have hmem : 0xFFFF ∈ groups := by
    rw [← hgroups]
    simp
  have hhead : groups.head? = some 0 := by
    obtain ⟨j, rfl⟩ : ∃ j, k = j + 1 := ⟨k - 1, by omega⟩
    rw [← hgroups]
    rfl
  cases h with
  | unspecified => simp at hmem
  | loopback => simp at hmem
  | linkLocal hlow hhigh =>
      cases hhead
      omega
  | uniqueLocal hlow hhigh =>
      cases hhead
      omega
  | @mapped high low h =>
      refine ⟨high, low, ?_, h⟩
      obtain rfl : k = 5 := by
        have hat : ([0, 0, 0, 0, 0, 0xFFFF, high, low] : List ℕ)[k]? = some 0xFFFF := by
          rw [← hgroups, List.getElem?_append_right (by simp), List.length_replicate, Nat.sub_self]
          rfl
        have hfront : ∀ j < k, ([0, 0, 0, 0, 0, 0xFFFF, high, low] : List ℕ)[j]? = some 0 := by
          intro j hj
          rw [← hgroups, List.getElem?_append_left (by simpa using hj), List.getElem?_replicate,
            if_pos hj]
        rcases Nat.lt_trichotomy k 5 with hlt | heq | hgt
        · have hzero : ([0, 0, 0, 0, 0, 0xFFFF, high, low] : List ℕ)[k]? = some 0 := by
            match k, hlt with
            | 0, _ | 1, _ | 2, _ | 3, _ | 4, _ => rfl
          rw [hzero] at hat
          cases hat
        · exact heq
        · cases hfront 5 hgt
      have happend : [0, 0, 0, 0, 0, 0xFFFF] ++ more = [0, 0, 0, 0, 0, 0xFFFF] ++ [high, low] :=
        hgroups
      exact List.append_cancel_left happend

/-- Behind the prefix stand the last two groups of a private address. -/
theorem isPrivateV4_of_prefix {back : Bytes} {behind : List ℕ}
    (hback : back = [] ∧ behind = [] ∨ Tail back behind) (hlength : behind.length ≤ 7)
    (hprivate : PrivateV6 (List.replicate (8 - behind.length) 0 ++ behind))
    (hbegins : ofString "ffff:" <+: lower back) : isPrivateV4 ((lower back).drop 5) = true := by
  have hcolon : (58 : UInt8) ∈ lower back := hbegins.subset (by decide)
  rcases hback with ⟨rfl, -⟩ | hback
  · cases hcolon
  cases hback with
  | last hword => exact absurd hcolon (hword.notMem_lower (by decide))
  | quad hquad =>
      have hletter : (102 : UInt8) ∈ lower back := hbegins.subset (by decide)
      rw [lower_quad hquad] at hletter
      exact absurd (quad_letter_le hquad _ hletter) (by decide)
  | @cons word group hword rest more hrest =>
      rw [List.length_cons] at hlength hprivate
      have hfour : ofString "ffff" <+: lower word := by
        have hcolon : (58 : UInt8) ∉ ofString "ffff" := by decide
        have hword' : ofString "ffff" <+: lower (word ++ 58 :: rest) :=
          (List.prefix_append (ofString "ffff") (ofString ":")).trans hbegins
        exact (prefix_word hcolon).1 hword'
      have hlower : lower word = ofString "ffff" :=
        (hfour.eq_of_length_le (by rw [length_lower]; exact hword.short)).symm
      obtain rfl : group = 0xFFFF := by
        rw [← hword.number, ← hexNumber_lower, hlower]
        rfl
      obtain ⟨high, low, rfl, hmapped⟩ :=
        PrivateV6.mapped_of_ffff (k := 8 - (more.length + 1)) (by omega) (by omega) hprivate
      rw [lower_append, hlower]
      exact isPrivateV4_mapped hrest hmapped

theorem lowerByte_eq_one : ∀ k < 256, lowerByte (UInt8.ofNat k) = 49 → UInt8.ofNat k = 49 := by
  decide +kernel

/-- A text that begins with the zeros that are left out. -/
theorem isPrivateV6_zeros {back : Bytes} {behind : List ℕ}
    (hback : back = [] ∧ behind = [] ∨ Tail back behind) (hlength : behind.length ≤ 7)
    (hprivate : PrivateV6 (List.replicate (8 - behind.length) 0 ++ behind)) :
    isPrivateV6 (58 :: 58 :: back) = true ↔
      Expected (58 :: 58 :: back) (List.replicate (8 - behind.length) 0 ++ behind) := by
  have hvalue : lower (58 :: 58 :: back) = 58 :: 58 :: lower back := rfl
  have hhead : (List.replicate (8 - behind.length) 0 ++ behind).head? = some 0 := by
    obtain ⟨k, hk⟩ : ∃ k, 8 - behind.length = k + 1 := ⟨7 - behind.length, by omega⟩
    rw [hk]
    rfl
  have hnil : lower back = [] ↔ back = [] := List.map_eq_nil_iff
  have hone : lower back = [49] ↔ back = [49] := by
    constructor
    · intro heq
      obtain ⟨c, rfl, hc⟩ := List.map_eq_singleton_iff.1 heq
      have hsame := lowerByte_eq_one c.toNat c.toNat_lt
      rw [UInt8.ofNat_toNat] at hsame
      rw [hsame hc]
    · rintro rfl
      rfl
  have hshort : lower (58 :: 58 :: back) = ofString "::" ∨
      lower (58 :: 58 :: back) = ofString "::1" ↔
      58 :: 58 :: back = ofString "::" ∨ 58 :: 58 :: back = ofString "::1" := by
    have htwo : ofString "::" = [58, 58] := rfl
    have hthree : ofString "::1" = [58, 58, 49] := rfl
    rw [hvalue, htwo, hthree, List.cons.injEq, List.cons.injEq, List.cons.injEq, List.cons.injEq,
      List.cons.injEq, List.cons.injEq, List.cons.injEq, List.cons.injEq, hnil, hone]
  rw [isPrivateV6, Expected, hhead]
  by_cases hbegins : ofString "::ffff:" <+: lower (58 :: 58 :: back)
  · have hfive : ofString "ffff:" <+: lower back := by
      rw [hvalue] at hbegins
      exact (List.cons_prefix_cons.1 (List.cons_prefix_cons.1 hbegins).2).2
    rw [if_pos hbegins]
    refine ⟨fun _ => Or.inr (Or.inr (Or.inl hbegins)), fun _ => ?_⟩
    split
    · rfl
    · exact isPrivateV4_of_prefix hback hlength hprivate hfive
  · rw [if_neg hbegins]
    refine Iff.trans ?_ or_assoc
    rw [← hshort]
    by_cases htwo : lower (58 :: 58 :: back) = ofString "::" ∨
        lower (58 :: 58 :: back) = ofString "::1"
    · exact iff_of_true (if_pos htwo) (Or.inl htwo)
    · rw [if_neg htwo, hvalue, decide_eq_true_eq]
      refine iff_of_false ?_ ?_
      · rintro (h | h | h)
        · cases (List.cons_prefix_cons.1 h).1
        · cases (List.cons_prefix_cons.1 h).1
        · cases (List.cons_prefix_cons.1 h).1
      · rintro (h | h | h | ⟨group, h, hlow, -⟩)
        · exact htwo h
        · exact hbegins h
        · cases h
        · cases h
          exact absurd hlow (by decide)

/-- The first two letters of a private address that does not begin with zeros. -/
theorem prefix_two_iff {word : Bytes} {group : ℕ} {more : List ℕ} (hword : IsGroup word group)
    (hprivate : PrivateV6 (group :: more)) {n : ℕ} (hn : n < 16) :
    [digitLetter 15, digitLetter n] <+: lower word ↔ group / 256 = 0xF0 + n := by
  constructor
  · intro hbegins
    have hmem : digitLetter 15 ∈ lower word := hbegins.subset (List.mem_cons_self ..)
    rcases hprivate.head with rfl | hhead
    · exact absurd (hword.lower_zero _ hmem) (by decide)
    · rw [hword.lower_eq (by omega), List.cons_prefix_cons, List.cons_prefix_cons] at hbegins
      have hfirst := digitLetter_injective 15 (by decide) (group / 4096) (by omega) hbegins.1
      have hsecond := digitLetter_injective n hn (group / 256 % 16) (by omega) hbegins.2.1
      omega
  · intro hgroup
    have hfirst : group / 4096 = 15 := by omega
    have hsecond : group / 256 % 16 = n := by omega
    rw [hword.lower_eq (by omega), hfirst, hsecond]
    exact ⟨_, rfl⟩

/-- A text that begins with its first group. -/
theorem isPrivateV6_word {word rest : Bytes} {group : ℕ} {more : List ℕ}
    (hword : IsGroup word group) (hprivate : PrivateV6 (group :: more)) :
    isPrivateV6 (word ++ 58 :: rest) = true ↔ Expected (word ++ 58 :: rest) (group :: more) := by
  obtain ⟨c, word', hcons⟩ := List.exists_cons_of_ne_nil hword.ne_nil
  have hcolon : lowerByte c ≠ 58 := by
    intro hc
    refine hword.notMem_lower (by decide : digitValue 58 = none) ?_
    rw [hcons, ← hc]
    exact List.mem_cons_self ..
  -- No group begins with a colon.
  have hstart : ∀ p : Bytes, ¬ 58 :: p <+: lower (word ++ 58 :: rest) := by
    intro p hp
    rw [hcons] at hp
    exact hcolon (List.cons_prefix_cons.1 hp).1.symm
  have hne : ∀ p : Bytes, lower (word ++ 58 :: rest) ≠ 58 :: p := by
    intro p hp
    exact hstart p ⟨[], by rw [hp, List.append_nil]⟩
  have hne' : ∀ p : Bytes, word ++ 58 :: rest ≠ 58 :: p := by
    intro p hp
    exact hne (lower p) (by rw [hp]; rfl)
  have hfour : ofString "fe80" <+: lower word ↔ group = 0xFE80 := by
    constructor
    · intro hbegins
      have hlower := hbegins.eq_of_length_le (by rw [length_lower]; exact hword.short)
      rw [← hword.number, ← hexNumber_lower, ← hlower]
      rfl
    · rintro rfl
      rw [hword.lower_eq (by decide)]
      exact List.prefix_refl _
  have hfc : ofString "fc" <+: lower word ↔ group / 256 = 0xFC :=
    prefix_two_iff hword hprivate (n := 12) (by decide)
  have hfd : ofString "fd" <+: lower word ↔ group / 256 = 0xFD :=
    prefix_two_iff hword hprivate (n := 13) (by decide)
  rw [isPrivateV6, Expected, if_neg, if_neg, decide_eq_true_eq, prefix_word (by decide),
    prefix_word (by decide), prefix_word (by decide), hfour, hfc, hfd, List.head?_cons]
  · constructor
    · rintro (rfl | h)
      · exact Or.inr (Or.inr (Or.inr (Or.inl rfl)))
      · exact Or.inr (Or.inr (Or.inr (Or.inr ⟨group, rfl, by omega, by omega⟩)))
    · rintro (h | h | h | h | ⟨_, ⟨⟩, hlow, hhigh⟩)
      · exact absurd h (hne' _)
      · exact absurd h (hne' _)
      · exact absurd h (hstart _)
      · exact Or.inl (Option.some.inj h)
      · exact Or.inr (by omega)
  · exact hstart _
  · rintro (h | h)
    · exact hne _ h
    · exact hne _ h

theorem isPrivateV6_iff {text : Bytes} {groups : List ℕ} (h : Denotes text groups)
    (hprivate : PrivateV6 groups) : isPrivateV6 text = true ↔ Expected text groups := by
  rcases h.head with ⟨back, behind, rfl, hback, hlength, rfl⟩ |
    ⟨word, rest, group, more, hword, rfl, rfl⟩
  · exact isPrivateV6_zeros hback hlength hprivate
  · exact isPrivateV6_word hword hprivate

/-- A private IPv4 address is always dropped. A private IPv6 address is dropped exactly if it is
spelled as the filter expects. -/
theorem isPublicAddress_private (text : Bytes) (groups : List ℕ) (h : Denotes text groups)
    (hprivate : PrivateV6 groups) :
    (isPublicAddress text 6 = false ↔ Expected text groups) ∧
      ∀ (quad : Bytes) (a b c d : ℕ), IsQuad quad a b c d → PrivateV4 a b →
        isPublicAddress quad 4 = false := by
  refine ⟨?_, fun quad a b c d hquad hquadPrivate => ?_⟩
  · rw [isPublicAddress, if_pos rfl, Bool.not_eq_false', isPrivateV6_iff h hprivate]
  · rw [isPublicAddress, if_neg (by decide), Bool.not_eq_false', isPrivateV4_iff hquad]
    exact hquadPrivate

theorem isPublicAddress_private_sample :
    isPublicAddress (ofString "FE80::1") 6 = false ∧
      isPublicAddress (ofString "10.0.0.1") 4 = false := by
  have hfront : Groups (ofString "FE80") [0xFE80] := .last (by decide +kernel)
  have hback : Tail (ofString "1") [1] := .last (by decide +kernel)
  have hdenotes : Denotes (ofString "FE80::1") [0xFE80, 0, 0, 0, 0, 0, 0, 1] :=
    .compressed (Or.inr hfront) (Or.inr hback) (by decide)
  have hquad : IsQuad (ofString "10.0.0.1") 10 0 0 1 :=
    .dots (u := ofString "10") (v := ofString "0") (w := ofString "0") (x := ofString "1")
      (by decide +kernel) (by decide +kernel) (by decide +kernel) (by decide +kernel)
  have hprivate := isPublicAddress_private _ _ hdenotes (.linkLocal (by decide) (by decide))
  exact ⟨hprivate.1.2 (Or.inr (Or.inr (Or.inr (Or.inl rfl)))),
    hprivate.2 _ 10 0 0 1 hquad (Or.inr (Or.inl rfl))⟩

/-- A link-local address that does not begin with `fe80` goes through. -/
theorem isPublicAddress_private_missed :
    ¬ ∀ text groups, Denotes text groups → PrivateV6 groups → isPublicAddress text 6 = false := by
  intro h
  have hfront : Groups (ofString "fe90") [0xFE90] := .last (by decide +kernel)
  have hback : Tail (ofString "1") [1] := .last (by decide +kernel)
  have hdenotes : Denotes (ofString "fe90::1") [0xFE90, 0, 0, 0, 0, 0, 0, 1] :=
    .compressed (Or.inr hfront) (Or.inr hback) (by decide)
  have hdropped := h _ _ hdenotes (.linkLocal (by decide) (by decide))
  exact absurd hdropped (by decide +kernel)

end Worker

end SplitHello
