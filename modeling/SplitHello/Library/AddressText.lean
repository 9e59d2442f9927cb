import SplitHello.Library.ByteString

/-!
# Textual addresses

An IPv6 address has eight groups of 16 bits and many texts: the letters are of either case, a
group may have zeros in front, one run of zero groups may be left out, and the last two groups
may be written as an IPv4 address. `Denotes` says which texts stand for which groups. All that
a prefix of a text can tell is what its first group is.
-/

namespace AddressText

open ByteString

/-! ## Digits and groups -/

def digitValue (c : UInt8) : Option ℕ :=
  if 48 ≤ c ∧ c ≤ 57 then some (c.toNat - 48)
  else if 97 ≤ lowerByte c ∧ lowerByte c ≤ 102 then some ((lowerByte c).toNat - 87)
  else none

def hexNumber (word : Bytes) : ℕ := word.foldl (fun n c => n * 16 + (digitValue c).getD 0) 0

def decimalNumber (word : Bytes) : ℕ := word.foldl (fun n c => n * 10 + (c.toNat - 48)) 0

structure IsGroup (word : Bytes) (group : ℕ) : Prop where
  ne_nil : word ≠ []
  short : word.length ≤ 4
  hex : ∀ c ∈ word, (digitValue c).isSome
  number : hexNumber word = group

structure IsOctet (word : Bytes) (octet : ℕ) : Prop where
  ne_nil : word ≠ []
  digits : ∀ c ∈ word, 48 ≤ c ∧ c ≤ 57
  number : decimalNumber word = octet
  le : octet ≤ 255

instance (word : Bytes) (group : ℕ) : Decidable (IsGroup word group) :=
  decidable_of_iff (word ≠ [] ∧ word.length ≤ 4 ∧ (word.all fun c => (digitValue c).isSome) ∧
      hexNumber word = group)
    ⟨fun h => ⟨h.1, h.2.1, List.all_eq_true.1 h.2.2.1, h.2.2.2⟩,
      fun h => ⟨h.ne_nil, h.short, List.all_eq_true.2 h.hex, h.number⟩⟩

instance (word : Bytes) (octet : ℕ) : Decidable (IsOctet word octet) :=
  decidable_of_iff (word ≠ [] ∧ (word.all fun c => 48 ≤ c ∧ c ≤ 57) ∧ decimalNumber word = octet ∧
      octet ≤ 255)
    ⟨fun h => ⟨h.1, by simpa using h.2.1, h.2.2.1, h.2.2.2⟩,
      fun h => ⟨h.ne_nil, by simpa using h.digits, h.number, h.le⟩⟩

/-- An IPv4 address in dotted decimal. -/
inductive IsQuad : Bytes → ℕ → ℕ → ℕ → ℕ → Prop
  | dots {u v w x : Bytes} {a b c d : ℕ} (ha : IsOctet u a) (hb : IsOctet v b) (hc : IsOctet w c)
      (hd : IsOctet x d) : IsQuad (u ++ 46 :: (v ++ 46 :: (w ++ 46 :: x))) a b c d

/-- Groups with a colon between two of them. -/
inductive Groups : Bytes → List ℕ → Prop
  | last {word : Bytes} {group : ℕ} (h : IsGroup word group) : Groups word [group]
  | cons {word : Bytes} {group : ℕ} (h : IsGroup word group) {text : Bytes} {groups : List ℕ}
      (htext : Groups text groups) : Groups (word ++ 58 :: text) (group :: groups)

/-- The same, but the last two groups may be an IPv4 address. -/
inductive Tail : Bytes → List ℕ → Prop
  | last {word : Bytes} {group : ℕ} (h : IsGroup word group) : Tail word [group]
  | quad {text : Bytes} {a b c d : ℕ} (h : IsQuad text a b c d) :
      Tail text [a * 256 + b, c * 256 + d]
  | cons {word : Bytes} {group : ℕ} (h : IsGroup word group) {text : Bytes} {groups : List ℕ}
      (htext : Tail text groups) : Tail (word ++ 58 :: text) (group :: groups)

/-- The eight groups a text stands for. -/
inductive Denotes : Bytes → List ℕ → Prop
  | full {text : Bytes} {groups : List ℕ} (h : Tail text groups) (hlength : groups.length = 8) :
      Denotes text groups
  | compressed {front back : Bytes} {before behind : List ℕ}
      (hfront : front = [] ∧ before = [] ∨ Groups front before)
      (hback : back = [] ∧ behind = [] ∨ Tail back behind)
      (hlength : before.length + behind.length ≤ 7) :
      Denotes (front ++ 58 :: 58 :: back)
        (before ++ List.replicate (8 - before.length - behind.length) 0 ++ behind)

/-! ## What a text begins with -/

theorem Denotes.length {text : Bytes} {groups : List ℕ} (h : Denotes text groups) :
    groups.length = 8 := by
  cases h with
  | full h hlength => exact hlength
  | compressed hfront hback hlength =>
      rw [List.length_append, List.length_append, List.length_replicate]
      omega

theorem Groups.head {text : Bytes} {groups : List ℕ} (h : Groups text groups) :
    ∃ word rest group more, IsGroup word group ∧ text = word ++ rest ∧ groups = group :: more ∧
      ∀ c, rest.head? = some c → c = 58 := by
  cases h with
  | last h => exact ⟨_, [], _, _, h, (List.append_nil _).symm, rfl, fun c hc => by cases hc⟩
  | cons h htext =>
      refine ⟨_, _, _, _, h, rfl, rfl, ?_⟩
      rintro c ⟨⟩
      rfl

/-- Either the text begins with the zeros that are left out, or with its first group. -/
theorem Denotes.head {text : Bytes} {groups : List ℕ} (h : Denotes text groups) :
    (∃ back behind, text = 58 :: 58 :: back ∧ (back = [] ∧ behind = [] ∨ Tail back behind) ∧
      behind.length ≤ 7 ∧ groups = List.replicate (8 - behind.length) 0 ++ behind) ∨
    ∃ word rest group more, IsGroup word group ∧ text = word ++ 58 :: rest ∧
      groups = group :: more := by
  cases h with
  | full h hlength =>
      cases h with
      | last h => cases hlength
      | quad h => cases hlength
      | cons h htext => exact Or.inr ⟨_, _, _, _, h, rfl, rfl⟩
  | @compressed front back before behind hfront hback hlength =>
      rcases hfront with ⟨rfl, rfl⟩ | hfront
      · refine Or.inl ⟨back, behind, rfl, hback, by simpa using hlength, ?_⟩
        rw [List.nil_append, List.length_nil, Nat.sub_zero]
      · obtain ⟨word, rest, group, more, hgroup, rfl, rfl, hrest⟩ := hfront.head
        cases rest with
        | nil => exact Or.inr ⟨word, 58 :: back, group, _, hgroup, by simp, rfl⟩
        | cons c rest =>
            obtain rfl : c = 58 := hrest c rfl
            exact Or.inr ⟨word, rest ++ 58 :: 58 :: back, group, _, hgroup, by simp, rfl⟩

/-! ## Groups by their letters -/

/-- The letter of a digit, in lower case. -/
def digitLetter (n : ℕ) : UInt8 := if n < 10 then UInt8.ofNat (48 + n) else UInt8.ofNat (87 + n)

theorem digitLetter_injective : ∀ a < 16, ∀ b < 16, digitLetter a = digitLetter b → a = b := by
  decide

theorem digitValue_letters : ∀ k < 256, (digitValue (UInt8.ofNat k)).all (fun n =>
    decide (n < 16 ∧ lowerByte (UInt8.ofNat k) = digitLetter n)) = true := by
  decide +kernel

theorem digitValue_spec {c : UInt8} {n : ℕ} (h : digitValue c = some n) :
    n < 16 ∧ lowerByte c = digitLetter n := by
  have hall := digitValue_letters c.toNat c.toNat_lt
  rw [UInt8.ofNat_toNat, h, Option.all_some, decide_eq_true_eq] at hall
  exact hall

theorem exists_digits {word : Bytes} (h : ∀ c ∈ word, (digitValue c).isSome) :
    ∃ digits : List ℕ, (∀ d ∈ digits, d < 16) ∧ lower word = digits.map digitLetter ∧
      ∀ n, word.foldl (fun n c => n * 16 + (digitValue c).getD 0) n =
        digits.foldl (fun n d => n * 16 + d) n := by
  induction word with
  | nil => exact ⟨[], by simp, rfl, fun _ => rfl⟩
  | cons c word ih =>
      obtain ⟨hc, hword⟩ := List.forall_mem_cons.1 h
      obtain ⟨d, hd⟩ := Option.isSome_iff_exists.1 hc
      obtain ⟨digits, hlt, hlower, hfold⟩ := ih hword
      obtain ⟨hd', hletter⟩ := digitValue_spec hd
      refine ⟨d :: digits, List.forall_mem_cons.2 ⟨hd', hlt⟩, ?_, fun n => ?_⟩
      · rw [lower] at hlower
        rw [lower, List.map_cons, List.map_cons, hletter, hlower]
      · rw [List.foldl_cons, List.foldl_cons, hd, Option.getD_some, hfold]

/-- A group with four digits is written in one way, up to the case of its letters. -/
theorem IsGroup.lower_eq {word : Bytes} {group : ℕ} (h : IsGroup word group)
    (hgroup : 4096 ≤ group) :
    lower word = [digitLetter (group / 4096), digitLetter (group / 256 % 16),
      digitLetter (group / 16 % 16), digitLetter (group % 16)] := by
  obtain ⟨digits, hlt, hlower, hfold⟩ := exists_digits h.hex
  have hnumber := h.number
  have hlength : digits.length ≤ 4 := by
    have hsame := congrArg List.length hlower
    rw [lower, List.length_map, List.length_map] at hsame
    rw [← hsame]
    exact h.short
  rw [hexNumber, hfold] at hnumber
  rw [hlower]
  match digits, hlength with
  | [], _ =>
      rw [List.foldl_nil] at hnumber
      omega
  | [a], _ =>
      have ha := hlt a (by simp)
      simp only [List.foldl_cons, List.foldl_nil] at hnumber
      omega
  | [a, b], _ =>
      have ha := hlt a (by simp)
      have hb := hlt b (by simp)
      simp only [List.foldl_cons, List.foldl_nil] at hnumber
      omega
  | [a, b, c], _ =>
      have ha := hlt a (by simp)
      have hb := hlt b (by simp)
      have hc := hlt c (by simp)
      simp only [List.foldl_cons, List.foldl_nil] at hnumber
      omega
  | [a, b, c, d], _ =>
      have ha := hlt a (by simp)
      have hb := hlt b (by simp)
      have hc := hlt c (by simp)
      have hd := hlt d (by simp)
      simp only [List.foldl_cons, List.foldl_nil] at hnumber
      have h₀ : group / 4096 = a := by omega
      have h₁ : group / 256 % 16 = b := by omega
      have h₂ : group / 16 % 16 = c := by omega
      have h₃ : group % 16 = d := by omega
      rw [h₀, h₁, h₂, h₃]
      rfl
  | _ :: _ :: _ :: _ :: _ :: _, hlong =>
      simp only [List.length_cons] at hlong
      omega

theorem digitValue_lowerByte : ∀ k < 256, digitValue (lowerByte (UInt8.ofNat k)) =
    digitValue (UInt8.ofNat k) := by
  decide +kernel

/-- The number of a group does not depend on the case of its letters. -/
theorem hexNumber_lower (word : Bytes) : hexNumber (lower word) = hexNumber word := by
  rw [hexNumber, hexNumber, lower, List.foldl_map]
  congr 1
  funext n c
  have hsame := digitValue_lowerByte c.toNat c.toNat_lt
  rw [UInt8.ofNat_toNat] at hsame
  rw [hsame]

theorem length_lower (word : Bytes) : (lower word).length = word.length := List.length_map ..

theorem IsGroup.notMem_lower {word : Bytes} {group : ℕ} (h : IsGroup word group) {c : UInt8}
    (hc : digitValue c = none) : c ∉ lower word := by
  intro hmem
  obtain ⟨d, hd, rfl⟩ := List.mem_map.1 hmem
  have hsame := digitValue_lowerByte d.toNat d.toNat_lt
  rw [UInt8.ofNat_toNat, hc] at hsame
  have hsome := h.hex d hd
  rw [← hsame] at hsome
  cases hsome

theorem foldl_eq_zero {digits : List ℕ} {n : ℕ}
    (h : digits.foldl (fun n d => n * 16 + d) n = 0) : n = 0 ∧ ∀ d ∈ digits, d = 0 := by
  induction digits generalizing n with
  | nil => exact ⟨h, by simp⟩
  | cons d digits ih =>
      obtain ⟨hn, hdigits⟩ := ih h
      dsimp only at hn
      exact ⟨by omega, List.forall_mem_cons.2 ⟨by omega, hdigits⟩⟩

/-- A zero group has no other digits than zeros. -/
theorem IsGroup.lower_zero {word : Bytes} (h : IsGroup word 0) : ∀ c ∈ lower word, c = 48 := by
  obtain ⟨digits, -, hlower, hfold⟩ := exists_digits h.hex
  have hnumber := h.number
  rw [hexNumber, hfold] at hnumber
  rw [hlower, List.forall_mem_map]
  intro d hd
  rw [(foldl_eq_zero hnumber).2 d hd]
  rfl

theorem lower_append (a b : Bytes) : lower (a ++ b) = lower a ++ lower b := List.map_append

/-- What has no colon and begins a text begins its first group. -/
theorem prefix_word {word p rest : Bytes} (hp : (58 : UInt8) ∉ p) :
    p <+: lower (word ++ 58 :: rest) ↔ p <+: lower word := by
  have happend : lower (word ++ 58 :: rest) = lower word ++ 58 :: lower rest :=
    lower_append word (58 :: rest)
  rw [happend]
  constructor
  · intro hprefix
    rcases List.prefix_or_prefix_of_prefix hprefix (List.prefix_append _ _) with hword | ⟨q, rfl⟩
    · exact hword
    · cases q with
      | nil =>
          have hnil := List.append_nil (lower word)
          exact ⟨[], by rw [hnil, hnil]⟩
      | cons c q =>
          rw [List.prefix_append_right_inj, List.cons_prefix_cons] at hprefix
          refine absurd ?_ hp
          rw [← hprefix.1]
          simp
  · exact fun hprefix => hprefix.trans (List.prefix_append _ _)

end AddressText
