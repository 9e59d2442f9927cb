import SplitHello.Dns.Grammar

/-!
# Messages that ask something else

`echoesQuestion` compares a question byte by byte without regard to letter case. In the name
this is what is wanted, and lengths and the class Internet are never letters. A record type can
have bytes that are, and then a question about another type passes for a repetition.
-/

namespace SplitHello

namespace Dns

open ByteString

/-- The message has one question, about the name of the query in some letter case and in its
class. -/
structure SameName (m : Memory) (length : ℕ) (query : Query) : Prop where
  inside : headerSize + query.question.length ≤ length
  count : be16 m 4 = 1
  name : ∃ labels, labels.map lower = query.name.splitOn 46 ∧
    slice m headerSize (nameText labels).length = nameText labels ∧
    be16 m (headerSize + (nameText labels).length + 2) = classInternet

/-- The type in a question of the same length. -/
def askedType (m : Memory) (query : Query) : ℕ :=
  be16 m (headerSize + (query.question.length - 4))

/-- The message asks what the query asks. -/
def Repeats (m : Memory) (length : ℕ) (query : Query) : Prop :=
  SameName m length query ∧ askedType m query = query.type

/-- The message asks for a type that is not the query's, but whose bytes are the same up to
letter case. -/
def AsksLike (m : Memory) (length : ℕ) (query : Query) : Prop :=
  SameName m length query ∧ askedType m query ≠ query.type ∧
    lower (put16 (askedType m query)) = lower (put16 query.type)

theorem classInternet_of_lower {n : ℕ} (hn : n < 65536)
    (h : lower (put16 n) = lower (put16 classInternet)) : n = classInternet := by
  have hhigh : lowerByte (UInt8.ofNat (n / 256)) = UInt8.ofNat 0 := (List.cons.inj h).1
  have hlow : lowerByte (UInt8.ofNat n) = UInt8.ofNat 1 :=
    (List.cons.inj (List.cons.inj h).2).1
  have hhigh := eq_of_lowerByte_eq (Nat.zero_le 63) hhigh
  have hlow := eq_of_lowerByte_eq (by omega) hlow
  rw [UInt8.toNat_ofNat'] at hhigh hlow
  rw [classInternet]
  omega

theorem lower_append (a b : Bytes) : lower (a ++ b) = lower a ++ lower b := List.map_append

/-- A question is compared part by part. -/
theorem lower_slice_iff (m : Memory) (offset n type : ℕ) {text : Bytes} (hn : text.length = n) :
    lower (slice m offset (n + 4)) = text ++ lower (put16 type ++ put16 classInternet) ↔
      lower (slice m offset n) = text ∧
        lower (put16 (be16 m (offset + n))) = lower (put16 type) ∧
        lower (put16 (be16 m (offset + n + 2))) = lower (put16 classInternet) := by
  have hsize : ∀ i k, (lower (slice m i k)).length = k := fun i k => by simp [lower]
  rw [slice_add, slice_add _ _ 2 2, ← put16_be16, ← put16_be16, lower_append, lower_append,
    lower_append]
  constructor
  · intro h
    obtain ⟨hname, hrest⟩ := List.append_inj h (by rw [hsize, hn])
    obtain ⟨htype, hclass⟩ := List.append_inj hrest rfl
    exact ⟨hname, htype, hclass⟩
  · rintro ⟨hname, htype, hclass⟩
    rw [hname, htype, hclass]

/-- What the comparison comes down to. -/
theorem echoesQuestion_iff_sameName {query : Query} (hquery : Asked query) (m : Memory)
    (length : ℕ) :
    echoesQuestion m length query = true ↔
      SameName m length query ∧
        lower (put16 (askedType m query)) = lower (put16 query.type) := by
  obtain ⟨labels, hne, hlabels, hname, -, hsize, hquestion⟩ := hquery.question
  have hle : ∀ label ∈ labels, label.length ≤ 63 := fun l hl => (hlabels l hl).le
  have hsplit : query.name.splitOn 46 = labels := by
    have hdot : ofString "." = [46] := by decide
    rw [hname, hdot]
    exact List.splitOn_intercalate _ (fun l hl => (hlabels l hl).dot_notMem) hne
  have htype : askedType m query = be16 m (headerSize + (nameText labels).length) := by
    rw [askedType, hsize, Nat.add_sub_cancel]
  rw [echoesQuestion_iff hquery, hquestion]
  constructor
  · rintro ⟨hinside, hcount, htext⟩
    rw [hsize, lower_slice_iff m _ _ _ rfl] at htext
    obtain ⟨htext, hasked, hclass⟩ := htext
    obtain ⟨wire, rfl, hwire⟩ := exists_labels_of_lower hle htext
    rw [length_nameText_lower] at hwire hclass
    refine ⟨⟨hinside, hcount, wire, hsplit.symm, hwire, ?_⟩, htype ▸ hasked⟩
    exact classInternet_of_lower (be16_lt _ _) hclass
  · rintro ⟨⟨hinside, hcount, wire, hwire, htext, hclass⟩, hasked⟩
    rw [hsplit] at hwire
    subst hwire
    refine ⟨hinside, hcount, ?_⟩
    rw [hsize, lower_slice_iff m _ _ _ rfl]
    refine ⟨?_, htype ▸ hasked, ?_⟩
    · rw [length_nameText_lower, htext, lower_nameText]
      intro label hlabel
      have hlower := hle _ (List.mem_map_of_mem hlabel)
      rwa [lower, List.length_map] at hlower
    · rw [length_nameText_lower, hclass]

/-- The comparison is exact unless the message asks for another type that looks like the
query's. -/
theorem echoesQuestion_exact_iff {m₀ : Memory} {length₀ : ℕ} {query : Query}
    (hparsed : parseQuery m₀ length₀ = (query, true)) (m : Memory) (length : ℕ) :
    (echoesQuestion m length query = true ↔ Repeats m length query) ↔
      ¬ AsksLike m length query := by
  rw [echoesQuestion_iff_sameName (asked_of_parseQuery hparsed).1, Repeats, AsksLike]
  by_cases hname : SameName m length query
  · by_cases htype : askedType m query = query.type
    · simp [hname, htype]
    · simp [hname, htype]
  · simp [hname]

/-- A query for an HTTPS record, whose type has the code of a letter, and a message about the
type with the code of the same letter in lower case. -/
def sampleHttpsQuery : Bytes := [0, 1, 1, 0, 0, 1, 0, 0, 0, 0, 0, 0, 1, 97, 0, 0, 65, 0, 1]

def sampleOtherType : Bytes := [0, 1, 129, 128, 0, 1, 0, 0, 0, 0, 0, 0, 1, 97, 0, 0, 97, 0, 1]

theorem echoes_other_type :
    let query := (parseQuery (memory sampleHttpsQuery) sampleHttpsQuery.length).1
    (parseQuery (memory sampleHttpsQuery) sampleHttpsQuery.length).2 = true ∧
      query.type = 65 ∧ askedType (memory sampleOtherType) query = 97 ∧
      echoesQuestion (memory sampleOtherType) sampleOtherType.length query = true ∧
      ¬ Repeats (memory sampleOtherType) sampleOtherType.length query := by
  refine ⟨by decide +kernel, by decide +kernel, by decide +kernel, by decide +kernel, ?_⟩
  rintro ⟨-, htype⟩
  exact absurd htype (by decide +kernel)

theorem echoesQuestion_exact_iff_sample :
    let query := (parseQuery (memory sampleHttpsQuery) sampleHttpsQuery.length).1
    echoesQuestion (memory sampleHttpsQuery) sampleHttpsQuery.length query = true ↔
      Repeats (memory sampleHttpsQuery) sampleHttpsQuery.length query := by
  have haccepted : (parseQuery (memory sampleHttpsQuery) sampleHttpsQuery.length).2 = true := by
    decide +kernel
  have hparsed : parseQuery (memory sampleHttpsQuery) sampleHttpsQuery.length =
      ((parseQuery (memory sampleHttpsQuery) sampleHttpsQuery.length).1, true) := by
    rw [← haccepted]
  refine (echoesQuestion_exact_iff hparsed (memory sampleHttpsQuery)
    sampleHttpsQuery.length).2 ?_
  rintro ⟨-, htype, -⟩
  exact htype (by decide +kernel)

end Dns

end SplitHello
