import SplitHello.Dns.Built

/-!
# What a hand-built answer is taken for

`inspectResponse` was written for answers that come from elsewhere. Of an answer built by
`buildResponse` it reports what the answer was built from.
-/

namespace SplitHello

namespace Dns

open ByteString

/-- The addresses that the operating system takes for literals of the family that was asked
for. -/
def validLiterals (pton : InetPton) (type : ℕ) (addresses : List Bytes) : List Bytes :=
  if type = typeA then addresses.filter fun text => (pton.v4 text).isSome
  else if type = typeAaaa then addresses.filter fun text => (pton.v6 text).isSome
  else []

theorem length_filterMap_eq {A B : Type} (f : A → Option B) (xs : List A) :
    (xs.filterMap f).length = (xs.filter fun x => (f x).isSome).length := by
  induction xs with
  | nil => rfl
  | cons x xs ih => cases hx : f x <;> simp [hx, ih]

theorem length_encodedAddresses (pton : InetPton) (type : ℕ) (addresses : List Bytes) :
    (encodedAddresses pton type addresses).length =
      min maxAnswers (validLiterals pton type addresses).length := by
  rw [encodedAddresses, validLiterals]
  split_ifs
  · rw [List.length_take, length_filterMap_eq]
  · rw [List.length_take, length_filterMap_eq]
  · rfl

theorem type_of_encoded {pton : InetPton} {type : ℕ} {addresses : List Bytes}
    (h : 0 < (encodedAddresses pton type addresses).length) : type ≠ typeOpt := by
  rintro rfl
  rw [encodedAddresses, if_neg (by decide), if_neg (by decide)] at h
  cases h

/-! ## What is noted of the records -/

theorem foldl_noteTtl_same {m : Memory} {records : List RecordRef} {info : ResponseInfo}
    (h : ∀ r ∈ records, noteTtl m info r = info) : records.foldl (noteTtl m) info = info := by
  induction records with
  | nil => rfl
  | cons r records ih =>
      rw [List.foldl_cons, h r List.mem_cons_self]
      exact ih fun r' hr' => h r' (List.mem_cons_of_mem _ hr')

/-- Answers that are alike leave behind the TTL they all have. -/
theorem foldl_noteTtl_alike {m : Memory} {type ttlSeconds count : ℕ} {records : List RecordRef}
    (h : Alike m 0 type ttlSeconds count records) (htype : 0 < count → type % 65536 ≠ typeOpt)
    {info : ResponseInfo} (hinfo : info.answerTtl = none) :
    records.foldl (noteTtl m) info =
      { info with answerTtl := if count = 0 then none else some (ttlSeconds % 2 ^ 32) } := by
  obtain ⟨rfl, halike⟩ := h
  cases records with
  | nil => rw [List.foldl_nil, List.length_nil, if_pos rfl, ← hinfo]
  | cons first records =>
      have hnote : ∀ r ∈ first :: records, ∀ info, noteTtl m info r =
          { info with answerTtl := lowest info.answerTtl (ttlSeconds % 2 ^ 32) } := by
        intro r hr info
        obtain ⟨hrtype, hsection, httl⟩ := halike r hr
        rw [noteTtl, httl, if_neg (hrtype.symm ▸ htype (Nat.succ_pos _)), if_pos hsection]
      rw [List.foldl_cons, hnote first List.mem_cons_self, hinfo, List.length_cons,
        if_neg (Nat.succ_ne_zero _)]
      refine foldl_noteTtl_same fun r hr => ?_
      rw [hnote r (List.mem_cons_of_mem _ hr)]
      simp [lowest]

theorem replyFlags_reads (recursionDesired : Bool) {rcode : ℕ} (hrcode : rcode ≤ 15) :
    (replyFlags 0 recursionDesired rcode).testBit 15 = true ∧
      (replyFlags 0 recursionDesired rcode).testBit 9 = false ∧
      (replyFlags 0 recursionDesired rcode).testBit 8 = recursionDesired ∧
      replyFlags 0 recursionDesired rcode % 16 = rcode := by
  simp only [replyFlags, Nat.testBit_eq_decide_div_mod_eq]
  cases recursionDesired
  · simp only [Bool.false_eq_true, if_false, decide_eq_true_eq, decide_eq_false_iff_not]
    omega
  · simp only [if_true, decide_eq_true_eq, decide_eq_false_iff_not]
    omega

/-- How many addresses an answer with this code has. -/
def answerCount (pton : InetPton) (query : Query) (addresses : List Bytes) (code : ℕ) : ℕ :=
  if code = 0 then min maxAnswers (validLiterals pton query.type addresses).length else 0

theorem length_encodedAnswers (pton : InetPton) (query : Query) (addresses : List Bytes)
    (failed : Bool) (rcode : ℕ) :
    (encodedAnswers pton query addresses failed rcode).length =
      answerCount pton query addresses (effectiveRcode failed rcode) := by
  rw [encodedAnswers, answerCount]
  split
  · exact length_encodedAddresses pton query.type addresses
  · rfl

theorem type_ne_opt_of_encodedAnswers {pton : InetPton} {query : Query} {addresses : List Bytes}
    {failed : Bool} {rcode : ℕ}
    (h : 0 < (encodedAnswers pton query addresses failed rcode).length) :
    query.type ≠ typeOpt := by
  rw [encodedAnswers] at h
  split at h
  · exact type_of_encoded h
  · cases h

/-- A hand-built answer to a query is taken for an intact response with the code and the
number of addresses it was built from, their TTL, the question, the id and the RD bit of the
query, and an OPT record if the query had one. -/
theorem buildResponse_inspected (pton : InetPton) {m : Memory} {length : ℕ} {query : Query}
    (hparsed : parseQuery m length = (query, true)) (addresses : List Bytes) {ttlSeconds : ℕ}
    (httl : ttlSeconds < 2 ^ 32) (failed : Bool) {rcode : ℕ} (hrcode : rcode ≤ 15) :
    let message := buildResponse pton query addresses ttlSeconds failed rcode
    let code := effectiveRcode failed rcode
    let answers := answerCount pton query addresses code
    (∃ info, inspectResponse (memory message) message.length = some info ∧
      info.response = true ∧ info.truncated = false ∧ info.rcode = code ∧
      info.answers = answers ∧ (0 < answers → info.answerTtl = some ttlSeconds)) ∧
    echoesQuestion (memory message) message.length query = true ∧
    be16 (memory message) 0 = query.id ∧
    (be16 (memory message) 2).testBit 8 = query.recursionDesired ∧
    ∃ questionEnd records, walk (memory message) message.length = some (questionEnd, records) ∧
      ((∃ r ∈ records, r.type = typeOpt) ↔ query.ednsPayload ≠ 0) := by
  intro message code answers
  have hquery := (asked_of_parseQuery hparsed).1
  have hcode : code ≤ 15 := by
    simp only [code, effectiveRcode, rcodeServFail]
    split <;> omega
  have hcount : (encodedAnswers pton query addresses failed rcode).length = answers :=
    length_encodedAnswers pton query addresses failed rcode
  have htype : 0 < answers → query.type % 65536 ≠ typeOpt := by
    intro hpos
    rw [Nat.mod_eq_of_lt hquery.type_lt]
    rw [← hcount] at hpos
    exact type_ne_opt_of_encodedAnswers hpos
  obtain ⟨hid, hflags, hsix, hechoes, records, additional, hwalk, halike, hopts, hnone⟩ :=
    buildResponse_reads pton hquery addresses ttlSeconds failed rcode
  rw [hcount] at hsix halike
  obtain ⟨hresponse, htruncated, hdesired, hlow⟩ := replyFlags_reads query.recursionDesired hcode
  refine ⟨?_, hechoes, hid, by rw [hflags, hdesired], _, _, hwalk, ?_⟩
  · have hinspect : inspectResponse (memory message) message.length =
        some { response := true, truncated := false, rcode := code, answers
               answerTtl := if answers = 0 then none else some (ttlSeconds % 2 ^ 32) } := by
      rw [inspectResponse, hwalk, Option.map_some]
      dsimp only
      have hflags : be16 (memory message) 2 = replyFlags 0 query.recursionDesired code := hflags
      rw [hflags, hresponse, htruncated, hlow, hsix, List.foldl_append,
        foldl_noteTtl_alike halike htype rfl, foldl_noteTtl_same fun r hr => if_pos (hopts r hr)]
    refine ⟨_, hinspect, rfl, rfl, rfl, rfl, fun hpos => ?_⟩
    dsimp only
    rw [if_neg (Nat.ne_of_gt hpos), Nat.mod_eq_of_lt httl]
  · constructor
    · rintro ⟨r, hr, hopt⟩ hnoEdns
      rw [hnone.2 hnoEdns, List.append_nil] at hr
      have hpos : 0 < answers := halike.length_eq ▸ List.length_pos_of_mem hr
      exact htype hpos ((halike.alike r hr).1.symm.trans hopt)
    · intro hedns
      obtain ⟨r, hr⟩ := List.exists_mem_of_ne_nil additional fun hnil => hedns (hnone.1 hnil)
      exact ⟨r, List.mem_append_right _ hr, hopts r hr⟩

/-- A query for the addresses of a host, with an OPT record. -/
def sampleAddressDatagram : Bytes :=
  [0, 7, 1, 0, 0, 1, 0, 0, 0, 0, 0, 1, 1, 97, 0, 0, 1, 0, 1, 0, 0, 41, 4, 208, 0, 0, 0, 0, 0, 0]

def sampleAddressQuery : Query :=
  (parseQuery (memory sampleAddressDatagram) sampleAddressDatagram.length).1

theorem length_of_none (_ b : Bytes) (h : (none : Option Bytes) = some b) : b.length = 16 := by
  cases h

/-- An operating system that knows one literal. -/
def oneLiteral : InetPton where
  v4 text := if text = ofString "192.0.2.1" then some [192, 0, 2, 1] else none
  v6 _ := none
  length_v4 text b h := by
    split at h
    · rw [← Option.some.inj h]
      rfl
    · cases h
  length_v6 := length_of_none

/-- Of two texts one is an address. -/
theorem buildResponse_inspected_sample :
    let message := buildResponse oneLiteral sampleAddressQuery
      [ofString "192.0.2.1", ofString "192.0.2"] 300 false 0
    ∃ info, inspectResponse (memory message) message.length = some info ∧ info.answers = 1 ∧
      info.answerTtl = some 300 := by
  have haccepted :
      (parseQuery (memory sampleAddressDatagram) sampleAddressDatagram.length).2 = true := by
    decide +kernel
  have hparsed : parseQuery (memory sampleAddressDatagram) sampleAddressDatagram.length =
      (sampleAddressQuery, true) := by
    rw [← haccepted, sampleAddressQuery]
  obtain ⟨⟨info, hinspect, -, -, -, hanswers, httl⟩, -⟩ := buildResponse_inspected oneLiteral
    hparsed [ofString "192.0.2.1", ofString "192.0.2"] (show 300 < 2 ^ 32 by omega) false
    (Nat.zero_le 15)
  have hcount : answerCount oneLiteral sampleAddressQuery
      [ofString "192.0.2.1", ofString "192.0.2"] (effectiveRcode false 0) = 1 := by
    decide +kernel
  rw [hcount] at hanswers httl
  exact ⟨info, hinspect, hanswers, httl Nat.one_pos⟩

end Dns

end SplitHello
