import SplitHello.Dns.Reply

/-!
# Hand-built answers

The walk accepts what `buildResponse` writes: the answer records of its addresses
and the OPT record, when the query had one.
-/

namespace SplitHello

namespace Dns

open ByteString

theorem length_answerRecord (type ttlSeconds : ℕ) (address : Bytes) :
    (answerRecord type ttlSeconds address).length = 12 + address.length := by
  simp [answerRecord]
  omega

/-- So many records of one type and one TTL. -/
structure Alike (m : Memory) (s type ttlSeconds count : ℕ) (records : List RecordRef) : Prop where
  length_eq : records.length = count
  alike : ∀ r ∈ records, r.type = type % 65536 ∧ r.sectionIndex = s ∧
    be32 m r.ttlOffset = ttlSeconds % 2 ^ 32

/-- The records of the answer section, wherever it starts. -/
theorem recordsLoop_answerRecords (type ttlSeconds s : ℕ) (addresses : List Bytes)
    (haddresses : ∀ a ∈ addresses, a.length < 65536) (front tail : Bytes) :
    let message := front ++ (addresses.flatMap (answerRecord type ttlSeconds) ++ tail)
    ∃ records, recordsLoop (memory message) message.length s addresses.length front.length =
        some (front.length + (addresses.flatMap (answerRecord type ttlSeconds)).length, records) ∧
      Alike (memory message) s type ttlSeconds addresses.length records := by
  dsimp only
  induction addresses generalizing front with
  | nil => exact ⟨[], by simp [recordsLoop], rfl, by simp⟩
  | cons address addresses ih =>
      have haddress := haddresses address (by simp)
      obtain ⟨rest, hrest, halike⟩ := ih (fun a ha => haddresses a (List.mem_cons_of_mem _ ha))
        (front ++ answerRecord type ttlSeconds address)
      have htext : front ++
          ((address :: addresses).flatMap (answerRecord type ttlSeconds) ++ tail) =
          front ++ answerRecord type ttlSeconds address ++
            (addresses.flatMap (answerRecord type ttlSeconds) ++ tail) := by
        simp
      rw [htext]
      set b := front ++ answerRecord type ttlSeconds address ++
        (addresses.flatMap (answerRecord type ttlSeconds) ++ tail) with hb
      have hsplit : b = front ++ (answerRecord type ttlSeconds address ++
          (addresses.flatMap (answerRecord type ttlSeconds) ++ tail)) := by
        rw [hb, List.append_assoc]
      have hrecord := length_answerRecord type ttlSeconds address
      have hlength : front.length + (12 + address.length) ≤ b.length := by
        rw [hb, List.length_append, List.length_append, hrecord]
        omega
      have hpointer : memory b front.length = 0xC0 := by
        have := memory_append_right front (answerRecord type ttlSeconds address ++
          (addresses.flatMap (answerRecord type ttlSeconds) ++ tail)) 0
        rw [hsplit]
        rw [Nat.add_zero] at this
        rw [this]
        rfl
      have hdata : be16 (memory b) (front.length + 2 + 8) = address.length := by
        rw [hsplit, Nat.add_assoc, be16_shift]
        simp [answerRecord, be16, memory, put16, put32]
        omega
      have htype : be16 (memory b) (front.length + 2) = type % 65536 := by
        rw [hsplit, be16_shift]
        simp [answerRecord, be16, memory, put16, put32]
        omega
      have httl : be32 (memory b) (front.length + 2 + 4) = ttlSeconds % 2 ^ 32 := by
        rw [hsplit, Nat.add_assoc, be32_shift]
        simp [answerRecord, be32, be16, memory, put16, put32]
        omega
      have hfront : (front ++ answerRecord type ttlSeconds address).length =
          front.length + (12 + address.length) := by rw [List.length_append, hrecord]
      rw [hfront] at hrest
      refine ⟨_, recordsLoop_succ.2 ⟨front.length + 2, rest,
        skipName_pointer hpointer (by omega), by omega, ?_, rfl⟩, ?_, ?_⟩
      · rw [hdata]
        have hnext : front.length + 2 + 10 + address.length =
            front.length + (12 + address.length) := by omega
        rw [hnext, hrest]
        simp only [List.flatMap_cons, List.length_append, hrecord]
        congr 2
        omega
      · rw [List.length_cons, halike.length_eq, List.length_cons]
      · exact List.forall_mem_cons.2 ⟨⟨htype, rfl, httl⟩, halike.alike⟩

theorem recordsLoop_optRecord (s : ℕ) (front : Bytes) :
    recordsLoop (memory (front ++ optRecord)) (front ++ optRecord).length s 1 front.length =
      some (front.length + 11, [⟨typeOpt, s, front.length + 5⟩]) := by
  have hlength : (front ++ optRecord).length = front.length + 11 := by
    rw [List.length_append]
    rfl
  have hroot : memory (front ++ optRecord) front.length = 0 := by
    have := memory_append_right front optRecord 0
    rw [Nat.add_zero] at this
    rw [this]
    rfl
  have hdata : be16 (memory (front ++ optRecord)) (front.length + 1 + 8) = 0 := by
    rw [Nat.add_assoc, be16_shift]
    rfl
  have htype : be16 (memory (front ++ optRecord)) (front.length + 1) = typeOpt := by
    rw [be16_shift]
    rfl
  refine recordsLoop_succ.2 ⟨front.length + 1, [], skipName_root hroot (by omega), ?_, ?_, ?_⟩
  · rw [hdata]
    omega
  · rw [hdata]
    rfl
  · rw [htype]

theorem replyFlags_facts (opcode rcode : ℕ) (recursionDesired : Bool) :
    replyFlags opcode recursionDesired rcode < 65536 ∧
      (replyFlags opcode recursionDesired rcode).testBit 15 = true := by
  simp only [replyFlags, Nat.testBit_eq_decide_div_mod_eq, decide_eq_true_eq]
  split <;> omega

/-- The six fields of a header that was just written. -/
theorem header_fields {a b c d e f : ℕ} (ha : a < 65536) (hb : b < 65536) (hc : c < 65536)
    (hd : d < 65536) (he : e < 65536) (hf : f < 65536) (rest : Bytes) :
    let m := memory (put16 a ++ put16 b ++ put16 c ++ put16 d ++ put16 e ++ put16 f ++ rest)
    be16 m 0 = a ∧ be16 m 2 = b ∧ be16 m 4 = c ∧ be16 m 6 = d ∧ be16 m 8 = e ∧ be16 m 10 = f := by
  simp only [be16, memory, put16]
  simp
  omega

theorem encodedAddresses_facts (pton : InetPton) (type : ℕ) (addresses : List Bytes) :
    (encodedAddresses pton type addresses).length ≤ 8 ∧
      ∀ a ∈ encodedAddresses pton type addresses, a.length ≤ 16 := by
  rw [encodedAddresses]
  split
  · refine ⟨List.length_take_le _ _, fun a ha => ?_⟩
    obtain ⟨text, -, htext⟩ := List.mem_filterMap.1 (List.mem_of_mem_take ha)
    have := pton.length_v4 text a htext
    omega
  · split
    · refine ⟨List.length_take_le _ _, fun a ha => ?_⟩
      obtain ⟨text, -, htext⟩ := List.mem_filterMap.1 (List.mem_of_mem_take ha)
      have := pton.length_v6 text a htext
      omega
    · simp

theorem length_answerRecords (type ttlSeconds : ℕ) (addresses : List Bytes) :
    12 * addresses.length ≤ (addresses.flatMap (answerRecord type ttlSeconds)).length := by
  induction addresses with
  | nil => simp
  | cons a addresses ih =>
      have := length_answerRecord type ttlSeconds a
      simp only [List.flatMap_cons, List.length_append, List.length_cons]
      omega

/-- The additional section, with an OPT record or empty, ends the message. -/
theorem recordsLoop_additional (withOpt : Bool) (front : Bytes) :
    ∃ additional,
      recordsLoop (memory (front ++ if withOpt then optRecord else []))
          (front ++ if withOpt then optRecord else []).length 2 (if withOpt then 1 else 0)
          front.length =
        some ((front ++ if withOpt then optRecord else []).length, additional) ∧
      (∀ r ∈ additional, r.type = typeOpt) ∧ (additional = [] ↔ withOpt = false) := by
  cases withOpt with
  | false =>
      refine ⟨[], ?_, by simp, by simp⟩
      simp only [Bool.false_eq_true, if_false, List.append_nil]
      rw [recordsLoop]
  | true =>
      refine ⟨[⟨typeOpt, 2, front.length + 5⟩], ?_, by simp, by simp⟩
      simp only [if_true]
      rw [recordsLoop_optRecord, List.length_append]
      rfl

/-- A message with an intact header, a question, answer records and perhaps an OPT
record. -/
theorem walk_answer {query : Query} (hquery : Asked query) (type ttlSeconds : ℕ)
    {addresses : List Bytes} (hcount : addresses.length ≤ 8)
    (haddresses : ∀ a ∈ addresses, a.length ≤ 16) (withOpt : Bool) (head : Bytes)
    (hhead : head.length = 12)
    (hfields : ∀ rest, be16 (memory (head ++ rest)) 4 = 1 ∧
      be16 (memory (head ++ rest)) 6 = addresses.length ∧ be16 (memory (head ++ rest)) 8 = 0 ∧
      be16 (memory (head ++ rest)) 10 = if withOpt then 1 else 0) :
    let message := head ++ query.question ++ addresses.flatMap (answerRecord type ttlSeconds) ++
      if withOpt then optRecord else []
    (∃ answers additional, walk (memory message) message.length =
        some (headerSize + query.question.length, answers ++ additional) ∧
      Alike (memory message) 0 type ttlSeconds addresses.length answers ∧
      (∀ r ∈ additional, r.type = typeOpt) ∧ (additional = [] ↔ withOpt = false)) ∧
    echoesQuestion (memory message) message.length query = true := by
  dsimp only
  set records := addresses.flatMap (answerRecord type ttlSeconds) with hrecords
  set opt : Bytes := if withOpt then optRecord else [] with hopt
  set message := head ++ query.question ++ records ++ opt with hmessage
  have hheader : headerSize = 12 := rfl
  have hquestion := hquery.question_length
  have hsize := length_answerRecords type ttlSeconds addresses
  rw [← hrecords] at hsize
  have hoptLength : opt.length = if withOpt then 11 else 0 := by
    rw [hopt]
    split <;> rfl
  have hlength : message.length = 12 + query.question.length + records.length + opt.length := by
    simp only [hmessage, List.length_append, hhead]
  obtain ⟨h₄, h₆, h₈, h₁₀⟩ := hfields (query.question ++ records ++ opt)
  have hrest : head ++ (query.question ++ records ++ opt) = message := by simp [hmessage]
  rw [hrest] at h₄ h₆ h₈ h₁₀
  have hslice : slice (memory message) headerSize query.question.length = query.question := by
    rw [slice_memory message _ _ (by omega), hheader, ← hhead]
    simp [hmessage]
  have hquestions : questionsLoop (memory message) message.length 1 headerSize =
      some (headerSize + query.question.length) :=
    questionsLoop_of_slice hquery (by omega) (by rw [hslice])
  -- The answers start behind the question, the OPT record behind the answers.
  obtain ⟨answers, hanswers, halike⟩ := recordsLoop_answerRecords type ttlSeconds 0 addresses
    (fun a ha => by have := haddresses a ha; omega)
    (head ++ query.question) opt
  have hfront : (head ++ query.question).length = headerSize + query.question.length := by
    simp [hhead, hheader]
  have htext : head ++ query.question ++ (records ++ opt) = message := by simp [hmessage]
  rw [hfront, ← hrecords, htext] at hanswers
  rw [← hrecords, htext] at halike
  have hbefore : (head ++ query.question ++ records).length =
      headerSize + query.question.length + records.length := by
    rw [List.length_append, hfront]
  obtain ⟨additional, hadditional, hopts, hnone⟩ :=
    recordsLoop_additional withOpt (head ++ query.question ++ records)
  rw [← hopt, ← hmessage, hbefore, ← h₁₀] at hadditional
  constructor
  · refine ⟨answers, additional, ?_, halike, hopts, hnone⟩
    rw [walk_eq_some]
    refine ⟨answers, [], additional, by simp, by omega, ?_, by rw [h₄]; exact hquestions,
      _, _, _, by rw [h₆]; exact hanswers, by rw [h₈]; rfl, hadditional⟩
    rw [h₄, h₆, h₈, h₁₀, hlength, hoptLength]
    split <;> omega
  · rw [echoesQuestion_iff hquery]
    exact ⟨by omega, h₄, by rw [hslice]⟩

/-- The code that goes into an answer. -/
def effectiveRcode (failed : Bool) (rcode : ℕ) : ℕ :=
  if failed && rcode = 0 then rcodeServFail else rcode

/-- The addresses that go into it. -/
def encodedAnswers (pton : InetPton) (query : Query) (addresses : List Bytes) (failed : Bool)
    (rcode : ℕ) : List Bytes :=
  if effectiveRcode failed rcode = 0 then encodedAddresses pton query.type addresses else []

theorem encodedAnswers_facts (pton : InetPton) (query : Query) (addresses : List Bytes)
    (failed : Bool) (rcode : ℕ) :
    (encodedAnswers pton query addresses failed rcode).length ≤ 8 ∧
      ∀ a ∈ encodedAnswers pton query addresses failed rcode, a.length ≤ 16 := by
  rw [encodedAnswers]
  split
  · exact encodedAddresses_facts pton query.type addresses
  · simp

/-- What a hand-built answer says, read back. -/
theorem buildResponse_reads (pton : InetPton) {query : Query} (hquery : Asked query)
    (addresses : List Bytes) (ttlSeconds : ℕ) (failed : Bool) (rcode : ℕ) :
    let message := buildResponse pton query addresses ttlSeconds failed rcode
    let encoded := encodedAnswers pton query addresses failed rcode
    be16 (memory message) 0 = query.id ∧
      be16 (memory message) 2 =
        replyFlags 0 query.recursionDesired (effectiveRcode failed rcode) ∧
      be16 (memory message) 6 = encoded.length ∧
      echoesQuestion (memory message) message.length query = true ∧
      ∃ answers additional, walk (memory message) message.length =
          some (headerSize + query.question.length, answers ++ additional) ∧
        Alike (memory message) 0 query.type ttlSeconds encoded.length answers ∧
        (∀ r ∈ additional, r.type = typeOpt) ∧ (additional = [] ↔ query.ednsPayload = 0) := by
  intro message encoded
  obtain ⟨hcount, hlengths⟩ : encoded.length ≤ 8 ∧ ∀ a ∈ encoded, a.length ≤ 16 :=
    encodedAnswers_facts pton query addresses failed rcode
  obtain ⟨hflags, -⟩ := replyFlags_facts 0 (effectiveRcode failed rcode) query.recursionDesired
  set withOpt : Bool := decide (query.ednsPayload ≠ 0) with hwithOpt
  have hopt : (if withOpt then 1 else 0) < 65536 := by split <;> omega
  set head := put16 query.id ++
    put16 (replyFlags 0 query.recursionDesired (effectiveRcode failed rcode)) ++
    put16 1 ++ put16 encoded.length ++ put16 0 ++ put16 (if withOpt then 1 else 0) with hhead
  have hfields := header_fields hquery.id_lt hflags (c := 1) (by omega) (d := encoded.length)
    (by omega) (e := 0) (by omega) hopt
  have hbuilt : message = head ++ query.question ++
      encoded.flatMap (answerRecord query.type ttlSeconds) ++ if withOpt then optRecord else [] :=
    rfl
  obtain ⟨⟨answers, additional, hwalk, halike, hopts, hnone⟩, hechoes⟩ :=
    walk_answer hquery query.type ttlSeconds hcount hlengths withOpt head (by simp [hhead])
      fun rest => ⟨(hfields rest).2.2.1, (hfields rest).2.2.2.1, (hfields rest).2.2.2.2.1,
        (hfields rest).2.2.2.2.2⟩
  have hrest := hfields (query.question ++
    encoded.flatMap (answerRecord query.type ttlSeconds) ++ if withOpt then optRecord else [])
  rw [← hhead, ← List.append_assoc, ← List.append_assoc, ← hbuilt] at hrest
  refine ⟨hrest.1, hrest.2.1, hrest.2.2.2.1, hechoes, answers, additional, hwalk, halike, hopts,
    hnone.trans ?_⟩
  simp [hwithOpt]

/-- A hand-built answer carries the question and the id, and fits any limit. -/
theorem buildResponse_carries (pton : InetPton) {query : Query} (hquery : Asked query)
    (addresses : List Bytes) (ttlSeconds : ℕ) (failed : Bool) (rcode : ℕ) :
    Carries query (buildResponse pton query addresses ttlSeconds failed rcode) ∧
      be16 (memory (buildResponse pton query addresses ttlSeconds failed rcode)) 0 = query.id := by
  obtain ⟨hid, hflags, -, hechoes, answers, additional, hwalk, -⟩ :=
    buildResponse_reads pton hquery addresses ttlSeconds failed rcode
  refine ⟨⟨?_, hechoes, ?_⟩, hid⟩
  · rw [hflags]
    exact (replyFlags_facts 0 _ _).2
  · rw [hwalk]
    rfl

end Dns

end SplitHello
