import SplitHello.Dns.Walk

/-!
# Replies to a question

`Carries` is what every message that may go back to an application has in common:
it is a response, it repeats the question, and a walk accepts it. Setting the id,
ageing the TTLs and cutting a message to a limit keep it; a hand-built answer has
it from the start.
-/

namespace SplitHello

namespace Dns

open ByteString

/-- A well-formed response that repeats the question of the query. -/
structure Carries (query : Query) (message : Bytes) : Prop where
  response : (be16 (memory message) 2).testBit 15 = true
  echoes : echoesQuestion (memory message) message.length query = true
  wellFormed : (walk (memory message) message.length).isSome

/-- In such a message the question ends where the query's own question ends. -/
theorem Carries.walk {query : Query} {message : Bytes} (h : Carries query message)
    (hquery : Asked query) :
    ∃ records, Dns.walk (memory message) message.length =
        some (headerSize + query.question.length, records) ∧
      headerSize + query.question.length ≤ message.length := by
  obtain ⟨hlength, hcount, hslice⟩ := (echoesQuestion_iff hquery).1 h.echoes
  obtain ⟨⟨questionEnd, records⟩, hwalk⟩ := Option.isSome_iff_exists.1 h.wellFormed
  obtain ⟨_, _, _, -, hw⟩ := walk_eq_some.1 hwalk
  have hend := hw.questions
  rw [hcount, questionsLoop_of_slice hquery hlength hslice] at hend
  cases hend
  exact ⟨records, hwalk, hlength⟩

/-- A message that differs only in its id and in TTLs carries the same question. -/
theorem Carries.congr {query : Query} {message message' : Bytes} {records : List RecordRef}
    {questionEnd : ℕ} (h : Carries query message) (hquery : Asked query)
    (hwalk : Dns.walk (memory message) message.length = some (questionEnd, records))
    (hlength : message'.length = message.length)
    (hm : ∀ i, 2 ≤ i → Outside records i → memory message i = memory message' i) :
    Carries query message' := by
  obtain ⟨records', hwalk', -⟩ := h.walk hquery
  rw [hwalk] at hwalk'
  cases hwalk'
  obtain ⟨hle, hcount, hslice⟩ := (echoesQuestion_iff hquery).1 h.echoes
  obtain ⟨-, -, hrecords⟩ := walk_bounds hwalk
  have hfront : ∀ i, 2 ≤ i → i < headerSize + query.question.length →
      memory message i = memory message' i := by
    intro i hi hi'
    refine hm i hi fun r hr => Or.inl ?_
    have := hrecords r hr
    omega
  have hheader : headerSize = 12 := rfl
  refine ⟨?_, ?_, ?_⟩
  · rw [← be16_congr (hfront 2 (by omega) (by omega)) (hfront 3 (by omega) (by omega))]
    exact h.response
  · rw [echoesQuestion_iff hquery, hlength]
    refine ⟨hle, ?_, ?_⟩
    · rw [← be16_congr (hfront 4 (by omega) (by omega)) (hfront 5 (by omega) (by omega))]
      exact hcount
    · have hsame : slice (memory message') headerSize query.question.length =
          slice (memory message) headerSize query.question.length :=
        slice_congr fun k hk => (hfront _ (by omega) (by omega)).symm
      rw [hsame]
      exact hslice
  · rw [hlength, walk_congr hwalk fun i hi hout => hm i (by omega) hout]
    rfl

theorem setId_carries {query : Query} {message : Bytes} (h : Carries query message)
    (hquery : Asked query) {id : ℕ} (hid : id < 65536) :
    Carries query (setId message id) ∧ be16 (memory (setId message id)) 0 = id := by
  obtain ⟨records, hwalk, hlength⟩ := h.walk hquery
  have hheader : headerSize = 12 := rfl
  have hfits : 0 + (put16 id).length ≤ message.length := by
    simp
    omega
  have hset : setId message id = splice message 0 (put16 id) := if_pos (by omega)
  rw [hset]
  refine ⟨h.congr hquery hwalk (length_splice hfits) ?_, ?_⟩
  · intro i hi _
    rw [memory_splice_of_notMem hfits (by simp; omega)]
  · exact be16_splice_put16 hid (by omega)

/-- The records whose TTL is a lifetime: all but OPT. -/
def timed (records : List RecordRef) : List RecordRef :=
  records.filter fun r => r.type ≠ typeOpt

theorem agedTtl_le (ttl ageSeconds : ℕ) : agedTtl ttl ageSeconds ≤ ttl := by
  rw [agedTtl]
  split
  · exact Nat.sub_le _ _
  · split <;> omega

theorem ageRecord_spec (ageSeconds : ℕ) (message : Bytes) (r : RecordRef)
    (hr : r.ttlOffset + 4 ≤ message.length) :
    (ageRecord ageSeconds message r).length = message.length ∧
      (∀ i, Outside (timed [r]) i → memory message i = memory (ageRecord ageSeconds message r) i) ∧
      (r.type ≠ typeOpt → be32 (memory (ageRecord ageSeconds message r)) r.ttlOffset =
        agedTtl (be32 (memory message) r.ttlOffset) ageSeconds) := by
  rw [ageRecord]
  split
  · rename_i hopt
    exact ⟨rfl, fun _ _ => rfl, fun htimed => absurd hopt htimed⟩
  · rename_i htimed
    refine ⟨length_splice (by simpa using hr), fun i hi => ?_, fun _ => ?_⟩
    · have hout := hi r (by simp [timed, htimed])
      rw [memory_splice_of_notMem (by simpa using hr) (by simpa using hout)]
    · exact be32_splice_put32 (Nat.lt_of_le_of_lt (agedTtl_le _ _) (be32_lt _ _)) hr

/-- Ageing writes TTL fields only, each one once. -/
theorem foldl_ageRecord (ageSeconds : ℕ) (message : Bytes) (records : List RecordRef)
    (hrecords : ∀ r ∈ records, r.ttlOffset + 4 ≤ message.length)
    (hsorted : records.Pairwise fun a b => a.ttlOffset + 4 ≤ b.ttlOffset) :
    (records.foldl (ageRecord ageSeconds) message).length = message.length ∧
      (∀ i, Outside (timed records) i →
        memory message i = memory (records.foldl (ageRecord ageSeconds) message) i) ∧
      ∀ r ∈ records, r.type ≠ typeOpt →
        be32 (memory (records.foldl (ageRecord ageSeconds) message)) r.ttlOffset =
          agedTtl (be32 (memory message) r.ttlOffset) ageSeconds := by
  induction records generalizing message with
  | nil => exact ⟨rfl, fun _ _ => rfl, by simp⟩
  | cons r records ih =>
      obtain ⟨hfirst, hsorted⟩ := List.pairwise_cons.1 hsorted
      obtain ⟨hstepLength, hstep, hstepTtl⟩ := ageRecord_spec ageSeconds message r
        (hrecords r (by simp))
      obtain ⟨hlength, hm, httl⟩ := ih (ageRecord ageSeconds message r)
        (fun r' hr' => by
          rw [hstepLength]
          exact hrecords r' (List.mem_cons_of_mem _ hr')) hsorted
      rw [List.foldl_cons]
      refine ⟨hlength.trans hstepLength, fun i hout => ?_, ?_⟩
      · have hhere : Outside (timed [r]) i := by
          intro r' hr'
          obtain ⟨hmem, htimed⟩ := List.mem_filter.1 hr'
          rw [List.mem_singleton.1 hmem] at htimed ⊢
          exact hout r (List.mem_filter.2 ⟨by simp, htimed⟩)
        rw [hstep i hhere]
        refine hm i fun r' hr' => hout r' ?_
        obtain ⟨hmem, htimed⟩ := List.mem_filter.1 hr'
        exact List.mem_filter.2 ⟨List.mem_cons_of_mem _ hmem, htimed⟩
      · intro r' hr' htimed
        rcases List.mem_cons.1 hr' with rfl | hr'
        · -- The fields behind this one are written later, and they lie elsewhere.
          refine Eq.trans ?_ (hstepTtl htimed)
          refine be32_congr fun k hk => (hm _ fun r hr => Or.inl ?_).symm
          have := hfirst r (List.mem_filter.1 hr).1
          omega
        · have hbefore : be32 (memory (ageRecord ageSeconds message r)) r'.ttlOffset =
              be32 (memory message) r'.ttlOffset := by
            refine be32_congr fun k hk => (hstep _ fun r'' hr'' => Or.inr ?_).symm
            rw [List.mem_singleton.1 (List.mem_filter.1 hr'').1]
            have := hfirst r' hr'
            omega
          rw [httl r' hr' htimed, hbefore]

theorem ageTtls_carries {query : Query} {message : Bytes} (h : Carries query message)
    (hquery : Asked query) (ageSeconds : ℕ) :
    Carries query (ageTtls message ageSeconds) ∧
      be16 (memory (ageTtls message ageSeconds)) 0 = be16 (memory message) 0 := by
  obtain ⟨records, hwalk, hlength⟩ := h.walk hquery
  obtain ⟨hheader, -, hrecords⟩ := walk_bounds hwalk
  have haged : ageTtls message ageSeconds = records.foldl (ageRecord ageSeconds) message := by
    rw [ageTtls, hwalk]
  obtain ⟨hsame, hm, -⟩ := foldl_ageRecord ageSeconds _ records (fun r hr => (hrecords r hr).2)
    (walk_sorted hwalk)
  have hm (i : ℕ) (hout : Outside records i) := hm i (hout.filter _)
  rw [haged]
  refine ⟨h.congr hquery hwalk hsame fun i _ hout => hm i hout, ?_⟩
  have hfirst : ∀ i, i < 2 → Outside records i := by
    intro i hi r hr
    have := hrecords r hr
    simp only [headerSize] at this
    omega
  exact (be16_congr (hm 0 (hfirst 0 (by omega))) (hm 1 (hfirst 1 (by omega)))).symm

/-! ## Cutting to a limit -/

theorem withTc_facts {flags : ℕ} (h : flags < 65536) :
    withTc flags < 65536 ∧ (withTc flags).testBit 9 = true ∧
      (withTc flags).testBit 15 = flags.testBit 15 := by
  simp only [withTc, Nat.testBit_eq_decide_div_mod_eq]
  split
  · rename_i hset
    exact ⟨h, hset, rfl⟩
  · rename_i hclear
    simp only [decide_eq_true_eq] at hclear
    refine ⟨by omega, ?_, ?_⟩
    · simp only [decide_eq_true_eq]
      omega
    · rw [decide_eq_decide]
      omega

/-- A cut message ends behind its question; id, question count and question stay,
the TC bit is set and the record counts are zero. -/
theorem truncated_spec {message : Bytes} {questionEnd : ℕ} {records : List RecordRef}
    (h : walk (memory message) message.length = some (questionEnd, records)) :
    (truncated message).length = questionEnd ∧
      (∀ i, i < 2 ∨ 4 ≤ i ∧ i < 6 ∨ 12 ≤ i → i < questionEnd →
        memory (truncated message) i = memory message i) ∧
      be16 (memory (truncated message)) 2 = withTc (be16 (memory message) 2) ∧
      be16 (memory (truncated message)) 6 = 0 ∧ be16 (memory (truncated message)) 8 = 0 ∧
      be16 (memory (truncated message)) 10 = 0 := by
  obtain ⟨hheader, hend, -⟩ := walk_bounds h
  have hheader : 12 ≤ questionEnd := hheader
  have hkept : (message.take questionEnd).length = questionEnd := by
    simp
    omega
  have hread : ∀ i, i < questionEnd →
      memory (message.take questionEnd) i = memory message i :=
    fun i hi => memory_take message hi
  have hflags : be16 (memory (message.take questionEnd)) 2 = be16 (memory message) 2 :=
    be16_congr (hread 2 (by omega)) (hread 3 (by omega))
  have htc := withTc_facts (be16_lt (memory message) 2)
  have htruncated : truncated message =
      splice (splice (splice (splice (message.take questionEnd) 2
        (put16 (withTc (be16 (memory message) 2)))) 6 (put16 0)) 8 (put16 0)) 10 (put16 0) := by
    rw [truncated, h]
    simp [hflags]
  set b₀ := message.take questionEnd
  set b₁ := splice b₀ 2 (put16 (withTc (be16 (memory message) 2))) with hb₁
  set b₂ := splice b₁ 6 (put16 0) with hb₂
  set b₃ := splice b₂ 8 (put16 0) with hb₃
  have hl₁ : b₁.length = questionEnd := by
    rw [hb₁, length_splice (by simp; omega), hkept]
  have hl₂ : b₂.length = questionEnd := by
    rw [hb₂, length_splice (by simp; omega), hl₁]
  have hl₃ : b₃.length = questionEnd := by
    rw [hb₃, length_splice (by simp; omega), hl₂]
  rw [htruncated]
  refine ⟨?_, ?_, ?_, ?_, ?_, ?_⟩
  · rw [length_splice (by simp; omega), hl₃]
  · intro i hi hlt
    rw [memory_splice_of_notMem (by simp; omega) (by simp; omega), hb₃,
      memory_splice_of_notMem (by simp; omega) (by simp; omega), hb₂,
      memory_splice_of_notMem (by simp; omega) (by simp; omega), hb₁,
      memory_splice_of_notMem (by simp; omega) (by simp; omega), hread i hlt]
  · rw [be16_splice_of_notMem (by simp; omega) (by simp), hb₃,
      be16_splice_of_notMem (by simp; omega) (by simp), hb₂,
      be16_splice_of_notMem (by simp; omega) (by simp), hb₁,
      be16_splice_put16 htc.1 (by omega)]
  · rw [be16_splice_of_notMem (by simp; omega) (by simp), hb₃,
      be16_splice_of_notMem (by simp; omega) (by simp), hb₂,
      be16_splice_put16 (by omega) (by omega)]
  · rw [be16_splice_of_notMem (by simp; omega) (by simp), hb₃,
      be16_splice_put16 (by omega) (by omega)]
  · rw [be16_splice_put16 (by omega) (by omega)]

theorem truncated_carries {query : Query} {message : Bytes} (h : Carries query message)
    (hquery : Asked query) :
    Carries query (truncated message) ∧
      be16 (memory (truncated message)) 0 = be16 (memory message) 0 ∧
      (truncated message).length = headerSize + query.question.length ∧
      (be16 (memory (truncated message)) 2).testBit 9 = true ∧
      be16 (memory (truncated message)) 6 = 0 ∧ be16 (memory (truncated message)) 8 = 0 ∧
      be16 (memory (truncated message)) 10 = 0 := by
  obtain ⟨records, hwalk, hlength⟩ := h.walk hquery
  obtain ⟨hsize, hread, hflags, h₆, h₈, h₁₀⟩ := truncated_spec hwalk
  obtain ⟨-, hcount, hslice⟩ := (echoesQuestion_iff hquery).1 h.echoes
  have hquestion := hquery.question_length
  have hheader : headerSize = 12 := rfl
  have htc := withTc_facts (be16_lt (memory message) 2)
  have hcount' : be16 (memory (truncated message)) 4 = 1 := by
    rw [← hcount]
    exact be16_congr (hread 4 (by omega) (by omega)) (hread 5 (by omega) (by omega))
  have hslice' : lower (slice (memory (truncated message)) headerSize query.question.length) =
      lower query.question := by
    have hsame : slice (memory (truncated message)) headerSize query.question.length =
        slice (memory message) headerSize query.question.length :=
      slice_congr fun k hk => hread _ (by omega) (by omega)
    rw [hsame]
    exact hslice
  refine ⟨⟨?_, ?_, ?_⟩, ?_, hsize, ?_, h₆, h₈, h₁₀⟩
  · rw [hflags, htc.2.2]
    exact h.response
  · rw [echoesQuestion_iff hquery, hsize]
    exact ⟨Nat.le_refl _, hcount', hslice'⟩
  · have hquestions := questionsLoop_of_slice hquery (Nat.le_of_eq hsize.symm) hslice'
    have haccepted : Dns.walk (memory (truncated message)) (truncated message).length =
        some (headerSize + query.question.length, []) := by
      rw [walk_eq_some]
      refine ⟨[], [], [], rfl, by omega, ?_, by rw [hcount']; exact hquestions, ?_⟩
      · rw [hcount', h₆, h₈, h₁₀]
        omega
      · rw [h₆, h₈, h₁₀]
        exact ⟨_, _, _, rfl, rfl, rfl⟩
    rw [haccepted]
    rfl
  · exact be16_congr (hread 0 (by omega) (by omega)) (hread 1 (by omega) (by omega))
  · rw [hflags]
    exact htc.2.1

end Dns

end SplitHello
