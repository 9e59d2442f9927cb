import SplitHello.Dns.Reply

/-!
# Time and TTLs

To age a message is to age the TTL of every record but OPT, and nothing else; the walk does
not see the difference. So ages add up: a message that is aged twice is the message that is
aged once by the sum.
-/

namespace SplitHello

namespace Dns

open ByteString

/-! ## One TTL -/

@[simp] theorem agedTtl_zero (ageSeconds : ℕ) : agedTtl 0 ageSeconds = 0 := by
  simp [agedTtl]

theorem agedTtl_pos {ttl : ℕ} (h : 0 < ttl) (ageSeconds : ℕ) : 0 < agedTtl ttl ageSeconds := by
  rw [agedTtl]
  split
  · omega
  · exact Nat.one_pos

theorem agedTtl_agedTtl (ttl a b : ℕ) : agedTtl (agedTtl ttl a) b = agedTtl ttl (a + b) := by
  rcases Nat.eq_zero_or_pos ttl with rfl | hpos
  · simp
  · by_cases hyoung : ttl > a
    · have hfirst : agedTtl ttl a = ttl - a := if_pos hyoung
      rw [hfirst, agedTtl, agedTtl]
      by_cases hsum : ttl > a + b
      · rw [if_pos (by omega), if_pos hsum]
        omega
      · rw [if_neg (by omega), if_neg hsum, if_pos (by omega), if_pos hpos]
    -- What has reached the floor stays there.
    · have hfirst : agedTtl ttl a = 1 := by rw [agedTtl, if_neg hyoung, if_pos hpos]
      rw [hfirst, agedTtl, agedTtl, if_neg (show ¬ ttl > a + b by omega), if_pos hpos]
      by_cases hzero : 1 > b
      · rw [if_pos hzero]
        omega
      · rw [if_neg hzero, if_pos Nat.one_pos]

/-! ## A message -/

/-- The message after its TTLs were changed by `f`: nothing else differs. -/
structure Retimed (f : ℕ → ℕ) (records : List RecordRef) (message message' : Bytes) : Prop where
  length_eq : message'.length = message.length
  outside : ∀ i, Outside (timed records) i → memory message' i = memory message i
  ttl : ∀ r ∈ timed records,
    be32 (memory message') r.ttlOffset = f (be32 (memory message) r.ttlOffset)

namespace Retimed

variable {f g : ℕ → ℕ} {records : List RecordRef} {message message' message'' : Bytes}

theorem walk (h : Retimed f records message message') {questionEnd : ℕ}
    (hwalk : Dns.walk (memory message) message.length = some (questionEnd, records)) :
    Dns.walk (memory message') message'.length = some (questionEnd, records) := by
  rw [h.length_eq]
  exact walk_congr hwalk fun i _ hout => (h.outside i (hout.filter _)).symm

theorem trans (h : Retimed f records message message')
    (h' : Retimed g records message' message'') : Retimed (g ∘ f) records message message'' where
  length_eq := h'.length_eq.trans h.length_eq
  outside i hi := (h'.outside i hi).trans (h.outside i hi)
  ttl r hr := by rw [h'.ttl r hr, h.ttl r hr, Function.comp_apply]

/-- There is only one such message. -/
theorem unique (h : Retimed f records message message') (h' : Retimed f records message message'') :
    message' = message'' := by
  refine eq_of_memory_eq (h.length_eq.trans h'.length_eq.symm) fun i => ?_
  by_cases hout : Outside (timed records) i
  · rw [h.outside i hout, h'.outside i hout]
  · rw [Outside] at hout
    simp only [not_forall, not_or] at hout
    obtain ⟨r, hr, hle, hlt⟩ := hout
    obtain ⟨k, rfl⟩ := Nat.exists_eq_add_of_le (Nat.not_lt.1 hle)
    exact memory_eq_of_be32_eq ((h.ttl r hr).trans (h'.ttl r hr).symm) (by omega)

end Retimed

theorem ageTtls_retimed {message : Bytes} {questionEnd : ℕ} {records : List RecordRef}
    (hwalk : walk (memory message) message.length = some (questionEnd, records))
    (ageSeconds : ℕ) :
    Retimed (fun ttl => agedTtl ttl ageSeconds) records message (ageTtls message ageSeconds) := by
  obtain ⟨-, -, hrecords⟩ := walk_bounds hwalk
  have haged : ageTtls message ageSeconds = records.foldl (ageRecord ageSeconds) message := by
    rw [ageTtls, hwalk]
  obtain ⟨hlength, hm, httl⟩ := foldl_ageRecord ageSeconds message records
    (fun r hr => (hrecords r hr).2) (walk_sorted hwalk)
  rw [haged]
  refine ⟨hlength, fun i hi => (hm i hi).symm, fun r hr => ?_⟩
  obtain ⟨hmem, htimed⟩ := List.mem_filter.1 hr
  exact httl r hmem (by simpa using htimed)

/-- Ages add up. -/
theorem ageTtls_ageTtls (message : Bytes) (a b : ℕ) :
    ageTtls (ageTtls message a) b = ageTtls message (a + b) := by
  cases hwalk : walk (memory message) message.length with
  | none =>
      have hsame : ∀ c, ageTtls message c = message := fun c => by rw [ageTtls, hwalk]
      rw [hsame a, hsame b, hsame]
  | some walked =>
      obtain ⟨questionEnd, records⟩ := walked
      have hfirst := ageTtls_retimed hwalk a
      have hboth := hfirst.trans (ageTtls_retimed (hfirst.walk hwalk) b)
      refine Retimed.unique hboth ?_
      have hcompose : (fun ttl => agedTtl ttl b) ∘ (fun ttl => agedTtl ttl a) =
          fun ttl => agedTtl ttl (a + b) := by
        funext ttl
        exact agedTtl_agedTtl ttl a b
      rw [hcompose]
      exact ageTtls_retimed hwalk (a + b)

/-- Ageing leaves a malformed message alone. Of a well-formed one it changes only TTLs of
records that are no OPT, none of them up or to zero, and what is aged twice is aged once by the
sum. -/
theorem ageTtls_action (message : Bytes) (a b : ℕ) :
    (walk (memory message) message.length = none → ageTtls message a = message) ∧
    (∀ questionEnd records,
      walk (memory message) message.length = some (questionEnd, records) →
        walk (memory (ageTtls message a)) (ageTtls message a).length =
          some (questionEnd, records) ∧
        (ageTtls message a).length = message.length ∧
        (∀ i, Outside (timed records) i → memory (ageTtls message a) i = memory message i) ∧
        ∀ r ∈ timed records,
          be32 (memory (ageTtls message a)) r.ttlOffset ≤ be32 (memory message) r.ttlOffset ∧
          (0 < be32 (memory message) r.ttlOffset →
            0 < be32 (memory (ageTtls message a)) r.ttlOffset)) ∧
    ageTtls (ageTtls message a) b = ageTtls message (a + b) := by
  refine ⟨fun hwalk => by rw [ageTtls, hwalk], fun questionEnd records hwalk => ?_,
    ageTtls_ageTtls message a b⟩
  have hretimed := ageTtls_retimed hwalk a
  refine ⟨hretimed.walk hwalk, hretimed.length_eq, hretimed.outside, fun r hr => ?_⟩
  rw [hretimed.ttl r hr]
  exact ⟨agedTtl_le _ a, fun hpos => agedTtl_pos hpos a⟩

end Dns

end SplitHello
