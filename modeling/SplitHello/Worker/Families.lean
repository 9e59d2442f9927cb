import SplitHello.Worker.Resolve

/-!
# One family may fail

The Worker's two lookups of a name end separately, and its one answer tells the
client of both: by the HTTP status when both failed, by `partial` when one did, and
by `rcode` when there is no address at all. The client keeps that in one cache entry
for both families. Here the way from the upstream answers to the reply an application
gets is put together, for the call that asked the Worker and for every later one that
the entry answers.
-/

namespace SplitHello

namespace Worker

open ByteString KeyedTable Dns

/-! ## What a reply says -/

/-- A reply with this code and exactly these addresses, and nothing else but an OPT
record. -/
structure Reports (query : Query) (rcode : ℕ) (addresses : List Bytes) (reply : Bytes) :
    Prop where
  code : be16 (memory reply) 2 % 16 = rcode
  count : be16 (memory reply) 6 = addresses.length
  answers : ∃ ttlSeconds, reply.drop (headerSize + query.question.length) =
    addresses.flatMap (answerRecord query.type ttlSeconds) ++
      if query.ednsPayload ≠ 0 then optRecord else []

theorem length_flatMap_answerRecord_le (type ttlSeconds : ℕ) {addresses : List Bytes}
    (h : ∀ a ∈ addresses, a.length ≤ 16) :
    (addresses.flatMap (answerRecord type ttlSeconds)).length ≤ 28 * addresses.length := by
  induction addresses with
  | nil => simp
  | cons a addresses ih =>
      have hhead := h a (by simp)
      have hrest := ih fun b hb => h b (List.mem_cons_of_mem a hb)
      have hrecord := length_answerRecord type ttlSeconds a
      simp only [List.flatMap_cons, List.length_append, List.length_cons]
      omega

section

variable (pton : InetPton) (query : Query)

/-- The addresses of a hand-built reply. -/
theorem buildResponse_reports {query : Query} (hquery : Asked query) (addresses : List Bytes)
    (ttlSeconds : ℕ) (failed : Bool) (rcode : ℕ) {code : ℕ} (hlt : code < 16)
    (hcode : (if failed && rcode = 0 then rcodeServFail else rcode) = code) :
    Reports query code (if code = 0 then encodedAddresses pton query.type addresses else [])
        (buildResponse pton query addresses ttlSeconds failed rcode) ∧
      (buildResponse pton query addresses ttlSeconds failed rcode).length ≤ classicUdpPayload := by
  set encoded := if code = 0 then encodedAddresses pton query.type addresses else []
    with hencoded
  have hfacts : encoded.length ≤ 8 ∧ ∀ a ∈ encoded, a.length ≤ 16 := by
    rw [hencoded]
    split
    · exact encodedAddresses_facts pton query.type addresses
    · simp
  have hflags := (replyFlags_facts 0 code query.recursionDesired).1
  set head := put16 query.id ++ put16 (replyFlags 0 query.recursionDesired code) ++
    put16 1 ++ put16 encoded.length ++ put16 0 ++
    put16 (if decide (query.ednsPayload ≠ 0) then 1 else 0) with hhead
  set opt : Bytes := if query.ednsPayload ≠ 0 then optRecord else [] with hopt
  have hbuilt : buildResponse pton query addresses ttlSeconds failed rcode =
      head ++ (query.question ++ encoded.flatMap (answerRecord query.type ttlSeconds) ++ opt) := by
    rw [buildResponse, hcode, hhead, hopt]
    simp [hencoded]
  have hheadLength : head.length = 12 := by simp [hhead]
  have hfields := header_fields hquery.id_lt hflags (c := 1) (by omega) (d := encoded.length)
    (by omega) (e := 0) (by omega) (f := if decide (query.ednsPayload ≠ 0) then 1 else 0)
    (by split <;> omega)
    (query.question ++ encoded.flatMap (answerRecord query.type ttlSeconds) ++ opt)
  rw [← hhead, ← hbuilt] at hfields
  obtain ⟨-, h₂, -, h₆, -, -⟩ := hfields
  constructor
  · refine ⟨?_, h₆, ttlSeconds, ?_⟩
    · rw [h₂, replyFlags]
      split <;> omega
    · have hheader : headerSize = head.length := by rw [hheadLength]; rfl
      rw [← hopt, hbuilt, hheader, ← List.length_append]
      simp
  · have hquestion := hquery.question_length
    have hrecords := length_flatMap_answerRecord_le query.type ttlSeconds hfacts.2
    have hoptLength : opt.length ≤ 11 := by
      rw [hopt]
      split <;> decide
    have hclassic : classicUdpPayload = 512 := rfl
    rw [hbuilt]
    simp only [List.length_append, hheadLength]
    omega

theorem finish_of_fits {response : Bytes} (hne : response ≠ [])
    (hlength : response.length ≤ classicUdpPayload) :
    finish pton query response = .replied response response := by
  rw [finish, if_neg hne, truncateForUdp, if_pos (Or.inl (le_max_of_le_left hlength))]

/-- A hand-built reply is short enough to leave as it is. -/
theorem finish_buildResponse {query : Query} (hquery : Asked query) (addresses : List Bytes)
    (ttlSeconds : ℕ) {rcode : ℕ} (hlt : rcode < 16) :
    ∃ reply, finish pton query (buildResponse pton query addresses ttlSeconds false rcode) =
        .replied reply reply ∧
      Reports query rcode
        (if rcode = 0 then encodedAddresses pton query.type addresses else []) reply := by
  obtain ⟨hreports, hlength⟩ :=
    buildResponse_reports pton hquery addresses ttlSeconds false rcode hlt rfl
  have hcarries := (buildResponse_carries pton hquery addresses ttlSeconds false rcode).1
  exact ⟨_, finish_of_fits pton query (hcarries.ne_nil hquery) hlength, hreports⟩

theorem finish_nil {query : Query} (hquery : Asked query) :
    ∃ reply, finish pton query [] = .replied reply reply ∧
      Reports query rcodeServFail [] reply := by
  have hlt : rcodeServFail < 16 := by decide
  obtain ⟨hreports, hlength⟩ := buildResponse_reports pton hquery [] 60 true 0 hlt rfl
  have hcarries := (buildResponse_carries pton hquery [] 60 true 0).1
  refine ⟨_, ?_, hreports⟩
  have hfits := finish_of_fits pton query (hcarries.ne_nil hquery) hlength
  rw [finish, if_neg (hcarries.ne_nil hquery)] at hfits
  rw [finish, if_pos rfl]
  exact hfits

end

/-! ## What the client reads -/

/-- A lookup that errored has no addresses. -/
theorem queryDoh_errored {isPublicAddress : Bytes → ℕ → Bool} {recordType : RecordType}
    {upstream : Option DohResponse}
    (h : (queryDoh isPublicAddress recordType upstream).errored = true) :
    (queryDoh isPublicAddress recordType upstream).addresses = [] := by
  revert h
  unfold queryDoh
  dsimp only
  repeat' split
  all_goals first | exact fun _ => rfl | exact fun h => absurd h Bool.false_ne_true

/-- The addresses of a completed lookup are literals of their family. -/
def Literals (read : Bytes → Option Bytes) (addresses : List Bytes) : Prop :=
  ∀ address ∈ addresses, address ≠ [] ∧ (read address).isSome

theorem Literals.filter_isIpLiteral {pton : InetPton} {read : Bytes → Option Bytes}
    {addresses : List Bytes} (h : Literals read addresses)
    (hread : read = pton.v4 ∨ read = pton.v6) :
    addresses.filter (isIpLiteral pton) = addresses := by
  refine List.filter_eq_self.2 fun address haddress => ?_
  obtain ⟨hne, hsome⟩ := h address haddress
  rcases hread with rfl | rfl <;> simp [isIpLiteral, hne, hsome]

/-- A result that says of two lookups what the Worker can tell the client. -/
structure Tells (result : Result) (v4 v6 : FamilyLookup) : Prop where
  v4_eq : result.v4 = v4.addresses
  v6_eq : result.v6 = v6.addresses
  transient_eq : result.transient = (v4.errored != v6.errored)
  rcode_eq : result.rcode = if 0 ≤ (resolveHost v4 v6).rcode
    then (min (resolveHost v4 v6).rcode 15).toNat else 0
  fallback_eq : result.allowWireFallback =
    ((resolveHost v4 v6).rcode < 0 && v4.addresses.isEmpty && v6.addresses.isEmpty)

section

variable {isPublicAddress : Bytes → ℕ → Bool} {pton : InetPton} {key : Bytes}
  {a aaaa : Option DohResponse} {response : HttpResponse}

/-- Both families failed: there is nothing to tell. -/
theorem readAnswer_of_failed (hvalid : isValidHostname key = true)
    (hdelivered : Delivered (handleResolve isPublicAddress (some key) a aaaa) response)
    (h₄ : (queryDoh isPublicAddress .a a).errored = true)
    (h₆ : (queryDoh isPublicAddress .aaaa aaaa).errored = true) :
    readAnswer pton response = { transient := true } := by
  have hfailed : (resolveHost (queryDoh isPublicAddress .a a)
      (queryDoh isPublicAddress .aaaa aaaa)).failed = true := by
    rw [resolveHost, h₄, h₆]
    rfl
  rw [handleResolve_of_valid isPublicAddress hvalid] at hdelivered
  dsimp only at hdelivered
  rw [if_pos hfailed] at hdelivered
  have hstatus : response.status = 502 := hdelivered.1
  simp [readAnswer, HttpResponse.ok, hstatus]

/-- At least one family completed. -/
theorem readAnswer_tells (hvalid : isValidHostname key = true)
    (hdelivered : Delivered (handleResolve isPublicAddress (some key) a aaaa) response)
    (hliterals₄ : Literals pton.v4 (queryDoh isPublicAddress .a a).addresses)
    (hliterals₆ : Literals pton.v6 (queryDoh isPublicAddress .aaaa aaaa).addresses)
    (hsome : ((queryDoh isPublicAddress .a a).errored &&
      (queryDoh isPublicAddress .aaaa aaaa).errored) = false) :
    Tells (readAnswer pton response) (queryDoh isPublicAddress .a a)
      (queryDoh isPublicAddress .aaaa aaaa) := by
  set v4 := queryDoh isPublicAddress .a a with hv4
  set v6 := queryDoh isPublicAddress .aaaa aaaa with hv6
  have hfailed : ¬ (resolveHost v4 v6).failed = true := by
    rw [resolveHost]
    simpa using hsome
  rw [handleResolve_of_valid isPublicAddress hvalid] at hdelivered
  dsimp only at hdelivered
  rw [if_neg hfailed] at hdelivered
  obtain ⟨hstatus, ha, haaaa, hip, httl, hrcode, hpartly⟩ := hdelivered
  have hstatus : response.status = 200 := hstatus
  rw [← hv4, ← hv6] at ha haaaa hrcode hpartly
  have ha : Json.getStringArray response.body (ofString "a") = v4.addresses := ha
  have haaaa : Json.getStringArray response.body (ofString "aaaa") = v6.addresses := haaaa
  have hpartly : Json.getBool response.body (ofString "partial") = (v4.errored != v6.errored) :=
    hpartly
  have hfilter₄ := hliterals₄.filter_isIpLiteral (Or.inl rfl)
  have hfilter₆ := hliterals₆.filter_isIpLiteral (Or.inr rfl)
  constructor <;>
    simp [readAnswer, hstatus, HttpResponse.ok, ha, haaaa, hip, hrcode, hpartly, hfilter₄, hfilter₆]

end

/-! ## From the upstream answers to the reply -/

/-- The phase that a query ends its lookup in when the Worker's response answers it: the
call made the request itself, or it finds the entry that another call made of the
response and that has not expired. The resolvers are whatever other calls have left. -/
inductive AnsweredFrom (pton : InetPton) (key : Bytes) (response : HttpResponse)
    (query : Query) : Phase → Prop
  | fresh (c : Call) (r r' : Resolver) (input input' : Input)
      (hasks : c.phase = .ask (.name key (some query)))
      (hresponse : input.response = some response) :
      AnsweredFrom pton key response query
        (Call.step pton { c with phase := (c.step pton r input).2 } r' input').2
  | cached (c : Call) (asker : Option Query) (r r' : Resolver) (input input' : Input)
      (hasks : c.phase = .ask (.name key asker)) (hresponse : input.response = some response)
      (e : Entry)
      (hkept : (Call.step pton { c with phase := (c.step pton r input).2 } r' input').1.cache.lookup
        key = some e)
      (later : Call) (s : Resolver) (input'' : Input)
      (hresolves : later.phase = .resolve key (some query))
      (hlives : s.cache.lookup key = some e) (hexpires : input''.nowMs < e.expiresAtMs) :
      AnsweredFrom pton key response query (later.step pton s input'').2

theorem step_ask {pton : InetPton} {c : Call} {key : Bytes} {asker : Option Query} {input : Input}
    {response : HttpResponse} (r : Resolver) (hasks : c.phase = .ask (.name key asker))
    (hresponse : input.response = some response) :
    (c.step pton r input).2 = .keep key asker (readAnswer pton response) := by
  rw [Call.step, hasks]
  dsimp only
  rw [hresponse]

/-- Either way the reply is made from what was read, with some lifetime. -/
theorem AnsweredFrom.eq_answer {pton : InetPton} {key : Bytes} {response : HttpResponse}
    {query : Query} {phase : Phase} (hkey : key ≠ []) (hname : isIpLiteral pton key = false)
    (h : AnsweredFrom pton key response query phase) :
    ∃ ttlSeconds, phase = answer pton query { readAnswer pton response with ttlSeconds } := by
  cases h with
  | fresh c r r' input input' hasks hresponse =>
      refine ⟨(readAnswer pton response).ttlSeconds, ?_⟩
      rw [step_ask r hasks hresponse]
      rfl
  | cached c asker r r' input input' hasks hresponse e hkept later s input'' hresolves hlives
      hexpires =>
      rw [step_ask r hasks hresponse] at hkept
      have hentry : e.result = readAnswer pton response := by
        obtain ⟨expiresAtMs, hinserted⟩ : ∃ expiresAtMs, (Call.step pton
            { c with phase := .keep key asker (readAnswer pton response) } r' input').1.cache.lookup
              key = some ⟨readAnswer pton response, expiresAtMs⟩ :=
          ⟨_, AList.lookup_insert _⟩
        rw [hinserted] at hkept
        rw [← Option.some.inj hkept]
      have hfilter : (s.cache.lookup key).filter (fun e => decide (input''.nowMs < e.expiresAtMs)) =
          some e := by
        rw [hlives, Option.filter_some, decide_eq_true hexpires]
        rfl
      have hlookup : s.resolveStart pton key input''.nowMs =
          (.settled (agedResult e.result e.expiresAtMs input''.nowMs), s) := by
        rw [Resolver.resolveStart, hname, Resolver.lookup, hfilter]
        simp [hkey]
      have hstep : (later.step pton s input'').2 =
          answer pton query (agedResult e.result e.expiresAtMs input''.nowMs) := by
        rw [Call.step, hresolves]
        dsimp only
        rw [hlookup]
        rfl
      rw [hstep, hentry, agedResult]
      split
      · exact ⟨_, rfl⟩
      · exact ⟨_, rfl⟩

/-- The lookup of the family a query asks for, and how its addresses are read. -/
def FamilyLookup.asked (query : Query) (v4 v6 : FamilyLookup) : FamilyLookup :=
  if query.type = typeA then v4 else v6

def readAs (pton : InetPton) (query : Query) : Bytes → Option Bytes :=
  if query.type = typeA then pton.v4 else pton.v6

/-- There is no address, and the status that stands for the name is no response code. -/
def NoVerdict (v4 v6 : FamilyLookup) : Prop :=
  v4.addresses = [] ∧ v6.addresses = [] ∧ (resolveHost v4 v6).rcode < 0

/-- What an application may be told about a name whose lookups ended like this. -/
structure Honest (pton : InetPton) (v4 v6 : FamilyLookup) (query : Query) (phase : Phase) :
    Prop where
  /-- Without a verdict the query goes to the upstream resolver as it is. -/
  relayed : NoVerdict v4 v6 → phase = .relay query
  failed : ¬ NoVerdict v4 v6 → (FamilyLookup.asked query v4 v6).errored = true →
    ∃ reply, phase = .replied reply reply ∧ Reports query rcodeServFail [] reply
  completed : ¬ NoVerdict v4 v6 → v4.errored = false → v6.errored = false →
    ∃ reply, phase = .replied reply reply ∧
      Reports query
        (if v4.addresses = [] ∧ v6.addresses = [] then (min v4.status 15).toNat else 0)
        (((FamilyLookup.asked query v4 v6).addresses.filterMap (readAs pton query)).take maxAnswers)
        reply

theorem encodedAddresses_of_type {pton : InetPton} {query : Query}
    (htype : query.type = typeA ∨ query.type = typeAaaa) (addresses : List Bytes) :
    encodedAddresses pton query.type addresses =
      (addresses.filterMap (readAs pton query)).take maxAnswers := by
  rcases htype with htype | htype
  · rw [encodedAddresses, readAs, if_pos htype, if_pos htype]
  · have hne : ¬ query.type = typeA := by
      rw [htype]
      decide
    rw [encodedAddresses, readAs, if_neg hne, if_neg hne, if_pos htype]

theorem encodedAddresses_nil (pton : InetPton) (type : ℕ) : encodedAddresses pton type [] = [] := by
  simp [encodedAddresses]

/-- When only one family errored, it is the other one that has the addresses. -/
theorem asked_errored {v4 v6 : FamilyLookup} {query : Query}
    (herrored₄ : v4.errored = true → v4.addresses = [])
    (herrored₆ : v6.errored = true → v6.addresses = [])
    (hsome : (v4.errored && v6.errored) = false)
    (h : (FamilyLookup.asked query v4 v6).errored = true) :
    (FamilyLookup.asked query v4 v6).addresses = [] ∧ (v4.errored != v6.errored) = true := by
  rw [FamilyLookup.asked] at h ⊢
  split at h
  · rename_i hA
    rw [h, Bool.true_and] at hsome
    rw [if_pos hA, h, hsome]
    exact ⟨herrored₄ h, rfl⟩
  · rename_i hA
    rw [h, Bool.and_true] at hsome
    rw [if_neg hA, h, hsome]
    exact ⟨herrored₆ h, rfl⟩

namespace Tells

variable {pton : InetPton} {v4 v6 : FamilyLookup} {query : Query} {result : Result}

theorem empty_eq (h : Tells result v4 v6) :
    result.empty = (v4.addresses.isEmpty && v6.addresses.isEmpty) := by
  rw [Result.empty, h.v4_eq, h.v6_eq]

theorem addresses_eq (h : Tells result v4 v6) (query : Query) :
    (if query.type = typeA then result.v4 else result.v6) =
      (FamilyLookup.asked query v4 v6).addresses := by
  rw [FamilyLookup.asked, h.v4_eq, h.v6_eq]
  split <;> rfl

/-- The client goes to the wire path exactly when it has heard no verdict. -/
theorem fallback_iff (h : Tells result v4 v6) :
    result.allowWireFallback = true ↔ NoVerdict v4 v6 := by
  rw [h.fallback_eq, NoVerdict]
  simp only [Bool.and_eq_true, decide_eq_true_eq, List.isEmpty_iff]
  tauto

theorem fallback_eq_false (h : Tells result v4 v6) (hno : ¬ NoVerdict v4 v6) :
    result.allowWireFallback = false := by
  rw [Bool.eq_false_iff]
  exact fun hfallback => hno (h.fallback_iff.1 hfallback)

theorem transient_eq_false (h : Tells result v4 v6) (h₄ : v4.errored = false)
    (h₆ : v6.errored = false) : result.transient = false := by
  rw [h.transient_eq, h₄, h₆]
  rfl

theorem answer_of_noVerdict (h : Tells result v4 v6) (hno : NoVerdict v4 v6) :
    answer pton query result = .relay query := by
  have hempty : result.empty = true := by
    rw [h.empty_eq, hno.1, hno.2.1]
    rfl
  rw [answer]
  simp [hempty, h.fallback_iff.2 hno]

/-- The family that was asked for errored, the other one did not. -/
theorem answer_of_errored (h : Tells result v4 v6) (hquery : Asked query)
    (hno : ¬ NoVerdict v4 v6) (hnothing : (FamilyLookup.asked query v4 v6).addresses = [])
    (hpartly : (v4.errored != v6.errored) = true) :
    ∃ reply, answer pton query result = .replied reply reply ∧
      Reports query rcodeServFail [] reply := by
  rw [← h.transient_eq] at hpartly
  rw [answer, h.addresses_eq]
  have hfinish := finish_nil pton hquery
  simpa [hnothing, hpartly, h.fallback_eq_false hno] using hfinish

/-- Both families completed without an address: the status of the A lookup is told. -/
theorem answer_of_nothing (h : Tells result v4 v6) (hquery : Asked query)
    (hno : ¬ NoVerdict v4 v6) (h₄ : v4.errored = false) (h₆ : v6.errored = false)
    (hnothing : v4.addresses = [] ∧ v6.addresses = []) :
    ∃ reply, answer pton query result = .replied reply reply ∧
      Reports query (min v4.status 15).toNat [] reply := by
  have hstatus : (resolveHost v4 v6).rcode = v4.status := by
    simp [resolveHost, hnothing.1, hnothing.2, h₄]
  have hvalid : 0 ≤ v4.status := by
    by_contra hneg
    exact hno ⟨hnothing.1, hnothing.2, by omega⟩
  have hcode : result.rcode = (min v4.status 15).toNat := by
    rw [h.rcode_eq, hstatus, if_pos hvalid]
  have hempty : result.empty = true := by
    rw [h.empty_eq, hnothing.1, hnothing.2]
    rfl
  have hlt : (min v4.status 15).toNat < 16 := by omega
  have hfinish := finish_buildResponse pton hquery []
    (if result.ttlSeconds = 0 then 60 else result.ttlSeconds) hlt
  rw [encodedAddresses_nil, ite_self] at hfinish
  rw [answer, hempty, h.transient_eq_false h₄ h₆, h.fallback_eq_false hno, hcode]
  simpa using hfinish

/-- Both families completed, and one of them has an address. -/
theorem answer_of_some (h : Tells result v4 v6) (hquery : Asked query)
    (h₄ : v4.errored = false) (h₆ : v6.errored = false)
    (hsome : ¬ (v4.addresses = [] ∧ v6.addresses = [])) :
    ∃ reply, answer pton query result = .replied reply reply ∧
      Reports query 0
        (encodedAddresses pton query.type (FamilyLookup.asked query v4 v6).addresses) reply := by
  have hany : result.empty = false := by
    rw [h.empty_eq, Bool.eq_false_iff]
    simpa using hsome
  have hfinish := finish_buildResponse pton hquery (FamilyLookup.asked query v4 v6).addresses
    (if result.ttlSeconds = 0 then 60 else result.ttlSeconds) (Nat.zero_lt_succ 15)
  rw [answer, h.addresses_eq, hany, h.transient_eq_false h₄ h₆]
  simpa using hfinish

/-- What `buildReply` makes of such a result. -/
theorem honest (h : Tells result v4 v6) (hquery : Asked query)
    (htype : query.type = typeA ∨ query.type = typeAaaa)
    (herrored₄ : v4.errored = true → v4.addresses = [])
    (herrored₆ : v6.errored = true → v6.addresses = [])
    (hsome : (v4.errored && v6.errored) = false) :
    Honest pton v4 v6 query (answer pton query result) := by
  refine ⟨h.answer_of_noVerdict, ?_, ?_⟩
  · intro hno herrored
    obtain ⟨hnothing, hpartly⟩ := asked_errored herrored₄ herrored₆ hsome herrored
    exact h.answer_of_errored hquery hno hnothing hpartly
  · intro hno h₄ h₆
    rw [← encodedAddresses_of_type htype]
    by_cases hnothing : v4.addresses = [] ∧ v6.addresses = []
    · have hasked : (FamilyLookup.asked query v4 v6).addresses = [] := by
        rw [FamilyLookup.asked]
        split
        · exact hnothing.1
        · exact hnothing.2
      rw [if_pos hnothing, hasked, encodedAddresses_nil]
      exact h.answer_of_nothing hquery hno h₄ h₆ hnothing
    · rw [if_neg hnothing]
      exact h.answer_of_some hquery h₄ h₆ hnothing

end Tells

/-- From the two upstream answers to the reply. -/
theorem familyLookups_reported (isPublicAddress : Bytes → ℕ → Bool) (pton : InetPton)
    (key : Bytes) (a aaaa : Option DohResponse) (response : HttpResponse) (query : Query)
    (phase : Phase) (hvalid : isValidHostname key = true) (hname : isIpLiteral pton key = false)
    (hliterals₄ : Literals pton.v4 (queryDoh isPublicAddress .a a).addresses)
    (hliterals₆ : Literals pton.v6 (queryDoh isPublicAddress .aaaa aaaa).addresses)
    (hdelivered : Delivered (handleResolve isPublicAddress (some key) a aaaa) response)
    (hquery : Asked query) (htype : query.type = typeA ∨ query.type = typeAaaa)
    (hanswered : AnsweredFrom pton key response query phase) :
    Honest pton (queryDoh isPublicAddress .a a) (queryDoh isPublicAddress .aaaa aaaa)
      query phase := by
  have hkey : key ≠ [] := by
    rintro rfl
    simp [isValidHostname] at hvalid
  obtain ⟨ttlSeconds, rfl⟩ := hanswered.eq_answer hkey hname
  set v4 := queryDoh isPublicAddress .a a with hv4
  set v6 := queryDoh isPublicAddress .aaaa aaaa with hv6
  cases hsome : v4.errored && v6.errored with
  | true =>
      obtain ⟨h₄, h₆⟩ := Bool.and_eq_true_iff.1 hsome
      have hanswer : answer pton query { readAnswer pton response with ttlSeconds } =
          finish pton query [] := by
        rw [readAnswer_of_failed hvalid hdelivered h₄ h₆]
        rfl
      have hnone₄ : v4.addresses = [] := queryDoh_errored h₄
      have hnone₆ : v6.addresses = [] := queryDoh_errored h₆
      have hrcode : (resolveHost v4 v6).rcode = 2 := by
        simp [resolveHost, h₄, h₆, hnone₄, hnone₆]
      rw [hanswer]
      refine ⟨?_, fun _ _ => finish_nil pton hquery, fun _ hcompleted => ?_⟩
      · rintro ⟨-, -, hnegative⟩
        omega
      · rw [h₄] at hcompleted
        cases hcompleted
  | false =>
      have htells := readAnswer_tells hvalid hdelivered hliterals₄ hliterals₆ hsome
      -- The lifetime is not among what the result tells.
      have htells : Tells { readAnswer pton response with ttlSeconds } v4 v6 :=
        ⟨htells.v4_eq, htells.v6_eq, htells.transient_eq, htells.rcode_eq, htells.fallback_eq⟩
      exact htells.honest hquery htype queryDoh_errored queryDoh_errored hsome

/-! ## One name -/

def sampleHost : Bytes := ofString "example.com"

/-- An A query for it. -/
def sampleQuestion : Bytes :=
  [0x12, 0x34, 0x01, 0, 0, 1, 0, 0, 0, 0, 0, 0] ++
    [7, 101, 120, 97, 109, 112, 108, 101, 3, 99, 111, 109, 0] ++ [0, 1, 0, 1]

def sampleAsked : Query := (parseQuery (memory sampleQuestion) sampleQuestion.length).1

def samplePton : InetPton where
  v4 := fun text => if text = ofString "93.184.216.34" then some [93, 184, 216, 34] else none
  v6 := fun _ => none
  length_v4 := by
    intro text b h
    split at h
    · rw [← Option.some.inj h]
      rfl
    · cases h
  length_v6 := noLiterals.length_v6

/-- A completed lookup with this status and these addresses. -/
def sampleUpstream (status : ℤ) (addresses : List Bytes) : Option DohResponse :=
  some
    { ok := true
      payload := some
        { status := some status
          answer := some (addresses.map fun data => some ⟨some 1, some data, some 300⟩) } }

def sampleFound : HttpResponse where
  status := 200
  body := ofString ("\x7b\"host\":\"example.com\",\"a\":[\"93.184.216.34\"],\"aaaa\":[]," ++
    "\"ttl\":300,\"rcode\":0\x7d")

def sampleBadVers : HttpResponse where
  status := 200
  body := ofString ("\x7b\"host\":\"example.com\",\"a\":[],\"aaaa\":[],\"ttl\":60," ++
    "\"rcode\":16\x7d")

theorem sampleHost_valid : isValidHostname sampleHost = true := by
  have hlower : lowercase sampleHost = sampleHost := by decide
  have hhost : isResolvableHost (lowercase sampleHost) = true := by decide
  have hvalid := (isValidHostname_lowercase hhost).2 (by decide)
  rwa [hlower] at hvalid

theorem sampleAsked_asked : Asked sampleAsked := by
  have hparse : parseQuery (memory sampleQuestion) sampleQuestion.length = (sampleAsked, true) := by
    decide +kernel
  exact (asked_of_parseQuery hparse).1

theorem sampleFound_delivered :
    Delivered (handleResolve (fun _ _ => true) (some sampleHost)
      (sampleUpstream 0 [ofString "93.184.216.34"]) (sampleUpstream 0 [])) sampleFound := by
  rw [handleResolve_of_valid _ sampleHost_valid]
  refine ⟨rfl, ?_, ?_, ?_, ?_, ?_, ?_⟩ <;> decide +kernel

theorem sampleBadVers_delivered :
    Delivered (handleResolve (fun _ _ => true) (some sampleHost) (sampleUpstream 16 [])
      (sampleUpstream 16 [])) sampleBadVers := by
  rw [handleResolve_of_valid _ sampleHost_valid]
  refine ⟨rfl, ?_, ?_, ?_, ?_, ?_, ?_⟩ <;> decide +kernel

/-- The call that asks the Worker for the name. -/
def sampleCall : Call := ⟨some sampleQuestion, 0, .ask (.name sampleHost (some sampleAsked))⟩

def sampleResolver : Resolver := { workerHost := ofString "w", bootstrapNeeded := false }

/-- The address that was found reaches the application. -/
theorem familyLookups_reported_example_com :
    ∃ reply, AnsweredFrom samplePton sampleHost sampleFound sampleAsked (.replied reply reply) ∧
      Reports sampleAsked 0 [[93, 184, 216, 34]] reply := by
  have hanswered : AnsweredFrom samplePton sampleHost sampleFound sampleAsked _ :=
    .fresh sampleCall sampleResolver sampleResolver { response := some sampleFound } {} rfl rfl
  have hliterals : Literals samplePton.v4 [ofString "93.184.216.34"] := by
    intro address haddress
    rw [List.mem_singleton.1 haddress]
    exact ⟨by decide, by decide⟩
  have hhonest := familyLookups_reported (fun _ _ => true) samplePton sampleHost
    (sampleUpstream 0 [ofString "93.184.216.34"]) (sampleUpstream 0 []) sampleFound sampleAsked _
    sampleHost_valid (by decide) hliterals (fun _ h => nomatch h) sampleFound_delivered
    sampleAsked_asked (Or.inl (by decide +kernel)) hanswered
  obtain ⟨reply, hphase, hreports⟩ :=
    hhonest.completed (fun hno => absurd hno.1 (by decide +kernel)) rfl rfl
  rw [hphase] at hanswered
  exact ⟨reply, hanswered, hreports⟩

/-- A status that has no room in the header of a reply. -/
theorem badVers_reported_as_fifteen :
    queryDoh (fun _ _ => true) .a (sampleUpstream 16 []) = { status := 16, errored := false } ∧
      queryDoh (fun _ _ => true) .aaaa (sampleUpstream 16 []) =
        { status := 16, errored := false } ∧
      Delivered (handleResolve (fun _ _ => true) (some sampleHost) (sampleUpstream 16 [])
        (sampleUpstream 16 [])) sampleBadVers ∧
      ∃ reply, AnsweredFrom noLiterals sampleHost sampleBadVers sampleAsked
          (.replied reply reply) ∧ be16 (memory reply) 2 % 16 = 15 := by
  refine ⟨rfl, rfl, sampleBadVers_delivered, ?_⟩
  have hanswered : AnsweredFrom noLiterals sampleHost sampleBadVers sampleAsked _ :=
    .fresh sampleCall sampleResolver sampleResolver { response := some sampleBadVers } {} rfl rfl
  have hread : readAnswer noLiterals sampleBadVers = { rcode := 15, ttlSeconds := 60 } := by
    decide +kernel
  have hlt : 15 < 16 := by decide
  obtain ⟨reply, hfinish, hreports⟩ := finish_buildResponse noLiterals sampleAsked_asked [] 60 hlt
  have hphase : answer noLiterals sampleAsked { rcode := 15, ttlSeconds := 60 } =
      .replied reply reply := hfinish
  have hstep : (sampleCall.step noLiterals sampleResolver { response := some sampleBadVers }).2 =
      .keep sampleHost (some sampleAsked) (readAnswer noLiterals sampleBadVers) :=
    step_ask sampleResolver rfl rfl
  rw [hstep, hread] at hanswered
  have hkeep : (Call.step noLiterals
      { sampleCall with
        phase := .keep sampleHost (some sampleAsked) { rcode := 15, ttlSeconds := 60 } }
      sampleResolver {}).2 = .replied reply reply := hphase
  rw [hkeep] at hanswered
  exact ⟨reply, hanswered, hreports.code⟩

end Worker

end SplitHello
