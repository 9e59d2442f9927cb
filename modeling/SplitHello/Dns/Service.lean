import SplitHello.Dns.Server
import SplitHello.Json.Written

/-!
# What the DNS server owes its clients

Every entry of the wire cache carries the question of every query with the same key,
because the key determines the question up to letter case. With that, each of the
sources an answer can come from hands `finish` a message that carries the question,
and `finish` keeps it within the limits of the client.
-/

namespace SplitHello

namespace Dns

open ByteString KeyedTable Recovery

/-! ## Keys of the wire cache -/

/-- The flags at the end of a key. -/
def wireFlags (query : Query) : Bytes :=
  ofString (if query.recursionDesired then "|r" else "|-") ++
    ofString (if query.dnssecOk then "d" else "-") ++
    ofString (if query.ednsPayload ≠ 0 then "e" else "-")

theorem wireFlags_inj {query query' : Query} (h : wireFlags query = wireFlags query') :
    query.recursionDesired = query'.recursionDesired ∧ query.dnssecOk = query'.dnssecOk ∧
      (query.ednsPayload ≠ 0 ↔ query'.ednsPayload ≠ 0) := by
  have hflags (d d' k k' e e' : Bool) :
      ofString (if d then "|r" else "|-") ++ ofString (if k then "d" else "-") ++
          ofString (if e then "e" else "-") =
        ofString (if d' then "|r" else "|-") ++ ofString (if k' then "d" else "-") ++
          ofString (if e' then "e" else "-") → d = d' ∧ k = k' ∧ e = e' := by
    revert d d' k k' e e'
    decide
  have hedns (query : Query) : wireFlags query =
      ofString (if query.recursionDesired then "|r" else "|-") ++
        ofString (if query.dnssecOk then "d" else "-") ++
        ofString (if decide (query.ednsPayload ≠ 0) then "e" else "-") := by
    simp [wireFlags]
  rw [hedns, hedns] at h
  obtain ⟨hdesired, hdnssec, hpayload⟩ := hflags _ _ _ _ _ _ h
  exact ⟨hdesired, hdnssec, decide_eq_decide.1 hpayload⟩

/-- The key of a query determines everything that goes into it. -/
theorem wireKey_inj {query query' : Query} (hkey : wireKey query = wireKey query') :
    query.name = query'.name ∧ query.type = query'.type ∧
      query.recursionDesired = query'.recursionDesired ∧ query.dnssecOk = query'.dnssecOk ∧
      (query.ednsPayload ≠ 0 ↔ query'.ednsPayload ≠ 0) := by
  have hparts (query : Query) : wireKey query =
      (query.name ++ 124 :: Json.decimal query.type) ++ wireFlags query := by
    have hbar : ofString "|" = [124] := by decide
    simp [wireKey, wireFlags, hbar]
  have hlength (query : Query) : (wireFlags query).length = 4 := by
    rw [wireFlags]
    repeat' split
    all_goals rfl
  rw [hparts, hparts] at hkey
  obtain ⟨hfront, hflags⟩ := List.append_inj' hkey (by rw [hlength, hlength])
  obtain ⟨hname, htype⟩ :=
    eq_of_append_cons (Json.notMem_decimal rfl query.type) (Json.notMem_decimal rfl query'.type)
      hfront
  refine ⟨hname, ?_, wireFlags_inj hflags⟩
  rw [← Json.digitsValue_decimal query.type, htype, Json.digitsValue_decimal]

/-- A message that carries a question carries every spelling of it. -/
theorem Carries.of_question_eq {query query' : Query} {message : Bytes}
    (h : Carries query message) (hquery : Asked query) (hquery' : Asked query')
    (hsame : lower query.question = lower query'.question) : Carries query' message :=
  ⟨h.response, echoesQuestion_of_question_eq hquery hquery' hsame h.echoes, h.wellFormed⟩

/-! ## Refused queries -/

theorem parseQuery_refused {m : Memory} {length : ℕ} {query : Query}
    (h : parseQuery m length = (query, false)) :
    (length < headerSize ∨ (be16 m 2).testBit 15 = true) ∧ query.error = 0 ∨
      ¬ (length < headerSize ∨ (be16 m 2).testBit 15 = true) ∧ query.id = be16 m 0 ∧
        query.opcode = be16 m 2 / 2048 % 16 ∧
        query.recursionDesired = (be16 m 2).testBit 8 ∧
        (query.error = rcodeFormErr ∨ query.error = rcodeNotImp) := by
  rw [parseQuery] at h
  split at h
  · rename_i hlength
    cases h
    exact Or.inl ⟨Or.inl hlength, rfl⟩
  · rename_i hlength
    dsimp only at h
    split at h
    · rename_i hresponse
      cases h
      exact Or.inl ⟨Or.inr hresponse, rfl⟩
    · rename_i hresponse
      right
      refine ⟨not_or.2 ⟨hlength, hresponse⟩, ?_⟩
      -- Behind the header every refusal keeps id, opcode and RD and names its code.
      repeat' split at h
      all_goals cases h
      · exact ⟨rfl, rfl, rfl, Or.inr rfl⟩
      · exact ⟨rfl, rfl, rfl, Or.inl rfl⟩
      · exact ⟨rfl, rfl, rfl, Or.inl rfl⟩
      · exact ⟨rfl, rfl, rfl, Or.inl rfl⟩
      · exact ⟨rfl, rfl, rfl, Or.inr rfl⟩

theorem buildError_refuses {datagram : Bytes} {query : Query}
    (hid : query.id = be16 (memory datagram) 0)
    (hopcode : query.opcode = be16 (memory datagram) 2 / 2048 % 16)
    (hdesired : query.recursionDesired = (be16 (memory datagram) 2).testBit 8)
    (herror : query.error = rcodeFormErr ∨ query.error = rcodeNotImp) :
    Refuses datagram query.error (buildError query query.error) := by
  have hflags := (replyFlags_facts query.opcode query.error query.recursionDesired).1
  have hcode : query.error < 16 := by
    rcases herror with herror | herror <;> rw [herror] <;> decide
  obtain ⟨h₀, h₂, h₄, h₆, h₈, h₁₀⟩ := header_fields (a := query.id)
    (by rw [hid]; exact be16_lt _ _) hflags (c := 0) (d := 0) (e := 0) (f := 0) (by omega)
    (by omega) (by omega) (by omega) []
  rw [List.append_nil] at h₀ h₂ h₄ h₆ h₈ h₁₀
  refine ⟨by simp [buildError, headerSize], ?_, ?_, ?_, herror⟩
  · rw [buildError, h₀, hid]
  · rw [buildError, h₂, replyFlags, hopcode, hdesired, Nat.mod_eq_of_lt hcode]
    omega
  · intro i hi
    simp only [List.mem_cons, List.not_mem_nil, or_false] at hi
    rcases hi with rfl | rfl | rfl | rfl
    · exact h₄
    · exact h₆
    · exact h₈
    · exact h₁₀

/-! ## The end of a reply -/

theorem Carries.ne_nil {query : Query} {message : Bytes} (h : Carries query message)
    (hquery : Asked query) : message ≠ [] := by
  obtain ⟨-, -, hlength⟩ := h.walk hquery
  have := hquery.question_length
  exact List.ne_nil_of_length_pos (by omega)

/-- Cutting a message that carries the question to the client's limit answers it. -/
theorem answers_truncateForUdp {query : Query} (hquery : Asked query) {whole : Bytes}
    (h : Carries query whole) (hid : be16 (memory whole) 0 = query.id) :
    Answers query whole
      (truncateForUdp whole (max classicUdpPayload query.ednsPayload)).1 := by
  have hquestion := hquery.question_length
  have hclassic : 512 ≤ max classicUdpPayload query.ednsPayload := le_max_left _ _
  have hheader : headerSize = 12 := rfl
  obtain ⟨-, -, hlength⟩ := h.walk hquery
  have questions : ∀ {reply : Bytes}, Carries query reply → be16 (memory reply) 4 = 1 :=
    fun hreply => ((echoesQuestion_iff hquery).1 hreply.echoes).2.1
  have wellFormed : ∀ {reply : Bytes}, Carries query reply →
      (inspectResponse (memory reply) reply.length).isSome := by
    intro reply hreply
    rw [inspectResponse, Option.isSome_map]
    exact hreply.wellFormed
  rw [truncateForUdp]
  split
  · rename_i hfits
    have hfits : whole.length ≤ max classicUdpPayload query.ednsPayload := by omega
    exact ⟨hid, h.response, questions h, h.echoes, wellFormed h, hfits, fun _ => rfl,
      fun hlt => absurd hfits (by omega)⟩
  · rename_i hfits
    obtain ⟨hcarries, hid', hlength', htc, h₆, h₈, h₁₀⟩ := truncated_carries h hquery
    refine ⟨hid'.trans hid, hcarries.response, questions hcarries, hcarries.echoes,
      wellFormed hcarries, by dsimp only; omega, fun hle => absurd (Or.inl hle) hfits,
      fun _ => ⟨htc, ?_⟩⟩
    intro i hi
    simp only [List.mem_cons, List.not_mem_nil, or_false] at hi
    rcases hi with rfl | rfl | rfl
    · exact h₆
    · exact h₈
    · exact h₁₀

/-! ## What a call knows -/

/-- The one who asks: a datagram that parses as the query, or nobody outside. -/
def Asks (datagram : Option Bytes) : Option Query → Prop
  | none => datagram = none
  | some query => ∃ d, datagram = some d ∧ parseQuery (memory d) d.length = (query, true)

/-- A message that `buildReply` may end with. -/
structure Ready (query : Query) (message : Bytes) : Prop where
  carries : Carries query message
  id : be16 (memory message) 0 = query.id

def Errand.asker : Errand → Option Query
  | .name _ asker => asker
  | .wire query => some query

/-- What holds of a call in this phase. -/
def Phase.Sound (datagram : Option Bytes) : Phase → Prop
  | .resolve _ asker | .keep _ asker _ => Asks datagram asker
  | .gate errand | .refresh errand | .refreshed errand _ | .enter errand | .ask errand =>
      Asks datagram errand.asker
  | .relay query => Asks datagram (some query)
  | .keepWire query answer _ => Asks datagram (some query) ∧ Ready query answer
  | .found _ => datagram = none
  | .replied whole reply => ∃ d, datagram = some d ∧ Served d whole reply
  | .thrown => True

theorem Asks.asked {datagram : Option Bytes} {query : Query}
    (h : Asks datagram (some query)) : Asked query := by
  obtain ⟨d, -, hparse⟩ := h
  exact (asked_of_parseQuery hparse).1

theorem foldl_noteTtl_response (m : Memory) (records : List RecordRef) (info : ResponseInfo) :
    (records.foldl (noteTtl m) info).response = info.response := by
  induction records generalizing info with
  | nil => rfl
  | cons record records ih =>
      rw [List.foldl_cons, ih, noteTtl]
      repeat' split
      all_goals rfl

section

variable (pton : InetPton) {datagram : Option Bytes} {query : Query}

theorem buildResponse_ready (hquery : Asked query) (addresses : List Bytes) (ttlSeconds : ℕ)
    (failed : Bool) (rcode : ℕ) :
    Ready query (buildResponse pton query addresses ttlSeconds failed rcode) :=
  ⟨(buildResponse_carries pton hquery addresses ttlSeconds failed rcode).1,
    (buildResponse_carries pton hquery addresses ttlSeconds failed rcode).2⟩

theorem finish_sound (hask : Asks datagram (some query)) {response : Bytes}
    (h : response = [] ∨ Ready query response) :
    (finish pton query response).Sound datagram := by
  have hquery := hask.asked
  obtain ⟨d, hdatagram, hparse⟩ := hask
  obtain ⟨-, hlength, hresponse, -⟩ := asked_of_parseQuery hparse
  set whole := if response = [] then buildResponse pton query [] 60 true 0 else response
    with hwhole
  have hready : Ready query whole := by
    rw [hwhole]
    split
    · exact buildResponse_ready pton hquery _ _ _ _
    · exact h.resolve_left ‹_›
  have hanswers := answers_truncateForUdp hquery hready.carries hready.id
  have hne : (truncateForUdp whole (max classicUdpPayload query.ednsPayload)).1 ≠ [] :=
    Carries.ne_nil ⟨hanswers.response, hanswers.echoes,
      by simpa [inspectResponse] using hanswers.wellFormed⟩ hquery
  refine ⟨d, hdatagram, ?_, ?_, ?_⟩
  · refine ⟨fun hnil => absurd hnil hne, ?_⟩
    rintro (hshort | hbit)
    · omega
    · rw [hresponse] at hbit
      cases hbit
  · intro query' hparse'
    rw [hparse] at hparse'
    cases hparse'
  · intro query' hparse'
    rw [hparse] at hparse'
    cases hparse'
    exact hanswers

theorem answer_sound (hask : Asks datagram (some query)) (result : Result) :
    (answer pton query result).Sound datagram := by
  have hquery := hask.asked
  rw [answer]
  generalize (if query.type = typeA then result.v4 else result.v6) = addresses
  split
  · split
    · exact finish_sound pton hask (Or.inr (buildResponse_ready pton hquery _ _ _ _))
    · exact finish_sound pton hask (Or.inl rfl)
  · split
    · exact hask
    · split
      · exact finish_sound pton hask (Or.inr (buildResponse_ready pton hquery _ _ _ _))
      · exact finish_sound pton hask (Or.inl rfl)

theorem returned_sound {asker : Option Query} (hask : Asks datagram asker) (result : Result) :
    (returned pton asker result).Sound datagram := by
  cases asker with
  | none => exact hask
  | some query => exact answer_sound pton hask result

theorem startQuery_sound {asker : Option Query} (hask : Asks datagram asker) (r : Resolver)
    (key : Bytes) : (startQuery r key asker).Sound datagram := by
  rw [startQuery]
  split
  · exact hask
  · split <;> exact hask

theorem refused_sound {errand : Errand} (hask : Asks datagram errand.asker) :
    (refused pton errand).Sound datagram := by
  cases errand with
  | name key asker => exact hask
  | wire query => exact finish_sound pton hask (Or.inl rfl)

/-- What `queryWire` checks before it uses an answer. -/
theorem readWireAnswer_eq_some {response : HttpResponse} {answer : Bytes} {lifetime : ℕ}
    (h : readWireAnswer query response = some (answer, lifetime)) :
    ∃ info, inspectResponse (memory response.body) response.body.length = some info ∧
      info.response = true ∧
      echoesQuestion (memory response.body) response.body.length query = true ∧
      answer = setId response.body query.id ∧ lifetime = wireLifetimeSeconds info := by
  rw [readWireAnswer] at h
  split at h
  · cases h
  · split at h
    · cases h
    · split at h
      · cases h
      · rename_i info hinfo
        split at h
        · cases h
        · rename_i haccepted
          simp only [Bool.or_eq_true, Bool.not_eq_true', not_or, Bool.not_eq_false] at haccepted
          cases h
          exact ⟨info, hinfo, haccepted.1, haccepted.2, rfl, rfl⟩

/-- What the Worker sends back reaches the client only if it answers the question. -/
theorem readWireAnswer_ready (hquery : Asked query) {response : HttpResponse} {answer : Bytes}
    {lifetime : ℕ} (h : readWireAnswer query response = some (answer, lifetime)) :
    Ready query answer := by
  obtain ⟨info, hinfo, hresponse, hechoes, rfl, -⟩ := readWireAnswer_eq_some h
  obtain ⟨walked, hwalk, rfl⟩ := Option.map_eq_some_iff.1 hinfo
  rw [foldl_noteTtl_response] at hresponse
  have hcarries : Carries query response.body := ⟨hresponse, hechoes, by rw [hwalk]; rfl⟩
  obtain ⟨hset, hid⟩ := setId_carries hcarries hquery hquery.id_lt
  exact ⟨hset, hid⟩

theorem received_sound (hask : Asks datagram (some query)) (response : HttpResponse) :
    (received pton query response).Sound datagram := by
  rw [received]
  split
  · exact finish_sound pton hask (Or.inl rfl)
  · rename_i answer lifetime hanswer
    have hready := readWireAnswer_ready hask.asked hanswer
    split
    · exact finish_sound pton hask (Or.inr hready)
    · exact ⟨hask, hready⟩

end

/-! ## The wire cache -/

/-- Every entry carries the question of every query that finds it. -/
def WireSound (wireCache : Table Bytes WireEntry) : Prop :=
  ∀ key e, wireCache.lookup key = some e →
    ∀ query, Asked query → wireKey query = key → Carries query e.response

theorem WireSound.of_shrinks {t t' : Table Bytes WireEntry} (h : WireSound t)
    (hshrinks : Shrinks t' t) : WireSound t' :=
  fun key e he => h key e (hshrinks key e he)

theorem WireSound.insert {t : Table Bytes WireEntry} (h : WireSound t) {query : Query}
    (hquery : Asked query) {e : WireEntry} (hcarries : Carries query e.response) :
    WireSound (t.insert (wireKey query) e) := by
  intro key e' he' query' hquery' hkey
  rcases lookup_insert_cases he' with ⟨rfl, rfl⟩ | ⟨-, hold⟩
  · obtain ⟨hname, htype, -⟩ := wireKey_inj hkey
    exact hcarries.of_question_eq hquery hquery' (hquery.question_eq hquery' hname.symm htype.symm)
  · exact h key e' hold query' hquery' hkey

theorem keepWire_wireSound {r : Resolver} (h : WireSound r.wireCache) {query : Query}
    (hquery : Asked query) {answer : Bytes} (hcarries : Carries query answer)
    (lifetime now : ℕ) (bucket : Bytes → ℕ) :
    WireSound (r.keepWire (wireKey query) answer lifetime now bucket).wireCache := by
  refine WireSound.insert ?_ hquery hcarries
  split
  · exact h.of_shrinks (evictOldest_shrinks _ _ _)
  · exact h

/-! ## One step -/

section

variable (pton : InetPton)

/-- The call is over. -/
def Phase.Over : Phase → Prop
  | .found _ | .replied _ _ | .thrown => True
  | _ => False

/-- What a round of the loop in `resolve` does to the keys in flight. -/
theorem resolveStart_cases (r : Resolver) (key : Bytes) (now : ℕ) :
    (∃ result, r.resolveStart pton key now = (.settled result, r)) ∨
      key ∈ r.inFlight ∧ r.resolveStart pton key now = (.waits, r) ∨
      (key ∉ r.inFlight ∧ key ≠ lowercase r.workerHost) ∧
        r.resolveStart pton key now =
          (.begins, { r with inFlight := insert key r.inFlight }) := by
  rw [Resolver.resolveStart, Resolver.lookup]
  split
  · exact Or.inl ⟨_, rfl⟩
  · split
    · exact Or.inl ⟨_, rfl⟩
    · split
      · exact Or.inl ⟨_, rfl⟩
      · split
        · exact Or.inl ⟨_, rfl⟩
        · split
          · exact Or.inr (Or.inl ⟨‹_›, rfl⟩)
          · exact Or.inr (Or.inr ⟨⟨‹_›, ‹_›⟩, rfl⟩)

theorem lookupWire_cases (r : Resolver) (key : Bytes) (now : ℕ) :
    (∃ e, r.wireCache.lookup key = some e ∧
      r.lookupWire key now =
        (some (e.response, WorkerHealth.since now e.storedAtMs / 1000), r)) ∨
      r.lookupWire key now = (none, r) ∨
      r.lookupWire key now = (none, { r with wireCache := r.wireCache.erase key }) := by
  rw [Resolver.lookupWire]
  split
  · exact Or.inr (Or.inl rfl)
  · rename_i e he
    split
    · exact Or.inl ⟨e, he, rfl⟩
    · exact Or.inr (Or.inr rfl)

/-- What a step can do: the phase it starts from, the resolver it leaves and the
phase it ends in. -/
inductive CallStep (r : Resolver) (input : Input) : Phase → Resolver × Phase → Prop
  | settles (key : Bytes) (asker : Option Query) (result : Result) :
      CallStep r input (.resolve key asker) (r, returned pton asker result)
  | waits (key : Bytes) (asker : Option Query) (hbusy : key ∈ r.inFlight) :
      CallStep r input (.resolve key asker) (r, .resolve key asker)
  | begins (key : Bytes) (asker : Option Query) (hfree : key ∉ r.inFlight)
      (hname : key ≠ lowercase r.workerHost) :
      CallStep r input (.resolve key asker) ({ r with inFlight := insert key r.inFlight },
        startQuery { r with inFlight := insert key r.inFlight } key asker)
  | late (errand : Errand) : CallStep r input (.gate errand) (r, refused pton errand)
  | passes (errand : Errand) : CallStep r input (.gate errand) (r, .enter errand)
  | refreshes (errand : Errand) :
      CallStep r input (.gate errand) ({ r with bootstrapBusy := true }, .refresh errand)
  | stays (errand : Errand) : CallStep r input (.refresh errand) (r, .refreshed errand false)
  | renews (errand : Errand) (result : Result) (a aaaa : HttpResponse)
      (hfresh : lookupViaDohByAddress pton (lowercase r.workerHost) a aaaa = some result)
      (hinput : input.bootstrap = some (a, aaaa)) :
      CallStep r input (.refresh errand)
        ({ r with cache := r.cache.insert (lowercase r.workerHost) ⟨result, neverExpires⟩ },
          .refreshed errand true)
  | releases (errand : Errand) (stored : Bool) (bootstrapNextMs : ℕ) :
      CallStep r input (.refreshed errand stored)
        ({ r with bootstrapNextMs, bootstrapBusy := false }, .enter errand)
  | declines (errand : Errand) : CallStep r input (.enter errand) (r, refused pton errand)
  | enters (errand : Errand) : CallStep r input (.enter errand) (r, .ask errand)
  | fails (key : Bytes) (asker : Option Query) :
      CallStep r input (.ask (.name key asker)) (r, .keep key asker { transient := true })
  | hears (key : Bytes) (asker : Option Query) (response : HttpResponse) :
      CallStep r input (.ask (.name key asker))
        (r.observe response input.nowMs, .keep key asker (readAnswer pton response))
  | throws (query : Query) : CallStep r input (.ask (.wire query)) (r, .thrown)
  | receives (query : Query) (response : HttpResponse)
      (hresponse : input.response = some response) :
      CallStep r input (.ask (.wire query))
        (r.observe response input.nowMs, received pton query response)
  | keeps (key : Bytes) (asker : Option Query) (result : Result) :
      CallStep r input (.keep key asker result)
        (r.keep key result input.nowMs input.bucket, returned pton asker result)
  | gives (query : Query) (response : Bytes)
      (hresponse : response = [] ∨ response = bootstrapAnswer pton r query input.nowMs) :
      CallStep r input (.relay query) (r, finish pton query response)
  | hits (query : Query) (e : WireEntry) (age : ℕ)
      (hentry : r.wireCache.lookup (wireKey query) = some e) :
      CallStep r input (.relay query)
        (r, finish pton query (ageTtls (setId e.response query.id) age))
  | misses (query : Query) (wireCache : Table Bytes WireEntry)
      (hname : lowercase query.name ≠ lowercase r.workerHost)
      (hcache : Shrinks wireCache r.wireCache) :
      CallStep r input (.relay query) ({ r with wireCache }, .gate (.wire query))
  | keepsWire (query : Query) (answer : Bytes) (lifetime : ℕ) :
      CallStep r input (.keepWire query answer lifetime)
        (r.keepWire (wireKey query) answer lifetime input.nowMs input.bucket,
          finish pton query answer)
  | rests (phase : Phase) (hover : phase.Over) : CallStep r input phase (r, phase)

theorem step_callStep (c : Call) (r : Resolver) (input : Input) :
    CallStep pton r input c.phase (c.step pton r input) := by
  rw [Call.step]
  cases hphase : c.phase with
  | resolve key asker =>
      dsimp only
      rcases resolveStart_cases pton r key input.nowMs with
        ⟨result, hstart⟩ | ⟨hbusy, hstart⟩ | ⟨⟨hfree, hname⟩, hstart⟩
      · rw [hstart]
        exact .settles key asker result
      · rw [hstart]
        exact .waits key asker hbusy
      · rw [hstart]
        exact .begins key asker hfree hname
  | gate errand =>
      dsimp only
      split
      · exact .late errand
      · split
        · exact .passes errand
        · exact .refreshes errand
  | refresh errand =>
      dsimp only
      split
      · exact .stays errand
      · rename_i result hresult
        obtain ⟨⟨a, aaaa⟩, hinput, hfresh⟩ := Option.bind_eq_some_iff.1 hresult
        exact .renews errand result a aaaa hfresh hinput
  | refreshed errand stored => exact .releases errand stored _
  | enter errand =>
      dsimp only
      split
      · exact .declines errand
      · exact .enters errand
  | ask errand =>
      cases errand with
      | name key asker =>
          dsimp only
          split
          · exact .fails key asker
          · exact .hears key asker _
      | wire query =>
          dsimp only
          split
          · exact .throws query
          · exact .receives query _ ‹_›
  | keep key asker result => exact .keeps key asker result
  | relay query =>
      dsimp only
      split
      · exact .gives query [] (Or.inl rfl)
      · split
        · exact .gives query _ (Or.inr rfl)
        · rename_i hname
          rcases lookupWire_cases r (wireKey query) input.nowMs with ⟨e, he, hhit⟩ | hmiss | hmiss
          · rw [hhit]
            exact .hits query e _ he
          · rw [hmiss]
            exact .misses query r.wireCache hname (Shrinks.refl _)
          · rw [hmiss]
            exact .misses query _ hname (erase_shrinks _ _)
  | keepWire query answer lifetime => exact .keepsWire query answer lifetime
  | found result => exact .rests _ trivial
  | replied whole reply => exact .rests _ trivial
  | thrown => exact .rests _ trivial

/-- A step keeps the wire cache sound and leaves the call in a sound phase. -/
theorem step_sound (c : Call) {r : Resolver} (input : Input) (hwire : WireSound r.wireCache)
    (hcall : c.phase.Sound c.datagram) :
    WireSound (c.step pton r input).1.wireCache ∧
      (c.step pton r input).2.Sound c.datagram := by
  have hstep := step_callStep pton c r input
  generalize c.phase = phase at hstep hcall
  generalize c.step pton r input = next at hstep ⊢
  cases hstep with
  | settles key asker result => exact ⟨hwire, returned_sound pton hcall _⟩
  | begins key asker => exact ⟨hwire, startQuery_sound hcall _ _⟩
  | late errand | declines errand => exact ⟨hwire, refused_sound pton hcall⟩
  | throws query => exact ⟨hwire, trivial⟩
  | receives query response => exact ⟨hwire, received_sound pton hcall _⟩
  | keeps key asker result => exact ⟨hwire, returned_sound pton hcall _⟩
  | gives query response hresponse =>
      refine ⟨hwire, finish_sound pton hcall (hresponse.imp_right ?_)⟩
      rintro rfl
      exact buildResponse_ready pton (Asks.asked hcall) _ _ _ _
  | hits query e age hentry =>
      have hquery := Asks.asked hcall
      refine ⟨hwire, finish_sound pton hcall (Or.inr ?_)⟩
      obtain ⟨hset, hid⟩ := setId_carries (hwire _ e hentry query hquery rfl) hquery hquery.id_lt
      obtain ⟨haged, hid'⟩ := ageTtls_carries hset hquery _
      exact ⟨haged, hid'.trans hid⟩
  | misses query wireCache hname hcache => exact ⟨hwire.of_shrinks hcache, hcall⟩
  | keepsWire query answer lifetime =>
      obtain ⟨hask, hready⟩ := hcall
      exact ⟨keepWire_wireSound hwire hask.asked hready.carries _ _ _,
        finish_sound pton hask (Or.inr hready)⟩
  | waits | passes | refreshes | stays | renews | releases | enters | fails | hears | rests =>
      exact ⟨hwire, hcall⟩

/-! ## Progress -/

/-- The steps a request still takes, at most, once it is decided on. -/
def Errand.remaining : Errand → ℕ
  | .wire _ => 1
  | .name _ _ => 8

/-- The steps a call still takes, at most, unless it waits for another one. -/
def Phase.remaining : Phase → ℕ
  | .resolve _ _ => 14
  | .gate errand => errand.remaining + 5
  | .refresh errand => errand.remaining + 4
  | .refreshed errand _ => errand.remaining + 3
  | .enter errand => errand.remaining + 2
  | .ask errand => errand.remaining + 1
  | .keep _ _ _ => 8
  | .relay _ => 7
  | .keepWire _ _ _ => 1
  | .found _ | .replied _ _ | .thrown => 0

/-- The call is inside `query` for this key and will free it. -/
def Errand.Holds (key : Bytes) : Errand → Prop
  | .name key' _ => key' = key
  | .wire _ => False

def Phase.Holds (key : Bytes) : Phase → Prop
  | .gate errand | .refresh errand | .refreshed errand _ | .enter errand | .ask errand =>
      errand.Holds key
  | .keep key' _ _ => key' = key
  | _ => False

/-- No request is under way for the call: it is over, or it is about to be relayed. -/
def Phase.Idle : Phase → Prop
  | .relay _ | .found _ | .replied _ _ | .thrown => True
  | _ => False

theorem Phase.Over.remaining_eq {phase : Phase} (h : phase.Over) : phase.remaining = 0 := by
  cases phase <;> first | exact h.elim | rfl

theorem Phase.Idle.remaining_le {phase : Phase} (h : phase.Idle) : phase.remaining ≤ 7 := by
  cases phase <;> first | exact h.elim | simp [Phase.remaining]

theorem Phase.Idle.not_holds {phase : Phase} (h : phase.Idle) (key : Bytes) :
    ¬ phase.Holds key := by
  cases phase <;> first | exact h.elim | exact id

theorem answer_idle (query : Query) (result : Result) : (answer pton query result).Idle := by
  rw [answer]
  generalize (if query.type = typeA then result.v4 else result.v6) = addresses
  repeat' split
  all_goals exact trivial

theorem returned_idle (asker : Option Query) (result : Result) :
    (returned pton asker result).Idle := by
  cases asker with
  | none => exact trivial
  | some query => exact answer_idle pton query result

/-- An answer of the Worker is kept, or it ends the call. -/
theorem received_cases (query : Query) (response : HttpResponse) :
    (∃ answer lifetime, readWireAnswer query response = some (answer, lifetime) ∧
      lifetime ≠ 0 ∧ received pton query response = .keepWire query answer lifetime) ∨
      ∃ whole reply, received pton query response = .replied whole reply := by
  rw [received]
  split
  · exact Or.inr ⟨_, _, rfl⟩
  · rename_i answer lifetime hanswer
    split
    · exact Or.inr ⟨_, _, rfl⟩
    · exact Or.inl ⟨answer, lifetime, hanswer, ‹_›, rfl⟩

theorem startQuery_remaining (r : Resolver) (key : Bytes) (asker : Option Query) :
    (startQuery r key asker).remaining ≤ 13 := by
  rw [startQuery]
  repeat' split
  all_goals simp [Phase.remaining, Errand.remaining]

theorem startQuery_holds (r : Resolver) (key : Bytes) (asker : Option Query) (k : Bytes) :
    (startQuery r key asker).Holds k ↔ key = k := by
  rw [startQuery]
  repeat' split
  all_goals exact Iff.rfl

theorem refused_remaining (errand : Errand) :
    (refused pton errand).remaining ≤ errand.remaining := by
  cases errand with
  | name key asker => exact Nat.le_refl _
  | wire query => exact Nat.zero_le _

theorem received_remaining (query : Query) (response : HttpResponse) :
    (received pton query response).remaining ≤ 1 := by
  rcases received_cases pton query response with ⟨answer, lifetime, -, -, heq⟩ | ⟨whole, reply, heq⟩
  · rw [heq]
    exact Nat.le_refl _
  · rw [heq]
    exact Nat.zero_le _

/-- A step brings a call nearer to its end, unless it waits for another lookup. -/
theorem step_remaining (c : Call) (r : Resolver) (input : Input) (h : c.phase.remaining ≠ 0) :
    (c.step pton r input).2.remaining < c.phase.remaining ∨
      ∃ key asker, c.phase = .resolve key asker ∧ key ∈ r.inFlight := by
  have hstep := step_callStep pton c r input
  generalize c.phase = phase at hstep h ⊢
  generalize c.step pton r input = next at hstep ⊢
  cases hstep with
  | waits key asker hbusy => exact Or.inr ⟨key, asker, rfl, hbusy⟩
  | settles key asker result =>
      exact Or.inl (Nat.lt_of_le_of_lt (returned_idle pton asker result).remaining_le
        (by simp [Phase.remaining]))
  | begins key asker =>
      exact Or.inl (Nat.lt_of_le_of_lt (startQuery_remaining _ key asker)
        (by simp [Phase.remaining]))
  | late errand | declines errand =>
      exact Or.inl (Nat.lt_of_le_of_lt (refused_remaining pton errand)
        (by simp [Phase.remaining]))
  | passes errand | refreshes errand => exact Or.inl (Nat.add_lt_add_left (by decide) _)
  | stays errand | renews errand | releases errand | enters errand | fails key asker
  | hears key asker => exact Or.inl (Nat.lt_succ_self _)
  | receives query response =>
      exact Or.inl (Nat.lt_succ_of_le (received_remaining pton query response))
  | keeps key asker result =>
      exact Or.inl (Nat.lt_succ_of_le (returned_idle pton asker result).remaining_le)
  | throws query | gives query | hits query | keepsWire query => exact Or.inl (Nat.succ_pos _)
  | misses query => exact Or.inl (by simp [Phase.remaining, Errand.remaining])
  | rests _ hover => exact absurd hover.remaining_eq h

/-- What a step does to the keys in flight: nothing, it starts a query for a key that
nobody asks for, or it stores the result of one. -/
inductive FlightStep (r : Resolver) (before : Phase) (r' : Resolver) (after : Phase) : Prop
  | same (hflight : r'.inFlight = r.inFlight)
      (hholds : ∀ key, after.Holds key ↔ before.Holds key)
  | begins (key : Bytes) (hfree : key ∉ r.inFlight) (hname : key ≠ lowercase r.workerHost)
      (hflight : r'.inFlight = insert key r.inFlight) (hbefore : ∀ k, ¬ before.Holds k)
      (hafter : ∀ k, after.Holds k ↔ key = k)
  | stores (key : Bytes) (asker : Option Query) (result : Result)
      (hbefore : before = .keep key asker result)
      (hflight : r'.inFlight = r.inFlight.erase key)
      (hstored : ∃ expiresAtMs, r'.cache.lookup key = some ⟨result, expiresAtMs⟩)
      (hafter : ∀ k, ¬ after.Holds k)

theorem refused_holds (errand : Errand) (key : Bytes) :
    (refused pton errand).Holds key ↔ errand.Holds key := by
  cases errand with
  | name key' asker => exact Iff.rfl
  | wire query => exact Iff.rfl

theorem received_not_holds (query : Query) (response : HttpResponse) (key : Bytes) :
    ¬ (received pton query response).Holds key := by
  rcases received_cases pton query response with ⟨answer, lifetime, -, -, heq⟩ | ⟨whole, reply, heq⟩
  · rw [heq]
    exact id
  · rw [heq]
    exact id

theorem step_flight (c : Call) (r : Resolver) (input : Input) :
    FlightStep r c.phase (c.step pton r input).1 (c.step pton r input).2 := by
  have hstep := step_callStep pton c r input
  generalize c.phase = phase at hstep ⊢
  generalize c.step pton r input = next at hstep ⊢
  cases hstep with
  | settles key asker result =>
      exact .same rfl fun k => iff_of_false ((returned_idle pton asker result).not_holds k) id
  | begins key asker hfree hname =>
      exact .begins key hfree hname rfl (fun k => id) (startQuery_holds _ key asker)
  | late errand | declines errand => exact .same rfl (refused_holds pton errand)
  | receives query response =>
      exact .same rfl fun k => iff_of_false (received_not_holds pton query response k) id
  | keeps key asker result =>
      exact .stores key asker result rfl rfl ⟨_, AList.lookup_insert _⟩
        (returned_idle pton asker result).not_holds
  | waits | passes | refreshes | stays | renews | releases | enters | fails | hears | throws
  | gives | hits | misses | keepsWire | rests => exact .same rfl fun k => Iff.rfl

/-- A key in flight after a step is held by the call that moved, or was in flight before
and not held by it. -/
theorem step_holds (c : Call) (r : Resolver) (input : Input) {key : Bytes}
    (h : key ∈ (c.step pton r input).1.inFlight) :
    (c.step pton r input).2.Holds key ∨ key ∈ r.inFlight ∧ ¬ c.phase.Holds key := by
  cases step_flight pton c r input with
  | same hflight hholds =>
      rw [hflight] at h
      rw [hholds key]
      exact (em _).imp_right fun hfree => ⟨h, hfree⟩
  | begins key' hfree hname hflight hbefore hafter =>
      rw [hflight] at h
      rcases Finset.mem_insert.1 h with rfl | h
      · exact Or.inl ((hafter key).2 rfl)
      · exact Or.inr ⟨h, hbefore key⟩
  | stores key' asker result hbefore hflight hstored hafter =>
      rw [hflight] at h
      obtain ⟨hne, h⟩ := Finset.mem_erase.1 h
      rw [hbefore]
      exact Or.inr ⟨h, fun heq => hne heq.symm⟩

/-! ## Whole runs -/

/-- What a step does to the resolver. -/
theorem System.resolver_step (s : System) (e : Event) :
    (s.step pton e).resolver = s.resolver ∨
      (s.step pton e).resolver = s.resolver.clearCache ∨
      ∃ index input c, e = .act index input ∧ s.calls[index]? = some c ∧
        (s.step pton e).resolver = (c.step pton s.resolver input).1 := by
  cases e with
  | buildReply datagram deadlineMs => exact Or.inl rfl
  | resolve host deadlineMs => exact Or.inl rfl
  | clearCache => exact Or.inr (Or.inl rfl)
  | act index input =>
      rw [System.step]
      split
      · exact Or.inl rfl
      · exact Or.inr (Or.inr ⟨index, input, _, rfl, ‹_›, rfl⟩)

/-- What new calls satisfy and a step of a call brings about holds of all calls. -/
theorem System.forall_calls_step {P : Call → Prop} {s : System} {e : Event}
    (hcalls : ∀ c ∈ s.calls, P c)
    (hbuildReply : ∀ datagram deadlineMs, e = .buildReply datagram deadlineMs →
      P (Call.buildReply datagram deadlineMs))
    (hresolve : ∀ host deadlineMs, P (Call.resolve host deadlineMs))
    (hact : ∀ index input c, e = .act index input → s.calls[index]? = some c →
      P { c with phase := (c.step pton s.resolver input).2 }) :
    ∀ c ∈ (s.step pton e).calls, P c := by
  intro c hc
  cases e with
  | buildReply datagram deadlineMs =>
      rcases List.mem_append.1 hc with hc | hc
      · exact hcalls c hc
      · rw [List.mem_singleton.1 hc]
        exact hbuildReply datagram deadlineMs rfl
  | resolve host deadlineMs =>
      rcases List.mem_append.1 hc with hc | hc
      · exact hcalls c hc
      · rw [List.mem_singleton.1 hc]
        exact hresolve host deadlineMs
  | clearCache => exact hcalls c hc
  | act index input =>
      rw [System.step] at hc
      split at hc
      · exact hcalls c hc
      · rename_i c' hc'
        rcases List.mem_or_eq_of_mem_set hc with hc | rfl
        · exact hcalls c hc
        · exact hact index input c' rfl hc'

/-- What holds of the resolver and all calls on it after every run. -/
structure System.Sound (s : System) : Prop where
  wire : WireSound s.resolver.wireCache
  calls : ∀ (i : ℕ) (c : Call), s.calls[i]? = some c → c.phase.Sound c.datagram
  held : ∀ key ∈ s.resolver.inFlight,
    ∃ (i : ℕ) (c : Call), s.calls[i]? = some c ∧ c.phase.Holds key

theorem buildReply_sound (datagram : Bytes) (deadlineMs : ℕ) :
    (Call.buildReply datagram deadlineMs).phase.Sound (some datagram) := by
  rw [Call.buildReply]
  dsimp only
  split
  · rename_i query hparse
    refine ⟨datagram, rfl, ?_, ?_, ?_⟩
    · rcases parseQuery_refused hparse with ⟨hsilent, herror⟩ | ⟨hanswered, -, -, -, herror⟩
      · simp [hsilent, herror]
      · have hne : query.error ≠ 0 := by
          rcases herror with herror | herror <;> rw [herror] <;> decide
        simp [hanswered, hne, buildError, put16]
    · intro query' hparse' hreply
      rw [hparse] at hparse'
      cases hparse'
      rcases parseQuery_refused hparse with ⟨-, herror⟩ | ⟨-, hid, hopcode, hdesired, herror⟩
      · exact absurd (if_neg (not_not.2 herror)) hreply
      · have hne : query.error ≠ 0 := by
          rcases herror with herror | herror <;> rw [herror] <;> decide
        rw [if_pos hne]
        exact buildError_refuses hid hopcode hdesired herror
    · intro query' hparse'
      rw [hparse] at hparse'
      cases hparse'
  · rename_i query hparse
    split <;> exact ⟨datagram, rfl, hparse⟩

theorem System.Sound.step {s : System} (h : s.Sound) (e : Event) : (s.step pton e).Sound := by
  refine ⟨?_, ?_, ?_⟩
  · rcases s.resolver_step pton e with hsame | hcleared | ⟨index, input, c, -, hc, hacted⟩
    · rw [hsame]
      exact h.wire
    · rw [hcleared]
      intro key e he
      cases he
    · rw [hacted]
      exact (step_sound pton c input h.wire (h.calls index c hc)).1
  · intro i c hc
    refine System.forall_calls_step pton (P := fun c => c.phase.Sound c.datagram) ?_
      (fun _ _ _ => buildReply_sound _ _) (fun _ _ => rfl) ?_ c (List.mem_of_getElem? hc)
    · intro c' hc'
      obtain ⟨j, hj⟩ := List.mem_iff_getElem?.1 hc'
      exact h.calls j c' hj
    · intro index input c' _ hc'
      exact (step_sound pton c' input h.wire (h.calls index c' hc')).2
  · have hjoin (c : Call) : ∀ key ∈ s.resolver.inFlight,
        ∃ (i : ℕ) (c' : Call), (s.calls ++ [c])[i]? = some c' ∧ c'.phase.Holds key := by
      intro key hkey
      obtain ⟨i, c', hc', hholds⟩ := h.held key hkey
      refine ⟨i, c', ?_, hholds⟩
      rw [List.getElem?_append_left (List.getElem?_eq_some_iff.1 hc').1, hc']
    cases e with
    | buildReply datagram deadlineMs => exact hjoin _
    | resolve host deadlineMs => exact hjoin _
    | clearCache => exact h.held
    | act index input =>
        rw [System.step]
        split
        · exact h.held
        · rename_i c hc
          have hindex : index < s.calls.length := (List.getElem?_eq_some_iff.1 hc).1
          intro key hkey
          rcases step_holds pton c s.resolver input hkey with hholds | ⟨hold, hfree⟩
          · exact ⟨index, _, List.getElem?_set_self hindex, hholds⟩
          · obtain ⟨i, c', hc', hholds⟩ := h.held key hold
            have hi : index ≠ i := by
              rintro rfl
              rw [hc] at hc'
              cases hc'
              exact hfree hholds
            exact ⟨i, c', by rw [List.getElem?_set_ne hi]; exact hc', hholds⟩

theorem start_wireCache (workerHost : Bytes) (bootstrap : Option Result) (now : ℕ) :
    (Resolver.start pton workerHost bootstrap now).wireCache = ∅ ∧
      (Resolver.start pton workerHost bootstrap now).inFlight = ∅ := by
  unfold Resolver.start
  repeat' split
  all_goals exact ⟨rfl, rfl⟩

theorem system_sound (workerHost : Bytes) (bootstrap : Option Result) (now : ℕ)
    (events : List Event) :
    (History.run (System.step pton) ⟨Resolver.start pton workerHost bootstrap now, []⟩
      events).Sound := by
  refine History.run_invariant _ _ (fun _ (s : System) => s.Sound) ?_
    (fun _ _ e h => h.step pton e) events
  obtain ⟨hwire, hflight⟩ := start_wireCache pton workerHost bootstrap now
  refine ⟨?_, by simp, ?_⟩
  · intro key e he
    rw [hwire] at he
    cases he
  · intro key hkey
    rw [hflight] at hkey
    exact absurd hkey (Finset.notMem_empty key)

/-- A datagram's call ends in the reply that the sender is owed, for any history of the
resolver, any answers of the Worker and any interleaving with other calls. Until then
every step brings it nearer to its end, unless another call is asking the Worker for the
same name; only a request that throws leaves it without a reply. -/
theorem buildReply_serves (workerHost : Bytes) (bootstrap : Option Result) (now : ℕ)
    (events : List Event) (i : ℕ) (c : Call) (datagram : Bytes)
    (hc : (History.run (System.step pton) ⟨Resolver.start pton workerHost bootstrap now, []⟩
      events).calls[i]? = some c)
    (hdatagram : c.datagram = some datagram) :
    let s := History.run (System.step pton) ⟨Resolver.start pton workerHost bootstrap now, []⟩
      events
    (∃ whole reply, c.phase = .replied whole reply ∧ Served datagram whole reply) ∨
      c.phase = .thrown ∨
      (∀ input, ∃ c' : Call, (s.step pton (.act i input)).calls[i]? = some c' ∧
        c'.phase.remaining < c.phase.remaining) ∨
      ∃ (key : Bytes) (asker : Option Query) (j : ℕ) (c' : Call),
        c.phase = .resolve key asker ∧ s.calls[j]? = some c' ∧
        c'.phase.Holds key := by
  intro s
  have hsound : s.Sound := system_sound pton workerHost bootstrap now events
  have hcall := hsound.calls i c hc
  by_cases hend : c.phase.remaining = 0
  · cases hphase : c.phase with
    | replied whole reply =>
        rw [hphase] at hcall
        obtain ⟨d, hd, hserved⟩ := hcall
        rw [hdatagram] at hd
        cases hd
        exact Or.inl ⟨whole, reply, rfl, hserved⟩
    | thrown => exact Or.inr (Or.inl rfl)
    | found result =>
        rw [hphase] at hcall
        rw [hdatagram] at hcall
        cases hcall
    | _ =>
        rw [hphase] at hend
        simp [Phase.remaining] at hend
  · by_cases hwaits : ∃ key asker, c.phase = .resolve key asker ∧ key ∈ s.resolver.inFlight
    · obtain ⟨key, asker, hphase, hkey⟩ := hwaits
      obtain ⟨j, c', hc', hholds⟩ := hsound.held key hkey
      exact Or.inr (Or.inr (Or.inr ⟨key, asker, j, c', hphase, hc', hholds⟩))
    · refine Or.inr (Or.inr (Or.inl fun input => ?_))
      have hindex : i < s.calls.length := (List.getElem?_eq_some_iff.1 hc).1
      refine ⟨{ c with phase := (c.step pton s.resolver input).2 }, ?_,
        (step_remaining pton c s.resolver input hend).resolve_right hwaits⟩
      rw [System.step, hc]
      exact List.getElem?_set_self hindex

end

/-- A system without address literals. -/
def noLiterals : InetPton where
  v4 := fun _ => none
  v6 := fun _ => none
  length_v4 := by simp
  length_v6 := by simp

/-- A TXT query for the name `a`. -/
def sampleDatagram : Bytes := [18, 52, 1, 0, 0, 1, 0, 0, 0, 0, 0, 0, 1, 97, 0, 0, 16, 0, 1]

/-- The Worker knows no TXT record for it and spells the name in upper case. -/
def sampleBody : Bytes := [0, 0, 129, 128, 0, 1, 0, 0, 0, 0, 0, 0, 1, 65, 0, 0, 16, 0, 1]

/-- The query is relayed to a Worker named `w`, and its answer is kept and sent on. -/
def sampleEvents : List Event :=
  [.buildReply sampleDatagram 0, .act 0 {}, .act 0 {}, .act 0 {},
    .act 0 { response := some { status := 200, body := sampleBody } }, .act 0 {}]

theorem buildReply_serves_sample :
    ∃ whole reply, (History.run (System.step noLiterals)
        ⟨Resolver.start noLiterals [119] (some { v4 := [[49]] }) 0, []⟩ sampleEvents).calls[0]? =
          some ⟨some sampleDatagram, 0, .replied whole reply⟩ ∧
      Served sampleDatagram whole reply := by
  refine ⟨setId sampleBody 4660, setId sampleBody 4660, rfl, ?_⟩
  rcases buildReply_serves noLiterals [119] (some { v4 := [[49]] }) 0 sampleEvents 0 _
      sampleDatagram rfl rfl with
    ⟨whole, reply, hphase, hserved⟩ | hphase | hmoves | ⟨_, _, _, _, hphase, -⟩
  · cases hphase
    exact hserved
  · cases hphase
  · obtain ⟨c', -, hlt⟩ := hmoves {}
    exact absurd hlt (Nat.not_lt_zero _)
  · cases hphase

end Dns

end SplitHello
