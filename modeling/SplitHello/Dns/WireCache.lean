import SplitHello.Dns.Service

/-!
# Answers from the wire cache

An answer that `queryWire` takes from its cache is the message that the Worker sent for
an earlier query with the same key: the id is the new one, the TTLs have gone down by the
time it was kept, and nothing else is different. Where an entry comes from is read off
the history of the run, so the statement needs the clock to go forward only.
-/

namespace SplitHello

namespace Dns

open ByteString KeyedTable Recovery

/-! ## Ageing a message -/

/-- The message for another query some time later. -/
structure AgedCopy (body : Bytes) (id ageSeconds : ℕ) (copy : Bytes) : Prop where
  length : copy.length = body.length
  id : be16 (memory copy) 0 = id
  records : ∃ questionEnd records, walk (memory body) body.length = some (questionEnd, records) ∧
    (∀ r ∈ records, r.type ≠ typeOpt →
      be32 (memory copy) r.ttlOffset =
        if be32 (memory body) r.ttlOffset = 0 then 0
        else max 1 (be32 (memory body) r.ttlOffset - ageSeconds)) ∧
    ∀ i, 2 ≤ i → Outside (timed records) i → memory copy i = memory body i

theorem agedTtl_eq (ttl ageSeconds : ℕ) :
    agedTtl ttl ageSeconds = if ttl = 0 then 0 else max 1 (ttl - ageSeconds) := by
  rw [agedTtl]
  repeat' split
  all_goals omega

theorem length_setId (message : Bytes) (id : ℕ) : (setId message id).length = message.length := by
  rw [setId]
  split
  · exact length_splice (by simpa)
  · rfl

theorem memory_setId (message : Bytes) (id : ℕ) {i : ℕ} (hi : 2 ≤ i) :
    memory (setId message id) i = memory message i := by
  rw [setId]
  split
  · exact memory_splice_of_notMem (by simpa) (by simp; omega)
  · rfl

/-- Setting the id and ageing the TTLs makes an aged copy of a well-formed message, whatever
its id was. -/
theorem agedCopy_of_walk {body : Bytes} (hwalk : (walk (memory body) body.length).isSome)
    (first : ℕ) {id : ℕ} (hid : id < 65536) (ageSeconds : ℕ) :
    AgedCopy body id ageSeconds (ageTtls (setId (setId body first) id) ageSeconds) := by
  obtain ⟨⟨questionEnd, records⟩, hwalk⟩ := Option.isSome_iff_exists.1 hwalk
  obtain ⟨hheader, hend, hrecords⟩ := walk_bounds hwalk
  have hheader : 12 ≤ questionEnd := hheader
  set message := setId (setId body first) id with hmessage
  have hlength : message.length = body.length := by
    rw [hmessage, length_setId, length_setId]
  have hsame (i : ℕ) (hi : 2 ≤ i) : memory message i = memory body i := by
    rw [hmessage, memory_setId _ _ hi, memory_setId _ _ hi]
  have hwalk' : walk (memory message) message.length = some (questionEnd, records) := by
    rw [hlength]
    exact walk_congr hwalk fun i hi _ => (hsame i (by omega)).symm
  obtain ⟨haged, hm, httl⟩ := foldl_ageRecord ageSeconds message records
    (fun r hr => by rw [hlength]; exact (hrecords r hr).2) (walk_sorted hwalk)
  have hfold : ageTtls message ageSeconds = records.foldl (ageRecord ageSeconds) message := by
    rw [ageTtls, hwalk']
  rw [hfold]
  have hfront (i : ℕ) (hi : i < 12) : Outside (timed records) i := by
    intro r hr
    have := hrecords r (List.mem_filter.1 hr).1
    omega
  refine ⟨haged.trans hlength, ?_, questionEnd, records, hwalk, ?_, ?_⟩
  · rw [← be16_congr (hm 0 (hfront 0 (by omega))) (hm 1 (hfront 1 (by omega))), hmessage, setId,
      if_pos (by rw [length_setId]; omega)]
    exact be16_splice_put16 hid (by rw [length_setId]; omega)
  · intro r hr htimed
    have hfield : be32 (memory message) r.ttlOffset = be32 (memory body) r.ttlOffset := by
      refine be32_congr fun k hk => hsame _ ?_
      have := hrecords r hr
      omega
    rw [httl r hr htimed, agedTtl_eq, hfield]
  · intro i hi hout
    rw [← hm i hout, hsame i hi]

/-! ## Lifetimes -/

theorem clamp_bounds (value : ℕ) {low high : ℕ} (h : low ≤ high) :
    low ≤ clamp value low high ∧ clamp value low high ≤ high := by
  rw [clamp]
  repeat' split
  all_goals omega

/-- An answer that is kept is complete; it has records to live by, or it says that there
are none. -/
theorem wireLifetimeSeconds_pos {info : ResponseInfo} (h : wireLifetimeSeconds info ≠ 0) :
    info.truncated = false ∧ wireMinTtlSeconds ≤ wireLifetimeSeconds info ∧
      wireLifetimeSeconds info ≤ wireMaxTtlSeconds ∧
      ((info.rcode = rcodeNoError ∧ 0 < info.answers ∧
          ∃ ttl, info.answerTtl = some ttl ∧ ttl ≠ 0) ∨
        (info.rcode = rcodeNoError ∧ info.answers = 0 ∨ info.rcode = rcodeNxDomain) ∧
          wireLifetimeSeconds info ≤ wireNegativeMaxSeconds) := by
  revert h
  rw [wireLifetimeSeconds]
  split
  · exact fun h => absurd rfl h
  · rename_i hwhole
    have hwhole : info.truncated = false := by simpa using hwhole
    split
    · rename_i hpositive
      split
      · exact fun h => absurd rfl h
      · rename_i ttl httl
        split
        · exact fun h => absurd rfl h
        · rename_i hne
          intro _
          have hrange : wireMinTtlSeconds ≤ wireMaxTtlSeconds := by decide
          obtain ⟨hlow, hhigh⟩ := clamp_bounds ttl hrange
          exact ⟨hwhole, hlow, hhigh, Or.inl ⟨hpositive.1, hpositive.2, ttl, httl, hne⟩⟩
    · rename_i hnegative
      split
      · rename_i hcode
        have hkind : info.rcode = rcodeNoError ∧ info.answers = 0 ∨
            info.rcode = rcodeNxDomain := by
          rcases hcode with hcode | hcode
          · exact Or.inl ⟨hcode, by by_contra hne; exact hnegative ⟨hcode, by omega⟩⟩
          · exact Or.inr hcode
        intro _
        split
        · exact ⟨hwhole, by decide, by decide, Or.inr ⟨hkind, by decide⟩⟩
        · rename_i ttl httl
          have hrange : wireMinTtlSeconds ≤ wireNegativeMaxSeconds := by decide
          obtain ⟨hlow, hhigh⟩ := clamp_bounds ttl hrange
          exact ⟨hwhole, hlow, hhigh.trans (by decide), Or.inr ⟨hkind, hhigh⟩⟩
      · exact fun h => absurd rfl h

/-- An answer to the query that may be kept, and for how long: a whole and well-formed
response to its question, which has a TTL to live by or says that there is nothing. -/
structure Keepable (query : Query) (body : Bytes) (lifetime : ℕ) : Prop where
  echoes : echoesQuestion (memory body) body.length query = true
  kind : ∃ info, inspectResponse (memory body) body.length = some info ∧
    info.response = true ∧ info.truncated = false ∧
    ((info.rcode = rcodeNoError ∧ 0 < info.answers ∧
        ∃ ttl, info.answerTtl = some ttl ∧ ttl ≠ 0) ∨
      (info.rcode = rcodeNoError ∧ info.answers = 0 ∨ info.rcode = rcodeNxDomain) ∧
        lifetime ≤ wireNegativeMaxSeconds)
  lifetime_ge : wireMinTtlSeconds ≤ lifetime
  lifetime_le : lifetime ≤ wireMaxTtlSeconds

theorem keepable_of_readWireAnswer {query : Query} {response : HttpResponse} {answer : Bytes}
    {lifetime : ℕ} (h : readWireAnswer query response = some (answer, lifetime))
    (hpos : lifetime ≠ 0) :
    Keepable query response.body lifetime ∧ answer = setId response.body query.id := by
  obtain ⟨info, hinfo, hresponse, hechoes, hanswer, rfl⟩ := readWireAnswer_eq_some h
  obtain ⟨hwhole, hlow, hhigh, hkind⟩ := wireLifetimeSeconds_pos hpos
  exact ⟨⟨hechoes, ⟨info, hinfo, hresponse, hwhole, hkind⟩, hlow, hhigh⟩, hanswer⟩

/-! ## Where an entry comes from -/

section

variable (pton : InetPton)

/-- Some call was in this phase and took its next step on this input. -/
def Acted (s : System) (events : List Event) (phase : Phase) (input : Input) : Prop :=
  ∃ before i after c, events = before ++ .act i input :: after ∧
    (History.run (System.step pton) s before).calls[i]? = some c ∧ c.phase = phase

/-- The Worker answered the query in this run, and its answer may be kept. -/
def Fetched (s : System) (events : List Event) (query : Query) (answer : Bytes)
    (lifetime : ℕ) : Prop :=
  ∃ input response, Acted pton s events (.ask (.wire query)) input ∧
    input.response = some response ∧ readWireAnswer query response = some (answer, lifetime) ∧
    lifetime ≠ 0

/-- An entry is an answer that was fetched for its key, stored at the time it says. -/
def Stored (s : System) (events : List Event) (key : Bytes) (e : WireEntry) : Prop :=
  ∃ query lifetime input, wireKey query = key ∧ Fetched pton s events query e.response lifetime ∧
    Acted pton s events (.keepWire query e.response lifetime) input ∧
    input.nowMs = e.storedAtMs ∧ e.expiresAtMs = e.storedAtMs + lifetime * 1000

/-- Every answer on its way to the cache and every answer in it was fetched in the run. -/
structure Known (s : System) (events : List Event) (now : System) : Prop where
  calls : ∀ c ∈ now.calls, ∀ query answer lifetime,
    c.phase = .keepWire query answer lifetime → Fetched pton s events query answer lifetime
  entries : ∀ key e, now.resolver.wireCache.lookup key = some e → Stored pton s events key e

variable {pton} {s : System} {events : List Event}

theorem Acted.later {phase : Phase} {input : Input} (h : Acted pton s events phase input)
    (e : Event) : Acted pton s (events ++ [e]) phase input := by
  obtain ⟨before, i, after, c, rfl, hc, hphase⟩ := h
  exact ⟨before, i, after ++ [e], c, by simp, hc, hphase⟩

theorem Acted.here {i : ℕ} {c : Call} (input : Input)
    (hc : (History.run (System.step pton) s events).calls[i]? = some c) :
    Acted pton s (events ++ [.act i input]) c.phase input :=
  ⟨events, i, [], c, rfl, hc, rfl⟩

theorem Fetched.later {query : Query} {answer : Bytes} {lifetime : ℕ}
    (h : Fetched pton s events query answer lifetime) (e : Event) :
    Fetched pton s (events ++ [e]) query answer lifetime := by
  obtain ⟨input, response, hacted, hrest⟩ := h
  exact ⟨input, response, hacted.later e, hrest⟩

theorem Stored.later {key : Bytes} {entry : WireEntry} (h : Stored pton s events key entry)
    (e : Event) : Stored pton s (events ++ [e]) key entry := by
  obtain ⟨query, lifetime, input, hkey, hfetched, hacted, hrest⟩ := h
  exact ⟨query, lifetime, input, hkey, hfetched.later e, hacted.later e, hrest⟩

theorem Phase.Idle.ne_keepWire {phase : Phase} (h : phase.Idle) (query : Query) (answer : Bytes)
    (lifetime : ℕ) : phase ≠ .keepWire query answer lifetime := by
  rintro rfl
  exact h

theorem startQuery_ne_keepWire (r : Resolver) (key : Bytes) (asker : Option Query) (query : Query)
    (answer : Bytes) (lifetime : ℕ) : startQuery r key asker ≠ .keepWire query answer lifetime := by
  rw [startQuery]
  repeat' split
  all_goals exact fun h => by cases h

theorem refused_ne_keepWire (errand : Errand) (query : Query) (answer : Bytes) (lifetime : ℕ) :
    refused pton errand ≠ .keepWire query answer lifetime := by
  cases errand <;> exact fun h => by cases h

/-- A call goes to store an answer only when it has just received it. -/
theorem step_keepWire {c : Call} {r : Resolver} {input : Input} {query : Query} {answer : Bytes}
    {lifetime : ℕ} (h : (c.step pton r input).2 = .keepWire query answer lifetime) :
    c.phase = .ask (.wire query) ∧
      ∃ response, input.response = some response ∧
        readWireAnswer query response = some (answer, lifetime) ∧ lifetime ≠ 0 := by
  have hstep := step_callStep pton c r input
  generalize c.phase = phase at hstep ⊢
  generalize c.step pton r input = next at hstep h
  cases hstep with
  | settles key asker result | keeps key asker result =>
      exact absurd h ((returned_idle pton asker result).ne_keepWire _ _ _)
  | begins key asker => exact absurd h (startQuery_ne_keepWire _ _ _ _ _ _)
  | late errand | declines errand => exact absurd h (refused_ne_keepWire errand _ _ _)
  | receives query' response hresponse =>
      dsimp only at h
      rcases received_cases pton query' response with
        ⟨answer', lifetime', hanswer, hpos, heq⟩ | ⟨whole, reply, heq⟩
      · rw [heq] at h
        cases h
        exact ⟨rfl, response, hresponse, hanswer, hpos⟩
      · rw [heq] at h
        cases h
  | rests phase hover =>
      dsimp only at h
      rw [h] at hover
      exact hover.elim
  | waits | passes | refreshes | stays | renews | releases | enters | fails | hears | throws
  | gives | hits | misses | keepsWire => cases h

/-- An entry after a step was there before, or the step stored it. -/
theorem step_wireCache {c : Call} {r : Resolver} {input : Input} {key : Bytes} {e : WireEntry}
    (h : (c.step pton r input).1.wireCache.lookup key = some e) :
    r.wireCache.lookup key = some e ∨
      ∃ query lifetime, c.phase = .keepWire query e.response lifetime ∧ wireKey query = key ∧
        e.storedAtMs = input.nowMs ∧ e.expiresAtMs = input.nowMs + lifetime * 1000 := by
  have hstep := step_callStep pton c r input
  generalize c.phase = phase at hstep ⊢
  generalize c.step pton r input = next at hstep h
  cases hstep with
  | misses query wireCache hname hcache => exact Or.inl (hcache key e h)
  | keepsWire query answer lifetime =>
      rcases lookup_insert_cases h with ⟨rfl, rfl⟩ | ⟨-, h⟩
      · exact Or.inr ⟨query, lifetime, rfl, rfl, rfl, rfl⟩
      · left
        split at h
        · exact evictOldest_shrinks _ _ _ _ _ h
        · exact h
  | settles | waits | begins | late | passes | refreshes | stays | renews | releases | declines
  | enters | fails | hears | throws | receives | keeps | gives | hits | rests => exact Or.inl h

theorem Known.step (h : Known pton s events (History.run (System.step pton) s events))
    (e : Event) :
    Known pton s (events ++ [e]) ((History.run (System.step pton) s events).step pton e) := by
  have hcalls : ∀ c ∈ (History.run (System.step pton) s events).calls,
      ∀ query answer lifetime, c.phase = .keepWire query answer lifetime →
        Fetched pton s (events ++ [e]) query answer lifetime :=
    fun c hc query answer lifetime hphase => (h.calls c hc query answer lifetime hphase).later e
  have hentries : ∀ key entry,
      (History.run (System.step pton) s events).resolver.wireCache.lookup key = some entry →
        Stored pton s (events ++ [e]) key entry :=
    fun key entry hentry => (h.entries key entry hentry).later e
  generalize hnow : History.run (System.step pton) s events = now at hcalls hentries ⊢
  have hacted {index : ℕ} {input : Input} {c : Call} (he : e = .act index input)
      (hc : now.calls[index]? = some c) : Acted pton s (events ++ [e]) c.phase input := by
    rw [he]
    exact Acted.here input (hnow.symm ▸ hc)
  refine ⟨?_, ?_⟩
  · refine System.forall_calls_step pton hcalls ?_ ?_ ?_
    · intro datagram deadlineMs _ query answer lifetime hphase
      rw [Call.buildReply] at hphase
      dsimp only at hphase
      split at hphase
      · cases hphase
      · split at hphase <;> cases hphase
    · intro host deadlineMs query answer lifetime hphase
      cases hphase
    · intro index input c he hc query answer lifetime hphase
      obtain ⟨hask, response, hresponse, hanswer, hpos⟩ := step_keepWire hphase
      have hacted := hacted he hc
      rw [hask] at hacted
      exact ⟨input, response, hacted, hresponse, hanswer, hpos⟩
  · intro key entry hentry
    rcases now.resolver_step pton e with hsame | hcleared | ⟨index, input, c, he, hc, hstep⟩
    · rw [hsame] at hentry
      exact hentries key entry hentry
    · rw [hcleared] at hentry
      cases hentry
    · rw [hstep] at hentry
      rcases step_wireCache hentry with hold | ⟨query, lifetime, hphase, hkey, hat, hexpires⟩
      · exact hentries key entry hold
      · have hfetched := hcalls c (List.mem_of_getElem? hc) query _ lifetime hphase
        have hacted := hacted he hc
        rw [hphase] at hacted
        exact ⟨query, lifetime, input, hkey, hfetched, hacted, hat.symm, by rw [hexpires, hat]⟩

theorem run_known (pton : InetPton) (workerHost : Bytes) (bootstrap : Option Result)
    (start : ℕ) (events : List Event) :
    Known pton ⟨Resolver.start pton workerHost bootstrap start, []⟩ events
      (History.run (System.step pton) ⟨Resolver.start pton workerHost bootstrap start, []⟩
        events) := by
  induction events using List.reverseRecOn with
  | nil =>
      refine ⟨by simp, ?_⟩
      intro key e he
      rw [History.run_nil, (start_wireCache pton workerHost bootstrap start).1] at he
      cases he
  | append_singleton events e ih =>
      rw [History.run_concat]
      exact ih.step e

end

/-! ## Served again -/

/-- What `queryWire` answers from its cache. -/
def Resolver.wireHit (r : Resolver) (query : Query) (now : ℕ) : Option Bytes :=
  if r.workerHost.isEmpty ∨ lowercase query.name = lowercase r.workerHost then none
  else
    (r.lookupWire (wireKey query) now).1.map fun hit =>
      ageTtls (setId hit.1 query.id) (min hit.2 wireMaxTtlSeconds)

theorem step_wireHit (pton : InetPton) {c : Call} {r : Resolver} {input : Input} {query : Query}
    {answer : Bytes} (hphase : c.phase = .relay query)
    (hhit : r.wireHit query input.nowMs = some answer) :
    (c.step pton r input).2 = finish pton query answer := by
  rw [Resolver.wireHit] at hhit
  obtain ⟨hasks, hhit⟩ := Option.ite_none_left_eq_some.1 hhit
  obtain ⟨⟨cached, age⟩, hlookup, rfl⟩ := Option.map_eq_some_iff.1 hhit
  rw [Call.step, hphase]
  dsimp only
  rw [if_neg fun h => hasks (Or.inl h), if_neg fun h => hasks (Or.inr h)]
  cases hwire : r.lookupWire (wireKey query) input.nowMs with
  | mk hit r' =>
      rw [hwire] at hlookup
      cases hlookup
      rfl

theorem wireHit_entry {r : Resolver} {query : Query} {now : ℕ} {answer : Bytes}
    (h : r.wireHit query now = some answer) :
    ∃ e, r.wireCache.lookup (wireKey query) = some e ∧ now < e.expiresAtMs ∧
      answer = ageTtls (setId e.response query.id)
        (min (WorkerHealth.since now e.storedAtMs / 1000) wireMaxTtlSeconds) := by
  rw [Resolver.wireHit] at h
  obtain ⟨-, h⟩ := Option.ite_none_left_eq_some.1 h
  obtain ⟨hit, hlookup, rfl⟩ := Option.map_eq_some_iff.1 h
  rw [Resolver.lookupWire] at hlookup
  split at hlookup
  · cases hlookup
  · rename_i e he
    split at hlookup
    · rename_i hlive
      cases hlookup
      exact ⟨e, he, hlive, rfl⟩
    · cases hlookup

/-- The clock a step reads. -/
def Event.clock : Event → Option ℕ
  | .act _ input => some input.nowMs
  | _ => none

/-- The clock never goes back. -/
def Clocked (events : List Event) : Prop := (events.filterMap Event.clock).Pairwise (· ≤ ·)

theorem Acted.nowMs_le {pton : InetPton} {s : System} {events : List Event} {phase : Phase}
    {earlier : Input} (h : Acted pton s events phase earlier) {i : ℕ} {input : Input}
    (hclock : Clocked (events ++ [.act i input])) : earlier.nowMs ≤ input.nowMs := by
  obtain ⟨before, j, after, c, rfl, -⟩ := h
  rw [Clocked, List.filterMap_append] at hclock
  refine (List.pairwise_append.1 hclock).2.2 _ ?_ _ (by simp [Event.clock])
  exact List.mem_filterMap.2 ⟨.act j earlier, by simp, rfl⟩

theorem since_eq {now earlier : ℕ} (h : earlier ≤ now) (hnear : now - earlier < 2 ^ 64) :
    WorkerHealth.since now earlier = now - earlier := by
  rw [WorkerHealth.since]
  omega

/-- An answer from the wire cache is the message that the Worker sent for an earlier query
with the same key, with the id of this query and its TTLs down by the whole seconds since
it was stored. That message was fit to be kept, its lifetime has not run out, and the key
tells apart everything a query asks for. -/
theorem wireHit_correct (pton : InetPton) (workerHost : Bytes) (bootstrap : Option Result)
    (start : ℕ) (events : List Event) (i : ℕ) (input : Input) (c : Call) (query : Query)
    (answer : Bytes) (hclock : Clocked (events ++ [.act i input]))
    (hc : (History.run (System.step pton)
      ⟨Resolver.start pton workerHost bootstrap start, []⟩ events).calls[i]? = some c)
    (hphase : c.phase = .relay query)
    (hhit : (History.run (System.step pton)
      ⟨Resolver.start pton workerHost bootstrap start, []⟩ events).resolver.wireHit query
        input.nowMs = some answer) :
    let s := (⟨Resolver.start pton workerHost bootstrap start, []⟩ : System)
    (∃ reply, (((History.run (System.step pton) s events).step pton (.act i input)).calls[i]?).map
        Call.phase = some (.replied answer reply)) ∧
      (∃ earlier fetch response store lifetime,
        (earlier.name = query.name ∧ earlier.type = query.type ∧
          earlier.recursionDesired = query.recursionDesired ∧
          earlier.dnssecOk = query.dnssecOk ∧
          (earlier.ednsPayload ≠ 0 ↔ query.ednsPayload ≠ 0)) ∧
        Acted pton s events (.ask (.wire earlier)) fetch ∧ fetch.response = some response ∧
        Keepable earlier response.body lifetime ∧
        Acted pton s events (.keepWire earlier (setId response.body earlier.id) lifetime) store ∧
        store.nowMs ≤ input.nowMs ∧ input.nowMs < store.nowMs + lifetime * 1000 ∧
        AgedCopy response.body query.id ((input.nowMs - store.nowMs) / 1000) answer) ∧
      ∀ q q' : Query, wireKey q = wireKey q' →
        q.name = q'.name ∧ q.type = q'.type ∧ q.recursionDesired = q'.recursionDesired ∧
          q.dnssecOk = q'.dnssecOk ∧ (q.ednsPayload ≠ 0 ↔ q'.ednsPayload ≠ 0) := by
  intro s
  have hsound := system_sound pton workerHost bootstrap start events
  have hknown := run_known pton workerHost bootstrap start events
  have hask := hsound.calls i c hc
  rw [hphase] at hask
  have hquery : Asked query := Asks.asked hask
  obtain ⟨e, he, hlive, hanswer⟩ := wireHit_entry hhit
  obtain ⟨earlier, lifetime, store, hkey, ⟨fetch, response, hfetch, hresponse, hread, hpos⟩,
    hstore, hat, hexpires⟩ := hknown.entries _ e he
  obtain ⟨hkeepable, hstored⟩ := keepable_of_readWireAnswer hread hpos
  have hafter : store.nowMs ≤ input.nowMs := hstore.nowMs_le hclock
  have hbefore : input.nowMs < store.nowMs + lifetime * 1000 := by
    rw [hexpires, ← hat] at hlive
    exact hlive
  have hmax : lifetime ≤ 3600 := hkeepable.lifetime_le
  have hcopy : AgedCopy response.body query.id ((input.nowMs - store.nowMs) / 1000) answer := by
    have hage : min (WorkerHealth.since input.nowMs e.storedAtMs / 1000) wireMaxTtlSeconds =
        (input.nowMs - store.nowMs) / 1000 := by
      rw [← hat, since_eq hafter (by omega), wireMaxTtlSeconds]
      omega
    obtain ⟨info, hinfo, -⟩ := hkeepable.kind
    have hwalk : (walk (memory response.body) response.body.length).isSome := by
      obtain ⟨walked, hwalk, -⟩ := Option.map_eq_some_iff.1 hinfo
      rw [hwalk]
      rfl
    rw [hanswer, hage, hstored]
    exact agedCopy_of_walk hwalk earlier.id hquery.id_lt _
  refine ⟨?_, ⟨earlier, fetch, response, store, lifetime, wireKey_inj hkey, hfetch, hresponse,
    hkeepable, hstored ▸ hstore, hafter, hbefore, hcopy⟩, fun q q' h => wireKey_inj h⟩
  have hne : answer ≠ [] := by
    obtain ⟨questionEnd, records, hwalk, -⟩ := hcopy.records
    obtain ⟨hheader, hend, -⟩ := walk_bounds hwalk
    have hlength := hcopy.length
    rintro rfl
    simp only [List.length_nil, headerSize] at hlength hheader
    omega
  have hindex := (List.getElem?_eq_some_iff.1 hc).1
  rw [System.step, hc]
  dsimp only
  rw [List.getElem?_set_self hindex, step_wireHit pton hphase hhit, finish, if_neg hne]
  exact ⟨_, rfl⟩

/-- The query of the sample datagram, asked again. -/
def sampleQuery : Query := (parseQuery (memory sampleDatagram) sampleDatagram.length).1

def repeatedEvents : List Event := sampleEvents ++ [.buildReply sampleDatagram 0]

theorem repeatedEvents_relay : (History.run (System.step noLiterals)
    ⟨Resolver.start noLiterals [119] (some { v4 := [[49]] }) 0, []⟩
      repeatedEvents).calls[1]? = some ⟨some sampleDatagram, 0, .relay sampleQuery⟩ := by
  have hparse : parseQuery (memory sampleDatagram) sampleDatagram.length = (sampleQuery, true) := by
    decide +kernel
  have hcall : Call.buildReply sampleDatagram 0 =
      ⟨some sampleDatagram, 0, .relay sampleQuery⟩ := by
    have htype : ¬ (sampleQuery.type = typeA ∨ sampleQuery.type = typeAaaa) := by decide +kernel
    rw [Call.buildReply, hparse]
    dsimp only
    rw [if_neg htype]
  have hfirst : (History.run (System.step noLiterals)
      ⟨Resolver.start noLiterals [119] (some { v4 := [[49]] }) 0, []⟩
        sampleEvents).calls.length = 1 := by
    decide +kernel
  rw [repeatedEvents, History.run_concat, System.step, hcall]
  dsimp only
  rw [List.getElem?_append_right hfirst.le, hfirst]
  rfl

theorem repeatedEvents_wireHit : (History.run (System.step noLiterals)
    ⟨Resolver.start noLiterals [119] (some { v4 := [[49]] }) 0, []⟩
      repeatedEvents).resolver.wireHit sampleQuery 2000 = some (setId sampleBody 4660) := by
  decide +kernel

/-- The same query again two seconds later, from the cache. -/
theorem wireHit_correct_sample :
    ∃ (earlier : Query) (response : HttpResponse) (lifetime age : ℕ), earlier.name = [97] ∧
      Keepable earlier response.body lifetime ∧
      AgedCopy response.body 4660 age (setId sampleBody 4660) := by
  have hclock : Clocked (repeatedEvents ++ [.act 1 { nowMs := 2000 }]) := by
    change List.Pairwise (· ≤ ·) [0, 0, 0, 0, 0, 2000]
    decide
  obtain ⟨-, ⟨earlier, fetch, response, store, lifetime, ⟨hname, -⟩, -, -, hkeepable, -, -, -,
    hcopy⟩, -⟩ := wireHit_correct noLiterals [119] (some { v4 := [[49]] }) 0 repeatedEvents 1
      { nowMs := 2000 } _ sampleQuery (setId sampleBody 4660) hclock repeatedEvents_relay rfl
      repeatedEvents_wireHit
  exact ⟨earlier, response, lifetime, _, hname, hkeepable, hcopy⟩

end Dns

end SplitHello
