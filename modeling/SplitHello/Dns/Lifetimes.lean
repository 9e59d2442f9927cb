import SplitHello.Dns.WireCache

/-!
# Lifetimes of cached names

What `resolve` has learned is kept for as long as its kind allows, and a hit hands out no more
than what is left of that, rounded up to seconds. Entries that last for ever are marked by the
last moment the clock has; the Worker's own is such an entry, and no other one gets the mark
unless the clock itself comes near that moment.
-/

namespace SplitHello

namespace Dns

open ByteString KeyedTable

/-- How long a result is kept. -/
def lifetimeSeconds (result : Result) : ℕ :=
  if result.transient then transientCacheSeconds
  else if result.empty then negativeCacheSeconds
  else result.ttlSeconds

/-- A result that names addresses to be kept has a TTL within the bounds. -/
def Result.Bounded (result : Result) : Prop :=
  result.transient = true ∨ result.empty = true ∨
    minTtlSeconds ≤ result.ttlSeconds ∧ result.ttlSeconds ≤ maxTtlSeconds

/-- The three kinds of lifetimes. -/
structure LifetimeOf (result : Result) (lifetime : ℕ) : Prop where
  transient : result.transient = true → lifetime = 3
  negative : result.transient = false → result.empty = true → lifetime = 30
  positive : result.transient = false → result.empty = false → 60 ≤ lifetime ∧ lifetime ≤ 3600

theorem Result.Bounded.lifetimeOf {result : Result} (h : result.Bounded) :
    LifetimeOf result (lifetimeSeconds result) := by
  rw [lifetimeSeconds]
  refine ⟨fun htransient => ?_, fun htransient hempty => ?_, fun htransient hempty => ?_⟩
  · rw [if_pos htransient]
    rfl
  · rw [if_neg (by simp [htransient]), if_pos hempty]
    rfl
  · rw [if_neg (by simp [htransient]), if_neg (by simp [hempty])]
    rcases h with hyes | hyes | hbounds
    · rw [hyes] at htransient
      cases htransient
    · rw [hyes] at hempty
      cases hempty
    · exact hbounds

/-! ## What is left of a lifetime -/

section

variable {result : Result} {expiresAtMs now later : ℕ}

theorem agedResult_ttl (hmark : expiresAtMs ≠ neverExpires) (httl : result.ttlSeconds ≠ 0) :
    (agedResult result expiresAtMs now).ttlSeconds =
      max 1 (min ((expiresAtMs - now + 999) / 1000) result.ttlSeconds) := by
  rw [agedResult, if_neg (not_or.2 ⟨hmark, httl⟩)]

theorem agedResult_of_zero (httl : result.ttlSeconds = 0) :
    agedResult result expiresAtMs now = result := if_pos (Or.inr httl)

/-- A live entry hands out at least a second and at most what it has left, rounded up. -/
theorem agedResult_bounds (hmark : expiresAtMs ≠ neverExpires) (httl : result.ttlSeconds ≠ 0)
    (hlive : now < expiresAtMs) :
    1 ≤ (agedResult result expiresAtMs now).ttlSeconds ∧
      (agedResult result expiresAtMs now).ttlSeconds ≤ result.ttlSeconds ∧
      now + 1000 * (agedResult result expiresAtMs now).ttlSeconds < expiresAtMs + 1000 := by
  rw [agedResult_ttl hmark httl]
  omega

theorem agedResult_antitone (hmark : expiresAtMs ≠ neverExpires) (hle : now ≤ later) :
    (agedResult result expiresAtMs later).ttlSeconds ≤
      (agedResult result expiresAtMs now).ttlSeconds := by
  by_cases httl : result.ttlSeconds = 0
  · rw [agedResult_of_zero httl, agedResult_of_zero httl]
  · rw [agedResult_ttl hmark httl, agedResult_ttl hmark httl]
    omega

end

/-! ## Where an entry comes from -/

section

variable {pton : InetPton}

theorem readAnswer_bounded (pton : InetPton) (response : HttpResponse) :
    (readAnswer pton response).Bounded := by
  rw [readAnswer]
  split
  · exact Or.inl rfl
  split
  · exact Or.inr (Or.inl rfl)
  split
  · exact Or.inl rfl
  · dsimp only
    cases hpartly : Json.getBool response.body (ofString "partial") with
    | true => exact Or.inl rfl
    | false =>
        refine Or.inr (Or.inr ?_)
        simp only [Bool.false_eq_true, if_false, minTtlSeconds, maxTtlSeconds]
        omega

/-- Only what ends a lookup is on its way to the cache. -/
theorem step_keep {c : Call} {r : Resolver} {input : Input} {key : Bytes} {asker : Option Query}
    {result : Result} (h : (c.step pton r input).2 = .keep key asker result) :
    result.Bounded := by
  have hidle : ∀ phase : Phase, phase.Idle → phase ≠ .keep key asker result := by
    rintro phase hphase rfl
    exact hphase
  have hrefused : ∀ errand, refused pton errand = .keep key asker result → result.Bounded := by
    intro errand heq
    cases errand with
    | name key' asker' =>
        cases heq
        exact Or.inl rfl
    | wire query => cases heq
  have hstep := step_callStep pton c r input
  generalize c.phase = phase at hstep
  generalize c.step pton r input = next at hstep h
  cases hstep with
  | settles key' asker' result' | keeps key' asker' result' =>
      exact absurd h (hidle _ (returned_idle pton asker' result'))
  | begins key' asker' =>
      dsimp only at h
      rw [startQuery] at h
      split at h
      · cases h
        exact Or.inr (Or.inl rfl)
      · split at h
        · cases h
          exact Or.inr (Or.inl rfl)
        · cases h
  | late errand | declines errand => exact hrefused errand h
  | fails key' asker' =>
      cases h
      exact Or.inl rfl
  | hears key' asker' response =>
      cases h
      exact readAnswer_bounded pton response
  | receives query response =>
      dsimp only at h
      rcases received_cases pton query response with
        ⟨answer, lifetime, -, -, heq⟩ | ⟨whole, reply, heq⟩
      · rw [heq] at h
        cases h
      · rw [heq] at h
        cases h
  | rests phase hover =>
      dsimp only at h
      rw [h] at hover
      exact hover.elim
  | waits | passes | refreshes | stays | renews | releases | enters | throws | gives | hits
  | misses | keepsWire => cases h

theorem step_workerHost (c : Call) (r : Resolver) (input : Input) :
    (c.step pton r input).1.workerHost = r.workerHost := by
  have hstep := step_callStep pton c r input
  generalize c.phase = phase at hstep
  generalize c.step pton r input = next at hstep ⊢
  cases hstep <;> rfl

theorem lookup_makeRoom {r : Resolver} {bucket : Bytes → ℕ} {key k : Bytes} {e : Entry}
    (h : (r.makeRoom bucket key).lookup k = some e) : r.cache.lookup k = some e := by
  rw [Resolver.makeRoom] at h
  split at h
  · dsimp only at h
    split at h
    · exact (lookup_erase_cases h).2
    · exact h
  · exact h

/-- An ordinary entry after a step was there before, or the step stored it. -/
theorem step_cache {c : Call} {r : Resolver} {input : Input} {key : Bytes} {e : Entry}
    (hordinary : key ≠ lowercase r.workerHost)
    (h : (c.step pton r input).1.cache.lookup key = some e) :
    r.cache.lookup key = some e ∨
      ∃ asker, c.phase = .keep key asker e.result ∧
        e.expiresAtMs = input.nowMs + lifetimeSeconds e.result * 1000 := by
  have hstep := step_callStep pton c r input
  generalize c.phase = phase at hstep ⊢
  generalize c.step pton r input = next at hstep h
  cases hstep with
  | renews errand result =>
      dsimp only at h
      rw [AList.lookup_insert_ne hordinary] at h
      exact Or.inl h
  | keeps key' asker result =>
      rcases lookup_insert_cases h with ⟨rfl, rfl⟩ | ⟨-, h⟩
      · exact Or.inr ⟨asker, rfl, rfl⟩
      · exact Or.inl (lookup_makeRoom h)
  | settles | waits | begins | late | passes | refreshes | stays | releases | declines
  | enters | fails | hears | throws | receives | gives | hits | misses | keepsWire | rests =>
      exact Or.inl h

end

/-! ## Runs -/

section

variable (pton : InetPton)

/-- A result was on its way to the cache in this run and was stored there. -/
def Kept (s : System) (events : List Event) (key : Bytes) (e : Entry) : Prop :=
  ∃ asker store, Acted pton s events (.keep key asker e.result) store ∧ e.result.Bounded ∧
    e.expiresAtMs = store.nowMs + lifetimeSeconds e.result * 1000

/-- Whatever is kept or about to be kept has a lifetime of its kind. -/
structure KeepsNames (workerHost : Bytes) (s : System) (events : List Event) (now : System) :
    Prop where
  host : now.resolver.workerHost = workerHost
  calls : ∀ c ∈ now.calls, ∀ key asker result, c.phase = .keep key asker result → result.Bounded
  entries : ∀ key e, key ≠ lowercase workerHost → now.resolver.cache.lookup key = some e →
    Kept pton s events key e

variable {pton} {workerHost : Bytes} {s : System} {events : List Event}

theorem Kept.later {key : Bytes} {entry : Entry} (h : Kept pton s events key entry) (e : Event) :
    Kept pton s (events ++ [e]) key entry := by
  obtain ⟨asker, store, hacted, hrest⟩ := h
  exact ⟨asker, store, hacted.later e, hrest⟩

theorem KeepsNames.step
    (h : KeepsNames pton workerHost s events (History.run (System.step pton) s events))
    (e : Event) :
    KeepsNames pton workerHost s (events ++ [e])
      ((History.run (System.step pton) s events).step pton e) := by
  generalize hnow : History.run (System.step pton) s events = now at h ⊢
  refine ⟨?_, ?_, fun key entry hordinary hentry => ?_⟩
  · rcases now.resolver_step pton e with hsame | hcleared | ⟨index, input, c, -, -, hstep⟩
    · rw [hsame, h.host]
    · rw [hcleared]
      exact h.host
    · rw [hstep, step_workerHost, h.host]
  · refine System.forall_calls_step pton h.calls ?_ ?_ ?_
    · intro datagram deadlineMs _ key asker result hphase
      rw [Call.buildReply] at hphase
      dsimp only at hphase
      split at hphase
      · cases hphase
      · split at hphase <;> cases hphase
    · intro host deadlineMs key asker result hphase
      cases hphase
    · intro index input c _ _ key asker result hphase
      exact step_keep hphase
  · rcases now.resolver_step pton e with hsame | hcleared | ⟨index, input, c, he, hc, hstep⟩
    · rw [hsame] at hentry
      exact (h.entries key entry hordinary hentry).later e
    · rw [hcleared, Resolver.clearCache] at hentry
      dsimp only at hentry
      rw [lookup_eraseIf] at hentry
      exact (h.entries key entry hordinary (Option.eq_some_of_filter_eq_some hentry)).later e
    · rw [hstep] at hentry
      rcases step_cache (h.host.symm ▸ hordinary) hentry with hold | ⟨asker, hphase, hexpires⟩
      · exact (h.entries key entry hordinary hold).later e
      · have hacted : Acted pton s (events ++ [.act index input]) c.phase input :=
          Acted.here input (hnow.symm ▸ hc)
        rw [hphase, ← he] at hacted
        exact ⟨asker, input, hacted, h.calls c (List.mem_of_getElem? hc) key asker _ hphase,
          hexpires⟩

theorem start_cache {bootstrap : Option Result} {start : ℕ} {key : Bytes} {e : Entry}
    (h : (Resolver.start pton workerHost bootstrap start).cache.lookup key = some e) :
    key = lowercase workerHost := by
  unfold Resolver.start at h
  split at h
  · cases h
  split at h
  · cases h
  split at h
  · cases h
  · rcases lookup_insert_cases h with ⟨hkey, -⟩ | ⟨-, hnone⟩
    · exact hkey
    · cases hnone

theorem start_workerHost (pton : InetPton) (workerHost : Bytes) (bootstrap : Option Result)
    (start : ℕ) : (Resolver.start pton workerHost bootstrap start).workerHost = workerHost := by
  unfold Resolver.start
  repeat' split
  all_goals rfl

theorem run_keepsNames (pton : InetPton) (workerHost : Bytes) (bootstrap : Option Result)
    (start : ℕ) (events : List Event) :
    KeepsNames pton workerHost ⟨Resolver.start pton workerHost bootstrap start, []⟩ events
      (History.run (System.step pton) ⟨Resolver.start pton workerHost bootstrap start, []⟩
        events) := by
  induction events using List.reverseRecOn with
  | nil =>
      refine ⟨start_workerHost pton workerHost bootstrap start, by simp, ?_⟩
      intro key e hordinary he
      exact absurd (start_cache he) hordinary
  | append_singleton events e ih =>
      rw [History.run_concat]
      exact ih.step e

end

/-! ## Hits -/

/-- A call looks up a name, which is not the Worker's own, and finds it in the cache. -/
structure NameHit (pton : InetPton) (s : System) (events : List Event) (i : ℕ) (input : Input)
    (key : Bytes) (e : Entry) : Prop where
  asks : ∃ c asker, (History.run (System.step pton) s events).calls[i]? = some c ∧
    c.phase = .resolve key asker
  ordinary : key ≠ lowercase s.resolver.workerHost
  looksUp : key ≠ [] ∧ isIpLiteral pton key = false
  cached : (History.run (System.step pton) s events).resolver.cache.lookup key = some e
  live : input.nowMs < e.expiresAtMs

/-- What such a call goes on with. -/
theorem NameHit.returns {pton : InetPton} {s : System} {events : List Event} {i : ℕ}
    {input : Input} {key : Bytes} {e : Entry} (h : NameHit pton s events i input key e) {c : Call}
    {asker : Option Query} (hc : (History.run (System.step pton) s events).calls[i]? = some c)
    (hphase : c.phase = .resolve key asker) :
    (((History.run (System.step pton) s events).step pton (.act i input)).calls[i]?).map
      Call.phase = some (returned pton asker (agedResult e.result e.expiresAtMs input.nowMs)) := by
  have hstart : (History.run (System.step pton) s events).resolver.resolveStart pton key
      input.nowMs = (.settled (agedResult e.result e.expiresAtMs input.nowMs),
        (History.run (System.step pton) s events).resolver) := by
    rw [Resolver.resolveStart, if_neg (by simp [h.looksUp.1]), if_neg (by simp [h.looksUp.2]),
      Resolver.lookup, h.cached, Option.filter_some_pos (by simpa using h.live)]
  have hindex := (List.getElem?_eq_some_iff.1 hc).1
  rw [System.step, hc]
  dsimp only
  rw [List.getElem?_set_self hindex, Call.step, hphase]
  dsimp only
  rw [hstart]
  rfl

/-- A name that is found in the cache was stored there with a lifetime of its kind, and this
has not run out. What is handed out is no more than what is left of it, rounded up, and never
grows from one hit to the next. -/
theorem cached_name_lifetime (pton : InetPton) (workerHost : Bytes) (bootstrap : Option Result)
    (start : ℕ) (events : List Event) (i : ℕ) (input : Input)
    (hclock : Clocked (events ++ [.act i input])) {key : Bytes} {e : Entry}
    (hhit : NameHit pton ⟨Resolver.start pton workerHost bootstrap start, []⟩ events i input key e)
    (hmark : e.expiresAtMs ≠ neverExpires) :
    let s := (⟨Resolver.start pton workerHost bootstrap start, []⟩ : System)
    let handedOut := (agedResult e.result e.expiresAtMs input.nowMs).ttlSeconds
    (∃ asker, (((History.run (System.step pton) s events).step pton (.act i input)).calls[i]?).map
      Call.phase = some (returned pton asker (agedResult e.result e.expiresAtMs input.nowMs))) ∧
    (∃ asker store lifetime, Acted pton s events (.keep key asker e.result) store ∧
      store.nowMs ≤ input.nowMs ∧ LifetimeOf e.result lifetime ∧
      e.expiresAtMs = store.nowMs + 1000 * lifetime ∧
      input.nowMs < store.nowMs + 1000 * lifetime ∧
      (e.result.ttlSeconds ≠ 0 →
        1 ≤ handedOut ∧ handedOut ≤ e.result.ttlSeconds ∧
        input.nowMs + 1000 * handedOut < store.nowMs + 1000 * lifetime + 1000)) ∧
    ∀ before j earlier after, events = before ++ .act j earlier :: after →
      NameHit pton s before j earlier key e →
        handedOut ≤ (agedResult e.result e.expiresAtMs earlier.nowMs).ttlSeconds := by
  intro s handedOut
  have hordinary : key ≠ lowercase workerHost := by
    have hname := hhit.ordinary
    rwa [start_workerHost] at hname
  obtain ⟨asker, store, hacted, hbounded, hexpires⟩ :=
    (run_keepsNames pton workerHost bootstrap start events).entries key e hordinary hhit.cached
  rw [Nat.mul_comm] at hexpires
  have hlive := hhit.live
  obtain ⟨c, caller, hc, hphase⟩ := hhit.asks
  refine ⟨⟨caller, hhit.returns hc hphase⟩, ⟨asker, store, lifetimeSeconds e.result, hacted,
    hacted.nowMs_le hclock, hbounded.lifetimeOf, hexpires, hexpires ▸ hlive, fun httl => ?_⟩, ?_⟩
  · rw [← hexpires]
    exact agedResult_bounds hmark httl hlive
  · rintro before j earlier after rfl -
    refine agedResult_antitone hmark ?_
    rw [Clocked, List.append_assoc, List.filterMap_append] at hclock
    have htail := (List.pairwise_append.1 hclock).2.1
    exact List.rel_of_pairwise_cons htail
      (List.mem_filterMap.2 ⟨.act i input, by simp, rfl⟩)

/-- The name `a` is asked for, the Worker knows no address of it, and it is asked for again. -/
def emptyEvents (stored : ℕ) : List Event :=
  [.resolve [97] 0, .act 0 {}, .act 0 {}, .act 0 {}, .act 0 { response := some { status := 200 } },
    .act 0 { nowMs := stored }, .resolve [97] 0]

theorem emptyEvents_clocked {stored later : ℕ} (hle : stored ≤ later) :
    Clocked (emptyEvents stored ++ [.act 1 { nowMs := later }]) := by
  change List.Pairwise (· ≤ ·) [0, 0, 0, 0, stored, later]
  simp [hle]

theorem emptyEvents_hit {stored later : ℕ} (hlive : later < stored + 30000) : NameHit noLiterals
    ⟨Resolver.start noLiterals [119] (some { v4 := [[49]] }) 0, []⟩ (emptyEvents stored) 1
      { nowMs := later } [97]
      ⟨{ ttlSeconds := 60, allowWireFallback := true }, stored + 30000⟩ where
  asks := ⟨⟨none, 0, .resolve [97] none⟩, none, rfl, rfl⟩
  ordinary := by decide +kernel
  looksUp := by decide
  cached := rfl
  live := hlive

/-- A name without addresses is kept for thirty seconds, so that 29 s are left of its minute
a second after it was stored. -/
theorem cached_name_lifetime_sample :
    ∃ store lifetime : ℕ, 2000 < store + 1000 * lifetime ∧ lifetime = 30 ∧
      1 ≤ (agedResult { ttlSeconds := 60, allowWireFallback := true } 31000 2000).ttlSeconds ∧
      2000 + 1000 * (agedResult { ttlSeconds := 60, allowWireFallback := true } 31000
        2000).ttlSeconds < store + 1000 * lifetime + 1000 := by
  obtain ⟨-, ⟨-, store, lifetime, -, -, hlifetime, -, hlive, hbounds⟩, -⟩ :=
    cached_name_lifetime noLiterals [119] (some { v4 := [[49]] }) 0 (emptyEvents 1000) 1
      { nowMs := 2000 } (emptyEvents_clocked (by decide)) (emptyEvents_hit (by decide))
      (by decide)
  obtain ⟨hpos, -, hend⟩ := hbounds (by decide)
  exact ⟨store.nowMs, lifetime, hlive, hlifetime.negative rfl rfl, hpos, hend⟩

/-- An entry that ends at the last moment the clock has is taken for one that lasts for ever,
and its TTL is handed out in full. -/
theorem last_moment_not_aged : ∃ (events : List Event) (input store : Input) (result : Result)
    (handedOut : Result),
    let s := (⟨Resolver.start noLiterals [119] (some { v4 := [[49]] }) 0, []⟩ : System)
    Clocked (events ++ [.act 1 input]) ∧ input.nowMs < neverExpires ∧
      NameHit noLiterals s events 1 input [97] ⟨result, store.nowMs + 1000 * 30⟩ ∧
      Acted noLiterals s events (.keep [97] none result) store ∧
      result.transient = false ∧ result.empty = true ∧ result.ttlSeconds ≠ 0 ∧
      (((History.run (System.step noLiterals) s events).step noLiterals
        (.act 1 input)).calls[1]?).map Call.phase = some (.found handedOut) ∧
      ¬ input.nowMs + 1000 * handedOut.ttlSeconds < store.nowMs + 1000 * 30 + 1000 := by
  let stored := neverExpires - 30000
  have hhit : NameHit noLiterals ⟨Resolver.start noLiterals [119] (some { v4 := [[49]] }) 0, []⟩
      (emptyEvents stored) 1 { nowMs := stored } [97]
        ⟨{ ttlSeconds := 60, allowWireFallback := true }, stored + 30000⟩ :=
    emptyEvents_hit (by omega)
  have haged : agedResult { ttlSeconds := 60, allowWireFallback := true } (stored + 30000) stored =
      { ttlSeconds := 60, allowWireFallback := true } := by
    decide +kernel
  refine ⟨emptyEvents stored, { nowMs := stored }, { nowMs := stored },
    { ttlSeconds := 60, allowWireFallback := true },
    { ttlSeconds := 60, allowWireFallback := true }, emptyEvents_clocked le_rfl, by decide +kernel,
    hhit, ?_, rfl, rfl, by decide, ?_, by decide +kernel⟩
  · exact ⟨(emptyEvents stored).take 5, 0, [.resolve [97] 0], _, rfl, rfl, rfl⟩
  · rw [hhit.returns rfl rfl, haged]
    rfl

end Dns

end SplitHello
