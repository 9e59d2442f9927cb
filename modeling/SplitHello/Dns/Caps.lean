import SplitHello.Dns.Service

/-!
# The bounds of the resolver's caches

A new name in a full cache takes the place of the one that expires first, the Worker's
own aside, and the wire cache does the same. The Worker's own entry goes in without
anything making room for it. As a rule it is there from the start; on a machine that
starts offline it can come into a cache that has been filled meanwhile, and the cache is
one entry too large from then on.
-/

namespace SplitHello

namespace Dns

open ByteString KeyedTable

def Resolver.WithinCaps (r : Resolver) : Prop :=
  size r.cache ≤ maxCacheEntries ∧ size r.wireCache ≤ maxWireCacheEntries

/-- An entry that a full cache may give up: not the Worker's own, and none of the others
expires earlier. -/
def Resolver.FirstToExpire (r : Resolver) (key : Bytes) : Prop :=
  key ≠ lowercase r.workerHost ∧
    ∃ e, r.cache.lookup key = some e ∧
      ∀ key' e', r.cache.lookup key' = some e' → key' ≠ lowercase r.workerHost →
        e.expiresAtMs ≤ e'.expiresAtMs

def Resolver.FirstToExpireWire (r : Resolver) (key : Bytes) : Prop :=
  ∃ e, r.wireCache.lookup key = some e ∧
    ∀ key' e', r.wireCache.lookup key' = some e' → e.expiresAtMs ≤ e'.expiresAtMs

section

variable (pton : InetPton)

/-- What a step takes out of the caches to store something under a new name. -/
structure System.EvictsFairly (s : System) (e : Event) : Prop where
  names : e ≠ .clearCache → ∀ key, key ∈ s.resolver.cache →
    key ∉ (s.step pton e).resolver.cache → s.resolver.FirstToExpire key ∧
      ∀ key', key' ∈ s.resolver.cache → key' ∉ (s.step pton e).resolver.cache → key' = key
  wire : ∀ index input c query answer lifetime, e = .act index input →
    s.calls[index]? = some c → c.phase = .keepWire query answer lifetime →
    ∀ key, key ∈ s.resolver.wireCache → key ∉ (s.step pton e).resolver.wireCache →
      s.resolver.FirstToExpireWire key ∧
        ∀ key', key' ∈ s.resolver.wireCache → key' ∉ (s.step pton e).resolver.wireCache →
          key' = key

/-- A refresh brings the Worker's first addresses into a cache that is full already. -/
def System.Overfills (s : System) (e : Event) : Prop :=
  ∃ index input c errand a aaaa result, e = .act index input ∧
    s.calls[index]? = some c ∧ Call.phase c = .refresh errand ∧
    Input.bootstrap input = some (a, aaaa) ∧
    lookupViaDohByAddress pton (lowercase s.resolver.workerHost) a aaaa = some result ∧
    lowercase s.resolver.workerHost ∉ s.resolver.cache ∧
    maxCacheEntries ≤ size s.resolver.cache

end

/-! ## Making room -/

/-- Room for a new name is made by the entry that expires first. -/
theorem makeRoom_cases (r : Resolver) (bucket : Bytes → ℕ) (key : Bytes) :
    r.makeRoom bucket key = r.cache ∧
        (key ∈ r.cache ∨ size r.cache < maxCacheEntries) ∨
      ∃ victim, r.FirstToExpire victim ∧ r.makeRoom bucket key = r.cache.erase victim := by
  rw [Resolver.makeRoom]
  split
  · rename_i hfull
    obtain ⟨hnew, hfull⟩ := hfull
    right
    dsimp only
    have hothers (k : Bytes) (e : Entry) :
        ⟨k, e⟩ ∈ (eraseIf (fun k _ => k = lowercase r.workerHost) r.cache).entries ↔
          r.cache.lookup k = some e ∧ k ≠ lowercase r.workerHost := by
      rw [← AList.mem_lookup_iff, Option.mem_def, lookup_eraseIf]
      simp [Option.filter_eq_some_iff]
    cases holdest : oldest Entry.expiresAtMs bucket
        (eraseIf (fun k _ => k = lowercase r.workerHost) r.cache) with
    | some victim =>
        obtain ⟨hvictim, hne⟩ := (hothers victim.1 victim.2).1 (List.argmin_mem holdest)
        refine ⟨victim.1, ⟨hne, victim.2, hvictim, ?_⟩, rfl⟩
        intro key' e' he' hne'
        exact oldest_le holdest ⟨key', e'⟩ ((hothers key' e').2 ⟨he', hne'⟩)
    | none =>
        -- The Worker's own entry alone does not fill a cache.
        have hnone : (eraseIf (fun k _ => k = lowercase r.workerHost) r.cache).entries = [] :=
          List.argmin_eq_none.1 holdest
        have hempty : Shrinks (r.cache.erase (lowercase r.workerHost))
            (eraseIf (fun k _ => k = lowercase r.workerHost) r.cache) := by
          intro k e he
          obtain ⟨hne, he⟩ := lookup_erase_cases he
          exact AList.mem_lookup_iff.2 ((hothers k e).2 ⟨he, hne⟩)
        have hsize := hempty.size_le
        have hle := size_le_size_erase r.cache (lowercase r.workerHost)
        have hzero : size (eraseIf (fun k _ => k = lowercase r.workerHost) r.cache) = 0 := by
          rw [size, AList.keys, hnone]
          rfl
        rw [maxCacheEntries] at hfull
        omega
  · rename_i hroom
    refine Or.inl ⟨rfl, ?_⟩
    by_contra hneither
    exact hroom (by simpa [not_or] using hneither)

theorem size_keep_le {r : Resolver} (h : size r.cache ≤ maxCacheEntries) (key : Bytes)
    (result : Result) (now : ℕ) (bucket : Bytes → ℕ) :
    size (r.keep key result now bucket).cache ≤ maxCacheEntries := by
  rw [Resolver.keep]
  dsimp only
  rcases makeRoom_cases r bucket key with ⟨hsame, hroom⟩ | ⟨victim, ⟨-, e, he, -⟩, herased⟩
  · rw [hsame]
    rcases hroom with hold | hroom
    · rwa [size_insert_of_mem _ hold]
    · exact (size_insert_le _ _ _).trans hroom
  · rw [herased]
    refine (size_insert_le _ _ _).trans ?_
    rwa [size_erase_of_mem (mem_of_lookup he)]

/-- A name that is gone after a result was stored made room for it. -/
theorem keep_evicts (r : Resolver) (key : Bytes) (result : Result) (now : ℕ)
    (bucket : Bytes → ℕ) :
    (∀ k ∈ r.cache, k ∈ (r.keep key result now bucket).cache) ∨
      ∃ victim, r.FirstToExpire victim ∧
        ∀ k ∈ r.cache, k ∉ (r.keep key result now bucket).cache → k = victim := by
  rw [Resolver.keep]
  dsimp only
  rcases makeRoom_cases r bucket key with ⟨hsame, -⟩ | ⟨victim, hvictim, herased⟩
  · rw [hsame]
    exact Or.inl fun k hk => (AList.mem_insert _).2 (Or.inr hk)
  · rw [herased]
    refine Or.inr ⟨victim, hvictim, fun k hk hgone => ?_⟩
    by_contra hne
    exact hgone ((AList.mem_insert _).2 (Or.inr (AList.mem_erase.2 ⟨hne, hk⟩)))

theorem size_keepWire_le {r : Resolver} (h : size r.wireCache ≤ maxWireCacheEntries)
    (key answer : Bytes) (lifetime now : ℕ) (bucket : Bytes → ℕ) :
    size (r.keepWire key answer lifetime now bucket).wireCache ≤ maxWireCacheEntries := by
  rw [Resolver.keepWire]
  dsimp only
  split
  · have hlt := size_evictOldest_lt (by decide) WireEntry.expiresAtMs bucket h
    exact (size_insert_le _ _ _).trans hlt
  · rename_i hroom
    by_cases hold : key ∈ r.wireCache
    · rwa [size_insert_of_mem _ hold]
    · have hlt : size r.wireCache < maxWireCacheEntries := by
        by_contra hfull
        exact hroom ⟨hold, Nat.le_of_not_lt hfull⟩
      exact (size_insert_le _ _ _).trans hlt

theorem keepWire_evicts (r : Resolver) (key answer : Bytes) (lifetime now : ℕ)
    (bucket : Bytes → ℕ) :
    (∀ k ∈ r.wireCache, k ∈ (r.keepWire key answer lifetime now bucket).wireCache) ∨
      ∃ victim, r.FirstToExpireWire victim ∧
        ∀ k ∈ r.wireCache, k ∉ (r.keepWire key answer lifetime now bucket).wireCache →
          k = victim := by
  rw [Resolver.keepWire, evictOldest]
  dsimp only
  split
  · cases holdest : oldest WireEntry.expiresAtMs bucket r.wireCache with
    | none => exact Or.inl fun k hk => (AList.mem_insert _).2 (Or.inr hk)
    | some victim =>
        have hvictim : r.wireCache.lookup victim.1 = some victim.2 :=
          AList.mem_lookup_iff.2 (List.argmin_mem holdest)
        refine Or.inr ⟨victim.1, ⟨victim.2, hvictim, ?_⟩, fun k hk hgone => ?_⟩
        · intro key' e' he'
          exact oldest_le holdest ⟨key', e'⟩ (AList.mem_lookup_iff.1 he')
        · by_contra hne
          exact hgone ((AList.mem_insert _).2 (Or.inr (AList.mem_erase.2 ⟨hne, hk⟩)))
  · exact Or.inl fun k hk => (AList.mem_insert _).2 (Or.inr hk)

/-! ## One step -/

section

variable (pton : InetPton)

/-- A step keeps to the bounds unless it overfills the cache. -/
theorem System.withinCaps_step {s : System} (h : s.resolver.WithinCaps) {e : Event}
    (hfits : ¬ s.Overfills pton e) : (s.step pton e).resolver.WithinCaps := by
  rcases s.resolver_step pton e with hsame | hcleared | ⟨index, input, c, rfl, hc, hacted⟩
  · rwa [hsame]
  · rw [hcleared]
    exact ⟨(size_eraseIf_le _ _).trans h.1, Nat.zero_le _⟩
  · rw [hacted]
    have hstep := step_callStep pton c s.resolver input
    generalize hphase : c.phase = phase at hstep
    generalize c.step pton s.resolver input = next at hstep ⊢
    cases hstep with
    | renews errand result a aaaa hfresh hinput =>
        refine ⟨?_, h.2⟩
        by_cases hold : lowercase s.resolver.workerHost ∈ s.resolver.cache
        · exact (size_insert_of_mem _ hold).trans_le h.1
        · have hroom : size s.resolver.cache < maxCacheEntries := by
            by_contra hfull
            exact hfits ⟨index, input, c, errand, a, aaaa, result, rfl, hc, hphase, hinput, hfresh,
              hold, Nat.le_of_not_lt hfull⟩
          exact (size_insert_le _ _ _).trans hroom
    | keeps key asker result => exact ⟨size_keep_le h.1 _ _ _ _, h.2⟩
    | misses query wireCache hname hcache => exact ⟨h.1, hcache.size_le.trans h.2⟩
    | keepsWire query answer lifetime => exact ⟨h.1, size_keepWire_le h.2 _ _ _ _ _⟩
    | settles | waits | begins | late | passes | refreshes | stays | releases | declines
    | enters | fails | hears | throws | receives | gives | hits | rests => exact h

/-- A step that overfills the cache breaks its bound. -/
theorem System.Overfills.not_withinCaps {s : System} {e : Event} (h : s.Overfills pton e) :
    ¬ (s.step pton e).resolver.WithinCaps := by
  obtain ⟨index, input, c, errand, a, aaaa, result, rfl, hc, hphase, hinput, hfresh, hnew, hfull⟩ :=
    h
  rintro ⟨hcache, -⟩
  rw [System.step, hc] at hcache
  dsimp only at hcache
  rw [Call.step, hphase] at hcache
  dsimp only at hcache
  rw [hinput, Option.bind_some] at hcache
  dsimp only at hcache
  rw [hfresh] at hcache
  have hsize : size (s.resolver.cache.insert (lowercase s.resolver.workerHost)
      ⟨result, neverExpires⟩) = size s.resolver.cache + 1 := size_insert_of_notMem _ hnew
  rw [hsize] at hcache
  omega

theorem System.evictsFairly (s : System) (e : Event) : s.EvictsFairly pton e := by
  refine ⟨?_, ?_⟩
  · intro hclear key hin hgone
    suffices hevicts : ∃ victim, s.resolver.FirstToExpire victim ∧
        ∀ k ∈ s.resolver.cache, k ∉ (s.step pton e).resolver.cache → k = victim by
      obtain ⟨victim, hvictim, hall⟩ := hevicts
      obtain rfl := hall key hin hgone
      exact ⟨hvictim, hall⟩
    cases e with
    | buildReply datagram deadlineMs => exact absurd hin hgone
    | resolve host deadlineMs => exact absurd hin hgone
    | clearCache => exact absurd rfl hclear
    | act index input =>
        rw [System.step] at hgone ⊢
        split at hgone
        · exact absurd hin hgone
        · rename_i c hc
          have hstep := step_callStep pton c s.resolver input
          generalize c.phase = phase at hstep
          dsimp only at hgone ⊢
          generalize c.step pton s.resolver input = next at hstep hgone ⊢
          cases hstep with
          | keeps key' asker result =>
              rcases keep_evicts s.resolver key' result input.nowMs input.bucket with hall | hevicts
              · exact absurd (hall key hin) hgone
              · exact hevicts
          | renews => exact absurd ((AList.mem_insert _).2 (Or.inr hin)) hgone
          | settles | waits | begins | late | passes | refreshes | stays | releases | declines
          | enters | fails | hears | throws | receives | gives | hits | misses | keepsWire
          | rests => exact absurd hin hgone
  · rintro index input c query answer lifetime rfl hc hphase key hin hgone
    have hstep : (s.step pton (.act index input)).resolver =
        s.resolver.keepWire (wireKey query) answer lifetime input.nowMs input.bucket := by
      rw [System.step, hc]
      dsimp only
      rw [Call.step, hphase]
    rw [hstep] at hgone ⊢
    rcases keepWire_evicts s.resolver (wireKey query) answer lifetime input.nowMs input.bucket with
      hall | ⟨victim, hvictim, hall⟩
    · exact absurd (hall key hin) hgone
    · obtain rfl := hall key hin hgone
      exact ⟨hvictim, hall⟩

/-! ## Runs -/

theorem start_withinCaps (workerHost : Bytes) (bootstrap : Option Result) (start : ℕ) :
    (Resolver.start pton workerHost bootstrap start).WithinCaps := by
  refine ⟨?_, ?_⟩
  · unfold Resolver.start
    repeat' split
    · exact Nat.zero_le _
    · exact Nat.zero_le _
    · exact Nat.zero_le _
    · exact (size_insert_le _ _ _).trans (by decide)
  · rw [(start_wireCache pton workerHost bootstrap start).1]
    exact Nat.zero_le _

/-- The caches keep to their bounds all through a run, with fair evictions, exactly when no
refresh brings the Worker's first addresses into a full cache. -/
theorem caches_within_caps_iff (workerHost : Bytes) (bootstrap : Option Result) (start : ℕ)
    (events : List Event) :
    let s := (⟨Resolver.start pton workerHost bootstrap start, []⟩ : System)
    ((∀ before after, events = before ++ after →
        (History.run (System.step pton) s before).resolver.WithinCaps) ∧
      ∀ before e after, events = before ++ e :: after →
        (History.run (System.step pton) s before).EvictsFairly pton e) ↔
      ∀ before e after, events = before ++ e :: after →
        ¬ (History.run (System.step pton) s before).Overfills pton e := by
  intro s
  constructor
  · rintro ⟨hcaps, -⟩ before e after heq hoverfills
    have hreached := hcaps (before ++ [e]) after (by simpa using heq)
    rw [History.run_concat] at hreached
    exact hoverfills.not_withinCaps pton hreached
  · intro hfits
    refine ⟨?_, fun before e after _ => System.evictsFairly pton _ e⟩
    intro before
    induction before using List.reverseRecOn with
    | nil => exact fun _ _ => start_withinCaps pton workerHost bootstrap start
    | append_singleton before e ih =>
        intro after heq
        have heq : events = before ++ e :: after := by simpa using heq
        rw [History.run_concat]
        exact System.withinCaps_step pton (ih (e :: after) heq) (hfits before e after heq)

end

/-! ## A machine that starts offline -/

/-- A system that knows one address literal. -/
def oneAddress : InetPton where
  v4 := fun text => if text = ofString "1.1.1.1" then some [1, 1, 1, 1] else none
  v6 := fun _ => none
  length_v4 := by
    intro text b h
    split at h
    · rw [← Option.some.inj h]
      rfl
    · cases h
  length_v6 := noLiterals.length_v6

/-- The Worker is `w`, and the system could not resolve it. -/
def offline : System := ⟨Resolver.start oneAddress [119] none 0, []⟩

/-- A name that `/resolve` does not take. -/
def serviceName (i : ℕ) : Bytes := List.replicate (i + 1) 95

/-- That many names are looked up; all end in the cache without a request. -/
def filling (n : ℕ) : List Event :=
  (List.range n).flatMap fun i => [.resolve (serviceName i) 0, .act i {}, .act i {}]

theorem lowercase_serviceName (i : ℕ) : lowercase (serviceName i) = serviceName i := by
  have hlower : lower (serviceName i) = serviceName i := by
    rw [serviceName, lower, List.map_replicate]
    rfl
  rw [lowercase, hlower, serviceName, List.reverse_replicate, List.replicate_succ,
    List.dropWhile_cons_of_neg (by decide), ← List.replicate_succ, List.reverse_replicate]

/-- What the cache holds while it is filled. -/
structure Filled (n : ℕ) (s : System) : Prop where
  calls : s.calls.length = n
  resolver : ∃ cache, s.resolver = { workerHost := [119], bootstrapNeeded := true, cache }
  size_eq : size s.resolver.cache = n
  keys : ∀ key ∈ s.resolver.cache, ∃ i < n, key = serviceName i

theorem act_last (pton : InetPton) (r : Resolver) (calls : List Call) (c : Call) (input : Input) :
    (⟨r, calls ++ [c]⟩ : System).step pton (.act calls.length input) =
      ⟨(c.step pton r input).1, calls ++ [{ c with phase := (c.step pton r input).2 }]⟩ := by
  simp [System.step]

theorem serviceName_inj {i j : ℕ} (h : serviceName i = serviceName j) : i = j := by
  have hlength := congrArg List.length h
  simpa [serviceName] using hlength

theorem resolveStart_of_notMem {pton : InetPton} {r : Resolver} {key : Bytes} {now : ℕ}
    (hempty : key ≠ []) (hliteral : isIpLiteral pton key = false) (hnew : key ∉ r.cache)
    (hworker : key ≠ lowercase r.workerHost) (hfree : key ∉ r.inFlight) :
    r.resolveStart pton key now =
      (.begins, { r with inFlight := insert key r.inFlight }) := by
  have hlookup : r.cache.lookup key = none := AList.lookup_eq_none.2 hnew
  rw [Resolver.resolveStart, if_neg (by simpa using hempty), hliteral, if_neg Bool.false_ne_true,
    Resolver.lookup, hlookup, Option.filter_none]
  dsimp only
  rw [if_neg hworker, if_neg hfree]

theorem serviceName_head (n : ℕ) : (serviceName n).head? = some 95 := rfl

theorem isIpLiteral_serviceName (n : ℕ) : isIpLiteral oneAddress (serviceName n) = false := by
  have hne : serviceName n ≠ ofString "1.1.1.1" := by
    intro heq
    have hhead := congrArg List.head? heq
    cases hhead
  simp [isIpLiteral, oneAddress, hne]

theorem serviceName_ne_lowercase (n : ℕ) : serviceName n ≠ lowercase [119] := by
  intro heq
  have hhead := congrArg List.head? heq
  cases hhead

theorem Filled.step {n : ℕ} {s : System} (h : Filled n s) (hn : n < maxCacheEntries) :
    Filled (n + 1) (History.run (System.step oneAddress) s
      [.resolve (serviceName n) 0, .act n {}, .act n {}]) := by
  obtain ⟨resolver, calls⟩ := s
  obtain ⟨rfl, ⟨cache, rfl⟩, hsize, hkeys⟩ := h
  dsimp only at hsize hkeys
  have hnew : serviceName calls.length ∉ cache := by
    intro hin
    obtain ⟨i, hi, heq⟩ := hkeys _ hin
    have := serviceName_inj heq
    omega
  have hbegins : Resolver.resolveStart oneAddress
      { workerHost := [119], bootstrapNeeded := true, cache } (serviceName calls.length) 0 = _ :=
    resolveStart_of_notMem (List.cons_ne_nil _ _) (isIpLiteral_serviceName _) hnew
      (serviceName_ne_lowercase _) (Finset.notMem_empty _)
  have hresolvable : isResolvableHost (serviceName calls.length) = false := by
    simp [isResolvableHost, serviceName, isHostByte]
  have hroom (inFlight : Finset Bytes) :
      Resolver.makeRoom { workerHost := [119], bootstrapNeeded := true, cache, inFlight }
        (fun _ => 0) (serviceName calls.length) = cache :=
    if_neg fun hfull => absurd (hfull.2.trans_eq hsize) (Nat.not_le.2 hn)
  have hrun : ∃ result, History.run (System.step oneAddress)
      ⟨{ workerHost := [119], bootstrapNeeded := true, cache }, calls⟩
      [.resolve (serviceName calls.length) 0, .act calls.length {}, .act calls.length {}] =
      ⟨{ workerHost := [119], bootstrapNeeded := true,
         cache := cache.insert (serviceName calls.length) ⟨result, negativeCacheSeconds * 1000⟩ },
        calls ++ [⟨none, 0, .found result⟩]⟩ := by
    refine ⟨{ allowWireFallback := true }, ?_⟩
    rw [History.run, List.foldl_cons, List.foldl_cons, List.foldl_cons, List.foldl_nil,
      System.step, Call.resolve, lowercase_serviceName, act_last, Call.step]
    dsimp only
    rw [hbegins]
    dsimp only
    rw [startQuery, if_neg (by simp), hresolvable, act_last]
    simp [Call.step, Resolver.keep, hroom, returned, Result.empty]
  obtain ⟨result, hrun⟩ := hrun
  rw [hrun]
  refine ⟨by simp, ⟨_, rfl⟩, ?_, ?_⟩
  · exact (size_insert_of_notMem _ hnew).trans (by rw [hsize])
  · intro key hin
    rcases (AList.mem_insert _).1 hin with rfl | hin
    · exact ⟨calls.length, Nat.lt_succ_self _, rfl⟩
    · obtain ⟨i, hi, heq⟩ := hkeys key hin
      exact ⟨i, Nat.lt_succ_of_lt hi, heq⟩

theorem filled_filling {n : ℕ} (hn : n ≤ maxCacheEntries) :
    Filled n (History.run (System.step oneAddress) offline (filling n)) := by
  induction n with
  | zero =>
      refine ⟨rfl, ⟨∅, rfl⟩, rfl, ?_⟩
      intro key hin
      exact absurd hin (AList.notMem_empty key)
  | succ n ih =>
      rw [filling, List.range_succ, List.flatMap_append, List.flatMap_singleton, ← filling,
        History.run_append]
      exact (ih (Nat.le_of_succ_le hn)).step hn

/-- An answer with one address of the Worker. -/
def workerAnswer : HttpResponse :=
  { status := 200, body := ofString "\"data\":\"1.1.1.1\"" }

theorem lookup_workerAnswer :
    ∃ result, lookupViaDohByAddress oneAddress (lowercase [119]) workerAnswer {} = some result :=
  Option.isSome_iff_exists.1 (by decide +kernel)

/-- The cache is full when the Worker can be resolved for the first time. -/
theorem offline_start_overfills :
    ¬ (History.run (System.step oneAddress) offline (filling maxCacheEntries ++
      [.resolve [97] 0, .act maxCacheEntries {}, .act maxCacheEntries {},
        .act maxCacheEntries { bootstrap := some (workerAnswer, {}) }])).resolver.WithinCaps := by
  have hfilled := filled_filling (le_refl maxCacheEntries)
  rw [History.run_append]
  generalize History.run (System.step oneAddress) offline (filling maxCacheEntries) = s at hfilled ⊢
  obtain ⟨resolver, calls⟩ := s
  obtain ⟨hcalls, ⟨cache, rfl⟩, hsize, hkeys⟩ := hfilled
  dsimp only at hcalls hsize hkeys
  have hother {key : Bytes} (hhead : key.head? ≠ some 95) : key ∉ cache := by
    intro hin
    obtain ⟨i, -, rfl⟩ := hkeys key hin
    exact hhead (serviceName_head i)
  have hworker : [97] ≠ lowercase [119] := by decide
  have hfresh : lowercase [119] ∉ cache := hother (by decide)
  have hbegins : Resolver.resolveStart oneAddress
      { workerHost := [119], bootstrapNeeded := true, cache } [97] 0 = _ :=
    resolveStart_of_notMem (by decide) (by decide) (hother (by decide)) hworker
      (Finset.notMem_empty _)
  obtain ⟨result, hresult⟩ := lookup_workerAnswer
  rw [← hcalls, History.run, List.foldl_cons, List.foldl_cons, List.foldl_cons, List.foldl_cons,
    List.foldl_nil, System.step, act_last, Call.resolve, Call.step]
  have hlower : lowercase [97] = [97] := by decide
  rw [hlower]
  dsimp only
  rw [hbegins]
  dsimp only
  rw [startQuery, if_neg (by simp), if_neg (by decide), act_last, Call.step]
  dsimp only
  rw [if_neg (by simp), if_neg (by simp)]
  refine System.Overfills.not_withinCaps oneAddress ⟨calls.length, _,
    ⟨none, 0, .refresh (.name [97] none)⟩, .name [97] none, workerAnswer, {}, result, rfl, ?_, rfl,
    rfl, hresult, hfresh, hsize.ge⟩
  simp

end Dns

end SplitHello
