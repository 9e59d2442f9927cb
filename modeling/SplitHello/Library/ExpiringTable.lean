import SplitHello.Library.KeyedTable

/-!
# Bounded tables whose entries expire

Every value has an expiry. A table may drop what has expired at any time, and it drops a
value that has not only to make room: `Frugal` says this of one operation on one key.
`Crowds` is the only way to lose an unexpired value of another key, and then `LosesOne`
says which one is lost.
-/

namespace KeyedTable

section

variable {K V : Type*} [DecidableEq K] (cap : ℕ) (expiry : V → ℕ) (now : ℕ)

/-- A key that is not there comes into a full table in which nothing has expired. -/
structure Crowds (t t' : Table K V) (k : K) : Prop where
  full : size t = cap
  live : ∀ k' v, t.lookup k' = some v → now < expiry v
  notMem : k ∉ t
  mem : k ∈ t'

/-- An entry of the smallest expiry is lost, and of the others none but that of `k` changes. -/
structure LosesOne (t t' : Table K V) (k lost : K) : Prop where
  ne : lost ≠ k
  smallest : ∃ v, t.lookup lost = some v ∧ ∀ k' v', t.lookup k' = some v' → expiry v ≤ expiry v'
  gone : lost ∉ t'
  others : ∀ k', k' ≠ lost → k' ≠ k → t'.lookup k' = t.lookup k'

/-- An operation on the key `touched` loses an unexpired entry of another key only when it
brings in a new key where there is no room. -/
structure Frugal (touched : Option K) (t t' : Table K V) : Prop where
  kept : ∀ k v, touched ≠ some k → t.lookup k = some v → now < expiry v →
    t'.lookup k = some v ∨ ∃ k', touched = some k' ∧ Crowds cap expiry now t t' k'
  loses : ∀ k, touched = some k → Crowds cap expiry now t t' k →
    ∃ lost, LosesOne expiry t t' k lost

/-- Some of the expired entries are dropped and nothing else. -/
structure Sweeps (t t₀ : Table K V) : Prop where
  shrinks : Shrinks t₀ t
  kept : ∀ k v, t.lookup k = some v → now < expiry v → t₀.lookup k = some v

variable {cap expiry now}

/-- A table that has lost nothing by number has lost nothing at all. -/
theorem Shrinks.lookup_eq {t' t : Table K V} (h : Shrinks t' t) (hsize : size t ≤ size t')
    (k : K) : t'.lookup k = t.lookup k := by
  have hkeys : t'.keys.Perm t.keys := by
    refine (List.subperm_of_subset t'.nodupKeys fun k hk => ?_).perm_of_length_le hsize
    obtain ⟨v, hv⟩ := exists_lookup_of_mem (AList.mem_keys.2 hk)
    exact AList.mem_keys.1 (mem_of_lookup (h k v hv))
  cases hv : t'.lookup k with
  | none =>
      symm
      rw [AList.lookup_eq_none] at hv ⊢
      exact fun hk => hv (AList.mem_keys.2 (hkeys.mem_iff.2 (AList.mem_keys.1 hk)))
  | some v => exact (h k v hv).symm

theorem Sweeps.refl (t : Table K V) : Sweeps expiry now t t :=
  ⟨Shrinks.refl t, fun _ _ h _ => h⟩

theorem eraseIf_sweeps (t : Table K V) :
    Sweeps expiry now t (eraseIf (fun _ v => expiry v ≤ now) t) := by
  refine ⟨eraseIf_shrinks _ t, fun k v h hlive => ?_⟩
  rw [lookup_eraseIf, h, Option.filter_some, if_pos]
  simpa using hlive

/-- An operation that brings in no key and drops only what has expired. -/
theorem Frugal.of_kept {touched : Option K} {t t' : Table K V}
    (hkept : ∀ k v, touched ≠ some k → t.lookup k = some v → now < expiry v →
      t'.lookup k = some v)
    (hold : ∀ k, touched = some k → k ∈ t' → k ∈ t) : Frugal cap expiry now touched t t' := by
  refine ⟨fun k v hne h hlive => Or.inl (hkept k v hne h hlive), fun k htouched hcrowds => ?_⟩
  exact absurd (hold k htouched hcrowds.mem) hcrowds.notMem

theorem Frugal.refl (touched : Option K) (t : Table K V) : Frugal cap expiry now touched t t :=
  .of_kept (fun _ _ _ h _ => h) fun _ _ h => h

theorem Sweeps.frugal {t t₀ : Table K V} (h : Sweeps expiry now t t₀) (touched : Option K) :
    Frugal cap expiry now touched t t₀ := by
  refine .of_kept (fun k v _ => h.kept k v) fun k _ hmem => ?_
  obtain ⟨v, hv⟩ := exists_lookup_of_mem hmem
  exact mem_of_lookup (h.shrinks k v hv)

theorem erase_frugal (t : Table K V) (k : K) :
    Frugal cap expiry now (some k) t (t.erase k) := by
  refine .of_kept (fun k' v hne h _ => ?_) fun k' _ hmem => (AList.mem_erase.1 hmem).2
  rw [AList.lookup_erase_ne fun heq => hne (congrArg some heq.symm)]
  exact h

/-- A key that is there is given a new value. -/
theorem insert_frugal {t t₀ : Table K V} (h : Sweeps expiry now t t₀) {k : K} (hk : k ∈ t₀)
    (v : V) : Frugal cap expiry now (some k) t (t₀.insert k v) := by
  refine .of_kept (fun k' w hne hw hlive => ?_) fun k' heq _ => ?_
  · rw [AList.lookup_insert_ne fun heq => hne (congrArg some heq.symm)]
    exact h.kept k' w hw hlive
  · obtain rfl : k = k' := Option.some.inj heq
    obtain ⟨w, hw⟩ := exists_lookup_of_mem hk
    exact mem_of_lookup (h.shrinks k w hw)

theorem Sweeps.size_eq {t t₀ : Table K V} (h : Sweeps expiry now t t₀)
    (hlive : ∀ k v, t.lookup k = some v → now < expiry v) : size t₀ = size t := by
  refine Nat.le_antisymm h.shrinks.size_le (Shrinks.size_le fun k v hv => ?_)
  exact h.kept k v hv (hlive k v hv)

/-- A sweep that leaves a table full found nothing that has expired. -/
theorem Sweeps.live_of_full {t t₀ : Table K V} (h : Sweeps expiry now t t₀)
    (hsize : size t ≤ cap) (hfull : cap ≤ size (eraseIf (fun _ v => expiry v ≤ now) t₀))
    (k : K) (v : V) (hv : t.lookup k = some v) : now < expiry v := by
  have hsize₀ := h.shrinks.size_le
  have hkept := size_eraseIf_le (fun _ v => decide (expiry v ≤ now)) t₀
  have hv₀ : t₀.lookup k = some v := (h.shrinks.lookup_eq (by omega) k).trans hv
  by_contra hexpired
  have hlt := size_eraseIf_lt (p := fun _ v => decide (expiry v ≤ now))
    (AList.mem_lookup_iff.1 hv₀) (decide_eq_true (Nat.le_of_not_lt hexpired))
  omega

/-- In a full table without expired entries one of the smallest expiry makes way. -/
theorem makeRoom_losesOne {t t₀ : Table K V} (hcap : 0 < cap) (h : Sweeps expiry now t t₀)
    (hfull : size t = cap) (hlive : ∀ k v, t.lookup k = some v → now < expiry v)
    (bucket : K → ℕ) {k : K} (hk : k ∉ t) (v : V) :
    ∃ lost, LosesOne expiry t
      ((makeRoom cap (fun v => expiry v ≤ now) expiry bucket t₀).insert k v) k lost := by
  have hfull₀ : size t₀ = cap := (h.size_eq hlive).trans hfull
  have hlookup : ∀ k', t₀.lookup k' = t.lookup k' := h.shrinks.lookup_eq (by omega)
  have hlive₀ : ∀ k' w, t₀.lookup k' = some w → decide (expiry w ≤ now) = false := by
    intro k' w hw
    exact decide_eq_false (Nat.not_le.2 (hlive k' w (h.shrinks k' w hw)))
  have hpos : 0 < size t₀ := by omega
  obtain ⟨lost, w, hlost, hsmallest, hevict⟩ := evictOldest_of_pos expiry bucket hpos
  rw [makeRoom_of_live expiry bucket hfull₀ hlive₀, hevict]
  rw [hlookup] at hlost
  have hne : lost ≠ k := by
    rintro rfl
    exact hk (mem_of_lookup hlost)
  refine ⟨lost, hne, ⟨w, hlost, fun k' w' hw' => ?_⟩, ?_, fun k' hk' hk => ?_⟩
  · exact hsmallest k' w' ((hlookup k').trans hw')
  · rw [← AList.lookup_isSome, AList.lookup_insert_ne hne, AList.lookup_erase]
    exact Bool.false_ne_true
  · rw [AList.lookup_insert_ne hk, AList.lookup_erase_ne hk', hlookup]

/-- A new key comes in, for which room is made. -/
theorem insert_makeRoom_frugal {t t₀ : Table K V} (hcap : 0 < cap) (hsize : size t ≤ cap)
    (h : Sweeps expiry now t t₀) (bucket : K → ℕ) {k : K} (hk : k ∉ t₀) (v : V) :
    Frugal cap expiry now (some k) t
      ((makeRoom cap (fun v => expiry v ≤ now) expiry bucket t₀).insert k v) := by
  refine ⟨fun k' w hne hw hlive => ?_, fun k' heq hcrowds => ?_⟩
  · rw [AList.lookup_insert_ne fun heq => hne (congrArg some heq.symm), lookup_makeRoom]
    by_cases hdisplaced : Displaced cap (fun v => expiry v ≤ now) expiry bucket t₀ k'
    · obtain ⟨hfull, ⟨w', hw', hexpired⟩ | ⟨hstill, -⟩⟩ := hdisplaced
      · rw [h.kept k' w hw hlive, Option.some.injEq] at hw'
        subst hw'
        exact absurd (of_decide_eq_true hexpired) (Nat.not_le.2 hlive)
      · have hall := h.live_of_full hsize hstill
        have hsize₀ := h.size_eq hall
        refine Or.inr ⟨k, rfl, by omega, hall, fun hmem => hk ?_,
          (AList.mem_insert _).2 (Or.inl rfl)⟩
        rw [← AList.lookup_isSome, h.shrinks.lookup_eq (by omega), AList.lookup_isSome]
        exact hmem
    · exact Or.inl ⟨h.kept k' w hw hlive, hdisplaced⟩
  · obtain rfl : k = k' := Option.some.inj heq
    exact makeRoom_losesOne hcap h hcrowds.full hcrowds.live bucket hcrowds.notMem v

theorem size_insert_makeRoom_le {t t₀ : Table K V} (hcap : 0 < cap) (hsize : size t ≤ cap)
    (h : Shrinks t₀ t) (bucket : K → ℕ) (k : K) (v : V) :
    size ((makeRoom cap (fun v => expiry v ≤ now) expiry bucket t₀).insert k v) ≤ cap := by
  have hroom := size_makeRoom_lt hcap (fun v => decide (expiry v ≤ now)) expiry bucket
    (Nat.le_trans h.size_le hsize)
  have hinsert := size_insert_le
    (makeRoom cap (fun v => expiry v ≤ now) expiry bucket t₀) k v
  omega

/-! ## A table filled up -/

/-- One entry and then `n` younger ones, all of one age. -/
structure Filled (expiry : V → ℕ) (first : K) (key : ℕ → K) (old young n : ℕ) (t : Table K V) :
    Prop where
  size_eq : size t = n + 1
  opening : ∃ v, t.lookup first = some v ∧ expiry v = old
  others : ∀ k v, t.lookup k = some v → k ≠ first → expiry v = young ∧ ∃ i < n, k = key i
  mem : ∀ i < n, key i ∈ t

section

variable {first : K} {key : ℕ → K} {old young n : ℕ} {t : Table K V}

theorem Filled.le_expiry (h : Filled expiry first key old young n t) (hage : old < young) {k : K}
    {v : V} (hv : t.lookup k = some v) : old ≤ expiry v ∧ (expiry v ≤ old → k = first) := by
  by_cases hk : k = first
  · obtain ⟨w, hw, hold⟩ := h.opening
    rw [hk, hw, Option.some.injEq] at hv
    rw [← hv, hold]
    exact ⟨Nat.le_refl _, fun _ => hk⟩
  · obtain ⟨hyoung, -⟩ := h.others k v hv hk
    rw [hyoung]
    exact ⟨Nat.le_of_lt hage, fun hle => absurd hle (Nat.not_le.2 hage)⟩

/-- Until the first entry expires a sweep changes nothing. -/
theorem Filled.swept (h : Filled expiry first key old young n t) (hage : old < young)
    (hnow : now < old) : eraseIf (fun _ v => expiry v ≤ now) t = t := by
  refine eraseIf_eq_self fun e he => decide_eq_false ?_
  have hle := (h.le_expiry hage (AList.mem_lookup_iff.2 he)).1
  omega

theorem Filled.notMem (h : Filled expiry first key old young n t) (hkey : key.Injective)
    (hfirst : ∀ i, key i ≠ first) : key n ∉ t := by
  intro hmem
  obtain ⟨v, hv⟩ := exists_lookup_of_mem hmem
  obtain ⟨-, i, hi, heq⟩ := h.others _ v hv (hfirst n)
  have hsame := hkey heq
  omega

theorem Filled.insert (h : Filled expiry first key old young n t) (hkey : key.Injective)
    (hfirst : ∀ i, key i ≠ first) {v : V} (hyoung : expiry v = young) :
    Filled expiry first key old young (n + 1) (t.insert (key n) v) := by
  refine ⟨?_, ?_, fun k w hw hk => ?_, fun i hi => ?_⟩
  · rw [size_insert_of_notMem _ (h.notMem hkey hfirst), h.size_eq]
  · rw [AList.lookup_insert_ne (hfirst n).symm]
    exact h.opening
  · rcases lookup_insert_cases hw with ⟨rfl, rfl⟩ | ⟨-, hw⟩
    · exact ⟨hyoung, n, Nat.lt_succ_self n, rfl⟩
    · obtain ⟨hexpires, i, hi, heq⟩ := h.others k w hw hk
      exact ⟨hexpires, i, Nat.lt_succ_of_lt hi, heq⟩
  · rw [AList.mem_insert]
    rcases Nat.lt_succ_iff_lt_or_eq.1 hi with hlt | rfl
    · exact Or.inr (h.mem i hlt)
    · exact Or.inl rfl

/-- When the table is full the first entry makes way. -/
theorem Filled.makeRoom_eq (h : Filled expiry first key old young n t) (hage : old < young)
    (hnow : now < old) (hfull : n + 1 = cap) (bucket : K → ℕ) :
    makeRoom cap (fun v => expiry v ≤ now) expiry bucket t = t.erase first := by
  have hpos : 0 < size t := by rw [h.size_eq]; omega
  have hlive : ∀ k v, t.lookup k = some v → decide (expiry v ≤ now) = false := by
    intro k v hv
    have hle := (h.le_expiry hage hv).1
    exact decide_eq_false (by omega)
  obtain ⟨lost, v, hlost, hsmallest, hevict⟩ := evictOldest_of_pos expiry bucket hpos
  obtain ⟨w, hw, hold⟩ := h.opening
  rw [makeRoom_of_live expiry bucket (h.size_eq.trans hfull) hlive, hevict,
    (h.le_expiry hage hlost).2 (hold ▸ hsmallest first w hw)]

end

/-! ## Several entries at once -/

theorem lookup_eraseKeys (t : Table K V) (keys : List K) (k : K) :
    (eraseKeys t keys).lookup k = if k ∈ keys then none else t.lookup k := by
  rw [eraseKeys]
  induction keys generalizing t with
  | nil => rfl
  | cons k' keys ih =>
      rw [List.foldl_cons, ih, lookup_erase_eq]
      by_cases hk : k = k'
      · simp [hk]
      · simp [hk]

theorem size_eraseKeys {keys : List K} (hnodup : keys.Nodup) {t : Table K V}
    (hmem : ∀ k ∈ keys, k ∈ t) : size (eraseKeys t keys) + keys.length = size t := by
  induction keys generalizing t with
  | nil => rfl
  | cons k keys ih =>
      rw [List.nodup_cons] at hnodup
      have hrest : ∀ k' ∈ keys, k' ∈ t.erase k := by
        intro k' hk'
        refine AList.mem_erase.2 ⟨?_, hmem k' (List.mem_cons_of_mem _ hk')⟩
        rintro rfl
        exact hnodup.1 hk'
      have hkeys := ih hnodup.2 hrest
      have hfirst := size_erase_of_mem (hmem k List.mem_cons_self)
      rw [List.length_cons, ← hfirst, ← hkeys, ← Nat.add_assoc]
      rfl

/-- The keys of a table that are gone, and what is gone with them. -/
structure Drops (t t' : Table K V) (removed : List K) : Prop where
  nodup : removed.Nodup
  mem : ∀ k ∈ removed, k ∈ t
  lookup_eq : ∀ k, t'.lookup k = if k ∈ removed then none else t.lookup k

omit [DecidableEq K] in
theorem byAge_perm (expiry : V → ℕ) (bucket : K → ℕ) (t : Table K V) :
    (byAge expiry bucket t).Perm t.entries :=
  List.perm_insertionSort _ _

omit [DecidableEq K] in
theorem byAge_pairwise (expiry : V → ℕ) (bucket : K → ℕ) (t : Table K V) :
    (byAge expiry bucket t).Pairwise fun a b => expiry a.2 ≤ expiry b.2 := by
  let rank (e : Sigma fun _ : K => V) := toLex (expiry e.2, bucket e.1)
  have htotal : Std.Total fun a b => rank a ≤ rank b := ⟨fun a b => le_total (rank a) (rank b)⟩
  have htrans : IsTrans _ fun a b => rank a ≤ rank b := ⟨fun _ _ _ hab hbc => hab.trans hbc⟩
  refine (List.pairwise_insertionSort (fun a b => rank a ≤ rank b) t.entries).imp ?_
  intro a b hab
  rcases Prod.Lex.toLex_le_toLex.1 hab with hlt | ⟨heq, -⟩
  · exact hlt.le
  · exact heq.le

/-- The entries that are dropped are some of the table, none of a later expiry than one
that stays. -/
theorem evictMany_drops (n : ℕ) (expiry : V → ℕ) (bucket : K → ℕ) (t : Table K V) :
    ∃ removed, Drops t (evictMany n expiry bucket t) removed ∧ removed.length = min n (size t) ∧
      ∀ k ∈ removed, ∀ v, t.lookup k = some v → ∀ k', k' ∉ removed → ∀ v',
        t.lookup k' = some v' → expiry v ≤ expiry v' := by
  have hperm := byAge_perm expiry bucket t
  have hsorted := byAge_pairwise expiry bucket t
  obtain ⟨sorted, hsortedEq⟩ : ∃ sorted, byAge expiry bucket t = sorted := ⟨_, rfl⟩
  rw [hsortedEq] at hperm hsorted
  have hmem : ∀ k v, ⟨k, v⟩ ∈ sorted ↔ t.lookup k = some v := by
    intro k v
    rw [hperm.mem_iff, ← AList.mem_lookup_iff, Option.mem_def]
  have hnodup : (sorted.map Sigma.fst).Nodup := (hperm.map Sigma.fst).nodup_iff.2 t.nodupKeys
  rw [← List.take_append_drop n sorted, List.pairwise_append] at hsorted
  refine ⟨(sorted.take n).map Sigma.fst, ⟨?_, ?_, ?_⟩, ?_, ?_⟩
  · exact hnodup.sublist ((List.take_sublist n sorted).map Sigma.fst)
  · intro k hk
    obtain ⟨e, he, rfl⟩ := List.mem_map.1 hk
    exact mem_of_lookup ((hmem e.1 e.2).1 (List.mem_of_mem_take he))
  · intro k
    rw [evictMany, hsortedEq]
    exact lookup_eraseKeys t _ k
  · rw [List.length_map, List.length_take, hperm.length_eq, size, AList.keys, List.keys,
      List.length_map]
  · intro k hk v hv k' hk' v' hv'
    obtain ⟨⟨key, w⟩, he, rfl⟩ := List.mem_map.1 hk
    have hw := (hmem key w).1 (List.mem_of_mem_take he)
    obtain rfl : v = w := Option.some.inj (hv.symm.trans hw)
    have hlater := (hmem k' v').2 hv'
    rw [← List.take_append_drop n sorted, List.mem_append] at hlater
    rcases hlater with hin | hout
    · exact absurd (List.mem_map_of_mem hin) hk'
    · exact hsorted.2.2 _ he _ hout

theorem Drops.size_add {t t' : Table K V} {removed : List K} (h : Drops t t' removed) :
    size t' + removed.length = size t := by
  have hsame : Shrinks t' (eraseKeys t removed) := by
    intro k v hv
    rw [lookup_eraseKeys, ← h.lookup_eq]
    exact hv
  have hback : Shrinks (eraseKeys t removed) t' := by
    intro k v hv
    rw [h.lookup_eq, ← lookup_eraseKeys]
    exact hv
  rw [Nat.le_antisymm hsame.size_le hback.size_le]
  exact size_eraseKeys h.nodup h.mem

/-- Entries that satisfy a test are dropped. -/
theorem eraseIf_drops (p : V → Bool) (t : Table K V) :
    ∃ removed, Drops t (eraseIf (fun _ v => p v) t) removed ∧
      ∀ k ∈ removed, ∀ v, t.lookup k = some v → p v = true := by
  have hmem : ∀ k, k ∈ t.keys.filter (fun k => (t.lookup k).any p) ↔
      ∃ v, t.lookup k = some v ∧ p v = true := by
    intro k
    rw [List.mem_filter, Option.any_eq_true]
    constructor
    · exact fun h => h.2
    · rintro ⟨v, hv, hp⟩
      exact ⟨AList.mem_keys.1 (mem_of_lookup hv), v, hv, hp⟩
  refine ⟨t.keys.filter fun k => (t.lookup k).any p,
    ⟨t.nodupKeys.filter _, fun k hk => ?_, fun k => ?_⟩, fun k hk v hv => ?_⟩
  · exact AList.mem_keys.2 (List.mem_filter.1 hk).1
  · rw [lookup_eraseIf]
    split
    · rename_i hk
      obtain ⟨v, hv, hp⟩ := (hmem k).1 hk
      rw [hv, Option.filter_some, hp]
      rfl
    · rename_i hk
      cases hv : t.lookup k with
      | none => rfl
      | some v =>
          have hnot : p v = false := Bool.eq_false_iff.2 fun hp => hk ((hmem k).2 ⟨v, hv, hp⟩)
          rw [Option.filter_some, hnot]
          rfl
  · obtain ⟨w, hw, hp⟩ := (hmem k).1 hk
    rw [hv, Option.some.injEq] at hw
    rw [hw]
    exact hp

end

end KeyedTable
