import Mathlib.Data.List.AList
import Mathlib.Data.List.MinMax
import Mathlib.Data.List.Sort
import Mathlib.Data.Prod.Lex

/-!
# Bounded keyed tables

A hash table is an association list without repeated keys. The order of the
list carries no meaning: wherever a program walks the table, the order of the
walk is a parameter `bucket : K → ℕ`, the bucket each key happens to sit in, so
a statement about every `bucket` is a statement about every iteration order.

`Shrinks t' t` is the common description of everything that only removes
entries; a bounded table makes room for a new key in the way `makeRoom` spells
out.
-/

namespace KeyedTable

/-- A finite map from `K` to `V`. -/
abbrev Table (K V : Type*) := AList (fun _ : K => V)

section

variable {K V : Type*}

/-- The number of keys of a table. -/
def size (t : Table K V) : ℕ := t.keys.length

/-- Removes every entry that satisfies `p`. -/
def eraseIf (p : K → V → Bool) (t : Table K V) : Table K V :=
  ⟨t.entries.filter fun e => !p e.1 e.2, t.nodupKeys.sublist List.filter_sublist⟩

theorem keys_map_values (f : V → V) (l : List (Sigma fun _ : K => V)) :
    (l.map fun e => (⟨e.1, f e.2⟩ : Sigma fun _ : K => V)).keys = l.keys := by
  simp [List.keys]

theorem nodupKeys_mapValues (f : V → V) (t : Table K V) :
    (t.entries.map fun e => (⟨e.1, f e.2⟩ : Sigma fun _ : K => V)).NodupKeys := by
  rw [List.NodupKeys, keys_map_values]
  exact t.nodupKeys

/-- Changes all values. -/
def mapValues (f : V → V) (t : Table K V) : Table K V :=
  ⟨t.entries.map fun e => ⟨e.1, f e.2⟩, nodupKeys_mapValues f t⟩

theorem keys_mapValues (f : V → V) (t : Table K V) : (mapValues f t).keys = t.keys :=
  keys_map_values f t.entries

/-- The entry with the smallest age, the earlier bucket deciding between equal
ages. -/
def oldest (age : V → ℕ) (bucket : K → ℕ) (t : Table K V) : Option (Sigma fun _ : K => V) :=
  t.entries.argmin fun e => toLex (age e.2, bucket e.1)

/-- The entries in the order a loop over the table meets them. -/
def walk (bucket : K → ℕ) (t : Table K V) : List (Sigma fun _ : K => V) :=
  t.entries.insertionSort fun a b => bucket a.1 ≤ bucket b.1

theorem walk_perm (bucket : K → ℕ) (t : Table K V) : (walk bucket t).Perm t.entries :=
  List.perm_insertionSort _ _

variable [DecidableEq K]

/-- Removes one entry of the smallest age. -/
def evictOldest (age : V → ℕ) (bucket : K → ℕ) (t : Table K V) : Table K V :=
  match oldest age bucket t with
  | some e => t.erase e.1
  | none => t

/-- The entries by age, the bucket deciding between equal ages. -/
def byAge (age : V → ℕ) (bucket : K → ℕ) (t : Table K V) : List (Sigma fun _ : K => V) :=
  t.entries.insertionSort fun a b => toLex (age a.2, bucket a.1) ≤ toLex (age b.2, bucket b.1)

/-- Removes the keys of a list. -/
def eraseKeys (t : Table K V) (keys : List K) : Table K V := keys.foldl (fun t k => t.erase k) t

/-- Removes `n` entries of the smallest ages. -/
def evictMany (n : ℕ) (age : V → ℕ) (bucket : K → ℕ) (t : Table K V) : Table K V :=
  eraseKeys t (((byAge age bucket t).take n).map Sigma.fst)

/-- What a bounded table does before a new key goes in: nothing below the cap;
at the cap it drops what `expired` allows, and if that freed nothing it drops
the oldest entry. -/
def makeRoom (cap : ℕ) (expired : V → Bool) (age : V → ℕ) (bucket : K → ℕ)
    (t : Table K V) : Table K V :=
  if size t < cap then t
  else
    let kept := eraseIf (fun _ v => expired v) t
    if size kept < cap then kept else evictOldest age bucket kept

/-- The keys that make way for a new one in a full table: the expired ones, and
the oldest when none has expired. -/
def Displaced (cap : ℕ) (expired : V → Bool) (age : V → ℕ) (bucket : K → ℕ)
    (t : Table K V) (k : K) : Prop :=
  cap ≤ size t ∧
    ((∃ v, t.lookup k = some v ∧ expired v) ∨
      cap ≤ size (eraseIf (fun _ v => expired v) t) ∧
        ∃ v, oldest age bucket (eraseIf (fun _ v => expired v) t) = some ⟨k, v⟩)

/-- `t'` holds nothing that `t` does not hold with the same value. -/
def Shrinks (t' t : Table K V) : Prop :=
  ∀ k v, t'.lookup k = some v → t.lookup k = some v

theorem Shrinks.refl (t : Table K V) : Shrinks t t := fun _ _ h => h

theorem Shrinks.trans {t₁ t₂ t₃ : Table K V} (h₁ : Shrinks t₁ t₂)
    (h₂ : Shrinks t₂ t₃) : Shrinks t₁ t₃ :=
  fun k v h => h₂ k v (h₁ k v h)

theorem lookup_eraseIf (p : K → V → Bool) (t : Table K V) (k : K) :
    (eraseIf p t).lookup k = (t.lookup k).filter fun v => !p k v := by
  ext v
  rw [← Option.mem_def, ← Option.mem_def, AList.mem_lookup_iff, Option.mem_filter_iff,
    AList.mem_lookup_iff]
  simp [eraseIf]

theorem eraseIf_shrinks (p : K → V → Bool) (t : Table K V) :
    Shrinks (eraseIf p t) t := by
  intro k v h
  rw [lookup_eraseIf] at h
  exact (Option.mem_filter_iff.1 h).1

theorem mem_of_lookup {t : Table K V} {k : K} {v : V} (h : t.lookup k = some v) : k ∈ t :=
  AList.lookup_isSome.1 (by rw [h]; rfl)

theorem exists_lookup_of_mem {t : Table K V} {k : K} (h : k ∈ t) : ∃ v, t.lookup k = some v :=
  Option.isSome_iff_exists.1 (AList.lookup_isSome.2 h)

theorem lookup_erase_eq (t : Table K V) (k k' : K) :
    (t.erase k').lookup k = if k = k' then none else t.lookup k := by
  by_cases h : k = k'
  · subst h
    simp
  · rw [if_neg h, AList.lookup_erase_ne h]

theorem lookup_insert_eq (t : Table K V) (k k' : K) (v : V) :
    (t.insert k' v).lookup k = if k = k' then some v else t.lookup k := by
  by_cases h : k = k'
  · subst h
    simp
  · rw [if_neg h, AList.lookup_insert_ne h]

theorem lookup_insert_cases {t : Table K V} {k k' : K} {v w : V}
    (h : (t.insert k' v).lookup k = some w) :
    k = k' ∧ w = v ∨ k ≠ k' ∧ t.lookup k = some w := by
  rw [lookup_insert_eq] at h
  split at h
  · exact Or.inl ⟨‹_›, (Option.some.inj h).symm⟩
  · exact Or.inr ⟨‹_›, h⟩

theorem lookup_erase_cases {t : Table K V} {k k' : K} {w : V}
    (h : (t.erase k').lookup k = some w) : k ≠ k' ∧ t.lookup k = some w := by
  rw [lookup_erase_eq] at h
  split at h
  · cases h
  · exact ⟨‹_›, h⟩

theorem erase_of_lookup_eq_none {t : Table K V} {k : K} (h : t.lookup k = none) :
    t.erase k = t := by
  have hnot : k ∉ t.keys := fun hk => AList.lookup_eq_none.1 h (AList.mem_keys.2 hk)
  exact AList.ext (List.kerase_of_notMem_keys hnot)

theorem erase_shrinks (t : Table K V) (k : K) : Shrinks (t.erase k) t := by
  intro k' v h
  exact (lookup_erase_cases h).2

theorem evictOldest_shrinks (age : V → ℕ) (bucket : K → ℕ) (t : Table K V) :
    Shrinks (evictOldest age bucket t) t := by
  unfold evictOldest
  split
  · exact erase_shrinks t _
  · exact Shrinks.refl t

theorem eraseKeys_shrinks (t : Table K V) (keys : List K) : Shrinks (eraseKeys t keys) t := by
  induction keys generalizing t with
  | nil => exact Shrinks.refl t
  | cons k keys ih => exact (ih (t.erase k)).trans (erase_shrinks t k)

theorem evictMany_shrinks (n : ℕ) (age : V → ℕ) (bucket : K → ℕ) (t : Table K V) :
    Shrinks (evictMany n age bucket t) t :=
  eraseKeys_shrinks t _

theorem makeRoom_shrinks (cap : ℕ) (expired : V → Bool) (age : V → ℕ)
    (bucket : K → ℕ) (t : Table K V) :
    Shrinks (makeRoom cap expired age bucket t) t := by
  unfold makeRoom
  split
  · exact Shrinks.refl t
  · dsimp only
    split
    · exact eraseIf_shrinks _ t
    · exact (evictOldest_shrinks age bucket _).trans (eraseIf_shrinks _ t)

theorem lookup_evictOldest {age : V → ℕ} {bucket : K → ℕ} {t : Table K V} {k : K} {v : V} :
    (evictOldest age bucket t).lookup k = some v ↔
      t.lookup k = some v ∧ ∀ w, oldest age bucket t ≠ some ⟨k, w⟩ := by
  unfold evictOldest
  cases ho : oldest age bucket t with
  | none => simp
  | some e =>
      obtain ⟨k', v'⟩ := e
      rw [lookup_erase_eq]
      by_cases hk : k = k'
      · subst hk
        simp
      · have hne : ∀ w, some (⟨k', v'⟩ : Sigma fun _ : K => V) ≠ some ⟨k, w⟩ := by
          intro w h
          cases h
          exact hk rfl
        simp [hk, hne]

/-- What `makeRoom` leaves of a table. -/
theorem lookup_makeRoom {cap : ℕ} {expired : V → Bool} {age : V → ℕ} {bucket : K → ℕ}
    {t : Table K V} {k : K} {v : V} :
    (makeRoom cap expired age bucket t).lookup k = some v ↔
      t.lookup k = some v ∧ ¬ Displaced cap expired age bucket t k := by
  unfold makeRoom Displaced
  by_cases hroom : size t < cap
  · rw [if_pos hroom]
    simp [hroom]
  · have hfull : cap ≤ size t := Nat.le_of_not_lt hroom
    have hkept : (eraseIf (fun _ v => expired v) t).lookup k = some v ↔
        t.lookup k = some v ∧ ¬ ∃ w, t.lookup k = some w ∧ expired w := by
      rw [lookup_eraseIf]
      cases t.lookup k <;> simp [Option.filter_some]
      grind
    rw [if_neg hroom]
    dsimp only
    by_cases hfreed : size (eraseIf (fun _ v => expired v) t) < cap
    · rw [if_pos hfreed, hkept]
      simp [hfull, hfreed]
    · have hstill : cap ≤ size (eraseIf (fun _ v => expired v) t) := Nat.le_of_not_lt hfreed
      rw [if_neg hfreed, lookup_evictOldest, hkept]
      simp only [hfull, hstill, true_and, not_or, not_exists, and_assoc]

omit [DecidableEq K] in
theorem size_eraseIf_le (p : K → V → Bool) (t : Table K V) :
    size (eraseIf p t) ≤ size t := by
  simpa [size, AList.keys, List.keys, eraseIf] using List.length_filter_le _ t.entries

theorem size_erase_of_mem {t : Table K V} {k : K} (h : k ∈ t) :
    size (t.erase k) + 1 = size t := by
  have hmem : k ∈ t.keys := AList.mem_keys.1 h
  have hpos := List.length_pos_of_mem hmem
  rw [size, size, AList.keys_erase, List.length_erase_of_mem hmem]
  omega

theorem size_erase_le (t : Table K V) (k : K) : size (t.erase k) ≤ size t := by
  rw [size, size, AList.keys_erase]
  exact List.length_erase_le

theorem size_insert_le (t : Table K V) (k : K) (v : V) :
    size (t.insert k v) ≤ size t + 1 := by
  rw [size, size, AList.keys_insert, List.length_cons]
  exact Nat.succ_le_succ List.length_erase_le

theorem size_insert_of_mem {t : Table K V} {k : K} (v : V) (h : k ∈ t) :
    size (t.insert k v) = size t := by
  have hmem : k ∈ t.keys := AList.mem_keys.1 h
  have hpos := List.length_pos_of_mem hmem
  rw [size, size, AList.keys_insert, List.length_cons, List.length_erase_of_mem hmem]
  omega

theorem size_insert_of_notMem {t : Table K V} {k : K} (v : V) (h : k ∉ t) :
    size (t.insert k v) = size t + 1 := by
  have hmem : k ∉ t.keys := fun hk => h (AList.mem_keys.2 hk)
  rw [size, size, AList.keys_insert, List.length_cons, List.erase_of_not_mem hmem]

theorem size_insert_of_lookup {t : Table K V} {k : K} {v : V} (w : V)
    (h : t.lookup k = some v) : size (t.insert k w) = size t :=
  size_insert_of_mem w (mem_of_lookup h)

theorem size_evictOldest_lt {cap : ℕ} (hcap : 0 < cap) (age : V → ℕ) (bucket : K → ℕ)
    {t : Table K V} (h : size t ≤ cap) : size (evictOldest age bucket t) < cap := by
  unfold evictOldest
  cases ho : oldest age bucket t with
  | none =>
      have hnil : t.entries = [] := List.argmin_eq_none.1 ho
      simpa [size, AList.keys, hnil] using hcap
  | some e =>
      have hmem : e ∈ t.entries := List.argmin_mem ho
      have hkey : e.1 ∈ t := List.mem_map_of_mem hmem
      have := size_erase_of_mem hkey
      dsimp only
      omega

/-- A table within its cap has room for one more key after `makeRoom`. -/
theorem size_makeRoom_lt {cap : ℕ} (hcap : 0 < cap) (expired : V → Bool) (age : V → ℕ)
    (bucket : K → ℕ) {t : Table K V} (h : size t ≤ cap) :
    size (makeRoom cap expired age bucket t) < cap := by
  unfold makeRoom
  split
  · assumption
  · dsimp only
    split
    · assumption
    · exact size_evictOldest_lt hcap age bucket ((size_eraseIf_le _ t).trans h)

theorem Shrinks.size_le {t' t : Table K V} (h : Shrinks t' t) : size t' ≤ size t := by
  refine (List.subperm_of_subset t'.nodupKeys fun k hk => ?_).length_le
  obtain ⟨v, hv⟩ := exists_lookup_of_mem (AList.mem_keys.2 hk)
  exact AList.mem_keys.1 (mem_of_lookup (h k v hv))

theorem size_le_size_erase (t : Table K V) (k : K) : size t ≤ size (t.erase k) + 1 := by
  rw [size, size, AList.keys_erase, List.length_erase]
  split <;> omega

omit [DecidableEq K] in
theorem oldest_le {age : V → ℕ} {bucket : K → ℕ} {t : Table K V} {e : Sigma fun _ : K => V}
    (h : oldest age bucket t = some e) : ∀ e' ∈ t.entries, age e.2 ≤ age e'.2 := by
  intro e' he'
  have hle := List.le_of_mem_argmin he' h
  rcases Prod.Lex.toLex_le_toLex.1 hle with hlt | ⟨heq, -⟩
  · exact hlt.le
  · exact heq.le

omit [DecidableEq K] in
/-- Where nothing is to be removed, nothing changes. -/
theorem eraseIf_eq_self {p : K → V → Bool} {t : Table K V}
    (h : ∀ e ∈ t.entries, p e.1 e.2 = false) : eraseIf p t = t := by
  refine AList.ext (List.filter_eq_self.2 fun e he => ?_)
  rw [h e he]
  rfl

omit [DecidableEq K] in
theorem size_eraseIf_lt {p : K → V → Bool} {t : Table K V} {e : Sigma fun _ : K => V}
    (he : e ∈ t.entries) (hp : p e.1 e.2 = true) : size (eraseIf p t) < size t := by
  have hlt := List.length_filter_lt_length_iff_exists (p := fun e => !p e.1 e.2).2
    ⟨e, he, by rw [hp]; exact Bool.false_ne_true⟩
  simpa [size, AList.keys, List.keys, eraseIf] using hlt

/-- In a full table the expired entries make way, if there are any. -/
theorem makeRoom_of_expired {cap : ℕ} {expired : V → Bool} (age : V → ℕ) (bucket : K → ℕ)
    {t : Table K V} (hfull : size t = cap) {k : K} {v : V} (h : t.lookup k = some v)
    (hexpired : expired v = true) :
    makeRoom cap expired age bucket t = eraseIf (fun _ v => expired v) t := by
  have hlt : size (eraseIf (fun _ v => expired v) t) < cap := by
    rw [← hfull]
    exact size_eraseIf_lt (AList.mem_lookup_iff.1 h) hexpired
  rw [makeRoom, if_neg (by omega)]
  exact if_pos hlt

/-- In a full table without expired entries the oldest one makes way. -/
theorem makeRoom_of_live {cap : ℕ} {expired : V → Bool} (age : V → ℕ) (bucket : K → ℕ)
    {t : Table K V} (hfull : size t = cap)
    (hlive : ∀ k v, t.lookup k = some v → expired v = false) :
    makeRoom cap expired age bucket t = evictOldest age bucket t := by
  have hkept : eraseIf (fun _ v => expired v) t = t :=
    eraseIf_eq_self fun e he => hlive e.1 e.2 (AList.mem_lookup_iff.2 he)
  rw [makeRoom, if_neg (by omega), hkept]
  exact if_neg (by omega)

/-- The entry that makes way is one of the smallest age. -/
theorem evictOldest_of_pos (age : V → ℕ) (bucket : K → ℕ) {t : Table K V} (h : 0 < size t) :
    ∃ k v, t.lookup k = some v ∧ (∀ k' v', t.lookup k' = some v' → age v ≤ age v') ∧
      evictOldest age bucket t = t.erase k := by
  rw [evictOldest]
  cases ho : oldest age bucket t with
  | none =>
      have hnil : t.entries = [] := List.argmin_eq_none.1 ho
      simp [size, AList.keys, hnil] at h
  | some e =>
      refine ⟨e.1, e.2, AList.mem_lookup_iff.2 (List.argmin_mem ho), ?_, rfl⟩
      intro k' v' h'
      exact oldest_le ho ⟨k', v'⟩ (AList.mem_lookup_iff.1 h')

theorem mem_walk {bucket : K → ℕ} {t : Table K V} {k : K} {v : V} :
    ⟨k, v⟩ ∈ walk bucket t ↔ t.lookup k = some v := by
  rw [(walk_perm bucket t).mem_iff, ← AList.mem_lookup_iff, Option.mem_def]

omit [DecidableEq K] in
theorem length_walk (bucket : K → ℕ) (t : Table K V) : (walk bucket t).length = size t := by
  rw [(walk_perm bucket t).length_eq, size, AList.keys, List.keys, List.length_map]

omit [DecidableEq K] in
theorem nodup_walk (bucket : K → ℕ) (t : Table K V) :
    ((walk bucket t).map Sigma.fst).Nodup :=
  ((walk_perm bucket t).map Sigma.fst).nodup_iff.2 t.nodupKeys

/-- The number of entries whose value satisfies `p`. -/
def count (p : V → Bool) (t : Table K V) : ℕ := t.entries.countP fun e => p e.2

omit [DecidableEq K] in
theorem count_eraseIf (p q : V → Bool) (t : Table K V) :
    count p (eraseIf (fun _ v => q v) t) + count (fun v => q v && p v) t = count p t := by
  have hkept : (eraseIf (fun _ v => q v) t).entries = t.entries.filter fun e => !q e.2 := rfl
  rw [count, count, count, hkept]
  induction t.entries with
  | nil => rfl
  | cons e l ih =>
      rw [List.filter_cons, List.countP_cons, List.countP_cons]
      cases hq : q e.2 <;> cases hp : p e.2 <;> simp [hp] <;> omega

/-- Where the entry of a key stands, and what is left when it is erased. -/
theorem entries_of_lookup {t : Table K V} {k : K} {v : V} (h : t.lookup k = some v) :
    ∃ before after, t.entries = before ++ ⟨k, v⟩ :: after ∧
      (t.erase k).entries = before ++ after := by
  have hkey : k ∈ t.entries.keys := AList.mem_keys.1 (mem_of_lookup h)
  obtain ⟨w, before, after, -, hentries, herase⟩ := List.exists_of_kerase hkey
  have hvalue : v = w := by
    have hmem : (⟨k, w⟩ : Sigma fun _ : K => V) ∈ t.entries := by simp [hentries]
    have hw := AList.mem_lookup_iff.2 hmem
    rw [h] at hw
    exact Option.some.inj hw
  rw [hvalue]
  exact ⟨before, after, hentries, herase⟩

theorem count_erase_of_lookup (p : V → Bool) {t : Table K V} {k : K} {w : V}
    (h : t.lookup k = some w) :
    count p (t.erase k) + (if p w then 1 else 0) = count p t := by
  obtain ⟨before, after, hentries, herase⟩ := entries_of_lookup h
  rw [count, count, herase, hentries, List.countP_append, List.countP_append,
    List.countP_cons, Nat.add_assoc]

theorem count_insert_of_lookup (p : V → Bool) {t : Table K V} {k : K} {w : V} (v : V)
    (h : t.lookup k = some w) :
    count p (t.insert k v) + (if p w then 1 else 0) = count p t + if p v then 1 else 0 := by
  have herase := count_erase_of_lookup p h
  have hinsert : count p (t.insert k v) = count p (t.erase k) + if p v then 1 else 0 :=
    List.countP_cons
  omega

theorem count_insert_of_lookup_eq_none (p : V → Bool) {t : Table K V} {k : K} (v : V)
    (h : t.lookup k = none) :
    count p (t.insert k v) = count p t + if p v then 1 else 0 := by
  have hinsert : count p (t.insert k v) = count p (t.erase k) + if p v then 1 else 0 :=
    List.countP_cons
  rw [hinsert, erase_of_lookup_eq_none h]

theorem count_pos_of_lookup {p : V → Bool} {t : Table K V} {k : K} {v : V}
    (h : t.lookup k = some v) (hp : p v = true) : 0 < count p t :=
  List.countP_pos_iff.2 ⟨⟨k, v⟩, AList.mem_lookup_iff.1 h, hp⟩

theorem count_eq_zero {p : V → Bool} {t : Table K V}
    (h : ∀ k v, t.lookup k = some v → p v = false) : count p t = 0 := by
  refine List.countP_eq_zero.2 fun e he => ?_
  rw [h e.1 e.2 (AList.mem_lookup_iff.2 he)]
  exact Bool.false_ne_true

/-- Inserts the pairs of a list one after the other. -/
def insertAll (t : Table K V) (l : List (K × V)) : Table K V :=
  l.foldl (fun t kv => t.insert kv.1 kv.2) t

theorem lookup_insertAll {l : List (K × V)} (hl : (l.map Prod.fst).Nodup) (t : Table K V)
    (k : K) (v : V) :
    (insertAll t l).lookup k = some v ↔
      (k, v) ∈ l ∨ k ∉ l.map Prod.fst ∧ t.lookup k = some v := by
  induction l generalizing t with
  | nil => simp [insertAll]
  | cons kv l ih =>
      obtain ⟨k', v'⟩ := kv
      rw [List.map_cons, List.nodup_cons] at hl
      have ih := ih hl.2 (t.insert k' v')
      rw [insertAll, List.foldl_cons]
      rw [insertAll] at ih
      rw [ih, lookup_insert_eq]
      by_cases hk : k = k'
      · subst hk
        have hnot : ∀ w, (k, w) ∉ l := fun w hw => hl.1 (List.mem_map.2 ⟨(k, w), hw, rfl⟩)
        have hfresh : k ∉ l.map Prod.fst := hl.1
        rw [if_pos rfl]
        simp [hnot, hfresh, eq_comm]
      · simp [hk]

/-- A table filled from the entries of another one that pass a filter. -/
theorem lookup_insertAll_walk {W : Type*} (bucket : K → ℕ) (t : Table K V)
    (p : (Sigma fun _ : K => V) → Bool) (f : V → W) (k : K) (w : W) :
    (insertAll ∅ (((walk bucket t).filter p).map fun e => (e.1, f e.2))).lookup k = some w ↔
      ∃ v, t.lookup k = some v ∧ p ⟨k, v⟩ ∧ w = f v := by
  have hnodup : ((((walk bucket t).filter p).map fun e => (e.1, f e.2)).map Prod.fst).Nodup := by
    rw [List.map_map]
    exact (nodup_walk bucket t).sublist (List.filter_sublist.map Sigma.fst)
  rw [lookup_insertAll hnodup]
  constructor
  · rintro (h | ⟨-, h⟩)
    · obtain ⟨⟨k', v⟩, hmem, heq⟩ := List.mem_map.1 h
      obtain ⟨hwalk, hp⟩ := List.mem_filter.1 hmem
      cases heq
      exact ⟨v, mem_walk.1 hwalk, hp, rfl⟩
    · cases h
  · rintro ⟨v, hlookup, hp, rfl⟩
    exact Or.inl (List.mem_map.2 ⟨⟨k, v⟩, List.mem_filter.2 ⟨mem_walk.2 hlookup, hp⟩, rfl⟩)

end

end KeyedTable
