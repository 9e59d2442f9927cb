import SplitHello.Strategy.Learning

/-!
# The strategy file round trip

What the store writes is read back as it was: the live entries without their
re-verification claim, the persisted candidates without their strike, nothing
else. The first half follows the text through the scanner and the field codec;
the second half finds the invariant of the store under which no field is
clamped, no key renamed and no line dropped on the way.
-/

namespace SplitHello

namespace Strategy

open ByteString Tls Diagnosis KeyedTable Json History

/-! ## One line -/

theorem semicolon_notMem_decimal (n : ℕ) : semicolon ∉ decimal n := notMem_decimal rfl n

theorem semicolon_notMem_name (p : Profile) : semicolon ∉ p.name := by
  cases p <;> decide

theorem semicolon_notMem_kindName (kind : Kind) : semicolon ∉ kind.name := by
  cases kind <;> decide

theorem parseKind_name (kind : Kind) : parseKind kind.name = kind := by
  cases kind <;> decide

theorem fromChars_decimal_self {bits n : ℕ} (h : n < 2 ^ bits) :
    fromChars bits (decimal n) = some n := by
  simpa using fromChars_decimal h [] (by simp)

theorem numericField_lt {bits : ℕ} (fields : List Bytes) (i : ℕ) {fallback : ℕ}
    (hfallback : fallback < 2 ^ bits) : numericField bits fields i fallback < 2 ^ bits := by
  rw [numericField]
  cases h : (fields[i]?).bind (fromChars bits) with
  | none => exact hfallback
  | some n =>
      obtain ⟨text, -, hn⟩ := Option.bind_eq_some_iff.1 h
      rw [fromChars] at hn
      split at hn
      · cases hn
      · rename_i hrange
        cases hn
        exact Nat.lt_of_not_le fun hge => hrange (Or.inr hge)

theorem splitFields_encodeEntry (e : Entry) :
    splitFields (Store.encodeEntry e) =
      [e.profile.name, e.kind.name, decimal e.confidence, decimal e.expiresAt,
        decimal e.failures, decimal e.verifiedAt] := by
  refine List.splitOn_intercalate _ ?_ (by simp)
  simp only [List.mem_cons, List.not_mem_nil, or_false, forall_eq_or_imp, forall_eq]
  exact ⟨semicolon_notMem_name _, semicolon_notMem_kindName _, semicolon_notMem_decimal _,
    semicolon_notMem_decimal _, semicolon_notMem_decimal _, semicolon_notMem_decimal _⟩

theorem splitFields_encodeCandidate (c : Candidate) :
    splitFields (Store.encodeCandidate c) =
      [c.profile.name, Kind.unknown.name, ofString "50", decimal c.persistUntil,
        ofString "0", ofString "0"] := by
  refine List.splitOn_intercalate _ ?_ (by simp)
  simp only [List.mem_cons, List.not_mem_nil, or_false, forall_eq_or_imp, forall_eq]
  exact ⟨semicolon_notMem_name _, by decide, by decide, semicolon_notMem_decimal _,
    by decide, by decide⟩

/-- What the file keeps of an entry: the claim of a connection to re-verify it is
not written. -/
def Entry.saved (e : Entry) : Entry := { e with reverifyStartedAt := 0 }

/-- What the file keeps of a candidate: the strike is not written. -/
def Candidate.saved (c : Candidate) : Candidate where
  profile := c.profile
  persistUntil := c.persistUntil

/-- What the codec keeps of an entry exactly as it is. -/
structure EntrySound (wall : ℕ) (key : Bytes) (e : Entry) : Prop where
  bar_mem : bar ∈ key
  profile_ne : e.profile ≠ .none
  confidence_le : e.confidence ≤ 100
  expiresAt_le : e.expiresAt ≤ wall + learningTtlSeconds
  failures_lt : e.failures < 2 ^ 32
  verifiedAt_pos : 0 < e.verifiedAt
  verifiedAt_le : e.verifiedAt ≤ wall + clockSkewSeconds

structure CandidateSound (wall : ℕ) (key : Bytes) (c : Candidate) : Prop where
  bar_mem : bar ∈ key
  profile_ne : c.profile ≠ .none
  persistUntil_le : c.persistUntil ≤ wall + learningTtlSeconds

theorem decodeEntry_encodeEntry {now : Moment} {key : Bytes} {e : Entry}
    (he : EntrySound now.wall key e) :
    decodeEntry now e.profile (splitFields (Store.encodeEntry e)) =
      e.saved := by
  have hwall := now.wall_lt
  have hconfidence := he.confidence_le
  have hexpires := he.expiresAt_le
  have hverified := he.verifiedAt_le
  have hskew : ¬ e.verifiedAt > now.wall + clockSkewSeconds := by omega
  have h₂ : fromChars 32 (decimal e.confidence) = some e.confidence :=
    fromChars_decimal_self (by omega)
  have h₃ : fromChars 64 (decimal e.expiresAt) = some e.expiresAt :=
    fromChars_decimal_self (by rw [learningTtlSeconds] at hexpires; omega)
  have h₄ : fromChars 32 (decimal e.failures) = some e.failures :=
    fromChars_decimal_self he.failures_lt
  have h₅ : fromChars 64 (decimal e.verifiedAt) = some e.verifiedAt :=
    fromChars_decimal_self (by rw [clockSkewSeconds] at hverified; omega)
  rw [splitFields_encodeEntry]
  simp [decodeEntry, numericField, Entry.saved, parseKind_name, h₂, h₃, h₄, h₅, hskew,
    hconfidence, hexpires]

theorem loadRecord_encodeEntry {now : Moment} {key : Bytes} {e : Entry} {acc : Loaded}
    (he : EntrySound now.wall key e) (hlive : now.wall < e.expiresAt)
    (hroom : size acc.entries < maxRememberedHosts) :
    loadRecord now key (Store.encodeEntry e) acc =
      { acc with entries := acc.entries.insert key e.saved } := by
  have hkey : key ≠ [] := List.ne_nil_of_mem he.bar_mem
  have hprofile : (splitFields (Store.encodeEntry e)).head?.bind findProfile = some e.profile := by
    rw [splitFields_encodeEntry]
    exact findProfile_name e.profile
  have hexpired : ¬ e.expiresAt ≤ now.wall := by omega
  have hverified : e.verifiedAt ≠ 0 := he.verifiedAt_pos.ne'
  simp [loadRecord, hprofile, decodeEntry_encodeEntry he, Entry.saved, hkey, he.profile_ne,
    he.bar_mem,
    hexpired, hverified, hroom]

theorem loadRecord_encodeCandidate {now : Moment} {key : Bytes} {c : Candidate} {acc : Loaded}
    (hc : CandidateSound now.wall key c) (hlive : now.wall < c.persistUntil)
    (hroom : size acc.candidates < maxCandidates) :
    loadRecord now key (Store.encodeCandidate c) acc =
      { acc with
        candidates := acc.candidates.insert key
          c.saved } := by
  have hwall := now.wall_lt
  have hpersist := hc.persistUntil_le
  have hkey : key ≠ [] := List.ne_nil_of_mem hc.bar_mem
  have hprofile : (splitFields (Store.encodeCandidate c)).head?.bind findProfile =
      some c.profile := by
    rw [splitFields_encodeCandidate]
    exact findProfile_name c.profile
  have hexpired : ¬ c.persistUntil ≤ now.wall := by omega
  have h₃ : fromChars 64 (decimal c.persistUntil) = some c.persistUntil :=
    fromChars_decimal_self (by rw [learningTtlSeconds] at hpersist; omega)
  have h₅ : fromChars 64 (ofString "0") = some 0 := by decide
  have hexpires : (decodeEntry now c.profile (splitFields (Store.encodeCandidate c))).expiresAt =
      c.persistUntil := by
    rw [splitFields_encodeCandidate]
    simp [decodeEntry, numericField, h₃, hpersist]
  have hverified :
      (decodeEntry now c.profile (splitFields (Store.encodeCandidate c))).verifiedAt = 0 := by
    rw [splitFields_encodeCandidate]
    simp [decodeEntry, numericField, h₅]
  simp [loadRecord, Candidate.saved, hprofile, hexpires, hverified, hkey, hc.profile_ne,
    hc.bar_mem, hexpired,
    hroom]

/-! ## The lines of a file -/

theorem loadLoop_recordText (now : Moment) (fuel : ℕ) {ws : Bytes} (hws : ∀ c ∈ ws, isWs c)
    (record : Bytes × Bytes) (rest : Bytes) (acc : Loaded) :
    loadLoop now (fuel + 1) (ws ++ Store.recordText record ++ rest) acc =
      loadLoop now fuel rest (loadRecord now record.1 record.2 acc) := by
  obtain ⟨key, encoded⟩ := record
  have htext : ws ++ Store.recordText (key, encoded) ++ rest =
      (ws ++ ofString "    ") ++ (quoted key ++ (ofString ": " ++ (quoted encoded ++ rest))) := by
    simp [Store.recordText]
  have hblank : ∀ c ∈ ws ++ ofString "    ", isWs c := by
    intro c hc
    rcases List.mem_append.1 hc with hc | hc
    · exact hws c hc
    · have hspaces : ∀ c ∈ ofString "    ", isWs c :=
        List.all_eq_true.1 (by decide)
      exact hspaces c hc
  have hcons (v s : Bytes) : quoted v ++ s = quote :: (escape v ++ quote :: s) := by
    simp [quoted]
  have hcolon : skipWs (ofString ": " ++ (quoted encoded ++ rest)) =
      colon :: 32 :: (quoted encoded ++ rest) := by
    simp [skipWs, ofString, isWs, colon]
  have hspace : skipWs (32 :: (quoted encoded ++ rest)) = quoted encoded ++ rest := by
    have hws : ∀ c ∈ [(32 : UInt8)], isWs c := List.all_eq_true.1 (by decide)
    have hskip := skipWs_append hws (quoted encoded ++ rest)
    rwa [skipWs_quoted] at hskip
  have hhead : (quoted encoded ++ rest).head? = some quote := by simp [quoted]
  have hconsumed : (quoted encoded ++ rest).take
      ((quoted encoded ++ rest).length - rest.length) = quoted encoded := by simp
  have hlength : ¬ (quoted encoded).length < 2 := by simp [quoted]
  have hlast : (quoted encoded).getLast? = some quote := by
    rw [quoted, List.getLast?_append]
    rfl
  rw [htext, loadLoop, skipWs_append hblank, skipWs_quoted, hcons key]
  dsimp only
  rw [if_neg (by decide), if_neg (by decide), if_neg (by simp), ← hcons key,
    parseString_quoted]
  dsimp only
  rw [hcolon]
  dsimp only
  rw [if_neg (by simp), hspace, if_neg (by simp [hhead]), parseString_quoted]
  dsimp only
  rw [hconsumed, if_neg (by simp [hlength, hlast])]

theorem loadLoop_comma (now : Moment) (fuel : ℕ) (rest : Bytes) (acc : Loaded) :
    loadLoop now (fuel + 1) (comma :: rest) acc = loadLoop now fuel rest acc := by
  have hskip : skipWs (comma :: rest) = comma :: rest := by simp [skipWs, isWs, comma]
  rw [loadLoop, hskip]
  dsimp only
  rw [if_neg (by decide), if_pos rfl]

theorem loadLoop_end (now : Moment) (fuel : ℕ) (acc : Loaded) :
    loadLoop now fuel (ofString "\n  \x7d") acc = acc := by
  cases fuel with
  | zero => rfl
  | succ fuel => rfl

/-- The lines behind the first one. -/
def moreRecords (records : List (Bytes × Bytes)) : Bytes :=
  records.flatMap fun record => ofString ",\n" ++ Store.recordText record

theorem intercalate_recordText (record : Bytes × Bytes) (records : List (Bytes × Bytes)) :
    (ofString ",\n").intercalate ((record :: records).map Store.recordText) =
      Store.recordText record ++ moreRecords records := by
  induction records generalizing record with
  | nil => simp [moreRecords, List.intercalate]
  | cons next records ih =>
      have ih := ih next
      rw [List.map_cons, List.map_cons, List.intercalate_cons_cons, ← List.map_cons, ih]
      simp [moreRecords]

theorem loadLoop_moreRecords (now : Moment) (records : List (Bytes × Bytes)) (fuel : ℕ)
    (hfuel : 2 * records.length ≤ fuel) (acc : Loaded) :
    loadLoop now fuel (moreRecords records ++ ofString "\n  \x7d") acc =
      records.foldl (fun acc record => loadRecord now record.1 record.2 acc) acc := by
  induction records generalizing fuel acc with
  | nil => exact loadLoop_end now fuel acc
  | cons record records ih =>
      rw [List.length_cons] at hfuel
      obtain ⟨fuel, rfl⟩ : ∃ n, fuel = n + 2 := ⟨fuel - 2, by omega⟩
      have htext : moreRecords (record :: records) ++ ofString "\n  \x7d" =
          comma :: ([10] ++ Store.recordText record ++
            (moreRecords records ++ ofString "\n  \x7d")) := by
        simp [moreRecords, ofString, comma]
      rw [htext, loadLoop_comma,
        loadLoop_recordText now fuel (List.all_eq_true.1 (by decide)),
        ih fuel (by omega), List.foldl_cons]

theorem length_recordText (record : Bytes × Bytes) : 4 ≤ (Store.recordText record).length := by
  simp [Store.recordText, ofString]

theorem length_moreRecords (records : List (Bytes × Bytes)) :
    6 * records.length ≤ (moreRecords records).length := by
  induction records with
  | nil => simp
  | cons record records ih =>
      have hrecord := length_recordText record
      simp only [moreRecords, List.flatMap_cons, List.length_append, List.length_cons] at ih ⊢
      have hcomma : (ofString ",\n").length = 2 := by decide
      omega

/-- The members between the braces of the file, as the loader sees them. -/
def membersText (records : List (Bytes × Bytes)) : Bytes :=
  ofString "\n" ++ (ofString ",\n").intercalate (records.map Store.recordText) ++
    ofString "\n  \x7d"

theorem loadLoop_membersText (now : Moment) (records : List (Bytes × Bytes)) (acc : Loaded) :
    loadLoop now (membersText records).length (membersText records) acc =
      records.foldl (fun acc record => loadRecord now record.1 record.2 acc) acc := by
  cases records with
  | nil => rfl
  | cons record records =>
      have hlength := length_moreRecords records
      have hrecord := length_recordText record
      have htext : membersText (record :: records) =
          [10] ++ Store.recordText record ++ (moreRecords records ++ ofString "\n  \x7d") := by
        rw [membersText, intercalate_recordText]
        simp [ofString]
      rw [htext]
      obtain ⟨fuel, hfuel⟩ : ∃ n, ([10] ++ Store.recordText record ++
          (moreRecords records ++ ofString "\n  \x7d")).length = n + 1 :=
        ⟨_, (Nat.sub_add_cancel (by simp)).symm⟩
      have hle : 2 * records.length ≤ fuel := by
        simp only [List.length_append, List.length_cons] at hfuel
        omega
      rw [hfuel, loadLoop_recordText now fuel (List.all_eq_true.1 (by decide)),
        loadLoop_moreRecords now _ fuel hle, List.foldl_cons]

/-! ## The whole text -/

theorem rawLoop_recordText (depth : ℕ) (record : Bytes × Bytes) (s : Bytes) :
    rawLoop 123 125 depth false (Store.recordText record ++ s) =
      Store.recordText record ++ rawLoop 123 125 depth false s := by
  have htext (s : Bytes) : Store.recordText record ++ s =
      ofString "    " ++ (quoted record.1 ++ (ofString ": " ++ (quoted record.2 ++ s))) := by
    simp [Store.recordText]
  rw [htext, rawLoop_plain depth (by decide), rawLoop_quoted, rawLoop_plain depth (by decide),
    rawLoop_quoted, htext]

theorem rawLoop_moreRecords (depth : ℕ) (records : List (Bytes × Bytes)) (s : Bytes) :
    rawLoop 123 125 depth false (moreRecords records ++ s) =
      moreRecords records ++ rawLoop 123 125 depth false s := by
  induction records with
  | nil => rfl
  | cons record records ih =>
      have htext (s : Bytes) : moreRecords (record :: records) ++ s =
          ofString ",\n" ++ (Store.recordText record ++ (moreRecords records ++ s)) := by
        simp [moreRecords]
      rw [htext, rawLoop_plain depth (by decide), rawLoop_recordText, ih, htext]

theorem rawLoop_membersText (records : List (Bytes × Bytes)) (s : Bytes) :
    rawLoop 123 125 1 false (membersText records ++ s) = membersText records := by
  have hend : rawLoop 123 125 1 false (ofString "\n  \x7d" ++ s) = ofString "\n  \x7d" := by rfl
  cases records with
  | nil => rfl
  | cons record records =>
      have htext (s : Bytes) : membersText (record :: records) ++ s =
          ofString "\n" ++ (Store.recordText record ++ (moreRecords records ++
            (ofString "\n  \x7d" ++ s))) := by
        rw [membersText, intercalate_recordText]
        simp
      rw [htext, rawLoop_plain 1 (by decide), rawLoop_recordText, rawLoop_moreRecords, hend]
      simpa using (htext []).symm

theorem getRaw_snapshotText (s : Store) (now : Moment) :
    getRaw (s.snapshotText now) (ofString "domains") =
      123 :: membersText (s.savedRecords now) := by
  have htext : s.snapshotText now =
      ofString "\x7b\n  \"version\": 2,\n  \"domains\": \x7b" ++
        (membersText (s.savedRecords now) ++ ofString "\n\x7d\n") := by
    simp [Store.snapshotText, membersText, ofString]
  have hfind (rest : Bytes) : findValue (ofString "domains")
      (ofString "\x7b\n  \"version\": 2,\n  \"domains\": \x7b" ++ rest) = some (123 :: rest) := by
    rfl
  have hopen (rest : Bytes) : rawLoop 123 125 0 false (123 :: rest) =
      123 :: rawLoop 123 125 1 false rest := by
    rfl
  rw [htext, getRaw, hfind]
  dsimp only
  rw [if_pos rfl, hopen, rawLoop_membersText]

/-- Reading the file back is a fold over the lines written to it. -/
theorem load_snapshotText_eq (reader s : Store) (written now : Moment) :
    reader.load (s.snapshotText written) now =
      let loaded := (s.savedRecords written).foldl
        (fun acc record => loadRecord now record.1 record.2 acc) {}
      { reader with entries := loaded.entries, candidates := loaded.candidates } := by
  rw [Store.load, getRaw_snapshotText]
  dsimp only
  rw [if_neg (by decide), loadLoop_membersText]

/-- No key is written twice: a pending nomination is left out where there is a winner. -/
theorem nodup_savedRecords_keys (s : Store) (now : Moment) :
    ((s.savedRecords now).map Prod.fst).Nodup := by
  rw [Store.savedRecords, List.map_append, List.map_map, List.map_map]
  refine List.Nodup.append ((nodup_walk _ _).sublist (List.filter_sublist.map _))
    ((nodup_walk _ _).sublist (List.filter_sublist.map _)) ?_
  intro key hentry hcandidate
  obtain ⟨⟨_, e⟩, he, rfl⟩ := List.mem_map.1 hentry
  obtain ⟨⟨_, c⟩, hc, hkey⟩ := List.mem_map.1 hcandidate
  have hlookup := mem_walk.1 (List.mem_filter.1 he).1
  have hkeep := (List.mem_filter.1 hc).2
  dsimp only [Function.comp_apply] at hkey
  rw [hkey, hlookup] at hkeep
  simp at hkeep

/-! ## The fold over the lines -/

theorem foldl_entryLines {now : Moment} (lines : List (Sigma fun _ : Bytes => Entry))
    (hlines : ∀ e ∈ lines, EntrySound now.wall e.1 e.2 ∧ now.wall < e.2.expiresAt) (acc : Loaded)
    (hroom : size acc.entries + lines.length ≤ maxRememberedHosts) :
    (lines.map fun e => (e.1, Store.encodeEntry e.2)).foldl
        (fun acc record => loadRecord now record.1 record.2 acc) acc =
      { acc with
        entries := insertAll acc.entries
          (lines.map fun e => (e.1, e.2.saved)) } := by
  induction lines generalizing acc with
  | nil => rfl
  | cons e lines ih =>
      obtain ⟨hsound, hlive⟩ := hlines e (by simp)
      rw [List.length_cons] at hroom
      have hsize := size_insert_le acc.entries e.1 e.2.saved
      rw [List.map_cons, List.foldl_cons, loadRecord_encodeEntry hsound hlive (by omega),
        ih (fun x hx => hlines x (List.mem_cons_of_mem _ hx)) _
          (by dsimp only at hsize ⊢; omega)]
      rfl

theorem foldl_candidateLines {now : Moment} (lines : List (Sigma fun _ : Bytes => Candidate))
    (hlines : ∀ c ∈ lines, CandidateSound now.wall c.1 c.2 ∧ now.wall < c.2.persistUntil)
    (acc : Loaded) (hroom : size acc.candidates + lines.length ≤ maxCandidates) :
    (lines.map fun c => (c.1, Store.encodeCandidate c.2)).foldl
        (fun acc record => loadRecord now record.1 record.2 acc) acc =
      { acc with
        candidates := insertAll acc.candidates
          (lines.map fun c =>
            (c.1, c.2.saved)) } := by
  induction lines generalizing acc with
  | nil => rfl
  | cons c lines ih =>
      obtain ⟨hsound, hlive⟩ := hlines c (by simp)
      rw [List.length_cons] at hroom
      have hsize := size_insert_le acc.candidates c.1
        c.2.saved
      rw [List.map_cons, List.foldl_cons, loadRecord_encodeCandidate hsound hlive (by omega),
        ih (fun x hx => hlines x (List.mem_cons_of_mem _ hx)) _ (by dsimp only; omega)]
      rfl

/-- What the operations keep true of the store, with respect to a wall clock that
has not been passed yet. -/
structure Sound (wall : ℕ) (s : Store) : Prop where
  entry : ∀ key e, s.entries.lookup key = some e → EntrySound wall key e
  candidate : ∀ key c, s.candidates.lookup key = some c → CandidateSound wall key c
  entries_le : size s.entries ≤ maxRememberedHosts
  candidates_le : size s.candidates ≤ maxCandidates

/-! ## The invariant -/

theorem EntrySound.reproven {wall : ℕ} {key : Bytes} {e : Entry} {now : Moment}
    (he : EntrySound wall key e) (hnow : now.wall ≤ wall) (kind : Kind) (confidence : ℕ) :
    EntrySound wall key (e.reproven now kind confidence) := by
  have hpos := now.wall_pos
  rw [Entry.reproven]
  dsimp only
  split
  · exact ⟨he.bar_mem, he.profile_ne, by simp, by dsimp only; omega, by simp, hpos,
      by dsimp only; omega⟩
  · exact ⟨he.bar_mem, he.profile_ne, he.confidence_le, by dsimp only; omega, by simp, hpos,
      by dsimp only; omega⟩

theorem bar_mem_scopeKey (networkId host : Bytes) : bar ∈ scopeKey networkId host := by
  simp [scopeKey, bar, ofString]

theorem EntrySound.winner {wall : ℕ} {now : Moment} (hnow : now.wall ≤ wall)
    (networkId host : Bytes) {profile : Profile} (hne : profile ≠ .none) (kind : Kind)
    (confidence : ℕ) :
    EntrySound wall (scopeKey networkId host) (Entry.winner now profile kind confidence) where
  bar_mem := bar_mem_scopeKey networkId host
  profile_ne := hne
  confidence_le := by simp [Entry.winner]
  expiresAt_le := by
    simp only [Entry.winner]
    omega
  failures_lt := by simp [Entry.winner]
  verifiedAt_pos := now.wall_pos
  verifiedAt_le := by
    simp only [Entry.winner]
    omega

theorem EntrySound.decodeEntry {wall : ℕ} {now : Moment} (hnow : now.wall ≤ wall) {key : Bytes}
    (hkey : bar ∈ key) {profile : Profile} (hne : profile ≠ .none) (fields : List Bytes)
    (hverified : (decodeEntry now profile fields).verifiedAt ≠ 0) :
    EntrySound wall key (Strategy.decodeEntry now profile fields) where
  bar_mem := hkey
  profile_ne := hne
  confidence_le := by simp [Strategy.decodeEntry]
  expiresAt_le := by
    simp only [Strategy.decodeEntry]
    omega
  failures_lt := numericField_lt fields 4 (by simp)
  verifiedAt_pos := Nat.pos_of_ne_zero hverified
  verifiedAt_le := by
    simp only [Strategy.decodeEntry]
    split <;> omega

theorem learn_entries_le {s : Store} (hs : size s.entries ≤ maxRememberedHosts) (now : Moment)
    (key : Bytes) (profile : Profile) (kind : Kind) (confidence : ℕ) :
    size (s.learn now key profile kind confidence).1.entries ≤ maxRememberedHosts := by
  rw [Store.learn]
  dsimp only
  cases h : s.entries.lookup key with
  | none =>
      have hroom : size (s.makeRoomForEntry now) < maxRememberedHosts :=
        size_makeRoom_lt (by decide) _ _ _ hs
      exact (size_insert_le _ _ _).trans hroom
  | some e =>
      rw [if_neg (by simp), size_insert_of_lookup _ h]
      exact hs

theorem strike_entries_le {s : Store} (hs : size s.entries ≤ maxRememberedHosts) (now : Moment)
    (key : Bytes) (profile : Profile) (confidence : ℕ) :
    size (s.strike now key profile confidence).1.entries ≤ maxRememberedHosts := by
  rcases s.strike_cases now key profile confidence with
    ⟨-, heq⟩ | ⟨pending, -, -, ⟨-, heq⟩ | ⟨-, -, heq⟩ | ⟨-, -, heq⟩⟩
  · rw [heq]
    exact hs
  · rw [heq]
    exact hs
  · rw [heq]
    exact hs
  · rw [heq]
    exact learn_entries_le hs now key profile _ confidence

theorem strike_candidates_le {s : Store} (hs : size s.candidates ≤ maxCandidates) (now : Moment)
    (key : Bytes) (profile : Profile) (confidence : ℕ) :
    size (s.strike now key profile confidence).1.candidates ≤ maxCandidates := by
  rcases s.strike_cases now key profile confidence with
    ⟨-, heq⟩ | ⟨pending, hlookup, -, ⟨-, heq⟩ | ⟨-, -, heq⟩ | ⟨-, -, heq⟩⟩
  · rw [heq]
    have hroom : size (Store.makeRoomForCandidate (s.candidates.erase key) now) < maxCandidates :=
      size_makeRoom_lt (by decide) _ _ _ ((size_erase_le _ _).trans hs)
    exact (size_insert_le _ _ _).trans hroom
  · rw [heq]
    exact (size_insert_of_lookup _ hlookup).trans_le hs
  · rw [heq]
    exact (size_insert_of_lookup _ hlookup).trans_le hs
  · rw [heq]
    exact (size_erase_le _ _).trans hs

theorem remember_sizes_le {s : Store} (hentries : size s.entries ≤ maxRememberedHosts)
    (hcandidates : size s.candidates ≤ maxCandidates) (now : Moment)
    (networkId host profileName : Bytes) (kind : Kind) (confidence : ℕ) :
    let after := (s.remember now networkId host profileName kind confidence).1
    size after.entries ≤ maxRememberedHosts ∧ size after.candidates ≤ maxCandidates := by
  dsimp only
  rcases s.remember_cases now networkId host profileName kind confidence with
    ⟨-, heq⟩ | ⟨-, profile, -, ⟨-, heq⟩ | ⟨-, heq⟩⟩
  · rw [heq]
    exact ⟨hentries, hcandidates⟩
  · rw [heq]
    exact ⟨(size_erase_le _ _).trans hentries, (size_erase_le _ _).trans hcandidates⟩
  · rw [heq]
    rcases s.rememberProfile_cases now (scopeKey networkId host) profile kind confidence with
      hcase | ⟨e, hlive, hcase⟩ | ⟨e, hlive, hcase⟩ | ⟨⟨rfl, -⟩, hcase⟩ | ⟨-, hcase⟩
    · rw [hcase]
      exact ⟨hentries, hcandidates⟩
    · have hlookup := (liveEntry_eq_some.1 hlive).1
      rw [hcase, Store.refresh]
      split
      · exact ⟨(size_insert_of_lookup _ hlookup).trans_le hentries, hcandidates⟩
      · exact ⟨hentries, hcandidates⟩
    · have hlookup := (liveEntry_eq_some.1 hlive).1
      rw [hcase]
      exact ⟨(size_insert_of_lookup _ hlookup).trans_le hentries, hcandidates⟩
    · rw [hcase]
      exact ⟨strike_entries_le hentries now _ profile confidence,
        strike_candidates_le hcandidates now _ profile confidence⟩
    · rw [hcase]
      exact ⟨learn_entries_le hentries now _ profile kind confidence,
        (size_erase_le _ _).trans hcandidates⟩

theorem recordFailure_entries_le {s : Store} (hs : size s.entries ≤ maxRememberedHosts)
    (networkId host : Bytes) (profile : Profile) :
    size (s.recordFailure networkId host profile).1.entries ≤ maxRememberedHosts := by
  rw [Store.recordFailure]
  dsimp only
  split
  · exact hs
  · rename_i entry hentry
    have hlookup := (Option.filter_eq_some_iff.1 hentry).1
    split
    · exact (size_erase_le _ _).trans hs
    · exact (size_insert_of_lookup _ hlookup).trans_le hs

theorem probeOrder_entries_le {s : Store} (hs : size s.entries ≤ maxRememberedHosts)
    (now : Moment) (networkId host : Bytes) (hello : ClientHello) :
    size (s.probeOrder now networkId host hello).1.entries ≤ maxRememberedHosts := by
  rw [Store.probeOrder]
  split
  · exact hs
  · dsimp only
    split
    · rename_i entry hlive
      have hlookup := (liveEntry_eq_some.1 hlive).1
      split
      · exact (size_insert_of_lookup _ hlookup).trans_le hs
      · exact hs
    · split <;> exact hs

theorem Sound.empty (wall : ℕ) : Sound wall {} where
  entry _ _ h := by cases h
  candidate _ _ h := by cases h
  entries_le := by decide
  candidates_le := by decide

/-- The tables the loader has filled so far. -/
def Loaded.store (acc : Loaded) : Store := { entries := acc.entries, candidates := acc.candidates }

theorem Sound.loadRecord {wall : ℕ} {now : Moment} (hnow : now.wall ≤ wall)
    (key encoded : Bytes) {acc : Loaded} (hacc : Sound wall acc.store) :
    Sound wall (Strategy.loadRecord now key encoded acc).store := by
  rcases Store.loadRecord_cases now key encoded acc with
    hrec | ⟨key', profile, hkey, hne, -, ⟨hroom, hrec⟩ | ⟨hroom, hverified, hrec⟩⟩
  · rw [hrec]
    exact hacc
  · rw [hrec]
    refine ⟨hacc.entry, ?_, hacc.entries_le, (size_insert_le _ _ _).trans hroom⟩
    intro k c h
    rcases lookup_insert_cases h with ⟨rfl, rfl⟩ | ⟨-, h⟩
    · refine ⟨hkey, hne, ?_⟩
      simp only [decodeEntry]
      omega
    · exact hacc.candidate k c h
  · rw [hrec]
    refine ⟨?_, hacc.candidate, (size_insert_le _ _ _).trans hroom, hacc.candidates_le⟩
    intro k e h
    rcases lookup_insert_cases h with ⟨rfl, rfl⟩ | ⟨-, h⟩
    · exact EntrySound.decodeEntry hnow hkey hne _ hverified
    · exact hacc.entry k e h

theorem Sound.load {wall : ℕ} {s : Store} (hs : Sound wall s) {now : Moment}
    (hnow : now.wall ≤ wall) (content : Bytes) : Sound wall (s.load content now) := by
  rcases s.load_cases content now with heq | ⟨fuel, domains, heq⟩
  · rw [heq]
    exact hs
  · have hloaded : Sound wall (loadLoop now fuel domains {}).store :=
      Store.loadLoop_invariant (P := fun acc => Sound wall acc.store)
        (fun key encoded acc hacc => hacc.loadRecord hnow key encoded) fuel domains {}
        (Sound.empty wall)
    rw [heq]
    exact ⟨hloaded.entry, hloaded.candidate, hloaded.entries_le, hloaded.candidates_le⟩

theorem apply_sizes_le {wall : ℕ} {s : Store} (hs : Sound wall s) {call : Call}
    (hcall : call.now.wall ≤ wall) :
    size (s.apply call).entries ≤ maxRememberedHosts ∧
      size (s.apply call).candidates ≤ maxCandidates := by
  obtain ⟨now, op⟩ := call
  cases op with
  | remember networkId host profileName kind confidence =>
      exact remember_sizes_le hs.entries_le hs.candidates_le now networkId host profileName kind
        confidence
  | noteBaselineHealthy networkId host =>
      exact ⟨hs.entries_le, (size_erase_le _ _).trans hs.candidates_le⟩
  | recordFailure networkId host profile =>
      rw [Store.apply, Store.recordFailure_candidates]
      exact ⟨recordFailure_entries_le hs.entries_le networkId host profile, hs.candidates_le⟩
  | forget host =>
      exact ⟨(size_eraseIf_le _ _).trans hs.entries_le,
        (size_eraseIf_le _ _).trans hs.candidates_le⟩
  | clear => exact ⟨(Sound.empty wall).entries_le, (Sound.empty wall).candidates_le⟩
  | probeOrder networkId host hello =>
      rw [Store.apply, Store.probeOrder_candidates]
      exact ⟨probeOrder_entries_le hs.entries_le now networkId host hello, hs.candidates_le⟩
  | load content =>
      have hload := hs.load hcall content
      exact ⟨hload.entries_le, hload.candidates_le⟩

theorem Sound.apply_entry {wall : ℕ} {s : Store} (hs : Sound wall s) {call : Call}
    (hcall : call.now.wall ≤ wall) {key : Bytes} {e : Entry} (h : EntryStep s call key e) :
    EntrySound wall key e := by
  cases h with
  | kept h => exact hs.entry key e h
  | refreshed h =>
      have hprev := hs.entry key _ h
      exact { hprev with failures_lt := by simp }
  | reproven h hlive kind confidence => exact (hs.entry key _ h).reproven hcall kind confidence
  | learned hop hne hkey houtcome =>
      rw [← hkey]
      exact EntrySound.winner hcall _ _ hne _ _
  | degraded h =>
      have hprev := hs.entry key _ h
      have hconfidence := hprev.confidence_le
      exact { hprev with
        failures_lt := Nat.mod_lt _ (by decide)
        confidence_le := by dsimp only; omega }
  | claimed hop hkey h =>
      have hprev := hs.entry key _ h
      exact { hprev with }
  | loaded hop h => exact (hs.load hcall _).entry key e h

theorem Sound.apply_candidate {wall : ℕ} {s : Store} (hs : Sound wall s) {call : Call}
    (hcall : call.now.wall ≤ wall) {key : Bytes} {c : Candidate}
    (h : CandidateStep s call key c) : CandidateSound wall key c := by
  cases h with
  | kept h _ => exact hs.candidate key c h
  | renewed h _ hne =>
      have hprev := hs.candidate key _ h
      exact ⟨hprev.bar_mem, hne, hprev.persistUntil_le⟩
  | struck hstrikes hne hpersist =>
      obtain ⟨networkId, host, _, _, _, -, -, -, -, rfl⟩ := hstrikes
      refine ⟨bar_mem_scopeKey networkId host, hne, ?_⟩
      rcases hpersist with hzero | ⟨c', hprev, hsame⟩
      · simp [Candidate.struck, hzero]
      · have := (hs.candidate _ c' hprev).persistUntil_le
        simpa [Candidate.struck, ← hsame] using this
  | loaded hop h => exact (hs.load hcall _).candidate key c h

theorem Sound.apply {wall : ℕ} {s : Store} (hs : Sound wall s) {call : Call}
    (hcall : call.now.wall ≤ wall) : Sound wall (s.apply call) where
  entry _ _ h := hs.apply_entry hcall (Store.apply_entryStep h)
  candidate _ _ h := hs.apply_candidate hcall (Store.apply_candidateStep h)
  entries_le := (apply_sizes_le hs hcall).1
  candidates_le := (apply_sizes_le hs hcall).2

theorem run_sound {wall : ℕ} (calls : List Call) (hcalls : ∀ call ∈ calls, call.now.wall ≤ wall) :
    Sound wall (run Store.apply {} calls) := by
  refine run_invariant Store.apply {}
    (fun calls s => (∀ call ∈ calls, call.now.wall ≤ wall) → Sound wall s)
    (fun _ => Sound.empty wall) ?_ calls hcalls
  intro past s call ih hpast
  simp only [List.mem_append, List.mem_singleton] at hpast
  exact (ih fun c hc => hpast c (Or.inl hc)).apply (hpast call (Or.inr rfl))

/-- Some wall clock bounds every stamp of a store that was reached. -/
theorem exists_sound (calls : List Call) : ∃ wall, Sound wall (run Store.apply {} calls) :=
  ⟨(calls.map fun call => call.now.wall).foldr max 0, run_sound calls fun _ hcall =>
    List.le_max_of_le' 0 (List.mem_map_of_mem hcall) le_rfl⟩

/-! ## The round trip -/

theorem load_snapshotText_of_sound {s : Store} {now : Moment} (hs : Sound now.wall s)
    (reader : Store) :
    (reader.load (s.snapshotText now) now).entries =
        insertAll ∅ (((walk now.bucket s.entries).filter fun e => e.2.expiresAt > now.wall).map
          fun e => (e.1, e.2.saved)) ∧
      (reader.load (s.snapshotText now) now).candidates =
        insertAll ∅ (((walk now.bucket s.candidates).filter fun c =>
            !(c.2.persistUntil ≤ now.wall || (s.entries.lookup c.1).isSome)).map
          fun c => (c.1, c.2.saved)) := by
  have hentries : ∀ e ∈ (walk now.bucket s.entries).filter fun e => e.2.expiresAt > now.wall,
      EntrySound now.wall e.1 e.2 ∧ now.wall < e.2.expiresAt := by
    intro e he
    rw [List.mem_filter] at he
    exact ⟨hs.entry e.1 e.2 (mem_walk.1 he.1), by simpa using he.2⟩
  have hcandidates : ∀ c ∈ (walk now.bucket s.candidates).filter fun c =>
      !(c.2.persistUntil ≤ now.wall || (s.entries.lookup c.1).isSome),
      CandidateSound now.wall c.1 c.2 ∧ now.wall < c.2.persistUntil := by
    intro c hc
    rw [List.mem_filter] at hc
    have hkeep := hc.2
    simp only [Bool.not_or, Bool.and_eq_true, Bool.not_eq_true', decide_eq_false_iff_not] at hkeep
    exact ⟨hs.candidate c.1 c.2 (mem_walk.1 hc.1), Nat.lt_of_not_le hkeep.1⟩
  have hentryRoom : ((walk now.bucket s.entries).filter
      fun e => e.2.expiresAt > now.wall).length ≤ maxRememberedHosts :=
    (List.length_filter_le _ _).trans ((length_walk _ _).trans_le hs.entries_le)
  have hcandidateRoom : ((walk now.bucket s.candidates).filter fun c =>
      !(c.2.persistUntil ≤ now.wall || (s.entries.lookup c.1).isSome)).length ≤ maxCandidates :=
    (List.length_filter_le _ _).trans ((length_walk _ _).trans_le hs.candidates_le)
  have hzero {V : Type} : size (∅ : Table Bytes V) = 0 := rfl
  rw [load_snapshotText_eq, Store.savedRecords, List.foldl_append]
  rw [foldl_entryLines _ hentries {} (by rw [hzero]; omega)]
  rw [foldl_candidateLines _ hcandidates _ (by rw [hzero]; omega)]
  exact ⟨rfl, rfl⟩

/-- Whatever happened to the store before, any reader that loads the file it
writes gets its live entries and its persisted candidates, and nothing else. -/
theorem load_snapshotText (calls : List Call) (now : Moment)
    (hclock : ∀ call ∈ calls, call.now.wall ≤ now.wall) (reader : Store) :
    let s := run Store.apply {} calls
    let loaded := reader.load (s.snapshotText now) now
    (∀ key e, loaded.entries.lookup key = some e ↔
      ∃ e', s.entries.lookup key = some e' ∧ now.wall < e'.expiresAt ∧
        e = e'.saved) ∧
    (∀ key c, loaded.candidates.lookup key = some c ↔
      ∃ c', s.candidates.lookup key = some c' ∧ now.wall < c'.persistUntil ∧
        s.entries.lookup key = none ∧
        c = c'.saved) ∧
    loaded.healthyAt = reader.healthyAt := by
  dsimp only
  have hs : Sound now.wall (run Store.apply {} calls) := run_sound calls hclock
  generalize run Store.apply {} calls = s at hs
  obtain ⟨hentries, hcandidates⟩ := load_snapshotText_of_sound hs reader
  refine ⟨?_, ?_, ?_⟩
  · intro key e
    rw [hentries, lookup_insertAll_walk now.bucket s.entries _ Entry.saved]
    simp
  · intro key c
    rw [hcandidates, lookup_insertAll_walk now.bucket s.candidates _ Candidate.saved]
    simp [and_assoc]
  · rw [load_snapshotText_eq]

/-- One host learned and written at the second strike. -/
theorem load_snapshotText_sample :
    ∃ e, (({} : Store).load ((run Store.apply {} [sampleStrike 100 (by decide),
        sampleStrike 160 (by decide)]).snapshotText (sampleStrike 160 (by decide)).now)
      (sampleStrike 160 (by decide)).now).entries.lookup (ofString "lan|a.bc") = some e ∧
      e.profile = .sniMid := by
  refine ⟨_, ((load_snapshotText [sampleStrike 100 (by decide), sampleStrike 160 (by decide)]
    (sampleStrike 160 (by decide)).now (by decide) {}).1 (ofString "lan|a.bc") _).2
    ⟨Entry.winner (sampleStrike 160 (by decide)).now .sniMid .sniInterferenceLikely 90,
      by decide, by decide, rfl⟩, rfl⟩

end Strategy

end SplitHello
