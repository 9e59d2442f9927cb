import SplitHello.Strategy.RoundTrip
import SplitHello.Json.Torn
import Mathlib.Data.List.Infix

/-!
# A strategy file that breaks off

A write that was interrupted leaves a prefix of the file. Whatever its length, the loader
reads the first lines of the whole file and stops: a line that breaks off, wherever it
does, is not read at all. As the lines have different keys, the tables of the prefix hold
nothing that the tables of the whole file do not hold with the same value.
-/

namespace SplitHello

namespace Strategy

open ByteString Tls Diagnosis KeyedTable Json History

/-! ## The loop ends by itself -/

theorem skipWs_length_le (s : Bytes) : (skipWs s).length ≤ s.length :=
  (List.dropWhile_suffix isWs).length_le

/-- More rounds than bytes change nothing. -/
theorem loadLoop_fuel (now : Moment) {fuel fuel' : ℕ} {s : Bytes} (h : s.length ≤ fuel)
    (h' : s.length ≤ fuel') (acc : Loaded) :
    loadLoop now fuel s acc = loadLoop now fuel' s acc := by
  induction fuel generalizing fuel' s acc with
  | zero =>
      have hnil : s = [] := List.length_eq_zero_iff.1 (by omega)
      rw [hnil]
      cases fuel' <;> rfl
  | succ fuel ih =>
      cases fuel' with
      | zero =>
          have hnil : s = [] := List.length_eq_zero_iff.1 (by omega)
          rw [hnil]
          rfl
      | succ fuel' =>
          have hskip := skipWs_length_le s
          rw [loadLoop, loadLoop]
          cases hs : skipWs s with
          | nil => rfl
          | cons c rest =>
              rw [hs, List.length_cons] at hskip
              dsimp only
              split
              · rfl
              split
              · exact ih (by omega) (by omega) acc
              split
              · rfl
              rename_i hquote
              have hkey := parseString_rest_lt (not_not.1 hquote) rest
              have hcolon := skipWs_length_le (parseString (c :: rest)).2
              split
              · rfl
              rename_i d behind hbehind
              rw [hbehind, List.length_cons] at hcolon
              split
              · rfl
              split
              · rfl
              have hvalue := parseString_rest_length (skipWs behind)
              have hws := skipWs_length_le behind
              split
              · rfl
              · exact ih (by omega) (by omega) _

/-! ## One line that breaks off -/

theorem skipWs_eq_nil {ws : Bytes} (hws : ∀ c ∈ ws, isWs c) : skipWs ws = [] := by
  have hskip := skipWs_append hws []
  rwa [List.append_nil] at hskip

theorem loadLoop_blank (now : Moment) (fuel : ℕ) {ws : Bytes} (hws : ∀ c ∈ ws, isWs c)
    (acc : Loaded) : loadLoop now fuel ws acc = acc := by
  cases fuel with
  | zero => rfl
  | succ fuel => rw [loadLoop, skipWs_eq_nil hws]

theorem skipWs_quote (s : Bytes) : skipWs (quote :: s) = quote :: s := by
  simp [skipWs, isWs, quote]

/-- A key that breaks off ends the loop. -/
theorem loadLoop_tornKey (now : Moment) (fuel : ℕ) {ws : Bytes} (hws : ∀ c ∈ ws, isWs c)
    {key q : Bytes} (h : TornLiteral key q) (acc : Loaded) :
    loadLoop now fuel (ws ++ q) acc = acc := by
  cases fuel with
  | zero => rfl
  | succ fuel =>
      have hrest := h.rest_eq_nil
      obtain ⟨b, rfl, -⟩ := h.cases
      rw [loadLoop, skipWs_append hws, skipWs_quote]
      dsimp only
      rw [if_neg (by decide), if_neg (by decide), if_neg (by simp), hrest]
      rfl

/-- Behind a key there is a value with its closing quote, or the loop ends. -/
theorem loadLoop_tornValue (now : Moment) (fuel : ℕ) {ws : Bytes} (hws : ∀ c ∈ ws, isWs c)
    (key : Bytes) {encoded q : Bytes} (hencoded : quote ∉ encoded)
    (hq : q <+: ofString ": " ++ quoted encoded) (hne : q ≠ ofString ": " ++ quoted encoded)
    (acc : Loaded) : loadLoop now fuel (ws ++ (quoted key ++ q)) acc = acc := by
  cases fuel with
  | zero => rfl
  | succ fuel =>
      have hcons (s : Bytes) : quoted key ++ s = quote :: (escape key ++ quote :: s) := by
        simp [quoted]
      rw [loadLoop, skipWs_append hws, skipWs_quoted, hcons q]
      dsimp only
      rw [if_neg (by decide), if_neg (by decide), if_neg (by simp), ← hcons, parseString_quoted]
      dsimp only
      rcases isPrefix_append_cases hq with ⟨htorn, -⟩ | ⟨value, hvalue, rfl⟩
      · have hcases : q = [] ∨ q = [colon] ∨ q = ofString ": " := by
          have hmem := (List.mem_inits _ _).2 htorn
          have hinits : (ofString ": ").inits = [[], [colon], ofString ": "] := by decide
          rw [hinits] at hmem
          simpa using hmem
        rcases hcases with rfl | rfl | rfl
        · rfl
        · rfl
        · rfl
      · have hcolon : skipWs (ofString ": " ++ value) = colon :: 32 :: value := by
          simp [skipWs, ofString, isWs, colon]
        rw [hcolon]
        dsimp only
        rw [if_neg (by simp)]
        by_cases hnil : value = []
        · rw [hnil]
          rfl
        · have hliteral : TornLiteral encoded value :=
            ⟨hvalue, fun heq => hne (by rw [heq]), hnil⟩
          have hrest := hliteral.rest_eq_nil
          have hopen := hliteral.not_closed hencoded
          obtain ⟨b, rfl, -⟩ := hliteral.cases
          have hskip : skipWs (32 :: quote :: b) = quote :: b := by
            simp [skipWs, isWs, quote]
          rw [hskip, if_neg (by simp), hrest, List.length_nil, Nat.sub_zero, List.take_length,
            if_pos hopen]

/-- A line that breaks off is not read. -/
theorem loadLoop_tornRecord (now : Moment) (fuel : ℕ) {ws : Bytes} (hws : ∀ c ∈ ws, isWs c)
    {record : Bytes × Bytes} (hencoded : quote ∉ record.2) {q : Bytes}
    (hq : q <+: ws ++ Store.recordText record) (hne : q ≠ ws ++ Store.recordText record)
    (acc : Loaded) : loadLoop now fuel q acc = acc := by
  obtain ⟨key, encoded⟩ := record
  have htext : ws ++ Store.recordText (key, encoded) =
      (ws ++ ofString "    ") ++ (quoted key ++ (ofString ": " ++ quoted encoded)) := by
    simp [Store.recordText]
  have hblank : ∀ c ∈ ws ++ ofString "    ", isWs c := by
    intro c hc
    rcases List.mem_append.1 hc with hc | hc
    · exact hws c hc
    · have hspaces : ∀ c ∈ ofString "    ", isWs c := List.all_eq_true.1 (by decide)
      exact hspaces c hc
  rw [htext] at hq hne
  rcases isPrefix_append_cases hq with ⟨htorn, -⟩ | ⟨member, hmember, rfl⟩
  · exact loadLoop_blank now fuel (fun c hc => hblank c (htorn.subset hc)) acc
  rcases isPrefix_append_cases hmember with ⟨htorn, hkey⟩ | ⟨value, hvalue, rfl⟩
  · by_cases hnil : member = []
    · rw [hnil, List.append_nil]
      exact loadLoop_blank now fuel hblank acc
    · exact loadLoop_tornKey now fuel hblank ⟨htorn, hkey, hnil⟩ acc
  · refine loadLoop_tornValue now fuel hblank key hencoded hvalue ?_ acc
    intro heq
    exact hne (by rw [heq])

/-! ## The lines of a prefix -/

theorem loadLoop_tornEnd (now : Moment) (fuel : ℕ) {q : Bytes} (hq : q <+: ofString "\n  \x7d")
    (acc : Loaded) : loadLoop now fuel q acc = acc := by
  cases fuel with
  | zero => rfl
  | succ fuel =>
      have hmem := (List.mem_inits _ _).2 hq
      have hinits : (ofString "\n  \x7d").inits =
          [[], [10], [10, 32], [10, 32, 32], [10, 32, 32, 125]] := by decide
      rw [hinits] at hmem
      simp only [List.mem_cons, List.not_mem_nil, or_false] at hmem
      rcases hmem with rfl | rfl | rfl | rfl | rfl
      · rfl
      · rfl
      · rfl
      · rfl
      · rfl

/-- The first lines, read one after the other. -/
def readLines (now : Moment) (records : List (Bytes × Bytes)) (acc : Loaded) : Loaded :=
  records.foldl (fun acc record => loadRecord now record.1 record.2 acc) acc

theorem loadLoop_prefix (now : Moment) {records : List (Bytes × Bytes)}
    (hrecords : ∀ record ∈ records, quote ∉ record.2) (fuel : ℕ) {q : Bytes}
    (hq : q <+: moreRecords records ++ ofString "\n  \x7d") (acc : Loaded) :
    ∃ k, loadLoop now fuel q acc = readLines now (records.take k) acc := by
  induction records generalizing fuel q acc with
  | nil => exact ⟨0, loadLoop_tornEnd now fuel hq acc⟩
  | cons record records ih =>
      have htext : moreRecords (record :: records) ++ ofString "\n  \x7d" =
          comma :: (([10] ++ Store.recordText record) ++
            (moreRecords records ++ ofString "\n  \x7d")) := by
        simp [moreRecords, ofString, comma]
      have hblank : ∀ c ∈ [(10 : UInt8)], isWs c := List.all_eq_true.1 (by decide)
      rw [htext] at hq
      rcases List.prefix_cons_iff.1 hq with rfl | ⟨line, rfl, hline⟩
      · exact ⟨0, loadLoop_blank now fuel (by simp) acc⟩
      cases fuel with
      | zero => exact ⟨0, rfl⟩
      | succ fuel =>
          rw [loadLoop_comma]
          rcases isPrefix_append_cases hline with ⟨htorn, hne⟩ | ⟨rest, hrest, rfl⟩
          · exact ⟨0, loadLoop_tornRecord now fuel hblank (hrecords record (by simp)) htorn hne
              acc⟩
          · cases fuel with
            | zero => exact ⟨0, rfl⟩
            | succ fuel =>
                obtain ⟨k, hk⟩ := ih (fun r hr => hrecords r (List.mem_cons_of_mem _ hr)) fuel
                  hrest (loadRecord now record.1 record.2 acc)
                refine ⟨k + 1, ?_⟩
                rw [loadLoop_recordText now fuel hblank, hk]
                rfl

theorem loadLoop_membersPrefix (now : Moment) {records : List (Bytes × Bytes)}
    (hrecords : ∀ record ∈ records, quote ∉ record.2) (fuel : ℕ) {q : Bytes}
    (hq : q <+: membersText records) (acc : Loaded) :
    ∃ k, loadLoop now fuel q acc = readLines now (records.take k) acc := by
  cases records with
  | nil =>
      have htext : membersText [] = [10] ++ ofString "\n  \x7d" := by decide
      have hblank : ∀ c ∈ [(10 : UInt8)], isWs c := List.all_eq_true.1 (by decide)
      refine ⟨0, ?_⟩
      rw [htext] at hq
      rcases isPrefix_append_cases hq with ⟨htorn, -⟩ | ⟨rest, hrest, rfl⟩
      · exact loadLoop_blank now fuel (fun c hc => hblank c (htorn.subset hc)) acc
      · cases fuel with
        | zero => rfl
        | succ fuel =>
            have hloop := loadLoop_tornEnd now (fuel + 1) hrest acc
            rwa [loadLoop, ← skipWs_append hblank, ← loadLoop] at hloop
  | cons record records =>
      have hblank : ∀ c ∈ [(10 : UInt8)], isWs c := List.all_eq_true.1 (by decide)
      have htext : membersText (record :: records) =
          ([10] ++ Store.recordText record) ++ (moreRecords records ++ ofString "\n  \x7d") := by
        rw [membersText, intercalate_recordText]
        simp [ofString]
      rw [htext] at hq
      rcases isPrefix_append_cases hq with ⟨htorn, hne⟩ | ⟨rest, hrest, rfl⟩
      · exact ⟨0, loadLoop_tornRecord now fuel hblank (hrecords record (by simp)) htorn hne acc⟩
      · cases fuel with
        | zero => exact ⟨0, rfl⟩
        | succ fuel =>
            obtain ⟨k, hk⟩ := loadLoop_prefix now
              (fun r hr => hrecords r (List.mem_cons_of_mem _ hr)) fuel hrest
              (loadRecord now record.1 record.2 acc)
            refine ⟨k + 1, ?_⟩
            rw [loadLoop_recordText now fuel hblank, hk]
            rfl

/-- What the scanner finds in a prefix of the file: nothing, or a prefix of the members. -/
theorem getRaw_prefix (s : Store) (now : Moment) {p : Bytes} (hp : p <+: s.snapshotText now) :
    getRaw p (ofString "domains") = [] ∨
      ∃ q, q <+: membersText (s.savedRecords now) ∧ getRaw p (ofString "domains") = 123 :: q := by
  have htext : s.snapshotText now =
      ofString "\x7b\n  \"version\": 2,\n  \"domains\": " ++
        (123 :: (membersText (s.savedRecords now) ++ ofString "\n\x7d\n")) := by
    simp [Store.snapshotText, membersText, ofString]
  have hhead : ∀ p ∈ (ofString "\x7b\n  \"version\": 2,\n  \"domains\": ").inits,
      getRaw p (ofString "domains") = [] := by decide
  have hfind (rest : Bytes) : findValue (ofString "domains")
      (ofString "\x7b\n  \"version\": 2,\n  \"domains\": " ++ 123 :: rest) =
        some (123 :: rest) := by
    rfl
  have hopen (rest : Bytes) : rawLoop 123 125 0 false (123 :: rest) =
      123 :: rawLoop 123 125 1 false rest := by
    rfl
  rw [htext] at hp
  rcases isPrefix_append_cases hp with ⟨htorn, -⟩ | ⟨object, hobject, rfl⟩
  · exact Or.inl (hhead p ((List.mem_inits _ _).2 htorn))
  rcases List.prefix_cons_iff.1 hobject with rfl | ⟨q, rfl, hq⟩
  · rw [List.append_nil]
    exact Or.inl (hhead _ ((List.mem_inits _ _).2 List.prefix_rfl))
  · refine Or.inr ⟨rawLoop 123 125 1 false q, ?_, ?_⟩
    · have hraw := rawLoop_isPrefix hq 123 125 1 false
      rwa [rawLoop_membersText] at hraw
    · rw [getRaw, hfind]
      dsimp only
      rw [if_pos rfl, hopen]

/-! ## What the lines hold -/

theorem quote_notMem_name (p : Profile) : quote ∉ p.name := by
  cases p <;> decide

theorem quote_notMem_kindName (kind : Kind) : quote ∉ kind.name := by
  cases kind <;> decide

theorem quote_notMem_encodeEntry (e : Entry) : quote ∉ Store.encodeEntry e := by
  have hdecimal := notMem_decimal (c := quote) rfl
  have hsemicolon : quote ≠ semicolon := by decide
  simp [Store.encodeEntry, List.intercalate, quote_notMem_name, quote_notMem_kindName, hdecimal,
    hsemicolon]

theorem quote_notMem_encodeCandidate (c : Candidate) : quote ∉ Store.encodeCandidate c := by
  have hdecimal := notMem_decimal (c := quote) rfl
  have hsemicolon : quote ≠ semicolon := by decide
  have hplain : quote ∉ ofString "50" ∧ quote ∉ ofString "0" := by decide
  simp [Store.encodeCandidate, List.intercalate, quote_notMem_name, quote_notMem_kindName,
    hdecimal, hsemicolon, hplain]

theorem savedRecords_quote_notMem (s : Store) (now : Moment) :
    ∀ record ∈ s.savedRecords now, quote ∉ record.2 := by
  intro record hrecord
  rcases List.mem_append.1 hrecord with h | h
  · obtain ⟨e, -, rfl⟩ := List.mem_map.1 h
    exact quote_notMem_encodeEntry e.2
  · obtain ⟨c, -, rfl⟩ := List.mem_map.1 h
    exact quote_notMem_encodeCandidate c.2

theorem savedRecords_bar_mem {wall : ℕ} {s : Store} (hs : Sound wall s) (now : Moment) :
    ∀ record ∈ s.savedRecords now, bar ∈ record.1 := by
  intro record hrecord
  rcases List.mem_append.1 hrecord with h | h
  · obtain ⟨⟨key, e⟩, he, rfl⟩ := List.mem_map.1 h
    exact (hs.entry key e (mem_walk.1 (List.mem_filter.1 he).1)).bar_mem
  · obtain ⟨⟨key, c⟩, hc, rfl⟩ := List.mem_map.1 h
    exact (hs.candidate key c (mem_walk.1 (List.mem_filter.1 hc).1)).bar_mem

/-! ## The tables of a prefix -/

/-- The two agree on a key. -/
def SameAt (key : Bytes) (a b : Loaded) : Prop :=
  a.entries.lookup key = b.entries.lookup key ∧ a.candidates.lookup key = b.candidates.lookup key

/-- A line leaves every key but its own alone. -/
theorem loadRecord_sameAt (now : Moment) {key key' : Bytes} (hbar : bar ∈ key) (hne : key' ≠ key)
    (encoded : Bytes) (acc : Loaded) : SameAt key' (loadRecord now key encoded acc) acc := by
  simp only [loadRecord, if_pos hbar]
  split
  · exact ⟨rfl, rfl⟩
  split
  · exact ⟨rfl, rfl⟩
  split
  · exact ⟨rfl, rfl⟩
  split
  · split
    · exact ⟨rfl, AList.lookup_insert_ne hne⟩
    · exact ⟨rfl, rfl⟩
  · split
    · exact ⟨AList.lookup_insert_ne hne, rfl⟩
    · exact ⟨rfl, rfl⟩

theorem readLines_sameAt (now : Moment) {records : List (Bytes × Bytes)}
    (hbar : ∀ record ∈ records, bar ∈ record.1) {key : Bytes} (hkey : key ∉ records.map Prod.fst)
    (acc : Loaded) : SameAt key (readLines now records acc) acc := by
  induction records generalizing acc with
  | nil => exact ⟨rfl, rfl⟩
  | cons record records ih =>
      rw [List.map_cons, List.mem_cons, not_or] at hkey
      have hfirst := loadRecord_sameAt now (hbar record (by simp)) hkey.1 record.2 acc
      have hrest := ih (fun r hr => hbar r (List.mem_cons_of_mem _ hr)) hkey.2
        (loadRecord now record.1 record.2 acc)
      exact ⟨hrest.1.trans hfirst.1, hrest.2.trans hfirst.2⟩

/-- The first lines leave nothing that all of them do not leave with the same value. -/
theorem readLines_take_shrinks (now : Moment) {records : List (Bytes × Bytes)}
    (hbar : ∀ record ∈ records, bar ∈ record.1) (hnodup : (records.map Prod.fst).Nodup) (k : ℕ) :
    Shrinks (readLines now (records.take k) {}).entries (readLines now records {}).entries ∧
      Shrinks (readLines now (records.take k) {}).candidates
        (readLines now records {}).candidates := by
  have hsplit : readLines now records {} =
      readLines now (records.drop k) (readLines now (records.take k) {}) := by
    rw [readLines, readLines, readLines, ← List.foldl_append, List.take_append_drop]
  have hdisjoint : ∀ key, key ∈ (records.drop k).map Prod.fst →
      SameAt key (readLines now (records.take k) {}) {} := by
    intro key hkey
    refine readLines_sameAt now (fun r hr => hbar r (List.mem_of_mem_take hr)) ?_ {}
    rw [← List.take_append_drop k records, List.map_append] at hnodup
    exact fun hmem => List.disjoint_of_nodup_append hnodup hmem hkey
  have hsame : ∀ key, key ∉ (records.drop k).map Prod.fst →
      SameAt key (readLines now records {}) (readLines now (records.take k) {}) := by
    intro key hkey
    rw [hsplit]
    exact readLines_sameAt now (fun r hr => hbar r (List.mem_of_mem_drop hr)) hkey _
  constructor
  · intro key e he
    by_cases hkey : key ∈ (records.drop k).map Prod.fst
    · rw [(hdisjoint key hkey).1] at he
      cases he
    · rw [(hsame key hkey).1, he]
  · intro key c hc
    by_cases hkey : key ∈ (records.drop k).map Prod.fst
    · rw [(hdisjoint key hkey).2] at hc
      cases hc
    · rw [(hsame key hkey).2, hc]

/-- A prefix of the file reads as the first lines of it. -/
theorem load_prefix (s : Store) (written now : Moment) {p : Bytes}
    (hp : p <+: s.snapshotText written) :
    ∃ k, (({} : Store).load p now).entries =
        (readLines now ((s.savedRecords written).take k) {}).entries ∧
      (({} : Store).load p now).candidates =
        (readLines now ((s.savedRecords written).take k) {}).candidates := by
  rcases getRaw_prefix s written hp with hnone | ⟨q, hq, hraw⟩
  · refine ⟨0, ?_⟩
    rw [Store.load, hnone]
    exact ⟨rfl, rfl⟩
  · obtain ⟨k, hk⟩ := loadLoop_membersPrefix now (savedRecords_quote_notMem s written) q.length hq
      {}
    refine ⟨k, ?_⟩
    rw [Store.load, hraw]
    dsimp only
    rw [if_neg (by decide), hk]
    exact ⟨rfl, rfl⟩

/-- A torn strategy file is harmless. Whatever happened to the store that wrote the file,
and wherever the file breaks off, an empty store that loads what is left gets entries and
candidates that the whole file gives with the same keys and the same values. The loops of
the loader end by themselves: more rounds than there are bytes change nothing. -/
theorem torn_file_harmless (calls : List Call) (written now : Moment) (p : Bytes)
    (hp : p <+: (run Store.apply {} calls).snapshotText written) :
    (∀ key e, (({} : Store).load p now).entries.lookup key = some e →
      (({} : Store).load ((run Store.apply {} calls).snapshotText written) now).entries.lookup
        key = some e) ∧
    (∀ key c, (({} : Store).load p now).candidates.lookup key = some c →
      (({} : Store).load ((run Store.apply {} calls).snapshotText written) now).candidates.lookup
        key = some c) ∧
    (∀ text rounds acc, text.length ≤ rounds →
      loadLoop now rounds text acc = loadLoop now text.length text acc) ∧
    ∀ text rounds, text.length < rounds →
      parseBody rounds text = parseBody (text.length + 1) text := by
  obtain ⟨wall, hs⟩ := exists_sound calls
  obtain ⟨k, hentries, hcandidates⟩ := load_prefix _ written now hp
  have hshrinks := readLines_take_shrinks now (savedRecords_bar_mem hs written)
    (nodup_savedRecords_keys _ written) k
  rw [load_snapshotText_eq, hentries, hcandidates]
  refine ⟨hshrinks.1, hshrinks.2, ?_, ?_⟩
  · intro text rounds acc hrounds
    exact loadLoop_fuel now hrounds le_rfl acc
  · intro text rounds hrounds
    exact parseBody_fuel hrounds (Nat.lt_succ_self _)

theorem firstStrike_fits : 0 < 100 ∧ 100 < 2 ^ 63 := by decide

theorem secondStrike_fits : 0 < 160 ∧ 160 < 2 ^ 63 := by decide

/-- The file of one learned host. -/
def sampleText : Bytes :=
  (run Store.apply {} [sampleStrike 100 firstStrike_fits,
    sampleStrike 160 secondStrike_fits]).snapshotText (sampleStrike 160 secondStrike_fits).now

/-- The file breaks off behind its only line. -/
theorem torn_file_harmless_sample :
    (({} : Store).load sampleText (sampleStrike 160 (by decide)).now).entries.lookup
        (ofString "lan|a.bc") =
      some { profile := .sniMid
             kind := .sniInterferenceLikely
             confidence := 90
             expiresAt := 604960
             verifiedAt := 160 } :=
  (torn_file_harmless [sampleStrike 100 (by decide), sampleStrike 160 (by decide)]
    (sampleStrike 160 (by decide)).now (sampleStrike 160 (by decide)).now (sampleText.take 100)
    (List.take_prefix 100 sampleText)).1 _ _ (by decide +kernel)

end Strategy

end SplitHello
