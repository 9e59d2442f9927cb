import SplitHello.Strategy.Saving
import SplitHello.Strategy.RoundTrip
import SplitHello.Strategy.Learning

/-!
# Does the file keep up with the tables?

A call that changes what a snapshot would say has to ask for one. `savedRecord`
is the line a snapshot gives to a key; two stores have the same file, up to the
order in which a hash table happens to be walked, exactly when they give the same
line to every key. Every call but one keeps the file up to date: a strike never
asks for a snapshot, although it may give a nomination of the file another
profile, replace it or push it out of a full table.
-/

namespace SplitHello

namespace Strategy

open ByteString Tls Diagnosis KeyedTable Json History

/-! ## The text determines the lines -/

/-- The file that holds the given lines. -/
def fileText (records : List (Bytes × Bytes)) : Bytes :=
  ofString "\x7b\n  \"version\": 2,\n  \"domains\": \x7b\n" ++
    (ofString ",\n").intercalate (records.map Store.recordText) ++ ofString "\n  \x7d\n\x7d\n"

theorem recordText_append_inj {r r' : Bytes × Bytes} {s s' : Bytes}
    (h : Store.recordText r ++ s = Store.recordText r' ++ s') : r = r' ∧ s = s' := by
  have htext (r : Bytes × Bytes) (s : Bytes) : Store.recordText r ++ s =
      ofString "    " ++ (quoted r.1 ++ (ofString ": " ++ (quoted r.2 ++ s))) := by
    simp [Store.recordText]
  rw [htext, htext] at h
  have hkey := congrArg parseString (List.append_cancel_left h)
  rw [parseString_quoted, parseString_quoted, Prod.mk.injEq] at hkey
  have hvalue := congrArg parseString (List.append_cancel_left hkey.2)
  rw [parseString_quoted, parseString_quoted, Prod.mk.injEq] at hvalue
  exact ⟨Prod.ext hkey.1 hvalue.1, hvalue.2⟩

theorem moreRecords_append_inj {l l' : List (Bytes × Bytes)} {tail : Bytes}
    (htail : tail.head? ≠ some comma) (h : moreRecords l ++ tail = moreRecords l' ++ tail) :
    l = l' := by
  have hcons (r : Bytes × Bytes) (l : List (Bytes × Bytes)) : moreRecords (r :: l) ++ tail =
      ofString ",\n" ++ (Store.recordText r ++ (moreRecords l ++ tail)) := by
    simp [moreRecords]
  have hhead (r : Bytes × Bytes) (l : List (Bytes × Bytes)) :
      (moreRecords (r :: l) ++ tail).head? = some comma := by
    rw [hcons]
    rfl
  induction l generalizing l' with
  | nil =>
      cases l' with
      | nil => rfl
      | cons r' l' =>
          have hfirst := congrArg List.head? h
          rw [hhead] at hfirst
          exact absurd hfirst htail
  | cons r l ih =>
      cases l' with
      | nil =>
          have hfirst := congrArg List.head? h
          rw [hhead] at hfirst
          exact absurd hfirst.symm htail
      | cons r' l' =>
          rw [hcons, hcons] at h
          obtain ⟨hr, hrest⟩ := recordText_append_inj (List.append_cancel_left h)
          rw [hr, ih hrest]

theorem fileText_injective : Function.Injective fileText := by
  intro l l' h
  rw [fileText, fileText, List.append_assoc, List.append_assoc] at h
  have h := List.append_cancel_left h
  have hspace (r : Bytes × Bytes) (l : List (Bytes × Bytes)) (s : Bytes) :
      ((ofString ",\n").intercalate ((r :: l).map Store.recordText) ++ s).head? = some 32 := by
    rw [intercalate_recordText]
    rfl
  cases l with
  | nil =>
      cases l' with
      | nil => rfl
      | cons r' l' =>
          have hfirst := congrArg List.head? h
          rw [hspace] at hfirst
          exact absurd hfirst (by decide)
  | cons r l =>
      cases l' with
      | nil =>
          have hfirst := congrArg List.head? h
          rw [hspace] at hfirst
          exact absurd hfirst (by decide)
      | cons r' l' =>
          rw [intercalate_recordText, intercalate_recordText, List.append_assoc,
            List.append_assoc] at h
          obtain ⟨hr, hrest⟩ := recordText_append_inj h
          rw [hr, moreRecords_append_inj (by decide) hrest]

/-! ## The line of a key -/

namespace Store

/-- The line of a nomination. -/
def persistedLine (candidates : Table Bytes Candidate) (now : Moment) (key : Bytes) :
    Option Bytes :=
  ((candidates.lookup key).filter fun c => now.wall < c.persistUntil).map encodeCandidate

/-- The line a snapshot gives to a key. -/
def savedRecord (s : Store) (now : Moment) (key : Bytes) : Option Bytes :=
  match s.entries.lookup key with
  | some e => if now.wall < e.expiresAt then some (encodeEntry e) else none
  | none => persistedLine s.candidates now key

theorem persistedLine_eq_some {candidates : Table Bytes Candidate} {now : Moment}
    {key text : Bytes} :
    persistedLine candidates now key = some text ↔
      ∃ c, candidates.lookup key = some c ∧ now.wall < c.persistUntil ∧
        encodeCandidate c = text := by
  simp [persistedLine, Option.filter_eq_some_iff, and_assoc]

/-- A change of the candidates shows only at keys without an entry. -/
theorem savedRecord_candidates_iff (s : Store) (candidates : Table Bytes Candidate)
    (now : Moment) :
    (∀ key, ({ s with candidates } : Store).savedRecord now key = s.savedRecord now key) ↔
      ∀ key, s.entries.lookup key = none →
        persistedLine candidates now key = persistedLine s.candidates now key := by
  refine forall_congr' fun key => ?_
  rw [savedRecord, savedRecord]
  cases s.entries.lookup key <;> simp

theorem mem_savedRecords {s : Store} {now : Moment} {key text : Bytes} :
    (key, text) ∈ s.savedRecords now ↔ s.savedRecord now key = some text := by
  have hentries : (key, text) ∈ ((walk now.bucket s.entries).filter
      fun e => e.2.expiresAt > now.wall).map (fun e => (e.1, encodeEntry e.2)) ↔
      ∃ e, s.entries.lookup key = some e ∧ now.wall < e.expiresAt ∧ encodeEntry e = text := by
    simp only [List.mem_map, List.mem_filter, Sigma.exists, Prod.mk.injEq, mem_walk]
    simp [and_assoc]
  have hcandidates : (key, text) ∈ ((walk now.bucket s.candidates).filter
      fun c => !(c.2.persistUntil ≤ now.wall || (s.entries.lookup c.1).isSome)).map
        (fun c => (c.1, encodeCandidate c.2)) ↔
      ∃ c, s.candidates.lookup key = some c ∧ now.wall < c.persistUntil ∧
        s.entries.lookup key = none ∧ encodeCandidate c = text := by
    simp only [List.mem_map, List.mem_filter, Sigma.exists, Prod.mk.injEq, mem_walk]
    simp [and_assoc]
  rw [savedRecords, List.mem_append, hentries, hcandidates, savedRecord]
  cases hentry : s.entries.lookup key with
  | some e =>
      by_cases hlive : now.wall < e.expiresAt <;> simp [hlive]
  | none =>
      rw [persistedLine_eq_some]
      simp

theorem nodup_savedRecords (s : Store) (now : Moment) : (s.savedRecords now).Nodup :=
  (nodup_savedRecords_keys s now).of_map

theorem savedRecords_perm_iff {s s' : Store} {now : Moment} :
    (s.savedRecords now).Perm (s'.savedRecords now) ↔
      ∀ key, s.savedRecord now key = s'.savedRecord now key := by
  rw [List.perm_ext_iff_of_nodup (nodup_savedRecords s now) (nodup_savedRecords s' now)]
  constructor
  · intro h key
    ext text
    rw [← mem_savedRecords, ← mem_savedRecords]
    exact h (key, text)
  · rintro h ⟨key, text⟩
    rw [mem_savedRecords, mem_savedRecords, h key]

/-! ## What a strike leaves behind -/

/-- A nomination that has a line in the file. -/
def OnFile (s : Store) (now : Moment) (key : Bytes) (c : Candidate) : Prop :=
  s.entries.lookup key = none ∧ s.candidates.lookup key = some c ∧ now.wall < c.persistUntil

/-- A strike that makes a line of the file out of date: the pending nomination gets
another profile without being confirmed, a dead one is replaced, or one is pushed
out of a full table. -/
def Outdates (s : Store) (now : Moment) (key : Bytes) (profile : Profile) : Prop :=
  (∃ c, s.OnFile now key c ∧ candidateLive c now ∧ c.profile ≠ profile ∧
      (c.firstStrikeAt = 0 ∨ now.mono < c.firstStrikeAt + confirmMinGapSeconds)) ∨
    (∃ c, s.OnFile now key c ∧ ¬ candidateLive c now) ∨
    (s.candidates.lookup key).filter (candidateLive · now) = none ∧
      ∃ key' c, s.OnFile now key' c ∧
        Displaced maxCandidates (fun c => !candidateLive c now) Candidate.firstStrikeAt
          now.bucket (s.candidates.erase key) key'

theorem encodeCandidate_inj {c c' : Candidate} :
    encodeCandidate c = encodeCandidate c' ↔
      c.profile = c'.profile ∧ c.persistUntil = c'.persistUntil := by
  constructor
  · intro h
    have hfields := congrArg splitFields h
    rw [splitFields_encodeCandidate, splitFields_encodeCandidate] at hfields
    simp only [List.cons.injEq, true_and, and_true] at hfields
    have hnumber := congrArg digitsValue hfields.2
    rw [digitsValue_decimal, digitsValue_decimal] at hnumber
    have hprofile := congrArg findProfile hfields.1
    rw [findProfile_name, findProfile_name] at hprofile
    exact ⟨Option.some.inj hprofile, hnumber⟩
  · rintro ⟨hprofile, hpersist⟩
    rw [encodeCandidate, encodeCandidate, hprofile, hpersist]

/-- A pending nomination that is not confirmed changes its line by the profile
alone. -/
theorem renominate_savedRecord_iff {s : Store} {now : Moment} {key : Bytes}
    {pending : Candidate} (struck : Candidate) (hlookup : s.candidates.lookup key = some pending)
    (hpersist : struck.persistUntil = pending.persistUntil) :
    (∀ key', ({ s with candidates := s.candidates.insert key struck } : Store).savedRecord now
        key' = s.savedRecord now key') ↔
      (s.OnFile now key pending → pending.profile = struck.profile) := by
  rw [savedRecord_candidates_iff]
  constructor
  · rintro h ⟨hfree, -, hvisible⟩
    have hline := h key hfree
    rw [persistedLine, persistedLine, hlookup, AList.lookup_insert] at hline
    simp only [Option.filter_some, hpersist, hvisible, decide_true, if_true, Option.map_some,
      Option.some.injEq, encodeCandidate_inj] at hline
    exact hline.1.symm
  · intro h key' hfree
    rw [persistedLine, persistedLine, lookup_insert_eq]
    by_cases hkey : key' = key
    · subst hkey
      rw [if_pos rfl, hlookup]
      by_cases hvisible : now.wall < pending.persistUntil
      · have hsame := encodeCandidate_inj.2 ⟨h ⟨hfree, hlookup, hvisible⟩, hpersist.symm⟩
        simp [Option.filter_some, hpersist, hvisible, hsame]
      · simp [Option.filter_some, hpersist, hvisible]
    · rw [if_neg hkey]

theorem nominate_savedRecord_iff {s : Store} {now : Moment} {key : Bytes} {profile : Profile}
    (hdead : (s.candidates.lookup key).filter (candidateLive · now) = none) :
    (∀ key', ({ s with
          candidates := (makeRoomForCandidate (s.candidates.erase key) now).insert key
            (.struck now profile 0) } : Store).savedRecord now key' = s.savedRecord now key') ↔
      ¬ s.Outdates now key profile := by
  have hnotLive {c : Candidate} (hc : s.candidates.lookup key = some c) :
      ¬ candidateLive c now = true := by
    intro hlive
    rw [hc, Option.filter_some, if_pos hlive] at hdead
    cases hdead
  have hself : persistedLine ((makeRoomForCandidate (s.candidates.erase key) now).insert key
      (.struck now profile 0)) now key = none := by
    simp [persistedLine, Option.filter_some, Candidate.struck]
  have hother {key' : Bytes} (hne : key' ≠ key) (c : Candidate) :
      ((makeRoomForCandidate (s.candidates.erase key) now).insert key
          (.struck now profile 0)).lookup key' = some c ↔
        s.candidates.lookup key' = some c ∧
          ¬ Displaced maxCandidates (fun c => !candidateLive c now) Candidate.firstStrikeAt
            now.bucket (s.candidates.erase key) key' := by
    rw [AList.lookup_insert_ne hne, makeRoomForCandidate, lookup_makeRoom,
      AList.lookup_erase_ne hne]
  rw [savedRecord_candidates_iff]
  constructor
  · rintro h (⟨c, hfile, hlive, -⟩ | ⟨c, ⟨hfree, hc, hvisible⟩, -⟩ |
      ⟨-, key', c, ⟨hfree, hc, hvisible⟩, hdisplaced⟩)
    · exact hnotLive hfile.2.1 hlive
    · have hline := h key hfree
      rw [hself] at hline
      have hold := persistedLine_eq_some.2 ⟨c, hc, hvisible, rfl⟩
      rw [← hline] at hold
      cases hold
    · have hline := h key' hfree
      have hold := persistedLine_eq_some.2 ⟨c, hc, hvisible, rfl⟩
      rw [← hline] at hold
      by_cases hkey : key' = key
      · rw [hkey, hself] at hold
        cases hold
      · obtain ⟨c', hc', -⟩ := persistedLine_eq_some.1 hold
        exact ((hother hkey c').1 hc').2 hdisplaced
  · intro h key' hfree
    by_cases hkey : key' = key
    · subst hkey
      rw [hself]
      symm
      refine Option.eq_none_iff_forall_ne_some.2 fun text htext => h ?_
      obtain ⟨c, hc, hvisible, -⟩ := persistedLine_eq_some.1 htext
      exact Or.inr (Or.inl ⟨c, ⟨hfree, hc, hvisible⟩, hnotLive hc⟩)
    · ext text
      rw [persistedLine_eq_some, persistedLine_eq_some]
      constructor
      · rintro ⟨c, hc, hline⟩
        exact ⟨c, ((hother hkey c).1 hc).1, hline⟩
      · rintro ⟨c, hc, hvisible, hline⟩
        refine ⟨c, (hother hkey c).2 ⟨hc, fun hdisplaced => h ?_⟩, hvisible, hline⟩
        exact Or.inr (Or.inr ⟨hdead, key', c, ⟨hfree, hc, hvisible⟩, hdisplaced⟩)

/-- A strike that asks for no snapshot keeps every line unless it outdates one. -/
theorem strike_savedRecord_iff (s : Store) (now : Moment) (key : Bytes) (profile : Profile)
    (confidence : ℕ) :
    (s.strike now key profile confidence).2.2 = true ∧ ¬ s.Outdates now key profile ∨
      (s.strike now key profile confidence).2.2 = false ∧
        ((∀ key', (s.strike now key profile confidence).1.savedRecord now key' =
            s.savedRecord now key') ↔ ¬ s.Outdates now key profile) := by
  rcases s.strike_cases now key profile confidence with
    ⟨hdead, heq⟩ | ⟨pending, hlookup, hlive, hcases⟩
  · rw [heq]
    exact Or.inr ⟨rfl, nominate_savedRecord_iff hdead⟩
  · -- Only the nomination itself can go out of date while it is alive.
    have houtdates : s.Outdates now key profile ↔
        s.OnFile now key pending ∧ pending.profile ≠ profile ∧
          (pending.firstStrikeAt = 0 ∨
            now.mono < pending.firstStrikeAt + confirmMinGapSeconds) := by
      constructor
      · rintro (⟨c, hfile, -, hrest⟩ | ⟨c, hfile, hdead⟩ | ⟨hdead, -⟩)
        · obtain rfl : c = pending := Option.some.inj (hfile.2.1.symm.trans hlookup)
          exact ⟨hfile, hrest⟩
        · obtain rfl : c = pending := Option.some.inj (hfile.2.1.symm.trans hlookup)
          exact absurd hlive hdead
        · rw [hlookup, Option.filter_some, if_pos hlive] at hdead
          cases hdead
      · rintro ⟨hfile, hrest⟩
        exact Or.inl ⟨pending, hfile, hlive, hrest⟩
    rcases hcases with ⟨hfirst, heq⟩ | ⟨hfirst, hearly, heq⟩ | ⟨hfirst, hgap, heq⟩
    · rw [heq, renominate_savedRecord_iff (.struck now profile pending.persistUntil) hlookup rfl,
        houtdates]
      refine Or.inr ⟨rfl, ?_⟩
      simp [hfirst, Candidate.struck]
    · rw [heq, renominate_savedRecord_iff { pending with profile } hlookup rfl, houtdates]
      refine Or.inr ⟨rfl, ?_⟩
      simp [hearly]
    · rw [heq, houtdates]
      refine Or.inl ⟨rfl, ?_⟩
      rintro ⟨-, -, hzero | hearly⟩
      · exact hfirst hzero
      · omega

/-- A call that makes a line of the file out of date without asking for a
snapshot. -/
def LeavesStale (s : Store) (call : Call) : Prop :=
  ∃ networkId host profileName profile confidence,
    call.op = .remember networkId host profileName .sniInterferenceLikely confidence ∧
      findProfile profileName = some profile ∧ profile ≠ .none ∧ normalizeHost host ≠ [] ∧
      s.lookup networkId host call.now ≠ some profile ∧
      s.Outdates call.now (scopeKey networkId host) profile

/-! ## Every other call -/

/-- Dropping nominations that were never written changes no line. -/
theorem savedRecord_of_dropped {s s' : Store} (now : Moment)
    (hentries : ∀ key, s'.entries.lookup key = s.entries.lookup key)
    (hshrinks : Shrinks s'.candidates s.candidates)
    (hlost : ∀ key c, s.candidates.lookup key = some c → s'.candidates.lookup key = none →
      c.persistUntil = 0) (key : Bytes) :
    s'.savedRecord now key = s.savedRecord now key := by
  rw [savedRecord, savedRecord, hentries key]
  cases s.entries.lookup key with
  | some e => rfl
  | none =>
      ext text
      dsimp only
      rw [persistedLine_eq_some, persistedLine_eq_some]
      constructor
      · rintro ⟨c, hc, hline⟩
        exact ⟨c, hshrinks key c hc, hline⟩
      · rintro ⟨c, hc, hvisible, hline⟩
        cases hc' : s'.candidates.lookup key with
        | none =>
            have hzero := hlost key c hc hc'
            omega
        | some c' =>
            obtain rfl : c' = c := Option.some.inj ((hshrinks key c' hc').symm.trans hc)
            exact ⟨c', rfl, hvisible, hline⟩

/-- Whether the file keeps up with a call: the call asks for a snapshot, or it
changes no line. -/
def KeepsUp (s : Store) (call : Call) : Prop :=
  s.dirties call = true ∨
    ∀ key, (s.apply call).savedRecord call.now key = s.savedRecord call.now key

/-- What the file loses when the nomination of a key goes. -/
theorem erase_persisted {s : Store} {key : Bytes}
    (h : ∀ c, s.candidates.lookup key = some c → c.persistUntil = 0) {key' : Bytes} {c : Candidate}
    (hc : s.candidates.lookup key' = some c) (hgone : (s.candidates.erase key).lookup key' = none) :
    c.persistUntil = 0 := by
  rw [lookup_erase_eq] at hgone
  split at hgone
  · subst key'
    exact h c hc
  · rw [hc] at hgone
    cases hgone

theorem noteBaselineHealthy_keepsUp (s : Store) (now : Moment) (networkId host : Bytes) :
    s.KeepsUp ⟨now, .noteBaselineHealthy networkId host⟩ := by
  cases hdirty : s.dirties ⟨now, .noteBaselineHealthy networkId host⟩ with
  | true => exact Or.inl hdirty
  | false =>
      have hunsaved (c : Candidate)
          (hc : s.candidates.lookup (scopeKey networkId host) = some c) : c.persistUntil = 0 := by
        simpa [dirties, noteBaselineHealthy, hc] using hdirty
      right
      exact savedRecord_of_dropped now (fun _ => rfl) (erase_shrinks _ _)
        fun key c hc hgone => erase_persisted hunsaved hc hgone

theorem recordFailure_keepsUp (s : Store) (now : Moment) (networkId host : Bytes)
    (profile : Profile) : s.KeepsUp ⟨now, .recordFailure networkId host profile⟩ := by
  rw [KeepsUp, dirties, apply]
  dsimp only
  rw [recordFailure]
  dsimp only
  split
  · exact Or.inr fun _ => rfl
  · split
    · exact Or.inl rfl
    · exact Or.inl rfl

theorem forget_keepsUp (s : Store) (now : Moment) (host : Bytes) :
    s.KeepsUp ⟨now, .forget host⟩ := by
  cases hdirty : s.dirties ⟨now, .forget host⟩ with
  | true => exact Or.inl hdirty
  | false =>
      right
      change ∀ key, (s.forget host).1.savedRecord now key = s.savedRecord now key
      rw [dirties] at hdirty
      simp only [forget, Bool.or_eq_false_iff, List.any_eq_false] at hdirty
      refine savedRecord_of_dropped now ?_ (eraseIf_shrinks _ _) ?_
      · intro key
        simp only [forget, lookup_eraseIf]
        cases he : s.entries.lookup key with
        | none => rfl
        | some e =>
            have hother := hdirty.1 ⟨key, e⟩ (AList.mem_lookup_iff.1 he)
            rw [Option.filter_some]
            simp only [hother, Bool.not_false, if_true]
      · intro key c hc hgone
        simp only [forget, lookup_eraseIf, hc, Option.filter_some] at hgone
        have hunsaved := hdirty.2 ⟨key, c⟩ (AList.mem_lookup_iff.1 hc)
        grind

theorem retire_keepsUp (s : Store) (now : Moment) (key : Bytes) :
    (s.retire key).2.2 = true ∨
      ∀ key', (s.retire key).1.savedRecord now key' = s.savedRecord now key' := by
  cases hdirty : (s.retire key).2.2 with
  | true => exact Or.inl rfl
  | false =>
      right
      rw [retire] at hdirty
      simp only [Bool.or_eq_false_iff, Option.isSome_eq_false_iff, Option.isNone_iff_eq_none]
        at hdirty
      have hunsaved (c : Candidate) (hc : s.candidates.lookup key = some c) :
          c.persistUntil = 0 := by
        simpa [hc] using hdirty.2
      refine savedRecord_of_dropped now ?_ (erase_shrinks _ _)
        fun key' c hc hgone => erase_persisted hunsaved hc hgone
      intro key'
      rw [retire, lookup_erase_eq]
      split
      · subst key'
        exact hdirty.1.symm
      · rfl

theorem probeOrder_keepsUp (s : Store) (now : Moment) (networkId host : Bytes)
    (hello : ClientHello) : s.KeepsUp ⟨now, .probeOrder networkId host hello⟩ := by
  right
  change ∀ key, (s.probeOrder now networkId host hello).1.savedRecord now key =
    s.savedRecord now key
  intro key
  rw [probeOrder]
  split
  · rfl
  · dsimp only
    split
    · rename_i entry hlive
      split
      · rw [savedRecord, savedRecord, lookup_insert_eq]
        by_cases hkey : key = scopeKey networkId host
        · subst hkey
          rw [if_pos rfl, (liveEntry_eq_some.1 hlive).1]
          rfl
        · rw [if_neg hkey]
      · rfl
    · split <;> rfl

/-- Any profile but the baseline, unless it strikes. -/
theorem rememberProfile_keepsUp {s : Store} {now : Moment} {key : Bytes} {profile : Profile}
    {kind : Kind} (confidence : ℕ)
    (h : ¬ (kind = .sniInterferenceLikely ∧
      (s.liveEntry key now).map Entry.profile ≠ some profile)) :
    (s.rememberProfile now key profile kind confidence).2.2 = true ∨
      ∀ key', (s.rememberProfile now key profile kind confidence).1.savedRecord now key' =
        s.savedRecord now key' := by
  rcases s.rememberProfile_cases now key profile kind confidence with
    heq | ⟨e, -, heq⟩ | ⟨e, -, heq⟩ | ⟨hstrike, -⟩ | ⟨-, heq⟩
  · rw [heq]
    exact Or.inr fun _ => rfl
  · rw [heq, refresh]
    split
    · exact Or.inl rfl
    · exact Or.inr fun _ => rfl
  · rw [heq]
    exact Or.inl rfl
  · exact absurd hstrike h
  · rw [heq]
    exact Or.inl rfl

theorem rememberProfile_strike {s : Store} {now : Moment} {key : Bytes} {profile : Profile}
    (confidence : ℕ) (h : (s.liveEntry key now).map Entry.profile ≠ some profile) :
    s.rememberProfile now key profile .sniInterferenceLikely confidence =
      s.strike now key profile confidence := by
  have hother : (s.liveEntry key now).filter (fun e => e.profile = profile) = none := by
    simpa [Option.filter_eq_none_iff] using h
  simp [rememberProfile, hother]

theorem remember_keepsUp_iff (s : Store) (now : Moment) (networkId host profileName : Bytes)
    (kind : Kind) (confidence : ℕ) :
    s.KeepsUp ⟨now, .remember networkId host profileName kind confidence⟩ ↔
      ¬ s.LeavesStale ⟨now, .remember networkId host profileName kind confidence⟩ := by
  change (s.remember now networkId host profileName kind confidence).2.2 = true ∨
    (∀ key, (s.remember now networkId host profileName kind confidence).1.savedRecord now key =
      s.savedRecord now key) ↔ _
  rcases s.remember_cases now networkId host profileName kind confidence with
    ⟨hunknown, heq⟩ | ⟨hhost, profile, hprofile, ⟨hnone, heq⟩ | ⟨hne, heq⟩⟩
  · refine iff_of_true (Or.inr fun _ => by rw [heq]) ?_
    rintro ⟨networkId', host', profileName', profile', confidence', hop, hprofile', -, hhost', -⟩
    cases hop
    rcases hunknown with hnone | hempty
    · rw [hnone] at hprofile'
      cases hprofile'
    · exact hhost' hempty
  · refine iff_of_true (by rw [heq]; exact s.retire_keepsUp now _) ?_
    rintro ⟨networkId', host', profileName', profile', confidence', hop, hprofile', hne, -⟩
    cases hop
    rw [hprofile, Option.some.injEq] at hprofile'
    exact hne (hprofile'.symm.trans hnone)
  · rw [heq]
    by_cases hstrike : kind = .sniInterferenceLikely ∧
        (s.liveEntry (scopeKey networkId host) now).map Entry.profile ≠ some profile
    · obtain ⟨rfl, hnew⟩ := hstrike
      have hstale : s.LeavesStale
          ⟨now, .remember networkId host profileName .sniInterferenceLikely confidence⟩ ↔
          s.Outdates now (scopeKey networkId host) profile := by
        constructor
        · rintro ⟨networkId', host', profileName', profile', confidence', hop, hprofile', -, -, -,
            houtdates⟩
          cases hop
          rw [hprofile, Option.some.injEq] at hprofile'
          subst hprofile'
          exact houtdates
        · intro houtdates
          exact ⟨networkId, host, profileName, profile, confidence, rfl, hprofile, hne, hhost,
            hnew, houtdates⟩
      rw [rememberProfile_strike confidence hnew, hstale]
      rcases s.strike_savedRecord_iff now (scopeKey networkId host) profile confidence with
        ⟨hdirty, hfine⟩ | ⟨hclean, hiff⟩
      · exact iff_of_true (Or.inl hdirty) hfine
      · rw [← hiff, hclean]
        simp
    · refine iff_of_true (rememberProfile_keepsUp confidence hstrike) ?_
      rintro ⟨networkId', host', profileName', profile', confidence', hop, hprofile', -, -, hnew,
        -⟩
      cases hop
      rw [hprofile, Option.some.injEq] at hprofile'
      subst hprofile'
      exact hstrike ⟨rfl, hnew⟩

/-- The file keeps up with every call but a strike that outdates a line. -/
theorem keepsUp_iff (s : Store) (call : Call) (hcall : ∀ content, call.op ≠ .load content) :
    s.KeepsUp call ↔ ¬ s.LeavesStale call := by
  obtain ⟨now, op⟩ := call
  have hother (hop : ∀ networkId host profileName kind confidence,
      op ≠ .remember networkId host profileName kind confidence) : ¬ s.LeavesStale ⟨now, op⟩ := by
    rintro ⟨networkId, host, profileName, profile, confidence, heq, -⟩
    exact hop networkId host profileName _ confidence heq
  cases op with
  | remember networkId host profileName kind confidence =>
      exact s.remember_keepsUp_iff now networkId host profileName kind confidence
  | noteBaselineHealthy networkId host =>
      exact iff_of_true (s.noteBaselineHealthy_keepsUp now networkId host) (hother (by simp))
  | recordFailure networkId host profile =>
      exact iff_of_true (s.recordFailure_keepsUp now networkId host profile) (hother (by simp))
  | forget host => exact iff_of_true (s.forget_keepsUp now host) (hother (by simp))
  | clear => exact iff_of_true (Or.inl rfl) (hother (by simp))
  | probeOrder networkId host hello =>
      exact iff_of_true (s.probeOrder_keepsUp now networkId host hello) (hother (by simp))
  | load content => exact absurd rfl (hcall content)

end Store

/-! ## The file behind the store -/

namespace Saver

variable {T : Type*} [DecidableEq T]

/-- The file holds the lines a snapshot would write now, in one of the orders the
tables can be walked in. -/
def Saved (d : Saver T) (now : Moment) : Prop :=
  d.path ≠ [] ∧ ∃ records, records.Perm (d.store.savedRecords now) ∧
    d.file = some (fileText records)

/-- A call with its own write, which goes well, while the clocks stand still. -/
def saveCall (d : Saver T) (thread : T) (call : Call) : Saver T :=
  run step d [.call thread call call.now, .commit thread true]

omit [DecidableEq T] in
theorem Ordered.writtenSeq_le {first : Option Bytes} {taken written : List Snapshot}
    {noFailure : Prop} {d : Saver T} (h : Ordered first taken written noFailure d) :
    d.writtenSeq ≤ d.nextSeq := by
  rw [h.writtenSeq_eq, h.nextSeq_eq]
  rcases List.eq_nil_or_concat' written with rfl | ⟨older, w, rfl⟩
  · exact Nat.zero_le _
  · rw [lastSeq_concat]
    exact h.taken_growing.le_lastSeq (h.written_taken w (by simp))

theorem saveCall_eq {d : Saver T} {thread : T} (hidle : d.held thread = none)
    (hpath : d.path ≠ []) (hseq : d.writtenSeq ≤ d.nextSeq) (call : Call) :
    (d.saveCall thread call).path = d.path ∧
      (d.saveCall thread call).store = d.store.apply call ∧
      (d.saveCall thread call).file =
        if d.store.dirties call then some ((d.store.apply call).snapshotText call.now)
        else d.file := by
  have hnew : ¬ d.nextSeq + 1 ≤ d.writtenSeq := by omega
  by_cases hdirty : d.store.dirties call = true
  · simp [saveCall, run, step, hidle, perform, hdirty, snapshotLocked, hpath, commit, hnew]
  · simp [saveCall, run, step, hidle, perform, hdirty, commit]

theorem saved_saveCall_iff {d : Saver T} {thread : T} (hidle : d.held thread = none)
    (hseq : d.writtenSeq ≤ d.nextSeq) {call : Call} (hsaved : d.Saved call.now) :
    (d.saveCall thread call).Saved call.now ↔ d.store.KeepsUp call := by
  obtain ⟨hpath, records, hperm, hfile⟩ := hsaved
  obtain ⟨hpath', hstore, hfile'⟩ := saveCall_eq hidle hpath hseq call
  rw [Saved, hpath', hstore, hfile', Store.KeepsUp]
  by_cases hdirty : d.store.dirties call = true
  · rw [if_pos hdirty]
    exact iff_of_true ⟨hpath, _, List.Perm.refl _, rfl⟩ (Or.inl hdirty)
  · rw [if_neg hdirty, hfile, ← Store.savedRecords_perm_iff]
    constructor
    · rintro ⟨-, records', hperm', htext⟩
      obtain rfl : records = records' := fileText_injective (Option.some.inj htext)
      exact Or.inr (hperm'.symm.trans hperm)
    · rintro (h | h)
      · exact absurd h hdirty
      · exact ⟨hpath, records, hperm.trans h.symm, rfl⟩

/-- From any state a run can reach whose file is up to date, the file is up to
date again after a call and its write unless the call is a strike that changes,
replaces or displaces a nomination of the file. -/
theorem saved_saveCall_iff_not_leavesStale {d : Saver T} (hd : d.Fresh)
    (events : List (SaveEvent T)) (thread : T) (call : Call)
    (hidle : (run step d events).held thread = none)
    (hcall : ∀ content, call.op ≠ .load content)
    (hsaved : (run step d events).Saved call.now) :
    ((run step d events).saveCall thread call).Saved call.now ↔
      ¬ (run step d events).store.LeavesStale call := by
  rw [saved_saveCall_iff hidle (hd.run_ordered events).writtenSeq_le hsaved]
  exact Store.keepsUp_iff _ call hcall

end Saver

/-- A file of an earlier version: one winner without a verification stamp. -/
def legacyFile : Bytes :=
  fileText [(ofString "lan|a.bc", ofString "record-1;unknown;50;1000;0;0")]

/-- The program started on that file. -/
def legacyStart : Saver Unit := { path := ofString "strategy.json", file := some legacyFile }

theorem legacySecond_fits : 0 < 100 ∧ 100 < 2 ^ 63 := by decide

def legacyEvents : List (SaveEvent Unit) :=
  [.call () ⟨(sampleStrike 100 legacySecond_fits).now, .load legacyFile⟩
    (sampleStrike 100 legacySecond_fits).now, .commit () true]

def legacySession : Saver Unit := run Saver.step legacyStart legacyEvents

theorem legacySession_idle : legacySession.held () = none := by decide +kernel

theorem legacySession_saved : legacySession.Saved (sampleStrike 100 (by decide)).now :=
  ⟨by decide, legacySession.store.savedRecords (sampleStrike 100 (by decide)).now,
    List.Perm.refl _, by decide +kernel⟩

/-- Forgetting everything is written at once. -/
theorem saved_after_clear :
    ((run Saver.step legacyStart legacyEvents).saveCall ()
      ⟨(sampleStrike 100 (by decide)).now, .clear⟩).Saved (sampleStrike 100 (by decide)).now := by
  refine (Saver.saved_saveCall_iff_not_leavesStale ⟨rfl, rfl, fun _ => rfl⟩ legacyEvents ()
    ⟨(sampleStrike 100 (by decide)).now, .clear⟩ legacySession_idle ?_ legacySession_saved).2 ?_
  · intro content h
    cases h
  · rintro ⟨networkId, host, profileName, profile, confidence, hop, -⟩
    cases hop

/-- Another profile wins for the nominated host: the tables have the new one, the
file keeps the old one, and a restart brings it back. -/
theorem strike_leaves_file_stale :
    legacySession.Saved (sampleStrike 100 (by decide)).now ∧
      ¬ (legacySession.saveCall () (sampleStrike 100 (by decide))).Saved
        (sampleStrike 100 (by decide)).now ∧
      (((legacySession.saveCall () (sampleStrike 100 (by decide))).store.candidates.lookup
        (ofString "lan|a.bc")).map Candidate.profile = some .sniMid) ∧
      ∃ content, (legacySession.saveCall () (sampleStrike 100 (by decide))).file = some content ∧
        ((({} : Store).load content (sampleStrike 100 (by decide)).now).candidates.lookup
          (ofString "lan|a.bc")).map Candidate.profile = some .record1 := by
  refine ⟨legacySession_saved, ?_, by decide +kernel, legacyFile, by decide +kernel,
    by decide +kernel⟩
  rw [Saver.saved_saveCall_iff legacySession_idle (by decide +kernel) legacySession_saved]
  rintro (hdirty | hsame)
  · exact absurd hdirty (by decide +kernel)
  · exact absurd (hsame (ofString "lan|a.bc")) (by decide +kernel)

end Strategy

end SplitHello
