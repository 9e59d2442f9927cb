import SplitHello.Relay.ProbeOrder

/-!
# One connection at a time re-verifies

A winner that is due is led with the baseline by one probe order only: the call marks the
entry, and the mark holds the others off for 15 seconds on the monotonic clock. The mark
goes when the winner is re-proven, replaced or removed. When a winner is due depends on
the wall clock and on the stamp of its last proof, which only another proof moves.
-/

namespace SplitHello

namespace Relay

open ByteString Tls Strategy Diagnosis KeyedTable History Conn

/-- A probe order that finds the winner of a key alive and leads it with the baseline. A
hello over several records is sent as it is, and no winner is looked up for it. -/
def Retests (s : Store) (call : Call) (key : Bytes) : Prop :=
  ∃ networkId host hello, call.op = .probeOrder networkId host hello ∧
    scopeKey networkId host = key ∧ hello.spansRecords = false ∧
    (s.liveEntry key call.now).isSome ∧
    (s.probeOrder call.now networkId host hello).2.head? = some .none

/-- A call that reports the winner of a key as re-verified or as learned. -/
def Proves (s : Store) (call : Call) (key : Bytes) : Prop :=
  ∃ networkId host profileName kind confidence,
    call.op = .remember networkId host profileName kind confidence ∧
      scopeKey networkId host = key ∧
      ((s.remember call.now networkId host profileName kind confidence).2.1 = .reverified ∨
        (s.remember call.now networkId host profileName kind confidence).2.1 = .learned)

/-- A call that re-verifies, replaces or removes the winner of a key. -/
def Renews (s : Store) (call : Call) (key : Bytes) : Prop :=
  Proves s call key ∨
    (s.entries.lookup key).isSome ∧ (s.apply call).entries.lookup key = none

/-! ## What a call does to the stamps -/

/-- The stamps of an entry that a call left alone, but for the mark. -/
def Unproven (s : Store) (call : Call) (key : Bytes) (e : Entry) : Prop :=
  ∃ e', s.entries.lookup key = some e' ∧ e.verifiedAt = e'.verifiedAt ∧
    (e.reverifyStartedAt = e'.reverifyStartedAt ∨ e.reverifyStartedAt = call.now.mono)

theorem Unproven.same {s : Store} {call : Call} {key : Bytes} {e : Entry}
    (h : s.entries.lookup key = some e) : Unproven s call key e :=
  ⟨e, h, rfl, Or.inl rfl⟩

theorem remember_unproven {s : Store} {now : Moment} {networkId host profileName : Bytes}
    {kind : Kind} {confidence : ℕ} {key : Bytes} {e : Entry}
    (hproves : ¬ Proves s ⟨now, .remember networkId host profileName kind confidence⟩ key)
    (h : (s.remember now networkId host profileName kind confidence).1.entries.lookup key =
      some e) :
    Unproven s ⟨now, .remember networkId host profileName kind confidence⟩ key e := by
  rcases s.remember_outcomes now networkId host profileName kind confidence with
    ⟨houtcome, profile, kind', heq⟩ | ⟨houtcome, e', -, heq⟩ | ⟨-, hkept⟩
  · rw [heq] at h
    rcases Store.learn_entries h with ⟨rfl, -⟩ | hprev
    · exact absurd ⟨_, _, _, _, _, rfl, rfl, Or.inr houtcome⟩ hproves
    · exact .same hprev
  · rw [heq] at h
    rcases lookup_insert_cases h with ⟨rfl, -⟩ | ⟨-, hprev⟩
    · exact absurd ⟨_, _, _, _, _, rfl, rfl, Or.inl houtcome⟩ hproves
    · exact .same hprev
  · rcases hkept key e h with hprev | ⟨e', hprev, rfl⟩
    · exact .same hprev
    · exact ⟨e', hprev, rfl, Or.inl rfl⟩

theorem recordFailure_unproven {s : Store} {call : Call} {networkId host : Bytes}
    {profile : Profile} {key : Bytes} {e : Entry}
    (h : (s.recordFailure networkId host profile).1.entries.lookup key = some e) :
    Unproven s call key e := by
  rw [Store.recordFailure] at h
  dsimp only at h
  split at h
  · exact .same h
  · rename_i entry hentry
    have hlookup := (Option.filter_eq_some_iff.1 hentry).1
    split at h
    · exact .same (lookup_erase_cases h).2
    · rcases lookup_insert_cases h with ⟨rfl, rfl⟩ | ⟨-, hprev⟩
      · exact ⟨entry, hlookup, rfl, Or.inl rfl⟩
      · exact .same hprev

theorem probeOrder_unproven {s : Store} {call : Call} {networkId host : Bytes}
    {hello : ClientHello} {key : Bytes} {e : Entry}
    (h : (s.probeOrder call.now networkId host hello).1.entries.lookup key = some e) :
    Unproven s call key e := by
  rw [Store.probeOrder] at h
  split at h
  · exact .same h
  · dsimp only at h
    split at h
    · rename_i entry hlive
      split at h
      · rcases lookup_insert_cases h with ⟨rfl, rfl⟩ | ⟨-, hprev⟩
        · exact ⟨entry, (liveEntry_eq_some.1 hlive).1, rfl, Or.inr rfl⟩
        · exact .same hprev
      · exact .same h
    · split at h
      · exact .same h
      · exact .same h

/-- A call that proves nothing and reads no file moves only the mark. -/
theorem apply_unproven {s : Store} {call : Call} {key : Bytes} {e : Entry}
    (hload : ∀ content, call.op ≠ .load content) (hproves : ¬ Proves s call key)
    (h : (s.apply call).entries.lookup key = some e) : Unproven s call key e := by
  obtain ⟨now, op⟩ := call
  cases op with
  | remember networkId host profileName kind confidence => exact remember_unproven hproves h
  | noteBaselineHealthy networkId host => exact .same h
  | recordFailure networkId host profile => exact recordFailure_unproven h
  | forget host => exact .same (eraseIf_shrinks _ _ _ _ h)
  | clear => cases h
  | probeOrder networkId host hello => exact probeOrder_unproven h
  | load content => exact absurd rfl (hload content)

/-- A proof stamps the winner with its time. -/
theorem Proves.verifiedAt {s : Store} {call : Call} {key : Bytes} (h : Proves s call key)
    {e : Entry} (he : (s.apply call).entries.lookup key = some e) :
    e.verifiedAt = call.now.wall := by
  obtain ⟨networkId, host, profileName, kind, confidence, hop, rfl, houtcome⟩ := h
  rw [Store.apply, hop] at he
  dsimp only at he
  rcases s.remember_outcomes call.now networkId host profileName kind confidence with
    ⟨-, profile, kind', heq⟩ | ⟨-, e', -, heq⟩ | ⟨⟨hlearned, hreverified⟩, -⟩
  · rw [heq, Store.learn] at he
    dsimp only at he
    rw [AList.lookup_insert] at he
    rw [← Option.some.inj he]
    rfl
  · rw [heq, Store.reverify] at he
    dsimp only at he
    rw [AList.lookup_insert] at he
    rw [← Option.some.inj he, Entry.reproven]
    dsimp only
    split <;> rfl
  · rcases houtcome with h | h
    · exact absurd h hreverified
    · exact absurd h hlearned

/-! ## The two runs -/

/-- Only a winner that is due, and that nobody marked lately, is led with the baseline. -/
theorem Retests.retested {s : Store} (hs : Reached s) {call : Call} {key : Bytes}
    (h : Retests s call key) :
    ∃ e, s.entries.lookup key = some e ∧ Retested e call.now ∧
      (s.apply call).entries.lookup key = some { e with reverifyStartedAt := call.now.mono } := by
  obtain ⟨networkId, host, hello, hop, rfl, hspans, hsome, hhead⟩ := h
  obtain ⟨e, hlive⟩ := Option.isSome_iff_exists.1 hsome
  have hlookup := (liveEntry_eq_some.1 hlive).1
  have hretested : Retested e call.now := by
    have hne := hs.profile_ne.1 _ e hlookup
    by_contra hnot
    have htrusted := (((probeOrder_ledBy s call.now networkId host hspans).starts hs).1 e
      hlive).2.2 hnot
    rw [hhead] at htrusted
    exact hne (Option.some.inj htrusted).symm
  refine ⟨e, hlookup, hretested, ?_⟩
  rw [Store.apply, hop]
  exact probeOrder_marks hspans hlive hretested

/-- The winner of a key is marked since a time or later. -/
def Marked (key : Bytes) (mono : ℕ) (s : Store) : Prop :=
  ∃ e, s.entries.lookup key = some e ∧ mono ≤ e.reverifyStartedAt

theorem Marked.apply {key : Bytes} {mono : ℕ} {s : Store} (h : Marked key mono s) {call : Call}
    (hload : ∀ content, call.op ≠ .load content) (hmono : mono ≤ call.now.mono)
    (hrenews : ¬ Renews s call key) : Marked key mono (s.apply call) := by
  obtain ⟨e, he, hmark⟩ := h
  cases hafter : (s.apply call).entries.lookup key with
  | none =>
      refine absurd (Or.inr ⟨?_, hafter⟩) hrenews
      rw [he]
      rfl
  | some e' =>
      obtain ⟨e₀, he₀, -, hkept | hnew⟩ :=
        apply_unproven hload (fun hproves => hrenews (Or.inl hproves)) hafter
      · rw [he] at he₀
        cases he₀
        exact ⟨e', hafter, by omega⟩
      · exact ⟨e', hafter, by omega⟩

/-- The winner of a key, if there is one, was proven in a span of the wall clock. -/
def ProvenIn (key : Bytes) (first last : ℕ) (s : Store) : Prop :=
  ∀ e, s.entries.lookup key = some e → first ≤ e.verifiedAt ∧ e.verifiedAt ≤ last

theorem ProvenIn.apply {key : Bytes} {first last : ℕ} {s : Store} (h : ProvenIn key first last s)
    {call : Call} (hload : ∀ content, call.op ≠ .load content) (hfirst : first ≤ call.now.wall)
    (hlast : call.now.wall ≤ last) : ProvenIn key first last (s.apply call) := by
  intro e he
  by_cases hproves : Proves s call key
  · rw [hproves.verifiedAt he]
    exact ⟨hfirst, hlast⟩
  · obtain ⟨e', he', hsame, -⟩ := apply_unproven hload hproves he
    rw [hsame]
    exact h e' he'

/-- A mark holds the next one off for its time, or something took it away. -/
theorem second_retest {s : Store} (hs : Reached s) {first second : Call} {between : List Call}
    {key : Bytes} (hbetween : ∀ call ∈ between, ∀ content, call.op ≠ .load content)
    (hclock : ∀ call ∈ between, first.now.mono ≤ call.now.mono) (hfirst : Retests s first key)
    (hsecond : Retests (run Store.apply (s.apply first) between) second key) :
    first.now.mono + reverifyHoldSeconds ≤ second.now.mono ∨
      ∃ before call after, between = before ++ call :: after ∧
        Renews (run Store.apply (s.apply first) before) call key := by
  obtain ⟨e, -, -, hmarked⟩ := hfirst.retested hs
  have hstart : Marked key first.now.mono (s.apply first) := ⟨_, hmarked, le_rfl⟩
  have hreached : Reached (run Store.apply (s.apply first) between) := by
    obtain ⟨calls, rfl⟩ := hs
    exact ⟨calls ++ first :: between, by rw [run_append]; rfl⟩
  rcases run_unless Store.apply (Q := fun s call => Renews s call key) hstart
    fun s call hcall hs hrenews =>
      hs.apply (hbetween call hcall) (hclock call hcall) hrenews with hheld | hrenewed
  · obtain ⟨e₁, he₁, hmark⟩ := hheld
    obtain ⟨e₂, he₂, ⟨-, hfree⟩, -⟩ := hsecond.retested hreached
    rw [he₁] at he₂
    cases he₂
    have hpos := first.now.mono_pos
    refine Or.inl ?_
    by_contra hsoon
    exact hfree ⟨by omega, by omega⟩
  · exact Or.inr hrenewed

/-- No stamp of a proof is overdue before its time. -/
theorem retest_after_proof {s : Store} (hs : Reached s) {proof probe : Call} {between : List Call}
    {key : Bytes} (hbetween : ∀ call ∈ between, ∀ content, call.op ≠ .load content)
    (hfirst : ∀ call ∈ between, proof.now.wall ≤ call.now.wall)
    (hlast : ∀ call ∈ between, call.now.wall ≤ probe.now.wall)
    (hle : proof.now.wall ≤ probe.now.wall) (hproves : Proves s proof key)
    (hprobe : Retests (run Store.apply (s.apply proof) between) probe key) :
    proof.now.wall + reverifyIntervalSeconds ≤ probe.now.wall := by
  have hstart : ProvenIn key proof.now.wall probe.now.wall (s.apply proof) := by
    intro e he
    rw [hproves.verifiedAt he]
    exact ⟨le_rfl, hle⟩
  have hreached : Reached (run Store.apply (s.apply proof) between) := by
    obtain ⟨calls, rfl⟩ := hs
    exact ⟨calls ++ proof :: between, by rw [run_append]; rfl⟩
  rcases run_unless Store.apply (Q := fun _ _ => False) hstart
    fun s call hcall hs _ =>
      hs.apply (hbetween call hcall) (hfirst call hcall) (hlast call hcall) with
    hproven | ⟨-, -, -, -, hfalse⟩
  · obtain ⟨e, he, ⟨hdue, -⟩, -⟩ := hprobe.retested hreached
    obtain ⟨hge, hstamp⟩ := hproven e he
    rw [Store.reverifyDue, Bool.or_eq_true, decide_eq_true_eq, decide_eq_true_eq] at hdue
    omega
  · exact hfalse.elim

/-- Re-verification is exclusive. Two probe orders for one path that both lead its winner
with the baseline, with no reload of the file between them, are at least 15 seconds apart
on the monotonic clock, unless the winner was re-verified, replaced or removed in the
meantime. And once a winner was re-verified or learned, no probe order leads it with the
baseline for 30 minutes of the wall clock. -/
theorem reverification_exclusive (history between : List Call)
    (hbetween : ∀ call ∈ between, ∀ content, call.op ≠ .load content) (key : Bytes) :
    (∀ first second,
      (first :: between ++ [second]).Pairwise (fun a b => a.now.mono ≤ b.now.mono) →
      Retests (run Store.apply {} history) first key →
      Retests (run Store.apply {} (history ++ first :: between)) second key →
      first.now.mono + 15 ≤ second.now.mono ∨
        ∃ before call after, between = before ++ call :: after ∧
          Renews (run Store.apply {} (history ++ first :: before)) call key) ∧
    ∀ proof probe,
      (proof :: between ++ [probe]).Pairwise (fun a b => a.now.wall ≤ b.now.wall) →
      Proves (run Store.apply {} history) proof key →
      Retests (run Store.apply {} (history ++ proof :: between)) probe key →
      proof.now.wall + 30 * 60 ≤ probe.now.wall := by
  have hreached : Reached (run Store.apply {} history) := ⟨history, rfl⟩
  have hrun (call : Call) (calls : List Call) : run Store.apply {} (history ++ call :: calls) =
      run Store.apply ((run Store.apply {} history).apply call) calls := by
    rw [run_append]
    rfl
  constructor
  · intro first second hclock hfirst hsecond
    obtain ⟨hafter, -⟩ := List.pairwise_cons.1 hclock
    rw [hrun] at hsecond
    rcases second_retest hreached hbetween
      (fun call hcall => hafter call (List.mem_append_left _ hcall)) hfirst hsecond with
      happart | ⟨before, call, after, heq, hrenews⟩
    · exact Or.inl happart
    · exact Or.inr ⟨before, call, after, heq, by rw [hrun]; exact hrenews⟩
  · intro proof probe hclock hproves hprobe
    rw [hrun] at hprobe
    obtain ⟨hfront, -, hlast⟩ := List.pairwise_append.1 hclock
    exact retest_after_proof hreached hbetween (List.pairwise_cons.1 hfront).1
      (fun call hcall => hlast call (List.mem_cons_of_mem _ hcall) probe (by simp))
      (hlast proof (by simp) probe (by simp)) hproves hprobe

/-- A probe order for one host a given number of seconds into the session. -/
def sampleProbe (seconds : ℕ) (h : 0 < seconds ∧ seconds < 2 ^ 63) : Call where
  now := (sampleStrike seconds h).now
  op := .probeOrder (ofString "lan") (ofString "a.bc") sampleHello

theorem sampleProbe_retests (s : Store) (seconds : ℕ) (h : 0 < seconds ∧ seconds < 2 ^ 63)
    (hlive : (s.liveEntry (ofString "lan|a.bc") (sampleProbe seconds h).now).isSome)
    (hhead : (s.probeOrder (sampleProbe seconds h).now (ofString "lan") (ofString "a.bc")
      sampleHello).2.head? = some .none) :
    Retests s (sampleProbe seconds h) (ofString "lan|a.bc") :=
  ⟨_, _, _, rfl, by decide, rfl, hlive, hhead⟩

/-- Learned after 160 seconds, due half an hour later, and due again 15 seconds on. -/
theorem reverification_exclusive_sample :
    (1960 + 15 ≤ 1975 ∨ ∃ before call after, ([] : List Call) = before ++ call :: after ∧
      Renews (run Store.apply {} ([sampleStrike 100 (by decide), sampleStrike 160 (by decide)] ++
        sampleProbe 1960 (by decide) :: before)) call (ofString "lan|a.bc")) ∧
    160 + 30 * 60 ≤ 1960 := by
  refine ⟨(reverification_exclusive [sampleStrike 100 (by decide), sampleStrike 160 (by decide)]
      [] (by simp) (ofString "lan|a.bc")).1 (sampleProbe 1960 (by decide))
      (sampleProbe 1975 (by decide)) (by simp [sampleProbe, sampleStrike])
      (sampleProbe_retests _ 1960 (by decide) (by decide +kernel) (by decide +kernel))
      (sampleProbe_retests _ 1975 (by decide) (by decide +kernel) (by decide +kernel)),
    (reverification_exclusive [sampleStrike 100 (by decide)] [] (by simp)
      (ofString "lan|a.bc")).2 (sampleStrike 160 (by decide)) (sampleProbe 1960 (by decide))
      (by simp [sampleProbe, sampleStrike]) ?_
      (sampleProbe_retests _ 1960 (by decide) (by decide +kernel) (by decide +kernel))⟩
  exact ⟨_, _, _, _, _, rfl, by decide, Or.inr (by decide +kernel)⟩

end Relay

end SplitHello
