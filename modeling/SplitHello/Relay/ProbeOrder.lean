import SplitHello.Relay.Outage

/-!
# The probe order

The order for a path is led by its winner, or by the baseline where the winner is to be
proven again or a candidate is to be confirmed. Behind the lead comes every profile of
the table that the hello can carry. Whatever calls the store has seen, each profile is
named once, and the loop of `deliverHello` never runs out of attempts before it runs out
of profiles.
-/

namespace SplitHello

namespace Relay

open ByteString Tls Strategy Diagnosis KeyedTable History

namespace Conn

/-- The profile in question on a path: its winner, or else what was nominated for it. -/
def lead (s : Store) (key : Bytes) (now : Moment) : Option Profile :=
  match s.liveEntry key now with
  | some e => some e.profile
  | none => ((s.candidates.lookup key).filter (candidateLive · now)).map Candidate.profile

/-- A re-verification of the winner was started in the last seconds. -/
def Reverifying (e : Entry) (now : Moment) : Prop :=
  e.reverifyStartedAt ≠ 0 ∧ now.mono < e.reverifyStartedAt + reverifyHoldSeconds

/-- The winner is tried behind the baseline. -/
def Retested (e : Entry) (now : Moment) : Prop :=
  Store.reverifyDue e now = true ∧ ¬ Reverifying e now

/-- What a probe order owes the connection that works through it. -/
structure ProbesInOrder (s : Store) (now : Moment) (key : Bytes) (hello : ClientHello)
    (order : List Profile) : Prop where
  nodup : order.Nodup
  baseline : order.count .none = 1
  complete : ∀ p, p ∈ order ↔
    lead s key now = some p ∨ p ∈ profileTable ∧ (p.requiresSni = true → hello.hasSni = true)
  length_le : order.length ≤ maxProbeAttempts
  winner : ∀ e, s.entries.lookup key = some e → now.wall < e.expiresAt →
    lead s key now = some e.profile ∧
      ([.none, e.profile] <+: order ↔ Retested e now) ∧
      (order.head? = some e.profile ↔ ¬ Retested e now)
  candidate : s.liveEntry key now = none → ∀ c, s.candidates.lookup key = some c →
    candidateLive c now = true → lead s key now = some c.profile ∧ [.none, c.profile] <+: order
  unknown : lead s key now = none → order.head? = some .none

/-! ## The profiles behind the lead -/

theorem mem_probeRest {hello : ClientHello} {first : Option Profile} {baselineQueued : Bool}
    {p : Profile} :
    p ∈ Store.probeRest hello first baselineQueued ↔ some p ≠ first ∧
      (baselineQueued = true → p ≠ .none) ∧ (p.requiresSni = true → hello.hasSni = true) := by
  cases hsni : p.requiresSni <;> cases baselineQueued <;>
    simp [Store.probeRest, mem_profileTable, hsni, and_assoc]

theorem reverifyFree_eq_true {e : Entry} {now : Moment} :
    Store.reverifyFree e now = true ↔ ¬ Reverifying e now := by
  simp [Store.reverifyFree, Reverifying, imp_iff_or_not, or_comm]

/-- The four ways an order can start. -/
inductive LedBy (s : Store) (now : Moment) (key : Bytes) (hello : ClientHello) :
    List Profile → Prop
  | retested {e : Entry} (hlive : s.liveEntry key now = some e) (h : Retested e now) :
      LedBy s now key hello (.none :: e.profile :: Store.probeRest hello (some e.profile) true)
  | trusted {e : Entry} (hlive : s.liveEntry key now = some e) (h : ¬ Retested e now) :
      LedBy s now key hello (e.profile :: Store.probeRest hello (some e.profile) false)
  | nominated {c : Candidate} (hlive : s.liveEntry key now = none)
      (hc : (s.candidates.lookup key).filter (candidateLive · now) = some c) :
      LedBy s now key hello (.none :: c.profile :: Store.probeRest hello (some c.profile) true)
  | unknown (hlive : s.liveEntry key now = none)
      (hc : (s.candidates.lookup key).filter (candidateLive · now) = none) :
      LedBy s now key hello (Store.probeRest hello none false)

theorem probeOrder_ledBy (s : Store) (now : Moment) (networkId host : Bytes) {hello : ClientHello}
    (hspans : hello.spansRecords = false) :
    LedBy s now (scopeKey networkId host) hello (s.probeOrder now networkId host hello).2 := by
  rw [Store.probeOrder, hspans, if_neg Bool.false_ne_true]
  dsimp only
  split
  · rename_i e hlive
    split
    · rename_i hdue
      rw [Bool.and_eq_true, reverifyFree_eq_true] at hdue
      exact .retested hlive hdue
    · rename_i hdue
      rw [Bool.and_eq_true, reverifyFree_eq_true] at hdue
      exact .trusted hlive hdue
  · rename_i hlive
    split
    · exact .nominated hlive ‹_›
    · exact .unknown hlive ‹_›

/-! ## What every order has -/

/-- The order behind a lead, with or without the baseline before it. -/
theorem mem_led {hello : ClientHello} {p q : Profile} :
    (q ∈ Profile.none :: p :: Store.probeRest hello (some p) true ↔
        p = q ∨ q ∈ profileTable ∧ (q.requiresSni = true → hello.hasSni = true)) ∧
      (q ∈ p :: Store.probeRest hello (some p) false ↔
        p = q ∨ q ∈ profileTable ∧ (q.requiresSni = true → hello.hasSni = true)) := by
  have hnone : Profile.none.requiresSni = false := rfl
  refine ⟨?_, ?_⟩
  · by_cases hq : q = .none
    · subst hq
      simp [mem_profileTable, hnone]
    · by_cases hp : p = q
      · simp [hp]
      · simp [mem_probeRest, mem_profileTable, hq, hp, Ne.symm hp]
  · by_cases hp : p = q
    · simp [hp]
    · simp [mem_probeRest, mem_profileTable, hp, Ne.symm hp]

theorem LedBy.mem_iff {s : Store} {now : Moment} {key : Bytes} {hello : ClientHello}
    {order : List Profile} (h : LedBy s now key hello order) (p : Profile) :
    p ∈ order ↔ lead s key now = some p ∨
      p ∈ profileTable ∧ (p.requiresSni = true → hello.hasSni = true) := by
  cases h with
  | retested hlive => rw [mem_led.1, lead, hlive, Option.some.injEq]
  | trusted hlive => rw [mem_led.2, lead, hlive, Option.some.injEq]
  | nominated hlive hc => rw [mem_led.1, lead, hlive, hc, Option.map_some, Option.some.injEq]
  | unknown hlive hc =>
      rw [lead, hlive, hc, Option.map_none]
      simp [mem_probeRest, mem_profileTable]

/-- What the calls so far have put into the store never names the baseline. -/
theorem LedBy.starts {s : Store} (hs : Reached s) {now : Moment} {key : Bytes}
    {hello : ClientHello} {order : List Profile} (h : LedBy s now key hello order) :
    (∀ e, s.liveEntry key now = some e → ([.none, e.profile] <+: order ↔ Retested e now) ∧
        (order.head? = some e.profile ↔ ¬ Retested e now)) ∧
      (s.liveEntry key now = none → ∀ c,
        (s.candidates.lookup key).filter (candidateLive · now) = some c →
        [.none, c.profile] <+: order) ∧
      (lead s key now = none → order.head? = some .none) := by
  obtain ⟨hentries, -⟩ := hs.profile_ne
  cases h with
  | @retested e hlive hretested =>
      have hne := hentries _ _ (liveEntry_eq_some.1 hlive).1
      rw [lead, hlive]
      simp [hretested, hne.symm]
  | @trusted e hlive hretested =>
      have hne := hentries _ _ (liveEntry_eq_some.1 hlive).1
      rw [lead, hlive]
      simp [hretested, hne.symm]
  | @nominated c hlive hc =>
      rw [lead, hlive, hc]
      simp
  | unknown hlive hc =>
      rw [lead, hlive, hc]
      simp [Store.probeRest, profileTable, Profile.requiresSni]

theorem probeOrder_inOrder {s : Store} (hs : Reached s) (now : Moment) (networkId host : Bytes)
    {hello : ClientHello} (hspans : hello.spansRecords = false) :
    ProbesInOrder s now (scopeKey networkId host) hello
      (s.probeOrder now networkId host hello).2 := by
  have hled := probeOrder_ledBy s now networkId host hspans
  have hnodup := nodup_probeOrder hs now networkId host hello
  generalize (s.probeOrder now networkId host hello).2 = order at hled hnodup ⊢
  obtain ⟨hwinner, hcandidate, hunknown⟩ := hled.starts hs
  have hbaseline : Profile.none ∈ order :=
    (hled.mem_iff .none).2 (Or.inr ⟨mem_profileTable _, fun h => by cases h⟩)
  refine ⟨hnodup, List.count_eq_one_of_mem hnodup hbaseline, hled.mem_iff, ?_, ?_, ?_, hunknown⟩
  · exact (List.subperm_of_subset hnodup fun p _ => mem_profileTable p).length_le
  · intro e he hexpires
    have hlive := liveEntry_eq_some.2 ⟨he, hexpires⟩
    exact ⟨by rw [lead, hlive], hwinner e hlive⟩
  · intro hlive c hc hcandidateLive
    have hfilter : (s.candidates.lookup (scopeKey networkId host)).filter
        (candidateLive · now) = some c := Option.filter_eq_some_iff.2 ⟨hc, hcandidateLive⟩
    exact ⟨by rw [lead, hlive, hfilter]; rfl, hcandidate hlive c hfilter⟩

/-! ## When a re-verification was started -/

/-- The order for this path was asked for at that time. -/
def Asked (key : Bytes) (mono : ℕ) (call : Call) : Prop :=
  call.now.mono = mono ∧ ∃ networkId host hello,
    call.op = .probeOrder networkId host hello ∧ scopeKey networkId host = key

/-- Every mark on an entry is the time of an earlier call. -/
def MarksOnRecord (past : List Call) (s : Store) : Prop :=
  ∀ key e, s.entries.lookup key = some e → e.reverifyStartedAt ≠ 0 →
    ∃ call ∈ past, Asked key e.reverifyStartedAt call

theorem load_unmarked {s : Store} {content : Bytes} {now : Moment} {key : Bytes} {e : Entry}
    (h : (s.load content now).entries.lookup key = some e) :
    s.entries.lookup key = some e ∨ e.reverifyStartedAt = 0 := by
  rcases Store.load_entry h with hprev | ⟨profile, fields, rfl⟩
  · exact Or.inl hprev
  · exact Or.inr rfl

theorem MarksOnRecord.apply {past : List Call} {s : Store} (h : MarksOnRecord past s)
    (call : Call) : MarksOnRecord (past ++ [call]) (s.apply call) := by
  have hold : ∀ key e mark, s.entries.lookup key = some e → e.reverifyStartedAt = mark →
      mark ≠ 0 → ∃ call' ∈ past ++ [call], Asked key mark call' := by
    rintro key e _ he rfl hmark
    obtain ⟨call', hcall', hasked⟩ := h key e he hmark
    exact ⟨call', List.mem_append_left _ hcall', hasked⟩
  intro key e he hmark
  cases Store.apply_entryStep he with
  | kept hprev => exact hold key _ _ hprev rfl hmark
  | refreshed hprev => exact hold key _ _ hprev rfl hmark
  | degraded hprev => exact hold key _ _ hprev rfl hmark
  | @reproven e hprev hlive kind confidence =>
      refine absurd ?_ hmark
      rw [Entry.reproven]
      dsimp only
      split <;> rfl
  | learned => exact absurd rfl hmark
  | claimed hop hkey hprev => exact ⟨call, by simp, rfl, _, _, _, hop, hkey⟩
  | loaded hop hprev =>
      rcases load_unmarked hprev with hprev | hzero
      · exact hold key _ _ hprev rfl hmark
      · exact absurd hzero hmark

theorem run_marksOnRecord (calls : List Call) :
    MarksOnRecord calls (run Store.apply {} calls) := by
  refine run_invariant _ _ MarksOnRecord ?_ (fun past s call h => h.apply call) calls
  intro key e he
  cases he

/-- A re-verification that is started is put on record. -/
theorem probeOrder_marks {s : Store} {now : Moment} {networkId host : Bytes}
    {hello : ClientHello} (hspans : hello.spansRecords = false) {e : Entry}
    (hlive : s.liveEntry (scopeKey networkId host) now = some e) (hretested : Retested e now) :
    (s.probeOrder now networkId host hello).1.entries.lookup (scopeKey networkId host) =
      some { e with reverifyStartedAt := now.mono } := by
  have hdue : (Store.reverifyDue e now && Store.reverifyFree e now) = true := by
    rw [Bool.and_eq_true, reverifyFree_eq_true]
    exact hretested
  rw [Store.probeOrder, hspans, if_neg Bool.false_ne_true]
  dsimp only
  rw [hlive]
  dsimp only
  rw [if_pos hdue]
  exact AList.lookup_insert _

/-! ## The attempts of a connection -/

/-- What is left of the order fits the attempts that are left. -/
def Fits (c : Conn) : Prop :=
  match c.phase with
  | .start | .prepare _ | .deliver | .order => c.attempts = 0
  | .lookup | .health => c.attempts = 0 ∧ c.order.length ≤ maxProbeAttempts
  | .attempt => c.attempts + c.order.length ≤ maxProbeAttempts
  | _ => True

theorem judge_attempts (setup : Setup) (c : Conn) (profile : Profile) (input : Input) :
    (c.judge setup profile input).attempts = c.attempts ∧
      (c.judge setup profile input).order = c.order := by
  rw [judge]
  split
  · exact ⟨rfl, rfl⟩
  · dsimp only
    split <;> exact ⟨rfl, rfl⟩

theorem probe_attempts (setup : Setup) (c : Conn) (profile : Profile) (plan : FragmentPlan)
    (input : Input) :
    (c.probe setup profile plan input).attempts = c.attempts ∧
      (c.probe setup profile plan input).order = c.order := by
  obtain ⟨target, hframe⟩ :=
    c.sendTarget_frame (writePlan c.clientBuffer c.hello c.helloComplete plan)
  rw [probe]
  split
  · rename_i c' hsent
    rw [hsent] at hframe
    dsimp only at hframe
    rw [hframe]
    exact ⟨rfl, rfl⟩
  · rename_i c' hsent
    rw [hsent] at hframe
    dsimp only at hframe
    rw [hframe]
    exact judge_attempts setup _ profile input

/-- A round that goes on uses up one profile of the order, and one attempt at most. -/
theorem attempt_attempts (setup : Setup) (c : Conn) (input : Input) :
    (c.attempt setup input).phase = .settleLoss ∨
      (c.attempt setup input).attempts + (c.attempt setup input).order.length ≤
        c.attempts + c.order.length := by
  rw [attempt]
  split
  · exact Or.inl rfl
  · rename_i profile order horder
    split
    · exact Or.inl rfl
    · split
      · rw [horder, List.length_cons]
        exact Or.inr (by dsimp only; omega)
      · rename_i plan hplan
        split
        · obtain ⟨hattempts, hrest⟩ := probe_attempts setup { c with order, attempts := 1 } profile
            plan input
          rw [hattempts, hrest, horder, List.length_cons]
          exact Or.inr (by dsimp only; omega)
        · split
          · exact Or.inl rfl
          · rename_i c' hconnect
            obtain ⟨-, rfl⟩ := Prod.mk.inj hconnect
            obtain ⟨hattempts, hrest⟩ := probe_attempts setup { c with
              order, attempts := c.attempts + 1
              target := input.connect.map fun x => { socket := { sends := x.1 }, recvs := x.2 }
              dropped := c.dropped ++ c.target.toList } profile plan input
            rw [horder, List.length_cons]
            refine Or.inr ?_
            dsimp only at hattempts hrest ⊢
            rw [hattempts, hrest]
            omega

theorem Round.phase {setup : Setup} {c c' : Conn} (h : Round setup c c') :
    c'.phase = c.phase ∨ c'.Probed := by
  cases h with
  | gaveUp => exact Or.inr trivial
  | passed | failed => exact Or.inl rfl
  | won horder hlead =>
      refine Or.inr ?_
      rcases hlead.cases with rfl | ⟨-, -, rfl⟩ | ⟨-, -, -, rfl⟩ <;> trivial

theorem Probed.fits {c : Conn} (h : c.Probed) : c.Fits := by
  rw [Fits]
  rw [Probed] at h
  split <;> simp_all

theorem attempt_fits (setup : Setup) {c : Conn} (h : c.Fits) (hphase : c.phase = .attempt)
    (input : Input) : (c.attempt setup input).Fits := by
  rcases (c.attempt_round setup input).phase with hsame | hprobed
  · rw [Fits, hphase] at h
    rw [Fits, hsame, hphase]
    rcases c.attempt_attempts setup input with hlost | hle
    · rw [hsame, hphase] at hlost
      cases hlost
    · exact hle.trans h
  · exact hprobed.fits

theorem step_fits {setup : Setup} (hlearning : setup.forcedProfile = none) {s : Store}
    (hs : Reached s) {c : Conn} (h : c.Fits) (input : Input) :
    (c.step setup s input).2.Fits := by
  by_cases hattempt : c.phase = .attempt
  · rw [step, hattempt]
    exact attempt_fits setup h hattempt input
  · have hmoves := step_moves setup c s input
    generalize c.step setup s input = x at hmoves ⊢
    rw [Fits] at h
    cases hmoves with
    | early hfrom hto =>
        have hzero : c.attempts = 0 := by
          rcases hfrom with hphase | ⟨_, hphase⟩ | hphase <;> rwa [hphase] at h
        rcases hto with (rfl | ⟨_, rfl⟩ | rfl) | rfl | rfl | rfl | rfl
        · exact hzero
        · exact hzero
        · exact hzero
        · exact hzero
        · trivial
        · trivial
        · trivial
    | ordered hfrom =>
        rw [hfrom] at h
        have hnodup := nodup_probeOrder hs input.tick.moment c.networkId c.targetHost c.hello
        exact ⟨h, (List.subperm_of_subset hnodup fun p _ => mem_profileTable p).length_le⟩
    | forced hfrom hforced => exact absurd hlearning hforced
    | looked hfrom =>
        rw [hfrom] at h
        exact h
    | asked hfrom =>
        rw [hfrom] at h
        exact (Nat.add_eq_right.2 h.1).trans_le h.2
    | tried hfrom => exact absurd hfrom hattempt
    | noted hfrom hto => rcases hto with rfl | rfl <;> trivial
    | flushed hfrom hto => rcases hto with rfl | rfl | rfl <;> trivial
    | retired | settled | remembered | lost => trivial
    | idle hfrom =>
        refine Probed.fits ?_
        rw [Probed]
        rcases hfrom with hphase | hphase | hphase <;> rw [hphase] <;> trivial

theorem interleaved_fits {setup : Setup} (hlearning : setup.forcedProfile = none)
    (networkId targetHost : Bytes) (transparent : Bool) (sends : List SendResult)
    (recvs : List RecvResult) {turns : List (Store × Input)}
    (hturns : ∀ turn ∈ turns, Reached turn.1) :
    (interleaved setup (accepted networkId targetHost transparent sends recvs) turns).Fits := by
  refine History.run_invariant _ _ (fun past c => (∀ turn ∈ past, Reached turn.1) → Fits c)
    ?_ ?_ turns hturns
  · intro _
    exact Eq.refl 0
  · intro past c turn ih hpast
    have hfits := ih fun t ht => hpast t (List.mem_append_left _ ht)
    exact step_fits hlearning (hpast turn (by simp)) hfits turn.2

/-! ## The order as a whole -/

/-- Whatever calls the store has seen, a probe order names the lead and every profile the
hello can carry once, starts as the state of the path asks for, and never exceeds the
attempts of a connection. -/
theorem probeOrder_complete (calls : List Call) (now : Moment) (networkId host : Bytes)
    (hello : ClientHello) :
    let s := run Store.apply {} calls
    let key := scopeKey networkId host
    (hello.spansRecords = true → (s.probeOrder now networkId host hello).2 = [.none]) ∧
      (hello.spansRecords = false →
        ProbesInOrder s now key hello (s.probeOrder now networkId host hello).2 ∧
        ∀ e, s.entries.lookup key = some e → now.wall < e.expiresAt →
          (Retested e now → (s.probeOrder now networkId host hello).1.entries.lookup key =
            some { e with reverifyStartedAt := now.mono }) ∧
          (e.reverifyStartedAt ≠ 0 → ∃ call ∈ calls, Asked key e.reverifyStartedAt call)) ∧
      ∀ setup : Setup, setup.forcedProfile = none →
        ∀ networkId targetHost transparent sends recvs turns,
        (∀ turn ∈ turns, Reached turn.1) →
        let c := interleaved setup (accepted networkId targetHost transparent sends recvs) turns
        c.phase = .attempt → c.order ≠ [] → c.attempts < maxProbeAttempts := by
  intro s key
  have hs : Reached s := ⟨calls, rfl⟩
  refine ⟨?_, ?_, ?_⟩
  · intro hspans
    rw [Store.probeOrder, if_pos hspans]
  · intro hspans
    refine ⟨probeOrder_inOrder hs now networkId host hspans, ?_⟩
    intro e he hexpires
    have hlive : s.liveEntry key now = some e := liveEntry_eq_some.2 ⟨he, hexpires⟩
    exact ⟨probeOrder_marks hspans hlive, run_marksOnRecord calls key e he⟩
  · intro setup hlearning networkId targetHost transparent sends recvs turns hturns c hphase hrest
    have hfits : c.Fits :=
      interleaved_fits hlearning networkId targetHost transparent sends recvs hturns
    rw [Fits, hphase] at hfits
    have hpos := List.length_pos_iff.2 hrest
    dsimp only at hfits
    omega

end Conn

end Relay

end SplitHello
