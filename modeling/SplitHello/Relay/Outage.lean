import SplitHello.Relay.Delivered
import Mathlib.Logic.Relation

/-!
# Outages and the learned winner

A connection served alone on the store: when its remembered profile and its untouched
attempt both lose their connection, the winner's entry stays as it was exactly if some
peer of the connection still sent a ServerHello. Without one, every way out of
`deliverHello` counts the failure against the winner. Beside other connections, which
may change the store between any two steps, a connection that got a ServerHello still
leaves the winner alone.
-/

namespace SplitHello

namespace Relay

open ByteString Tls Strategy Diagnosis KeyedTable

/-- The peer sent a complete ServerHello. -/
def Greeted (t : Endpoint) : Prop :=
  classifyServerResponse (memory t.read) t.read.length = .serverHello

instance (t : Endpoint) : Decidable (Greeted t) := inferInstanceAs (Decidable (_ = _))

theorem awaitLoop_serverHello (fuel : ℕ) (out : Bytes) (t : Endpoint)
    (h : classifyServerResponse (memory out) out.length = .needMore) :
    (awaitLoop fuel out t).1 = .serverHello ↔
      classifyServerResponse (memory (awaitLoop fuel out t).2.1)
        (awaitLoop fuel out t).2.1.length = .serverHello := by
  induction fuel generalizing out t with
  | zero => simp [awaitLoop, h]
  | succ fuel ih =>
      rw [awaitLoop]
      split
      · simp [h]
      · split
        · simp [h]
        · simp [h]
        · split
          · simp [h]
          · split
            · exact iff_of_true rfl ‹_›
            · rename_i hclass
              refine iff_of_false (by simp) ?_
              rw [hclass]
              simp
            · rename_i hclass
              refine iff_of_false (by simp) ?_
              rw [hclass]
              simp
            · exact ih _ _ ‹_›

theorem awaitResponse_serverHello {t : Endpoint} (h : t.read = []) :
    t.awaitResponse.1 = .serverHello ↔ Greeted t.awaitResponse.2.2 := by
  obtain ⟨-, hread⟩ := awaitResponse_read t
  rw [h, List.nil_append] at hread
  rw [Greeted, hread]
  exact awaitLoop_serverHello _ [] t (by decide)

namespace Conn

/-- The connections to the target, the current one last. -/
def peers (c : Conn) : List Endpoint := c.dropped ++ c.target.toList

/-- Some attempt drew a ServerHello. -/
def Answered (evidence : List Attempt) : Prop := ∃ a ∈ evidence, a.signal = .serverHello

/-- Evidence of a ServerHello is a peer that sent one. -/
def Matches (c : Conn) : Prop := (∃ t ∈ c.peers, Greeted t) ↔ Answered c.evidence

theorem not_greeted {t : Endpoint} (h : t.read = []) : ¬ Greeted t := by
  rw [Greeted, h]
  decide

theorem probe_matches (setup : Setup) {c : Conn}
    (hdropped : (∃ t ∈ c.dropped, Greeted t) ↔ Answered c.evidence) {t : Endpoint}
    (ht : c.target = some t) (hread : t.read = []) (profile : Profile) (plan : FragmentPlan)
    (input : Input) : (c.probe setup profile plan input).Matches := by
  rw [probe, sendTarget_eq ht]
  split
  · rename_i c' hc'
    obtain ⟨-, rfl⟩ := Prod.mk.inj hc'
    simpa [Matches, peers, or_and_right, exists_or, not_greeted, hread] using hdropped
  · rename_i c' hc'
    obtain ⟨-, rfl⟩ := Prod.mk.inj hc'
    set t' : Endpoint := { t with
      socket := (writePlan c.clientBuffer c.hello c.helloComplete plan t.socket).2 } with ht'
    have hgreets := awaitResponse_serverHello (t := t') hread
    have hboth : ∀ c' : Conn, c'.dropped = c.dropped → c'.target = some t'.awaitResponse.2.2 →
        c'.evidence = c.evidence ++
          [⟨profile, t'.awaitResponse.1, min input.elapsedMs (2 ^ 32 - 1)⟩] → c'.Matches := by
      intro c' h₁ h₂ h₃
      rw [Answered] at hdropped
      simp only [Matches, Answered, peers, h₁, h₂, h₃, List.mem_append, Option.toList_some,
        List.mem_singleton, or_and_right, exists_or, exists_eq_left, hdropped, hgreets]
    rw [judge]
    dsimp only
    split <;> exact hboth _ rfl rfl rfl

theorem attempt_matches (setup : Setup) {c : Conn} (h : c.Trying) (hmatches : c.Matches)
    (input : Input) : (c.attempt setup input).Matches := by
  rw [attempt]
  split
  · exact hmatches
  · split
    · exact hmatches
    · split
      · exact hmatches
      · split
        · rename_i hzero
          obtain ⟨t, ht, hfresh⟩ := h.first hzero
          have hdropped : (∃ t ∈ c.dropped, Greeted t) ↔ Answered c.evidence := by
            simpa [Matches, peers, ht, or_and_right, exists_or, not_greeted, hfresh.read]
              using hmatches
          exact probe_matches setup (c := { c with order := _, attempts := 1 }) hdropped ht
            hfresh.read _ _ _
        · rw [reconnect]
          cases input.connect with
          | none =>
              have hsame : peers { c with
                  target := none, dropped := c.dropped ++ c.target.toList } = c.peers := by
                simp [peers]
              rw [Matches, ← hsame] at hmatches
              exact hmatches
          | some script =>
              exact probe_matches setup (c := { c with
                order := _, attempts := _, target := _, dropped := c.peers }) hmatches rfl rfl _ _ _

/-! ## The books of one connection -/

def key (c : Conn) : Bytes := scopeKey c.networkId c.targetHost

/-- The remembered profile and the untouched attempt both lost their connection. -/
structure BothFailed (c : Conn) : Prop where
  winner : ∃ a ∈ c.evidence, c.remembered = some a.profile ∧ isTransportFailure a.signal = true
  baseline : ∃ a ∈ c.evidence, a.profile = .none ∧ isTransportFailure a.signal = true

theorem BothFailed.ne_nil {c : Conn} (h : c.BothFailed) : c.evidence ≠ [] := by
  obtain ⟨a, ha, -⟩ := h.baseline
  exact List.ne_nil_of_mem ha

end Conn

/-- The winner of a key is as it was: same profile, failures and confidence. -/
def Kept (s s' : Store) (key : Bytes) : Prop :=
  ∃ e e', s.entries.lookup key = some e ∧ s'.entries.lookup key = some e' ∧
    e'.profile = e.profile ∧ e'.failures = e.failures ∧ e'.confidence = e.confidence

theorem Kept.trans {s₁ s₂ s₃ : Store} {key : Bytes} (h : Kept s₁ s₂ key)
    (h' : Kept s₂ s₃ key) : Kept s₁ s₃ key := by
  obtain ⟨e₁, e₂, h₁, h₂, hprofile, hfailures, hconfidence⟩ := h
  obtain ⟨e₂', e₃, h₂', h₃, hprofile', hfailures', hconfidence'⟩ := h'
  rw [h₂] at h₂'
  cases h₂'
  exact ⟨e₁, e₃, h₁, h₃, hprofile'.trans hprofile, hfailures'.trans hfailures,
    hconfidence'.trans hconfidence⟩

theorem Kept.refl {s : Store} {key : Bytes} {e : Entry} (h : s.entries.lookup key = some e) :
    Kept s s key :=
  ⟨e, e, h, h, rfl, rfl, rfl⟩

/-- Asking for the probe order may stamp the winner and nothing else. -/
theorem probeOrder_kept (s : Store) (now : Moment) (networkId host : Bytes)
    (hello : ClientHello) (key : Bytes) :
    s.entries.lookup key = none ∧
        (s.probeOrder now networkId host hello).1.entries.lookup key = none ∨
      Kept s (s.probeOrder now networkId host hello).1 key := by
  have hsame : s.entries.lookup key = none ∧ s.entries.lookup key = none ∨ Kept s s key := by
    cases he : s.entries.lookup key with
    | none => exact Or.inl ⟨rfl, rfl⟩
    | some e => exact Or.inr (Kept.refl he)
  rw [Store.probeOrder]
  split
  · exact hsame
  · dsimp only
    split
    · rename_i entry hlive
      split
      · dsimp only
        by_cases hkey : key = scopeKey networkId host
        · subst hkey
          exact Or.inr ⟨entry, { entry with reverifyStartedAt := now.mono },
            (liveEntry_eq_some.1 hlive).1, AList.lookup_insert _, rfl, rfl, rfl⟩
        · rw [AList.lookup_insert_ne hkey]
          refine hsame.imp_right ?_
          rintro ⟨e, e', he, he', h⟩
          exact ⟨e, e', he, (AList.lookup_insert_ne hkey).trans he', h⟩
      · exact hsame
    · split
      · exact hsame
      · exact hsame

/-- A recorded failure changes the entry or removes it. -/
theorem recordFailure_not_kept {s s' : Store} {networkId host : Bytes} {e : Entry}
    (hkept : Kept s s' (scopeKey networkId host))
    (he : s'.entries.lookup (scopeKey networkId host) = some e) :
    ¬ Kept s (s'.recordFailure networkId host e.profile).1 (scopeKey networkId host) := by
  obtain ⟨e₀, e', h₀, h', -, hfailures, -⟩ := hkept
  rw [he] at h'
  cases h'
  rintro ⟨e₀', e'', h₀', h'', -, hfailures', -⟩
  rw [h₀] at h₀'
  cases h₀'
  rw [Store.recordFailure, he, Option.filter_some] at h''
  simp only [decide_true, if_true] at h''
  split at h''
  · rw [AList.lookup_erase] at h''
    cases h''
  · rw [AList.lookup_insert] at h''
    cases h''
    dsimp only at hfailures'
    omega

namespace Conn

/-- While a connection probes: what it has seen. -/
structure Ledger (c : Conn) : Prop where
  nodup : (c.evidence.map Attempt.profile ++ c.order).Nodup
  unanswered : ∀ a ∈ c.evidence, a.signal ≠ .serverHello
  failed : c.rememberedFailed = true ↔ ∃ a ∈ c.evidence, c.remembered = some a.profile

/-- Nothing was tried yet. -/
structure Blank (c : Conn) : Prop where
  evidence : c.evidence = []
  rememberedFailed : c.rememberedFailed = false

/-- What a connection knows in each phase, whatever happens to the store meanwhile. -/
def Course (c : Conn) : Prop :=
  match c.phase with
  | .start | .prepare _ | .deliver | .order => c.Blank
  | .lookup => c.order.Nodup ∧ c.Blank
  | .health | .settleLoss => c.Ledger
  | .attempt => c.Ledger ∧ c.context.rememberedProfile = c.remembered
  | .noteHealthy | .rememberNone | .settleWin _ | .rememberWin _ => ¬ c.BothFailed
  | .flush | .pump | .handOff | .closed => True

/-- One more entry of evidence stands for one entry less of the order. -/
theorem nodup_concat {c : Conn} {profile : Profile} {order : List Profile} {a : Attempt}
    (h : (c.evidence.map Attempt.profile ++ c.order).Nodup)
    (horder : c.order = profile :: order) (ha : a.profile = profile) :
    ((c.evidence ++ [a]).map Attempt.profile ++ order).Nodup := by
  rw [horder] at h
  simpa [ha] using h

/-- A third profile that gets through leads straight on, past the store. -/
theorem Ledger.won {c : Conn} (h : c.Ledger)
    (hcontext : c.context.rememberedProfile = c.remembered) {setup : Setup} {profile : Profile}
    {order : List Profile} {elapsedMs : ℕ} {phase : Phase} (horder : c.order = profile :: order)
    (hphase : Leads setup profile
      (infer (c.evidence ++ [⟨profile, .serverHello, elapsedMs⟩]) c.context) phase)
    (hfailed : BothFailed { c with
      evidence := c.evidence ++ [⟨profile, .serverHello, elapsedMs⟩] }) :
    phase = .flush := by
  have hnodup : ((c.evidence ++ [(⟨profile, .serverHello, elapsedMs⟩ : Attempt)]).map
      Attempt.profile).Nodup :=
    (nodup_concat h.nodup horder rfl).of_append_left
  have hold : ∀ a : Attempt, a ∈ c.evidence ++ [⟨profile, .serverHello, elapsedMs⟩] →
      isTransportFailure a.signal = true → a ∈ c.evidence := by
    intro a ha hlost
    rcases List.mem_append.1 ha with ha | ha
    · exact ha
    · rw [List.mem_singleton.1 ha] at hlost
      cases hlost
  obtain ⟨winner, hwinner, hremembered, hlost⟩ := hfailed.winner
  obtain ⟨baseline, hbaseline, hnone, hlost'⟩ := hfailed.baseline
  have hwinner := hold winner hwinner hlost
  have hbaseline := hold baseline hbaseline hlost'
  have htransient := infer_sharedHiccup hnodup h.unanswered rfl hbaseline hnone hlost' hwinner
    (hcontext.trans hremembered) hlost
  have hne : profile ≠ .none := by
    intro heq
    rw [List.map_append, List.nodup_append] at hnodup
    exact hnodup.2.2 _ (List.mem_map_of_mem hbaseline) _ (by simp) (hnone.trans heq.symm)
  rcases hphase.cases with hflush | ⟨-, hbase, -⟩ | ⟨-, -, hkind, -⟩
  · exact hflush
  · exact absurd hbase hne
  · exact absurd htransient hkind

theorem Ledger.round {setup : Setup} (hlearning : setup.forcedProfile = none) {c c' : Conn}
    (h : c.Ledger) (hcontext : c.context.rememberedProfile = c.remembered)
    (hphase : c.phase = .attempt) (hround : Round setup c c') : c'.Course := by
  cases hround with
  | gaveUp => exact ⟨h.nodup, h.unanswered, h.failed⟩
  | passed horder =>
      rw [Course]
      dsimp only
      rw [hphase]
      refine ⟨⟨?_, h.unanswered, h.failed⟩, hcontext⟩
      have hnodup := h.nodup
      rw [horder] at hnodup
      exact hnodup.sublist ((List.sublist_cons_self _ _).append_left _)
  | @failed profile order attempts elapsedMs target dropped signal horder hsignal =>
      rw [Course]
      dsimp only
      rw [hphase]
      refine ⟨⟨nodup_concat h.nodup horder rfl, ?_, ?_⟩, hcontext⟩
      · intro a ha
        rcases List.mem_append.1 ha with ha | ha
        · exact h.unanswered a ha
        · rw [List.mem_singleton.1 ha]
          exact hsignal
      · simp [h.failed, hlearning, or_and_right, exists_or]
  | @won profile order attempts elapsedMs target dropped firstResponse phase horder hlead =>
      have hflush := h.won hcontext horder hlead
      rcases hlead.cases with rfl | ⟨-, -, rfl⟩ | ⟨-, -, -, rfl⟩
      · trivial
      · intro hboth
        cases hflush ⟨hboth.winner, hboth.baseline⟩
      · intro hboth
        cases hflush ⟨hboth.winner, hboth.baseline⟩

theorem Course.blank {c : Conn} (h : c.Course) (hfrom : Early c.phase) : c.Blank := by
  rw [Course] at h
  rcases hfrom with hphase | ⟨_, hphase⟩ | hphase
  · rwa [hphase] at h
  · rwa [hphase] at h
  · rwa [hphase] at h

theorem Blank.course {c : Conn} (h : c.Blank)
    (hto : Early c.phase ∨ c.phase = .order ∨ c.phase = .flush ∨ c.phase = .handOff ∨
      c.phase = .closed) : c.Course := by
  rw [Course]
  rcases hto with (hphase | ⟨_, hphase⟩ | hphase) | hphase | hphase | hphase | hphase
  · rwa [hphase]
  · rwa [hphase]
  · rwa [hphase]
  · rwa [hphase]
  · rw [hphase]
    trivial
  · rw [hphase]
    trivial
  · rw [hphase]
    trivial

theorem step_course {setup : Setup} (hlearning : setup.forcedProfile = none) {s : Store}
    (hs : Reached s) {c : Conn} (h : c.Course) (input : Input) :
    (c.step setup s input).2.Course := by
  have hmoves := step_moves setup c s input
  generalize c.step setup s input = x at hmoves ⊢
  cases hmoves with
  | early hfrom hto =>
      obtain ⟨hevidence, hfailed⟩ := h.blank hfrom
      exact Blank.course ⟨hevidence, hfailed⟩ hto
  | ordered hfrom =>
      rw [Course, hfrom] at h
      exact ⟨nodup_probeOrder hs _ _ _ _, h.evidence, h.rememberedFailed⟩
  | forced hfrom hforced => exact absurd hlearning hforced
  | looked hfrom =>
      rw [Course, hfrom] at h
      obtain ⟨hnodup, hblank⟩ := h
      refine ⟨?_, ?_, ?_⟩
      · simpa [hblank.evidence] using hnodup
      · simp [hblank.evidence]
      · simp [hblank.evidence, hblank.rememberedFailed]
  | asked hfrom hcontext =>
      rw [Course, hfrom] at h
      refine ⟨⟨h.nodup, h.unanswered, h.failed⟩, ?_⟩
      dsimp only
      rw [hcontext hlearning]
  | tried hfrom hround =>
      rw [Course, hfrom] at h
      exact h.1.round hlearning h.2 hfrom hround
  | noted hfrom hto =>
      rw [Course, hfrom] at h
      rcases hto with rfl | rfl
      · exact fun hboth => h ⟨hboth.winner, hboth.baseline⟩
      · trivial
  | settled hfrom =>
      rw [Course, hfrom] at h
      exact fun hboth => h ⟨hboth.winner, hboth.baseline⟩
  | retired hfrom => trivial
  | remembered hfrom => trivial
  | lost hfrom => trivial
  | flushed hfrom hto => rcases hto with rfl | rfl | rfl <;> trivial
  | idle hfrom => exact h

/-! ## The books and the store -/

/-- The winner the connection knows of is the one in the store. -/
def Known (s₀ s : Store) (c : Conn) : Prop :=
  ∀ p, c.remembered = some p →
    Kept s₀ s c.key ∧ ∃ e, s.entries.lookup c.key = some e ∧ e.profile = p

/-- What the end of `deliverHello` leaves behind. -/
def Settled (s₀ s : Store) (c : Conn) : Prop :=
  c.BothFailed → (Kept s₀ s c.key ↔ Answered c.evidence)

/-- What holds of the store in each phase of a connection that is alone on it, from a
start with the store `s₀`. -/
def Booked (s₀ s : Store) (c : Conn) : Prop :=
  match c.phase with
  | .start | .prepare _ | .deliver | .order => s = s₀
  | .lookup => ∀ e, s.entries.lookup c.key = some e → Kept s₀ s c.key
  | .health | .attempt | .settleLoss => Known s₀ s c
  | .noteHealthy | .rememberNone | .settleWin _ | .rememberWin _ => True
  | .flush | .pump | .handOff | .closed => Settled s₀ s c

theorem Blank.settled {s₀ s : Store} {c : Conn} (h : c.Blank) : Settled s₀ s c :=
  fun hfailed => absurd h.evidence hfailed.ne_nil

theorem not_bothFailed_settled {s₀ s : Store} {c : Conn} (h : ¬ c.BothFailed) :
    Settled s₀ s c :=
  fun hfailed => absurd hfailed h

theorem Known.round {setup : Setup} {s₀ s : Store} {c c' : Conn} (h : Known s₀ s c)
    (hphase : c.phase = .attempt) (hround : Round setup c c') : Booked s₀ s c' := by
  cases hround with
  | gaveUp => exact h
  | passed horder =>
      rw [Booked]
      dsimp only
      rw [hphase]
      exact h
  | failed horder hsignal =>
      rw [Booked]
      dsimp only
      rw [hphase]
      exact h
  | @won profile order attempts elapsedMs target dropped firstResponse phase horder hlead =>
      rcases hlead.cases with rfl | ⟨-, -, rfl⟩ | ⟨-, -, -, rfl⟩
      · intro hboth
        obtain ⟨winner, -, hremembered, -⟩ := hboth.winner
        exact iff_of_true (h _ hremembered).1 ⟨⟨profile, .serverHello, elapsedMs⟩, by simp, rfl⟩
      · trivial
      · trivial

theorem settleLoss_settled {setup : Setup} (hlearning : setup.forcedProfile = none)
    {s₀ s : Store} {c : Conn} (hledger : c.Ledger) (h : Known s₀ s c) (phase : Phase) :
    Settled s₀ (c.settleFailure setup s) { c with phase } := by
  intro hfailed
  obtain ⟨winner, hwinner, hremembered, -⟩ := hfailed.winner
  obtain ⟨hkept, e, he, hprofile⟩ := h _ hremembered
  have hmark : c.rememberedFailed = true := hledger.failed.2 ⟨winner, hwinner, hremembered⟩
  have hstore : c.settleFailure setup s =
      (s.recordFailure c.networkId c.targetHost e.profile).1 := by
    rw [settleFailure, hlearning, hmark, hprofile]
    dsimp only at hremembered
    rw [hremembered]
    rfl
  refine iff_of_false ?_ ?_
  · rw [hstore]
    exact recordFailure_not_kept hkept he
  · rintro ⟨a, ha, hsignal⟩
    exact hledger.unanswered a ha hsignal

theorem Booked.start {s₀ s : Store} {c : Conn} (h : Booked s₀ s c) (hfrom : Early c.phase) :
    s = s₀ := by
  rw [Booked] at h
  rcases hfrom with hphase | ⟨_, hphase⟩ | hphase
  · rwa [hphase] at h
  · rwa [hphase] at h
  · rwa [hphase] at h

theorem Blank.booked {s : Store} {c : Conn} (h : c.Blank)
    (hto : Early c.phase ∨ c.phase = .order ∨ c.phase = .flush ∨ c.phase = .handOff ∨
      c.phase = .closed) : Booked s s c := by
  rw [Booked]
  rcases hto with (hphase | ⟨_, hphase⟩ | hphase) | hphase | hphase | hphase | hphase
  · rw [hphase]
  · rw [hphase]
  · rw [hphase]
  · rw [hphase]
  · rw [hphase]
    exact h.settled
  · rw [hphase]
    exact h.settled
  · rw [hphase]
    exact h.settled

theorem step_booked {setup : Setup} (hlearning : setup.forcedProfile = none) {s₀ s : Store}
    {c : Conn} (hcourse : c.Course) (h : Booked s₀ s c) (input : Input) :
    Booked s₀ (c.step setup s input).1 (c.step setup s input).2 := by
  have hmoves := step_moves setup c s input
  generalize c.step setup s input = x at hmoves ⊢
  cases hmoves with
  | early hfrom hto =>
      obtain rfl := h.start hfrom
      obtain ⟨hevidence, hfailed⟩ := hcourse.blank hfrom
      exact Blank.booked ⟨hevidence, hfailed⟩ hto
  | ordered hfrom =>
      rw [Booked, hfrom] at h
      subst h
      intro e he
      rcases probeOrder_kept _ _ _ _ _ _ with ⟨-, hnone⟩ | hkept
      · rw [he] at hnone
        cases hnone
      · exact hkept
  | forced hfrom hforced => exact absurd hlearning hforced
  | looked hfrom =>
      rw [Booked, hfrom] at h
      intro p hp
      obtain ⟨e, hlive, hprofile⟩ := Option.map_eq_some_iff.1 hp
      have he := (liveEntry_eq_some.1 hlive).1
      exact ⟨h e he, e, he, hprofile⟩
  | asked hfrom =>
      rw [Booked, hfrom] at h
      exact h
  | tried hfrom hround =>
      rw [Booked, hfrom] at h
      exact h.round hfrom hround
  | noted hfrom hto =>
      rw [Course, hfrom] at hcourse
      rcases hto with rfl | rfl
      · trivial
      · exact not_bothFailed_settled fun hboth => hcourse ⟨hboth.winner, hboth.baseline⟩
  | retired hfrom =>
      rw [Course, hfrom] at hcourse
      exact not_bothFailed_settled fun hboth => hcourse ⟨hboth.winner, hboth.baseline⟩
  | settled hfrom => trivial
  | remembered hfrom =>
      rw [Course, hfrom] at hcourse
      exact not_bothFailed_settled fun hboth => hcourse ⟨hboth.winner, hboth.baseline⟩
  | lost hfrom =>
      rw [Course, hfrom] at hcourse
      rw [Booked, hfrom] at h
      exact settleLoss_settled hlearning hcourse h _
  | flushed hfrom hto =>
      rw [Booked, hfrom] at h
      rcases hto with rfl | rfl | rfl
      · exact fun hboth => h ⟨hboth.winner, hboth.baseline⟩
      · exact fun hboth => h ⟨hboth.winner, hboth.baseline⟩
      · exact fun hboth => h ⟨hboth.winner, hboth.baseline⟩
  | idle hfrom => exact h

/-! ## Connections served one after the other -/

/-- A connection served alone on the store, from its first step on. -/
def serve (setup : Setup) (s : Store) (c : Conn) (inputs : List Input) : Store × Conn :=
  History.run (fun x input => step setup x.2 x.1 input) (s, c) inputs

/-- The connection is past `deliverHello`. -/
def Ended (c : Conn) : Prop :=
  c.phase = .flush ∨ c.phase = .pump ∨ c.phase = .handOff ∨ c.phase = .closed

/-- What is known of a connection served alone: the peers, the evidence and the books. -/
structure Accounted (s₀ : Store) (x : Store × Conn) : Prop where
  reached : Reached x.1
  sound : x.2.Sound
  peers : x.2.Matches
  course : x.2.Course
  booked : Booked s₀ x.1 x.2

/-- Only what was read from the peers counts. -/
theorem Matches.of_read {c c' : Conn} (h : c.Matches) (hevidence : c'.evidence = c.evidence)
    (hread : c'.peers.map Endpoint.read = c.peers.map Endpoint.read) : c'.Matches := by
  have hheard : ∀ l : List Endpoint, (∃ t ∈ l, Greeted t) ↔
      ∃ b ∈ l.map Endpoint.read, classifyServerResponse (memory b) b.length = .serverHello := by
    intro l
    simp [Greeted]
  rw [Matches, hheard] at h ⊢
  rw [hread, hevidence]
  exact h

theorem sendTarget_read (c : Conn) (write : Socket → Bool × Socket) :
    (c.sendTarget write).2.peers.map Endpoint.read = c.peers.map Endpoint.read := by
  rw [sendTarget]
  split
  · rfl
  · rename_i t ht
    simp [peers, ht]

theorem prepare_matches {c : Conn} (h : c.Matches) (stages : List Stage) (input : Input) :
    (c.prepare stages input).Matches := by
  cases stages with
  | nil => exact h
  | cons stage stages =>
      cases stage with
      | candidates =>
          rw [prepare]
          split <;> exact h
      | connect =>
          rw [prepare, reconnect]
          cases input.connect with
          | none => simpa [Matches, peers] using h
          | some script =>
              simpa [Matches, peers, or_and_right, exists_or, not_greeted] using h
      | collect =>
          obtain ⟨client, clientBuffer, hello, helloComplete, targetHost, heq⟩ :=
            collectLoop_frame input.rounds { c with clientBuffer := [], helloComplete := false }
          rw [prepare, collectClientHello]
          split
          · rename_i c' hc'
            rw [hc'] at heq
            dsimp only at heq
            rw [heq]
            exact h
          · rename_i c' hc'
            rw [hc'] at heq
            dsimp only at heq
            rw [heq]
            exact h

theorem deliver_matches {c : Conn} (h : c.Matches) : c.deliver.Matches := by
  obtain ⟨_, _, _, heq, -⟩ := c.deliver_frame
  refine h.of_read (by rw [heq]) ?_
  rw [deliver]
  split
  · rfl
  · split
    · exact c.sendTarget_read (sendAll · c.clientBuffer)
    · split
      · exact sendTarget_read { c with activeProfile := .none } (sendAll · c.clientBuffer)
      · rfl

theorem flush_matches {c : Conn} (h : c.Matches) : c.flush.Matches := by
  obtain ⟨_, _, _, _, _, heq, -⟩ := c.flush_frame
  have htrailing : c.flushTrailingClientData.2.peers.map Endpoint.read =
      c.peers.map Endpoint.read := by
    rw [flushTrailingClientData]
    split
    · rfl
    · exact sendTarget_read _ _
  refine h.of_read (by rw [heq]) ?_
  rw [flush, ← htrailing]
  split
  · rename_i c' hc'
    rw [hc']
    rfl
  · rename_i c' hc'
    rw [hc']
    rfl

theorem step_matches (setup : Setup) {c : Conn} (hsound : c.Sound) (h : c.Matches) (s : Store)
    (input : Input) : (c.step setup s input).2.Matches := by
  rw [step]
  cases hphase : c.phase with
  | start =>
      dsimp only
      split <;> exact h
  | prepare stages => exact prepare_matches h stages input
  | deliver => exact deliver_matches h
  | order =>
      dsimp only
      split <;> exact h
  | attempt =>
      rw [Sound, hphase] at hsound
      exact attempt_matches setup hsound h input
  | flush => exact flush_matches h
  | _ => exact h

theorem Accounted.step {setup : Setup} (hlearning : setup.forcedProfile = none) {s₀ : Store}
    {x : Store × Conn} (h : Accounted s₀ x) (input : Input) :
    Accounted s₀ (step setup x.2 x.1 input) where
  reached := h.reached.step setup x.2 input
  sound := step_sound setup h.sound x.1 input
  peers := step_matches setup h.sound h.peers x.1 input
  course := step_course hlearning h.reached h.course input
  booked := step_booked hlearning h.course h.booked input

theorem serve_accounted {setup : Setup} (hlearning : setup.forcedProfile = none) {s : Store}
    (hs : Reached s) (networkId targetHost : Bytes) (transparent : Bool)
    (sends : List SendResult) (recvs : List RecvResult) (inputs : List Input) :
    Accounted s (serve setup s (accepted networkId targetHost transparent sends recvs) inputs) := by
  refine History.run_invariant _ _ (fun _ x => Accounted s x) ?_
    (fun _ _ input h => h.step hlearning input) inputs
  refine ⟨hs, ⟨by decide, rfl, rfl, rfl, rfl, rfl, rfl⟩, ?_, ⟨rfl, rfl⟩, rfl⟩
  simp [Matches, Answered, peers, accepted]

/-! ## Connections beside others -/

/-- A connection whose every step meets the store as others left it. -/
def interleaved (setup : Setup) (c : Conn) (turns : List (Store × Input)) : Conn :=
  History.run (fun c turn => (step setup c turn.1 turn.2).2) c turns

/-- The evidence of the connection is complete. -/
def Probed (c : Conn) : Prop :=
  match c.phase with
  | .start | .prepare _ | .deliver | .order | .lookup | .health | .attempt => False
  | _ => True

theorem not_probed {c : Conn} (h : Early c.phase) : ¬ c.Probed := by
  rw [Probed]
  rcases h with hphase | ⟨_, hphase⟩ | hphase
  · rw [hphase]
    exact id
  · rw [hphase]
    exact id
  · rw [hphase]
    exact id

theorem step_probed (setup : Setup) {c : Conn} (h : c.Probed) (s : Store) (input : Input) :
    (c.step setup s input).2.Probed ∧ (c.step setup s input).2.evidence = c.evidence ∧
      (c.step setup s input).2.remembered = c.remembered := by
  have hmoves := step_moves setup c s input
  generalize c.step setup s input = x at hmoves ⊢
  cases hmoves with
  | early hfrom => exact absurd h (not_probed hfrom)
  | ordered hfrom | forced hfrom | looked hfrom | asked hfrom | tried hfrom =>
      rw [Probed, hfrom] at h
      exact h.elim
  | noted hfrom hto => rcases hto with rfl | rfl <;> exact ⟨trivial, rfl, rfl⟩
  | flushed hfrom hto => rcases hto with rfl | rfl | rfl <;> exact ⟨trivial, rfl, rfl⟩
  | retired | settled | remembered | lost => exact ⟨trivial, rfl, rfl⟩
  | idle => exact ⟨h, rfl, rfl⟩

theorem interleaved_probed (setup : Setup) {c : Conn} (h : c.Probed)
    (turns : List (Store × Input)) :
    (interleaved setup c turns).evidence = c.evidence ∧
      (interleaved setup c turns).remembered = c.remembered := by
  have hall : (interleaved setup c turns).Probed ∧
      (interleaved setup c turns).evidence = c.evidence ∧
      (interleaved setup c turns).remembered = c.remembered := by
    refine History.run_invariant _ _ (fun _ c' => Probed c' ∧ c'.evidence = c.evidence ∧
      c'.remembered = c.remembered) ⟨h, rfl, rfl⟩ ?_ turns
    rintro _ c' turn ⟨hprobed, hevidence, hremembered⟩
    obtain ⟨hprobed', hevidence', hremembered'⟩ := step_probed setup hprobed turn.1 turn.2
    exact ⟨hprobed', hevidence'.trans hevidence, hremembered'.trans hremembered⟩
  exact hall.2

/-- A step that touches a winner is one of a connection that met no hiccup, or that got
no answer. -/
theorem step_kept {setup : Setup} {s : Store} {c : Conn} (h : c.Course) (input : Input)
    {key : Bytes} {e : Entry} (he : s.entries.lookup key = some e) :
    Kept s (c.step setup s input).1 key ∨
      c.Probed ∧ (c.BothFailed → ¬ Answered c.evidence) := by
  have hmoves := step_moves setup c s input
  generalize c.step setup s input = x at hmoves ⊢
  cases hmoves with
  | early | forced | looked | asked | tried | flushed | idle => exact Or.inl (Kept.refl he)
  | ordered hfrom =>
      refine Or.inl ?_
      rcases probeOrder_kept s input.tick.moment c.networkId c.targetHost c.hello key with
        ⟨hnone, -⟩ | hkept
      · rw [he] at hnone
        cases hnone
      · exact hkept
  | noted hfrom | retired hfrom | settled hfrom | remembered hfrom =>
      rw [Course, hfrom] at h
      rw [Probed, hfrom]
      exact Or.inr ⟨trivial, fun hfailed => absurd hfailed h⟩
  | lost hfrom =>
      rw [Course, hfrom] at h
      rw [Probed, hfrom]
      refine Or.inr ⟨trivial, fun _ hanswered => ?_⟩
      obtain ⟨a, ha, hsignal⟩ := hanswered
      exact h.unanswered a ha hsignal

theorem interleaved_accounted {setup : Setup} (hlearning : setup.forcedProfile = none)
    (networkId targetHost : Bytes) (transparent : Bool) (sends : List SendResult)
    (recvs : List RecvResult) {turns : List (Store × Input)}
    (hturns : ∀ turn ∈ turns, Reached turn.1) :
    let c := interleaved setup (accepted networkId targetHost transparent sends recvs) turns
    c.Sound ∧ c.Matches ∧ c.Course := by
  refine History.run_invariant _ _ (fun past c => (∀ turn ∈ past, Reached turn.1) →
    Sound c ∧ c.Matches ∧ c.Course) ?_ ?_ turns hturns
  · refine fun _ => ⟨⟨by decide, rfl, rfl, rfl, rfl, rfl, rfl⟩, ?_, rfl, rfl⟩
    simp [Matches, Answered, peers, accepted]
  · intro past c turn ih hpast
    obtain ⟨hsound, hmatches, hcourse⟩ := ih fun t ht => hpast t (List.mem_append_left _ ht)
    exact ⟨step_sound setup hsound _ _, step_matches setup hsound hmatches _ _,
      step_course hlearning (hpast turn (by simp)) hcourse _⟩

/-- Beside any other connections, no step of one that met a hiccup and got a ServerHello
touches the winner. -/
theorem interleaved_kept {setup : Setup} (hlearning : setup.forcedProfile = none)
    (networkId targetHost : Bytes) (transparent : Bool) (sends : List SendResult)
    (recvs : List RecvResult) {before after : List (Store × Input)} {turn : Store × Input}
    (hturns : ∀ t ∈ before ++ turn :: after, Reached t.1) :
    let first := accepted networkId targetHost transparent sends recvs
    let last := interleaved setup first (before ++ turn :: after)
    last.BothFailed → (∃ t ∈ last.peers, Greeted t) →
      ∀ e, turn.1.entries.lookup last.key = some e →
        Kept turn.1 (step setup (interleaved setup first before) turn.1 turn.2).1 last.key := by
  intro first last hfailed hgreeted e he
  obtain ⟨-, hmatches, -⟩ := interleaved_accounted hlearning networkId targetHost transparent
    sends recvs hturns
  obtain ⟨-, -, hcourse⟩ := interleaved_accounted hlearning networkId targetHost transparent
    sends recvs fun t ht => hturns t (List.mem_append_left _ ht)
  have hanswered : Answered last.evidence := hmatches.1 hgreeted
  rcases step_kept hcourse turn.2 he with hkept | ⟨hprobed, hno⟩
  · exact hkept
  · have hlast : last = interleaved setup (interleaved setup first before) (turn :: after) :=
      History.run_append _ _ _ _
    obtain ⟨hevidence, hremembered⟩ := interleaved_probed setup hprobed (turn :: after)
    rw [← hlast] at hevidence hremembered
    rw [hevidence] at hanswered
    refine absurd hanswered (hno ⟨?_, ?_⟩)
    · have := hfailed.winner
      rwa [hevidence, hremembered] at this
    · have := hfailed.baseline
      rwa [hevidence] at this

/-! ## The winner through a hiccup -/

/-- A connection that meets a hiccup and finds a way through, alone on the store. -/
def Hiccup (setup : Setup) (key : Bytes) (s s' : Store) : Prop :=
  ∃ networkId targetHost transparent sends recvs inputs,
    let x := serve setup s (accepted networkId targetHost transparent sends recvs) inputs
    x.1 = s' ∧ x.2.key = key ∧ x.2.Ended ∧ x.2.BothFailed ∧ ∃ t ∈ x.2.peers, Greeted t

/-- In learning mode, a connection on which the remembered profile and the untouched
attempt both lost their connection leaves the winner as it was exactly if some peer of
the connection sent a ServerHello. So no number of such connections evicts it as long as
each of them gets one, and beside others none of its steps touches the winner. -/
theorem kept_iff_greeted (setup : Setup) (hlearning : setup.forcedProfile = none) :
    (∀ s, Reached s → ∀ networkId targetHost transparent sends recvs inputs,
      let x := serve setup s (accepted networkId targetHost transparent sends recvs) inputs
      x.2.Ended → x.2.BothFailed → (Kept s x.1 x.2.key ↔ ∃ t ∈ x.2.peers, Greeted t)) ∧
    (∀ key s s', Reached s → (s.entries.lookup key).isSome →
      Relation.ReflTransGen (Hiccup setup key) s s' → Kept s s' key) ∧
    ∀ networkId targetHost transparent sends recvs before turn after,
      (∀ t ∈ before ++ turn :: after, Reached t.1) →
      let first := accepted networkId targetHost transparent sends recvs
      let last := interleaved setup first (before ++ turn :: after)
      last.BothFailed → (∃ t ∈ last.peers, Greeted t) →
        ∀ e, turn.1.entries.lookup last.key = some e →
          Kept turn.1 (step setup (interleaved setup first before) turn.1 turn.2).1
            last.key := by
  have hone : ∀ s, Reached s → ∀ networkId targetHost transparent sends recvs inputs,
      let x := serve setup s (accepted networkId targetHost transparent sends recvs) inputs
      x.2.Ended → x.2.BothFailed → (Kept s x.1 x.2.key ↔ ∃ t ∈ x.2.peers, Greeted t) := by
    intro s hs networkId targetHost transparent sends recvs inputs x hended hfailed
    have haccounted := serve_accounted hlearning hs networkId targetHost transparent sends recvs
      inputs
    have hpeers : (∃ t ∈ x.2.peers, Greeted t) ↔ Answered x.2.evidence := haccounted.peers
    have hbooked : Booked s x.1 x.2 := haccounted.booked
    rw [hpeers]
    rw [Booked] at hbooked
    rcases hended with hphase | hphase | hphase | hphase
    · rw [hphase] at hbooked
      exact hbooked hfailed
    · rw [hphase] at hbooked
      exact hbooked hfailed
    · rw [hphase] at hbooked
      exact hbooked hfailed
    · rw [hphase] at hbooked
      exact hbooked hfailed
  refine ⟨hone, ?_, fun networkId targetHost transparent sends recvs before turn after hturns =>
    interleaved_kept hlearning networkId targetHost transparent sends recvs hturns⟩
  intro key s s' hs hsome hsteps
  -- Each of the connections starts on a store that was reached, so the first part applies.
  have hboth : Reached s' ∧ Kept s s' key := by
    induction hsteps with
    | refl =>
        obtain ⟨e, he⟩ := Option.isSome_iff_exists.1 hsome
        exact ⟨hs, Kept.refl he⟩
    | tail _ hhiccup ih =>
        obtain ⟨hreached, hkept⟩ := ih
        obtain ⟨networkId, targetHost, transparent, sends, recvs, inputs, rfl, rfl, hended,
          hfailed, hgreeted⟩ := hhiccup
        refine ⟨(serve_accounted hlearning hreached networkId targetHost transparent sends recvs
          inputs).reached, hkept.trans ?_⟩
        exact (hone _ hreached networkId targetHost transparent sends recvs inputs hended
          hfailed).2 hgreeted
  exact hboth.2

/-! ## An outage -/

/-- A store that learned a winner by two differentials a minute apart. -/
def wonStore : Store :=
  History.run Store.apply {} [sampleStrike 100 (by decide), sampleStrike 160 (by decide)]

theorem wonStore_reached : Reached wonStore := ⟨_, rfl⟩

/-- A client that sends its hello in one piece. -/
def sampleClient : Conn :=
  accepted (ofString "lan") (ofString "x") false [] [.data sampleBuffer]

/-- Up to the first attempt, whose connection the target closes at once. -/
def sampleLost : List Input :=
  [sampleInput, sampleInput, { sampleInput with connect := some ([], [.data []]) },
    { sampleInput with rounds := 1 }] ++ List.replicate 6 sampleInput

/-- The untouched attempt is closed too, then no connection comes about any more. -/
def sampleOutage : List Input :=
  sampleLost ++ [{ sampleInput with connect := some ([], [.data []]) }, sampleInput, sampleInput]

/-- The untouched attempt is closed too, then a third profile is answered. -/
def sampleHiccup : List Input :=
  sampleLost ++ [{ sampleInput with connect := some ([], [.data []]) },
    { sampleInput with connect := some ([], [.data sampleServerHello]) }]

/-- One outage takes from the winner, a second one evicts it. -/
theorem outage_evicts :
    let x := serve {} wonStore sampleClient sampleOutage
    Reached wonStore ∧ x.2.Ended ∧ x.2.BothFailed ∧
      x.2.verdict.kind ≠ .sniInterferenceLikely ∧ ¬ Kept wonStore x.1 x.2.key ∧
      (serve {} x.1 sampleClient sampleOutage).1.entries.lookup x.2.key = none := by
  intro x
  have hevidence : x.2.evidence = [⟨.sniMid, .closed, 0⟩, ⟨.none, .closed, 0⟩] := by decide +kernel
  have hremembered : x.2.remembered = some .sniMid := by decide +kernel
  refine ⟨wonStore_reached, ?_, ⟨?_, ?_⟩, ?_, ?_, ?_⟩
  · exact Or.inr (Or.inr (Or.inl (by decide +kernel)))
  · rw [hevidence]
    exact ⟨_, List.mem_cons_self, hremembered, rfl⟩
  · rw [hevidence]
    exact ⟨_, List.mem_cons_of_mem _ List.mem_cons_self, rfl, rfl⟩
  · decide +kernel
  · rintro ⟨e, e', he, he', -, hfailures, -⟩
    have hbefore : (wonStore.entries.lookup x.2.key).map Entry.failures = some 0 := by
      decide +kernel
    have hafter : (x.1.entries.lookup x.2.key).map Entry.failures = some 1 := by decide +kernel
    rw [he, Option.map_some, Option.some.injEq] at hbefore
    rw [he', Option.map_some, Option.some.injEq] at hafter
    omega
  · decide +kernel

theorem kept_iff_greeted_sample :
    let x := serve {} wonStore sampleClient sampleHiccup
    x.2.Ended ∧ x.2.BothFailed ∧ Kept wonStore x.1 x.2.key ∧
      Kept wonStore (serve {} x.1 sampleClient sampleHiccup).1 x.2.key := by
  intro x
  have hended : x.2.Ended := Or.inl (by decide +kernel)
  have hfailed : x.2.BothFailed := by
    have hevidence : x.2.evidence = [⟨.sniMid, .closed, 0⟩, ⟨.none, .closed, 0⟩,
      ⟨.record1, .serverHello, 0⟩] := by decide +kernel
    have hremembered : x.2.remembered = some .sniMid := by decide +kernel
    refine ⟨?_, ?_⟩
    · rw [hevidence]
      exact ⟨_, List.mem_cons_self, hremembered, rfl⟩
    · rw [hevidence]
      exact ⟨_, List.mem_cons_of_mem _ List.mem_cons_self, rfl, rfl⟩
  have hgreeted : ∃ t ∈ x.2.peers, Greeted t := by decide +kernel
  obtain ⟨hone, hmany, -⟩ := kept_iff_greeted {} rfl
  have hhiccup : ∀ s, (serve {} s sampleClient sampleHiccup).2 = x.2 →
      Hiccup {} x.2.key s (serve {} s sampleClient sampleHiccup).1 := by
    intro s hs
    have hall : ∀ c : Conn, c = x.2 → c.key = x.2.key ∧ c.Ended ∧ c.BothFailed ∧
        ∃ t ∈ c.peers, Greeted t := by
      rintro _ rfl
      exact ⟨rfl, hended, hfailed, hgreeted⟩
    exact ⟨_, _, _, _, _, sampleHiccup, rfl, hall _ hs⟩
  refine ⟨hended, hfailed, ?_, ?_⟩
  · exact (hone wonStore wonStore_reached _ _ _ _ _ _ hended hfailed).2 hgreeted
  · exact hmany _ _ _ wonStore_reached (by decide)
      ((Relation.ReflTransGen.single (hhiccup wonStore rfl)).tail (hhiccup x.1 (by decide +kernel)))

end Conn

end Relay

end SplitHello
