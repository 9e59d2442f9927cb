import SplitHello.Dns.WireCache

/-!
# Queries with checking disabled

The CD bit of a query asks the resolver upstream to leave DNSSEC validation out. A
query is relayed as it came, so the bit reaches the resolver; the key of the wire cache
is made from the name, the type, RD, DO and the presence of EDNS, and does not have it.

`Traced` remembers beside the system which message each entry of the wire cache was
fetched with. When all messages of a run that share a key agree in the bit, nobody is
served an answer of the other kind.
-/

namespace SplitHello

namespace Dns

open ByteString KeyedTable

/-- The CD bit of a message. -/
def checkingDisabled (message : Bytes) : Bool := (be16 (memory message) 2).testBit 4

/-- What a call that is about to store an answer stores it under, and the message it was
fetched with. -/
def Call.stores (c : Call) : Option (Bytes × Bytes) :=
  match c.datagram, c.phase with
  | some datagram, .keepWire query _ _ => some (wireKey query, datagram)
  | _, _ => none

/-- A system, and for each key of the wire cache the message its entry was fetched with. -/
structure Traced where
  system : System
  fetchedWith : Bytes → Bytes := fun _ => []

/-- What an event stores. -/
def System.stores (s : System) : Event → Option (Bytes × Bytes)
  | .act index _ => s.calls[index]?.bind Call.stores
  | _ => none

/-- The messages that arrive in a run. -/
def datagrams (events : List Event) : List Bytes :=
  events.filterMap fun e =>
    match e with
    | .buildReply datagram _ => some datagram
    | _ => none

/-- Two queries that the cache does not tell apart. -/
def SameQuestion (query query' : Query) : Prop :=
  query.name = query'.name ∧ query.type = query'.type ∧
    query.recursionDesired = query'.recursionDesired ∧ query.dnssecOk = query'.dnssecOk ∧
    (query.ednsPayload ≠ 0 ↔ query'.ednsPayload ≠ 0)

/-- Messages with the same question agree in the CD bit. -/
def OneMode (messages : List Bytes) : Prop :=
  ∀ d ∈ messages, ∀ d' ∈ messages, ∀ query query',
    parseQuery (memory d) d.length = (query, true) →
      parseQuery (memory d') d'.length = (query', true) →
        SameQuestion query query' → checkingDisabled d = checkingDisabled d'

section

variable (pton : InetPton)

def Traced.step (t : Traced) (e : Event) : Traced where
  system := t.system.step pton e
  fetchedWith := (t.system.stores e).elim t.fetchedWith fun stored =>
    Function.update t.fetchedWith stored.1 stored.2

/-- Tracing does not change the system. -/
theorem traced_system (t : Traced) (events : List Event) :
    (History.run (Traced.step pton) t events).system =
      History.run (System.step pton) t.system events := by
  induction events generalizing t with
  | nil => rfl
  | cons e events ih => exact ih (t.step pton e)

theorem Call.stores_eq_some {c : Call} {key d : Bytes} :
    c.stores = some (key, d) ↔
      c.datagram = some d ∧ ∃ query answer lifetime, c.phase = .keepWire query answer lifetime ∧
        wireKey query = key := by
  rw [Call.stores]
  cases hdatagram : c.datagram with
  | none => simp
  | some d' => cases hphase : c.phase <;> simp [and_comm]

/-- A message came in during the run and asks what the key says. -/
def Source (events : List Event) (key d : Bytes) : Prop :=
  d ∈ datagrams events ∧
    ∃ query, parseQuery (memory d) d.length = (query, true) ∧ wireKey query = key

theorem mem_datagrams_concat {events : List Event} {d : Bytes} (h : d ∈ datagrams events)
    (e : Event) : d ∈ datagrams (events ++ [e]) := by
  rw [datagrams, List.filterMap_append]
  exact List.mem_append_left _ h

theorem Source.concat {events : List Event} {key d : Bytes} (h : Source events key d)
    (e : Event) : Source (events ++ [e]) key d :=
  ⟨mem_datagrams_concat h.1 e, h.2⟩

/-- What is known of the messages behind calls and entries after a run. -/
structure Traced.Sound (events : List Event) (t : Traced) : Prop where
  system : t.system.Sound
  calls : ∀ c ∈ t.system.calls, ∀ d, c.datagram = some d → d ∈ datagrams events
  entries : ∀ key e, t.system.resolver.wireCache.lookup key = some e →
    Source events key (t.fetchedWith key)

/-- What a step stores was fetched with a message of the run. -/
theorem Traced.Sound.source_of_stores {events : List Event} {t : Traced} (h : t.Sound events)
    {e : Event} {key d : Bytes} (hstores : t.system.stores e = some (key, d)) :
    Source events key d := by
  cases e with
  | act index input =>
      obtain ⟨c, hc, hstores⟩ := Option.bind_eq_some_iff.1 hstores
      obtain ⟨hdatagram, query, answer, lifetime, hphase, hkey⟩ := Call.stores_eq_some.1 hstores
      have hsound := h.system.calls index c hc
      rw [hphase] at hsound
      obtain ⟨⟨d', hd', hparse⟩, -⟩ := hsound
      rw [hdatagram] at hd'
      cases hd'
      exact ⟨h.calls c (List.mem_of_getElem? hc) d hdatagram, query, hparse, hkey⟩
  | buildReply datagram deadlineMs => cases hstores
  | resolve host deadlineMs => cases hstores
  | clearCache => cases hstores

/-- An entry after a step was there before, or the step stores it. -/
theorem Traced.Sound.entry_step {events : List Event} {t : Traced} (h : t.Sound events) {e : Event}
    {key : Bytes} {entry : WireEntry}
    (hentry : (t.step pton e).system.resolver.wireCache.lookup key = some entry) :
    t.system.resolver.wireCache.lookup key = some entry ∨
      ∃ d, t.system.stores e = some (key, d) := by
  have hentry : (t.system.step pton e).resolver.wireCache.lookup key = some entry := hentry
  rcases t.system.resolver_step pton e with hsame | hcleared | ⟨index, input, c, rfl, hc, hstep⟩
  · rw [hsame] at hentry
    exact Or.inl hentry
  · rw [hcleared] at hentry
    cases hentry
  · rw [hstep] at hentry
    rcases step_wireCache hentry with hold | ⟨query, lifetime, hphase, hkey, -⟩
    · exact Or.inl hold
    · have hsound := h.system.calls index c hc
      rw [hphase] at hsound
      obtain ⟨⟨d, hdatagram, -⟩, -⟩ := hsound
      refine Or.inr ⟨d, Option.bind_eq_some_iff.2 ⟨c, hc, ?_⟩⟩
      exact Call.stores_eq_some.2 ⟨hdatagram, query, _, lifetime, hphase, hkey⟩

theorem Traced.Sound.step {events : List Event} {t : Traced} (h : t.Sound events) (e : Event) :
    (t.step pton e).Sound (events ++ [e]) := by
  refine ⟨h.system.step pton e, ?_, ?_⟩
  · refine System.forall_calls_step pton
      (fun c hc d hd => mem_datagrams_concat (h.calls c hc d hd) e) ?_ ?_ ?_
    · intro datagram deadlineMs he d hd
      cases hd
      rw [he, datagrams, List.filterMap_append]
      exact List.mem_append_right _ (by simp)
    · intro host deadlineMs d hd
      cases hd
    · intro index input c he hc d hd
      exact mem_datagrams_concat (h.calls c (List.mem_of_getElem? hc) d hd) e
  · intro key entry hentry
    have hold := h.entry_step pton hentry
    rw [Traced.step]
    dsimp only
    cases hstores : t.system.stores e with
    | none =>
        rw [hstores] at hold
        rcases hold with hold | ⟨d, hd⟩
        · exact (h.entries key entry hold).concat e
        · cases hd
    | some stored =>
        obtain ⟨key', d⟩ := stored
        rw [Option.elim_some]
        dsimp only
        by_cases hkey : key = key'
        · subst hkey
          rw [Function.update_self]
          exact (h.source_of_stores hstores).concat e
        · rw [Function.update_of_ne hkey]
          rcases hold with hold | ⟨d', hd'⟩
          · exact (h.entries key entry hold).concat e
          · rw [hstores] at hd'
            cases hd'
            exact absurd rfl hkey

theorem traced_sound (workerHost : Bytes) (bootstrap : Option Result) (start : ℕ)
    (events : List Event) :
    (History.run (Traced.step pton) ⟨⟨Resolver.start pton workerHost bootstrap start, []⟩,
      fun _ => []⟩ events).Sound events := by
  refine History.run_invariant (Traced.step pton) _ (fun events t => t.Sound events) ?_
    (fun _ _ e h => h.step pton e) events
  refine ⟨system_sound pton workerHost bootstrap start [], by simp, ?_⟩
  intro key e he
  have hnone : (Resolver.start pton workerHost bootstrap start).wireCache.lookup key = some e := he
  rw [(start_wireCache pton workerHost bootstrap start).1] at hnone
  cases hnone

/-- In a run in which messages with the same question agree in the CD bit, a reply from
the wire cache was fetched with the bit of the query that it answers. -/
theorem wireHit_same_validation (workerHost : Bytes) (bootstrap : Option Result) (start : ℕ)
    (events : List Event) (hmode : OneMode (datagrams events)) (i now : ℕ) (c : Call)
    (datagram : Bytes) (query : Query) (answer : Bytes) :
    let t := History.run (Traced.step pton)
      ⟨⟨Resolver.start pton workerHost bootstrap start, []⟩, fun _ => []⟩ events
    t.system.calls[i]? = some c → c.datagram = some datagram → c.phase = .relay query →
      t.system.resolver.wireHit query now = some answer →
        checkingDisabled (t.fetchedWith (wireKey query)) = checkingDisabled datagram := by
  intro t hc hdatagram hphase hhit
  have hsound : t.Sound events := traced_sound pton workerHost bootstrap start events
  obtain ⟨e, he, -⟩ := wireHit_entry hhit
  obtain ⟨hmem, earlier, hparse, hkey⟩ := hsound.entries _ e he
  have hcall := hsound.system.calls i c hc
  rw [hphase] at hcall
  obtain ⟨d, hd, hparse'⟩ := hcall
  rw [hdatagram] at hd
  cases hd
  exact hmode _ hmem _ (hsound.calls c (List.mem_of_getElem? hc) _ hdatagram) _ _ hparse hparse'
    (wireKey_inj hkey)

end

/-- The sample system with nothing traced yet. -/
def sampleTraced : Traced :=
  ⟨⟨Resolver.start noLiterals [119] (some { v4 := [[49]] }) 0, []⟩, fun _ => []⟩

/-- The same query twice, with the second reply from the cache. -/
theorem wireHit_same_validation_sample :
    checkingDisabled ((History.run (Traced.step noLiterals) sampleTraced
      repeatedEvents).fetchedWith (wireKey sampleQuery)) = false := by
  have hmode : OneMode (datagrams repeatedEvents) := by
    intro d hd d' hd' query query' _ _ _
    have hall : ∀ d ∈ datagrams repeatedEvents, d = sampleDatagram := by decide
    rw [hall d hd, hall d' hd']
  have hsystem : (History.run (Traced.step noLiterals) sampleTraced repeatedEvents).system =
      History.run (System.step noLiterals)
        ⟨Resolver.start noLiterals [119] (some { v4 := [[49]] }) 0, []⟩ repeatedEvents :=
    traced_system noLiterals sampleTraced repeatedEvents
  have hrelay := repeatedEvents_relay
  have hhit := repeatedEvents_wireHit
  rw [← hsystem] at hrelay hhit
  have hsame := wireHit_same_validation noLiterals [119] (some { v4 := [[49]] }) 0 repeatedEvents
    hmode 1 2000 ⟨some sampleDatagram, 0, .relay sampleQuery⟩ sampleDatagram sampleQuery
    (setId sampleBody 4660) hrelay rfl rfl hhit
  have hclear : checkingDisabled sampleDatagram = false := by decide
  rw [hclear] at hsame
  exact hsame

/-- The sample query with the CD bit. -/
def uncheckedDatagram : Bytes := [18, 52, 1, 16, 0, 1, 0, 0, 0, 0, 0, 0, 1, 97, 0, 0, 16, 0, 1]

/-- It is relayed and its answer is kept; then the query without the bit arrives. -/
def mixedEvents : List Event :=
  [.buildReply uncheckedDatagram 0, .act 0 {}, .act 0 {}, .act 0 {},
    .act 0 { response := some { status := 200, body := sampleBody } }, .act 0 {},
    .buildReply sampleDatagram 0]

/-- The answer that was fetched without validation is served to the query that asks for
it. -/
theorem unchecked_answer_served :
    let t := History.run (Traced.step noLiterals) sampleTraced mixedEvents
    (t.system.calls[1]?.bind Call.datagram) = some sampleDatagram ∧
      (t.system.resolver.wireHit sampleQuery 2000).isSome ∧
      t.fetchedWith (wireKey sampleQuery) = uncheckedDatagram ∧
      checkingDisabled uncheckedDatagram = true ∧ checkingDisabled sampleDatagram = false ∧
      (((t.step noLiterals (.act 1 { nowMs := 2000 })).system.calls[1]?).map fun c =>
        decide (c.phase.remaining = 0)) = some true := by
  decide +kernel

end Dns

end SplitHello
