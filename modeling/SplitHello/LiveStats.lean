import Mathlib.Data.BitVec
import SplitHello.Diagnosis
import SplitHello.Library.Deferred

/-!
# The counters of live flows

The engine publishes a few counters in a mapping that the tray reads. A `Flow` belongs to one
connection and keeps the counters right by single atomic increments and decrements, which mix
with those of other flows.
-/

namespace SplitHello

namespace LiveStats

open ByteString KeyedTable Deferred History

def maxProfiles : ℕ := 16

/-- The counters of the mapping. Each is a 32-bit `LONG`. -/
inductive Counter
  | activeFlows
  | openedFlows
  | decisions
  | successfulDecisions
  | bypassedDecisions
  | unresolvedDecisions
  | lastDecisionAt
  | activeProfiles (slot : ℕ)
  | profileDecisions (slot : ℕ)
  deriving DecidableEq, Repr

abbrev SharedState := Counter → BitVec 32

/-- A single atomic access. -/
inductive Access
  | increment (counter : Counter)
  | decrement (counter : Counter)
  /-- The exchange of `lastDecisionAt`. -/
  | exchange (unixSeconds : BitVec 32)
  deriving DecidableEq, Repr

def apply (shared : SharedState) : Access → SharedState
  | .increment counter => Function.update shared counter (shared counter + 1)
  | .decrement counter => Function.update shared counter (shared counter - 1)
  | .exchange unixSeconds => Function.update shared .lastDecisionAt unixSeconds

namespace Publisher

/-- The place of a profile in the table, or -1. -/
def profileSlot (profile : Bytes) : ℤ :=
  match (Strategy.profileTable.take maxProfiles).findIdx? fun row => row.name = profile with
  | some index => index
  | none => -1

/-- The accesses to a counter of a slot, if there is such a slot. -/
def atSlot (slot : ℤ) (access : ℕ → Access) : List Access :=
  if 0 ≤ slot ∧ slot < maxProfiles then [access slot.toNat] else []

def flowOpened (available : Bool) : List Access :=
  if available then [.increment .activeFlows, .increment .openedFlows] else []

def flowProfileChanged (available : Bool) (previousSlot nextSlot : ℤ) : List Access :=
  if available = false ∨ previousSlot = nextSlot then []
  else
    atSlot previousSlot (fun slot => .decrement (.activeProfiles slot)) ++
      atSlot nextSlot (fun slot => .increment (.activeProfiles slot))

def flowDecision (available : Bool) (profileSlot : ℤ) (success bypassed : Bool)
    (unixSeconds : BitVec 32) : List Access :=
  if available then
    .increment .decisions ::
      (if success then
        .increment .successfulDecisions ::
          atSlot profileSlot (fun slot => .increment (.profileDecisions slot))
      else [.increment .unresolvedDecisions]) ++
      (if bypassed then [.increment .bypassedDecisions] else []) ++
      [.exchange unixSeconds]
  else []

def flowClosed (available : Bool) (profileSlot : ℤ) : List Access :=
  if available then
    atSlot profileSlot (fun slot => .decrement (.activeProfiles slot)) ++
      [.decrement .activeFlows]
  else []

end Publisher

open Publisher

/-- `publisher` says whether the flow has one. -/
structure Flow where
  publisher : Bool := false
  profileSlot : ℤ := -1
  decided : Bool := false
  deriving DecidableEq, Repr

inductive FlowOp
  | begin (publisher : Bool)
  | setProfile (profile : Bytes)
  | decision (success bypassed : Bool) (unixSeconds : BitVec 32)
  | finish
  | destroy
  deriving DecidableEq, Repr

namespace Flow

variable (available : Bool)

def finish (flow : Flow) : Flow × List Access :=
  ({}, if flow.publisher then flowClosed available flow.profileSlot else [])

def begin (flow : Flow) (publisher : Bool) : Flow × List Access :=
  let (flow, closed) := flow.finish available
  ({ flow with publisher }, closed ++ if publisher then flowOpened available else [])

def setProfile (flow : Flow) (profile : Bytes) : Flow × List Access :=
  if flow.publisher = false then (flow, [])
  else
    let nextSlot := Publisher.profileSlot profile
    ({ flow with profileSlot := nextSlot },
      flowProfileChanged available flow.profileSlot nextSlot)

def decision (flow : Flow) (success bypassed : Bool) (unixSeconds : BitVec 32) :
    Flow × List Access :=
  if flow.publisher = false ∨ flow.decided then (flow, [])
  else
    ({ flow with decided := true },
      flowDecision available flow.profileSlot success bypassed unixSeconds)

def call (flow : Flow) : FlowOp → Flow × List Access
  | .begin publisher => flow.begin available publisher
  | .setProfile profile => flow.setProfile available profile
  | .decision success bypassed unixSeconds =>
      flow.decision available success bypassed unixSeconds
  | .finish => flow.finish available
  | .destroy => flow.finish available

end Flow

/-- What `recordTelemetry` does with the flow of its connection. -/
def recordTelemetry (verdict : Diagnosis.Verdict) (success : Bool) (unixSeconds : BitVec 32) :
    List FlowOp :=
  (match success, verdict.winningProfile with
    | true, some profile => [.setProfile profile.name]
    | _, _ => []) ++
  [.decision success (success && verdict.kind = .sniInterferenceLikely) unixSeconds]

/-- The flows of one publisher. A mapping that could not be created has no counters. -/
def rules (available : Bool) : Rules SharedState Flow Access FlowOp where
  initial := {}
  call := Flow.call available
  apply := apply

/-- The mapping after `ZeroMemory`. -/
def zeroed : State ℕ SharedState Flow Access FlowOp := { shared := fun _ => 0 }

/-! ## The gauges -/

/-- What an access adds to a counter that is only counted up and down. -/
def change (counter : Counter) : Access → BitVec 32
  | .increment c => if c = counter then 1 else 0
  | .decrement c => if c = counter then -1 else 0
  | .exchange _ => 0

theorem apply_counter (shared : SharedState) (access : Access) {counter : Counter}
    (hcounter : counter ≠ .lastDecisionAt) :
    apply shared access counter = shared counter + change counter access := by
  cases access with
  | increment c =>
      rw [apply, change, Function.update_apply]
      by_cases heq : counter = c
      · rw [if_pos heq, if_pos heq.symm, heq]
      · rw [if_neg heq, if_neg (Ne.symm heq), add_zero]
  | decrement c =>
      rw [apply, change, Function.update_apply]
      by_cases heq : counter = c
      · rw [if_pos heq, if_pos heq.symm, heq, sub_eq_add_neg]
      · rw [if_neg heq, if_neg (Ne.symm heq), add_zero]
  | exchange unixSeconds => rw [apply, change, Function.update_of_ne hcounter, add_zero]

/-- The accesses to one slot change nothing but a counter of that slot. -/
theorem sum_atSlot (effect : Access → BitVec 32) (slot : ℤ) (access : ℕ → Access) :
    sum effect (atSlot slot access) =
      if 0 ≤ slot ∧ slot < maxProfiles then effect (access slot.toNat) else 0 := by
  rw [atSlot]
  split
  · rw [sum_cons, sum_nil, add_zero]
  · rfl

/-- What each of the publisher's four functions must add to a gauge in which a flow counts for
`held slot` while it has a publisher. -/
structure Balanced (effect : Access → BitVec 32) (held : ℤ → BitVec 32) : Prop where
  opened : sum effect (flowOpened true) = held (-1)
  changed : ∀ previousSlot nextSlot,
    sum effect (flowProfileChanged true previousSlot nextSlot) = held nextSlot - held previousSlot
  decision : ∀ slot success bypassed unixSeconds,
    sum effect (flowDecision true slot success bypassed unixSeconds) = 0
  closed : ∀ slot, sum effect (flowClosed true slot) = -held slot

def part (held : ℤ → BitVec 32) (flow : Flow) : BitVec 32 :=
  if flow.publisher then held flow.profileSlot else 0

namespace Balanced

variable {effect : Access → BitVec 32} {held : ℤ → BitVec 32}

theorem part_finish (h : Balanced effect held) (flow : Flow) :
    part held (flow.finish true).1 = part held flow + sum effect (flow.finish true).2 := by
  rw [Flow.finish, part, part]
  cases flow.publisher with
  | false => rfl
  | true =>
      rw [if_pos rfl, if_pos rfl, h.closed, add_neg_cancel]
      rfl

/-- Every operation issues the accesses by which its flow's part changes. -/
theorem part_call (h : Balanced effect held) (flow : Flow) (op : FlowOp) :
    part held (flow.call true op).1 = part held flow + sum effect (flow.call true op).2 := by
  cases op with
  | begin publisher =>
      have hfinish := h.part_finish flow
      have hnone : part held (flow.finish true).1 = 0 := rfl
      rw [hnone] at hfinish
      rw [Flow.call, Flow.begin, sum_append, ← add_assoc, ← hfinish, zero_add]
      cases publisher with
      | false => rfl
      | true => exact h.opened.symm
  | setProfile profile =>
      rw [Flow.call, Flow.setProfile]
      split
      · rw [sum_nil, add_zero]
      · rename_i hpublisher
        have htrue : flow.publisher = true := by simpa using hpublisher
        simp only [part, htrue, if_pos]
        rw [h.changed, add_sub_cancel]
  | decision success bypassed unixSeconds =>
      rw [Flow.call, Flow.decision]
      split
      · rw [sum_nil, add_zero]
      · rw [h.decision, add_zero]
        rfl
  | finish => exact h.part_finish flow
  | destroy => exact h.part_finish flow

end Balanced

/-- A decision touches no gauge of flows. -/
theorem change_flowDecision {counter : Counter}
    (hcounter : counter = .activeFlows ∨ ∃ slot, counter = .activeProfiles slot) (slot : ℤ)
    (success bypassed : Bool) (unixSeconds : BitVec 32) :
    sum (change counter) (flowDecision true slot success bypassed unixSeconds) = 0 := by
  refine sum_eq_zero fun access haccess => ?_
  have hkept : access = .increment .decisions ∨ access = .increment .successfulDecisions ∨
      access = .increment .unresolvedDecisions ∨ access = .increment .bypassedDecisions ∨
      (∃ slot, access = .increment (.profileDecisions slot)) ∨ access = .exchange unixSeconds := by
    rw [flowDecision, if_pos rfl] at haccess
    cases success <;> cases bypassed <;> simp [atSlot] at haccess <;> grind
  rcases hcounter with rfl | ⟨slot, rfl⟩ <;>
    rcases hkept with rfl | rfl | rfl | rfl | ⟨slot, rfl⟩ | rfl <;> rfl

theorem activeFlows_balanced : Balanced (change .activeFlows) fun _ => 1 := by
  refine ⟨rfl, fun previousSlot nextSlot => ?_, change_flowDecision (Or.inl rfl), fun slot => ?_⟩
  · rw [flowProfileChanged, sub_self]
    split
    · rfl
    · rw [sum_append, sum_atSlot, sum_atSlot]
      simp [change]
  · rw [flowClosed, if_pos rfl, sum_append, sum_atSlot]
    simp [change]

theorem activeProfiles_balanced {slot : ℕ} (hslot : slot < maxProfiles) :
    Balanced (change (.activeProfiles slot)) fun current => if current = slot then 1 else 0 := by
  -- The guards around an access to a slot let everything through that concerns `slot`.
  have hat (current : ℤ) (access : ℕ → Access) (delta : BitVec 32)
      (haccess : ∀ n, change (.activeProfiles slot) (access n) = if n = slot then delta else 0) :
      sum (change (.activeProfiles slot)) (atSlot current access) =
        if current = slot then delta else 0 := by
    rw [sum_atSlot, haccess]
    by_cases heq : current = slot
    · subst heq
      simp [hslot]
    · rw [if_neg heq]
      split
      · rename_i hvalid
        rw [if_neg]
        omega
      · rfl
  have hdecrement (current : ℤ) := hat current (fun n => .decrement (.activeProfiles n)) (-1)
    fun n => by simp [change]
  have hincrement (current : ℤ) := hat current (fun n => .increment (.activeProfiles n)) 1
    fun n => by simp [change]
  refine ⟨?_, fun previousSlot nextSlot => ?_, change_flowDecision (Or.inr ⟨slot, rfl⟩),
    fun current => ?_⟩
  · rw [if_neg (by omega)]
    rfl
  · rw [flowProfileChanged]
    split
    · rename_i hsame
      rw [hsame.resolve_left (by simp), sub_self, sum_nil]
    · rw [sum_append, hdecrement, hincrement]
      split <;> split <;> simp
  · have hflows : sum (change (.activeProfiles slot)) [.decrement .activeFlows] = 0 := by
      simp [change]
    rw [flowClosed, if_pos rfl, sum_append, hdecrement, hflows, add_zero]
    split <;> simp

/-- The decisions that are neither counted as successful nor as unresolved. -/
def balance (access : Access) : BitVec 32 :=
  change .decisions access - change .successfulDecisions access -
    change .unresolvedDecisions access

theorem balance_balanced : Balanced balance fun _ => 0 := by
  have hat (slot : ℤ) (access : ℕ → Access) (haccess : ∀ n, balance (access n) = 0) :
      sum balance (atSlot slot access) = 0 := by
    rw [sum_atSlot, haccess, ite_self]
  refine ⟨rfl, fun previousSlot nextSlot => ?_, fun slot success bypassed unixSeconds => ?_,
    fun slot => ?_⟩
  · rw [flowProfileChanged, sub_self]
    split
    · rfl
    · rw [sum_append, hat _ _ (by simp [balance, change]), hat _ _ (by simp [balance, change]),
        add_zero]
  · have hprofile := hat slot (fun slot => .increment (.profileDecisions slot))
      (by simp [balance, change])
    rw [flowDecision, if_pos rfl]
    cases success <;> cases bypassed <;> simp [hprofile, balance, change]
  · rw [flowClosed, if_pos rfl, sum_append, hat _ _ (by simp [balance, change])]
    simp [balance, change]

theorem value_balance (shared : SharedState) (access : Access) :
    apply shared access .decisions - apply shared access .successfulDecisions -
        apply shared access .unresolvedDecisions =
      shared .decisions - shared .successfulDecisions - shared .unresolvedDecisions +
        balance access := by
  rw [apply_counter _ _ (by simp), apply_counter _ _ (by simp), apply_counter _ _ (by simp),
    balance]
  abel

theorem apply_activeFlows (shared : SharedState) (access : Access) :
    apply shared access .activeFlows = shared .activeFlows + change .activeFlows access :=
  apply_counter shared access (by simp)

theorem apply_activeProfiles (slot : ℕ) (shared : SharedState) (access : Access) :
    apply shared access (.activeProfiles slot) =
      shared (.activeProfiles slot) + change (.activeProfiles slot) access :=
  apply_counter shared access (by simp)

/-- The flows that have begun and are not finished. -/
def activeFlows : Gauge (rules true) (BitVec 32) where
  value shared := shared .activeFlows
  effect := change .activeFlows
  part := part fun _ => 1
  value_apply := apply_activeFlows
  part_initial := rfl
  part_call := activeFlows_balanced.part_call

/-- Those of them whose profile is that of the slot. -/
def activeProfiles (slot : ℕ) (hslot : slot < maxProfiles) : Gauge (rules true) (BitVec 32) where
  value shared := shared (.activeProfiles slot)
  effect := change (.activeProfiles slot)
  part := part fun current => if current = slot then 1 else 0
  value_apply := apply_activeProfiles slot
  part_initial := rfl
  part_call := (activeProfiles_balanced hslot).part_call

def decisionBalance : Gauge (rules true) (BitVec 32) where
  value shared :=
    shared .decisions - shared .successfulDecisions - shared .unresolvedDecisions
  effect := balance
  part := part fun _ => 0
  value_apply := value_balance
  part_initial := rfl
  part_call := balance_balanced.part_call

/-! ## Decisions -/

/-- A call of the flow `id` with which a decision is counted. -/
def Decides (id : ℕ) (entry : ℕ × FlowOp × List Access) : Prop :=
  entry.1 = id ∧ .increment .decisions ∈ entry.2.2

/-- A call of the flow `id` with which its period ends. -/
def Ends (id : ℕ) (entry : ℕ × FlowOp × List Access) : Prop :=
  entry.1 = id ∧ ((∃ publisher, entry.2.1 = .begin publisher) ∨ entry.2.1 = .finish ∨
    entry.2.1 = .destroy)

theorem notMem_atSlot {access : ℕ → Access} {a : Access} (hne : ∀ n, access n ≠ a) (slot : ℤ) :
    a ∉ atSlot slot access := by
  rw [atSlot]
  split
  · rw [List.mem_singleton]
    exact (hne _).symm
  · exact List.not_mem_nil

/-- Only `decision` counts a decision, and it sets the mark that keeps it from counting
another. -/
theorem call_cases (available : Bool) (flow : Flow) (op : FlowOp) :
    (.increment .decisions ∈ (flow.call available op).2 →
        flow.decided = false ∧ (flow.call available op).1.decided = true) ∧
      ((flow.call available op).1.decided = flow.decided ∨
        (flow.call available op).1.decided = true ∨
        ((∃ publisher, op = .begin publisher) ∨ op = .finish ∨ op = .destroy)) := by
  have hclosed (slot : ℤ) : .increment .decisions ∉ flowClosed available slot := by
    rw [flowClosed]
    split
    · have hslot : .increment .decisions ∉
          atSlot slot fun slot => .decrement (.activeProfiles slot) :=
        notMem_atSlot (by simp) slot
      simp [hslot]
    · exact List.not_mem_nil
  have hfinish : .increment .decisions ∉ (flow.finish available).2 := by
    rw [Flow.finish]
    dsimp only
    split
    · exact hclosed _
    · exact List.not_mem_nil
  cases op with
  | begin publisher =>
      refine ⟨fun hmem => ?_, Or.inr (Or.inr (Or.inl ⟨publisher, rfl⟩))⟩
      rw [Flow.call, Flow.begin] at hmem
      rcases List.mem_append.1 hmem with hmem | hmem
      · exact absurd hmem hfinish
      · cases publisher <;> cases available <;> simp [flowOpened] at hmem
  | setProfile profile =>
      rw [Flow.call, Flow.setProfile]
      split
      · exact ⟨by simp, Or.inl rfl⟩
      · refine ⟨fun hmem => ?_, Or.inl rfl⟩
        dsimp only [flowProfileChanged] at hmem
        split at hmem
        · cases hmem
        · rcases List.mem_append.1 hmem with hmem | hmem
          · exact absurd hmem (notMem_atSlot (by simp) _)
          · exact absurd hmem (notMem_atSlot (by simp) _)
  | decision success bypassed unixSeconds =>
      rw [Flow.call, Flow.decision]
      split
      · exact ⟨by simp, Or.inl rfl⟩
      · rename_i hopen
        rw [not_or] at hopen
        exact ⟨fun _ => ⟨by simpa using hopen.2, rfl⟩, Or.inr (Or.inl rfl)⟩
  | finish => exact ⟨fun hmem => absurd hmem hfinish, by simp⟩
  | destroy => exact ⟨fun hmem => absurd hmem hfinish, by simp⟩

/-- Between two decisions of a flow its period has ended. -/
theorem one_decision (available : Bool) (id : ℕ) (events : List (Event ℕ FlowOp)) :
    Before (Decides id) (fun before => ¬ Since (Decides id) (Ends id) before)
      (run (step (rules available)) zeroed events).issued := by
  have hinv := client_invariant (rules available) id
    (fun issued flow => (Since (Decides id) (Ends id) issued → flow.decided = true) ∧
      Before (Decides id) (fun before => ¬ Since (Decides id) (Ends id) before) issued)
    ?_ ?_ ?_ (fun _ => 0) events
  · exact hinv.2
  · refine ⟨?_, Before.nil _ _⟩
    rintro ⟨before, entry, after, heq, -⟩
    cases before <;> cases heq
  · rintro issued flow other op accesses hne ⟨hdecided, hbefore⟩
    refine ⟨fun hsince => ?_, hbefore.concat fun hother => absurd hother.1 hne⟩
    rcases since_concat_iff.1 hsince with hother | ⟨hsince, -⟩
    · exact absurd hother.1 hne
    · exact hdecided hsince
  · rintro issued flow op ⟨hdecided, hbefore⟩
    obtain ⟨hcounts, hmark⟩ := call_cases available flow op
    refine ⟨fun hsince => ?_, hbefore.concat fun hdecides hsince => ?_⟩
    · rcases since_concat_iff.1 hsince with hdecides | ⟨hsince, hends⟩
      · exact (hcounts hdecides.2).2
      · rcases hmark with hsame | htrue | hop
        · exact hsame.trans (hdecided hsince)
        · exact htrue
        · exact absurd ⟨rfl, hop⟩ hends
    · have hfalse := (hcounts hdecides.2).1
      rw [hdecided hsince] at hfalse
      cases hfalse

def begun (client : Client Flow Access) : Bool := client.state.publisher

def usesSlot (slot : ℕ) (client : Client Flow Access) : Bool :=
  client.state.publisher && client.state.profileSlot = slot

/-- Whatever the order in which the accesses of the flows take effect: whenever none is under
way, the gauges count the flows that have begun and not finished, in all and by profile, and
the decisions are those that were successful and those that were not. A flow counts no second
decision before it ends or begins again. -/
theorem counters_consistent (events : List (Event ℕ FlowOp)) :
    let s := run (step (rules true)) zeroed events
    (s.Quiescent →
        s.shared .activeFlows = .ofNat 32 (count begun s.clients) ∧
        (∀ slot < maxProfiles,
          s.shared (.activeProfiles slot) = .ofNat 32 (count (usesSlot slot) s.clients)) ∧
        s.shared .decisions = s.shared .successfulDecisions + s.shared .unresolvedDecisions ∧
        ((∀ id client, s.clients.lookup id = some client → begun client = false) →
          s.shared .activeFlows = 0 ∧
            ∀ slot < maxProfiles, s.shared (.activeProfiles slot) = 0)) ∧
      ∀ id, Before (Decides id) (fun before => ¬ Since (Decides id) (Ends id) before) s.issued := by
  intro s
  refine ⟨fun hquiescent => ?_, fun id => one_decision true id events⟩
  have hactive : s.shared .activeFlows = .ofNat 32 (count begun s.clients) := by
    have hshows : activeFlows.Shows s := activeFlows.shows_run (activeFlows.shows_start rfl) events
    exact (activeFlows.value_of_quiescent hshows hquiescent).trans (total_eq_count begun _)
  have hprofiles (slot : ℕ) (hslot : slot < maxProfiles) :
      s.shared (.activeProfiles slot) = .ofNat 32 (count (usesSlot slot) s.clients) := by
    let gauge := activeProfiles slot hslot
    have hshows : gauge.Shows s := gauge.shows_run (gauge.shows_start rfl) events
    refine (gauge.value_of_quiescent hshows hquiescent).trans ?_
    refine Eq.trans (total_congr fun e he => ?_) (total_eq_count (usesSlot slot) _)
    change part (fun current => if current = slot then 1 else 0) e.2.state = _
    rw [part, usesSlot]
    cases e.2.state.publisher <;> simp
  have hbalance : s.shared .decisions - s.shared .successfulDecisions -
      s.shared .unresolvedDecisions = 0 := by
    have hshows : decisionBalance.Shows s :=
      decisionBalance.shows_run (decisionBalance.shows_start rfl) events
    refine (decisionBalance.value_of_quiescent hshows hquiescent).trans ?_
    exact sum_eq_zero fun e _ => ite_self _
  refine ⟨hactive, hprofiles, ?_, fun hfinished => ⟨?_, fun slot hslot => ?_⟩⟩
  · rw [sub_sub, sub_eq_zero] at hbalance
    exact hbalance
  · rw [hactive, count_eq_zero hfinished]
    rfl
  · rw [hprofiles slot hslot, count_eq_zero fun id client hlookup => ?_]
    · rfl
    · have hbegun : client.state.publisher = false := hfinished id client hlookup
      rw [usesSlot, hbegun, Bool.false_and]

/-- Two flows begin at once; one of them gets through by `sni-mid`, the other is destroyed. -/
def sampleRun : List (Event ℕ FlowOp) :=
  [.call 1 (.begin true), .call 2 (.begin true), .advance 1, .advance 2, .advance 2, .advance 1] ++
  (recordTelemetry { kind := .sniInterferenceLikely, winningProfile := some .sniMid } true
    1000).flatMap (fun op => .call 1 op :: List.replicate 5 (.advance 1)) ++
  [.call 2 .destroy, .advance 2]

theorem counters_consistent_sample :
    (run (step (rules true)) zeroed sampleRun).shared .activeFlows = 1 ∧
      (run (step (rules true)) zeroed sampleRun).shared (.activeProfiles 1) = 1 := by
  have hquiescent : (run (step (rules true)) zeroed sampleRun).Quiescent :=
    quiescent_of_all (by decide +kernel)
  obtain ⟨hactive, hprofiles, -, -⟩ := (counters_consistent sampleRun).1 hquiescent
  refine ⟨hactive.trans ?_, (hprofiles 1 (by decide)).trans ?_⟩
  · decide +kernel
  · decide +kernel

end LiveStats

end SplitHello
