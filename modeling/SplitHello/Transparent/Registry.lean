import SplitHello.Json.Written
import SplitHello.Library.History
import SplitHello.Transparent.FlowTable

/-!
# What the transparent listeners may accept

A listener of the relay serves a peer only if the packet loop has just seen the same
address and port on the wire. `FlowRegistry` remembers one connection for each of them,
`DatagramRegistry` counts datagrams. Both are swept once a second at most, so every
lookup and every refresh looks at the expiry itself. The first is described by what lies
between an observation and its claim, the second by an account: an observation earns one
claim, and what was earned is lost with the entry.
-/

namespace SplitHello

namespace Transparent

open ByteString KeyedTable History

def pendingFlowTtlMs : ℕ := 15000
def maxPendingFlows : ℕ := 8192
def maxPendingDatagramsPerTuple : ℕ := 32

/-- Clocks are 64-bit counters. -/
def clockAfter (now ms : ℕ) : ℕ := (now + ms) % 2 ^ 64

def flowKey (address : Bytes) (port : ℕ) : Bytes :=
  address ++ ofString "|" ++ Json.decimal port

theorem flowKey_inj {address address' : Bytes} {port port' : ℕ} :
    flowKey address port = flowKey address' port' ↔ address = address' ∧ port = port' := by
  have hbar : ofString "|" = [124] := by decide
  have htext (address : Bytes) (port : ℕ) :
      flowKey address port = address ++ 124 :: Json.decimal port := by
    simp [flowKey, hbar]
  refine ⟨fun h => ?_, fun h => by rw [h.1, h.2]⟩
  rw [htext, htext] at h
  obtain ⟨haddress, hport⟩ :=
    eq_of_append_cons (Json.notMem_decimal rfl port) (Json.notMem_decimal rfl port') h
  refine ⟨haddress, ?_⟩
  rw [← Json.digitsValue_decimal port, hport, Json.digitsValue_decimal]

/-! ## Connections -/

structure Target where
  address : Bytes
  targetPort : ℕ := 443
  connectPort : ℕ := 0
  deriving DecidableEq, Repr

structure PendingFlow where
  target : Target
  expiresAtMs : ℕ := 0
  deriving DecidableEq, Repr

structure FlowRegistry where
  entries : Table Bytes PendingFlow := ∅
  nextPruneMs : ℕ := 0

/-- A call on the registry of connections. -/
inductive FlowOp
  | observe (serverAddress : Bytes) (clientPort targetPort connectPort : ℕ)
  | claim (peerAddress : Bytes) (peerPort : ℕ)
  | size
  | clear
  deriving DecidableEq, Repr

namespace FlowRegistry

def pruneLocked (r : FlowRegistry) (now : ℕ) : FlowRegistry :=
  { r with entries := eraseIf (fun _ e => e.expiresAtMs ≤ now) r.entries }

def observe (r : FlowRegistry) (serverAddress : Bytes) (clientPort targetPort connectPort now : ℕ)
    (bucket : Bytes → ℕ) : FlowRegistry :=
  if serverAddress = [] ∨ clientPort = 0 ∨ targetPort = 0 ∨ connectPort = 0 then r
  else
    let r :=
      if now ≥ r.nextPruneMs then
        { r.pruneLocked now with nextPruneMs := clockAfter now pruneIntervalMs }
      else r
    let entries := makeRoom maxPendingFlows (fun e => e.expiresAtMs ≤ now)
      PendingFlow.expiresAtMs bucket r.entries
    let fresh : PendingFlow :=
      { target := ⟨serverAddress, targetPort, connectPort⟩
        expiresAtMs := clockAfter now pendingFlowTtlMs }
    { r with entries := entries.insert (flowKey serverAddress clientPort) fresh }

/-- An entry is used up by a claim even if it comes too late. -/
def claim (r : FlowRegistry) (peerAddress : Bytes) (peerPort now : ℕ) :
    FlowRegistry × Option Target :=
  match r.entries.lookup (flowKey peerAddress peerPort) with
  | none => (r, none)
  | some e =>
      ({ r with entries := r.entries.erase (flowKey peerAddress peerPort) },
        if e.expiresAtMs > now then some e.target else none)

def size (r : FlowRegistry) (now : ℕ) : FlowRegistry × ℕ :=
  (r.pruneLocked now, KeyedTable.size (r.pruneLocked now).entries)

def clear (r : FlowRegistry) : FlowRegistry := { r with entries := ∅ }

end FlowRegistry

/-- A call with the time it is made at, and the order a walk over the table takes. -/
structure Timed (Op : Type) where
  op : Op
  now : ℕ
  bucket : Bytes → ℕ := fun _ => 0

def FlowRegistry.step (r : FlowRegistry) (e : Timed FlowOp) : FlowRegistry :=
  match e.op with
  | .observe serverAddress clientPort targetPort connectPort =>
      r.observe serverAddress clientPort targetPort connectPort e.now e.bucket
  | .claim peerAddress peerPort => (r.claim peerAddress peerPort e.now).1
  | .size => (r.size e.now).1
  | .clear => r.clear

/-! ## Datagrams -/

structure PendingDatagrams where
  pending : ℕ := 0
  expiresAtMs : ℕ := 0
  deriving DecidableEq, Repr

structure DatagramRegistry where
  entries : Table Bytes PendingDatagrams := ∅
  nextPruneMs : ℕ := 0

/-- A call on the registry of datagrams. -/
inductive DatagramOp
  | observe (serverAddress : Bytes) (clientPort : ℕ)
  | claim (peerAddress : Bytes) (peerPort : ℕ)
  | size
  | clear
  deriving DecidableEq, Repr

namespace DatagramRegistry

def pruneLocked (r : DatagramRegistry) (now : ℕ) : DatagramRegistry :=
  { r with entries := eraseIf (fun _ e => e.expiresAtMs ≤ now) r.entries }

def observe (r : DatagramRegistry) (serverAddress : Bytes) (clientPort now : ℕ)
    (bucket : Bytes → ℕ) : DatagramRegistry :=
  if serverAddress = [] ∨ clientPort = 0 then r
  else
    let r :=
      if now ≥ r.nextPruneMs then
        { r.pruneLocked now with nextPruneMs := clockAfter now pruneIntervalMs }
      else r
    let key := flowKey serverAddress clientPort
    match r.entries.lookup key with
    | some existing =>
        -- What is left of an expired entry does not count.
        let pending := if existing.expiresAtMs ≤ now then 0 else existing.pending
        let renewed : PendingDatagrams :=
          { pending := min (pending + 1) maxPendingDatagramsPerTuple
            expiresAtMs := clockAfter now pendingFlowTtlMs }
        { r with entries := r.entries.insert key renewed }
    | none =>
        let entries := makeRoom maxPendingFlows (fun e => e.expiresAtMs ≤ now)
          PendingDatagrams.expiresAtMs bucket r.entries
        { r with entries := entries.insert key ⟨1, clockAfter now pendingFlowTtlMs⟩ }

def claim (r : DatagramRegistry) (peerAddress : Bytes) (peerPort now : ℕ) :
    DatagramRegistry × Bool :=
  let key := flowKey peerAddress peerPort
  match r.entries.lookup key with
  | none => (r, false)
  | some e =>
      if e.expiresAtMs ≤ now ∨ e.pending = 0 then
        ({ r with entries := r.entries.erase key }, false)
      else if e.pending - 1 = 0 then ({ r with entries := r.entries.erase key }, true)
      else
        ({ r with entries := r.entries.insert key { e with pending := e.pending - 1 } }, true)

def size (r : DatagramRegistry) (now : ℕ) : DatagramRegistry × ℕ :=
  (r.pruneLocked now, KeyedTable.size (r.pruneLocked now).entries)

def clear (r : DatagramRegistry) : DatagramRegistry := { r with entries := ∅ }

def step (r : DatagramRegistry) (e : Timed DatagramOp) : DatagramRegistry :=
  match e.op with
  | .observe serverAddress clientPort => r.observe serverAddress clientPort e.now e.bucket
  | .claim peerAddress peerPort => (r.claim peerAddress peerPort e.now).1
  | .size => (r.size e.now).1
  | .clear => r.clear

end DatagramRegistry

theorem clockAfter_le (now ms : ℕ) : clockAfter now ms ≤ now + ms := Nat.mod_le _ _

/-! ## What lies between an observation and its claim -/

/-- The call tells the registry of a connection from this peer to the target. -/
structure FlowOp.Observes (op : FlowOp) (address : Bytes) (port : ℕ) (target : Target) : Prop where
  call : op = .observe address port target.targetPort target.connectPort
  address_eq : target.address = address
  address_ne : address ≠ []
  port_ne : port ≠ 0
  targetPort_ne : target.targetPort ≠ 0
  connectPort_ne : target.connectPort ≠ 0

/-- The call makes, uses up or takes back what is known of this peer. -/
def FlowOp.Touches (op : FlowOp) (address : Bytes) (port : ℕ) : Prop :=
  op = .clear ∨ op = .claim address port ∨ ∃ target, op.Observes address port target

namespace FlowRegistry

/-- Every entry stands for the last thing that was seen of its peer. -/
def OnRecord (past : List (Timed FlowOp)) (r : FlowRegistry) : Prop :=
  ∀ key e, r.entries.lookup key = some e → ∃ address port, key = flowKey address port ∧
    Since (fun c => c.op.Observes address port e.target ∧ e.expiresAtMs ≤ c.now + pendingFlowTtlMs)
      (fun c => c.op.Touches address port) past

/-- Calls that leave the peers of the entries alone keep the record. -/
theorem OnRecord.later {past : List (Timed FlowOp)} {r : FlowRegistry} (h : OnRecord past r)
    {c : Timed FlowOp} {key : Bytes} {e : PendingFlow} {entries : Table Bytes PendingFlow}
    (hshrinks : Shrinks entries r.entries) (he : entries.lookup key = some e)
    (hother : ∀ address port, key = flowKey address port → ¬ c.op.Touches address port) :
    ∃ address port, key = flowKey address port ∧
      Since (fun c => c.op.Observes address port e.target ∧
          e.expiresAtMs ≤ c.now + pendingFlowTtlMs)
        (fun c => c.op.Touches address port) (past ++ [c]) := by
  obtain ⟨address, port, hkey, hsince⟩ := h key e (hshrinks key e he)
  exact ⟨address, port, hkey, hsince.later (hother address port hkey)⟩

/-- What `observe` leaves of the other entries. -/
theorem observe_cases (r : FlowRegistry) (serverAddress : Bytes)
    (clientPort targetPort connectPort now : ℕ) (bucket : Bytes → ℕ) :
    (serverAddress = [] ∨ clientPort = 0 ∨ targetPort = 0 ∨ connectPort = 0) ∧
        r.observe serverAddress clientPort targetPort connectPort now bucket = r ∨
      ¬ (serverAddress = [] ∨ clientPort = 0 ∨ targetPort = 0 ∨ connectPort = 0) ∧
        ∃ entries, Shrinks entries r.entries ∧
        (r.observe serverAddress clientPort targetPort connectPort now bucket).entries =
          entries.insert (flowKey serverAddress clientPort)
            ⟨⟨serverAddress, targetPort, connectPort⟩, clockAfter now pendingFlowTtlMs⟩ := by
  rw [observe]
  split
  · exact Or.inl ⟨‹_›, rfl⟩
  · refine Or.inr ⟨‹_›, _, (makeRoom_shrinks _ _ _ _ _).trans ?_, rfl⟩
    split
    · exact eraseIf_shrinks _ _
    · exact Shrinks.refl _

theorem OnRecord.observe {past : List (Timed FlowOp)} {r : FlowRegistry} (h : OnRecord past r)
    (serverAddress : Bytes) (clientPort targetPort connectPort now : ℕ) (bucket : Bytes → ℕ) :
    OnRecord (past ++ [⟨.observe serverAddress clientPort targetPort connectPort, now, bucket⟩])
      (r.observe serverAddress clientPort targetPort connectPort now bucket) := by
  intro key e he
  rcases r.observe_cases serverAddress clientPort targetPort connectPort now bucket with
    ⟨hrefused, hsame⟩ | ⟨haccepted, entries, hshrinks, hentries⟩
  · rw [hsame] at he
    refine h.later (Shrinks.refl _) he ?_
    rintro address port - (hop | hop | ⟨target, hobserves⟩)
    · cases hop
    · cases hop
    · obtain ⟨hcall, -, haddress, hport, htarget, hconnect⟩ := hobserves
      cases hcall
      simp [haddress, hport, htarget, hconnect] at hrefused
  · rw [hentries] at he
    rcases lookup_insert_cases he with ⟨rfl, rfl⟩ | ⟨hne, he⟩
    · simp only [not_or] at haccepted
      obtain ⟨haddress, hport, htarget, hconnect⟩ := haccepted
      exact ⟨serverAddress, clientPort, rfl, Since.here past
        ⟨⟨rfl, rfl, haddress, hport, htarget, hconnect⟩, clockAfter_le _ _⟩⟩
    · refine h.later hshrinks he ?_
      rintro address port rfl (hop | hop | ⟨target, hobserves⟩)
      · cases hop
      · cases hop
      · obtain ⟨hcall, -⟩ := hobserves
        cases hcall
        exact hne rfl

theorem OnRecord.claim {past : List (Timed FlowOp)} {r : FlowRegistry} (h : OnRecord past r)
    (peerAddress : Bytes) (peerPort now : ℕ) (bucket : Bytes → ℕ) :
    OnRecord (past ++ [⟨.claim peerAddress peerPort, now, bucket⟩])
      (r.claim peerAddress peerPort now).1 := by
  have hclaimed : (r.claim peerAddress peerPort now).1.entries =
      r.entries.erase (flowKey peerAddress peerPort) := by
    rw [FlowRegistry.claim]
    split
    · rename_i hnone
      exact (erase_of_lookup_eq_none hnone).symm
    · rfl
  intro key e he
  rw [hclaimed] at he
  obtain ⟨hne, -⟩ := lookup_erase_cases he
  refine h.later (erase_shrinks _ _) he ?_
  rintro address port rfl (hop | hop | ⟨target, hobserves⟩)
  · cases hop
  · cases hop
    exact hne rfl
  · cases hobserves.call

theorem OnRecord.step {past : List (Timed FlowOp)} {r : FlowRegistry} (h : OnRecord past r)
    (c : Timed FlowOp) : OnRecord (past ++ [c]) (r.step c) := by
  obtain ⟨op, now, bucket⟩ := c
  cases op with
  | observe serverAddress clientPort targetPort connectPort =>
      exact h.observe serverAddress clientPort targetPort connectPort now bucket
  | claim peerAddress peerPort => exact h.claim peerAddress peerPort now bucket
  | size =>
      intro key e he
      refine h.later (eraseIf_shrinks _ _) he ?_
      rintro address port - (hop | hop | ⟨target, hobserves⟩)
      · cases hop
      · cases hop
      · cases hobserves.call
  | clear =>
      intro key e he
      cases he

theorem run_onRecord (events : List (Timed FlowOp)) :
    OnRecord events (run FlowRegistry.step {} events) := by
  refine run_invariant _ _ OnRecord ?_ (fun past r c h => h.step c) events
  intro key e he
  cases he

/-- A claim that succeeds was observed just before, and nothing happened to its peer since. -/
theorem claim_observed (events : List (Timed FlowOp)) {peerAddress : Bytes} {peerPort now : ℕ}
    {target : Target}
    (h : ((run FlowRegistry.step {} events).claim peerAddress peerPort now).2 = some target) :
    Since (fun c => c.op.Observes peerAddress peerPort target ∧ now < c.now + pendingFlowTtlMs)
      (fun c => c.op.Touches peerAddress peerPort) events := by
  rw [FlowRegistry.claim] at h
  split at h
  · cases h
  · rename_i e he
    obtain ⟨hlive, htarget⟩ := Option.ite_none_right_eq_some.1 h
    cases htarget
    obtain ⟨address, port, hkey, hsince⟩ := run_onRecord events _ e he
    obtain ⟨rfl, rfl⟩ := flowKey_inj.1 hkey
    refine hsince.mono (fun c hc => ⟨hc.1, ?_⟩) (fun _ => id)
    exact hlive.trans_le hc.2

end FlowRegistry

/-! ## What was earned and what was spent -/

/-- The call tells the registry of a datagram from this peer. -/
def DatagramOp.Observes (op : DatagramOp) (address : Bytes) (port : ℕ) : Prop :=
  op = .observe address port ∧ address ≠ [] ∧ port ≠ 0

instance (op : DatagramOp) (address : Bytes) (port : ℕ) : Decidable (op.Observes address port) :=
  inferInstanceAs (Decidable (_ ∧ _ ∧ _))

namespace DatagramRegistry

/-- How many datagrams of a peer may still be accepted at this time. -/
def credit (r : DatagramRegistry) (key : Bytes) (now : ℕ) : ℕ :=
  match r.entries.lookup key with
  | none => 0
  | some e => if e.expiresAtMs ≤ now then 0 else e.pending

/-- The claims of a peer that succeed in a run. -/
def granted (address : Bytes) (port : ℕ) (r : DatagramRegistry) :
    List (Timed DatagramOp) → ℕ
  | [] => 0
  | c :: events =>
      (if c.op = .claim address port ∧ (r.claim address port c.now).2 = true then 1 else 0) +
        granted address port (r.step c) events

/-- How often a peer is observed. -/
def observed (address : Bytes) (port : ℕ) (events : List (Timed DatagramOp)) : ℕ :=
  events.countP fun c => c.op.Observes address port

theorem credit_mono (r : DatagramRegistry) (key : Bytes) {t now : ℕ} (h : t ≤ now) :
    r.credit key now ≤ r.credit key t := by
  rw [credit, credit]
  split
  · exact le_refl _
  · split
    · exact Nat.zero_le _
    · rw [if_neg (by omega)]

/-- Credit is lost with the entry. -/
theorem credit_le_of_shrinks {r r' : DatagramRegistry} (h : Shrinks r'.entries r.entries)
    (key : Bytes) (now : ℕ) : r'.credit key now ≤ r.credit key now := by
  rw [credit, credit]
  split
  · exact Nat.zero_le _
  · rename_i e he
    rw [h key e he]

theorem credit_eq_of_lookup {r r' : DatagramRegistry} {key : Bytes} (now : ℕ)
    (h : r'.entries.lookup key = r.entries.lookup key) : r'.credit key now = r.credit key now := by
  rw [credit, credit, h]

theorem credit_insert (r : DatagramRegistry) (key : Bytes) (e : PendingDatagrams) (now : ℕ) :
    credit { r with entries := r.entries.insert key e } key now =
      if e.expiresAtMs ≤ now then 0 else e.pending := by
  rw [credit, AList.lookup_insert]

theorem credit_erase (r : DatagramRegistry) (key : Bytes) (now : ℕ) :
    credit { r with entries := r.entries.erase key } key now = 0 := by
  rw [credit, AList.lookup_erase]

/-- What `observe` makes of a registry: an entry with one more datagram, and less or the
same of the others. -/
theorem observe_cases (r : DatagramRegistry) (serverAddress : Bytes) (clientPort now : ℕ)
    (bucket : Bytes → ℕ) :
    (serverAddress = [] ∨ clientPort = 0) ∧ r.observe serverAddress clientPort now bucket = r ∨
      ¬ (serverAddress = [] ∨ clientPort = 0) ∧ ∃ entries pending, Shrinks entries r.entries ∧
        pending ≤ r.credit (flowKey serverAddress clientPort) now + 1 ∧
        1 ≤ pending ∧ pending ≤ maxPendingDatagramsPerTuple ∧
        (r.observe serverAddress clientPort now bucket).entries =
          entries.insert (flowKey serverAddress clientPort)
            ⟨pending, clockAfter now pendingFlowTtlMs⟩ := by
  rw [observe]
  split
  · exact Or.inl ⟨‹_›, rfl⟩
  · refine Or.inr ⟨‹_›, ?_⟩
    generalize hswept : (if now ≥ r.nextPruneMs then
      { r.pruneLocked now with nextPruneMs := clockAfter now pruneIntervalMs } else r) = swept
    have hshrinks : Shrinks swept.entries r.entries := by
      rw [← hswept]
      split
      · exact eraseIf_shrinks _ _
      · exact Shrinks.refl _
    dsimp only
    split
    · rename_i existing hexisting
      refine ⟨_, _, hshrinks, ?_, ?_, Nat.min_le_right _ _, rfl⟩
      · rw [credit, hshrinks _ _ hexisting]
        exact Nat.min_le_left _ _
      · rw [maxPendingDatagramsPerTuple]
        omega
    · exact ⟨_, _, (makeRoom_shrinks _ _ _ _ _).trans hshrinks, Nat.le_add_left _ _, le_refl _,
        by decide, rfl⟩

/-- A claim that succeeds takes one of the credit; any other leaves no more of it. -/
theorem claim_credit (r : DatagramRegistry) (address : Bytes) (port now : ℕ) (key : Bytes) :
    (r.claim address port now).1.credit key now +
        (if key = flowKey address port ∧ (r.claim address port now).2 = true then 1 else 0) ≤
      r.credit key now := by
  rw [claim]
  split
  · simp
  · rename_i e he
    split
    · rw [if_neg (by simp), Nat.add_zero]
      exact credit_le_of_shrinks (erase_shrinks _ _) key now
    · rename_i hlive
      rw [not_or, Nat.not_le] at hlive
      by_cases hkey : key = flowKey address port
      · have hcredit : r.credit key now = e.pending := by
          rw [credit, hkey, he]
          exact if_neg (Nat.not_le.2 hlive.1)
        subst hkey
        split
        · rw [credit_erase, hcredit]
          simp
          omega
        · rw [credit_insert, if_neg (Nat.not_le.2 hlive.1), hcredit]
          simp
          omega
      · split
        · rw [if_neg (fun h => hkey h.1), Nat.add_zero]
          exact credit_le_of_shrinks (erase_shrinks _ _) key now
        · rw [if_neg (fun h => hkey h.1), Nat.add_zero]
          refine (credit_eq_of_lookup now ?_).le
          exact AList.lookup_insert_ne hkey

theorem observe_credit (r : DatagramRegistry) (serverAddress : Bytes) (clientPort now : ℕ)
    (bucket : Bytes → ℕ) (address : Bytes) (port : ℕ) :
    (r.observe serverAddress clientPort now bucket).credit (flowKey address port) now ≤
      r.credit (flowKey address port) now +
        if (DatagramOp.observe serverAddress clientPort).Observes address port then 1 else 0 := by
  rcases r.observe_cases serverAddress clientPort now bucket with
    ⟨-, hsame⟩ | ⟨haccepted, entries, pending, hshrinks, hpending, -, -, hentries⟩
  · rw [hsame]
    exact Nat.le_add_right _ _
  · rw [credit, hentries, lookup_insert_eq]
    split
    · exact Nat.zero_le _
    · rename_i e he
      split at he
      · rename_i hkey
        cases he
        obtain ⟨rfl, rfl⟩ := flowKey_inj.1 hkey
        rw [not_or] at haccepted
        have hearned : (DatagramOp.observe address port).Observes address port :=
          ⟨rfl, haccepted.1, haccepted.2⟩
        rw [if_pos hearned]
        split
        · exact Nat.zero_le _
        · exact hpending
      · rw [credit, hshrinks _ _ he]
        exact Nat.le_add_right _ _

/-- One call: an observation earns one claim, and a claim that succeeds spends one. -/
theorem step_credit (r : DatagramRegistry) (c : Timed DatagramOp) (address : Bytes) (port : ℕ) :
    (if c.op = .claim address port ∧ (r.claim address port c.now).2 = true then 1 else 0) +
        (r.step c).credit (flowKey address port) c.now ≤
      r.credit (flowKey address port) c.now + if c.op.Observes address port then 1 else 0 := by
  obtain ⟨op, now, bucket⟩ := c
  cases op with
  | observe serverAddress clientPort =>
      have hle := r.observe_credit serverAddress clientPort now bucket address port
      simpa [step] using hle
  | claim peerAddress peerPort =>
      have hle := r.claim_credit peerAddress peerPort now (flowKey address port)
      by_cases hpeer : address = peerAddress ∧ port = peerPort
      · obtain ⟨rfl, rfl⟩ := hpeer
        simp [step, DatagramOp.Observes] at hle ⊢
        omega
      · have hother : DatagramOp.claim peerAddress peerPort ≠ .claim address port := by
          intro heq
          cases heq
          exact hpeer ⟨rfl, rfl⟩
        simp [step, DatagramOp.Observes, hother] at hle ⊢
        omega
  | size =>
      have hle : (r.pruneLocked now).credit (flowKey address port) now ≤
          r.credit (flowKey address port) now := credit_le_of_shrinks (eraseIf_shrinks _ _) _ _
      simpa [step, size, DatagramOp.Observes] using hle
  | clear => simp [step, clear, credit]

theorem granted_concat (address : Bytes) (port : ℕ) (r : DatagramRegistry)
    (events : List (Timed DatagramOp)) (c : Timed DatagramOp) :
    granted address port r (events ++ [c]) = granted address port r events +
      if c.op = .claim address port ∧ ((run step r events).claim address port c.now).2 = true
        then 1 else 0 := by
  induction events generalizing r with
  | nil =>
      rw [List.nil_append, granted, granted, granted, Nat.add_zero, Nat.zero_add]
      rfl
  | cons c' events ih =>
      rw [List.cons_append, granted, granted, ih (r.step c'), Nat.add_assoc]
      rfl

/-- A run spends no more than what there was at its start and what it earned. -/
theorem granted_le (address : Bytes) (port : ℕ) (events : List (Timed DatagramOp))
    (hclock : events.Pairwise fun c c' => c.now ≤ c'.now) (r : DatagramRegistry) (t : ℕ)
    (hfrom : ∀ c ∈ events, t ≤ c.now) :
    granted address port r events ≤
      r.credit (flowKey address port) t + observed address port events := by
  induction events generalizing r t with
  | nil => exact Nat.zero_le _
  | cons c events ih =>
      rw [List.pairwise_cons] at hclock
      have hstep := r.step_credit c address port
      have hlater := ih hclock.2 (r.step c) c.now hclock.1
      have hmono := r.credit_mono (flowKey address port) (hfrom c (by simp))
      rw [granted, observed, List.countP_cons, ← observed]
      simp only [decide_eq_true_eq]
      omega

/-- Every entry counts what may be accepted, and was observed since the last clear. -/
structure OnRecord (past : List (Timed DatagramOp)) (r : DatagramRegistry) : Prop where
  pending_le : ∀ key e, r.entries.lookup key = some e → e.pending ≤ maxPendingDatagramsPerTuple
  observed : ∀ key e, r.entries.lookup key = some e → ∃ address port, key = flowKey address port ∧
    Since (fun c => c.op.Observes address port ∧ e.expiresAtMs ≤ c.now + pendingFlowTtlMs)
      (fun c => c.op = .clear) past

theorem OnRecord.of_empty {past : List (Timed DatagramOp)} {r : DatagramRegistry}
    (h : r.entries = ∅) : OnRecord past r := by
  refine ⟨fun key e he => ?_, fun key e he => ?_⟩
  · rw [h, AList.lookup_empty] at he
    cases he
  · rw [h, AList.lookup_empty] at he
    cases he

/-- What is left of an entry after a call that does not clear the registry. -/
theorem OnRecord.later {past : List (Timed DatagramOp)} {r r' : DatagramRegistry}
    (h : OnRecord past r) {c : Timed DatagramOp} (hclear : c.op ≠ .clear)
    (hless : ∀ key e, r'.entries.lookup key = some e → ∃ e', r.entries.lookup key = some e' ∧
      e.pending ≤ e'.pending ∧ e.expiresAtMs = e'.expiresAtMs) :
    OnRecord (past ++ [c]) r' := by
  refine ⟨fun key e he => ?_, fun key e he => ?_⟩
  · obtain ⟨e', he', hle, -⟩ := hless key e he
    exact hle.trans (h.pending_le key e' he')
  · obtain ⟨e', he', -, hexpires⟩ := hless key e he
    obtain ⟨address, port, hkey, hsince⟩ := h.observed key e' he'
    rw [hexpires]
    exact ⟨address, port, hkey, hsince.later hclear⟩

theorem OnRecord.shrinks {past : List (Timed DatagramOp)} {r r' : DatagramRegistry}
    (h : OnRecord past r) {c : Timed DatagramOp} (hclear : c.op ≠ .clear)
    (hshrinks : Shrinks r'.entries r.entries) : OnRecord (past ++ [c]) r' :=
  h.later hclear fun key e he => ⟨e, hshrinks key e he, le_refl _, rfl⟩

theorem claim_less (r : DatagramRegistry) (address : Bytes) (port now : ℕ) (key : Bytes)
    (e : PendingDatagrams) (he : (r.claim address port now).1.entries.lookup key = some e) :
    ∃ e', r.entries.lookup key = some e' ∧ e.pending ≤ e'.pending ∧
      e.expiresAtMs = e'.expiresAtMs := by
  rw [claim] at he
  split at he
  · exact ⟨e, he, le_refl _, rfl⟩
  · rename_i e' he'
    split at he
    · exact ⟨e, erase_shrinks _ _ _ _ he, le_refl _, rfl⟩
    · split at he
      · exact ⟨e, erase_shrinks _ _ _ _ he, le_refl _, rfl⟩
      · rcases lookup_insert_cases he with ⟨rfl, rfl⟩ | ⟨-, he⟩
        · exact ⟨e', he', Nat.sub_le _ _, rfl⟩
        · exact ⟨e, he, le_refl _, rfl⟩

theorem OnRecord.step {past : List (Timed DatagramOp)} {r : DatagramRegistry} (h : OnRecord past r)
    (c : Timed DatagramOp) : OnRecord (past ++ [c]) (r.step c) := by
  obtain ⟨op, now, bucket⟩ := c
  cases op with
  | observe serverAddress clientPort =>
      rcases r.observe_cases serverAddress clientPort now bucket with
        ⟨-, hsame⟩ | ⟨haccepted, entries, pending, hshrinks, -, -, hpending, hentries⟩
      · rw [DatagramRegistry.step]
        dsimp only
        rw [hsame]
        exact h.shrinks (by simp) (Shrinks.refl _)
      · have hothers : OnRecord (past ++ [⟨.observe serverAddress clientPort, now, bucket⟩])
            ⟨entries, 0⟩ := h.shrinks (by simp) hshrinks
        rw [not_or] at haccepted
        rw [DatagramRegistry.step]
        refine ⟨fun key e he => ?_, fun key e he => ?_⟩
        · rw [hentries] at he
          rcases lookup_insert_cases he with ⟨-, rfl⟩ | ⟨-, he⟩
          · exact hpending
          · exact hothers.pending_le key e he
        · rw [hentries] at he
          rcases lookup_insert_cases he with ⟨rfl, rfl⟩ | ⟨-, he⟩
          · exact ⟨serverAddress, clientPort, rfl, Since.here past
              ⟨⟨rfl, haccepted.1, haccepted.2⟩, clockAfter_le _ _⟩⟩
          · exact hothers.observed key e he
  | claim peerAddress peerPort => exact h.later (by simp) (r.claim_less peerAddress peerPort now)
  | size => exact h.shrinks (by simp) (eraseIf_shrinks _ _)
  | clear => exact OnRecord.of_empty rfl

theorem run_onRecord (events : List (Timed DatagramOp)) :
    OnRecord events (run DatagramRegistry.step {} events) :=
  run_invariant _ _ OnRecord (OnRecord.of_empty rfl) (fun _ _ c h => h.step c) events

theorem credit_le (events : List (Timed DatagramOp)) (key : Bytes) (now : ℕ) :
    (run DatagramRegistry.step {} events).credit key now ≤ maxPendingDatagramsPerTuple := by
  rw [credit]
  split
  · exact Nat.zero_le _
  · rename_i e he
    split
    · exact Nat.zero_le _
    · exact (run_onRecord events).pending_le key e he

/-- A peer that was not observed for a while has no credit left. -/
theorem credit_eq_zero (events : List (Timed DatagramOp)) (address : Bytes) (port t : ℕ)
    (hold : ∀ c ∈ events, c.op.Observes address port → c.now + pendingFlowTtlMs ≤ t) :
    (run DatagramRegistry.step {} events).credit (flowKey address port) t = 0 := by
  rw [credit]
  split
  · rfl
  · rename_i e he
    obtain ⟨address', port', hkey, hsince⟩ := (run_onRecord events).observed _ e he
    obtain ⟨rfl, rfl⟩ := flowKey_inj.1 hkey
    obtain ⟨before, c, after, rfl, ⟨hobserves, hexpires⟩, -⟩ := hsince
    exact if_pos (hexpires.trans (hold c (by simp) hobserves))

theorem claim_observed (events : List (Timed DatagramOp)) {peerAddress : Bytes}
    {peerPort now : ℕ}
    (h : ((run DatagramRegistry.step {} events).claim peerAddress peerPort now).2 = true) :
    Since (fun c => c.op.Observes peerAddress peerPort ∧ now < c.now + pendingFlowTtlMs)
      (fun c => c.op = .clear) events := by
  rw [claim] at h
  split at h
  · cases h
  · rename_i e he
    split at h
    · cases h
    · rename_i hlive
      rw [not_or, Nat.not_le] at hlive
      obtain ⟨address, port, hkey, hsince⟩ := (run_onRecord events).observed _ e he
      obtain ⟨rfl, rfl⟩ := flowKey_inj.1 hkey
      exact hsince.mono (fun c hc => ⟨hc.1, hlive.1.trans_le hc.2⟩) (fun _ => id)

end DatagramRegistry

/-! ## The listeners -/

/-- What every history of the two registries allows their listeners to accept. -/
theorem registries_authorise :
    (∀ events peerAddress peerPort now target,
      ((run FlowRegistry.step {} events).claim peerAddress peerPort now).2 = some target →
        Since (fun c => c.op.Observes peerAddress peerPort target ∧ now < c.now + pendingFlowTtlMs)
          (fun c => c.op.Touches peerAddress peerPort) events) ∧
    (∀ events peerAddress peerPort now,
      ((run DatagramRegistry.step {} events).claim peerAddress peerPort now).2 = true →
        Since (fun c => c.op.Observes peerAddress peerPort ∧ now < c.now + pendingFlowTtlMs)
          (fun c => c.op = .clear) events) ∧
    ∀ before after : List (Timed DatagramOp),
      (before ++ after).Pairwise (fun c c' => c.now ≤ c'.now) → ∀ address port,
      let r := run DatagramRegistry.step {} before
      DatagramRegistry.granted address port {} before ≤
          DatagramRegistry.observed address port before ∧
        DatagramRegistry.granted address port r after ≤ maxPendingDatagramsPerTuple +
          DatagramRegistry.observed address port after ∧
        (∀ key e, r.entries.lookup key = some e → e.pending ≤ maxPendingDatagramsPerTuple) ∧
        ∀ t, (∀ c ∈ before, c.op.Observes address port → c.now + pendingFlowTtlMs ≤ t) →
          (∀ c ∈ after, t ≤ c.now) →
          DatagramRegistry.granted address port r after ≤
            DatagramRegistry.observed address port after := by
  refine ⟨fun events peerAddress peerPort now target h => FlowRegistry.claim_observed events h,
    fun events peerAddress peerPort now h => DatagramRegistry.claim_observed events h, ?_⟩
  intro before after hclock address port r
  rw [List.pairwise_append] at hclock
  obtain ⟨hbefore, hafter, -⟩ := hclock
  refine ⟨?_, ?_, (DatagramRegistry.run_onRecord before).pending_le, ?_⟩
  · have hle := DatagramRegistry.granted_le address port before hbefore {} 0
      fun _ _ => Nat.zero_le _
    have hnone : DatagramRegistry.credit {} (flowKey address port) 0 = 0 := rfl
    omega
  · have hle := DatagramRegistry.granted_le address port after hafter r 0 fun _ _ => Nat.zero_le _
    have hcredit : r.credit (flowKey address port) 0 ≤ maxPendingDatagramsPerTuple :=
      DatagramRegistry.credit_le before _ _
    omega
  · intro t hold hfrom
    have hle := DatagramRegistry.granted_le address port after hafter r t hfrom
    have hnone : r.credit (flowKey address port) t = 0 :=
      DatagramRegistry.credit_eq_zero before address port t hold
    omega

-- Two datagrams are left over when the entry expires; the next one is counted alone.
example : DatagramRegistry.granted [1] 7 {}
    [⟨.observe [1] 7, 1000, fun _ => 0⟩, ⟨.observe [1] 7, 1001, fun _ => 0⟩,
      ⟨.observe [2] 8, 15500, fun _ => 0⟩, ⟨.observe [1] 7, 16100, fun _ => 0⟩,
      ⟨.claim [1] 7, 16101, fun _ => 0⟩, ⟨.claim [1] 7, 16102, fun _ => 0⟩] = 1 := by
  decide +kernel

end Transparent

end SplitHello
