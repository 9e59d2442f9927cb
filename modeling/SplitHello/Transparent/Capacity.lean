import SplitHello.Library.ExpiringTable
import SplitHello.Transparent.Registry

/-!
# Full tables of the transparent listeners

The tables of the packet loop are bounded, and a flood of packets fills them. The registry
of datagrams makes room only for a key that is not there yet. The registry of connections
makes room before it looks for the key, so that in a full table a SYN that is sent again
costs another peer its entry. The table of flows scans for expired entries once a second
and otherwise drops the sixteenth that was seen longest ago.
-/

namespace SplitHello

namespace Transparent

open ByteString KeyedTable History

/-! ## Datagrams -/

/-- The key of the peer a call is about. -/
def DatagramOp.key : DatagramOp → Option Bytes
  | .observe serverAddress clientPort => some (flowKey serverAddress clientPort)
  | .claim peerAddress peerPort => some (flowKey peerAddress peerPort)
  | .size => none
  | .clear => none

namespace DatagramRegistry

theorem pruneLocked_sweeps (r : DatagramRegistry) (now : ℕ) :
    Sweeps PendingDatagrams.expiresAtMs now r.entries (r.pruneLocked now).entries :=
  eraseIf_sweeps r.entries

/-- What `observe` does to a table: nothing, a new value for a key that is there, or a new
key for which room is made. -/
theorem observe_entries (r : DatagramRegistry) (serverAddress : Bytes) (clientPort now : ℕ)
    (bucket : Bytes → ℕ) :
    r.observe serverAddress clientPort now bucket = r ∨
      ∃ swept, Sweeps PendingDatagrams.expiresAtMs now r.entries swept ∧
        let key := flowKey serverAddress clientPort
        ((key ∈ swept ∧ ∃ e, (r.observe serverAddress clientPort now bucket).entries =
            swept.insert key e) ∨
          key ∉ swept ∧ ∃ e, (r.observe serverAddress clientPort now bucket).entries =
            (makeRoom maxPendingFlows (fun e => e.expiresAtMs ≤ now)
              PendingDatagrams.expiresAtMs bucket swept).insert key e) := by
  rw [observe]
  split
  · exact Or.inl rfl
  · refine Or.inr ?_
    generalize hswept : (if now ≥ r.nextPruneMs then
      { r.pruneLocked now with nextPruneMs := clockAfter now pruneIntervalMs } else r) = swept
    have hsweeps : Sweeps PendingDatagrams.expiresAtMs now r.entries swept.entries := by
      rw [← hswept]
      split
      · exact r.pruneLocked_sweeps now
      · exact Sweeps.refl _
    refine ⟨swept.entries, hsweeps, ?_⟩
    dsimp only
    split
    · rename_i existing hexisting
      exact Or.inl ⟨mem_of_lookup hexisting, _, rfl⟩
    · rename_i hnone
      exact Or.inr ⟨AList.lookup_eq_none.1 hnone, _, rfl⟩

theorem observe_frugal {r : DatagramRegistry} (hsize : KeyedTable.size r.entries ≤ maxPendingFlows)
    (serverAddress : Bytes) (clientPort now : ℕ) (bucket : Bytes → ℕ) :
    Frugal maxPendingFlows PendingDatagrams.expiresAtMs now
      (some (flowKey serverAddress clientPort)) r.entries
      (r.observe serverAddress clientPort now bucket).entries := by
  rcases r.observe_entries serverAddress clientPort now bucket with
    hsame | ⟨swept, hsweeps, ⟨hmem, e, hentries⟩ | ⟨hnew, e, hentries⟩⟩
  · rw [hsame]
    exact Frugal.refl _ _
  · rw [hentries]
    exact insert_frugal hsweeps hmem e
  · rw [hentries]
    exact insert_makeRoom_frugal (by decide) hsize hsweeps bucket hnew e

theorem claim_frugal (r : DatagramRegistry) (peerAddress : Bytes) (peerPort now : ℕ) :
    Frugal maxPendingFlows PendingDatagrams.expiresAtMs now (some (flowKey peerAddress peerPort))
      r.entries (r.claim peerAddress peerPort now).1.entries := by
  rw [claim]
  split
  · exact Frugal.refl _ _
  · rename_i e he
    split
    · exact erase_frugal _ _
    · split
      · exact erase_frugal _ _
      · exact insert_frugal (Sweeps.refl _) (mem_of_lookup he) _

/-- Calls other than `clear` are frugal. -/
theorem step_frugal {r : DatagramRegistry} (hsize : KeyedTable.size r.entries ≤ maxPendingFlows)
    {c : Timed DatagramOp} (hclear : c.op ≠ .clear) :
    Frugal maxPendingFlows PendingDatagrams.expiresAtMs c.now c.op.key r.entries
      (r.step c).entries := by
  obtain ⟨op, now, bucket⟩ := c
  cases op with
  | observe serverAddress clientPort =>
      exact observe_frugal hsize serverAddress clientPort now bucket
  | claim peerAddress peerPort => exact r.claim_frugal peerAddress peerPort now
  | size => exact (r.pruneLocked_sweeps now).frugal _
  | clear => exact absurd rfl hclear

theorem step_size {r : DatagramRegistry} (hsize : KeyedTable.size r.entries ≤ maxPendingFlows)
    (c : Timed DatagramOp) : KeyedTable.size (r.step c).entries ≤ maxPendingFlows := by
  obtain ⟨op, now, bucket⟩ := c
  cases op with
  | observe serverAddress clientPort =>
      rw [step]
      dsimp only
      rcases r.observe_entries serverAddress clientPort now bucket with
        hsame | ⟨swept, hsweeps, ⟨hmem, e, hentries⟩ | ⟨hnew, e, hentries⟩⟩
      · rw [hsame]
        exact hsize
      · rw [hentries, size_insert_of_mem _ hmem]
        exact hsweeps.shrinks.size_le.trans hsize
      · rw [hentries]
        exact size_insert_makeRoom_le (by decide) hsize hsweeps.shrinks bucket _ e
  | claim peerAddress peerPort =>
      rw [step]
      dsimp only
      rw [claim]
      split
      · exact hsize
      · rename_i e he
        split
        · exact (size_erase_le _ _).trans hsize
        · split
          · exact (size_erase_le _ _).trans hsize
          · exact (size_insert_of_lookup _ he).trans_le hsize
  | size => exact (size_eraseIf_le _ _).trans hsize
  | clear => exact Nat.zero_le _

theorem run_size (events : List (Timed DatagramOp)) :
    KeyedTable.size (run step {} events).entries ≤ maxPendingFlows :=
  run_invariant step {} (fun _ r => KeyedTable.size r.entries ≤ maxPendingFlows)
    (Nat.zero_le _) (fun _ _ c h => step_size h c) events

end DatagramRegistry

/-! ## Connections -/

namespace FlowRegistry

/-- Every unexpired entry of another peer is there afterwards, and is the same. -/
def Undisturbed (r : FlowRegistry) (serverAddress : Bytes)
    (clientPort targetPort connectPort now : ℕ) (bucket : Bytes → ℕ) : Prop :=
  ∀ key e, key ≠ flowKey serverAddress clientPort → r.entries.lookup key = some e →
    now < e.expiresAtMs →
      (r.observe serverAddress clientPort targetPort connectPort now bucket).entries.lookup key =
        some e

/-- The call is accepted while the table is full of unexpired entries, and the oldest of
them is another peer's. -/
structure Crowded (r : FlowRegistry) (serverAddress : Bytes)
    (clientPort targetPort connectPort now : ℕ) (bucket : Bytes → ℕ) : Prop where
  accepted : ¬ (serverAddress = [] ∨ clientPort = 0 ∨ targetPort = 0 ∨ connectPort = 0)
  full : maxPendingFlows ≤ KeyedTable.size (r.pruneLocked now).entries
  other : ∃ key e, oldest PendingFlow.expiresAtMs bucket (r.pruneLocked now).entries =
    some ⟨key, e⟩ ∧ key ≠ flowKey serverAddress clientPort

section

variable {r : FlowRegistry} {serverAddress : Bytes} {clientPort targetPort connectPort now : ℕ}
  {bucket : Bytes → ℕ}

theorem pruneLocked_sweeps (r : FlowRegistry) (now : ℕ) :
    Sweeps PendingFlow.expiresAtMs now r.entries (r.pruneLocked now).entries :=
  eraseIf_sweeps r.entries

/-- Room is made before the key is looked up. -/
theorem observe_entries (r : FlowRegistry) (now : ℕ) (bucket : Bytes → ℕ)
    (haccepted : ¬ (serverAddress = [] ∨ clientPort = 0 ∨ targetPort = 0 ∨ connectPort = 0)) :
    ∃ swept, (swept = r.entries ∨ swept = (r.pruneLocked now).entries) ∧
      (r.observe serverAddress clientPort targetPort connectPort now bucket).entries =
        (makeRoom maxPendingFlows (fun e => e.expiresAtMs ≤ now) PendingFlow.expiresAtMs bucket
          swept).insert (flowKey serverAddress clientPort)
          ⟨⟨serverAddress, targetPort, connectPort⟩, clockAfter now pendingFlowTtlMs⟩ := by
  rw [observe, if_neg haccepted]
  refine ⟨_, ?_, rfl⟩
  split
  · exact Or.inr rfl
  · exact Or.inl rfl

/-- Which entries make way does not depend on whether the table has just been swept. -/
theorem displaced_iff {swept : Table Bytes PendingFlow}
    (hswept : swept = r.entries ∨ swept = (r.pruneLocked now).entries) {key : Bytes}
    {e : PendingFlow} (he : swept.lookup key = some e) (hlive : now < e.expiresAtMs) :
    Displaced maxPendingFlows (fun e => e.expiresAtMs ≤ now) PendingFlow.expiresAtMs bucket swept
        key ↔
      maxPendingFlows ≤ KeyedTable.size (r.pruneLocked now).entries ∧
        ∃ e, oldest PendingFlow.expiresAtMs bucket (r.pruneLocked now).entries = some ⟨key, e⟩ := by
  have hpruned : eraseIf (fun _ e => e.expiresAtMs ≤ now) swept = (r.pruneLocked now).entries := by
    rcases hswept with rfl | rfl
    · rfl
    · refine eraseIf_eq_self fun e he => ?_
      simpa using (List.mem_filter.1 he).2
  have hle := size_eraseIf_le (fun _ (e : PendingFlow) => decide (e.expiresAtMs ≤ now)) swept
  rw [Displaced, hpruned, he]
  rw [hpruned] at hle
  constructor
  · rintro ⟨-, ⟨e', he', hexpired⟩ | h⟩
    · cases he'
      exact absurd (of_decide_eq_true hexpired) (Nat.not_le.2 hlive)
    · exact h
  · exact fun h => ⟨h.1.trans hle, Or.inr h⟩

/-- Other peers keep their entries exactly if none of them has to make way. -/
theorem undisturbed_iff :
    r.Undisturbed serverAddress clientPort targetPort connectPort now bucket ↔
      ¬ r.Crowded serverAddress clientPort targetPort connectPort now bucket := by
  by_cases haccepted :
      serverAddress = [] ∨ clientPort = 0 ∨ targetPort = 0 ∨ connectPort = 0
  · refine iff_of_true (fun key e _ he _ => ?_) fun h => h.accepted haccepted
    rw [observe, if_pos haccepted]
    exact he
  · obtain ⟨swept, hswept, hentries⟩ := observe_entries r now bucket haccepted
    have hsweeps : Sweeps PendingFlow.expiresAtMs now r.entries swept := by
      rcases hswept with rfl | rfl
      · exact Sweeps.refl _
      · exact r.pruneLocked_sweeps now
    constructor
    · rintro hundisturbed ⟨-, hfull, key, e, holdest, hne⟩
      have hmem := AList.mem_lookup_iff.2 (List.argmin_mem holdest)
      have he := (r.pruneLocked_sweeps now).shrinks key e hmem
      have hlive : now < e.expiresAtMs := by
        simpa using (List.mem_filter.1 (List.argmin_mem holdest)).2
      have hkept := hundisturbed key e hne he hlive
      rw [hentries, AList.lookup_insert_ne hne, lookup_makeRoom,
        displaced_iff hswept (hsweeps.kept key e he hlive) hlive] at hkept
      exact hkept.2 ⟨hfull, e, holdest⟩
    · intro hcrowded key e hne he hlive
      have hkept := hsweeps.kept key e he hlive
      rw [hentries, AList.lookup_insert_ne hne, lookup_makeRoom, displaced_iff hswept hkept hlive]
      exact ⟨hkept, fun h => hcrowded ⟨haccepted, h.1, key, h.2.imp fun e' he' => ⟨he', hne⟩⟩⟩

end

theorem step_size {r : FlowRegistry} (hsize : KeyedTable.size r.entries ≤ maxPendingFlows)
    (c : Timed FlowOp) : KeyedTable.size (r.step c).entries ≤ maxPendingFlows := by
  obtain ⟨op, now, bucket⟩ := c
  cases op with
  | observe serverAddress clientPort targetPort connectPort =>
      rw [step]
      dsimp only
      by_cases haccepted :
          serverAddress = [] ∨ clientPort = 0 ∨ targetPort = 0 ∨ connectPort = 0
      · rw [observe, if_pos haccepted]
        exact hsize
      · obtain ⟨swept, hswept, hentries⟩ := observe_entries r now bucket haccepted
        rw [hentries]
        refine size_insert_makeRoom_le (by decide) hsize ?_ bucket _ _
        rcases hswept with rfl | rfl
        · exact Shrinks.refl _
        · exact eraseIf_shrinks _ _
  | claim peerAddress peerPort =>
      rw [step]
      dsimp only
      rw [claim]
      split
      · exact hsize
      · exact (size_erase_le _ _).trans hsize
  | size => exact (size_eraseIf_le _ _).trans hsize
  | clear => exact Nat.zero_le _

theorem run_size (events : List (Timed FlowOp)) :
    KeyedTable.size (run step {} events).entries ≤ maxPendingFlows :=
  run_invariant step {} (fun _ r => KeyedTable.size r.entries ≤ maxPendingFlows)
    (Nat.zero_le _) (fun _ _ c h => step_size h c) events

/-- An observation leaves the unexpired entries of other peers alone unless the table is full
of them and the oldest is another peer's; and the table is bounded. -/
theorem refresh_undisturbed_iff (r : FlowRegistry) (serverAddress : Bytes)
    (clientPort targetPort connectPort now : ℕ) (bucket : Bytes → ℕ) :
    (r.Undisturbed serverAddress clientPort targetPort connectPort now bucket ↔
      ¬ r.Crowded serverAddress clientPort targetPort connectPort now bucket) ∧
      ∀ events, KeyedTable.size (run step {} events).entries ≤ maxPendingFlows :=
  ⟨undisturbed_iff, run_size⟩

/-! A flood: one connection of a peer, then as many of other ports as the table has room
for, then the SYN of one of these again. -/

def floodServer : Bytes := ofString "203.0.113.8"

def floodKey (i : ℕ) : Bytes := flowKey floodServer (i + 2)

def floodOpening : Timed FlowOp := ⟨.observe floodServer 1 443 8443, 1000, fun _ => 0⟩

def floodEvent (i : ℕ) : Timed FlowOp := ⟨.observe floodServer (i + 2) 443 8443, 1001, fun _ => 0⟩

def flood (n : ℕ) : List (Timed FlowOp) := floodOpening :: (List.range n).map floodEvent

/-- What the registry holds in a flood. -/
def Flooded (n : ℕ) (r : FlowRegistry) : Prop :=
  Filled PendingFlow.expiresAtMs (flowKey floodServer 1) floodKey 16000 16001 n r.entries

theorem floodKey_injective : floodKey.Injective := by
  intro i j h
  exact Nat.add_right_cancel (flowKey_inj.1 h).2

theorem floodKey_ne (i : ℕ) : floodKey i ≠ flowKey floodServer 1 := by
  simp [floodKey, flowKey_inj]

theorem accepted_of_flood (port : ℕ) (hport : port ≠ 0) :
    ¬ (floodServer = [] ∨ port = 0 ∨ 443 = 0 ∨ 8443 = 0) := by
  simp [floodServer, ofString, hport]

theorem Flooded.swept {n now : ℕ} {r : FlowRegistry} (h : Flooded n r) (hnow : now < 16000)
    {swept : Table Bytes PendingFlow}
    (hswept : swept = r.entries ∨ swept = (r.pruneLocked now).entries) : swept = r.entries := by
  rcases hswept with hsame | hpruned
  · exact hsame
  · exact hpruned.trans (Filled.swept h (by decide) hnow)

theorem Flooded.step {n : ℕ} {r : FlowRegistry} (h : Flooded n r)
    (hroom : n + 1 < maxPendingFlows) : Flooded (n + 1) (r.step (floodEvent n)) := by
  obtain ⟨swept, hswept, hentries⟩ :=
    observe_entries r 1001 (fun _ => 0) (accepted_of_flood (n + 2) (by omega))
  rw [h.swept (by decide) hswept, makeRoom, if_pos (by rw [h.size_eq]; exact hroom)] at hentries
  have hstep : (r.step (floodEvent n)).entries = r.entries.insert (floodKey n)
      ⟨⟨floodServer, 443, 8443⟩, clockAfter 1001 pendingFlowTtlMs⟩ := hentries
  rw [Flooded, hstep]
  exact h.insert floodKey_injective floodKey_ne rfl

theorem flooded_of_flood {n : ℕ} (hroom : n < maxPendingFlows) :
    Flooded n (run FlowRegistry.step {} (flood n)) := by
  induction n with
  | zero =>
      have hentries : (run FlowRegistry.step {} (flood 0)).entries =
          (∅ : Table Bytes PendingFlow).insert (flowKey floodServer 1)
            ⟨⟨floodServer, 443, 8443⟩, 16000⟩ := AList.ext (by decide +kernel)
      refine ⟨by decide +kernel, ?_, fun key e he hne => ?_, nofun⟩
      · rw [hentries]
        exact ⟨_, AList.lookup_insert _, rfl⟩
      · rw [hentries, AList.lookup_insert_ne hne] at he
        cases he
  | succ n ih =>
      have hflood : flood (n + 1) = flood n ++ [floodEvent n] := by
        rw [flood, List.range_succ, List.map_append]
        rfl
      rw [hflood, run_concat]
      exact (ih (by omega)).step hroom

theorem flood_pairwise (n : ℕ) : ((flood n).map Timed.now).Pairwise (· ≤ ·) := by
  have hlater : (((List.range n).map floodEvent).map Timed.now) = List.replicate n 1001 := by
    have hnow : Timed.now ∘ floodEvent = fun _ => 1001 := rfl
    rw [List.map_map, hnow, List.map_const', List.length_range]
  rw [flood, List.map_cons, hlater, List.pairwise_cons]
  refine ⟨fun t ht => ?_, List.pairwise_replicate.2 (Or.inr (le_refl _))⟩
  rw [List.eq_of_mem_replicate ht]
  decide

theorem flood_le (n : ℕ) : ∀ c ∈ flood n, c.now ≤ 1002 := by
  intro c hc
  rcases List.mem_cons.1 hc with rfl | hc
  · decide
  · obtain ⟨i, -, rfl⟩ := List.mem_map.1 hc
    exact show 1001 ≤ 1002 by decide

/-- A SYN that is sent again drops the entry of the first connection, which has neither
expired nor anything to do with it. -/
theorem refresh_drops_other :
    let r := run FlowRegistry.step {} (flood 8191)
    ((flood 8191).map Timed.now).Pairwise (· ≤ ·) ∧ (∀ c ∈ flood 8191, c.now ≤ 1002) ∧
      flowKey floodServer 8192 ∈ r.entries ∧
      (∃ e, r.entries.lookup (flowKey floodServer 1) = some e ∧ 1002 < e.expiresAtMs) ∧
      flowKey floodServer 1 ∉ (r.observe floodServer 8192 443 8443 1002 fun _ => 0).entries := by
  have hflooded : Flooded 8191 (run FlowRegistry.step {} (flood 8191)) :=
    flooded_of_flood (by decide)
  obtain ⟨e, he, hexpires⟩ := hflooded.opening
  have hlive : 1002 < e.expiresAtMs := by
    rw [hexpires]
    decide
  refine ⟨flood_pairwise 8191, flood_le 8191, hflooded.mem 8190 (by decide), ⟨e, he, hlive⟩, ?_⟩
  obtain ⟨swept, hswept, hentries⟩ := observe_entries (run FlowRegistry.step {} (flood 8191))
    1002 (fun _ => 0) (accepted_of_flood 8192 (by decide))
  rw [hentries, hflooded.swept (by decide) hswept,
    hflooded.makeRoom_eq (by decide) (by decide) (show 8191 + 1 = maxPendingFlows by decide),
    AList.mem_insert, AList.mem_erase]
  exact fun h => h.elim (fun hkey => floodKey_ne 8190 hkey.symm) fun h => h.1 rfl

end FlowRegistry

/-! ## Flows -/

/-- A call on the table of flows. -/
inductive TcpFlowOp
  | add (key : PeerKey)
  | track (key : PeerKey) (fin rst : Bool)
  | remove (key : PeerKey)
  | clear
  deriving DecidableEq, Repr

structure TcpFlowEvent where
  op : TcpFlowOp
  now : ℕ
  bucket : PeerKey → ℕ := fun _ => 0

namespace TcpFlowTable

def step (table : TcpFlowTable) (e : TcpFlowEvent) : TcpFlowTable :=
  match e.op with
  | .add key => table.add key e.now e.bucket
  | .track key fin rst => (table.track key fin rst e.now).1
  | .remove key => table.remove key
  | .clear => table.clear

/-- What is removed when room is made: only what has expired, or as many entries as the
program says, none of a later expiry than one that stays. -/
structure MakesRoom (now : ℕ) (t t' : Table PeerKey FlowEntry) (removed : List PeerKey) :
    Prop where
  drops : Drops t t' removed
  choice : (∀ k ∈ removed, ∀ e, t.lookup k = some e → e.expiresAtMs ≤ now) ∨
    removed.length = max 1 (size t / 16) ∧ ∀ k ∈ removed, ∀ e, t.lookup k = some e →
      ∀ k', k' ∉ removed → ∀ e', t.lookup k' = some e' → e.expiresAtMs ≤ e'.expiresAtMs

/-- No live flow goes while an expired one stays. -/
theorem MakesRoom.expired_first {now : ℕ} {t t' : Table PeerKey FlowEntry}
    {removed : List PeerKey} (h : MakesRoom now t t' removed) {k k' : PeerKey} {e e' : FlowEntry}
    (hk : k ∈ removed) (he : t.lookup k = some e) (hlive : now < e.expiresAtMs)
    (hk' : k' ∉ removed) (he' : t.lookup k' = some e') : now < e'.expiresAtMs := by
  rcases h.choice with hexpired | ⟨-, holdest⟩
  · exact absurd (hexpired k hk e he) (Nat.not_le.2 hlive)
  · exact hlive.trans_le (holdest k hk e he k' hk' e' he')

theorem evictOldest_makesRoom (table : TcpFlowTable) (hpos : 0 < size table.entries) (now : ℕ)
    (bucket : PeerKey → ℕ) :
    ∃ removed, removed ≠ [] ∧
      MakesRoom now table.entries (table.evictOldest bucket).entries removed := by
  obtain ⟨removed, hdrops, hlength, holdest⟩ := evictMany_drops
    (max 1 (size table.entries / 16)) FlowEntry.expiresAtMs bucket table.entries
  have hall : removed.length = max 1 (size table.entries / 16) := by omega
  refine ⟨removed, ?_, hdrops, Or.inr ⟨hall, holdest⟩⟩
  exact List.ne_nil_of_length_pos (by omega)

/-- Room is made in a full table, and something always goes. -/
theorem makeRoom_makesRoom {table : TcpFlowTable} (hfull : size table.entries = maxTcpFlows)
    (now : ℕ) (bucket : PeerKey → ℕ) :
    ∃ removed, removed ≠ [] ∧
      MakesRoom now table.entries (table.makeRoom now bucket).entries removed := by
  have hpos : 0 < size table.entries := by rw [hfull]; decide
  rw [makeRoom]
  by_cases hdue : now ≥ table.nextSweepMs
  · have hswept : (table.sweep now).entries =
        eraseIf (fun _ e => e.expiresAtMs ≤ now) table.entries := by rw [sweep, if_pos hdue]
    split
    · rename_i hfreed
      obtain ⟨removed, hdrops, hexpired⟩ :=
        eraseIf_drops (fun e : FlowEntry => e.expiresAtMs ≤ now) table.entries
      refine ⟨removed, ?_, by rw [hswept]; exact hdrops, Or.inl fun k hk e he => ?_⟩
      · rintro rfl
        have hsame := hdrops.size_add
        rw [hswept] at hfreed
        simp only [List.length_nil] at hsame
        omega
      · exact of_decide_eq_true (hexpired k hk e he)
    · rename_i hstill
      have hnone : (table.sweep now).entries = table.entries := by
        rw [hswept]
        refine eraseIf_eq_self fun e he => ?_
        by_contra hexpired
        have hlt := size_eraseIf_lt (p := fun _ (e : FlowEntry) => e.expiresAtMs ≤ now) he
          (Bool.not_eq_false _ ▸ hexpired)
        rw [hswept] at hstill
        omega
      have hmade := evictOldest_makesRoom (table.sweep now) (by rw [hnone]; exact hpos)
        now bucket
      rw [hnone] at hmade
      exact hmade
  · rw [if_neg fun h => hdue h.1, sweep, if_neg hdue]
    exact evictOldest_makesRoom table hpos now bucket

/-- What `add` does to a table that holds no more than it may. -/
structure Added (table : TcpFlowTable) (key : PeerKey) (now : ℕ) (bucket : PeerKey → ℕ) :
    Prop where
  present : (table.add key now bucket).entries.lookup key =
    some { expiresAtMs := now + tcpFlowIdleMs }
  others : key ∈ table.entries ∨ size table.entries < maxTcpFlows → ∀ k, k ≠ key →
    (table.add key now bucket).entries.lookup k = table.entries.lookup k
  room : key ∉ table.entries → maxTcpFlows ≤ size table.entries → ∃ kept removed,
    removed ≠ [] ∧ MakesRoom now table.entries kept removed ∧
      (table.add key now bucket).entries =
        kept.insert key { expiresAtMs := now + tcpFlowIdleMs }
  expired_first : ∀ k e, table.entries.lookup k = some e → now < e.expiresAtMs →
    k ∉ (table.add key now bucket).entries → ∀ k' e', table.entries.lookup k' = some e' →
      k' ≠ key → k' ∈ (table.add key now bucket).entries → now < e'.expiresAtMs

/-- The table `add` puts the new entry into. -/
theorem add_entries (table : TcpFlowTable) {key : PeerKey} (hport : key.port ≠ 0) (now : ℕ)
    (bucket : PeerKey → ℕ) :
    ∃ kept, (table.add key now bucket).entries =
        kept.insert key { expiresAtMs := now + tcpFlowIdleMs } ∧
      ((key ∈ table.entries ∨ size table.entries < maxTcpFlows) ∧ kept = table.entries ∨
        key ∉ table.entries ∧ maxTcpFlows ≤ size table.entries ∧
          kept = (table.makeRoom now bucket).entries) := by
  rw [add, if_neg hport]
  dsimp only
  split
  · rename_i hsome
    exact ⟨_, rfl, Or.inl ⟨Or.inl (AList.lookup_isSome.1 hsome), rfl⟩⟩
  · rename_i hnone
    refine ⟨_, rfl, ?_⟩
    split
    · rename_i hfull
      exact Or.inr ⟨fun hmem => hnone (AList.lookup_isSome.2 hmem), hfull, rfl⟩
    · rename_i hroom
      exact Or.inl ⟨Or.inr (Nat.lt_of_not_le hroom), rfl⟩

theorem add_added {table : TcpFlowTable} (hsize : size table.entries ≤ maxTcpFlows) {key : PeerKey}
    (hport : key.port ≠ 0) (now : ℕ) (bucket : PeerKey → ℕ) : table.Added key now bucket := by
  obtain ⟨kept, hentries, hkept⟩ := add_entries table hport now bucket
  have hmakes : key ∉ table.entries → maxTcpFlows ≤ size table.entries →
      ∃ removed, removed ≠ [] ∧ MakesRoom now table.entries kept removed := by
    intro hnew hfull
    rcases hkept with ⟨hmem | hroom, -⟩ | ⟨-, -, hkept⟩
    · exact absurd hmem hnew
    · omega
    · rw [hkept]
      exact makeRoom_makesRoom (Nat.le_antisymm hsize hfull) now bucket
  refine ⟨?_, fun hfree k hk => ?_, fun hnew hfull => ?_,
    fun k e he hlive hk k' e' he' hne hk' => ?_⟩
  · rw [hentries, AList.lookup_insert]
  · rcases hkept with ⟨-, rfl⟩ | ⟨hnew, hfull, -⟩
    · rw [hentries, AList.lookup_insert_ne hk]
    · rcases hfree with hmem | hroom
      · exact absurd hmem hnew
      · omega
  · obtain ⟨removed, hne, hmade⟩ := hmakes hnew hfull
    exact ⟨kept, removed, hne, hmade, hentries⟩
  · rw [hentries, AList.mem_insert, not_or] at hk
    rw [hentries, AList.mem_insert] at hk'
    have hin := hk'.resolve_left hne
    rcases hkept with ⟨-, rfl⟩ | ⟨hnew, hfull, -⟩
    · exact absurd (mem_of_lookup he) hk.2
    · obtain ⟨removed, -, hmade⟩ := hmakes hnew hfull
      have hlookup := hmade.drops.lookup_eq
      have hgone : k ∈ removed := by
        by_contra hstays
        refine hk.2 (mem_of_lookup (v := e) ?_)
        rw [hlookup, if_neg hstays, he]
      have hstays : k' ∉ removed := by
        intro hgone'
        rw [← AList.lookup_isSome, hlookup, if_pos hgone'] at hin
        cases hin
      exact hmade.expired_first hgone he hlive hstays he'

theorem add_size {table : TcpFlowTable} (hsize : size table.entries ≤ maxTcpFlows) (key : PeerKey)
    (now : ℕ) (bucket : PeerKey → ℕ) :
    size (table.add key now bucket).entries ≤ maxTcpFlows := by
  by_cases hport : key.port = 0
  · rw [add, if_pos hport]
    exact hsize
  · obtain ⟨kept, hentries, ⟨hmem | hroom, rfl⟩ | ⟨-, hfull, rfl⟩⟩ :=
      add_entries table hport now bucket
    · rw [hentries, size_insert_of_mem _ hmem]
      exact hsize
    · rw [hentries]
      exact (size_insert_le _ _ _).trans hroom
    · obtain ⟨removed, hne, hmade⟩ :=
        makeRoom_makesRoom (Nat.le_antisymm hsize hfull) now bucket
      have hdropped := hmade.drops.size_add
      have hpos := List.length_pos_of_ne_nil hne
      have hinsert := size_insert_le (table.makeRoom now bucket).entries key
        { expiresAtMs := now + tcpFlowIdleMs }
      rw [hentries]
      omega

theorem step_size {table : TcpFlowTable} (hsize : size table.entries ≤ maxTcpFlows)
    (e : TcpFlowEvent) : size (table.step e).entries ≤ maxTcpFlows := by
  obtain ⟨op, now, bucket⟩ := e
  cases op with
  | add key => exact add_size hsize key now bucket
  | track key fin rst =>
      rw [step]
      dsimp only
      rw [track]
      split
      · exact hsize
      · rename_i entry hentry
        split
        · exact (size_erase_le _ _).trans hsize
        · exact (size_insert_of_lookup _ hentry).trans_le hsize
  | remove key => exact (size_erase_le _ _).trans hsize
  | clear => exact Nat.zero_le _

theorem run_size (events : List TcpFlowEvent) :
    size (run step {} events).entries ≤ maxTcpFlows :=
  run_invariant step {} (fun _ table => size table.entries ≤ maxTcpFlows)
    (Nat.zero_le _) (fun _ _ e h => step_size h e) events

/-- After every run the table is within its bound, and a flow is added as `Added` says; a
port of zero is refused. -/
theorem capacity_law (events : List TcpFlowEvent) :
    let table := run step {} events
    size table.entries ≤ maxTcpFlows ∧ ∀ key now bucket,
      (key.port = 0 → table.add key now bucket = table) ∧
        (key.port ≠ 0 → table.Added key now bucket) :=
  ⟨run_size events, fun _ now bucket => ⟨fun hport => if_pos hport,
    fun hport => add_added (run_size events) hport now bucket⟩⟩

end TcpFlowTable

end Transparent

end SplitHello
