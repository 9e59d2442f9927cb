import SplitHello.Library.ByteString
import SplitHello.Library.KeyedTable

/-!
# The table of rewritten TCP flows

Keys are a server address, a local port and the side of the relay the flow runs
on. An entry is made by a SYN, refreshed by every packet of the flow, shortened
by a FIN and removed by a RST. Times are milliseconds of one clock; the order in
which the table is walked, and the choice among equally old entries, is the
`bucket` of a key.
-/

namespace SplitHello

namespace Transparent

open ByteString KeyedTable

def pruneIntervalMs : ℕ := 1000
def tcpFlowIdleMs : ℕ := 4 * 60 * 60 * 1000
def tcpFlowClosingMs : ℕ := 2 * 60 * 1000
def maxTcpFlows : ℕ := 65536

/-- The 16 bytes of an address; an IPv4 address in its IPv4-mapped form. -/
def addressFromBytes (bytes : Bytes) (ipv6 : Bool) : Bytes :=
  if ipv6 then bytes else List.replicate 10 0 ++ [0xFF, 0xFF] ++ bytes

/-- Application to relay, or relay to server. -/
inductive FlowKind
  | client
  | upstream
  deriving DecidableEq, Repr

structure PeerKey where
  address : Bytes
  port : ℕ
  kind : FlowKind
  deriving DecidableEq, Repr

structure FlowEntry where
  expiresAtMs : ℕ
  closing : Bool := false
  deriving DecidableEq, Repr

structure TcpFlowTable where
  entries : Table PeerKey FlowEntry := ∅
  nextSweepMs : ℕ := 0

/-- How long a flow may stay silent. -/
def quietMs (closing : Bool) : ℕ := if closing then tcpFlowClosingMs else tcpFlowIdleMs

namespace TcpFlowTable

/-- Drops expired entries, at most one scan a second. -/
def sweep (table : TcpFlowTable) (now : ℕ) : TcpFlowTable :=
  if now ≥ table.nextSweepMs then
    { entries := eraseIf (fun _ e => e.expiresAtMs ≤ now) table.entries
      nextSweepMs := now + pruneIntervalMs }
  else table

/-- Drops the sixteenth of the entries that was seen longest ago. -/
def evictOldest (table : TcpFlowTable) (bucket : PeerKey → ℕ) : TcpFlowTable :=
  let evict := max 1 (size table.entries / 16)
  { table with entries := evictMany evict FlowEntry.expiresAtMs bucket table.entries }

/-- Called with the table full: expired entries go first, and only a table full of
live flows evicts some of them. -/
def makeRoom (table : TcpFlowTable) (now : ℕ) (bucket : PeerKey → ℕ) : TcpFlowTable :=
  if now ≥ table.nextSweepMs ∧ size (table.sweep now).entries < maxTcpFlows then table.sweep now
  else (table.sweep now).evictOldest bucket

def add (table : TcpFlowTable) (key : PeerKey) (now : ℕ) (bucket : PeerKey → ℕ) : TcpFlowTable :=
  if key.port = 0 then table
  else
    let fresh : FlowEntry := { expiresAtMs := now + tcpFlowIdleMs }
    if (table.entries.lookup key).isSome then
      { table with entries := table.entries.insert key fresh }
    else
      let table := if size table.entries ≥ maxTcpFlows then table.makeRoom now bucket else table
      { table with entries := table.entries.insert key fresh }

/-- Whether the flow is live. A RST removes it, and so does a silence that was too
long; any other packet refreshes it. -/
def track (table : TcpFlowTable) (key : PeerKey) (fin rst : Bool) (now : ℕ) :
    TcpFlowTable × Bool :=
  match table.entries.lookup key with
  | none => (table, false)
  | some entry =>
      if entry.expiresAtMs ≤ now ∨ rst then
        ({ table with entries := table.entries.erase key }, entry.expiresAtMs > now)
      else
        let closing := entry.closing || fin
        ({ table with
            entries := table.entries.insert key
              { expiresAtMs := now + quietMs closing, closing } }, true)

def remove (table : TcpFlowTable) (key : PeerKey) : TcpFlowTable :=
  { table with entries := table.entries.erase key }

def clear (_ : TcpFlowTable) : TcpFlowTable := {}

/-! ## What the operations leave in the table -/

theorem sweep_shrinks (table : TcpFlowTable) (now : ℕ) :
    Shrinks (table.sweep now).entries table.entries := by
  rw [sweep]
  split
  · exact eraseIf_shrinks _ _
  · exact Shrinks.refl _

theorem makeRoom_shrinks (table : TcpFlowTable) (now : ℕ) (bucket : PeerKey → ℕ) :
    Shrinks (table.makeRoom now bucket).entries table.entries := by
  rw [makeRoom]
  split
  · exact sweep_shrinks table now
  · exact (evictMany_shrinks _ _ _ _).trans (sweep_shrinks table now)

theorem add_lookup {table : TcpFlowTable} {key key' : PeerKey} {now : ℕ}
    {bucket : PeerKey → ℕ} {e : FlowEntry}
    (h : (table.add key now bucket).entries.lookup key' = some e) :
    key' = key ∧ key.port ≠ 0 ∧ e = { expiresAtMs := now + tcpFlowIdleMs } ∨
      table.entries.lookup key' = some e ∧ (key' ≠ key ∨ key.port = 0) := by
  rw [add] at h
  split at h
  · exact Or.inr ⟨h, Or.inr ‹_›⟩
  · dsimp only at h
    split at h
    · rcases lookup_insert_cases h with ⟨hkey, he⟩ | ⟨hne, h⟩
      · exact Or.inl ⟨hkey, ‹_›, he⟩
      · exact Or.inr ⟨h, Or.inl hne⟩
    · rcases lookup_insert_cases h with ⟨hkey, he⟩ | ⟨hne, h⟩
      · exact Or.inl ⟨hkey, ‹_›, he⟩
      · refine Or.inr ⟨?_, Or.inl hne⟩
        split at h
        · exact makeRoom_shrinks table now bucket _ _ h
        · exact h

/-- A live flow is one whose entry has not expired. -/
theorem track_live {table : TcpFlowTable} {key : PeerKey} {fin rst : Bool} {now : ℕ} :
    (table.track key fin rst now).2 = true ↔
      ∃ e, table.entries.lookup key = some e ∧ now < e.expiresAtMs := by
  rw [track]
  cases table.entries.lookup key with
  | none => simp
  | some entry =>
      dsimp only
      split
      · simp
      · rename_i h
        have hlive : now < entry.expiresAtMs := by
          by_contra hle
          exact h (Or.inl (Nat.le_of_not_lt hle))
        simp [hlive]

theorem track_lookup {table : TcpFlowTable} {key key' : PeerKey} {fin rst : Bool} {now : ℕ}
    {e : FlowEntry} (h : (table.track key fin rst now).1.entries.lookup key' = some e) :
    key' ≠ key ∧ table.entries.lookup key' = some e ∨
      key' = key ∧ rst = false ∧ ∃ entry, table.entries.lookup key = some entry ∧
        now < entry.expiresAtMs ∧
        e = { expiresAtMs := now + quietMs (entry.closing || fin)
              closing := entry.closing || fin } := by
  rw [track] at h
  cases hentry : table.entries.lookup key with
  | none =>
      rw [hentry] at h
      refine Or.inl ⟨?_, h⟩
      rintro rfl
      rw [hentry] at h
      cases h
  | some entry =>
      rw [hentry] at h
      dsimp only at h
      split at h
      · exact Or.inl (lookup_erase_cases h)
      · rename_i hkeep
        rw [not_or, Nat.not_le, Bool.not_eq_true] at hkeep
        rcases lookup_insert_cases h with ⟨hkey, he⟩ | h
        · exact Or.inr ⟨hkey, hkeep.2, entry, rfl, hkeep.1, he⟩
        · exact Or.inl h

end TcpFlowTable

/-! ## Routing -/

inductive PacketRoute
  | pass
  | reflectClientToProxy
  | reflectProxyToClient
  | redirectProxyToTarget
  | redirectTargetToProxy
  deriving DecidableEq, Repr

/-- Which way a packet would go by its ports alone. -/
def routePacket (outbound : Bool) (sourcePort destinationPort targetPort proxyPort
    connectPort : ℕ) : PacketRoute :=
  if outbound then
    if sourcePort = proxyPort then .reflectProxyToClient
    else if destinationPort = connectPort then .redirectProxyToTarget
    else if destinationPort = targetPort then .reflectClientToProxy
    else .pass
  else if sourcePort = targetPort then .redirectTargetToProxy
  else .pass

end Transparent

end SplitHello
