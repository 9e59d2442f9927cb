import SplitHello.Transparent.Interceptor
import SplitHello.Library.History

/-!
# Only tracked flows are rewritten

A packet that is not a new connection of its own is rewritten only while the
table holds its flow, and the table holds a flow only because of a SYN that was
accepted and never lost since. `LiveFlow` says what "never lost" means over the
packets captured so far; every other packet leaves as it came.
-/

namespace SplitHello

namespace Transparent

open ByteString KeyedTable History

/-- A packet with the table it met. -/
structure Seen where
  before : TcpFlowTable
  captured : Captured

variable (setup : Setup)

namespace Seen

/-- A SYN on one of the two routes that open flows. -/
def opens (x : Seen) : Bool :=
  x.captured.opening && (x.captured.route setup = .reflectClientToProxy ||
    x.captured.route setup = .redirectProxyToTarget)

/-- A SYN the process rules leave alone. -/
def bypasses (x : Seen) (key : PeerKey) : Prop :=
  x.opens setup ∧ x.captured.flowKey setup = some key ∧
    x.captured.route setup = .reflectClientToProxy ∧ x.captured.processBypass

/-- A SYN that opens the flow of a key. -/
def accepts (x : Seen) (key : PeerKey) : Prop :=
  x.opens setup ∧ x.captured.flowKey setup = some key ∧ key.port ≠ 0 ∧
    ¬ (x.captured.route setup = .reflectClientToProxy ∧ x.captured.processBypass)

/-- A later packet of the flow, in either direction. -/
def tracks (x : Seen) (key : PeerKey) : Prop :=
  ¬ x.opens setup ∧ x.captured.flowKey setup = some key

instance (x : Seen) (key : PeerKey) : Decidable (x.tracks setup key) :=
  inferInstanceAs (Decidable (¬ x.opens setup = true ∧ x.captured.flowKey setup = some key))

def resets (x : Seen) (key : PeerKey) : Prop := x.tracks setup key ∧ x.captured.packet.rst

/-- The table lost the key while it made room for another one. -/
def evicts (x : Seen) (key : PeerKey) : Prop :=
  ∃ key', key' ≠ key ∧ x.accepts setup key' ∧ (x.before.entries.lookup key).isSome ∧
    ((intercept setup x.before x.captured).1.entries.lookup key).isNone

end Seen

/-- The packets captured from some table on, with the tables they met. -/
def trace (table : TcpFlowTable) : List Captured → List Seen
  | [] => []
  | c :: cs => ⟨table, c⟩ :: trace (intercept setup table c).1 cs

/-- The table after the packets. -/
def tableAfter (table : TcpFlowTable) (cs : List Captured) : TcpFlowTable :=
  run (fun table c => (intercept setup table c).1) table cs

/-- When the flow was last seen and whether a FIN was, as long as no silence was
too long. -/
def follow (key : PeerKey) (seen : Option (ℕ × Bool)) (x : Seen) : Option (ℕ × Bool) :=
  match seen with
  | none => none
  | some (last, closing) =>
      if x.tracks setup key then
        if x.captured.now < last + quietMs closing then
          some (x.captured.now, closing || x.captured.packet.fin)
        else none
      else some (last, closing)

/-- Some SYN opened the flow, and since then there was no RST on it, no SYN left
alone by the rules, no eviction and no silence of four hours, or of two minutes
once a FIN was seen. -/
def LiveFlow (key : PeerKey) (log : List Seen) (now : ℕ) : Prop :=
  ∃ before syn after last closing, log = before ++ syn :: after ∧ syn.accepts setup key ∧
    (∀ x ∈ after, ¬ x.resets setup key ∧ ¬ x.bypasses setup key ∧ ¬ x.evicts setup key) ∧
    after.foldl (follow setup key) (some (syn.captured.now, false)) = some (last, closing) ∧
    now < last + quietMs closing

/-! ## The invariant -/

/-- Every entry goes back to a SYN, and its expiry is that of the last packet. -/
def Accounted (log : List Seen) (table : TcpFlowTable) : Prop :=
  ∀ key e, table.entries.lookup key = some e →
    ∃ before syn after last, log = before ++ syn :: after ∧ syn.accepts setup key ∧
      (∀ x ∈ after, ¬ x.resets setup key ∧ ¬ x.bypasses setup key ∧ ¬ x.evicts setup key) ∧
      after.foldl (follow setup key) (some (syn.captured.now, false)) = some (last, e.closing) ∧
      e.expiresAtMs = last + quietMs e.closing

theorem intercept_fst (table : TcpFlowTable) (c : Captured) :
    (intercept setup table c).1 = (trackPacket setup table c).1 := by
  rw [intercept]
  dsimp only
  split <;> rfl

/-- The operation of the table that a packet leads to. -/
theorem trackPacket_cases (table : TcpFlowTable) (c : Captured) :
    c.flowKey setup = none ∧ trackPacket setup table c = (table, false) ∨
      ∃ key, c.flowKey setup = some key ∧
        (Seen.opens setup ⟨table, c⟩ ∧
            (c.route setup = .reflectClientToProxy ∧ c.processBypass) ∧
            trackPacket setup table c = (table.remove key, false) ∨
          Seen.opens setup ⟨table, c⟩ ∧
            ¬ (c.route setup = .reflectClientToProxy ∧ c.processBypass) ∧
            trackPacket setup table c = (table.add key c.now c.bucket, true) ∨
          ¬ Seen.opens setup ⟨table, c⟩ ∧
            (trackPacket setup table c).1 = (table.track key c.packet.fin c.packet.rst c.now).1 ∧
            (c.route setup ≠ .redirectProxyToTarget →
              (trackPacket setup table c).2 =
                (table.track key c.packet.fin c.packet.rst c.now).2)) := by
  rw [trackPacket, Captured.flowKey]
  cases hroute : c.route setup with
  | pass => exact Or.inl ⟨rfl, rfl⟩
  | reflectClientToProxy =>
      refine Or.inr ⟨_, rfl, ?_⟩
      cases hsyn : c.opening with
      | false => simp [Seen.opens, hsyn]
      | true =>
          cases hbypass : c.processBypass with
          | false => simp [Seen.opens, hsyn, hroute]
          | true => simp [Seen.opens, hsyn, hroute]
  | reflectProxyToClient =>
      refine Or.inr ⟨_, rfl, Or.inr (Or.inr ⟨?_, rfl, fun _ => rfl⟩)⟩
      simp [Seen.opens, hroute]
  | redirectProxyToTarget =>
      refine Or.inr ⟨_, rfl, ?_⟩
      cases hsyn : c.opening with
      | false => simp [Seen.opens, hsyn]
      | true => simp [Seen.opens, hsyn, hroute]
  | redirectTargetToProxy =>
      refine Or.inr ⟨_, rfl, Or.inr (Or.inr ⟨?_, rfl, fun _ => rfl⟩)⟩
      simp [Seen.opens, hroute]

/-- What one packet leaves in the table: the fresh entry of an accepted SYN, the
refreshed entry of a tracked flow, or an entry it has nothing to do with. -/
theorem trackPacket_lookup {table : TcpFlowTable} {c : Captured} {key : PeerKey} {e : FlowEntry}
    (h : (trackPacket setup table c).1.entries.lookup key = some e) :
    Seen.accepts setup ⟨table, c⟩ key ∧ e = { expiresAtMs := c.now + tcpFlowIdleMs } ∨
      ¬ Seen.bypasses setup ⟨table, c⟩ key ∧
        (¬ Seen.tracks setup ⟨table, c⟩ key ∧ table.entries.lookup key = some e ∨
          Seen.tracks setup ⟨table, c⟩ key ∧ c.packet.rst = false ∧
            ∃ entry, table.entries.lookup key = some entry ∧ c.now < entry.expiresAtMs ∧
              e = { expiresAtMs := c.now + quietMs (entry.closing || c.packet.fin)
                    closing := entry.closing || c.packet.fin }) := by
  rcases trackPacket_cases setup table c with
    ⟨hkey, heq⟩ | ⟨key', hkey, ⟨hopens, hbypass, heq⟩ | ⟨hopens, hbypass, heq⟩ | ⟨hopens, heq, -⟩⟩
  · rw [heq] at h
    refine Or.inr ⟨fun hb => ?_, Or.inl ⟨fun ht => ?_, h⟩⟩
    · cases hkey.symm.trans hb.2.1
    · cases hkey.symm.trans ht.2
  · rw [heq] at h
    obtain ⟨hne, h⟩ := lookup_erase_cases h
    refine Or.inr ⟨fun hb => ?_, Or.inl ⟨fun ht => ht.1 hopens, h⟩⟩
    exact hne (Option.some.inj (hkey.symm.trans hb.2.1)).symm
  · rw [heq] at h
    rcases TcpFlowTable.add_lookup h with ⟨rfl, hport, he⟩ | ⟨h, -⟩
    · exact Or.inl ⟨⟨hopens, hkey, hport, hbypass⟩, he⟩
    · exact Or.inr ⟨fun hb => hbypass hb.2.2, Or.inl ⟨fun ht => ht.1 hopens, h⟩⟩
  · rw [heq] at h
    have hbypass : ¬ Seen.bypasses setup ⟨table, c⟩ key := fun hb => hopens hb.1
    rcases TcpFlowTable.track_lookup h with ⟨hne, h⟩ | ⟨rfl, hrst, hentry⟩
    · refine Or.inr ⟨hbypass, Or.inl ⟨fun ht => ?_, h⟩⟩
      exact hne (Option.some.inj (hkey.symm.trans ht.2)).symm
    · exact Or.inr ⟨hbypass, Or.inr ⟨⟨hopens, hkey⟩, hrst, hentry⟩⟩

theorem trace_concat (table : TcpFlowTable) (cs : List Captured) (c : Captured) :
    trace setup table (cs ++ [c]) = trace setup table cs ++ [⟨tableAfter setup table cs, c⟩] := by
  induction cs generalizing table with
  | nil => rfl
  | cons c' cs ih =>
      rw [List.cons_append, trace, ih, trace]
      rfl

theorem tableAfter_concat (table : TcpFlowTable) (cs : List Captured) (c : Captured) :
    tableAfter setup table (cs ++ [c]) = (intercept setup (tableAfter setup table cs) c).1 :=
  run_concat _ table cs c

theorem follow_of_tracks {key : PeerKey} {x : Seen} {last : ℕ} {closing : Bool}
    (h : x.tracks setup key) (hnow : x.captured.now < last + quietMs closing) :
    follow setup key (some (last, closing)) x =
      some (x.captured.now, closing || x.captured.packet.fin) := by
  rw [follow, if_pos h, if_pos hnow]

theorem follow_of_not_tracks {key : PeerKey} {x : Seen} {last : ℕ} {closing : Bool}
    (h : ¬ x.tracks setup key) :
    follow setup key (some (last, closing)) x = some (last, closing) := by
  rw [follow, if_neg h]

theorem Accounted.step {log : List Seen} {table : TcpFlowTable} (hlog : Accounted setup log table)
    (c : Captured) : Accounted setup (log ++ [⟨table, c⟩]) (intercept setup table c).1 := by
  intro key e h
  -- The key is still there, so this packet did not evict it.
  have hevicts : ¬ Seen.evicts setup ⟨table, c⟩ key := by
    rintro ⟨key', -, -, -, hnone⟩
    rw [h] at hnone
    cases hnone
  rw [intercept_fst] at h
  rcases trackPacket_lookup setup h with ⟨haccepts, rfl⟩ | ⟨hbypass, ⟨htracks, hprev⟩ | hrefreshed⟩
  · exact ⟨log, ⟨table, c⟩, [], c.now, rfl, haccepts, by simp, rfl, rfl⟩
  · obtain ⟨before, syn, after, last, rfl, haccepts, hafter, hfold, hexpires⟩ := hlog key e hprev
    refine ⟨before, syn, after ++ [⟨table, c⟩], last, by simp, haccepts, ?_, ?_, hexpires⟩
    · intro x hx
      rcases List.mem_append.1 hx with hx | hx
      · exact hafter x hx
      · rw [List.mem_singleton.1 hx]
        exact ⟨fun hr => htracks hr.1, hbypass, hevicts⟩
    · rw [List.foldl_append, hfold]
      exact follow_of_not_tracks setup htracks
  · obtain ⟨htracks, hrst, entry, hprev, hnow, rfl⟩ := hrefreshed
    obtain ⟨before, syn, after, last, rfl, haccepts, hafter, hfold, hexpires⟩ :=
      hlog key entry hprev
    refine ⟨before, syn, after ++ [⟨table, c⟩], c.now, by simp, haccepts, ?_, ?_, rfl⟩
    · intro x hx
      rcases List.mem_append.1 hx with hx | hx
      · exact hafter x hx
      · rw [List.mem_singleton.1 hx]
        refine ⟨fun hr => ?_, hbypass, hevicts⟩
        have hset : c.packet.rst = true := hr.2
        rw [hrst] at hset
        cases hset
    · rw [List.foldl_append, hfold]
      rw [hexpires] at hnow
      exact follow_of_tracks setup htracks hnow

theorem accounted_trace (cs : List Captured) :
    Accounted setup (trace setup {} cs) (tableAfter setup {} cs) := by
  induction cs using List.reverseRecOn with
  | nil =>
      intro key e h
      cases h
  | append_singleton cs c ih =>
      rw [trace_concat, tableAfter_concat]
      exact ih.step setup c

theorem queued_of_not_owned {table : TcpFlowTable} {c : Captured}
    (h : (trackPacket setup table c).2 = false) :
    (intercept setup table c).2.queued = [(c.packet.bytes, c.address)] := by
  rw [intercept]
  dsimp only
  rw [if_neg (by rw [h]; decide)]

/-- A packet that opens no flow itself is not owned, or its flow is in the table
and has not expired. -/
theorem owned_of_tracked {table : TcpFlowTable} {c : Captured}
    (hopens : ¬ Seen.opens setup ⟨table, c⟩) (hroute : c.route setup ≠ .redirectProxyToTarget) :
    (trackPacket setup table c).2 = false ∨ ∃ key e, c.flowKey setup = some key ∧
      table.entries.lookup key = some e ∧ c.now < e.expiresAtMs := by
  rcases trackPacket_cases setup table c with
    ⟨-, heq⟩ | ⟨key, hkey, ⟨hsyn, -⟩ | ⟨hsyn, -⟩ | ⟨-, -, howned⟩⟩
  · exact Or.inl (by rw [heq])
  · exact absurd hsyn hopens
  · exact absurd hsyn hopens
  · cases htrack : (table.track key c.packet.fin c.packet.rst c.now).2 with
    | false => exact Or.inl ((howned hroute).trans htrack)
    | true =>
        obtain ⟨e, hlookup, hnow⟩ := TcpFlowTable.track_live.1 htrack
        exact Or.inr ⟨key, e, hkey, hlookup, hnow⟩

theorem Accounted.liveFlow {log : List Seen} {table : TcpFlowTable}
    (hlog : Accounted setup log table) {key : PeerKey} {e : FlowEntry} {now : ℕ}
    (h : table.entries.lookup key = some e) (hnow : now < e.expiresAtMs) :
    LiveFlow setup key log now := by
  obtain ⟨before, syn, after, last, hsplit, haccepts, hafter, hfold, hexpires⟩ := hlog key e h
  rw [hexpires] at hnow
  exact ⟨before, syn, after, last, e.closing, hsplit, haccepts, hafter, hfold, hnow⟩

/-- After any sequence of captured packets: a packet the ports say nothing about
leaves as it came, and so does every packet of a running connection unless its
flow was opened by an accepted SYN and is live since. -/
theorem intercept_isolated (past : List Captured) (c : Captured) :
    let queued := (intercept setup (tableAfter setup {} past) c).2.queued
    (c.route setup = .pass → queued = [(c.packet.bytes, c.address)]) ∧
      (c.route setup = .reflectClientToProxy ∧ c.opening = false ∨
          c.route setup = .reflectProxyToClient ∨ c.route setup = .redirectTargetToProxy →
        queued = [(c.packet.bytes, c.address)] ∨
          ∃ key, c.flowKey setup = some key ∧
            LiveFlow setup key (trace setup {} past) c.now) := by
  dsimp only
  have hlog := accounted_trace setup past
  generalize tableAfter setup {} past = table at hlog
  constructor
  · intro hroute
    apply queued_of_not_owned
    rw [trackPacket, hroute]
  · intro hroute
    have hopens : ¬ Seen.opens setup ⟨table, c⟩ := by
      rcases hroute with ⟨-, h⟩ | h | h
      · simp [Seen.opens, h]
      · simp [Seen.opens, h]
      · simp [Seen.opens, h]
    have hother : c.route setup ≠ .redirectProxyToTarget := by
      rcases hroute with ⟨h, -⟩ | h | h
      · rw [h]
        decide
      · rw [h]
        decide
      · rw [h]
        decide
    rcases owned_of_tracked setup hopens hother with howned | ⟨key, e, hkey, hlookup, hnow⟩
    · exact Or.inl (queued_of_not_owned setup howned)
    · exact Or.inr ⟨key, hkey, hlog.liveFlow setup hlookup hnow⟩

end Transparent

end SplitHello
