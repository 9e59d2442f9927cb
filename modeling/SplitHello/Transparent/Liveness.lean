import SplitHello.Transparent.Isolation

/-!
# Live flows are rewritten

The other half of isolation: as long as a flow is live the table has it, so that none of
its packets slips past the proxy. Together a packet of a running connection is rewritten
exactly if its flow is live. The clock is that of the system, which does not go back.
-/

namespace SplitHello

namespace Transparent

open ByteString KeyedTable History

variable (setup : Setup)

/-- What is live by the packets is in the table, for at least as long. -/
def Covered (log : List Seen) (table : TcpFlowTable) : Prop :=
  ∀ key before syn after last closing, log = before ++ syn :: after → syn.accepts setup key →
    (∀ x ∈ after, ¬ x.resets setup key ∧ ¬ x.bypasses setup key ∧ ¬ x.evicts setup key) →
    after.foldl (follow setup key) (some (syn.captured.now, false)) = some (last, closing) →
    ∃ e, table.entries.lookup key = some e ∧ last + quietMs closing ≤ e.expiresAtMs ∧
      (e.closing = true → closing = true)

theorem quietMs_le (closing : Bool) : quietMs closing ≤ tcpFlowIdleMs := by
  cases closing <;> decide

theorem quietMs_mono {closing closing' : Bool} (h : closing' = true → closing = true) :
    quietMs closing ≤ quietMs closing' := by
  cases closing' with
  | false => exact quietMs_le closing
  | true =>
      rw [h rfl]

theorem foldl_follow_none (key : PeerKey) (xs : List Seen) :
    xs.foldl (follow setup key) none = none := by
  induction xs with
  | nil => rfl
  | cons x xs ih => exact ih

/-- The last sign of life is one of the packets. -/
theorem foldl_follow_le {key : PeerKey} {xs : List Seen} {first now last : ℕ}
    {closing closing' : Bool} (hfirst : first ≤ now) (hxs : ∀ x ∈ xs, x.captured.now ≤ now)
    (h : xs.foldl (follow setup key) (some (first, closing)) = some (last, closing')) :
    last ≤ now := by
  induction xs generalizing first closing with
  | nil =>
      cases h
      exact hfirst
  | cons x xs ih =>
      rw [List.foldl_cons] at h
      have hrest : ∀ y ∈ xs, y.captured.now ≤ now := fun y hy => hxs y (List.mem_cons_of_mem x hy)
      by_cases htracks : x.tracks setup key
      · by_cases hquiet : x.captured.now < first + quietMs closing
        · rw [follow_of_tracks setup htracks hquiet] at h
          exact ih (hxs x List.mem_cons_self) hrest h
        · rw [follow, if_pos htracks, if_neg hquiet, foldl_follow_none] at h
          cases h
      · rw [follow_of_not_tracks setup htracks] at h
        exact ih hfirst hrest h

theorem TcpFlowTable.add_lookup_self (table : TcpFlowTable) {key : PeerKey} (hport : key.port ≠ 0)
    (now : ℕ) (bucket : PeerKey → ℕ) :
    (table.add key now bucket).entries.lookup key =
      some { expiresAtMs := now + tcpFlowIdleMs } := by
  rw [TcpFlowTable.add, if_neg hport]
  dsimp only
  split <;> exact AList.lookup_insert _

theorem TcpFlowTable.track_lookup_of_ne (table : TcpFlowTable) {key key' : PeerKey} (h : key' ≠ key)
    (fin rst : Bool) (now : ℕ) :
    (table.track key fin rst now).1.entries.lookup key' = table.entries.lookup key' := by
  rw [TcpFlowTable.track]
  cases table.entries.lookup key with
  | none => rfl
  | some entry =>
      dsimp only
      split
      · exact AList.lookup_erase_ne h
      · exact AList.lookup_insert_ne h

theorem TcpFlowTable.track_lookup_self {table : TcpFlowTable} {key : PeerKey} {entry : FlowEntry}
    {now : ℕ} (h : table.entries.lookup key = some entry) (hnow : now < entry.expiresAtMs)
    (fin : Bool) :
    (table.track key fin false now).1.entries.lookup key =
      some { expiresAtMs := now + quietMs (entry.closing || fin)
             closing := entry.closing || fin } := by
  rw [TcpFlowTable.track, h]
  dsimp only
  rw [if_neg (by simpa using hnow)]
  exact AList.lookup_insert _

/-- What one packet does to a live flow that it neither resets, bypasses nor evicts: an
accepted SYN makes it new, a packet of its own refreshes it, any other leaves it alone. -/
theorem trackPacket_keeps {table : TcpFlowTable} {c : Captured} {key : PeerKey} {e : FlowEntry}
    (h : table.entries.lookup key = some e) (hport : key.port ≠ 0)
    (hresets : ¬ Seen.resets setup ⟨table, c⟩ key) (hbypass : ¬ Seen.bypasses setup ⟨table, c⟩ key)
    (hevicts : ¬ Seen.evicts setup ⟨table, c⟩ key) :
    ¬ Seen.tracks setup ⟨table, c⟩ key ∧
        (trackPacket setup table c).1.entries.lookup key =
          some { expiresAtMs := c.now + tcpFlowIdleMs } ∨
      ¬ Seen.tracks setup ⟨table, c⟩ key ∧
        (trackPacket setup table c).1.entries.lookup key = some e ∨
      Seen.tracks setup ⟨table, c⟩ key ∧
        (c.now < e.expiresAtMs → (trackPacket setup table c).1.entries.lookup key =
          some { expiresAtMs := c.now + quietMs (e.closing || c.packet.fin)
                 closing := e.closing || c.packet.fin }) := by
  rcases trackPacket_cases setup table c with
    ⟨hkey, heq⟩ | ⟨key', hkey, ⟨hopens, hleft, heq⟩ | ⟨hopens, hleft, heq⟩ | ⟨hopens, heq, -⟩⟩
  · refine Or.inr (Or.inl ⟨fun ht => ?_, by rw [heq]; exact h⟩)
    cases hkey.symm.trans ht.2
  · refine Or.inr (Or.inl ⟨fun ht => ht.1 hopens, ?_⟩)
    have hne : key ≠ key' := by
      rintro rfl
      exact hbypass ⟨hopens, hkey, hleft⟩
    rw [heq]
    exact (AList.lookup_erase_ne hne).trans h
  · by_cases hne : key = key'
    · subst hne
      refine Or.inl ⟨fun ht => ht.1 hopens, ?_⟩
      rw [heq]
      exact table.add_lookup_self hport _ _
    · refine Or.inr (Or.inl ⟨fun ht => ht.1 hopens, ?_⟩)
      by_cases hzero : key'.port = 0
      · rw [heq, TcpFlowTable.add, if_pos hzero]
        exact h
      · have hsome : ((table.add key' c.now c.bucket).entries.lookup key).isSome := by
          by_contra hnone
          refine hevicts ⟨key', fun heq' => hne heq'.symm, ⟨hopens, hkey, hzero, hleft⟩, ?_, ?_⟩
          · rw [h]
            rfl
          · rw [intercept_fst, heq]
            simpa using hnone
        obtain ⟨e', he'⟩ := Option.isSome_iff_exists.1 hsome
        rw [heq]
        rcases TcpFlowTable.add_lookup he' with ⟨hsame, -⟩ | ⟨hold, -⟩
        · exact absurd hsame hne
        · rw [he', ← h, hold]
  · by_cases hne : key = key'
    · subst hne
      refine Or.inr (Or.inr ⟨⟨hopens, hkey⟩, fun hnow => ?_⟩)
      have hrst : c.packet.rst = false := by
        by_contra hset
        exact hresets ⟨⟨hopens, hkey⟩, by simpa using hset⟩
      rw [heq, hrst]
      exact TcpFlowTable.track_lookup_self h hnow _
    · refine Or.inr (Or.inl ⟨fun ht => hne (Option.some.inj (ht.2.symm.trans hkey)), ?_⟩)
      rw [heq, table.track_lookup_of_ne hne]
      exact h

theorem Covered.step {log : List Seen} {table : TcpFlowTable} (hlog : Covered setup log table)
    (c : Captured) (hclock : ∀ x ∈ log, x.captured.now ≤ c.now) :
    Covered setup (log ++ [⟨table, c⟩]) (intercept setup table c).1 := by
  intro key before syn after last closing heq haccepts hafter hfold
  rw [intercept_fst]
  rcases concat_eq_cases heq with ⟨rfl, -, rfl⟩ | ⟨rest, rfl, rfl⟩
  · obtain ⟨hopens, hkey, hport, hleft⟩ := haccepts
    cases hfold
    rcases trackPacket_cases setup table c with
      ⟨hnone, -⟩ | ⟨key', hkey', ⟨-, hbypass, -⟩ | ⟨-, -, htable⟩ | ⟨hnot, -⟩⟩
    · cases hnone.symm.trans hkey
    · exact absurd hbypass hleft
    · obtain rfl := Option.some.inj (hkey.symm.trans hkey')
      rw [htable]
      exact ⟨_, table.add_lookup_self hport _ _, Nat.le_refl _, nofun⟩
    · exact absurd hopens hnot
  · rw [List.foldl_append, List.foldl_cons, List.foldl_nil] at hfold
    cases hrest : rest.foldl (follow setup key) (some (syn.captured.now, false)) with
    | none =>
        rw [hrest] at hfold
        cases hfold
    | some seen =>
        obtain ⟨last', closing'⟩ := seen
        rw [hrest] at hfold
        obtain ⟨e, hlookup, hexpires, hclosing⟩ := hlog key before syn rest last' closing' rfl
          haccepts (fun x hx => hafter x (List.mem_append_left _ hx)) hrest
        have hlast : last' ≤ c.now := by
          refine foldl_follow_le setup (hclock syn (by simp)) (fun x hx => hclock x ?_) hrest
          exact List.mem_append_right _ (List.mem_cons_of_mem syn hx)
        obtain ⟨hresets, hbypass, hevicts⟩ := hafter ⟨table, c⟩ (by simp)
        rcases trackPacket_keeps setup hlookup haccepts.2.2.1 hresets hbypass hevicts with
          ⟨htracks, hnew⟩ | ⟨htracks, hsame⟩ | ⟨htracks, hrefreshed⟩
        · rw [follow_of_not_tracks setup htracks, Option.some.injEq, Prod.mk.injEq] at hfold
          obtain ⟨rfl, rfl⟩ := hfold
          have hquiet := quietMs_le closing'
          exact ⟨_, hnew, by dsimp only; omega, nofun⟩
        · rw [follow_of_not_tracks setup htracks, Option.some.injEq, Prod.mk.injEq] at hfold
          obtain ⟨rfl, rfl⟩ := hfold
          exact ⟨e, hsame, hexpires, hclosing⟩
        · rw [follow, if_pos htracks] at hfold
          split at hfold
          · rename_i hquiet
            rw [Option.some.injEq, Prod.mk.injEq] at hfold
            obtain ⟨rfl, rfl⟩ := hfold
            dsimp only at hquiet
            have hmono : (e.closing || c.packet.fin) = true →
                (closing' || c.packet.fin) = true := by
              simp only [Bool.or_eq_true]
              exact fun hor => hor.imp_left hclosing
            refine ⟨_, hrefreshed (by omega), ?_, hmono⟩
            exact Nat.add_le_add_left (quietMs_mono hmono) _
          · cases hfold

/-- The clock of the packets does not go back. -/
def InOrder (cs : List Captured) : Prop := cs.Pairwise fun a b => a.now ≤ b.now

theorem captured_of_trace {table : TcpFlowTable} {cs : List Captured} {x : Seen}
    (h : x ∈ trace setup table cs) : x.captured ∈ cs := by
  induction cs generalizing table with
  | nil => cases h
  | cons c cs ih =>
      rcases List.mem_cons.1 h with rfl | h
      · exact List.mem_cons_self
      · exact List.mem_cons_of_mem c (ih h)

theorem covered_trace {cs : List Captured} (hclock : InOrder cs) :
    Covered setup (trace setup {} cs) (tableAfter setup {} cs) := by
  induction cs using List.reverseRecOn with
  | nil =>
      intro key before syn after last closing heq
      cases before <;> cases heq
  | append_singleton cs c ih =>
      rw [InOrder, List.pairwise_append] at hclock
      obtain ⟨hbefore, -, hlast⟩ := hclock
      rw [trace_concat, tableAfter_concat]
      refine (ih hbefore).step setup c fun x hx => ?_
      exact hlast _ (captured_of_trace setup hx) c (List.mem_singleton_self c)

/-- The table knows a flow as live exactly if its packets say so. -/
theorem liveFlow_iff {past : List Captured} (hclock : InOrder past) (key : PeerKey) (now : ℕ) :
    LiveFlow setup key (trace setup {} past) now ↔
      ∃ e, (tableAfter setup {} past).entries.lookup key = some e ∧ now < e.expiresAtMs := by
  constructor
  · rintro ⟨before, syn, after, last, closing, heq, haccepts, hafter, hfold, hnow⟩
    obtain ⟨e, hlookup, hexpires, -⟩ :=
      covered_trace setup hclock key before syn after last closing heq haccepts hafter hfold
    exact ⟨e, hlookup, Nat.lt_of_lt_of_le hnow hexpires⟩
  · rintro ⟨e, hlookup, hnow⟩
    exact (accounted_trace setup past).liveFlow setup hlookup hnow

/-- After any sequence of captured packets: a SYN of a program the rules do not leave alone,
and whatever goes to the private port, is rewritten; any other packet exactly if it belongs
to a live flow. -/
theorem owned_iff {past : List Captured} (hclock : InOrder past) (c : Captured) :
    (trackPacket setup (tableAfter setup {} past) c).2 = true ↔
      c.route setup = .redirectProxyToTarget ∨
        c.route setup = .reflectClientToProxy ∧ c.opening = true ∧ c.processBypass = false ∨
        ¬ (c.route setup = .reflectClientToProxy ∧ c.opening = true) ∧
          ∃ key, c.flowKey setup = some key ∧
            LiveFlow setup key (trace setup {} past) c.now := by
  simp only [liveFlow_iff setup hclock]
  generalize tableAfter setup {} past = table
  rw [trackPacket, Captured.flowKey]
  cases hroute : c.route setup with
  | pass => simp
  | reflectClientToProxy =>
      cases hsyn : c.opening with
      | false => simp [TcpFlowTable.track_live]
      | true => cases c.processBypass <;> simp
  | reflectProxyToClient => simp [TcpFlowTable.track_live]
  | redirectProxyToTarget => cases c.opening <;> simp
  | redirectTargetToProxy => simp [TcpFlowTable.track_live]

end Transparent

end SplitHello
