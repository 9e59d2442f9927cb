import SplitHello.Packet.FirstTls
import Mathlib.Algebra.Order.BigOperators.Group.List
import Mathlib.Algebra.Order.Group.Nat
import Mathlib.Algebra.Group.Action.Defs
import Mathlib.Algebra.Ring.Nat

/-!
# Sending a batch

A batch goes out in one call. When the call fails, the packets in front of the one that failed
are on the wire already, so that the rest is sent one by one. How many bytes are on the wire is
what the driver says; what it says is believed only if it ends at the end of a packet.
-/

namespace SplitHello

namespace Recovery

def maxWinDivertReadRetries : ℕ := 3

/-- Not enough memory, no system resources, the working set's quota, the commitment limit, not
enough quota. -/
def isTransientWinDivertReadError (error : UInt32) : Bool :=
  error ∈ ([8, 1450, 1453, 1455, 1816] : List UInt32)

def shouldRetryWinDivertRead (error : UInt32) (completedRetries : ℕ) : Bool :=
  isTransientWinDivertReadError error && completedRetries < maxWinDivertReadRetries

end Recovery

namespace Packet

open ByteString Recovery

def fatalSendFailures : UInt32 := 16
def fatalSendWindowMs : UInt64 := 500
def sendStreakGapMs : UInt64 := 1000

/-- What the driver, the clock and the other threads do: how each send of one packet ends, what
each look at the clock shows, and whether the engine has been stopped before each look at
`running_`. -/
structure World where
  error : ℕ → Option UInt32
  nowMs : ℕ → UInt64
  stopped : ℕ → Bool

structure SendState where
  running : Bool := true
  failedSends : UInt32 := 0
  streakStartMs : UInt64 := 0
  lastFailureMs : UInt64 := 0
  fatalErrorCode : Option UInt32 := none
  /-- The packets that were handed to the driver one by one. -/
  sends : List (Bytes × DivertAddress) := []
  clocks : ℕ := 0
  looks : ℕ := 0

section

variable (w : World)

/-- A look at `running_`, which another thread may have cleared. -/
def look (s : SendState) : SendState :=
  { s with running := s.running && !w.stopped s.looks, looks := s.looks + 1 }

def sendSucceeded (s : SendState) : SendState := { s with failedSends := 0 }

/-- The engine does not run on when the run of failures says that the handle is gone. -/
def sendFailed (error : UInt32) (s : SendState) : Bool × SendState :=
  let nowMs := w.nowMs s.clocks
  let restarts : Bool := s.failedSends = 0 || sendStreakGapMs < nowMs - s.lastFailureMs
  let streakStartMs := if restarts then nowMs else s.streakStartMs
  let failedSends := (if restarts then 0 else s.failedSends) + 1
  let s := { s with failedSends, streakStartMs, lastFailureMs := nowMs, clocks := s.clocks + 1 }
  if fatalSendFailures ≤ failedSends ∧ fatalSendWindowMs ≤ nowMs - streakStartMs then
    (false, { s with fatalErrorCode := some error, running := false })
  else (true, s)

/-- The loop of `sendOne`, with no result while it has not come to its end. -/
def sendOneLoop (packet : Bytes × DivertAddress) :
    ℕ → ℕ → SendState → Option (Option UInt32 × SendState)
  | 0, _, _ => none
  | rounds + 1, retries, s =>
      let answer := w.error s.sends.length
      let s := { s with sends := s.sends ++ [packet] }
      match answer with
      | none => some (none, s)
      | some error =>
          let s := look w s
          if s.running = false ∨ shouldRetryWinDivertRead error retries = false then
            some (some error, s)
          else sendOneLoop packet rounds (retries + 1) s

/-- The error of the last try, or none if the packet has been sent. -/
def sendOne (data : Bytes) (address : DivertAddress) (s : SendState) :
    Option (Option UInt32 × SendState) :=
  sendOneLoop w (data, address) (maxWinDivertReadRetries + 1) 0 s

/-! ## Resuming -/

/-- The bytes of whole packets that are covered by what the driver has sent. -/
def coverLoop (sentBytes : UInt32) : List ℕ → UInt32 → ℕ → UInt32 × ℕ
  | [], covered, next => (covered, next)
  | length :: lengths, covered, next =>
      if covered + UInt32.ofNat length ≤ sentBytes then
        coverLoop sentBytes lengths (covered + UInt32.ofNat length) (next + 1)
      else (covered, next)

/-- The first packet that is sent again. -/
def resumeIndex (batch : PacketBatch) (sentBytes : UInt32) : ℕ :=
  let (covered, next) := coverLoop sentBytes batch.lengths 0 0
  if covered ≠ sentBytes then 0 else next

/-- The loop that sends one by one, with so many packets left. -/
def resendLoop (batch : PacketBatch) : ℕ → ℕ → ℕ → SendState → Option SendState
  | 0, _, _, s => some s
  | left + 1, i, offset, s =>
      let s := look w s
      if s.running = false then some s
      else
        let length := batch.lengths.getD i 0
        let address := batch.addresses.getD i { outbound := false }
        (sendOne w ((batch.bytes.drop offset).take length) address s).bind fun
          | (none, s) => resendLoop batch left (i + 1) (offset + length) (sendSucceeded s)
          | (some error, s) =>
              let s := look w s
              if s.running = true then
                let (goesOn, s) := sendFailed w error s
                if goesOn then resendLoop batch left (i + 1) (offset + length) s else some s
              else resendLoop batch left (i + 1) (offset + length) s

def resend (batch : PacketBatch) (next : ℕ) (s : SendState) : Option SendState :=
  resendLoop w batch (batch.count - next) next (batch.lengths.take next).sum s

/-- The send at the end of a read; the call for the whole batch succeeds, or fails with a count
of the bytes it has sent. -/
def sendBatch (batch : PacketBatch) (failed : Option UInt32) (s : SendState) : Option SendState :=
  if batch.count = 0 then some s
  else if batch.count > 1 then
    match failed with
    | none => some (sendSucceeded s)
    | some sentBytes =>
        let s := look w s
        if s.running = false then some s else resend w batch (resumeIndex batch sentBytes) s
  else resend w batch 0 s

end

/-! ## What the driver says it has sent -/

section

variable {sentBytes : UInt32}

/-- The loop goes on as long as the next packet is covered as well. -/
theorem coverLoop_spec {lengths : List ℕ} {covered : UInt32} {next : ℕ}
    (hfits : covered.toNat + lengths.sum < 2 ^ 32) (hcovered : covered ≤ sentBytes) :
    ∃ n ≤ lengths.length,
      (coverLoop sentBytes lengths covered next).2 = next + n ∧
      (coverLoop sentBytes lengths covered next).1.toNat =
        covered.toNat + (lengths.take n).sum ∧
      covered.toNat + (lengths.take n).sum ≤ sentBytes.toNat ∧
      (n < lengths.length → sentBytes.toNat < covered.toNat + (lengths.take (n + 1)).sum) := by
  induction lengths generalizing covered next with
  | nil => exact ⟨0, Nat.le_refl 0, rfl, rfl, hcovered, fun h => absurd h (Nat.lt_irrefl 0)⟩
  | cons length lengths ih =>
      rw [List.sum_cons] at hfits
      have hadd : (covered + UInt32.ofNat length).toNat = covered.toNat + length := by
        rw [UInt32.toNat_add, UInt32.toNat_ofNat_of_lt' (by rw [UInt32.size]; omega)]
        exact Nat.mod_eq_of_lt (by omega)
      rw [coverLoop]
      by_cases hmore : covered + UInt32.ofNat length ≤ sentBytes
      · obtain ⟨n, hn, hnext, hbytes, hle, hlast⟩ :=
          @ih _ (next + 1) (by rw [hadd]; omega) hmore
        rw [if_pos hmore]
        rw [hadd] at hbytes hle hlast
        refine ⟨n + 1, Nat.succ_le_succ hn, by omega, ?_, ?_, fun h => ?_⟩
        · rw [List.take_succ_cons, List.sum_cons]
          omega
        · rw [List.take_succ_cons, List.sum_cons]
          omega
        · have := hlast (Nat.lt_of_succ_lt_succ h)
          rw [List.take_succ_cons, List.sum_cons]
          omega
      · rw [if_neg hmore]
        refine ⟨0, Nat.zero_le _, rfl, rfl, hcovered, fun _ => ?_⟩
        rw [UInt32.le_iff_toNat_le, hadd] at hmore
        rw [List.take_succ_cons, List.take_zero, List.sum_singleton]
        omega

theorem sum_take_mono (lengths : List ℕ) {m n : ℕ} (h : m ≤ n) :
    (lengths.take m).sum ≤ (lengths.take n).sum :=
  ((List.take_prefix_take_left h).sublist).sum_le_sum fun _ _ => Nat.zero_le _

/-- The packets that are passed over end where the driver has stopped, if a packet ends there. -/
theorem resumeIndex_spec (sentBytes : UInt32) {batch : PacketBatch}
    (hfits : batch.lengths.sum < 2 ^ 32) :
    let next := resumeIndex batch sentBytes
    next ≤ batch.lengths.length ∧
      ((∃ n ≤ batch.lengths.length, (batch.lengths.take n).sum = sentBytes.toNat) →
        (batch.lengths.take next).sum = sentBytes.toNat) ∧
      ((¬ ∃ n ≤ batch.lengths.length, (batch.lengths.take n).sum = sentBytes.toNat) →
        next = 0) := by
  obtain ⟨n, hn, hnext, hbytes, hle, hlast⟩ := @coverLoop_spec sentBytes batch.lengths 0 0
    (by simpa using hfits) (UInt32.zero_le ..)
  rw [UInt32.toNat_zero, Nat.zero_add] at hbytes hle
  rw [Nat.zero_add] at hnext
  dsimp only
  rw [resumeIndex]
  dsimp only
  by_cases hend : (coverLoop sentBytes batch.lengths 0 0).1 = sentBytes
  · have hsum : (batch.lengths.take n).sum = sentBytes.toNat := by rw [← hbytes, hend]
    rw [if_neg (not_not.2 hend), hnext]
    exact ⟨hn, fun _ => hsum, fun hnone => absurd ⟨n, hn, hsum⟩ hnone⟩
  · rw [if_pos hend]
    refine ⟨Nat.zero_le _, ?_, fun _ => rfl⟩
    rintro ⟨m, hm, hsum⟩
    refine absurd ?_ hend
    have hmn : m ≤ n := by
      by_contra hlt
      have hmono := sum_take_mono batch.lengths (show n + 1 ≤ m by omega)
      have := hlast (by omega)
      rw [UInt32.toNat_zero, Nat.zero_add] at this
      omega
    have hmono := sum_take_mono batch.lengths hmn
    exact UInt32.toNat_inj.1 (by omega)

end

/-! ## One packet at a time -/

section

variable {w : World}

/-- What the driver gets for these packets: each of them, once or several times. -/
inductive Attempts : List (Bytes × DivertAddress) → List (Bytes × DivertAddress) → Prop
  | nil : Attempts [] []
  | cons (p : Bytes × DivertAddress) (retries : ℕ) {packets sends : List (Bytes × DivertAddress)}
      (h : Attempts packets sends) :
      Attempts (p :: packets) (List.replicate (retries + 1) p ++ sends)

theorem look_stopped {s : SendState} (h : (look w s).running = false) :
    s.running = false ∨ ∃ k, w.stopped k = true := by
  cases hrunning : s.running with
  | false => exact Or.inl rfl
  | true =>
      refine Or.inr ⟨s.looks, ?_⟩
      rw [look, hrunning, Bool.true_and, Bool.not_eq_false'] at h
      exact h

theorem sendFailed_spec (error : UInt32) {s : SendState} (h : s.running = true) :
    (sendFailed w error s).2.sends = s.sends ∧
      ((sendFailed w error s).1 = true → (sendFailed w error s).2.running = true) ∧
      ((sendFailed w error s).1 = false → (sendFailed w error s).2.running = false ∧
        fatalSendFailures ≤ (sendFailed w error s).2.failedSends) := by
  rw [sendFailed]
  dsimp only
  generalize (decide (s.failedSends = 0) ||
    decide (sendStreakGapMs < w.nowMs s.clocks - s.lastFailureMs)) = restarts
  generalize (if restarts = true then 0 else s.failedSends) + 1 = failedSends
  generalize (if restarts = true then w.nowMs s.clocks else s.streakStartMs) = streakStartMs
  by_cases hfatal : fatalSendFailures ≤ failedSends ∧
      fatalSendWindowMs ≤ w.nowMs s.clocks - streakStartMs
  · rw [if_pos hfatal]
    exact ⟨rfl, (fun h => by cases h), fun _ => ⟨rfl, hfatal.1⟩⟩
  · rw [if_neg hfatal]
    exact ⟨rfl, fun _ => h, fun h => by cases h⟩

theorem sendOneLoop_spec (packet : Bytes × DivertAddress) {rounds retries : ℕ} (s : SendState)
    (hrounds : maxWinDivertReadRetries < retries + rounds) (hpos : 0 < rounds) :
    ∃ error s' again, sendOneLoop w packet rounds retries s = some (error, s') ∧
      s'.sends = s.sends ++ List.replicate (again + 1) packet ∧
      (s'.running = false → s.running = false ∨ ∃ k, w.stopped k = true) := by
  induction rounds generalizing retries s with
  | zero => cases hpos
  | succ rounds ih =>
      rw [sendOneLoop]
      dsimp only
      cases w.error s.sends.length with
      | none => exact ⟨none, _, 0, rfl, rfl, Or.inl⟩
      | some error =>
          dsimp only
          split_ifs with hdone
          · exact ⟨some error, _, 0, rfl, rfl, fun h => look_stopped h⟩
          · rw [not_or, Bool.not_eq_false, Bool.not_eq_false] at hdone
            have hretry : retries < maxWinDivertReadRetries := by
              have hretry := hdone.2
              rw [shouldRetryWinDivertRead, Bool.and_eq_true, decide_eq_true_eq] at hretry
              exact hretry.2
            obtain ⟨error', s', again, heq, hsends, hstopped⟩ :=
              @ih (retries + 1) (look w { s with sends := s.sends ++ [packet] })
                (by omega) (by omega)
            refine ⟨error', s', again + 1, heq, ?_, fun h => ?_⟩
            · rw [hsends, look, List.append_assoc, List.replicate_succ (n := again + 1)]
              rfl
            · rcases hstopped h with h | h
              · exact look_stopped h
              · exact Or.inr h

theorem sendOne_spec (w : World) (data : Bytes) (address : DivertAddress) (s : SendState) :
    ∃ error s' again, sendOne w data address s = some (error, s') ∧
      s'.sends = s.sends ++ List.replicate (again + 1) (data, address) ∧
      (s'.running = false → s.running = false ∨ ∃ k, w.stopped k = true) :=
  sendOneLoop_spec _ s (by omega) (Nat.succ_pos _)

/-- What is left of a batch is cut out of its bytes at the right place. -/
theorem slice_ofPackets (front : List (Bytes × DivertAddress)) (p : Bytes × DivertAddress)
    (rest : List (Bytes × DivertAddress)) :
    let batch := PacketBatch.ofPackets (front ++ p :: rest)
    batch.lengths.getD front.length 0 = p.1.length ∧
      batch.addresses.getD front.length { outbound := false } = p.2 ∧
      (batch.bytes.drop (front.map fun q => q.1.length).sum).take p.1.length = p.1 := by
  have hfront : (front.map fun q => q.1.length).sum = (front.map Prod.fst).flatten.length := by
    rw [List.length_flatten, List.map_map]
    rfl
  rw [PacketBatch.ofPackets_eq, hfront]
  simp

/-- Everything that is left is handed to the driver, unless the engine stops before. -/
theorem resendLoop_spec (w : World) (front rest : List (Bytes × DivertAddress)) (s : SendState) :
    ∃ s' done sends,
      resendLoop w (PacketBatch.ofPackets (front ++ rest)) rest.length front.length
        (front.map fun q => q.1.length).sum s = some s' ∧
      s'.sends = s.sends ++ sends ∧ Attempts done sends ∧ done <+: rest ∧
      (s'.running = true → done = rest) ∧
      (s'.running = false →
        s.running = false ∨ (∃ k, w.stopped k = true) ∨ fatalSendFailures ≤ s'.failedSends) := by
  induction rest generalizing front s with
  | nil =>
      exact ⟨s, [], [], rfl, (List.append_nil _).symm, .nil, List.prefix_refl _, fun _ => rfl,
        Or.inl⟩
  | cons p rest ih =>
      rw [List.length_cons, resendLoop]
      dsimp only
      have hlook := look_stopped (w := w) (s := s)
      by_cases hstopped : (look w s).running = false
      · rw [if_pos hstopped]
        refine ⟨_, [], [], rfl, (List.append_nil _).symm, .nil, List.nil_prefix, ?_, fun _ => ?_⟩
        · intro hrunning
          rw [hstopped] at hrunning
          cases hrunning
        · exact (hlook hstopped).imp_right Or.inl
      rw [if_neg hstopped]
      obtain ⟨hlength, haddress, hslice⟩ := slice_ofPackets front p rest
      rw [hlength, haddress, hslice]
      obtain ⟨error, s₁, again, hsend, hsends, hstop⟩ := sendOne_spec w p.1 p.2 (look w s)
      rw [hsend, Option.bind_some]
      have hstop' : s₁.running = false → ∃ k, w.stopped k = true :=
        fun h => (hstop h).resolve_left hstopped
      -- The loop behind this packet, from whatever state it is entered in.
      have hbehind : ∀ s₂ : SendState, s₂.sends = s₁.sends →
          (s₂.running = false → ∃ k, w.stopped k = true) →
          ∃ s' done sends,
            resendLoop w (PacketBatch.ofPackets (front ++ p :: rest)) rest.length
              (front.length + 1) ((front.map fun q => q.1.length).sum + p.1.length) s₂ = some s' ∧
            s'.sends = s.sends ++ sends ∧ Attempts done sends ∧ done <+: p :: rest ∧
            (s'.running = true → done = p :: rest) ∧
            (s'.running = false → s.running = false ∨ (∃ k, w.stopped k = true) ∨
              fatalSendFailures ≤ s'.failedSends) := by
        intro s₂ hs₂ hrunning
        obtain ⟨s', done, sends, heq, hsent, hattempts, hprefix, hall, hend⟩ :=
          ih (front ++ [p]) s₂
        rw [List.append_assoc, List.singleton_append, List.length_append, List.length_singleton,
          List.map_append, List.sum_append, List.map_singleton, List.sum_singleton] at heq
        refine ⟨s', p :: done, List.replicate (again + 1) p ++ sends, heq, ?_,
          .cons p again hattempts, ?_, fun h => by rw [hall h], fun h => ?_⟩
        · rw [hsent, hs₂, hsends, look, List.append_assoc]
        · exact List.cons_prefix_cons.2 ⟨rfl, hprefix⟩
        · rcases hend h with h | h
          · exact Or.inr (Or.inl (hrunning h))
          · exact Or.inr h
      cases error with
      | none => exact hbehind (sendSucceeded s₁) rfl hstop'
      | some error =>
          dsimp only
          have hlook₁ := look_stopped (w := w) (s := s₁)
          by_cases hrunning : (look w s₁).running = true
          · rw [if_pos hrunning]
            obtain ⟨hkept, hgoes, hfatal⟩ := sendFailed_spec (w := w) error hrunning
            cases hgoesOn : (sendFailed w error (look w s₁)).1 with
            | true =>
                rw [if_pos rfl]
                refine hbehind _ hkept fun h => ?_
                rw [hgoes hgoesOn] at h
                cases h
            | false =>
                rw [if_neg (by decide)]
                refine ⟨_, [p], List.replicate (again + 1) p ++ [], rfl, ?_, .cons p again .nil,
                  ?_, fun h => ?_, fun _ => Or.inr (Or.inr (hfatal hgoesOn).2)⟩
                · rw [hkept, List.append_nil]
                  exact hsends
                · exact List.cons_prefix_cons.2 ⟨rfl, List.nil_prefix⟩
                · rw [(hfatal hgoesOn).1] at h
                  cases h
          · rw [if_neg hrunning]
            refine hbehind _ rfl fun h => ?_
            rcases hlook₁ h with h | h
            · exact hstop' h
            · exact h

end

/-! ## The batches of the loop -/

/-- The packets that are queued for a read; `WinDivertSendEx` takes how many bytes they are as a
`UINT`. There are no more than two for each of the 64 that one read captures. -/
structure Queued where
  packets : List (Bytes × DivertAddress)
  fits : (packets.map fun p => p.1.length).sum < 2 ^ 32

def Queued.batch (queued : Queued) : PacketBatch := PacketBatch.ofPackets queued.packets

/-- After a failed send of the whole batch no packet is left out: what is passed over ends where
the driver says that it has stopped, and everything behind it is handed to the driver in order,
each packet with its own bytes and address and at least once, whatever becomes of it, as long as
the engine is not stopped and the sends do not fail in a fatal run. -/
theorem sendBatch_skips_none (queued : Queued) (h : 1 < queued.packets.length) (w : World)
    (sentBytes : UInt32) (s : SendState) :
    let next := resumeIndex queued.batch sentBytes
    let ends := fun n => ((queued.packets.take n).map fun p => p.1.length).sum = sentBytes.toNat
    (next ≤ queued.packets.length ∧ ((∃ n ≤ queued.packets.length, ends n) → ends next) ∧
      ((¬ ∃ n ≤ queued.packets.length, ends n) → next = 0)) ∧
    ∃ s' done sends, sendBatch w queued.batch (some sentBytes) s = some s' ∧
      s'.sends = s.sends ++ sends ∧ Attempts done sends ∧ done <+: queued.packets.drop next ∧
      (s'.running = true → done = queued.packets.drop next) ∧
      (s'.running = false →
        s.running = false ∨ (∃ k, w.stopped k = true) ∨ fatalSendFailures ≤ s'.failedSends) := by
  intro next ends
  have hbatch : queued.batch = ⟨(queued.packets.map Prod.fst).flatten,
      queued.packets.map Prod.snd, queued.packets.map fun p => p.1.length⟩ :=
    PacketBatch.ofPackets_eq queued.packets
  have hlengths : queued.batch.lengths = queued.packets.map fun p => p.1.length := by rw [hbatch]
  have hcount : queued.batch.count = queued.packets.length := by
    rw [hbatch, PacketBatch.count, List.length_map]
  have hspec := resumeIndex_spec sentBytes (by rw [hlengths]; exact queued.fits)
  dsimp only at hspec
  rw [hlengths, List.length_map] at hspec
  simp only [← List.map_take] at hspec
  refine ⟨hspec, ?_⟩
  rw [sendBatch, hcount, if_neg (by omega), if_pos h]
  dsimp only
  by_cases hstopped : (look w s).running = false
  · rw [if_pos hstopped]
    refine ⟨_, [], [], rfl, (List.append_nil _).symm, .nil, List.nil_prefix, fun hrunning => ?_,
      fun _ => ?_⟩
    · rw [hstopped] at hrunning
      cases hrunning
    · exact (look_stopped hstopped).imp_right Or.inl
  · rw [if_neg hstopped, resend, hcount, hlengths]
    obtain ⟨s', done, sends, heq, hsends, hattempts, hprefix, hall, hend⟩ :=
      resendLoop_spec w (queued.packets.take next) (queued.packets.drop next) (look w s)
    rw [List.take_append_drop, List.length_drop, List.length_take,
      Nat.min_eq_left hspec.1, List.map_take] at heq
    refine ⟨s', done, sends, heq, hsends, hattempts, hprefix, hall, fun hrunning => ?_⟩
    exact Or.inr ((hend hrunning).resolve_left hstopped)

theorem sendBatch_skips_none_sample :
    let queued : Queued := ⟨[([1, 2], { outbound := true }), ([3], { outbound := true })], by simp⟩
    let next := resumeIndex queued.batch 2
    let ends := fun n => ((queued.packets.take n).map fun p => p.1.length).sum = 2
    (next ≤ queued.packets.length ∧ ((∃ n ≤ queued.packets.length, ends n) → ends next) ∧
      ((¬ ∃ n ≤ queued.packets.length, ends n) → next = 0)) ∧
    ∃ s' done sends, sendBatch ⟨fun _ => some 5, fun _ => 0, fun _ => false⟩ queued.batch (some 2)
        {} = some s' ∧
      s'.sends = [] ++ sends ∧ Attempts done sends ∧ done <+: queued.packets.drop next ∧
      (s'.running = true → done = queued.packets.drop next) ∧
      (s'.running = false → true = false ∨ (∃ _ : ℕ, false = true) ∨
        fatalSendFailures ≤ s'.failedSends) :=
  sendBatch_skips_none ⟨[([1, 2], { outbound := true }), ([3], { outbound := true })], by simp⟩
    (by decide) ⟨fun _ => some 5, fun _ => 0, fun _ => false⟩ 2 {}

end Packet

end SplitHello
