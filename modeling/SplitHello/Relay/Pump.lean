import SplitHello.Library.Conduit
import SplitHello.Library.Machine
import SplitHello.Relay.Socket

/-!
# The pump

`pump` carries bytes between the client and the target, both ways at once, over one
`select` loop and one read buffer. A step of the model goes up to the next answer of a
socket, so that every moment of a `sendSome` is a state of its own. What a step asks of the
sockets is its output. Either way of the pump is a conduit.
-/

namespace SplitHello

namespace Relay

open ByteString Conduit Machine

def kPumpBufferSize : ℕ := 64 * 1024
def kHalfClosedLingerMs : UInt32 := 30 * 1000
def kPumpMaxWaitMs : UInt64 := 1000

inductive Peer
  | client
  | target
  deriving DecidableEq, Repr

inductive Way
  | upstream
  | downstream
  deriving DecidableEq, Repr

def Way.source : Way → Peer
  | .upstream => .client
  | .downstream => .target

def Way.to : Way → Peer
  | .upstream => .target
  | .downstream => .client

theorem Way.source_inj {w w' : Way} : w.source = w'.source ↔ w = w' := by
  cases w <;> cases w' <;> simp [Way.source]

theorem Way.to_inj {w w' : Way} : w.to = w'.to ↔ w = w' := by
  cases w <;> cases w' <;> simp [Way.to]

structure Direction where
  pending : Bytes := []
  offset : ℕ := 0
  eof : Bool := false
  deriving DecidableEq, Repr

def Direction.finished (direction : Direction) : Bool :=
  direction.eof && direction.pending.isEmpty

structure FdSet where
  client : Bool := false
  target : Bool := false
  deriving DecidableEq, Repr

def FdSet.isSet (set : FdSet) : Peer → Bool
  | .client => set.client
  | .target => set.target

def FdSet.add (set : FdSet) : Peer → FdSet
  | .client => { set with client := true }
  | .target => { set with target := true }

/-- What one `recv` call answers; no bytes are the end of the stream. -/
inductive ReadResult
  | data (bytes : Bytes)
  | wouldBlock
  | failed
  deriving DecidableEq, Repr

inductive SelectResult
  | ready (readable writable : FdSet)
  | timedOut
  | failed
  deriving DecidableEq, Repr

namespace Pump

/-- What a step meets outside. -/
structure Input where
  nonBlocking : Bool := true
  stopping : Bool := false
  nowMs : UInt64 := 0
  select : SelectResult := .timedOut
  recv : ReadResult := .wouldBlock
  send : SendResult := .wouldBlock
  deriving DecidableEq, Repr

/-- What is asked of the sockets, with what came of it: a `send` that took nothing has no
bytes. -/
inductive Call
  | select (readable writable : FdSet) (sec usec : ℕ)
  | recv (source : Peer) (answer : ReadResult)
  | send (dest : Peer) (bytes : Bytes)
  | shutdown (dest : Peer)
  deriving DecidableEq, Repr

/-- The bytes a `sendSome` was called with. -/
inductive Origin
  | pending
  | buffer (received : ℕ)
  deriving DecidableEq, Repr

/-- Where the loop stands. -/
inductive Phase
  | start
  | top
  | visit (way : Way) (readable writable : FdSet)
  | sending (way : Way) (readable writable : FdSet) (origin : Origin) (sent : ℕ)
  deriving DecidableEq, Repr

inductive Exit
  | blocking
  | stopped
  | bothFinished
  | idle
  | selectFailed
  | aborted
  deriving DecidableEq, Repr

end Pump

open Pump

structure Pump where
  upstream : Direction := {}
  downstream : Direction := {}
  buffer : Bytes := []
  lastActivity : UInt64 := 0
  abortive : Bool := false
  phase : Phase := .start
  exit : Option Exit := none
  deriving DecidableEq, Repr

namespace Pump

def direction (p : Pump) : Way → Direction
  | .upstream => p.upstream
  | .downstream => p.downstream

def setDirection (p : Pump) (way : Way) (direction : Direction) : Pump :=
  match way with
  | .upstream => { p with upstream := direction }
  | .downstream => { p with downstream := direction }

def leave (p : Pump) (exit : Exit) : Pump := { p with exit := some exit }

def abort (p : Pump) : Pump := { p with abortive := true, exit := some .aborted }

/-- On to the other direction, or back to the top of the loop. -/
def next (p : Pump) (way : Way) (readable writable : FdSet) : Pump :=
  { p with
    phase :=
      match way with
      | .upstream => .visit .downstream readable writable
      | .downstream => .top }

/-- What a direction waits for. -/
def watch (p : Pump) (sets : FdSet × FdSet) (way : Way) : FdSet × FdSet :=
  let direction := p.direction way
  if direction.finished then sets
  else if !direction.pending.isEmpty then (sets.1, sets.2.add way.to)
  else (sets.1.add way.source, sets.2)

/-- How long nothing may come or go. -/
def idleLimit (p : Pump) (idleTimeoutMs : UInt32) : UInt32 :=
  if p.upstream.eof || p.downstream.eof then min kHalfClosedLingerMs idleTimeoutMs
  else idleTimeoutMs

/-- The loop up to the answer of `select`. -/
def turn (idleTimeoutMs : UInt32) (p : Pump) (i : Input) : Pump × List Call :=
  if i.stopping then (p.leave .stopped, [])
  else if p.upstream.finished && p.downstream.finished then (p.leave .bothFinished, [])
  else
    let (readable, writable) := [Way.upstream, Way.downstream].foldl p.watch ({}, {})
    let idleLimit := p.idleLimit idleTimeoutMs
    let idle := i.nowMs - p.lastActivity
    if idle ≥ idleLimit.toUInt64 then (p.leave .idle, [])
    else
      let waitMs := (min (idleLimit.toUInt64 - idle) kPumpMaxWaitMs).toNat
      let calls := [Call.select readable writable (waitMs / 1000) (waitMs % 1000 * 1000)]
      match i.select with
      | .failed => (p.leave .selectFailed, calls)
      | .timedOut => (p, calls)
      | .ready readable writable => ({ p with phase := .visit .upstream readable writable }, calls)

/-- The body of the loop for one direction, up to the call of `sendSome`. -/
def visit (p : Pump) (way : Way) (readable writable : FdSet) (i : Input) : Pump × List Call :=
  let direction := p.direction way
  if direction.finished then (p.next way readable writable, [])
  else if !direction.pending.isEmpty then
    if !writable.isSet way.to then (p.next way readable writable, [])
    else ({ p with phase := .sending way readable writable .pending 0 }, [])
  else if !readable.isSet way.source then (p.next way readable writable, [])
  else
    match i.recv with
    | .wouldBlock => (p.next way readable writable, [.recv way.source .wouldBlock])
    | .failed => (p.abort, [.recv way.source .failed])
    | .data bytes =>
        let bytes := bytes.take kPumpBufferSize
        let p := { p with lastActivity := i.nowMs }
        if bytes.isEmpty then
          ((p.setDirection way { direction with eof := true }).next way readable writable,
            [.recv way.source (.data bytes), .shutdown way.to])
        else
          ({ p with
              buffer := bytes ++ p.buffer.drop bytes.length
              phase := .sending way readable writable (.buffer bytes.length) 0 },
            [.recv way.source (.data bytes)])

/-- The bytes of a `sendSome`. -/
def payload (p : Pump) (way : Way) : Origin → Bytes
  | .pending => (p.direction way).pending.drop (p.direction way).offset
  | .buffer received => p.buffer.take received

/-- The body of the loop after a `sendSome` that was not a failure. -/
def settle (p : Pump) (way : Way) (readable writable : FdSet) (origin : Origin) (sent : ℕ)
    (i : Input) : Pump × List Call :=
  let direction := p.direction way
  match origin with
  | .pending =>
      let p := { p with lastActivity := if sent > 0 then i.nowMs else p.lastActivity }
      let offset := direction.offset + sent
      if offset = direction.pending.length then
        ((p.setDirection way { direction with pending := [], offset := 0 }).next way
            readable writable,
          if direction.eof then [.shutdown way.to] else [])
      else ((p.setDirection way { direction with offset }).next way readable writable, [])
  | .buffer received =>
      if sent < received then
        ((p.setDirection way
              { direction with pending := (p.buffer.take received).drop sent, offset := 0 }).next
            way readable writable, [])
      else (p.next way readable writable, [])

/-- One round of `sendSome`. -/
def sendSome (p : Pump) (way : Way) (readable writable : FdSet) (origin : Origin) (sent : ℕ)
    (i : Input) : Pump × List Call :=
  let data := p.payload way origin
  if sent < data.length then
    let chunk := (data.drop sent).take maxSendChunk
    match i.send with
    | .wouldBlock =>
        let r := p.settle way readable writable origin sent i
        (r.1, .send way.to [] :: r.2)
    | .failed => (p.abort, [.send way.to []])
    | .accepted n =>
        let written := chunk.take n
        if written.isEmpty then (p.abort, [.send way.to []])
        else
          ({ p with phase := .sending way readable writable origin (sent + written.length) },
            [.send way.to written])
  else p.settle way readable writable origin sent i

/-- One step of `pump`. -/
def step (idleTimeoutMs : UInt32) (p : Pump) (i : Input) : Pump × List Call :=
  if p.exit.isSome then (p, [])
  else
    match p.phase with
    | .start =>
        if i.nonBlocking then ({ p with lastActivity := i.nowMs, phase := .top }, [])
        else (p.leave .blocking, [])
    | .top => p.turn idleTimeoutMs i
    | .visit way readable writable => p.visit way readable writable i
    | .sending way readable writable origin sent =>
        p.sendSome way readable writable origin sent i

/-- What the pump asks of the sockets. -/
def calls (idleTimeoutMs : UInt32) (inputs : List Input) : List Call :=
  (outputs (step idleTimeoutMs) {} inputs).flatten

/-! ## What a way of the pump has carried -/

/-- What a call is to a way. -/
def Call.event (way : Way) : Call → Option (Event UInt8)
  | .recv source (.data bytes) =>
      if source = way.source then some (if bytes.isEmpty then .eof else .receive bytes) else none
  | .send dest bytes => if dest = way.to then some (.send bytes) else none
  | .shutdown dest => if dest = way.to then some .finish else none
  | _ => none

def events (way : Way) (calls : List Call) : List (Event UInt8) := calls.filterMap (Call.event way)

def Call.received (way : Way) : Call → Bytes
  | .recv source (.data bytes) => if source = way.source then bytes else []
  | _ => []

def Call.sent (way : Way) : Call → Bytes
  | .send dest bytes => if dest = way.to then bytes else []
  | _ => []

/-- The bytes read from the source of a way. -/
def received (way : Way) (calls : List Call) : Bytes := calls.flatMap (Call.received way)

/-- The bytes its destination took. -/
def sent (way : Way) (calls : List Call) : Bytes := calls.flatMap (Call.sent way)

/-- The bytes of a way that were read and not sent: while they are being sent for the first
time they are still in the read buffer. -/
def unsent (p : Pump) (way : Way) : Bytes :=
  match p.phase with
  | .sending way' _ _ origin sent =>
      if way' = way then (p.payload way origin).drop sent else p.payload way .pending
  | _ => p.payload way .pending

/-- A way of the pump as a conduit. -/
def conduit (p : Pump) (way : Way) : State UInt8 := ⟨p.unsent way, (p.direction way).eof⟩

/-- Bytes wait only in a direction whose source goes on, and a `sendSome` is about bytes that
are there. -/
structure Sound (p : Pump) : Prop where
  ended : ∀ way, (p.direction way).eof = true → (p.direction way).pending = []
  sending : ∀ way readable writable origin sent,
    p.phase = .sending way readable writable origin sent →
      sent ≤ (p.payload way origin).length ∧ (p.direction way).eof = false ∧
        ∀ n, origin = .buffer n → (p.direction way).pending = [] ∧ n ≤ p.buffer.length

section

variable {p : Pump} {way : Way} {readable writable : FdSet} {origin : Origin} {sent : ℕ} {i : Input}

@[simp] theorem direction_setDirection (p : Pump) (way way' : Way) (direction : Direction) :
    (p.setDirection way direction).direction way' =
      if way' = way then direction else p.direction way' := by
  cases way <;> cases way' <;> rfl

@[simp] theorem direction_next (p : Pump) (way way' : Way) (readable writable : FdSet) :
    (p.next way readable writable).direction way' = p.direction way' := by
  cases way' <;> rfl

theorem conduit_next (p : Pump) (way way' : Way) (readable writable : FdSet) :
    (p.next way readable writable).conduit way' =
      ⟨p.payload way' .pending, (p.direction way').eof⟩ := by
  cases way <;> cases way' <;> rfl

theorem Sound.of_next (h : ∀ way', (p.direction way').eof = true → (p.direction way').pending = [])
    (way : Way) (readable writable : FdSet) : Sound (p.next way readable writable) where
  ended way' := by simpa using h way'
  sending way' r w origin sent hphase := by cases way <;> cases hphase

/-- The direction of a way is replaced, and the pump goes on to the next one. -/
theorem Sound.next_setDirection (h : Sound p) {q : Pump}
    (hq : ∀ way', q.direction way' = p.direction way') {direction : Direction}
    (hended : direction.eof = true → direction.pending = []) :
    Sound ((q.setDirection way direction).next way readable writable) := by
  refine Sound.of_next (fun way' heof => ?_) _ _ _
  rw [direction_setDirection] at heof ⊢
  split at heof <;> rename_i hway
  · rw [if_pos hway]
    exact hended heof
  · rw [if_neg hway, hq]
    rw [hq] at heof
    exact h.ended way' heof

theorem events_append (way : Way) (a b : List Call) :
    events way (a ++ b) = events way a ++ events way b :=
  List.filterMap_append

/-- A call that reads from the source of a way or writes to its destination. -/
def Call.Of (way : Way) : Call → Prop
  | .select .. => False
  | .recv source _ => source = way.source
  | .send dest _ => dest = way.to
  | .shutdown dest => dest = way.to

/-- The calls of a way are nothing to the other one. -/
theorem events_of_ne {way' : Way} (h : way' ≠ way) {calls : List Call}
    (hcalls : ∀ call ∈ calls, call.Of way) : events way' calls = [] := by
  rw [events, List.filterMap_eq_nil_iff]
  intro call hcall
  have hof := hcalls call hcall
  cases call with
  | select => rfl
  | recv source answer =>
      rw [Call.Of] at hof
      cases answer <;> simp [Call.event, hof, Way.source_inj, h.symm]
  | send dest bytes =>
      rw [Call.Of] at hof
      simp [Call.event, hof, Way.to_inj, h.symm]
  | shutdown dest =>
      rw [Call.Of] at hof
      simp [Call.event, hof, Way.to_inj, h.symm]

/-- Between two sends everything unsent is pending. -/
theorem conduit_of_between (h : ∀ w r wr o n, p.phase ≠ .sending w r wr o n) (way : Way) :
    p.conduit way = ⟨p.payload way .pending, (p.direction way).eof⟩ := by
  rw [conduit, unsent]
  split
  · rename_i hphase
    exact absurd hphase (h _ _ _ _ _)
  · rfl

theorem conduit_of_sending (h : p.phase = .sending way readable writable origin sent) :
    p.conduit way = ⟨(p.payload way origin).drop sent, (p.direction way).eof⟩ := by
  rw [conduit, unsent, h]
  simp

theorem conduit_of_sending_ne (h : p.phase = .sending way readable writable origin sent)
    {way' : Way} (hne : way' ≠ way) :
    p.conduit way' = ⟨p.payload way' .pending, (p.direction way').eof⟩ := by
  rw [conduit, unsent, h]
  simp [hne.symm]

/-- A step keeps the pump sound, and is a run of either conduit. -/
structure Moves (p : Pump) (r : Pump × List Call) : Prop where
  sound : Sound r.1
  carries : ∀ way, Steps (p.conduit way) (events way r.2) (r.1.conduit way)

theorem Moves.idle {r : Pump × List Call} (hsound : Sound r.1)
    (hconduit : ∀ way, r.1.conduit way = p.conduit way) (hevents : ∀ way, events way r.2 = []) :
    Moves p r where
  sound := hsound
  carries way := by
    rw [hconduit, hevents]
    exact Steps.nil _

/-- All that happens happens to one way. -/
theorem Moves.of_way (way : Way) {r : Pump × List Call} (hsound : Sound r.1)
    (hway : Steps (p.conduit way) (events way r.2) (r.1.conduit way))
    (hcalls : ∀ call ∈ r.2, call.Of way)
    (hother : ∀ way', way' ≠ way → r.1.conduit way' = p.conduit way') : Moves p r where
  sound := hsound
  carries way' := by
    rcases eq_or_ne way' way with rfl | hne
    · exact hway
    · rw [hother way' hne, events_of_ne hne hcalls]
      exact Steps.nil _

theorem Sound.leave (h : Sound p) (exit : Exit) : Sound (p.leave exit) := ⟨h.ended, h.sending⟩

theorem Sound.abort (h : Sound p) : Sound p.abort := ⟨h.ended, h.sending⟩

theorem turn_moves (h : Sound p) (hphase : p.phase = .top) (idleTimeoutMs : UInt32) (i : Input) :
    Moves p (p.turn idleTimeoutMs i) := by
  have hleave : ∀ exit, Moves p (p.leave exit, []) := fun exit =>
    Moves.idle (h.leave exit) (fun _ => rfl) fun _ => rfl
  rw [turn]
  split
  · exact hleave _
  split
  · exact hleave _
  dsimp only
  split
  · exact hleave _
  split
  · exact Moves.idle (h.leave _) (fun _ => rfl) fun _ => rfl
  · exact Moves.idle h (fun _ => rfl) fun _ => rfl
  · refine Moves.idle ⟨h.ended, nofun⟩ (fun way => ?_) fun _ => rfl
    rw [conduit_of_between (by simp), conduit_of_between (by simp [hphase])]
    cases way <;> rfl

theorem next_moves (h : Sound p) (hphase : p.phase = .visit way readable writable)
    {calls : List Call} (hevents : ∀ way', events way' calls = []) :
    Moves p (p.next way readable writable, calls) := by
  refine Moves.idle (Sound.of_next h.ended way readable writable) (fun way' => ?_) hevents
  rw [conduit_next, conduit_of_between (by simp [hphase])]

/-- The end of a source whose bytes have all been sent. -/
theorem eof_moves (h : Sound p) (hphase : p.phase = .visit way readable writable)
    (hpending : (p.direction way).pending = []) (heof : (p.direction way).eof = false)
    (nowMs : UInt64) :
    Moves p
      ((({ p with lastActivity := nowMs } : Pump).setDirection way
          { p.direction way with eof := true }).next way readable writable,
        [.recv way.source (.data []), .shutdown way.to]) := by
  have hbetween := conduit_of_between (p := p) (by simp [hphase])
  refine Moves.of_way way (h.next_setDirection (q := { p with lastActivity := nowMs })
    (fun _ => rfl) fun _ => hpending) ?_ ?_ ?_
  · have hevents : events way [Call.recv way.source (.data []), .shutdown way.to] =
        [.eof] ++ [.finish] := by
      simp [events, Call.event]
    rw [hevents, hbetween, conduit_next, payload, payload, direction_setDirection, if_pos rfl,
      hpending, heof, List.drop_nil]
    exact Step.eof.steps.append Step.finish.steps
  · simp [Call.Of]
  · intro way' hne
    rw [hbetween, conduit_next, payload, payload, direction_setDirection, if_neg hne]
    cases way' <;> rfl

/-- Bytes from a source of which nothing is pending go into the buffer. -/
theorem read_moves (h : Sound p) (hphase : p.phase = .visit way readable writable)
    (hpending : (p.direction way).pending = []) (heof : (p.direction way).eof = false)
    {bytes : Bytes} (hbytes : bytes ≠ []) (nowMs : UInt64) :
    Moves p
      ({ p with
          lastActivity := nowMs
          buffer := bytes ++ p.buffer.drop bytes.length
          phase := .sending way readable writable (.buffer bytes.length) 0 },
        [.recv way.source (.data bytes)]) := by
  have hbetween := conduit_of_between (p := p) (by simp [hphase])
  refine Moves.of_way way ⟨h.ended, ?_⟩ ?_ ?_ ?_
  · rintro way' r w origin sent ⟨⟩
    refine ⟨Nat.zero_le _, heof, fun n hn => ?_⟩
    cases hn
    exact ⟨hpending, by simp⟩
  · have hevents : events way [Call.recv way.source (.data bytes)] = [.receive bytes] := by
      simp [events, Call.event, hbytes]
    rw [hevents, hbetween, payload, hpending, heof, List.drop_nil, conduit_of_sending rfl,
      List.drop_zero, payload, List.take_left]
    change Steps _ _ ⟨bytes, (p.direction way).eof⟩
    rw [heof]
    exact (Step.receive bytes).steps
  · simp [Call.Of]
  · intro way' hne
    rw [hbetween, conduit_of_sending_ne rfl hne]
    cases way' <;> rfl

theorem visit_moves (h : Sound p) (hphase : p.phase = .visit way readable writable) (i : Input) :
    Moves p (p.visit way readable writable i) := by
  rw [visit]
  dsimp only
  by_cases hfinished : (p.direction way).finished = true
  · rw [if_pos hfinished]
    exact next_moves h hphase fun _ => rfl
  rw [if_neg hfinished]
  by_cases hpending : (p.direction way).pending = []
  · have heof : (p.direction way).eof = false := by
      simpa [Direction.finished, hpending] using hfinished
    rw [if_neg (by simp [hpending])]
    split
    · exact next_moves h hphase fun _ => rfl
    split
    · exact next_moves h hphase fun _ => rfl
    · exact Moves.idle h.abort (fun _ => rfl) fun _ => rfl
    · rename_i bytes _
      split
      · rename_i hnone
        rw [List.isEmpty_iff.1 hnone]
        exact eof_moves h hphase hpending heof i.nowMs
      · rename_i hsome
        exact read_moves h hphase hpending heof (fun hnil => hsome (by simp [hnil])) i.nowMs
  · rw [if_pos (by simpa using hpending)]
    split
    · exact next_moves h hphase fun _ => rfl
    -- What is pending is about to be sent.
    · refine Moves.idle ⟨h.ended, ?_⟩ (fun way' => ?_) fun _ => rfl
      · rintro way' r w origin sent ⟨⟩
        refine ⟨Nat.zero_le _, ?_, nofun⟩
        by_contra heof
        exact hpending (h.ended way (Bool.not_eq_false _ ▸ heof))
      · rw [conduit_of_between (p := p) (by simp [hphase])]
        rcases eq_or_ne way' way with rfl | hne
        · rw [conduit_of_sending rfl, List.drop_zero]
          rfl
        · rw [conduit_of_sending_ne rfl hne]
          rfl

/-- A `send` that took nothing changes nothing. -/
theorem Moves.after_nothing {r : Pump × List Call} (h : Moves p r) (way : Way) :
    Moves p (r.1, .send way.to [] :: r.2) where
  sound := h.sound
  carries way' := by
    have hnothing : Steps (p.conduit way') (events way' [.send way.to []]) (p.conduit way') := by
      rcases eq_or_ne way' way with rfl | hne
      · have hevents : events way' [Call.send way'.to []] = [.send []] := by
          simp [events, Call.event]
        rw [hevents]
        exact (Step.send [] _ _).steps
      · have hof : ∀ call ∈ [Call.send way.to []], call.Of way := by simp [Call.Of]
        rw [events_of_ne hne hof]
        exact Steps.nil _
    have hevents : events way' (.send way.to [] :: r.2) =
        events way' [.send way.to []] ++ events way' r.2 :=
      events_append way' [.send way.to []] r.2
    rw [hevents]
    exact hnothing.append (h.carries way')

@[simp] theorem setDirection_direction (p : Pump) (way : Way) :
    p.setDirection way (p.direction way) = p := by
  cases way <;> rfl

/-- What a `sendSome` left becomes pending. -/
theorem left_moves (h : Sound p) (hphase : p.phase = .sending way readable writable origin sent)
    {q : Pump} (hq : ∀ way', q.direction way' = p.direction way') {direction : Direction}
    (heof : direction.eof = false)
    (hleft : direction.pending.drop direction.offset = (p.payload way origin).drop sent) :
    Moves p ((q.setDirection way direction).next way readable writable, []) := by
  refine Moves.idle (h.next_setDirection hq fun hended => ?_) (fun way' => ?_) fun _ => rfl
  · rw [heof] at hended
    cases hended
  · rw [conduit_next, payload, direction_setDirection]
    rcases eq_or_ne way' way with rfl | hne
    · rw [if_pos rfl, hleft, heof, conduit_of_sending hphase, (h.sending _ _ _ _ _ hphase).2.1]
    · rw [if_neg hne, hq, conduit_of_sending_ne hphase hne, payload]

theorem settle_moves (h : Sound p) (hphase : p.phase = .sending way readable writable origin sent)
    (i : Input) : Moves p (p.settle way readable writable origin sent i) := by
  obtain ⟨hsent, heof, hbuffer⟩ := h.sending _ _ _ _ _ hphase
  cases origin with
  | pending =>
      rw [settle]
      have hq : ∀ way', ({ p with
          lastActivity := if sent > 0 then i.nowMs else p.lastActivity } : Pump).direction way' =
            p.direction way' := fun _ => rfl
      rw [heof, if_neg Bool.false_ne_true]
      split
      · rename_i hall
        refine left_moves h hphase hq ?_ ?_
        · rfl
        · rw [payload, List.drop_drop, hall, List.drop_length, List.drop_nil]
      · refine left_moves h hphase hq ?_ ?_
        · rfl
        · rw [payload, List.drop_drop]
  | buffer received =>
      obtain ⟨hpending, hreceived⟩ := hbuffer received rfl
      rw [settle]
      split
      · exact left_moves h hphase (fun _ => rfl) heof rfl
      · rename_i hall
        have hleft := left_moves h hphase (q := p) (fun _ => rfl) heof ?_
        · rwa [setDirection_direction] at hleft
        · rw [hpending, payload, List.drop_nil, List.drop_of_length_le]
          rw [List.length_take]
          omega

theorem sendSome_moves (h : Sound p)
    (hphase : p.phase = .sending way readable writable origin sent) (i : Input) :
    Moves p (p.sendSome way readable writable origin sent i) := by
  obtain ⟨hsent, heof, hbuffer⟩ := h.sending _ _ _ _ _ hphase
  have hidle : Moves p (p.abort, []) := Moves.idle h.abort (fun _ => rfl) fun _ => rfl
  have habort : Moves p (p.abort, [.send way.to []]) := hidle.after_nothing way
  rw [sendSome]
  dsimp only
  split
  · split
    · exact (settle_moves h hphase i).after_nothing way
    · exact habort
    · rename_i n _
      split
      · exact habort
      -- A piece has been taken.
      · have hpiece : ∃ rest, (p.payload way origin).drop sent =
            (((p.payload way origin).drop sent).take maxSendChunk).take n ++ rest := by
          rw [List.take_take]
          exact ⟨_, (List.take_append_drop _ _).symm⟩
        obtain ⟨rest, hrest⟩ := hpiece
        generalize (((p.payload way origin).drop sent).take maxSendChunk).take n = written
          at hrest ⊢
        have hlength := congrArg List.length hrest
        rw [List.length_drop, List.length_append] at hlength
        refine Moves.of_way way ⟨h.ended, ?_⟩ ?_ ?_ ?_
        · rintro way' r w origin' sent' ⟨⟩
          refine ⟨?_, heof, hbuffer⟩
          change sent + written.length ≤ (p.payload way origin).length
          omega
        · have hevents : events way [Call.send way.to written] = [.send written] := by
            simp [events, Call.event]
          have hafter : (p.payload way origin).drop (sent + written.length) = rest := by
            rw [← List.drop_drop, hrest, List.drop_left]
          rw [hevents, conduit_of_sending hphase, conduit_of_sending rfl, hrest]
          change Steps _ _ ⟨(p.payload way origin).drop (sent + written.length), _⟩
          rw [hafter]
          exact (Step.send written rest _).steps
        · simp [Call.Of]
        · intro way' hne
          rw [conduit_of_sending_ne hphase hne, conduit_of_sending_ne rfl hne]
          rfl
  · exact settle_moves h hphase i

theorem step_moves (h : Sound p) (idleTimeoutMs : UInt32) (i : Input) :
    Moves p (p.step idleTimeoutMs i) := by
  rw [step]
  split
  · exact Moves.idle h (fun _ => rfl) fun _ => rfl
  split <;> rename_i hphase
  · split
    · refine Moves.idle ⟨h.ended, nofun⟩ (fun way => ?_) fun _ => rfl
      rw [conduit_of_between (by simp), conduit_of_between (by simp [hphase])]
      rfl
    · exact Moves.idle (h.leave _) (fun _ => rfl) fun _ => rfl
  · exact turn_moves h hphase idleTimeoutMs i
  · exact visit_moves h hphase i
  · exact sendSome_moves h hphase i

/-! ## Reading, and leaving -/

@[simp] theorem exit_next (p : Pump) (way : Way) (readable writable : FdSet) :
    (p.next way readable writable).exit = p.exit := rfl

@[simp] theorem exit_setDirection (p : Pump) (way : Way) (direction : Direction) :
    (p.setDirection way direction).exit = p.exit := by
  cases way <;> rfl

@[simp] theorem exit_abort (p : Pump) : p.abort.exit = some .aborted := rfl

theorem exit_settle (p : Pump) (way : Way) (readable writable : FdSet) (origin : Origin)
    (sent : ℕ) (i : Input) : (p.settle way readable writable origin sent i).1.exit = p.exit := by
  cases origin with
  | pending => grind [settle, exit_next, exit_setDirection]
  | buffer received => grind [settle, exit_next, exit_setDirection]

theorem exit_visit (p : Pump) (way : Way) (readable writable : FdSet) (i : Input) :
    (p.visit way readable writable i).1.exit = p.exit ∨
      (p.visit way readable writable i).1.exit = some .aborted := by
  grind [visit, exit_next, exit_setDirection, exit_abort]

theorem recv_notMem_settle (p : Pump) (way : Way) (readable writable : FdSet) (origin : Origin)
    (sent : ℕ) (i : Input) (source : Peer) (answer : ReadResult) :
    Call.recv source answer ∉ (p.settle way readable writable origin sent i).2 := by
  cases origin with
  | pending => grind [settle]
  | buffer received => grind [settle]

theorem pending_of_recv_visit {source : Peer} {answer : ReadResult}
    (h : Call.recv source answer ∈ (p.visit way readable writable i).2) :
    source = way.source ∧ (p.direction way).pending = [] := by
  grind [visit]

/-- A source is read only while nothing of it is pending. -/
theorem pending_of_recv {source : Peer} {answer : ReadResult} {idleTimeoutMs : UInt32}
    (h : Call.recv source answer ∈ (p.step idleTimeoutMs i).2) :
    ∃ way : Way, source = way.source ∧ (p.direction way).pending = [] := by
  rw [step] at h
  split at h
  · cases h
  split at h
  · split at h <;> cases h
  · grind [turn]
  · exact ⟨_, pending_of_recv_visit h⟩
  · grind [sendSome, recv_notMem_settle]

theorem exit_turn {idleTimeoutMs : UInt32} (hexit : p.exit = none)
    (h : (p.turn idleTimeoutMs i).1.exit = some .bothFinished) :
    (p.turn idleTimeoutMs i).1 = p.leave .bothFinished ∧ p.upstream.finished = true ∧
      p.downstream.finished = true := by
  grind [turn, leave]

theorem exit_sendSome (p : Pump) (way : Way) (readable writable : FdSet) (origin : Origin)
    (sent : ℕ) (i : Input) :
    (p.sendSome way readable writable origin sent i).1.exit = p.exit ∨
      (p.sendSome way readable writable origin sent i).1.exit = some .aborted := by
  grind [sendSome, exit_settle, exit_abort]

/-- The loop leaves through this exit only from its top, where both directions are finished. -/
theorem bothFinished_step {idleTimeoutMs : UInt32}
    (h : (p.step idleTimeoutMs i).1.exit = some .bothFinished) :
    p.exit = some .bothFinished ∧ (p.step idleTimeoutMs i).1 = p ∨
      p.phase = .top ∧ (p.step idleTimeoutMs i).1 = p.leave .bothFinished ∧
        ∀ way, (p.direction way).finished = true := by
  rw [step] at h ⊢
  by_cases hexit : p.exit.isSome = true
  · rw [if_pos hexit] at h ⊢
    exact Or.inl ⟨h, rfl⟩
  rw [if_neg hexit] at h ⊢
  rw [Option.isSome_iff_ne_none, not_not] at hexit
  cases hphase : p.phase with
  | start =>
      rw [hphase] at h
      grind [leave]
  | top =>
      rw [hphase] at h
      obtain ⟨hleave, hup, hdown⟩ := exit_turn hexit h
      refine Or.inr ⟨rfl, hleave, fun way => ?_⟩
      cases way
      · exact hup
      · exact hdown
  | visit way readable writable =>
      rw [hphase] at h
      rcases exit_visit p way readable writable i with hsame | haborted
      · exact absurd (h.symm.trans (hsame.trans hexit)) nofun
      · exact absurd (h.symm.trans haborted) nofun
  | sending way readable writable origin sent =>
      rw [hphase] at h
      rcases exit_sendSome p way readable writable origin sent i with hsame | haborted
      · exact absurd (h.symm.trans (hsame.trans hexit)) nofun
      · exact absurd (h.symm.trans haborted) nofun

end

/-! ## Runs -/

section

variable (idleTimeoutMs : UInt32) (inputs : List Input)

theorem calls_concat (i : Input) :
    calls idleTimeoutMs (inputs ++ [i]) = calls idleTimeoutMs inputs ++
      ((final (step idleTimeoutMs) {} inputs).step idleTimeoutMs i).2 := by
  rw [calls, outputs_concat, List.flatten_append, ← calls, List.flatten_singleton]

theorem start_sound : Sound {} where
  ended way heof := by cases way <;> cases heof
  sending := nofun

/-- A run of the pump is a run of either conduit. -/
theorem run_carries :
    Sound (final (step idleTimeoutMs) {} inputs) ∧
      ∀ way, Steps {} (events way (calls idleTimeoutMs inputs))
        ((final (step idleTimeoutMs) {} inputs).conduit way) := by
  induction inputs using List.reverseRecOn with
  | nil =>
      refine ⟨start_sound, fun way => ?_⟩
      cases way <;> exact Steps.nil _
  | append_singleton inputs i ih =>
      obtain ⟨hsound, hcarries⟩ := ih
      have hmoves := step_moves hsound idleTimeoutMs i
      rw [final_concat, calls_concat]
      refine ⟨hmoves.sound, fun way => ?_⟩
      rw [events_append]
      exact (hcarries way).append (hmoves.carries way)

theorem run_bothFinished
    (h : (final (step idleTimeoutMs) {} inputs).exit = some .bothFinished) (way : Way) :
    (final (step idleTimeoutMs) {} inputs).conduit way = ⟨[], true⟩ := by
  induction inputs using List.reverseRecOn with
  | nil => cases h
  | append_singleton inputs i ih =>
      rw [final_concat] at h ⊢
      rcases bothFinished_step h with ⟨hexit, hsame⟩ | ⟨hphase, hleave, hfinished⟩
      · rw [hsame]
        exact ih hexit
      · have hway := hfinished way
        rw [Direction.finished, Bool.and_eq_true, List.isEmpty_iff] at hway
        rw [hleave]
        change (final (step idleTimeoutMs) {} inputs).conduit way = _
        rw [conduit_of_between (by simp [hphase]), payload, hway.1, hway.2, List.drop_nil]

end

/-! ### What the calls carried -/

theorem received_event (way : Way) (call : Call) :
    (call.event way).toList.flatMap Event.received = call.received way := by
  cases call with
  | recv source answer =>
      cases answer with
      | data bytes =>
          by_cases hsource : source = way.source
          · cases bytes <;> simp [Call.event, Call.received, hsource, Event.received]
          · simp [Call.event, Call.received, hsource]
      | wouldBlock => rfl
      | failed => rfl
  | send dest bytes => by_cases hdest : dest = way.to <;> simp [Call.event, hdest] <;> rfl
  | shutdown dest => by_cases hdest : dest = way.to <;> simp [Call.event, hdest] <;> rfl
  | select => rfl

theorem sent_event (way : Way) (call : Call) :
    (call.event way).toList.flatMap Event.sent = call.sent way := by
  cases call with
  | recv source answer =>
      cases answer with
      | data bytes =>
          by_cases hsource : source = way.source
          · cases bytes <;> simp [Call.event, Call.sent, hsource, Event.sent]
          · simp [Call.event, Call.sent, hsource]
      | wouldBlock => rfl
      | failed => rfl
  | send dest bytes =>
      by_cases hdest : dest = way.to <;> simp [Call.event, Call.sent, hdest, Event.sent]
  | shutdown dest => by_cases hdest : dest = way.to <;> simp [Call.event, hdest] <;> rfl
  | select => rfl

theorem received_events (way : Way) (calls : List Call) :
    Conduit.received (events way calls) = received way calls := by
  rw [Conduit.received, events, List.filterMap_eq_flatMap_toList, List.flatMap_assoc]
  simp_rw [received_event, received]

theorem sent_events (way : Way) (calls : List Call) :
    Conduit.sent (events way calls) = sent way calls := by
  rw [Conduit.sent, events, List.filterMap_eq_flatMap_toList, List.flatMap_assoc]
  simp_rw [sent_event, sent]

theorem recv_nil_mem {way : Way} {calls : List Call} (h : Event.eof ∈ events way calls) :
    Call.recv way.source (.data []) ∈ calls := by
  obtain ⟨call, hcall, hevent⟩ := List.mem_filterMap.1 h
  cases call with
  | recv source answer =>
      cases answer with
      | data bytes => cases bytes <;> grind [Call.event]
      | wouldBlock => cases hevent
      | failed => cases hevent
  | send dest bytes => grind [Call.event]
  | shutdown dest => grind [Call.event]
  | select => cases hevent

/-- At every moment of the pump, the bytes sent each way and after them those not sent yet
are the bytes received; a source is read only while nothing of it is pending; a destination is
shut down only once its source has ended and everything was sent; and so it is for both when
the pump ends because both are finished. -/
theorem pump_carries_everything (idleTimeoutMs : UInt32) (inputs : List Input) :
    let p := final (step idleTimeoutMs) {} inputs
    (∀ way, sent way (calls idleTimeoutMs inputs) ++ p.unsent way =
      received way (calls idleTimeoutMs inputs)) ∧
    (∀ way i answer, Call.recv way.source answer ∈ (p.step idleTimeoutMs i).2 →
      (p.direction way).pending = []) ∧
    (∀ way before after, calls idleTimeoutMs inputs = before ++ .shutdown way.to :: after →
      .recv way.source (.data []) ∈ before ∧
        sent way before = received way (calls idleTimeoutMs inputs)) ∧
    (p.exit = some .bothFinished → ∀ way,
      .recv way.source (.data []) ∈ calls idleTimeoutMs inputs ∧
        sent way (calls idleTimeoutMs inputs) = received way (calls idleTimeoutMs inputs)) := by
  intro p
  obtain ⟨-, hcarries⟩ := run_carries idleTimeoutMs inputs
  have hconserved : ∀ way, sent way (calls idleTimeoutMs inputs) ++ p.unsent way =
      received way (calls idleTimeoutMs inputs) := by
    intro way
    rw [← sent_events, ← received_events]
    exact (hcarries way).conserved
  refine ⟨hconserved, ?_, ?_, ?_⟩
  · intro way i answer hrecv
    obtain ⟨way', hsource, hpending⟩ := pending_of_recv hrecv
    rwa [Way.source_inj.1 hsource]
  · intro way before after heq
    have hevents : events way (calls idleTimeoutMs inputs) =
        events way before ++ .finish :: events way after := by
      rw [heq, events_append]
      simp [events, Call.event]
    obtain ⟨heof, hsent⟩ := (hcarries way).finish hevents
    rw [sent_events, received_events] at hsent
    exact ⟨recv_nil_mem heof, hsent⟩
  · intro hexit way
    have hconduit := run_bothFinished idleTimeoutMs inputs hexit way
    have heof := (hcarries way).eof_mem (congrArg State.eof hconduit)
    refine ⟨recv_nil_mem heof, ?_⟩
    have hempty : p.unsent way = [] := congrArg State.held hconduit
    rw [← hconserved way, hempty, List.append_nil]

/-- The target takes two of three bytes, and then no more for now. -/
example :
    let inputs : List Input := [{}, { select := .ready { client := true } {} },
      { recv := .data [1, 2, 3] }, { send := .accepted 2 }, { send := .wouldBlock }]
    sent .upstream (calls 600000 inputs) = [1, 2] ∧
      (final (step 600000) {} inputs).unsent .upstream = [3] := by
  decide +kernel

end Pump

end Relay

end SplitHello
