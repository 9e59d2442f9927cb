import SplitHello.Library.Handles
import SplitHello.Library.History

/-!
# Who owns a connection's sockets

`DirectRelay::run` accepts its client's socket, opens one to the target, again for every retry,
and may give the client's to a tunnel, which has a thread of its own. Meanwhile any number of
other threads call `stop`. The system gives a handle out again once it is closed, so nobody may
do anything to a handle that this connection has closed.

A block under `socketMutex_` is one step, but for the one in `stop`, which calls `Relay::stop`
and keeps the mutex meanwhile. `Relay::stop` takes no mutex: the thread that sets the flag goes
on to `shutdown`, all others return.
-/

namespace SplitHello

namespace Relay

open History Handles

variable {H : Type*}

/-- A call that names a socket; `opened` is what `accept` or `connectAny` returns. -/
inductive SocketCall (H : Type*)
  | opened (handle : H)
  | use (handle : H)
  | shutdown (handle : H)
  | close (handle : H)
  deriving DecidableEq, Repr

/-- The handle that has to be there for the call. -/
def SocketCall.needs : SocketCall H → Option H
  | .opened _ => none
  | .use handle | .shutdown handle | .close handle => some handle

def SocketCall.use? : SocketCall H → Option (Use H)
  | .opened handle => some (.acquire handle)
  | .close handle => some (.release handle)
  | _ => none

def uses (calls : List (SocketCall H)) : List (Use H) := calls.filterMap SocketCall.use?

/-! ## The threads -/

/-- The thread in `pumpSockToWs`. -/
inductive PumpPhase
  | absent
  | pumping
  | shutting
  | ended
  deriving DecidableEq, Repr

/-- The tunnel in `handOffToTunnel`. -/
structure TunnelRelay (H : Type*) where
  clientSock : H
  stopping : Bool := false
  pump : PumpPhase := .absent
  deriving DecidableEq, Repr

/-- A thread in `DirectRelay::stop`. -/
inductive StopPhase
  | flagged
  | inTunnel
  | shutting
  | sockets
  | returned
  deriving DecidableEq, Repr

/-- The thread in `DirectRelay::run`. `connecting` and `publishing` are `connectTarget`, called by
`reconnect` if `again`; the phases from `stopping` on are `Relay::stop` and what follows it, in
the destructor if `last`. -/
inductive OwnerPhase (H : Type*)
  | starting
  | collecting (connected : Bool)
  | connecting (again : Bool)
  | publishing (again : Bool) (sock : H)
  | delivering
  | reconnecting
  | piping
  | handingOver
  | publishingTunnel
  | tunnelling
  | pumping
  | stopping (last : Bool)
  | shutting (last : Bool)
  | joining (last : Bool)
  | unpublishing
  | closing
  | returned
  deriving DecidableEq, Repr

/-- What the thread in `run` is told: that it has more to do where it is, how that ended, that
another connection is needed, which socket there is. -/
inductive OwnerInput (H : Type*)
  | more
  | ok
  | fails
  | again
  | opens (sock : H)
  | throws
  deriving DecidableEq, Repr

structure OwnerSetup where
  /-- There is an `originalTargetAddress_`. -/
  transparent : Bool
  /-- There are `tunnelFallback` and `workerUrl`. -/
  tunnel : Bool
  deriving DecidableEq, Repr

/-- A connection. `tunnelSet` is whether `tunnel_` points to the tunnel, `dangling` whether it has
been followed without one; `mutex` is the thread in `stop` that has it. -/
structure Sockets (H : Type*) where
  client : Option H
  target : Option H := none
  relay : Option (TunnelRelay H) := none
  tunnelSet : Bool := false
  stopping : Bool := false
  mutex : Option ℕ := none
  phase : OwnerPhase H := .starting
  stoppers : List StopPhase := []
  calls : List (SocketCall H) := []
  dangling : Bool := false

inductive SocketEvent (H : Type*)
  | owner (input : OwnerInput H)
  | pump (ends : Bool)
  /-- Another thread calls `stop`. -/
  | stop
  | stopper (i : ℕ)

namespace Sockets

variable [DecidableEq H]

def start (clientSock : H) : Sockets H :=
  { client := some clientSock, calls := [.opened clientSock] }

def enter (s : Sockets H) (phase : OwnerPhase H) : Sockets H := { s with phase }

def call (s : Sockets H) (call : SocketCall H) : Sockets H := { s with calls := s.calls ++ [call] }

/-- A call on a socket, if there is one. -/
def callOn (s : Sockets H) (sock : Option H) (f : H → SocketCall H) : Sockets H :=
  match sock with
  | some handle => s.call (f handle)
  | none => s

/-- The flag of `Relay::stop` is set, unless it was; says whether it was not. -/
def exchange (r : TunnelRelay H) : TunnelRelay H × Bool :=
  ({ r with stopping := true }, !r.stopping)

/-- Without a connection to the target. -/
def unconnected (s : Sockets H) (again : Bool) : Sockets H :=
  s.enter (if again then .handingOver else .closing)

/-- The locked block of `connectTarget`. -/
def connectTarget (setup : OwnerSetup) (s : Sockets H) (again : Bool) (sock : H)
    (optionOk : Bool) : Sockets H :=
  if s.stopping ∨ !optionOk then (s.call (.close sock)).unconnected again
  else
    { s with
      target := some sock
      phase := if again ∨ setup.transparent then .delivering else .collecting true }

/-- The locked block of `reconnect`. -/
def reconnect (s : Sockets H) : Sockets H :=
  { s.callOn s.target .close with target := none, phase := .connecting true }

def closeSockets (s : Sockets H) : Sockets H :=
  let s := { s.callOn s.client .close with client := none }
  { s.callOn s.target .close with target := none, phase := .returned }

/-- From `handOffToTunnel` to its locked block. -/
def handOver (setup : OwnerSetup) (s : Sockets H) : Sockets H :=
  match s.client with
  | some clientSock =>
      if setup.tunnel then
        { s with relay := some { clientSock }, phase := .publishingTunnel }
      else s.enter .closing
  | none => s.enter .closing

/-- The tunnel gets the client's socket for good. -/
def publishTunnel (s : Sockets H) : Sockets H :=
  if s.stopping then { s with client := none, phase := .stopping true }
  else { s with client := none, tunnelSet := true, phase := .tunnelling }

/-- `Relay::stop` on the thread in `run`, up to the flag. -/
def stopTunnel (s : Sockets H) (last : Bool) : Sockets H :=
  match s.relay with
  | none => { s with dangling := true }
  | some r =>
      { s with
        relay := some (exchange r).1
        phase := if (exchange r).2 then .shutting last else .joining last }

def shutTunnel (s : Sockets H) (last : Bool) : Sockets H :=
  match s.relay with
  | none => { s with dangling := true }
  | some r => (s.call (.shutdown r.clientSock)).enter (.joining last)

/-- The tunnel's thread is joined; the destructor closes the socket behind that. -/
def joinTunnel (s : Sockets H) (last : Bool) : Sockets H :=
  match s.relay with
  | none => { s with dangling := true }
  | some r =>
      if r.pump = .pumping ∨ r.pump = .shutting then s
      else if last then { s.call (.close r.clientSock) with relay := none, phase := .closing }
      else s.enter .unpublishing

/-- The thread in `run` goes on. -/
def owner (setup : OwnerSetup) (s : Sockets H) (input : OwnerInput H) : Sockets H :=
  match s.phase with
  | .starting =>
      if s.stopping then s.enter .closing
      else
        match input with
        | .ok =>
            (s.callOn s.client .use).enter
              (if setup.transparent then .collecting false else .connecting false)
        | .fails => (s.callOn s.client .use).enter .closing
        | .throws => s.enter .closing
        | _ => s
  | .collecting connected =>
      match input with
      | .more => s.callOn s.client .use
      | .ok => s.enter (if connected then .delivering else .connecting false)
      | .fails | .throws => s.enter .closing
      | _ => s
  | .connecting again =>
      if s.stopping then s.unconnected again
      else
        match input with
        | .opens sock =>
            if sock ∈ holding (uses s.calls) then s
            else (s.call (.opened sock)).enter (.publishing again sock)
        | .fails => s.unconnected again
        | .throws => s.enter .closing
        | _ => s
  | .publishing again sock =>
      if s.mutex.isSome then s
      else
        match input with
        | .ok => s.connectTarget setup again sock true
        | .fails => s.connectTarget setup again sock false
        | _ => s
  | .delivering =>
      match input with
      | .more => s.callOn s.target .use
      | .ok => s.enter .piping
      | .fails => s.enter .handingOver
      | .again => s.enter .reconnecting
      | .throws => s.enter .closing
      | _ => s
  | .reconnecting => if s.mutex.isSome then s else s.reconnect
  | .piping =>
      match input with
      | .more => (s.callOn s.client .use).callOn s.target .use
      | _ => s.enter .closing
  | .handingOver => s.handOver setup
  | .publishingTunnel => if s.mutex.isSome then s else s.publishTunnel
  | .tunnelling =>
      match input, s.relay with
      | .ok, some r => { s with relay := some { r with pump := .pumping }, phase := .pumping }
      | .ok, none => { s with dangling := true }
      | .more, _ => s
      | _, _ => s.enter .unpublishing
  | .pumping =>
      match input with
      | .more => s.callOn (s.relay.map TunnelRelay.clientSock) .use
      | .throws => s.enter .unpublishing
      | _ => s.enter (.stopping false)
  | .stopping last => s.stopTunnel last
  | .shutting last => s.shutTunnel last
  | .joining last => s.joinTunnel last
  | .unpublishing =>
      if s.mutex.isSome then s else { s with tunnelSet := false, phase := .stopping true }
  | .closing => if s.mutex.isSome then s else s.closeSockets
  | .returned => s

/-- The thread in `pumpSockToWs` goes on. -/
def pump (s : Sockets H) (ends : Bool) : Sockets H :=
  match s.relay with
  | none => s
  | some r =>
      match r.pump with
      | .pumping =>
          if ends then
            { s with
              relay := some { (exchange r).1 with
                pump := if (exchange r).2 then .shutting else .ended } }
          else s.call (.use r.clientSock)
      | .shutting =>
          { s.call (.shutdown r.clientSock) with relay := some { r with pump := .ended } }
      | _ => s

/-- What `stop` shuts down at last. -/
def shutVisible (s : Sockets H) : Sockets H :=
  (s.callOn s.target .shutdown).callOn s.client .shutdown

/-- A thread in `stop` goes on. -/
def stopper (s : Sockets H) (i : ℕ) : Sockets H :=
  match s.stoppers[i]? with
  | some .flagged =>
      if s.mutex.isSome then s
      else
        { s with
          mutex := some i
          stoppers := s.stoppers.set i (if s.tunnelSet then .inTunnel else .sockets) }
  | some .inTunnel =>
      match s.relay with
      | none => { s with dangling := true }
      | some r =>
          { s with
            relay := some (exchange r).1
            stoppers := s.stoppers.set i (if (exchange r).2 then .shutting else .sockets) }
  | some .shutting =>
      match s.relay with
      | none => { s with dangling := true }
      | some r =>
          { s.call (.shutdown r.clientSock) with stoppers := s.stoppers.set i .sockets }
  | some .sockets =>
      { s.shutVisible with
        mutex := none
        stoppers := s.stoppers.set i .returned }
  | _ => s

def step (setup : OwnerSetup) (s : Sockets H) : SocketEvent H → Sockets H
  | .owner input => s.owner setup input
  | .pump ends => s.pump ends
  | .stop => { s with stopping := true, stoppers := s.stoppers ++ [.flagged] }
  | .stopper i => s.stopper i

def run (setup : OwnerSetup) (clientSock : H) (events : List (SocketEvent H)) : Sockets H :=
  History.run (step setup) (start clientSock) events

end Sockets

/-! ## The calls -/

section

variable [DecidableEq H] {calls : List (SocketCall H)} {held : List H} {handle : H}

omit [DecidableEq H] in
@[simp] theorem uses_concat (calls : List (SocketCall H)) (c : SocketCall H) :
    uses (calls ++ [c]) = uses calls ++ c.use?.toList := by
  rw [uses, List.filterMap_append]
  rfl

/-- Two sockets are held at most, and every call is on one that is held. -/
structure Ledger (calls : List (SocketCall H)) (held : List H) : Prop where
  ends : Ends 2 (uses calls) held
  sound : ∀ before c after, calls = before ++ c :: after →
    ∀ handle ∈ c.needs, handle ∈ holding (uses before)

theorem Ledger.concat (h : Ledger calls held) {c : SocketCall H} {held' : List H}
    (hneeds : ∀ handle ∈ c.needs, handle ∈ held) (hends : Ends 2 (uses (calls ++ [c])) held') :
    Ledger (calls ++ [c]) held' := by
  refine ⟨hends, fun before c' after heq handle hhandle => ?_⟩
  rcases concat_eq_cases heq with ⟨-, rfl, rfl⟩ | ⟨rest, -, hbefore⟩
  · exact h.ends.perm.mem_iff.2 (hneeds handle hhandle)
  · exact h.sound before c' rest hbefore handle hhandle

theorem Ledger.congr (h : Ledger calls held) {held' : List H} (hperm : held.Perm held') :
    Ledger calls held' :=
  ⟨h.ends.congr hperm, h.sound⟩

/-- A call that changes nothing about who holds what. -/
theorem Ledger.touch (h : Ledger calls held) {c : SocketCall H} (hneeds : c.needs = some handle)
    (huse : c.use? = none) (hheld : handle ∈ held) : Ledger (calls ++ [c]) held := by
  refine h.concat (fun other hother => ?_) ?_
  · rw [hneeds] at hother
    rw [← Option.mem_some_iff.1 hother]
    exact hheld
  · rw [uses_concat, huse]
    exact (List.append_nil (uses calls)).symm ▸ h.ends

theorem Ledger.use (h : Ledger calls held) (hheld : handle ∈ held) :
    Ledger (calls ++ [.use handle]) held :=
  h.touch rfl rfl hheld

theorem Ledger.shutdown (h : Ledger calls held) (hheld : handle ∈ held) :
    Ledger (calls ++ [.shutdown handle]) held :=
  h.touch rfl rfl hheld

theorem Ledger.opened (h : Ledger calls held) (hroom : held.length < 2) (handle : H) :
    Ledger (calls ++ [.opened handle]) (held ++ [handle]) := by
  refine h.concat (fun other hother => ?_) ?_
  · cases hother
  · rw [uses_concat]
    exact h.ends.acquire hroom handle

theorem Ledger.close (h : Ledger calls held) (hheld : handle ∈ held) :
    Ledger (calls ++ [.close handle]) (held.erase handle) := by
  refine h.concat (fun other hother => ?_) ?_
  · rw [← Option.mem_some_iff.1 hother]
    exact hheld
  · rw [uses_concat]
    exact h.ends.release handle hheld

/-- The first of the sockets is closed. -/
theorem Ledger.closeFirst {rest : List H} (h : Ledger calls (handle :: rest)) :
    Ledger (calls ++ [.close handle]) rest := by
  have hclosed := h.close List.mem_cons_self
  rwa [List.erase_cons_head] at hclosed

theorem Ledger.closeOption {sock : Option H} {rest : List H}
    (h : Ledger calls (sock.toList ++ rest)) :
    Ledger (calls ++ (sock.map SocketCall.close).toList) rest := by
  cases sock with
  | none => exact (List.append_nil calls).symm ▸ h
  | some handle => exact h.closeFirst

theorem Ledger.shutdownOption (h : Ledger calls held) {sock : Option H}
    (hheld : ∀ handle ∈ sock, handle ∈ held) :
    Ledger (calls ++ (sock.map SocketCall.shutdown).toList) held := by
  cases sock with
  | none => exact (List.append_nil calls).symm ▸ h
  | some handle => exact h.shutdown (hheld handle rfl)

omit [DecidableEq H] in
theorem opened_notMem_close {sock : Option H} :
    SocketCall.opened handle ∉ (sock.map SocketCall.close).toList := by
  cases sock with
  | none => exact List.not_mem_nil
  | some other =>
      intro hmem
      cases List.mem_singleton.1 hmem

end

/-! ## What holds between two steps -/

namespace Sockets

/-- The sockets of the connection: the one that is not yet in its field, the target's, the
client's, which may be the tunnel's. -/
def held (s : Sockets H) : List H :=
  (match s.phase with
    | .publishing _ sock => [sock]
    | _ => []) ++ s.target.toList ++
    match s.relay with
    | some r => [r.clientSock]
    | none => s.client.toList

/-- Where the sockets are in every phase. -/
def Placed (s : Sockets H) : Prop :=
  match s.phase with
  | .starting | .collecting false | .connecting _ | .publishing .. =>
      s.target = none ∧ s.relay = none ∧ s.tunnelSet = false
  | .collecting true | .delivering | .reconnecting | .piping | .handingOver | .closing =>
      s.relay = none ∧ s.tunnelSet = false
  | .publishingTunnel =>
      s.tunnelSet = false ∧ ∃ r, s.relay = some r ∧ s.client = some r.clientSock
  | .tunnelling | .pumping | .stopping false | .shutting false | .joining false | .unpublishing =>
      s.client = none ∧ ∃ r, s.relay = some r
  | .stopping true | .shutting true | .joining true =>
      s.tunnelSet = false ∧ s.client = none ∧ ∃ r, s.relay = some r
  | .returned => s.client = none ∧ s.target = none ∧ s.relay = none ∧ s.tunnelSet = false

/-- The tunnel has been told to stop. -/
def TunnelStops (s : Sockets H) : Prop := ∃ r, s.relay = some r ∧ r.stopping = true

/-- A socket that was shut down after it was opened. -/
def Shut (s : Sockets H) (handle : H) : Prop :=
  Since (· = .shutdown handle) (· = .opened handle) s.calls

/-- A socket in a field that `stop` sees. -/
def Visible (s : Sockets H) (handle : H) : Prop := s.client = some handle ∨ s.target = some handle

/-- Where the threads in `stop` are. -/
structure Stops (s : Sockets H) : Prop where
  flag : s.stoppers ≠ [] → s.stopping = true
  locked : ∀ (i : ℕ) p, s.stoppers[i]? = some p → p = .inTunnel ∨ p = .shutting ∨ p = .sockets →
    s.mutex = some i
  inside : ∀ p ∈ s.stoppers, p = .inTunnel ∨ p = .shutting → s.tunnelSet = true
  told : ∀ p ∈ s.stoppers, p = .shutting ∨ p = .sockets ∨ p = .returned →
    s.tunnelSet = true → s.TunnelStops
  shut : .returned ∈ s.stoppers → ∀ handle, s.Visible handle → s.Shut handle

variable [DecidableEq H]

structure Owned (s : Sockets H) : Prop where
  ledger : Ledger s.calls s.held
  placed : s.Placed
  stops : s.Stops
  sane : s.dangling = false

variable {s t : Sockets H} {setup : OwnerSetup}

omit [DecidableEq H] in
theorem Stops.quiet (h : s.Stops) (hstopping : s.stopping = false)
    (hstoppers : t.stoppers = s.stoppers) : t.Stops := by
  have hnil : t.stoppers = [] := by
    rw [hstoppers]
    by_contra hne
    rw [h.flag hne] at hstopping
    cases hstopping
  refine ⟨fun hne => absurd hnil hne, ?_, ?_, ?_, ?_⟩
  · rw [hnil]
    intro i p hp
    cases hp
  · rw [hnil]
    intro p hp
    cases hp
  · rw [hnil]
    intro p hp
    cases hp
  · rw [hnil]
    intro hreturned
    cases hreturned

omit [DecidableEq H] in
/-- A socket stays shut until its handle is given out again. -/
theorem Shut.append {handle : H} (h : s.Shut handle) {more : List (SocketCall H)}
    (hcalls : t.calls = s.calls ++ more) (hmore : .opened handle ∉ more) : t.Shut handle := by
  obtain ⟨before, c, after, heq, hc, hafter⟩ := h
  refine ⟨before, c, after ++ more, by rw [hcalls, heq]; simp, hc, fun c' hc' => ?_⟩
  rcases List.mem_append.1 hc' with hold | hnew
  · exact hafter c' hold
  · rintro rfl
    exact hmore hnew

omit [DecidableEq H] in
/-- What the other threads do without the mutex, or the thread in `run` with its sockets. -/
theorem Stops.keep (h : s.Stops) (hstoppers : t.stoppers = s.stoppers)
    (hmutex : t.mutex = s.mutex) (hstopping : t.stopping = s.stopping)
    (htunnel : t.tunnelSet = s.tunnelSet)
    (htells : s.tunnelSet = true → s.TunnelStops → t.TunnelStops)
    (hvisible : ∀ handle, t.Visible handle → s.Visible handle) {more : List (SocketCall H)}
    (hcalls : t.calls = s.calls ++ more)
    (hmore : ∀ handle, t.Visible handle → .opened handle ∉ more) : t.Stops := by
  refine ⟨?_, ?_, ?_, ?_, ?_⟩
  · rw [hstoppers, hstopping]
    exact h.flag
  · rw [hstoppers, hmutex]
    exact h.locked
  · rw [hstoppers, htunnel]
    exact h.inside
  · rw [hstoppers, htunnel]
    exact fun p hp hphase hset => htells hset (h.told p hp hphase hset)
  · rw [hstoppers]
    exact fun hreturned handle hhandle =>
      (h.shut hreturned handle (hvisible handle hhandle)).append hcalls (hmore handle hhandle)

/-- The thread in `run` goes on without a call. -/
theorem Owned.enter (h : s.Owned) {phase : OwnerPhase H} (hheld : (s.enter phase).held = s.held)
    (hplaced : (s.enter phase).Placed) : (s.enter phase).Owned := by
  refine ⟨?_, hplaced, ?_, h.sane⟩
  · rw [hheld]
    exact h.ledger
  · exact h.stops.keep rfl rfl rfl rfl (fun _ => id) (fun _ => id) (List.append_nil _).symm
      fun _ _ => List.not_mem_nil

omit [DecidableEq H] in
theorem held_enter_of_publishing {phase : OwnerPhase H}
    (hs : ∀ again sock, s.phase ≠ .publishing again sock)
    (hphase : ∀ again sock, phase ≠ .publishing again sock) : (s.enter phase).held = s.held := by
  have hnone (p : OwnerPhase H) (hp : ∀ again sock, p ≠ .publishing again sock) :
      (match p with
        | .publishing _ sock => [sock]
        | _ => []) = [] := by
    cases p with
    | publishing again sock => exact absurd rfl (hp again sock)
    | _ => rfl
  rw [held, held]
  exact congrArg (· ++ s.target.toList ++ _) ((hnone phase hphase).trans (hnone s.phase hs).symm)

/-- A call on a socket that is held. -/
theorem Owned.use (h : s.Owned) {handle : H} (hheld : handle ∈ s.held) :
    (s.call (.use handle)).Owned :=
  ⟨h.ledger.use hheld, h.placed,
    h.stops.keep rfl rfl rfl rfl (fun _ => id) (fun _ => id) rfl fun _ _ => by simp, h.sane⟩

theorem Owned.callOn_use (h : s.Owned) {sock : Option H}
    (hheld : ∀ handle ∈ sock, handle ∈ s.held) :
    (s.callOn sock .use).Owned := by
  cases sock with
  | none => exact h
  | some handle => exact h.use (hheld handle rfl)

omit [DecidableEq H] in
theorem mem_held_target {handle : H} (h : s.target = some handle) : handle ∈ s.held := by
  rw [held, h]
  simp

omit [DecidableEq H] in
theorem mem_held_client (hrelay : s.relay = none) {handle : H} (h : s.client = some handle) :
    handle ∈ s.held := by
  rw [held, hrelay, h]
  simp

omit [DecidableEq H] in
theorem mem_held_relay {r : TunnelRelay H} (h : s.relay = some r) : r.clientSock ∈ s.held := by
  rw [held, h]
  simp

/-! ## The thread in `run` -/

omit [DecidableEq H] in
theorem held_of_placed (htarget : s.target = none) (hrelay : s.relay = none)
    (hphase : ∀ again sock, s.phase ≠ .publishing again sock) : s.held = s.client.toList := by
  rw [held, htarget, hrelay]
  cases hs : s.phase with
  | publishing again sock => exact absurd hs (hphase again sock)
  | _ => rfl

/-- `connectAny` has returned a socket, which has no handle that is in use. -/
theorem Owned.connect (h : s.Owned) {again : Bool} (hphase : s.phase = .connecting again) {sock : H}
    (hnew : sock ∉ holding (uses s.calls)) :
    ((s.call (.opened sock)).enter (.publishing again sock)).Owned := by
  have hplaced := h.placed
  rw [Placed, hphase] at hplaced
  obtain ⟨htarget, hrelay, htunnel⟩ := hplaced
  have hheld : s.held = s.client.toList := held_of_placed htarget hrelay (by rw [hphase]; nofun)
  have hroom : s.held.length < 2 := by
    rw [hheld]
    cases s.client with
    | none => exact Nat.zero_lt_two
    | some clientSock => exact Nat.one_lt_two
  have hheld' : ((s.call (.opened sock)).enter (.publishing again sock)).held =
      sock :: s.client.toList := by
    rw [held, Sockets.enter, Sockets.call]
    dsimp only
    rw [htarget, hrelay]
    rfl
  refine ⟨?_, ⟨htarget, hrelay, htunnel⟩, ?_, h.sane⟩
  · rw [hheld', ← hheld]
    exact (h.ledger.opened hroom sock).congr (List.perm_append_singleton sock s.held)
  · refine h.stops.keep rfl rfl rfl rfl (fun _ => id) (fun _ => id) rfl
      fun handle hvisible hmem => hnew ?_
    have hsame : handle = sock := SocketCall.opened.inj (List.mem_singleton.1 hmem)
    rw [h.ledger.ends.perm.mem_iff, ← hsame]
    rcases hvisible with hclient | htarget'
    · exact mem_held_client hrelay hclient
    · exact mem_held_target htarget'

theorem Owned.connectTarget (h : s.Owned) {again : Bool} {sock : H}
    (hphase : s.phase = .publishing again sock) (optionOk : Bool) :
    (s.connectTarget setup again sock optionOk).Owned := by
  have hplaced := h.placed
  rw [Placed, hphase] at hplaced
  obtain ⟨htarget, hrelay, htunnel⟩ := hplaced
  have hheld : s.held = sock :: s.client.toList := by
    rw [held, hphase, htarget, hrelay]
    rfl
  rw [Sockets.connectTarget]
  split
  · have hledger : Ledger (s.calls ++ [.close sock]) s.client.toList := by
      refine Ledger.closeFirst ?_
      rw [← hheld]
      exact h.ledger
    have hclosed (phase : OwnerPhase H)
        (hplaced : ((s.call (.close sock)).enter phase).Placed)
        (hphase : ∀ again sock, phase ≠ .publishing again sock) :
        ((s.call (.close sock)).enter phase).Owned := by
      refine ⟨?_, hplaced, ?_, h.sane⟩
      · rw [held_of_placed (s := (s.call (.close sock)).enter phase) htarget hrelay hphase]
        exact hledger
      · exact h.stops.keep rfl rfl rfl rfl (fun _ => id) (fun _ => id) rfl fun _ _ => by simp
    cases again with
    | true => exact hclosed .handingOver ⟨hrelay, htunnel⟩ nofun
    | false => exact hclosed .closing ⟨hrelay, htunnel⟩ nofun
  · rename_i hopen
    have hstopping : s.stopping = false := by
      rw [← Bool.not_eq_true]
      exact fun htrue => hopen (Or.inl htrue)
    have hpublished (phase : OwnerPhase H)
        (hplaced : ({ s with target := some sock, phase } : Sockets H).Placed)
        (hphase : ∀ again sock, phase ≠ .publishing again sock) :
        ({ s with target := some sock, phase } : Sockets H).Owned := by
      refine ⟨?_, hplaced, h.stops.quiet hstopping rfl, h.sane⟩
      have hsame : ({ s with target := some sock, phase } : Sockets H).held = s.held := by
        rw [hheld, held]
        dsimp only
        rw [hrelay]
        cases phase with
        | publishing again sock => exact absurd rfl (hphase again sock)
        | _ => rfl
      rw [hsame]
      exact h.ledger
    by_cases hdelivers : again ∨ setup.transparent
    · rw [if_pos hdelivers]
      exact hpublished .delivering ⟨hrelay, htunnel⟩ nofun
    · rw [if_neg hdelivers]
      exact hpublished (.collecting true) ⟨hrelay, htunnel⟩ nofun

omit [DecidableEq H] in
theorem held_of_relay (hrelay : s.relay = none)
    (hphase : ∀ again sock, s.phase ≠ .publishing again sock) :
    s.held = s.target.toList ++ s.client.toList := by
  rw [held, hrelay]
  cases hs : s.phase with
  | publishing again sock => exact absurd hs (hphase again sock)
  | _ => rfl

omit [DecidableEq H] in
theorem callOn_eq (s : Sockets H) (sock : Option H) (f : H → SocketCall H) :
    s.callOn sock f = { s with calls := s.calls ++ (sock.map f).toList } := by
  cases sock with
  | none => exact congrArg (fun calls => { s with calls }) (List.append_nil _).symm
  | some handle => rfl

theorem Owned.reconnect (h : s.Owned) (hphase : s.phase = .reconnecting) : s.reconnect.Owned := by
  have hplaced := h.placed
  rw [Placed, hphase] at hplaced
  obtain ⟨hrelay, htunnel⟩ := hplaced
  have hledger := h.ledger
  rw [held_of_relay hrelay (by rw [hphase]; nofun)] at hledger
  rw [Sockets.reconnect, callOn_eq]
  refine ⟨?_, ⟨rfl, hrelay, htunnel⟩, ?_, h.sane⟩
  · rw [held]
    dsimp only
    rw [hrelay]
    exact hledger.closeOption
  · refine h.stops.keep rfl rfl rfl rfl (fun _ => id) (fun handle hvisible => ?_) rfl
      fun _ _ => opened_notMem_close
    rcases hvisible with hclient | htarget
    · exact Or.inl hclient
    · cases htarget

theorem Owned.closeSockets (h : s.Owned) (hphase : s.phase = .closing) : s.closeSockets.Owned := by
  have hplaced := h.placed
  rw [Placed, hphase] at hplaced
  obtain ⟨hrelay, htunnel⟩ := hplaced
  have hledger := h.ledger
  rw [held_of_relay hrelay (by rw [hphase]; nofun)] at hledger
  have hclient : Ledger (s.calls ++ (s.client.map .close).toList) (s.target.toList ++ []) := by
    rw [List.append_nil]
    exact (hledger.congr List.perm_append_comm).closeOption
  rw [Sockets.closeSockets, callOn_eq, callOn_eq]
  refine ⟨?_, ⟨rfl, rfl, hrelay, htunnel⟩, ?_, h.sane⟩
  · rw [held]
    dsimp only
    rw [hrelay]
    exact hclient.closeOption
  · refine h.stops.keep rfl rfl rfl rfl (fun _ => id) (fun handle hvisible => ?_)
      (List.append_assoc _ _ _) fun handle hvisible => ?_
    · rcases hvisible with hnone | hnone
      · cases hnone
      · cases hnone
    · rcases hvisible with hnone | hnone
      · cases hnone
      · cases hnone

theorem Owned.handOver (h : s.Owned) (hphase : s.phase = .handingOver) :
    (s.handOver setup).Owned := by
  have hplaced := h.placed
  rw [Placed, hphase] at hplaced
  obtain ⟨hrelay, htunnel⟩ := hplaced
  have hclosing : (s.enter .closing).Owned :=
    h.enter (held_enter_of_publishing (by rw [hphase]; nofun) nofun) ⟨hrelay, htunnel⟩
  unfold Sockets.handOver
  split
  · rename_i clientSock hclient
    split
    · refine ⟨?_, ⟨htunnel, _, rfl, hclient⟩, ?_, h.sane⟩
      · have hledger := h.ledger
        rw [held_of_relay hrelay (by rw [hphase]; nofun), hclient] at hledger
        exact hledger
      · refine h.stops.keep rfl rfl rfl rfl (fun hset => ?_) (fun _ => id)
          (List.append_nil _).symm fun _ _ => List.not_mem_nil
        rw [htunnel] at hset
        cases hset
    · exact hclosing
  · exact hclosing

omit [DecidableEq H] in
/-- The sockets while there is a tunnel. -/
theorem held_of_tunnel {r : TunnelRelay H} (hrelay : s.relay = some r)
    (hphase : ∀ again sock, s.phase ≠ .publishing again sock) :
    s.held = s.target.toList ++ [r.clientSock] := by
  rw [held, hrelay]
  cases hs : s.phase with
  | publishing again sock => exact absurd hs (hphase again sock)
  | _ => rfl

theorem Owned.publishTunnel (h : s.Owned) (hphase : s.phase = .publishingTunnel) :
    s.publishTunnel.Owned := by
  have hplaced := h.placed
  rw [Placed, hphase] at hplaced
  obtain ⟨htunnel, r, hrelay, hclient⟩ := hplaced
  have hledger := h.ledger
  rw [held_of_tunnel hrelay (by rw [hphase]; nofun)] at hledger
  rw [Sockets.publishTunnel]
  split
  · refine ⟨?_, ⟨htunnel, rfl, r, hrelay⟩, ?_, h.sane⟩
    · rw [held]
      dsimp only
      rw [hrelay]
      exact hledger
    · refine h.stops.keep rfl rfl rfl rfl (fun _ => id) (fun handle hvisible => ?_)
        (List.append_nil _).symm fun _ _ => List.not_mem_nil
      rcases hvisible with hnone | htarget
      · cases hnone
      · exact Or.inr htarget
  · rename_i hstopping
    refine ⟨?_, ⟨rfl, r, hrelay⟩, ?_, h.sane⟩
    · rw [held]
      dsimp only
      rw [hrelay]
      exact hledger
    · exact h.stops.quiet (Bool.eq_false_iff.2 hstopping) rfl

/-- The thread in `run` does something to its tunnel. -/
theorem Owned.withTunnel (h : s.Owned) {r r' : TunnelRelay H} (hrelay : s.relay = some r)
    (hsock : r'.clientSock = r.clientSock) (hstops : r.stopping = true → r'.stopping = true)
    {phase : OwnerPhase H} (hs : ∀ again sock, s.phase ≠ .publishing again sock)
    (hphase : ∀ again sock, phase ≠ .publishing again sock)
    (hplaced : ({ s with relay := some r', phase } : Sockets H).Placed) :
    ({ s with relay := some r', phase } : Sockets H).Owned := by
  refine ⟨?_, hplaced, ?_, h.sane⟩
  · rw [held_of_tunnel (s := { s with relay := some r', phase }) rfl hphase, hsock]
    have hledger := h.ledger
    rwa [held_of_tunnel hrelay hs] at hledger
  · refine h.stops.keep rfl rfl rfl rfl (fun _ htells => ?_) (fun _ => id)
      (List.append_nil _).symm fun _ _ => List.not_mem_nil
    obtain ⟨r₁, hr₁, hstopping⟩ := htells
    rw [hrelay] at hr₁
    exact ⟨r', rfl, hstops (Option.some.inj hr₁ ▸ hstopping)⟩

theorem Owned.stopTunnel (h : s.Owned) {last : Bool} (hphase : s.phase = .stopping last) :
    (s.stopTunnel last).Owned := by
  have hplaced := h.placed
  rw [Placed, hphase] at hplaced
  have hexchange {r : TunnelRelay H} (hrelay : s.relay = some r) {phase : OwnerPhase H}
      (hphase' : ∀ again sock, phase ≠ .publishing again sock)
      (hplaced : ({ s with relay := some (exchange r).1, phase } : Sockets H).Placed) :
      ({ s with relay := some (exchange r).1, phase } : Sockets H).Owned := by
    have hsock : (exchange r).1.clientSock = r.clientSock := rfl
    exact h.withTunnel hrelay hsock (fun _ => rfl) (by rw [hphase]; nofun) hphase' hplaced
  cases last with
  | true =>
      obtain ⟨htunnel, hclient, r, hrelay⟩ := hplaced
      rw [Sockets.stopTunnel, hrelay]
      dsimp only
      split
      · exact hexchange hrelay nofun ⟨htunnel, hclient, _, rfl⟩
      · exact hexchange hrelay nofun ⟨htunnel, hclient, _, rfl⟩
  | false =>
      obtain ⟨hclient, r, hrelay⟩ := hplaced
      rw [Sockets.stopTunnel, hrelay]
      dsimp only
      split
      · exact hexchange hrelay nofun ⟨hclient, _, rfl⟩
      · exact hexchange hrelay nofun ⟨hclient, _, rfl⟩

theorem Owned.shutTunnel (h : s.Owned) {last : Bool} (hphase : s.phase = .shutting last) :
    (s.shutTunnel last).Owned := by
  have hs : ∀ again sock, s.phase ≠ .publishing again sock := by
    rw [hphase]
    nofun
  have hplaced := h.placed
  rw [Placed, hphase] at hplaced
  have hshut {r : TunnelRelay H} (hrelay : s.relay = some r)
      (hplaced : ((s.call (.shutdown r.clientSock)).enter (.joining last)).Placed) :
      ((s.call (.shutdown r.clientSock)).enter (.joining last)).Owned := by
    refine ⟨?_, hplaced, ?_, h.sane⟩
    · have hledger := h.ledger.shutdown (mem_held_relay hrelay)
      rw [held_of_tunnel hrelay hs] at hledger
      rw [held_of_tunnel (s := (s.call (.shutdown r.clientSock)).enter (.joining last)) hrelay
        nofun]
      exact hledger
    · exact h.stops.keep rfl rfl rfl rfl (fun _ => id) (fun _ => id) rfl fun _ _ => by simp
  cases last with
  | true =>
      obtain ⟨htunnel, hclient, r, hrelay⟩ := hplaced
      rw [Sockets.shutTunnel, hrelay]
      exact hshut hrelay ⟨htunnel, hclient, r, hrelay⟩
  | false =>
      obtain ⟨hclient, r, hrelay⟩ := hplaced
      rw [Sockets.shutTunnel, hrelay]
      exact hshut hrelay ⟨hclient, r, hrelay⟩

theorem Owned.joinTunnel (h : s.Owned) {last : Bool} (hphase : s.phase = .joining last) :
    (s.joinTunnel last).Owned := by
  have hs : ∀ again sock, s.phase ≠ .publishing again sock := by
    rw [hphase]
    nofun
  have hplaced := h.placed
  rw [Placed, hphase] at hplaced
  cases last with
  | true =>
      obtain ⟨htunnel, hclient, r, hrelay⟩ := hplaced
      rw [Sockets.joinTunnel, hrelay]
      dsimp only
      split
      · exact h
      · rw [if_pos rfl]
        refine ⟨?_, ⟨rfl, htunnel⟩, ?_, h.sane⟩
        · have hledger := h.ledger
          rw [held_of_tunnel hrelay hs] at hledger
          have hclosed := (hledger.congr List.perm_append_comm).closeFirst
          rw [held]
          dsimp only [Sockets.call]
          rw [hclient]
          exact (List.append_nil s.target.toList).symm ▸ hclosed
        · refine h.stops.keep rfl rfl rfl rfl (fun hset => ?_) (fun _ => id) rfl
            fun _ _ => by simp
          rw [htunnel] at hset
          cases hset
  | false =>
      obtain ⟨hclient, r, hrelay⟩ := hplaced
      rw [Sockets.joinTunnel, hrelay]
      dsimp only
      split
      · exact h
      · rw [if_neg (by decide)]
        exact h.enter (held_enter_of_publishing hs nofun) ⟨hclient, r, hrelay⟩

/-- The tunnel is taken out of `tunnel_`, which no thread in `stop` follows meanwhile. -/
theorem Owned.unpublish (h : s.Owned) (hphase : s.phase = .unpublishing) (hmutex : s.mutex = none) :
    ({ s with tunnelSet := false, phase := .stopping true } : Sockets H).Owned := by
  have hplaced := h.placed
  rw [Placed, hphase] at hplaced
  obtain ⟨hclient, r, hrelay⟩ := hplaced
  refine ⟨?_, ⟨rfl, hclient, r, hrelay⟩, ?_, h.sane⟩
  · have hledger := h.ledger
    rw [held_of_tunnel hrelay (by rw [hphase]; nofun)] at hledger
    rw [held]
    dsimp only
    rw [hrelay]
    exact hledger
  · refine ⟨h.stops.flag, h.stops.locked, fun p hp hinside => ?_, fun p hp hphase' hset => ?_,
      h.stops.shut⟩
    · obtain ⟨i, hi⟩ := List.mem_iff_getElem?.1 hp
      have hlocked := h.stops.locked i p hi (hinside.imp_right Or.inl)
      rw [hmutex] at hlocked
      cases hlocked
    · cases hset

theorem Owned.owner_starting (h : s.Owned) (hphase : s.phase = .starting) (input : OwnerInput H) :
    (s.owner setup input).Owned := by
  have hplaced := h.placed
  rw [Placed, hphase] at hplaced
  obtain ⟨htarget, hrelay, htunnel⟩ := hplaced
  have hs : ∀ again sock, s.phase ≠ .publishing again sock := by
    rw [hphase]
    nofun
  have hused : (s.callOn s.client .use).Owned := h.callOn_use fun _ => mem_held_client hrelay
  have hclosing : (s.enter .closing).Owned :=
    h.enter (held_enter_of_publishing hs nofun) ⟨hrelay, htunnel⟩
  rw [callOn_eq] at hused
  unfold Sockets.owner
  rw [hphase]
  dsimp only
  rw [callOn_eq]
  split
  · exact hclosing
  · cases input with
    | ok =>
        dsimp only
        split
        · exact hused.enter (held_enter_of_publishing hs nofun) ⟨htarget, hrelay, htunnel⟩
        · exact hused.enter (held_enter_of_publishing hs nofun) ⟨htarget, hrelay, htunnel⟩
    | fails => exact hused.enter (held_enter_of_publishing hs nofun) ⟨hrelay, htunnel⟩
    | throws => exact hclosing
    | _ => exact h

theorem Owned.owner_collecting (h : s.Owned) {connected : Bool}
    (hphase : s.phase = .collecting connected) (input : OwnerInput H) :
    (s.owner setup input).Owned := by
  have hplaced := h.placed
  rw [Placed, hphase] at hplaced
  have hs : ∀ again sock, s.phase ≠ .publishing again sock := by
    rw [hphase]
    nofun
  have hrelay : s.relay = none := by
    cases connected with
    | true => exact hplaced.1
    | false => exact hplaced.2.1
  have htunnel : s.tunnelSet = false := by
    cases connected with
    | true => exact hplaced.2
    | false => exact hplaced.2.2
  have hclosing : (s.enter .closing).Owned :=
    h.enter (held_enter_of_publishing hs nofun) ⟨hrelay, htunnel⟩
  unfold Sockets.owner
  rw [hphase]
  cases input with
  | more => exact h.callOn_use fun _ => mem_held_client hrelay
  | ok =>
      cases connected with
      | true => exact h.enter (held_enter_of_publishing hs nofun) ⟨hrelay, htunnel⟩
      | false => exact h.enter (held_enter_of_publishing hs nofun) hplaced
  | fails => exact hclosing
  | throws => exact hclosing
  | _ => exact h

theorem Owned.owner_connecting (h : s.Owned) {again : Bool} (hphase : s.phase = .connecting again)
    (input : OwnerInput H) : (s.owner setup input).Owned := by
  have hplaced := h.placed
  rw [Placed, hphase] at hplaced
  obtain ⟨htarget, hrelay, htunnel⟩ := hplaced
  have hs : ∀ again sock, s.phase ≠ .publishing again sock := by
    rw [hphase]
    nofun
  have hclosing : (s.enter .closing).Owned :=
    h.enter (held_enter_of_publishing hs nofun) ⟨hrelay, htunnel⟩
  have hunconnected : (s.unconnected again).Owned := by
    cases again with
    | true => exact h.enter (held_enter_of_publishing hs nofun) ⟨hrelay, htunnel⟩
    | false => exact hclosing
  unfold Sockets.owner
  rw [hphase]
  dsimp only
  split
  · exact hunconnected
  · cases input with
    | opens sock =>
        dsimp only
        split
        · exact h
        · exact h.connect hphase ‹_›
    | fails => exact hunconnected
    | throws => exact hclosing
    | _ => exact h

theorem Owned.owner_delivering (h : s.Owned) (hphase : s.phase = .delivering)
    (input : OwnerInput H) : (s.owner setup input).Owned := by
  have hplaced := h.placed
  rw [Placed, hphase] at hplaced
  have hs : ∀ again sock, s.phase ≠ .publishing again sock := by
    rw [hphase]
    nofun
  unfold Sockets.owner
  rw [hphase]
  cases input with
  | more => exact h.callOn_use fun _ => mem_held_target
  | ok => exact h.enter (held_enter_of_publishing hs nofun) hplaced
  | fails => exact h.enter (held_enter_of_publishing hs nofun) hplaced
  | again => exact h.enter (held_enter_of_publishing hs nofun) hplaced
  | throws => exact h.enter (held_enter_of_publishing hs nofun) hplaced
  | opens sock => exact h

theorem Owned.owner_piping (h : s.Owned) (hphase : s.phase = .piping) (input : OwnerInput H) :
    (s.owner setup input).Owned := by
  have hplaced := h.placed
  rw [Placed, hphase] at hplaced
  have hclosing : (s.enter .closing).Owned :=
    h.enter (held_enter_of_publishing (by rw [hphase]; nofun) nofun) hplaced
  unfold Sockets.owner
  rw [hphase]
  cases input with
  | more =>
      have hused : (s.callOn s.client .use).Owned := h.callOn_use fun _ => mem_held_client hplaced.1
      refine hused.callOn_use fun _ htarget => ?_
      rw [callOn_eq]
      exact mem_held_target htarget
  | _ => exact hclosing

theorem Owned.owner_tunnel (h : s.Owned)
    (hphase : s.phase = .tunnelling ∨ s.phase = .pumping) (input : OwnerInput H) :
    (s.owner setup input).Owned := by
  have hplaced : s.client = none ∧ ∃ r, s.relay = some r := by
    have hplaced := h.placed
    rw [Placed] at hplaced
    rcases hphase with hphase | hphase
    · rw [hphase] at hplaced
      exact hplaced
    · rw [hphase] at hplaced
      exact hplaced
  have hs : ∀ again sock, s.phase ≠ .publishing again sock := by
    rcases hphase with hphase | hphase
    · rw [hphase]
      nofun
    · rw [hphase]
      nofun
  have hleaves : (s.enter .unpublishing).Owned :=
    h.enter (held_enter_of_publishing hs nofun) hplaced
  have hstops : (s.enter (.stopping false)).Owned :=
    h.enter (held_enter_of_publishing hs nofun) hplaced
  obtain ⟨hclient, r, hrelay⟩ := hplaced
  unfold Sockets.owner
  rcases hphase with hphase | hphase
  · rw [hphase]
    dsimp only
    split
    · rename_i r' hrelay'
      have hsock : ({ r' with pump := .pumping } : TunnelRelay H).clientSock = r'.clientSock := rfl
      exact h.withTunnel hrelay' hsock id hs nofun ⟨hclient, _, rfl⟩
    · rename_i hnone
      rw [hrelay] at hnone
      cases hnone
    · exact h
    · exact hleaves
  · rw [hphase]
    cases input with
    | more =>
        refine h.callOn_use fun handle hhandle => ?_
        rw [hrelay] at hhandle
        rw [← Option.mem_some_iff.1 hhandle]
        exact mem_held_relay hrelay
    | throws => exact hleaves
    | _ => exact hstops

theorem Owned.owner (h : s.Owned) (input : OwnerInput H) : (s.owner setup input).Owned := by
  cases hphase : s.phase with
  | starting => exact h.owner_starting hphase input
  | collecting connected => exact h.owner_collecting hphase input
  | connecting again => exact h.owner_connecting hphase input
  | publishing again sock =>
      unfold Sockets.owner
      rw [hphase]
      dsimp only
      split
      · exact h
      · cases input with
        | ok => exact h.connectTarget hphase true
        | fails => exact h.connectTarget hphase false
        | _ => exact h
  | delivering => exact h.owner_delivering hphase input
  | reconnecting =>
      unfold Sockets.owner
      rw [hphase]
      dsimp only
      split
      · exact h
      · exact h.reconnect hphase
  | piping => exact h.owner_piping hphase input
  | handingOver =>
      unfold Sockets.owner
      rw [hphase]
      exact h.handOver hphase
  | publishingTunnel =>
      unfold Sockets.owner
      rw [hphase]
      dsimp only
      split
      · exact h
      · exact h.publishTunnel hphase
  | tunnelling => exact h.owner_tunnel (Or.inl hphase) input
  | pumping => exact h.owner_tunnel (Or.inr hphase) input
  | stopping last =>
      unfold Sockets.owner
      rw [hphase]
      exact h.stopTunnel hphase
  | shutting last =>
      unfold Sockets.owner
      rw [hphase]
      exact h.shutTunnel hphase
  | joining last =>
      unfold Sockets.owner
      rw [hphase]
      exact h.joinTunnel hphase
  | unpublishing =>
      unfold Sockets.owner
      rw [hphase]
      dsimp only
      split
      · exact h
      · exact h.unpublish hphase (Option.not_isSome_iff_eq_none.1 ‹_›)
  | closing =>
      unfold Sockets.owner
      rw [hphase]
      dsimp only
      split
      · exact h
      · exact h.closeSockets hphase
  | returned =>
      unfold Sockets.owner
      rw [hphase]
      exact h

/-! ## The other threads -/

omit [DecidableEq H] in
theorem phase_of_relay (h : s.Placed) {r : TunnelRelay H} (hrelay : s.relay = some r) :
    ∀ again sock, s.phase ≠ .publishing again sock := by
  intro again sock hphase
  rw [Placed, hphase] at h
  rw [h.2.1] at hrelay
  cases hrelay

omit [DecidableEq H] in
theorem relay_of_tunnelSet (h : s.Placed) (hset : s.tunnelSet = true) :
    ∃ r, s.relay = some r := by
  cases hrelay : s.relay with
  | some r => exact ⟨r, rfl⟩
  | none =>
      rw [Placed, hset, hrelay] at h
      split at h <;> simp at h

omit [DecidableEq H] in
/-- Another state of the same tunnel. -/
theorem Placed.withTunnel (h : s.Placed) {r r' : TunnelRelay H} (hrelay : s.relay = some r)
    (hsock : r'.clientSock = r.clientSock) : ({ s with relay := some r' } : Sockets H).Placed := by
  rw [Placed, hrelay] at h
  rw [Placed]
  dsimp only
  split at h
  case h_11 =>
    obtain ⟨htunnel, _, hr, hclient⟩ := h
    rw [← Option.some.inj hr, ← hsock] at hclient
    exact ⟨htunnel, r', rfl, hclient⟩
  all_goals simp_all

theorem Owned.pump (h : s.Owned) (ends : Bool) : (s.pump ends).Owned := by
  unfold Sockets.pump
  split
  · exact h
  · rename_i r hrelay
    have hs := phase_of_relay h.placed hrelay
    have hheld := mem_held_relay hrelay
    have hwith {r' : TunnelRelay H} (hsock : r'.clientSock = r.clientSock)
        (hstops : r.stopping = true → r'.stopping = true) :
        ({ s with relay := some r' } : Sockets H).Owned :=
      h.withTunnel hrelay hsock hstops hs hs (h.placed.withTunnel hrelay hsock)
    split
    · split
      · exact hwith rfl fun _ => rfl
      · exact h.use hheld
    · have hended : ({ s with relay := some { r with pump := .ended } } : Sockets H).Owned :=
        hwith rfl id
      refine ⟨?_, hended.placed, ?_, h.sane⟩
      · exact hended.ledger.shutdown (mem_held_relay (r := { r with pump := .ended }) rfl)
      · exact hended.stops.keep rfl rfl rfl rfl (fun _ => id) (fun _ => id) rfl fun _ _ => by simp
    · exact h

omit [DecidableEq H] in
/-- A thread in `stop` goes on. -/
theorem Stops.set (h : s.Stops) {i : ℕ} {p q : StopPhase} (hi : s.stoppers[i]? = some p)
    (hstoppers : t.stoppers = s.stoppers.set i q) (hstopping : t.stopping = s.stopping)
    (htunnel : t.tunnelSet = s.tunnelSet)
    (hothers : ∀ j, j ≠ i → s.mutex = some j → t.mutex = some j)
    (hlocked : q = .inTunnel ∨ q = .shutting ∨ q = .sockets → t.mutex = some i)
    (hinside : q = .inTunnel ∨ q = .shutting → s.tunnelSet = true)
    (htold : q = .shutting ∨ q = .sockets ∨ q = .returned → s.tunnelSet = true → t.TunnelStops)
    (htells : s.TunnelStops → t.TunnelStops)
    (hshut : ∀ handle, t.Visible handle → q = .returned ∨ s.Visible handle ∧
      (s.Shut handle → t.Shut handle))
    (hnew : q = .returned → ∀ handle, t.Visible handle → t.Shut handle) : t.Stops := by
  have hmem (p' : StopPhase) (hp' : p' ∈ s.stoppers.set i q) : p' = q ∨ p' ∈ s.stoppers :=
    (List.mem_or_eq_of_mem_set hp').symm
  refine ⟨fun _ => ?_, fun j p' hj hp' => ?_, fun p' hp' hphase => ?_, fun p' hp' hphase hset => ?_,
    fun hreturned handle hvisible => ?_⟩
  · rw [hstopping]
    exact h.flag (List.ne_nil_of_mem (List.mem_of_getElem? hi))
  · rw [hstoppers] at hj
    by_cases hsame : j = i
    · rw [hsame, List.getElem?_set_self (List.getElem?_eq_some_iff.1 hi).1] at hj
      rw [hsame]
      exact hlocked (Option.some.inj hj ▸ hp')
    · rw [List.getElem?_set_ne (Ne.symm hsame)] at hj
      exact hothers j hsame (h.locked j p' hj hp')
  · rw [htunnel]
    rw [hstoppers] at hp'
    rcases hmem p' hp' with rfl | hold
    · exact hinside hphase
    · exact h.inside p' hold hphase
  · rw [htunnel] at hset
    rw [hstoppers] at hp'
    rcases hmem p' hp' with rfl | hold
    · exact htold hphase hset
    · exact htells (h.told p' hold hphase hset)
  · rw [hstoppers] at hreturned
    rcases hmem _ hreturned with hq | hold
    · exact hnew hq.symm handle hvisible
    · rcases hshut handle hvisible with hq | ⟨hvisible', hkeeps⟩
      · exact hnew hq handle hvisible
      · exact hkeeps (h.shut hold handle hvisible')

omit [DecidableEq H] in
theorem mem_held_of_client (h : s.Placed) {handle : H} (hclient : s.client = some handle) :
    handle ∈ s.held := by
  cases hrelay : s.relay with
  | none => exact mem_held_client hrelay hclient
  | some r =>
      have hsame : handle = r.clientSock := by
        rw [Placed, hclient, hrelay] at h
        split at h <;> simp_all
      rw [hsame]
      exact mem_held_relay hrelay

omit [DecidableEq H] in
theorem shut_shutVisible {handle : H} (hvisible : s.Visible handle) :
    s.shutVisible.Shut handle := by
  rw [shutVisible, callOn_eq, callOn_eq]
  rcases hvisible with hclient | htarget
  · refine ⟨s.calls ++ (s.target.map SocketCall.shutdown).toList, .shutdown handle, [], ?_, rfl,
      fun c hc => absurd hc List.not_mem_nil⟩
    dsimp only
    rw [hclient]
    rfl
  · refine ⟨s.calls, .shutdown handle, (s.client.map SocketCall.shutdown).toList, ?_, rfl, ?_⟩
    · dsimp only
      rw [htarget, List.append_assoc]
      rfl
    · intro c hc heq
      rw [heq] at hc
      cases hclient : s.client with
      | none =>
          rw [hclient] at hc
          cases hc
      | some other =>
          rw [hclient] at hc
          cases List.mem_singleton.1 hc

theorem Owned.stopper (h : s.Owned) (i : ℕ) : (s.stopper i).Owned := by
  unfold Sockets.stopper
  split
  · rename_i hi
    split
    · exact h
    · rename_i hfree
      have hmutex : s.mutex = none := Option.not_isSome_iff_eq_none.1 hfree
      refine ⟨h.ledger, h.placed, ?_, h.sane⟩
      refine h.stops.set hi rfl rfl rfl (fun j hj hheld => ?_) (fun _ => rfl) ?_ ?_ id
        (fun handle hvisible => Or.inr ⟨hvisible, id⟩) ?_
      · rw [hmutex] at hheld
        cases hheld
      · split
        · exact fun _ => ‹_›
        · rintro (hphase | hphase)
          · cases hphase
          · cases hphase
      · split
        · rintro (hphase | hphase | hphase)
          · cases hphase
          · cases hphase
          · cases hphase
        · exact fun _ hset => absurd hset ‹_›
      · split
        · nofun
        · nofun
  · rename_i hi
    have hset := h.stops.inside _ (List.mem_of_getElem? hi) (Or.inl rfl)
    have hmutex := h.stops.locked i _ hi (Or.inl rfl)
    obtain ⟨r, hrelay⟩ := relay_of_tunnelSet h.placed hset
    have hs := phase_of_relay h.placed hrelay
    have hsock : (exchange r).1.clientSock = r.clientSock := rfl
    have htold : ({ s with relay := some (exchange r).1 } : Sockets H).Owned :=
      h.withTunnel hrelay hsock (fun _ => rfl) hs hs
        (h.placed.withTunnel hrelay hsock)
    rw [hrelay]
    dsimp only
    refine ⟨htold.ledger, htold.placed, ?_, h.sane⟩
    refine h.stops.set hi rfl rfl rfl (fun j hj hheld => ?_) (fun _ => hmutex) (fun _ => hset)
      (fun _ _ => ⟨_, rfl, rfl⟩) (fun _ => ⟨_, rfl, rfl⟩)
      (fun handle hvisible => Or.inr ⟨hvisible, id⟩) ?_
    · exact hheld
    · split
      · nofun
      · nofun
  · rename_i hi
    have hset := h.stops.inside _ (List.mem_of_getElem? hi) (Or.inr rfl)
    have hmutex := h.stops.locked i _ hi (Or.inr (Or.inl rfl))
    have htold := h.stops.told _ (List.mem_of_getElem? hi) (Or.inl rfl) hset
    obtain ⟨r, hrelay⟩ := relay_of_tunnelSet h.placed hset
    rw [hrelay]
    dsimp only
    refine ⟨h.ledger.shutdown (mem_held_relay hrelay), h.placed, ?_, h.sane⟩
    refine h.stops.set hi rfl rfl rfl (fun j hj hheld => hheld) (fun _ => hmutex) (fun _ => hset)
      (fun _ _ => htold) id (fun handle hvisible => Or.inr ⟨hvisible, fun hshut => ?_⟩) nofun
    exact hshut.append rfl (by simp)
  · rename_i hi
    have hmutex := h.stops.locked i _ hi (Or.inr (Or.inr rfl))
    have hshut (handle : H) (hvisible : s.Visible handle) := shut_shutVisible hvisible
    rw [shutVisible, callOn_eq, callOn_eq] at hshut ⊢
    refine ⟨?_, h.placed, ?_, h.sane⟩
    · exact (h.ledger.shutdownOption fun _ => mem_held_target).shutdownOption
        fun _ => mem_held_of_client h.placed
    · refine h.stops.set hi rfl rfl rfl (fun j hj hheld => ?_) ?_ ?_
        (fun _ hset => h.stops.told _ (List.mem_of_getElem? hi) (Or.inr (Or.inl rfl)) hset) id
        (fun handle hvisible => Or.inl rfl) fun _ => hshut
      · rw [hmutex] at hheld
        exact absurd (Option.some.inj hheld).symm hj
      · rintro (hphase | hphase | hphase)
        · cases hphase
        · cases hphase
        · cases hphase
      · rintro (hphase | hphase)
        · cases hphase
        · cases hphase
  · exact h

theorem Owned.stop (h : s.Owned) :
    ({ s with stopping := true, stoppers := s.stoppers ++ [.flagged] } : Sockets H).Owned := by
  have hold (p : StopPhase) (hp : p ∈ s.stoppers ++ [.flagged]) : p ∈ s.stoppers ∨ p = .flagged :=
    (List.mem_append.1 hp).imp_right List.mem_singleton.1
  refine ⟨h.ledger, h.placed, ⟨fun _ => rfl, fun i p hi hp => ?_, fun p hp hphase => ?_,
    fun p hp hphase hset => ?_, fun hreturned => ?_⟩, h.sane⟩
  · dsimp only at hi
    rcases Nat.lt_or_ge i s.stoppers.length with hlt | hge
    · rw [List.getElem?_append_left hlt] at hi
      exact h.stops.locked i p hi hp
    · rw [List.getElem?_append_right hge] at hi
      have hflagged := List.mem_singleton.1 (List.mem_of_getElem? hi)
      rw [hflagged] at hp
      rcases hp with hp | hp | hp
      · cases hp
      · cases hp
      · cases hp
  · rcases hold p hp with hmem | rfl
    · exact h.stops.inside p hmem hphase
    · rcases hphase with hphase | hphase
      · cases hphase
      · cases hphase
  · rcases hold p hp with hmem | rfl
    · exact h.stops.told p hmem hphase hset
    · rcases hphase with hphase | hphase | hphase
      · cases hphase
      · cases hphase
      · cases hphase
  · rcases hold _ hreturned with hmem | hflagged
    · exact h.stops.shut hmem
    · cases hflagged

theorem Owned.step (h : s.Owned) (event : SocketEvent H) : (s.step setup event).Owned := by
  cases event with
  | owner input => exact h.owner input
  | pump ends => exact h.pump ends
  | stop => exact h.stop
  | stopper i => exact h.stopper i

theorem owned_start (clientSock : H) : (start clientSock).Owned := by
  refine ⟨⟨?_, ?_⟩, ⟨rfl, rfl, rfl⟩, ?_, rfl⟩
  · exact Ends.nil.acquire Nat.zero_lt_two clientSock
  · intro before c after heq handle hhandle
    cases before with
    | nil =>
        obtain ⟨rfl, -⟩ := List.cons_eq_cons.1 heq
        cases hhandle
    | cons c' before =>
        have hnil := (List.cons_eq_cons.1 heq).2
        exact absurd hnil.symm (List.append_ne_nil_of_right_ne_nil _ (List.cons_ne_nil _ _))
  · refine ⟨fun hne => absurd rfl hne, ?_, ?_, ?_, ?_⟩
    · intro i p hi
      cases hi
    · intro p hp
      cases hp
    · intro p hp
      cases hp
    · intro hreturned
      cases hreturned

theorem run_owned (setup : OwnerSetup) (clientSock : H) (events : List (SocketEvent H)) :
    (run setup clientSock events).Owned :=
  run_invariant (step setup) (start clientSock) (fun _ s => s.Owned) (owned_start clientSock)
    (fun _ _ event h => h.step event) events

/-- Whenever `stop` is called, by however many threads: nothing is done to a handle unless the
connection holds it then, so never to one that the system has given to somebody else; the tunnel
is not followed when it is gone; two sockets are held at most, none when `run` has returned; and
once a `stop` has returned, every socket that is still in its field has been shut down, and a
tunnel that is there has been told to stop. -/
theorem sockets_owned (setup : OwnerSetup) (clientSock : H) (events : List (SocketEvent H)) :
    (∀ before c after, (run setup clientSock events).calls = before ++ c :: after →
        ∀ handle ∈ c.needs, handle ∈ holding (uses before)) ∧
      (run setup clientSock events).dangling = false ∧
      (∀ before after, (run setup clientSock events).calls = before ++ after →
        (holding (uses before)).length ≤ 2) ∧
      ((run setup clientSock events).phase = .returned →
        holding (uses (run setup clientSock events).calls) = []) ∧
      (.returned ∈ (run setup clientSock events).stoppers →
        (∀ handle, (run setup clientSock events).Visible handle →
          (run setup clientSock events).Shut handle) ∧
        ((run setup clientSock events).tunnelSet = true →
          (run setup clientSock events).TunnelStops)) := by
  have h := run_owned setup clientSock events
  revert h
  generalize run setup clientSock events = s
  intro h
  refine ⟨h.ledger.sound, h.sane, fun before after heq => ?_, fun hreturned => ?_,
    fun hstopped => ⟨h.stops.shut hstopped, ?_⟩⟩
  · refine h.ledger.ends.atMost (uses before) (uses after) ?_
    rw [heq]
    exact List.filterMap_append
  · have hplaced := h.placed
    rw [Placed, hreturned] at hplaced
    obtain ⟨hclient, htarget, hrelay, -⟩ := hplaced
    have hperm := h.ledger.ends.perm
    rw [held_of_placed htarget hrelay (by rw [hreturned]; nofun), hclient] at hperm
    exact hperm.eq_nil
  · exact h.stops.told .returned hstopped (Or.inr (Or.inr rfl))

end Sockets

end Relay

end SplitHello
