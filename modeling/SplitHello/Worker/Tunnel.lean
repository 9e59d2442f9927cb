import SplitHello.Library.History
import SplitHello.Library.InFlight
import SplitHello.Worker.Resolve

/-!
# The Worker's `/tunnel`

A WebSocket towards the client and a TCP connection towards a target, with limits that
are meant to hold whoever knows the secret. The handler of a message suspends twice, at
the lookup of the host and at the write to the target, and the loop that reads from the
target suspends at every read; between two suspensions nothing else runs. A run is
therefore a list of events: what arrives from outside, and which suspended piece of
code goes on with which outcome. The events come in any order, and what the runtime
decides (whether a call throws, what a lookup finds) comes with them.

A target connection is open until its writer is closed, which is all the tunnel does to
end one.
-/

namespace SplitHello

namespace Worker

open ByteString History InFlight

def allowedPorts : List ℕ := [80, 443, 853]
def tunnelMaxBytes : ℕ := 512 * 1024 * 1024
def tunnelMaxPendingBytes : ℕ := 4 * 1024 * 1024

/-- The members of a JSON object that are read. A member that is missing or has another
type is `none`, and so is a port that `Number` makes no natural number of. -/
structure Command where
  cmd : Option Bytes
  host : Option Bytes
  port : Option ℕ
  deriving DecidableEq, Repr

/-- A message of the client: its bytes, those of a text in UTF-8, and what `JSON.parse`
makes of it, `none` where it or reading a member throws. -/
structure Message where
  data : Bytes
  command : Option Command := none
  deriving DecidableEq, Repr

/-- Why the tunnel fails. -/
inductive Failure
  | idleTimeout
  | byteLimit
  | invalidHost
  | portNotAllowed
  | unresolvableHost
  | tooSlow
  | relayError
  deriving DecidableEq, Repr

def Failure.message : Failure → Bytes
  | .idleTimeout => ofString "idle timeout"
  | .byteLimit => ofString "byte limit reached"
  | .invalidHost => ofString "invalid host"
  | .portNotAllowed => ofString "port not allowed"
  | .unresolvableHost => ofString "unresolvable host"
  | .tooSlow => ofString "target too slow"
  | .relayError => ofString "relay error"

def Failure.code : Failure → ℕ
  | .idleTimeout => 1001
  | .byteLimit | .invalidHost | .portNotAllowed | .unresolvableHost => 1008
  | .tooSlow => 1013
  | .relayError => 1011

/-- The ways a tunnel is closed. -/
inductive Closing
  | closeEvent
  | errorEvent
  | failed (message : Bytes) (code : ℕ)
  deriving DecidableEq, Repr

/-- A connection to a target, and whether the loop that reads from it still runs. -/
structure TargetSocket where
  address : Bytes
  port : ℕ
  isOpen : Bool := true
  reading : Bool := true
  deriving DecidableEq, Repr

/-- The host and the port of a message that waits for its lookup. -/
structure Lookup where
  host : Bytes
  port : ℕ
  deriving DecidableEq, Repr

/-- A write to a target, for the message with this number. -/
structure Write where
  message : ℕ
  target : ℕ
  data : Bytes
  deriving DecidableEq, Repr

def Write.size (w : Write) : ℕ := w.data.length

/-- The variables of the handler (`targetWriter` is the number of a target), the
connections it has opened and the handlers that are suspended. `arrived`, `returned` and
`closings` only record what happened, oldest first. -/
structure Tunnel where
  targetWriter : Option ℕ := none
  opening : Bool := false
  idleTimer : Bool := true
  transferred : ℕ := 0
  pendingBytes : ℕ := 0
  ready : Bool := true
  targets : List TargetSocket := []
  lookups : List (Job Lookup) := []
  writes : List (Job Write) := []
  arrived : List Message := []
  returned : List Bytes := []
  closings : List Closing := []
  deriving DecidableEq, Repr

namespace Tunnel

def closeTarget (s : Tunnel) : Tunnel :=
  { s with
    idleTimer := false
    targetWriter := none
    targets :=
      match s.targetWriter with
      | none => s.targets
      | some target => s.targets.modify target fun t => { t with isOpen := false } }

def failAndClose (s : Tunnel) (failure : Failure) : Tunnel :=
  closeTarget
    { s with
      ready := false
      closings := s.closings ++ [.failed failure.message failure.code] }

/-- What a handler does with an exception. -/
def relayError (s : Tunnel) : Tunnel := { s with opening := false }.failAndClose .relayError

def touch (s : Tunnel) : Tunnel := { s with idleTimer := true }

def countBytes (s : Tunnel) (size : ℕ) : Tunnel × Bool :=
  let s := { s with transferred := s.transferred + size }
  if s.transferred > tunnelMaxBytes then (s.failAndClose .byteLimit, false) else (s, true)

/-- A message while no target is up, to the lookup of its host. -/
def openTarget (s : Tunnel) (m : Message) : Tunnel :=
  if s.opening then s
  else
    match m.command with
    | none => { s with opening := true }.relayError
    | some command =>
        match command.host with
        | none => { s with opening := false }.failAndClose .invalidHost
        | some host =>
            if command.cmd ≠ some (ofString "connect") ∨ isValidHostname host = false then
              { s with opening := false }.failAndClose .invalidHost
            else
              match command.port with
              | none => { s with opening := false }.failAndClose .portNotAllowed
              | some port =>
                  if port ∉ allowedPorts then
                    { s with opening := false }.failAndClose .portNotAllowed
                  else { s with opening := true, lookups := start s.lookups ⟨host, port⟩ }

/-- A message for the target, to its write. -/
def writeTarget (s : Tunnel) (m : Message) (message target : ℕ) : Tunnel :=
  let (s, within) := s.countBytes m.data.length
  if !within then s
  else if s.pendingBytes + m.data.length > tunnelMaxPendingBytes then s.failAndClose .tooSlow
  else
    { s with
      pendingBytes := s.pendingBytes + m.data.length
      writes := start s.writes ⟨message, target, m.data⟩ }

def onMessage (s : Tunnel) (m : Message) : Tunnel :=
  let arriving := { s.touch with arrived := s.arrived ++ [m] }
  match s.targetWriter with
  | none => arriving.openTarget m
  | some target => arriving.writeTarget m s.arrived.length target

/-- `resolved.a[0] || resolved.aaaa[0]`; an empty text counts as nothing. -/
def firstAddress (resolved : Resolved) : Option Bytes :=
  (resolved.a.head?.filter (· ≠ [])).or (resolved.aaaa.head?.filter (· ≠ []))

/-- The handler goes on after its lookup, which may have thrown. -/
def onResolved (s : Tunnel) (handler : ℕ) (result : Option Resolved) (connects sends : Bool) :
    Tunnel :=
  match waiting s.lookups handler with
  | none => s
  | some lookup =>
      let s := { s with lookups := settle s.lookups handler }
      match result with
      | none => s.relayError
      | some resolved =>
          match firstAddress resolved with
          | none => { s with opening := false }.failAndClose .unresolvableHost
          | some address =>
              if !connects then s.relayError
              else
                let connected :=
                  { s with
                    targetWriter := some s.targets.length
                    opening := false
                    targets := s.targets ++ [{ address, port := lookup.port }] }
                if sends then connected else connected.relayError

/-- The handler goes on after its write. -/
def onWritten (s : Tunnel) (handler : ℕ) (succeeds : Bool) : Tunnel :=
  match waiting s.writes handler with
  | none => s
  | some write =>
      let s :=
        { s with
          pendingBytes := s.pendingBytes - write.size
          writes := settle s.writes handler }
      if succeeds then s else s.relayError

/-- The loop that reads from a target is left; the client's side is closed. -/
def endReading (s : Tunnel) (target : ℕ) : Tunnel :=
  { s with
    ready := false
    targets := s.targets.modify target fun t => { t with reading := false } }

/-- What a read from a target comes to, and whether the client's socket takes it. -/
inductive ReadResult
  | done
  | failed
  | value (value : Bytes) (sends : Bool)
  deriving DecidableEq, Repr

def onRead (s : Tunnel) (target : ℕ) (result : ReadResult) : Tunnel :=
  match s.targets[target]? with
  | none => s
  | some socket =>
      if !socket.reading then s
      else
        match result with
        | .done | .failed => s.endReading target
        | .value value sends =>
            if !s.ready then s.endReading target
            else
              let (s, within) := s.touch.countBytes value.length
              if within && sends then { s with returned := s.returned ++ [value] }
              else s.endReading target

end Tunnel

/-- What happens next. -/
inductive TunnelEvent
  | message (m : Message)
  | resolved (handler : ℕ) (result : Option Resolved) (connects sends : Bool)
  | written (handler : ℕ) (succeeds : Bool)
  | read (target : ℕ) (result : Tunnel.ReadResult)
  | close
  | error
  | idle
  deriving DecidableEq, Repr

namespace Tunnel

def step (s : Tunnel) (event : TunnelEvent) : Tunnel :=
  match event with
  | .message m => s.onMessage m
  | .resolved handler result connects sends => s.onResolved handler result connects sends
  | .written handler succeeds => s.onWritten handler succeeds
  | .read target result => s.onRead target result
  | .close => closeTarget { s with ready := false, closings := s.closings ++ [.closeEvent] }
  | .error => closeTarget { s with ready := false, closings := s.closings ++ [.errorEvent] }
  | .idle => if s.idleTimer then s.failAndClose .idleTimeout else s

def run (events : List TunnelEvent) : Tunnel := History.run step {} events

/-! ## What an event can do -/

/-- The connection that is opened when a lookup has found an address. -/
def connected (s : Tunnel) (handler : ℕ) (address : Bytes) (port : ℕ) : Tunnel :=
  { s with
    lookups := settle s.lookups handler
    targetWriter := some s.targets.length
    opening := false
    targets := s.targets ++ [{ address, port }] }

/-- An event that makes the tunnel open a connection. -/
def Opens (s : Tunnel) (event : TunnelEvent) : Prop :=
  ∃ handler lookup resolved address sends,
    event = .resolved handler (some resolved) true sends ∧
      waiting s.lookups handler = some lookup ∧ firstAddress resolved = some address

/-- What an event changes in the tunnel before it possibly closes it. -/
inductive Update (s : Tunnel) (event : TunnelEvent) : Tunnel → Prop
  | quiet (idleTimer : Bool) (arrived : List Message) (transferred : ℕ)
      (harrived : s.arrived <+: arrived) (htransferred : s.transferred ≤ transferred) :
      Update s event { s with idleTimer, arrived, transferred }
  | looksUp (m : Message) (lookup : Lookup) (hwriter : s.targetWriter = none)
      (hidle : s.opening = false) :
      Update s event
        { s.touch with
          arrived := s.arrived ++ [m]
          opening := true
          lookups := start s.lookups lookup }
  | passes (m : Message) (target : ℕ) (hlimit : s.transferred + m.data.length ≤ tunnelMaxBytes)
      (hroom : s.pendingBytes + m.data.length ≤ tunnelMaxPendingBytes) :
      Update s event
        { s.touch with
          arrived := s.arrived ++ [m]
          transferred := s.transferred + m.data.length
          pendingBytes := s.pendingBytes + m.data.length
          writes := start s.writes ⟨s.arrived.length, target, m.data⟩ }
  | abandons {handler : ℕ} {lookup : Lookup}
      (hwaiting : waiting s.lookups handler = some lookup) :
      Update s event { s with lookups := settle s.lookups handler, opening := false }
  | connects {handler : ℕ} {lookup : Lookup}
      (hwaiting : waiting s.lookups handler = some lookup) (address : Bytes)
      (hopens : s.Opens event) : Update s event (s.connected handler address lookup.port)
  | settles {handler : ℕ} {w : Write} (hwaiting : waiting s.writes handler = some w) :
      Update s event
        { s with
          pendingBytes := s.pendingBytes - w.size
          writes := settle s.writes handler }
  | returns (value : Bytes) (hlimit : s.transferred + value.length ≤ tunnelMaxBytes) :
      Update s event
        { s.touch with
          transferred := s.transferred + value.length
          returned := s.returned ++ [value] }

/-- How the tunnel is left: as it is, closed, or with a reading loop ended. -/
inductive Ending (u : Tunnel) : Tunnel → Prop
  | stays : Ending u u
  | closes (opening : Bool) (closing : Closing) :
      Ending u (closeTarget
        { u with
          opening
          ready := false
          closings := u.closings ++ [closing] })
  | leaves {t : Tunnel} (ht : Ending u t) (target : ℕ) : Ending u (t.endReading target)

theorem countBytes_cases (s : Tunnel) (size : ℕ) :
    tunnelMaxBytes < s.transferred + size ∧ s.countBytes size =
        ({ s with transferred := s.transferred + size }.failAndClose .byteLimit, false) ∨
      s.transferred + size ≤ tunnelMaxBytes ∧
        s.countBytes size = ({ s with transferred := s.transferred + size }, true) := by
  rw [countBytes]
  dsimp only
  split
  · exact Or.inl ⟨‹_›, rfl⟩
  · exact Or.inr ⟨Nat.le_of_not_lt ‹_›, rfl⟩

variable (s : Tunnel)

theorem update_arrived (event : TunnelEvent) (m : Message) (transferred : ℕ)
    (h : s.transferred ≤ transferred) :
    Update s event { s.touch with arrived := s.arrived ++ [m], transferred } :=
  .quiet true _ _ (List.prefix_append _ _) h

theorem openTarget_cases (m : Message) (hwriter : s.targetWriter = none) :
    ∃ u, Update s (.message m) u ∧
      Ending u ({ s.touch with arrived := s.arrived ++ [m] }.openTarget m) := by
  have harrived := s.update_arrived (.message m) m s.transferred le_rfl
  rw [openTarget]
  split
  · exact ⟨_, harrived, .stays⟩
  · rename_i hidle
    split
    · exact ⟨_, harrived, .closes false _⟩
    · split
      · exact ⟨_, harrived, .closes false _⟩
      · rename_i host _
        split
        · exact ⟨_, harrived, .closes false _⟩
        · split
          · exact ⟨_, harrived, .closes false _⟩
          · rename_i port _
            split
            · exact ⟨_, harrived, .closes false _⟩
            · exact ⟨_, .looksUp m ⟨host, port⟩ hwriter (Bool.eq_false_iff.2 hidle), .stays⟩

theorem writeTarget_cases (m : Message) (target : ℕ) :
    ∃ u, Update s (.message m) u ∧
      Ending u ({ s.touch with arrived := s.arrived ++ [m] }.writeTarget m s.arrived.length
        target) := by
  have harrived := s.update_arrived (.message m) m (s.transferred + m.data.length)
    (Nat.le_add_right _ _)
  rw [writeTarget]
  rcases countBytes_cases { s.touch with arrived := s.arrived ++ [m] } m.data.length with
    ⟨-, hcount⟩ | ⟨hlimit, hcount⟩
  · rw [hcount]
    exact ⟨_, harrived, .closes s.opening _⟩
  · rw [hcount]
    dsimp only
    rw [if_neg (by decide)]
    split
    · exact ⟨_, harrived, .closes s.opening _⟩
    · exact ⟨_, .passes m target hlimit (Nat.le_of_not_lt ‹_›), .stays⟩

theorem onResolved_cases (handler : ℕ) (result : Option Resolved) (connects sends : Bool) :
    ∃ u, Update s (.resolved handler result connects sends) u ∧
      Ending u (s.onResolved handler result connects sends) := by
  rw [onResolved]
  cases hlookup : waiting s.lookups handler with
  | none => exact ⟨s, .quiet _ _ _ List.prefix_rfl le_rfl, .stays⟩
  | some lookup =>
      cases result with
      | none => exact ⟨_, .abandons hlookup, .closes false _⟩
      | some resolved =>
          dsimp only
          cases haddress : firstAddress resolved with
          | none => exact ⟨_, .abandons hlookup, .closes false _⟩
          | some address =>
              cases connects with
              | false => exact ⟨_, .abandons hlookup, .closes false _⟩
              | true =>
                  have hopens : s.Opens (.resolved handler (some resolved) true sends) :=
                    ⟨handler, lookup, resolved, address, sends, rfl, hlookup, haddress⟩
                  cases sends with
                  | true => exact ⟨_, .connects hlookup address hopens, .stays⟩
                  | false => exact ⟨_, .connects hlookup address hopens, .closes false _⟩

theorem onWritten_cases (handler : ℕ) (succeeds : Bool) :
    ∃ u, Update s (.written handler succeeds) u ∧ Ending u (s.onWritten handler succeeds) := by
  rw [onWritten]
  cases hwrite : waiting s.writes handler with
  | none => exact ⟨s, .quiet _ _ _ List.prefix_rfl le_rfl, .stays⟩
  | some write =>
      cases succeeds with
      | true => exact ⟨_, .settles hwrite, .stays⟩
      | false => exact ⟨_, .settles hwrite, .closes false _⟩

theorem onRead_cases (target : ℕ) (result : ReadResult) :
    ∃ u, Update s (.read target result) u ∧ Ending u (s.onRead target result) := by
  have hsame : Update s (.read target result) s := .quiet _ _ _ List.prefix_rfl le_rfl
  unfold onRead
  split
  · exact ⟨s, hsame, .stays⟩
  · split
    · exact ⟨s, hsame, .stays⟩
    · split
      · exact ⟨s, hsame, .leaves .stays target⟩
      · exact ⟨s, hsame, .leaves .stays target⟩
      · rename_i value sends
        split
        · exact ⟨s, hsame, .leaves .stays target⟩
        · have hcounted : Update s (.read target (.value value sends))
              { s.touch with transferred := s.transferred + value.length } :=
            .quiet true _ _ List.prefix_rfl (Nat.le_add_right _ _)
          rcases s.touch.countBytes_cases value.length with ⟨-, hcount⟩ | ⟨hlimit, hcount⟩
          · rw [hcount]
            exact ⟨_, hcounted, .leaves (.closes s.opening _) target⟩
          · rw [hcount]
            cases sends with
            | true => exact ⟨_, .returns value hlimit, .stays⟩
            | false => exact ⟨_, hcounted, .leaves .stays target⟩

/-- Every event is one of the updates, and leaves the tunnel in one of the ways above. -/
theorem step_cases (event : TunnelEvent) : ∃ u, Update s event u ∧ Ending u (s.step event) := by
  have hsame : Update s event s := .quiet _ _ _ List.prefix_rfl le_rfl
  cases event with
  | message m =>
      rw [step, onMessage]
      dsimp only
      split
      · exact s.openTarget_cases m ‹_›
      · exact s.writeTarget_cases m _
  | resolved handler result connects sends => exact s.onResolved_cases handler result connects sends
  | written handler succeeds => exact s.onWritten_cases handler succeeds
  | read target result => exact s.onRead_cases target result
  | close => exact ⟨s, hsame, .closes s.opening .closeEvent⟩
  | error => exact ⟨s, hsame, .closes s.opening .errorEvent⟩
  | idle =>
      rw [step]
      split
      · exact ⟨s, hsame, .closes s.opening _⟩
      · exact ⟨s, hsame, .stays⟩

/-! ## Limits -/

/-- The bytes that went to a target or to the client. -/
def forwarded : ℕ :=
  ((s.writes.map Job.task).map Write.size).sum + (s.returned.map List.length).sum

structure WithinLimits : Prop where
  pending_eq : s.pendingBytes = load Write.size s.writes
  pending_le : s.pendingBytes ≤ tunnelMaxPendingBytes
  forwarded_le : s.forwarded ≤ tunnelMaxBytes
  in_order : ((s.writes.map Job.task).map Write.message).Pairwise (· < ·)
  passed : ∀ w ∈ s.writes.map Job.task, ∃ m, s.arrived[w.message]? = some m ∧ w.data = m.data

/-- The limits hold, and every byte that was forwarded has been counted. -/
structure Accounted : Prop extends s.WithinLimits where
  counted : s.forwarded ≤ s.transferred

variable {s} {u t : Tunnel} {event : TunnelEvent}

/-- How a tunnel is left does not touch its account. -/
theorem Ending.account (h : Ending u t) :
    t.writes = u.writes ∧ t.pendingBytes = u.pendingBytes ∧ t.returned = u.returned ∧
      t.arrived = u.arrived ∧ t.transferred = u.transferred := by
  induction h with
  | stays => exact ⟨rfl, rfl, rfl, rfl, rfl⟩
  | closes opening closing => exact ⟨rfl, rfl, rfl, rfl, rfl⟩
  | leaves ht target ih => exact ih

theorem Ending.forwarded_eq (h : Ending u t) : t.forwarded = u.forwarded := by
  obtain ⟨hwrites, -, hreturned, -⟩ := h.account
  rw [forwarded, hwrites, hreturned]
  rfl

theorem Ending.accounted (h : Ending u t) (hu : u.Accounted) : t.Accounted := by
  obtain ⟨hwrites, hpending, hreturned, harrived, htransferred⟩ := h.account
  refine ⟨⟨?_, ?_, ?_, ?_, ?_⟩, ?_⟩
  · rw [hpending, hwrites]
    exact hu.pending_eq
  · rw [hpending]
    exact hu.pending_le
  · rw [h.forwarded_eq]
    exact hu.forwarded_le
  · rw [hwrites]
    exact hu.in_order
  · rw [hwrites, harrived]
    exact hu.passed
  · rw [h.forwarded_eq, htransferred]
    exact hu.counted

theorem getElem?_of_isPrefix {a b : List Message} (h : a <+: b) {i : ℕ} {m : Message}
    (hm : a[i]? = some m) : b[i]? = some m := by
  obtain ⟨rest, rfl⟩ := h
  rw [List.getElem?_append_left (List.getElem?_eq_some_iff.1 hm).1]
  exact hm

/-- A message that is passed on comes after those before it. -/
theorem Accounted.passes (h : s.Accounted) (m : Message) (target : ℕ)
    (hlimit : s.transferred + m.data.length ≤ tunnelMaxBytes)
    (hroom : s.pendingBytes + m.data.length ≤ tunnelMaxPendingBytes) :
    Accounted
      { s.touch with
        arrived := s.arrived ++ [m]
        transferred := s.transferred + m.data.length
        pendingBytes := s.pendingBytes + m.data.length
        writes := start s.writes ⟨s.arrived.length, target, m.data⟩ } := by
  have hforwarded : forwarded
      { s.touch with
        arrived := s.arrived ++ [m]
        transferred := s.transferred + m.data.length
        pendingBytes := s.pendingBytes + m.data.length
        writes := start s.writes ⟨s.arrived.length, target, m.data⟩ } =
      s.forwarded + m.data.length := by
    simp [forwarded, touch, Write.size]
    omega
  have hcounted := Nat.add_le_add_right h.counted m.data.length
  refine ⟨⟨?_, hroom, ?_, ?_, ?_⟩, ?_⟩
  · rw [load_start, h.pending_eq]
    rfl
  · rw [hforwarded]
    exact hcounted.trans hlimit
  · rw [map_task_start, List.map_append, List.pairwise_append]
    refine ⟨h.in_order, List.pairwise_singleton _ _, ?_⟩
    intro i hi j hj
    obtain ⟨w, hw, rfl⟩ := List.mem_map.1 hi
    obtain ⟨m', hm', -⟩ := h.passed w hw
    rw [List.map_singleton, List.mem_singleton] at hj
    rw [hj]
    exact (List.getElem?_eq_some_iff.1 hm').1
  · rw [map_task_start]
    intro w hw
    rcases List.mem_append.1 hw with hw | hw
    · obtain ⟨m', hm', hdata⟩ := h.passed w hw
      exact ⟨m', getElem?_of_isPrefix (List.prefix_append _ _) hm', hdata⟩
    · rw [List.mem_singleton.1 hw]
      exact ⟨m, List.getElem?_concat_length, rfl⟩
  · rw [hforwarded]
    exact hcounted

theorem Update.accounted (h : Update s event u) (hs : s.Accounted) : u.Accounted := by
  cases h with
  | quiet idleTimer arrived transferred harrived htransferred =>
      refine ⟨⟨hs.pending_eq, hs.pending_le, hs.forwarded_le, hs.in_order, ?_⟩,
        hs.counted.trans htransferred⟩
      intro w hw
      obtain ⟨m, hm, hdata⟩ := hs.passed w hw
      exact ⟨m, getElem?_of_isPrefix harrived hm, hdata⟩
  | looksUp m lookup hwriter hidle =>
      refine ⟨⟨hs.pending_eq, hs.pending_le, hs.forwarded_le, hs.in_order, ?_⟩, hs.counted⟩
      intro w hw
      obtain ⟨m', hm', hdata⟩ := hs.passed w hw
      exact ⟨m', getElem?_of_isPrefix (List.prefix_append _ _) hm', hdata⟩
  | passes m target hlimit hroom => exact hs.passes m target hlimit hroom
  | abandons hwaiting =>
      exact ⟨⟨hs.pending_eq, hs.pending_le, hs.forwarded_le, hs.in_order, hs.passed⟩, hs.counted⟩
  | connects hwaiting address hopens =>
      exact ⟨⟨hs.pending_eq, hs.pending_le, hs.forwarded_le, hs.in_order, hs.passed⟩, hs.counted⟩
  | settles hwaiting =>
      rename_i handler w
      have hload := load_settle Write.size hwaiting
      have hpending : s.pendingBytes - w.size = load Write.size (settle s.writes handler) := by
        rw [hs.pending_eq]
        omega
      refine ⟨⟨hpending, (Nat.sub_le _ _).trans hs.pending_le, ?_, ?_, ?_⟩, ?_⟩
      · rw [forwarded, map_task_settle]
        exact hs.forwarded_le
      · rw [map_task_settle]
        exact hs.in_order
      · rw [map_task_settle]
        exact hs.passed
      · rw [forwarded, map_task_settle]
        exact hs.counted
  | returns value hlimit =>
      have hforwarded : forwarded
          { s.touch with
            transferred := s.transferred + value.length
            returned := s.returned ++ [value] } = s.forwarded + value.length := by
        simp [forwarded, touch]
        omega
      have hcounted := Nat.add_le_add_right hs.counted value.length
      refine ⟨⟨hs.pending_eq, hs.pending_le, ?_, hs.in_order, hs.passed⟩, ?_⟩
      · rw [hforwarded]
        exact hcounted.trans hlimit
      · rw [hforwarded]
        exact hcounted

theorem run_accounted (events : List TunnelEvent) : (run events).Accounted := by
  refine run_invariant step {} (fun _ s => s.Accounted) ?_ ?_ events
  · exact ⟨⟨rfl, Nat.zero_le _, Nat.zero_le _, List.Pairwise.nil, nofun⟩, le_rfl⟩
  · intro _ s event hs
    obtain ⟨u, hupdate, hending⟩ := s.step_cases event
    exact hending.accounted (hupdate.accounted hs)

/-- Past the limit an event forwards nothing, and the count does not go back. -/
theorem Update.past_limit (h : Update s event u) (hpast : tunnelMaxBytes < s.transferred) :
    tunnelMaxBytes < u.transferred ∧ u.forwarded = s.forwarded := by
  cases h with
  | quiet idleTimer arrived transferred harrived htransferred =>
      exact ⟨hpast.trans_le htransferred, rfl⟩
  | looksUp m lookup hwriter hidle => exact ⟨hpast, rfl⟩
  | passes m target hlimit hroom => omega
  | abandons hwaiting => exact ⟨hpast, rfl⟩
  | connects hwaiting address hopens => exact ⟨hpast, rfl⟩
  | settles hwaiting =>
      refine ⟨hpast, ?_⟩
      rw [forwarded, map_task_settle]
      rfl
  | returns value hlimit => omega

theorem run_past_limit (h : tunnelMaxBytes < s.transferred) (events : List TunnelEvent) :
    (History.run step s events).forwarded = s.forwarded := by
  have hrun : tunnelMaxBytes < (History.run step s events).transferred ∧
      (History.run step s events).forwarded = s.forwarded := by
    refine run_invariant step s
      (fun _ t => tunnelMaxBytes < t.transferred ∧ t.forwarded = s.forwarded) ⟨h, rfl⟩ ?_ events
    rintro _ t event ⟨hpast, hforwarded⟩
    obtain ⟨u, hupdate, hending⟩ := t.step_cases event
    obtain ⟨hpast', hforwarded'⟩ := hupdate.past_limit hpast
    obtain ⟨-, -, -, -, htransferred⟩ := hending.account
    refine ⟨htransferred ▸ hpast', ?_⟩
    rw [hending.forwarded_eq, hforwarded', hforwarded]
  exact hrun.2

/-- The counters of a tunnel are what they stand for, its limits hold and messages reach
the target in order, in every state of every run; past the byte limit nothing is
forwarded any more. -/
theorem limits_hold (events : List TunnelEvent) :
    (run events).WithinLimits ∧
      ∀ before after, events = before ++ after → tunnelMaxBytes < (run before).transferred →
        (run events).forwarded = (run before).forwarded := by
  refine ⟨(run_accounted events).toWithinLimits, ?_⟩
  rintro before after rfl hpast
  rw [run, run_append]
  exact run_past_limit hpast after

end Tunnel

end Worker

end SplitHello
