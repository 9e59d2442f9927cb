import SplitHello.Worker.Command
import SplitHello.Worker.Teardown

/-!
# A tunnel that is asked once

The relay sends the Worker one command and sends on only after the Worker has answered that its
target is open. A tunnel that is used so opens one target at most, passes it all later messages
in their order until it passes nothing more, and what it sends itself starts with its answer.
-/

namespace SplitHello

namespace Worker

open ByteString InFlight

/-! ## Frames -/

/-- What the Worker sends. -/
inductive Frame
  | text (data : Bytes)
  | binary (data : Bytes)
  | close
  deriving DecidableEq, Repr

/-- `JSON.stringify({ status: 'connected' })` -/
def connectedText : Bytes := ofString "\x7b\"status\":\"connected\"\x7d"

def errorText (message : Bytes) : Bytes :=
  ofString "\x7b\"status\":\"error\",\"msg\":\"" ++ message ++ ofString "\"\x7d"

/-- The relay looks for this in the first answer. -/
def connectedMark : Bytes := ofString "\"connected\""

/-- What is said about an event that closes the socket. -/
def lastWords (s t : Tunnel) (event : TunnelEvent) : Option Bytes :=
  match t.closings.drop s.closings.length with
  | .failed message _ :: _ => some message
  | _ =>
      match event with
      | .read _ .failed | .read _ (.value ..) => some (ofString "target read failed")
      | _ => none

/-- The frames that the Worker sends between the states before and behind an event. Nothing can
be sent on a socket that is closed, and `speaks` is whether the socket takes the error text. -/
def frames (s t : Tunnel) (event : TunnelEvent) (speaks : Bool) : List Frame :=
  if !s.ready then []
  else if t.ready then
    (if s.targets.length < t.targets.length then [.text connectedText] else []) ++
      (t.returned.drop s.returned.length).map .binary
  else
    (if speaks then (lastWords s t event).toList.map fun message => .text (errorText message)
      else []) ++
      if event = .close ∨ event = .error then [] else [.close]

/-- The frames with the target's bytes. -/
def binaries (frames : List Frame) : List Bytes :=
  frames.filterMap fun
    | .binary data => some data
    | _ => none

/-! ## What the Worker keeps -/

namespace Tunnel

/-- The data of all messages but the first. -/
def laterData (s : Tunnel) : List Bytes := (s.arrived.drop 1).map Message.data

/-- The data for the target, in the order of the writes. -/
def writtenData (s : Tunnel) : List Bytes := (s.writes.map Job.task).map Write.data

/-- An end of the tunnel that says one of its own texts, if it says any. -/
def Known (closing : Closing) : Prop :=
  ∀ message code, closing = .failed message code → ∃ failure : Failure, message = failure.message

/-- What holds of a tunnel whose first message is the only one with a command, and which gets no
other message before its target is open. -/
structure Fed (host : Bytes) (port : ℕ) (s : Tunnel) : Prop where
  one : (left s.lookups).length + s.targets.length ≤ 1
  asks : ∀ lookup ∈ s.lookups.map Job.task, lookup = ⟨host, port⟩
  reaches : ∀ target ∈ s.targets, target.port = port
  silent : s.arrived = [] → left s.lookups = [] ∧ s.targets = []
  waits : s.targets = [] → s.arrived.length ≤ 1 ∧ s.targetWriter = none ∧ s.writes = [] ∧
    s.returned = []
  written : s.writtenData <+: s.laterData
  complete : s.targetWriter ≠ none → s.writtenData = s.laterData
  known : ∀ closing ∈ s.closings, Known closing

/-- What a tunnel keeps when it is closed or a loop is left. -/
structure Keeps (s t : Tunnel) : Prop where
  lookups : t.lookups = s.lookups
  writes : t.writes = s.writes
  arrived : t.arrived = s.arrived
  returned : t.returned = s.returned
  ports : t.targets.map TargetSocket.port = s.targets.map TargetSocket.port
  writer : t.targetWriter = none ∨ t.targetWriter = s.targetWriter
  closings : ∀ closing ∈ t.closings, closing ∈ s.closings ∨ Known closing

/-- A tunnel with other values of what does not matter here. -/
theorem keeps_of_eq {s t : Tunnel} (hlookups : t.lookups = s.lookups)
    (hwrites : t.writes = s.writes) (harrived : t.arrived = s.arrived)
    (hreturned : t.returned = s.returned)
    (htargets : t.targets = s.targets) (hwriter : t.targetWriter = s.targetWriter)
    (hclosings : t.closings = s.closings) : s.Keeps t :=
  ⟨hlookups, hwrites, harrived, hreturned, congrArg _ htargets, Or.inr hwriter,
    fun _ hclosing => Or.inl (hclosings ▸ hclosing)⟩

theorem map_port_modify (targets : List TargetSocket) (i : ℕ) (f : TargetSocket → TargetSocket)
    (hf : ∀ t, (f t).port = t.port) :
    (targets.modify i f).map TargetSocket.port = targets.map TargetSocket.port := by
  induction targets generalizing i with
  | nil => rw [List.modify_nil]
  | cons t targets ih =>
      cases i with
      | zero => rw [List.modify_zero_cons, List.map_cons, List.map_cons, hf]
      | succ i => rw [List.modify_succ_cons, List.map_cons, List.map_cons, ih]

/-- However a tunnel is closed. -/
theorem keeps_closeTarget (s : Tunnel) (opening ready : Bool) {closing : Closing}
    (hknown : Known closing) :
    s.Keeps (closeTarget { s with opening, ready, closings := s.closings ++ [closing] }) := by
  refine ⟨rfl, rfl, rfl, rfl, ?_, Or.inl rfl, fun c hc => ?_⟩
  · rw [closeTarget]
    dsimp only
    split
    · rfl
    · exact map_port_modify _ _ _ fun _ => rfl
  · rcases List.mem_append.1 hc with hold | hnew
    · exact Or.inl hold
    · exact Or.inr (List.mem_singleton.1 hnew ▸ hknown)

theorem known_failed (failure : Failure) : Known (.failed failure.message failure.code) :=
  fun _ _ heq => ⟨failure, (Closing.failed.inj heq).1.symm⟩

theorem keeps_failAndClose (s : Tunnel) (failure : Failure) : s.Keeps (s.failAndClose failure) :=
  keeps_closeTarget s s.opening false (known_failed failure)

theorem keeps_relayError (s : Tunnel) : s.Keeps s.relayError :=
  keeps_closeTarget s false false (known_failed .relayError)

theorem keeps_endReading (s : Tunnel) (target : ℕ) : s.Keeps (s.endReading target) :=
  ⟨rfl, rfl, rfl, rfl, map_port_modify _ _ _ fun _ => rfl, Or.inr rfl, fun _ => Or.inl⟩

theorem Keeps.length_targets {s t : Tunnel} (h : s.Keeps t) :
    t.targets.length = s.targets.length := by
  have hports := congrArg List.length h.ports
  rwa [List.length_map, List.length_map] at hports

theorem Keeps.targets_eq_nil {s t : Tunnel} (h : s.Keeps t) :
    t.targets = [] ↔ s.targets = [] := by
  rw [← List.length_eq_zero_iff, h.length_targets, List.length_eq_zero_iff]

theorem Fed.keeps {host : Bytes} {port : ℕ} {s t : Tunnel} (hs : s.Fed host port)
    (h : s.Keeps t) : t.Fed host port := by
  have hlater : t.laterData = s.laterData := by rw [laterData, h.arrived, laterData]
  have hwritten : t.writtenData = s.writtenData := by rw [writtenData, h.writes, writtenData]
  refine ⟨?_, ?_, ?_, ?_, ?_, ?_, fun hsome => ?_, fun closing hclosing => ?_⟩
  · rw [h.lookups, h.length_targets]
    exact hs.one
  · rw [h.lookups]
    exact hs.asks
  · intro target htarget
    have hmem := List.mem_map_of_mem (f := TargetSocket.port) htarget
    rw [h.ports] at hmem
    obtain ⟨target', htarget', hport⟩ := List.mem_map.1 hmem
    rw [← hport]
    exact hs.reaches target' htarget'
  · rw [h.arrived, h.lookups, h.targets_eq_nil]
    exact hs.silent
  · intro hnone
    obtain ⟨hlength, hwriter, hwrites, hreturned⟩ := hs.waits (h.targets_eq_nil.1 hnone)
    rw [h.arrived, h.writes, h.returned]
    refine ⟨hlength, ?_, hwrites, hreturned⟩
    rcases h.writer with hnone | hsame
    · exact hnone
    · rw [hsame]
      exact hwriter
  · rw [hwritten, hlater]
    exact hs.written
  · rw [hwritten, hlater]
    rcases h.writer with hnone | hsame
    · exact absurd hnone hsome
    · exact hs.complete (hsame ▸ hsome)
  · rcases h.closings closing hclosing with hold | hknown
    · exact hs.known closing hold
    · exact hknown

/-- The tunnel with another message, nothing done about it yet. -/
def arriving (s : Tunnel) (m : Message) : Tunnel :=
  { s.touch with arrived := s.arrived ++ [m] }

section

variable {host : Bytes} {port : ℕ} {s : Tunnel} {m : Message}

theorem fed_new (host : Bytes) (port : ℕ) : Fed host port {} := by
  refine ⟨by decide, ?_, ?_, fun _ => ⟨rfl, rfl⟩, fun _ => ⟨by decide, rfl, rfl, rfl⟩,
    List.prefix_rfl, fun _ => rfl, ?_⟩
  · intro lookup hlookup
    cases hlookup
  · intro target htarget
    cases htarget
  · intro closing hclosing
    cases hclosing

theorem laterData_arriving (s : Tunnel) (m : Message) (hne : s.arrived ≠ []) :
    (s.arriving m).laterData = s.laterData ++ [m.data] := by
  obtain ⟨first, rest, hcons⟩ := List.exists_cons_of_ne_nil hne
  rw [laterData, arriving, laterData]
  dsimp only
  rw [hcons]
  simp

/-- A message that is not passed on, while nothing is or nothing can be. -/
theorem Fed.arriving (h : s.Fed host port) (hlater : s.arrived ≠ [] → s.targets ≠ []) :
    ({ s.arriving m with targetWriter := none } : Tunnel).Fed host port := by
  refine ⟨h.one, h.asks, h.reaches, fun hempty => ?_, fun hnone => ?_, ?_,
    fun hsome => absurd rfl hsome, h.known⟩
  · exact absurd hempty (List.append_ne_nil_of_right_ne_nil _ (List.cons_ne_nil m []))
  · have hfirst : s.arrived = [] := by
      by_contra hne
      exact hlater hne hnone
    obtain ⟨-, -, hwrites, hreturned⟩ := h.waits hnone
    refine ⟨?_, rfl, hwrites, hreturned⟩
    rw [Tunnel.arriving, hfirst]
    exact Nat.le_refl 1
  · by_cases hfirst : s.arrived = []
    · have hwrites : ({ s.arriving m with targetWriter := none } : Tunnel).writes = [] :=
        (h.waits (h.silent hfirst).2).2.2.1
      rw [writtenData, hwrites]
      exact List.nil_prefix
    · have hdata : ({ s.arriving m with targetWriter := none } : Tunnel).laterData =
          s.laterData ++ [m.data] := laterData_arriving s m hfirst
      rw [hdata]
      exact h.written.trans (List.prefix_append _ _)

theorem Fed.arriving_idle (h : s.Fed host port) (hlater : s.arrived ≠ [] → s.targets ≠ [])
    (hwriter : s.targetWriter = none) : (s.arriving m).Fed host port := by
  have hfed := h.arriving (m := m) hlater
  have hsame : ({ s.arriving m with targetWriter := none } : Tunnel) = s.arriving m := by
    rw [← hwriter]
    rfl
  rwa [hsame] at hfed

theorem Fed.openTarget (h : s.Fed host port) (hwriter : s.targetWriter = none)
    (hfirst : s.arrived = [] → m.command = some (connectCommand host port))
    (hlater : s.arrived ≠ [] → m.command = none ∧ s.targets ≠ []) :
    ((s.arriving m).openTarget m).Fed host port := by
  have hfed : (s.arriving m).Fed host port := h.arriving_idle (fun hne => (hlater hne).2) hwriter
  have hclosed (failure : Failure) :
      (({ s.arriving m with opening := false } : Tunnel).failAndClose failure).Fed host port :=
    hfed.keeps (keeps_closeTarget _ false false (known_failed failure))
  rw [Tunnel.openTarget]
  split
  · exact hfed
  · by_cases hempty : s.arrived = []
    · rw [hfirst hempty, connectCommand]
      obtain ⟨hnone, htargets⟩ := h.silent hempty
      dsimp only
      split
      · exact hclosed .invalidHost
      · split
        · exact hclosed .portNotAllowed
        · -- the one lookup of the tunnel
          have hleft : left (start s.lookups ⟨host, port⟩) = [⟨host, port⟩] := by
            rw [left_start, hnone, List.nil_append]
          refine ⟨?_, ?_, hfed.reaches, fun hnil => ?_, hfed.waits, hfed.written, hfed.complete,
            hfed.known⟩
          · have htarget : s.targets.length = 0 := List.length_eq_zero_iff.2 htargets
            exact Nat.le_of_eq (congrArg₂ (· + ·) (congrArg List.length hleft) htarget)
          · intro lookup hlookup
            have hmem : lookup ∈ s.lookups.map Job.task ++ [⟨host, port⟩] := by
              rw [← map_task_start]
              exact hlookup
            rcases List.mem_append.1 hmem with hold | hnew
            · exact h.asks lookup hold
            · exact List.mem_singleton.1 hnew
          · exact absurd hnil
              (List.append_ne_nil_of_right_ne_nil _ (List.cons_ne_nil _ []))
    · rw [(hlater hempty).1]
      exact hfed.keeps (keeps_closeTarget _ false false (known_failed .relayError))

theorem Fed.writeTarget (h : s.Fed host port) {target : ℕ}
    (hwriter : s.targetWriter = some target) :
    ((s.arriving m).writeTarget m s.arrived.length target).Fed host port := by
  have htargets : s.targets ≠ [] := by
    intro hnil
    rw [(h.waits hnil).2.1] at hwriter
    cases hwriter
  have hne : s.arrived ≠ [] := fun hnil => htargets (h.silent hnil).2
  have hfed := h.arriving (m := m) fun _ => htargets
  have hclosed (transferred : ℕ) (failure : Failure) :
      (({ s.arriving m with transferred } : Tunnel).failAndClose failure).Fed host port := by
    have hkeeps := keeps_failAndClose { s.arriving m with transferred } failure
    exact hfed.keeps ⟨hkeeps.lookups, hkeeps.writes, hkeeps.arrived, hkeeps.returned,
      hkeeps.ports, Or.inl rfl, hkeeps.closings⟩
  rw [Tunnel.writeTarget]
  rcases countBytes_cases (s.arriving m) m.data.length with ⟨-, hcount⟩ | ⟨-, hcount⟩
  · rw [hcount]
    exact hclosed _ _
  · rw [hcount]
    dsimp only
    rw [if_neg (by decide)]
    split
    · exact hclosed _ _
    · have hdata : s.writtenData = s.laterData := h.complete (by rw [hwriter]; simp)
      have hequal : ((start s.writes ⟨s.arrived.length, target, m.data⟩).map Job.task).map
          Write.data = (s.arriving m).laterData := by
        rw [map_task_start, List.map_append, laterData_arriving s m hne, ← hdata]
        rfl
      refine ⟨h.one, h.asks, h.reaches, fun hnil => ?_, fun hnil => ?_, ?_, fun _ => ?_, h.known⟩
      · exact absurd hnil (List.append_ne_nil_of_right_ne_nil _ (List.cons_ne_nil m []))
      · exact absurd hnil htargets
      · rw [writtenData]
        exact hequal ▸ List.prefix_rfl
      · exact hequal

theorem Fed.message (h : s.Fed host port)
    (hfirst : s.arrived = [] → m.command = some (connectCommand host port))
    (hlater : s.arrived ≠ [] → m.command = none ∧ s.targets ≠ []) :
    (s.step (.message m)).Fed host port := by
  rw [Tunnel.step, onMessage]
  dsimp only
  cases hwriter : s.targetWriter with
  | none => exact h.openTarget hwriter hfirst hlater
  | some target => exact h.writeTarget hwriter

theorem Fed.resolved (h : s.Fed host port) (handler : ℕ) (result : Option Resolved)
    (connects sends : Bool) : (s.step (.resolved handler result connects sends)).Fed host port := by
  rw [Tunnel.step, onResolved]
  cases hlookup : waiting s.lookups handler with
  | none => exact h
  | some lookup =>
      have hperm := left_settle hlookup
      have hone := h.one
      rw [hperm.length_eq, List.length_cons] at hone
      have hnone : left (settle s.lookups handler) = [] := List.length_eq_zero_iff.1 (by omega)
      have htargets : s.targets = [] := List.length_eq_zero_iff.1 (by omega)
      have hasked : lookup = ⟨host, port⟩ := h.asks lookup (mem_of_waiting hlookup)
      have hasks : ∀ lookup ∈ (settle s.lookups handler).map Job.task, lookup = ⟨host, port⟩ := by
        rw [map_task_settle]
        exact h.asks
      obtain ⟨hlength, hwriter, hwrites, hreturned⟩ := h.waits htargets
      have hfed (opening : Bool) :
          ({ s with lookups := settle s.lookups handler, opening } : Tunnel).Fed host port := by
        refine ⟨?_, hasks, h.reaches, fun _ => ⟨hnone, htargets⟩, h.waits, h.written, h.complete,
          h.known⟩
        dsimp only
        rw [hnone, htargets]
        exact Nat.zero_le 1
      cases result with
      | none => exact (hfed s.opening).keeps (keeps_relayError _)
      | some resolved =>
          dsimp only
          cases firstAddress resolved with
          | none => exact (hfed false).keeps (keeps_failAndClose _ _)
          | some address =>
              cases connects with
              | false => exact (hfed s.opening).keeps (keeps_relayError _)
              | true =>
                  have hconnected :
                      (s.connected handler address lookup.port).Fed host port := by
                    have hlater : s.laterData = [] := by
                      rw [laterData, List.drop_eq_nil_of_le hlength, List.map_nil]
                    have hdata : s.writtenData = [] := by
                      rw [writtenData, hwrites]
                      rfl
                    refine ⟨?_, hasks, ?_, fun hnil => ?_, fun hnil => ?_, h.written, fun _ => ?_,
                      h.known⟩
                    · rw [connected]
                      dsimp only
                      rw [hnone, htargets]
                      exact Nat.le_refl 1
                    · rw [connected]
                      dsimp only
                      rw [htargets]
                      intro target htarget
                      rw [List.mem_singleton.1 htarget, hasked]
                    · have hempty := (h.silent hnil).1
                      rw [hempty] at hperm
                      exact absurd hperm.length_eq (by simp)
                    · exact absurd hnil
                        (List.append_ne_nil_of_right_ne_nil _ (List.cons_ne_nil _ []))
                    · exact hdata.trans hlater.symm
                  cases sends with
                  | true => exact hconnected
                  | false => exact hconnected.keeps (keeps_relayError _)

theorem Fed.written_event (h : s.Fed host port) (handler : ℕ) (succeeds : Bool) :
    (s.step (.written handler succeeds)).Fed host port := by
  rw [Tunnel.step, onWritten]
  cases hwrite : waiting s.writes handler with
  | none => exact h
  | some write =>
      have hdata : ({ s with
          pendingBytes := s.pendingBytes - write.size
          writes := settle s.writes handler } : Tunnel).writtenData = s.writtenData := by
        rw [writtenData, map_task_settle, writtenData]
      have hfed : ({ s with
          pendingBytes := s.pendingBytes - write.size
          writes := settle s.writes handler } : Tunnel).Fed host port := by
        refine ⟨h.one, h.asks, h.reaches, h.silent, fun hnone => ?_, ?_, fun hsome => ?_, h.known⟩
        · obtain ⟨hlength, hwriter, hwrites, hreturned⟩ := h.waits hnone
          rw [hwrites] at hwrite
          cases hwrite
        · rw [hdata]
          exact h.written
        · rw [hdata]
          exact h.complete hsome
      cases succeeds with
      | true => exact hfed
      | false => exact hfed.keeps (keeps_relayError _)

theorem Fed.read (h : s.Fed host port) (target : ℕ) (result : ReadResult) :
    (s.step (.read target result)).Fed host port := by
  have hcounted (transferred : ℕ) : ({ s.touch with transferred } : Tunnel).Fed host port :=
    h.keeps (keeps_of_eq rfl rfl rfl rfl rfl rfl rfl)
  rw [Tunnel.step]
  unfold onRead
  cases hsocket : s.targets[target]? with
  | none => exact h
  | some socket =>
      have htargets : s.targets ≠ [] := by
        intro hnil
        rw [hnil] at hsocket
        cases hsocket
      dsimp only
      split
      · exact h
      · cases result with
        | done => exact h.keeps (keeps_endReading s target)
        | failed => exact h.keeps (keeps_endReading s target)
        | value value sends =>
            dsimp only
            split
            · exact h.keeps (keeps_endReading s target)
            · rcases countBytes_cases s.touch value.length with ⟨-, hcount⟩ | ⟨-, hcount⟩
              · rw [hcount]
                exact ((hcounted _).keeps (keeps_failAndClose _ _)).keeps
                  (keeps_endReading _ target)
              · rw [hcount]
                dsimp only
                cases sends with
                | true =>
                    have hfed := hcounted (s.touch.transferred + value.length)
                    exact ⟨hfed.one, hfed.asks, hfed.reaches, hfed.silent,
                      fun hnil => absurd hnil htargets, hfed.written, hfed.complete, hfed.known⟩
                | false => exact (hcounted _).keeps (keeps_endReading _ target)

theorem known_closeEvent : Known .closeEvent := by
  intro message code heq
  cases heq

theorem known_errorEvent : Known .errorEvent := by
  intro message code heq
  cases heq

theorem Fed.step (h : s.Fed host port) {event : TunnelEvent}
    (hmessage : ∀ m, event ≠ .message m) : (s.step event).Fed host port := by
  cases event with
  | message m => exact absurd rfl (hmessage m)
  | resolved handler result connects sends => exact h.resolved handler result connects sends
  | written handler succeeds => exact h.written_event handler succeeds
  | read target result => exact h.read target result
  | close => exact h.keeps (keeps_closeTarget s s.opening false known_closeEvent)
  | error => exact h.keeps (keeps_closeTarget s s.opening false known_errorEvent)
  | idle =>
      rw [Tunnel.step]
      split
      · exact h.keeps (keeps_failAndClose s _)
      · exact h

end

/-! ## What the Worker sends -/

theorem Ending.ready {u t : Tunnel} (h : Ending u t) (ht : t.ready = true) : u.ready = true := by
  cases h with
  | stays => exact ht
  | closes opening closing => cases ht
  | leaves hending target => cases ht

theorem ready_of_step {s : Tunnel} {event : TunnelEvent} (h : (s.step event).ready = true) :
    s.ready = true := by
  obtain ⟨u, hupdate, hending⟩ := s.step_cases event
  have hu := hending.ready h
  cases hupdate <;> exact hu

theorem length_targets_step (s : Tunnel) (event : TunnelEvent) :
    s.targets.length ≤ (s.step event).targets.length :=
  length_run_le s [event]

/-- What the records of a tunnel say after the rest of a handler. -/
def SameRecords (s t : Tunnel) : Prop := t.returned = s.returned ∧ t.arrived = s.arrived

theorem sameRecords_openTarget (s : Tunnel) (m : Message) : s.SameRecords (s.openTarget m) := by
  unfold openTarget
  split
  · exact ⟨rfl, rfl⟩
  · split
    · exact ⟨rfl, rfl⟩
    · split
      · exact ⟨rfl, rfl⟩
      · split
        · exact ⟨rfl, rfl⟩
        · split
          · exact ⟨rfl, rfl⟩
          · split <;> exact ⟨rfl, rfl⟩

theorem sameRecords_writeTarget (s : Tunnel) (m : Message) (message target : ℕ) :
    s.SameRecords (s.writeTarget m message target) := by
  rw [writeTarget]
  rcases countBytes_cases s m.data.length with ⟨-, hcount⟩ | ⟨-, hcount⟩
  · rw [hcount]
    exact ⟨rfl, rfl⟩
  · rw [hcount]
    dsimp only
    rw [if_neg (by decide)]
    split <;> exact ⟨rfl, rfl⟩

theorem sameRecords_onResolved (s : Tunnel) (handler : ℕ) (result : Option Resolved)
    (connects sends : Bool) : s.SameRecords (s.onResolved handler result connects sends) := by
  unfold onResolved
  split
  · exact ⟨rfl, rfl⟩
  · split
    · exact ⟨rfl, rfl⟩
    · dsimp only
      split
      · exact ⟨rfl, rfl⟩
      · split
        · exact ⟨rfl, rfl⟩
        · split <;> exact ⟨rfl, rfl⟩

theorem sameRecords_onWritten (s : Tunnel) (handler : ℕ) (succeeds : Bool) :
    s.SameRecords (s.onWritten handler succeeds) := by
  unfold onWritten
  split
  · exact ⟨rfl, rfl⟩
  · dsimp only
    split <;> exact ⟨rfl, rfl⟩

/-- Bytes of the target go to the client only on an open socket, which stays open. -/
theorem onRead_records (s : Tunnel) (target : ℕ) (result : ReadResult) :
    (s.onRead target result).arrived = s.arrived ∧
      ((s.onRead target result).returned = s.returned ∨
        s.ready = true ∧ (s.onRead target result).ready = true ∧
          ∃ value, (s.onRead target result).returned = s.returned ++ [value]) := by
  unfold onRead
  split
  · exact ⟨rfl, Or.inl rfl⟩
  · split
    · exact ⟨rfl, Or.inl rfl⟩
    · split
      · exact ⟨rfl, Or.inl rfl⟩
      · exact ⟨rfl, Or.inl rfl⟩
      · rename_i value sends
        split
        · exact ⟨rfl, Or.inl rfl⟩
        · rename_i hready
          rw [Bool.not_eq_true, Bool.not_eq_false'] at hready
          rcases countBytes_cases s.touch value.length with ⟨-, hcount⟩ | ⟨-, hcount⟩
          · rw [hcount]
            exact ⟨rfl, Or.inl rfl⟩
          · rw [hcount]
            cases sends with
            | true => exact ⟨rfl, Or.inr ⟨hready, hready, value, rfl⟩⟩
            | false => exact ⟨rfl, Or.inl rfl⟩

theorem step_message_records (s : Tunnel) (m : Message) :
    (s.step (.message m)).returned = s.returned ∧
      (s.step (.message m)).arrived = s.arrived ++ [m] := by
  rw [step, onMessage]
  dsimp only
  split
  · exact sameRecords_openTarget (s.arriving m) m
  · exact sameRecords_writeTarget (s.arriving m) m _ _

theorem step_records (s : Tunnel) {event : TunnelEvent} (hmessage : ∀ m, event ≠ .message m) :
    (s.step event).arrived = s.arrived ∧
      ((s.step event).returned = s.returned ∨
        s.ready = true ∧ (s.step event).ready = true ∧
          ∃ value, (s.step event).returned = s.returned ++ [value]) := by
  cases event with
  | message m => exact absurd rfl (hmessage m)
  | resolved handler result connects sends =>
      have hsame := sameRecords_onResolved s handler result connects sends
      exact ⟨hsame.2, Or.inl hsame.1⟩
  | written handler succeeds =>
      have hsame := sameRecords_onWritten s handler succeeds
      exact ⟨hsame.2, Or.inl hsame.1⟩
  | read target result => exact onRead_records s target result
  | close => exact ⟨rfl, Or.inl rfl⟩
  | error => exact ⟨rfl, Or.inl rfl⟩
  | idle =>
      rw [step]
      split <;> exact ⟨rfl, Or.inl rfl⟩

theorem step_returned (s : Tunnel) (event : TunnelEvent) :
    (s.step event).returned = s.returned ∨
      s.ready = true ∧ (s.step event).ready = true ∧
        ∃ value, (s.step event).returned = s.returned ++ [value] := by
  by_cases hmessage : ∃ m, event = .message m
  · obtain ⟨m, rfl⟩ := hmessage
    exact Or.inl (s.step_message_records m).1
  · exact (s.step_records fun m heq => hmessage ⟨m, heq⟩).2

/-! ## What the Worker reads from its target -/

/-- What an event brings from a target whose loop still reads. -/
def hears (s : Tunnel) : TunnelEvent → List Bytes
  | .read target (.value value _) =>
      match s.targets[target]? with
      | none => []
      | some socket => if socket.reading then [value] else []
  | _ => []

def Reading (s : Tunnel) : Prop := ∃ socket ∈ s.targets, socket.reading = true

/-- All that was read is passed on while a loop reads, and a beginning of it when none does. -/
structure Heard (s : Tunnel) (heard : List Bytes) : Prop where
  returned : s.returned <+: heard
  whole : s.Reading → s.returned = heard
  silent : s.targets = [] → heard = []

theorem reading_of_modify {targets : List TargetSocket} {i : ℕ} {f : TargetSocket → TargetSocket}
    (hf : ∀ t, (f t).reading = true → t.reading = true)
    (h : ∃ socket ∈ targets.modify i f, socket.reading = true) :
    ∃ socket ∈ targets, socket.reading = true := by
  obtain ⟨socket, hmem, hreading⟩ := h
  obtain ⟨j, hj⟩ := List.mem_iff_getElem?.1 hmem
  rw [List.getElem?_modify] at hj
  cases hold : targets[j]? with
  | none =>
      rw [hold] at hj
      cases hj
  | some socket' =>
      rw [hold, Option.map_eq_map, Option.map_some, Option.some.injEq] at hj
      refine ⟨socket', List.mem_of_getElem? hold, ?_⟩
      rw [← hj] at hreading
      split at hreading
      · exact hf socket' hreading
      · exact hreading

theorem Reading.of_closeTarget {s : Tunnel} (h : s.closeTarget.Reading) : s.Reading := by
  rw [Reading, closeTarget] at h
  dsimp only at h
  split at h
  · exact h
  · exact reading_of_modify (f := fun t => { t with isOpen := false }) (fun _ ht => ht) h

theorem Reading.of_endReading {s : Tunnel} {target : ℕ} (h : (s.endReading target).Reading) :
    s.Reading :=
  reading_of_modify (fun _ ht => by cases ht) h

theorem Ending.reading {u t : Tunnel} (h : Ending u t) (ht : t.Reading) : u.Reading := by
  induction h with
  | stays => exact ht
  | closes opening closing => exact ht.of_closeTarget
  | leaves _ target ih => exact ih ht.of_endReading

/-- A loop that reads has read before, unless it is the first of the tunnel. -/
theorem reading_of_step {host : Bytes} {port : ℕ} {s : Tunnel} (hs : s.Fed host port)
    {event : TunnelEvent} (h : (s.step event).Reading) : s.targets = [] ∨ s.Reading := by
  obtain ⟨u, hupdate, hending⟩ := s.step_cases event
  have hu := hending.reading h
  cases hupdate with
  | connects hwaiting address hopens =>
      have hlength := (left_settle hwaiting).length_eq
      have hone := hs.one
      rw [hlength, List.length_cons] at hone
      exact Or.inl (List.length_eq_zero_iff.1 (by omega))
  | _ => exact Or.inr hu

/-- The only loop of a tunnel that is left. -/
theorem not_reading_endReading {s : Tunnel} {target : ℕ} (hone : s.targets.length ≤ 1)
    (htarget : target < s.targets.length) : ¬ (s.endReading target).Reading := by
  rw [Reading, endReading]
  cases htargets : s.targets with
  | nil => simp
  | cons first rest =>
      rw [htargets, List.length_cons] at hone htarget
      have hrest : rest = [] := List.length_eq_zero_iff.1 (by omega)
      have hzero : target = 0 := by omega
      simp [hrest, hzero]

/-- When the loop is left, what it passed on is a beginning of what it read. -/
theorem heard_endReading {s : Tunnel} {target : ℕ} {heard : List Bytes}
    (hone : s.targets.length ≤ 1) (htarget : target < s.targets.length)
    (hreturned : s.returned <+: heard) : (s.endReading target).Heard heard := by
  refine ⟨hreturned, fun h => absurd h (not_reading_endReading hone htarget), fun hnil => ?_⟩
  have hlength := congrArg List.length hnil
  rw [endReading, List.length_modify, List.length_nil] at hlength
  omega

theorem Heard.other {host : Bytes} {port : ℕ} {s : Tunnel} {heard : List Bytes}
    (h : s.Heard heard) (hs : s.Fed host port) {event : TunnelEvent} (hnothing : s.hears event = [])
    (hreturned : (s.step event).returned = s.returned) :
    (s.step event).Heard (heard ++ s.hears event) := by
  rw [hnothing, List.append_nil]
  have hnone (hnil : s.targets = []) : s.returned = heard := by
    rw [h.silent hnil]
    exact (hs.waits hnil).2.2.2
  refine ⟨hreturned ▸ h.returned, fun hreading => ?_, fun hnil => h.silent ?_⟩
  · rw [hreturned]
    exact (reading_of_step hs hreading).elim hnone h.whole
  · have hgrows := s.length_targets_step event
    rw [hnil] at hgrows
    exact List.length_eq_zero_iff.1 (Nat.le_zero.1 hgrows)

theorem Heard.read {host : Bytes} {port : ℕ} {s : Tunnel} {heard : List Bytes}
    (h : s.Heard heard) (hs : s.Fed host port) (target : ℕ) (result : ReadResult) :
    (s.onRead target result).Heard (heard ++ s.hears (.read target result)) := by
  unfold onRead
  cases hsocket : s.targets[target]? with
  | none =>
      have hnothing : s.hears (.read target result) = [] := by
        cases result <;> simp [hears, hsocket]
      rw [hnothing, List.append_nil]
      exact h
  | some socket =>
      dsimp only
      cases hreading : socket.reading with
      | false =>
          have hnothing : s.hears (.read target result) = [] := by
            cases result <;> simp [hears, hsocket, hreading]
          rw [hnothing, List.append_nil]
          exact h
      | true =>
          have hone : s.targets.length ≤ 1 := (Nat.le_add_left _ _).trans hs.one
          have htarget : target < s.targets.length := (List.getElem?_eq_some_iff.1 hsocket).1
          have heq : s.returned = heard :=
            h.whole ⟨socket, List.mem_of_getElem? hsocket, hreading⟩
          have hstarts (values : List Bytes) : s.returned <+: heard ++ values :=
            heq ▸ List.prefix_append _ _
          rw [Bool.not_true, if_neg Bool.false_ne_true]
          cases result with
          | done => exact heard_endReading hone htarget (hstarts _)
          | failed => exact heard_endReading hone htarget (hstarts _)
          | value value sends =>
              have hvalue : s.hears (.read target (.value value sends)) = [value] := by
                simp [hears, hsocket, hreading]
              rw [hvalue]
              dsimp only
              split
              · exact heard_endReading hone htarget (hstarts _)
              · rcases countBytes_cases s.touch value.length with ⟨-, hcount⟩ | ⟨-, hcount⟩
                · have hkeeps := keeps_failAndClose
                    { s.touch with transferred := s.touch.transferred + value.length } .byteLimit
                  rw [hcount]
                  exact heard_endReading (hkeeps.length_targets.trans_le hone)
                    (htarget.trans_eq hkeeps.length_targets.symm)
                    (hkeeps.returned ▸ hstarts _)
                · rw [hcount]
                  cases sends with
                  | true =>
                      refine ⟨?_, fun _ => congrArg (· ++ [value]) heq, fun hnil => ?_⟩
                      · exact congrArg (· ++ [value]) heq ▸ List.prefix_rfl
                      · rw [show s.targets = [] from hnil] at htarget
                        cases htarget
                  | false => exact heard_endReading hone htarget (hstarts _)

/-- What is passed on stays a beginning of what is read. -/
theorem Heard.step {host : Bytes} {port : ℕ} {s : Tunnel} {heard : List Bytes}
    (h : s.Heard heard) (hs : s.Fed host port) (event : TunnelEvent) :
    (s.step event).Heard (heard ++ s.hears event) := by
  cases event with
  | read target result => exact h.read hs target result
  | message m => exact h.other hs rfl (s.step_message_records m).1
  | resolved handler result connects sends =>
      exact h.other hs rfl (sameRecords_onResolved s handler result connects sends).1
  | written handler succeeds =>
      exact h.other hs rfl (sameRecords_onWritten s handler succeeds).1
  | close => exact h.other hs rfl rfl
  | error => exact h.other hs rfl rfl
  | idle =>
      refine h.other hs rfl ?_
      rw [Tunnel.step]
      split <;> rfl

end Tunnel

/-- A frame that says nothing a relay would go on after. -/
def Frame.Refuses : Frame → Prop
  | .text data => data ≠ [] ∧ ¬ connectedMark <:+: data
  | .binary _ => False
  | .close => True

theorem refuses_error (failure : Failure) : (Frame.text (errorText failure.message)).Refuses := by
  cases failure <;> exact ⟨by decide, by decide +kernel⟩

theorem refuses_read : (Frame.text (errorText (ofString "target read failed"))).Refuses :=
  ⟨by decide, by decide +kernel⟩

/-- All the Worker has sent: nothing, its answer and what the target said, or only why there is no
answer. -/
inductive Answered (s : Tunnel) : List Frame → Prop
  | silent (hready : s.ready = true) (htargets : s.targets = []) : Answered s []
  | greeted {later : List Frame} (htargets : s.targets ≠ []) :
      Answered s (.text connectedText :: later)
  | refused {answered : List Frame} (hready : s.ready = false)
      (hrefuses : ∀ frame ∈ answered, frame.Refuses) : Answered s answered

@[simp] theorem binaries_append (a b : List Frame) :
    binaries (a ++ b) = binaries a ++ binaries b :=
  List.filterMap_append

@[simp] theorem binaries_map_binary (datas : List Bytes) :
    binaries (datas.map .binary) = datas := by
  rw [binaries, List.filterMap_map]
  exact List.filterMap_some

theorem binaries_of_refuses {frames : List Frame} (h : ∀ frame ∈ frames, frame.Refuses) :
    binaries frames = [] := by
  rw [binaries, List.filterMap_eq_nil_iff]
  intro frame hframe
  have hrefuses := h frame hframe
  cases frame with
  | text data => rfl
  | binary data => exact hrefuses.elim
  | close => rfl

theorem refuses_lastWords {s t : Tunnel} {event : TunnelEvent} {message : Bytes}
    (hknown : ∀ closing ∈ t.closings, Tunnel.Known closing)
    (h : message ∈ lastWords s t event) : (Frame.text (errorText message)).Refuses := by
  unfold lastWords at h
  split at h
  · rename_i message' code rest hdrop
    have hmem : Closing.failed message' code ∈ t.closings :=
      List.mem_of_mem_drop (hdrop ▸ List.mem_cons_self)
    obtain ⟨failure, hfailure⟩ := hknown _ hmem message' code rfl
    rw [← Option.mem_some_iff.1 h, hfailure]
    exact refuses_error failure
  · split at h
    · rw [← Option.mem_some_iff.1 h]
      exact refuses_read
    · rw [← Option.mem_some_iff.1 h]
      exact refuses_read
    · cases h

/-- The frames of an event that closes the socket. -/
theorem refuses_frames {s t : Tunnel} {event : TunnelEvent} {speaks : Bool}
    (hknown : ∀ closing ∈ t.closings, Tunnel.Known closing) (hready : t.ready = false) :
    ∀ frame ∈ frames s t event speaks, frame.Refuses := by
  intro frame hframe
  rw [frames] at hframe
  split at hframe
  · cases hframe
  · rw [hready, if_neg (by decide)] at hframe
    rcases List.mem_append.1 hframe with hwords | hclose
    · split at hwords
      · obtain ⟨message, hmessage, rfl⟩ := List.mem_map.1 hwords
        exact refuses_lastWords hknown (Option.mem_toList.1 hmessage)
      · cases hwords
    · split at hclose
      · cases hclose
      · rw [List.mem_singleton.1 hclose]
        trivial

theorem frames_of_ready {s t : Tunnel} {event : TunnelEvent} {speaks : Bool}
    (hs : s.ready = true) (ht : t.ready = true) :
    frames s t event speaks =
      (if s.targets.length < t.targets.length then [.text connectedText] else []) ++
        (t.returned.drop s.returned.length).map .binary := by
  rw [frames, hs, ht, Bool.not_true, if_neg (by decide), if_pos rfl]

/-- What the target said is what the binary frames carry. -/
theorem binaries_frames (s : Tunnel) (event : TunnelEvent) (speaks : Bool)
    (hknown : ∀ closing ∈ (s.step event).closings, Tunnel.Known closing) :
    s.returned ++ binaries (frames s (s.step event) event speaks) = (s.step event).returned := by
  cases hready : (s.step event).ready with
  | true =>
      have hgreeting : binaries (if s.targets.length < (s.step event).targets.length then
          [.text connectedText] else []) = [] := by
        split <;> rfl
      rw [frames_of_ready (Tunnel.ready_of_step hready) hready, binaries_append, hgreeting,
        List.nil_append, binaries_map_binary]
      rcases s.step_returned event with hsame | ⟨-, -, value, hvalue⟩
      · rw [hsame, List.drop_length, List.append_nil]
      · rw [hvalue, List.drop_left]
  | false =>
      rw [binaries_of_refuses (refuses_frames hknown hready), List.append_nil]
      rcases s.step_returned event with hsame | ⟨-, hopen, -⟩
      · exact hsame.symm
      · rw [hready] at hopen
        cases hopen

theorem Answered.step {s : Tunnel} {answered : List Frame} {host : Bytes} {port : ℕ}
    {event : TunnelEvent} {speaks : Bool} (h : Answered s answered)
    (hfed : (s.step event).Fed host port) :
    Answered (s.step event) (answered ++ frames s (s.step event) event speaks) := by
  have hgrows := s.length_targets_step event
  cases h with
  | silent hready htargets =>
      rw [List.nil_append]
      cases hstays : (s.step event).ready with
      | false => exact .refused hstays (refuses_frames hfed.known hstays)
      | true =>
          rw [frames_of_ready hready hstays, htargets]
          by_cases hnil : (s.step event).targets = []
          · rw [hnil, (hfed.waits hnil).2.2.2, if_neg (Nat.lt_irrefl _), List.drop_nil]
            exact .silent hstays hnil
          · rw [List.length_nil, if_pos (List.length_pos_iff.2 hnil)]
            exact .greeted hnil
  | greeted htargets =>
      refine .greeted fun hnil => htargets ?_
      rw [hnil] at hgrows
      exact List.length_eq_zero_iff.1 (Nat.le_zero.1 hgrows)
  | refused hready hrefuses =>
      have hclosed : (s.step event).ready = false := by
        rw [← Bool.not_eq_true]
        intro hopen
        rw [Tunnel.ready_of_step hopen] at hready
        cases hready
      rw [frames, hready, Bool.not_false, if_pos rfl, List.append_nil]
      exact .refused hclosed hrefuses

end Worker

end SplitHello
