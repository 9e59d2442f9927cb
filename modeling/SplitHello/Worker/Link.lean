import SplitHello.Worker.OneTarget

/-!
# The tunnel from end to end

The client's relay and the Worker's tunnel with the two directions of the WebSocket between them.
A frame is taken from its direction in the order in which it was put there, at any later time or
never. The two threads of the relay and the handlers of the Worker run in any order. `stop` is no
event of its own: it lets `receive`, `recv` and the two sends end their loops, which each of them
may do anyway.
-/

namespace SplitHello

namespace Worker

open ByteString History InFlight

/-! ## The relay -/

inductive RelayPhase
  | connecting
  | commanding
  | waiting
  | replaying
  | piping
  | ended
  deriving DecidableEq, Repr

/-- The relay. `pumping` is whether its other thread runs, `sending` what that has read and not
yet sent; `read` and `delivered` record what passed the client's socket. -/
structure TunnelClient where
  host : Bytes
  port : ℕ
  initialData : Bytes
  phase : RelayPhase := .connecting
  pumping : Bool := false
  sending : Option Bytes := none
  read : Bytes := []
  delivered : Bytes := []
  deriving DecidableEq, Repr

def maxMessageBytes : ℕ := 1024 * 1024
def readBufferBytes : ℕ := 32 * 1024

namespace TunnelClient

/-- What `run` does with the first answer. -/
def answer (c : TunnelClient) (data : Bytes) : TunnelClient :=
  { c with phase := if connectedMark <:+: data then .replaying else .ended }

/-- What `pumpWsToSock` does with a message; the client's socket takes so many of its bytes if
it fails. -/
def pumpWsToSock (c : TunnelClient) (data : Bytes) (isText : Bool) (fails : Option ℕ) :
    TunnelClient :=
  if isText then c
  else
    match fails with
    | none => { c with delivered := c.delivered ++ data }
    | some n => { c with delivered := c.delivered ++ data.take n, phase := .ended }

/-- A message through `WsClient::receive`, which skips an empty one. -/
def receiveData (c : TunnelClient) (data : Bytes) (isText : Bool) (fails : Option ℕ) :
    TunnelClient :=
  if maxMessageBytes < data.length then { c with phase := .ended }
  else if data = [] then c
  else if c.phase = .waiting then c.answer data
  else c.pumpWsToSock data isText fails

def receive (c : TunnelClient) (frame : Frame) (fails : Option ℕ) : TunnelClient :=
  match frame with
  | .close => { c with phase := .ended }
  | .text data => c.receiveData data true fails
  | .binary data => c.receiveData data false fails

end TunnelClient

/-! ## The link -/

/-- `sent` and `answered` record all messages and frames that were sent, `taken` the frames that
the relay has taken, and `heard` what the Worker has read from its target. -/
structure Link where
  client : TunnelClient
  tunnel : Tunnel := {}
  up : List Message := []
  down : List Frame := []
  sent : List Message := []
  answered : List Frame := []
  taken : List Frame := []
  heard : List Bytes := []

inductive LinkEvent
  /-- `WsClient::connect` returns. -/
  | connect (ok : Bool)
  /-- The command is sent, or cannot be. -/
  | command (ok : Bool)
  /-- The client's first data is sent, or cannot be; the other thread starts, or cannot. -/
  | replay (ok starts : Bool)
  /-- `recv` of the other thread gives something, or nothing more. -/
  | recv (bytes : Bytes)
  | send (ok : Bool)
  /-- A frame is taken. -/
  | receive (fails : Option ℕ)
  /-- `receive` fails. -/
  | lost
  /-- A message gets to the Worker. -/
  | deliver (speaks : Bool)
  /-- Something else happens to the Worker. -/
  | worker (event : TunnelEvent) (speaks : Bool)

namespace Link

def start (host : Bytes) (port : ℕ) (initialData : Bytes) : Link :=
  { client := { host, port, initialData } }

def enter (l : Link) (phase : RelayPhase) : Link := { l with client := { l.client with phase } }

def sends (l : Link) (m : Message) : Link :=
  { l with up := l.up ++ [m], sent := l.sent ++ [m] }

/-- The Worker deals with an event. -/
def work (l : Link) (event : TunnelEvent) (speaks : Bool) : Link :=
  let tunnel := l.tunnel.step event
  let frames := frames l.tunnel tunnel event speaks
  { l with
    tunnel
    down := l.down ++ frames
    answered := l.answered ++ frames
    heard := l.heard ++ l.tunnel.hears event }

/-- From the first data to the two loops. -/
def pipe (l : Link) (starts : Bool) : Link :=
  if starts then
    { l with client := { l.client with phase := .piping, pumping := true } }
  else l.enter .ended

def step (number : JsonText.Value → Option ℕ) (l : Link) : LinkEvent → Link
  | .connect ok =>
      if l.client.phase = .connecting then l.enter (if ok then .commanding else .ended) else l
  | .command ok =>
      if l.client.phase = .commanding then
        if ok then (l.sends (connectMessage number l.client.host l.client.port)).enter .waiting
        else l.enter .ended
      else l
  | .replay ok starts =>
      if l.client.phase = .replaying then
        if l.client.initialData = [] then l.pipe starts
        else if ok then (l.sends { data := l.client.initialData }).pipe starts
        else l.enter .ended
      else l
  | .recv bytes =>
      if l.client.pumping ∧ l.client.sending = none ∧ bytes.length ≤ readBufferBytes then
        if bytes = [] then { l with client := { l.client with pumping := false } }
        else
          { l with
            client := { l.client with sending := some bytes, read := l.client.read ++ bytes } }
      else l
  | .send ok =>
      match l.client.sending with
      | none => l
      | some bytes =>
          if ok then
            { l.sends { data := bytes } with client := { l.client with sending := none } }
          else { l with client := { l.client with sending := none, pumping := false } }
  | .receive fails =>
      if l.client.phase = .waiting ∨ l.client.phase = .piping then
        match l.down with
        | [] => l
        | frame :: down =>
            { l with
              down
              taken := l.taken ++ [frame]
              client := l.client.receive frame fails }
      else l
  | .lost => l.enter .ended
  | .deliver speaks =>
      match l.up with
      | [] => l
      | m :: up => { l with up }.work (.message m) speaks
  | .worker event speaks =>
      match event with
      | .message _ => l
      | _ => l.work event speaks

/-- The client's bytes in the messages after the command. -/
def passed (l : Link) : Bytes := ((l.sent.drop 1).map Message.data).flatten

/-! ## What holds in every phase -/

/-- How far the relay and the link have come. -/
def Stage (l : Link) : Prop :=
  match l.client.phase with
  | .connecting | .commanding =>
      l.sent = [] ∧ l.taken = [] ∧ l.client.pumping = false ∧ l.client.read = []
  | .waiting => l.sent.length = 1 ∧ l.taken = [] ∧ l.client.pumping = false ∧ l.client.read = []
  | .replaying =>
      l.sent.length = 1 ∧ l.tunnel.targets ≠ [] ∧ l.client.pumping = false ∧ l.client.read = []
  | .piping => True
  | .ended => True

/-- What the relay sends and the Worker gets. -/
structure Upward (host : Bytes) (port : ℕ) (initialData : Bytes) (l : Link) : Prop where
  client_host : l.client.host = host
  client_port : l.client.port = port
  client_data : l.client.initialData = initialData
  fed : l.tunnel.Fed host port
  sent : l.sent = l.tunnel.arrived ++ l.up
  first : ∀ m ∈ l.sent.head?, m.command = some (connectCommand host port)
  later : ∀ m ∈ l.sent.drop 1, m.command = none ∧ l.tunnel.targets ≠ []
  passed : l.passed <+: initialData ++ l.client.read
  pumped : l.client.pumping = true → l.sent ≠ [] ∧ l.tunnel.targets ≠ [] ∧
    l.passed ++ l.client.sending.getD [] = initialData ++ l.client.read
  idle : l.client.pumping = false → l.client.sending = none

/-- What the Worker answers and the relay gets. -/
structure Downward (l : Link) : Prop where
  answered : l.answered = l.taken ++ l.down
  answers : Answered l.tunnel l.answered
  returned : binaries l.answered = l.tunnel.returned
  delivered : l.client.delivered <+: (binaries l.taken).flatten
  whole : l.client.phase ≠ .ended → l.client.delivered = (binaries l.taken).flatten
  heard : l.tunnel.Heard l.heard

structure Carries (host : Bytes) (port : ℕ) (initialData : Bytes) (l : Link) : Prop where
  stage : l.Stage
  upward : l.Upward host port initialData
  downward : l.Downward

end Link

/-! ## The relay's side -/

namespace TunnelClient

variable {c : TunnelClient}

theorem receive_connected (h : c.phase = .waiting) (fails : Option ℕ) :
    c.receive (.text connectedText) fails = { c with phase := .replaying } := by
  have hmark : connectedMark <:+: connectedText := by decide +kernel
  have hfits : ¬ maxMessageBytes < connectedText.length := by decide +kernel
  rw [receive, receiveData, if_neg hfits, if_neg (by decide), if_pos h, answer, if_pos hmark]

theorem receive_refuses (h : c.phase = .waiting) {frame : Frame} (hrefuses : frame.Refuses)
    (fails : Option ℕ) : c.receive frame fails = { c with phase := .ended } := by
  cases frame with
  | text data =>
      obtain ⟨hne, hmark⟩ := hrefuses
      rw [receive, receiveData]
      split
      · rfl
      · rw [answer, if_neg hmark]
  | binary data => exact hrefuses.elim
  | close => rfl

/-- A frame on its way to the client's socket. -/
theorem receive_piping (h : c.phase = .piping) (frame : Frame) (fails : Option ℕ) :
    ∃ phase delivered, c.receive frame fails = { c with phase, delivered } ∧
      (phase = .piping ∨ phase = .ended) ∧
      delivered <+: c.delivered ++ (binaries [frame]).flatten ∧
      (phase ≠ .ended → delivered = c.delivered ++ (binaries [frame]).flatten) := by
  have hwaiting : ¬ c.phase = .waiting := by
    rw [h]
    decide
  have hdata (data : Bytes) (isText : Bool) :
      ∃ phase delivered, c.receiveData data isText fails = { c with phase, delivered } ∧
        (phase = .piping ∨ phase = .ended) ∧
        delivered <+: c.delivered ++ (if isText then [] else data) ∧
        (phase ≠ .ended → delivered = c.delivered ++ if isText then [] else data) := by
    rw [receiveData]
    split
    · exact ⟨.ended, c.delivered, rfl, Or.inr rfl, List.prefix_append _ _,
        fun hne => absurd rfl hne⟩
    · split
      · rename_i hempty
        have hnothing : c.delivered = c.delivered ++ if isText then [] else data := by
          rw [hempty, ite_self, List.append_nil]
        exact ⟨c.phase, c.delivered, rfl, Or.inl h, hnothing ▸ List.prefix_rfl, fun _ => hnothing⟩
      · unfold pumpWsToSock
        cases isText with
        | true =>
            rw [if_pos rfl, if_pos rfl, List.append_nil]
            exact ⟨c.phase, c.delivered, rfl, Or.inl h, List.prefix_rfl, fun _ => rfl⟩
        | false =>
            rw [if_neg (by decide), if_neg (by decide)]
            cases fails with
            | none => exact ⟨c.phase, _, rfl, Or.inl h, List.prefix_rfl, fun _ => rfl⟩
            | some n =>
                refine ⟨.ended, _, rfl, Or.inr rfl, ?_, fun hne => absurd rfl hne⟩
                exact (List.prefix_append_right_inj _).2 (List.take_prefix n data)
  cases frame with
  | text data => exact hdata data true
  | binary data =>
      have hbytes : (binaries [.binary data]).flatten = data := List.append_nil data
      rw [hbytes]
      exact hdata data false
  | close =>
      exact ⟨.ended, c.delivered, rfl, Or.inr rfl, List.prefix_append _ _,
        fun hne => absurd rfl hne⟩

end TunnelClient

namespace Link

variable {number : JsonText.Value → Option ℕ} {host : Bytes} {port : ℕ} {initialData : Bytes}
  {l : Link}

/-! ## One step -/

theorem Upward.enter (h : l.Upward host port initialData) (phase : RelayPhase) :
    (l.enter phase).Upward host port initialData :=
  ⟨h.client_host, h.client_port, h.client_data, h.fed, h.sent, h.first, h.later, h.passed,
    h.pumped, h.idle⟩

theorem Downward.enter (h : l.Downward) {phase : RelayPhase}
    (hphase : l.client.phase = .ended → phase = .ended) : (l.enter phase).Downward :=
  ⟨h.answered, h.answers, h.returned, h.delivered, fun hne => h.whole fun heq => hne (hphase heq),
    h.heard⟩

theorem Carries.ended (h : Carries host port initialData l) :
    Carries host port initialData (l.enter .ended) :=
  ⟨trivial, h.upward.enter .ended, h.downward.enter fun _ => rfl⟩

theorem Downward.sends (h : l.Downward) (m : Message) : (l.sends m).Downward :=
  ⟨h.answered, h.answers, h.returned, h.delivered, h.whole, h.heard⟩

/-- A message after the command. -/
theorem passed_sends (m : Message) (h : l.sent ≠ []) :
    (l.sends m).passed = l.passed ++ m.data := by
  obtain ⟨first, rest, hcons⟩ := List.exists_cons_of_ne_nil h
  have hsent : (l.sends m).sent = first :: (rest ++ [m]) := congrArg (· ++ [m]) hcons
  rw [Link.passed, hsent, Link.passed, hcons]
  simp

/-- The client's data goes up as it is read. -/
theorem Upward.sends (h : l.Upward host port initialData) {bytes : Bytes} {client : TunnelClient}
    (hsent : l.sent ≠ []) (htargets : l.tunnel.targets ≠ [])
    (hhost : client.host = host) (hport : client.port = port)
    (hinitial : client.initialData = initialData)
    (hall : l.passed ++ bytes = initialData ++ client.read) (hsending : client.sending = none) :
    ({ l.sends { data := bytes } with client } : Link).Upward host port initialData := by
  have hpassed : ({ l.sends { data := bytes } with client } : Link).passed =
      initialData ++ client.read := (passed_sends { data := bytes } hsent).trans hall
  obtain ⟨first, rest, hcons⟩ := List.exists_cons_of_ne_nil hsent
  refine ⟨hhost, hport, hinitial, h.fed, ?_, ?_, ?_, hpassed ▸ List.prefix_rfl,
    fun _ => ⟨?_, htargets, ?_⟩, fun _ => hsending⟩
  · exact (congrArg (· ++ [_]) h.sent).trans (List.append_assoc _ _ _)
  · intro m hm
    refine h.first m ?_
    rw [Link.sends] at hm
    dsimp only at hm
    rw [hcons, List.cons_append] at hm
    rw [hcons]
    exact hm
  · intro m hm
    rw [Link.sends] at hm
    dsimp only at hm
    rw [hcons, List.cons_append, List.drop_one, List.tail_cons] at hm
    rcases List.mem_append.1 hm with hold | hnew
    · refine h.later m ?_
      rw [hcons]
      exact hold
    · rw [List.mem_singleton.1 hnew]
      exact ⟨rfl, htargets⟩
  · exact List.append_ne_nil_of_right_ne_nil _ (List.cons_ne_nil _ [])
  · rw [hpassed, hsending]
    exact List.append_nil _

theorem Carries.connect (h : Carries host port initialData l) (ok : Bool) :
    Carries host port initialData (l.step number (.connect ok)) := by
  rw [step]
  split
  · rename_i hphase
    have hstage := h.stage
    rw [Stage, hphase] at hstage
    cases ok with
    | true =>
        refine ⟨hstage, h.upward.enter .commanding, h.downward.enter fun heq => ?_⟩
        rw [hphase] at heq
        cases heq
    | false => exact h.ended
  · exact h

theorem Carries.command (hnumber : ReadsNumerals number) (hport : port < 65536)
    (h : Carries host port initialData l) (ok : Bool) :
    Carries host port initialData (l.step number (.command ok)) := by
  rw [step]
  split
  · rename_i hphase
    have hstage := h.stage
    rw [Stage, hphase] at hstage
    obtain ⟨hsent, htaken, hpumping, hread⟩ := hstage
    cases ok with
    | true =>
        rw [if_pos rfl, h.upward.client_host, h.upward.client_port]
        have hone : (l.sends (connectMessage number host port)).sent =
            [connectMessage number host port] :=
          congrArg (· ++ [_]) hsent
        refine ⟨⟨?_, htaken, hpumping, hread⟩, ?_, ?_⟩
        · exact congrArg List.length hone
        · refine (show Upward host port initialData (l.sends (connectMessage number host port)) from
            ⟨h.upward.client_host, h.upward.client_port, h.upward.client_data, h.upward.fed, ?_, ?_,
              ?_, ?_, fun htrue => ?_, h.upward.idle⟩).enter .waiting
          · exact (congrArg (· ++ [_]) h.upward.sent).trans (List.append_assoc _ _ _)
          · rw [hone]
            intro m hm
            rw [← Option.mem_some_iff.1 hm]
            exact command_connectMessage hnumber hport host
          · rw [hone]
            intro m hm
            cases hm
          · rw [Link.passed, hone]
            exact List.nil_prefix
          · exact absurd (htrue.symm.trans hpumping) (by decide)
        · refine (h.downward.sends _).enter fun heq => ?_
          rw [Link.sends] at heq
          dsimp only at heq
          rw [hphase] at heq
          cases heq
    | false => exact h.ended
  · exact h

/-- The relay starts to pipe when all it has for the Worker is sent. -/
theorem Carries.pipe {l : Link} (hdown : l.Downward) (hphase : l.client.phase = .replaying)
    (hup : l.Upward host port initialData) (hsent : l.sent ≠ []) (htargets : l.tunnel.targets ≠ [])
    (hsending : l.client.sending = none) (hpassed : l.passed = initialData ++ l.client.read)
    (starts : Bool) : Carries host port initialData (l.pipe starts) := by
  have hended : l.client.phase = .ended → RelayPhase.piping = .ended := by
    intro heq
    rw [hphase] at heq
    cases heq
  cases starts with
  | true =>
      refine ⟨trivial, ?_, ⟨hdown.answered, hdown.answers, hdown.returned, hdown.delivered,
        (hdown.enter hended).whole, hdown.heard⟩⟩
      refine ⟨hup.client_host, hup.client_port, hup.client_data, hup.fed, hup.sent, hup.first,
        hup.later, hup.passed, fun _ => ⟨hsent, htargets, ?_⟩, fun _ => hsending⟩
      refine (congrArg (l.passed ++ ·.getD []) hsending).trans ?_
      exact (List.append_nil _).trans hpassed
  | false => exact ⟨trivial, hup.enter .ended, hdown.enter fun _ => rfl⟩

theorem Carries.replay (h : Carries host port initialData l) (ok starts : Bool) :
    Carries host port initialData (l.step number (.replay ok starts)) := by
  rw [step]
  split
  · rename_i hphase
    have hstage := h.stage
    rw [Stage, hphase] at hstage
    obtain ⟨hlength, htargets, hpumping, hread⟩ := hstage
    have hsent : l.sent ≠ [] := by
      intro hnil
      rw [hnil] at hlength
      cases hlength
    have hpassed : l.passed = [] := by
      rw [Link.passed, List.drop_eq_nil_of_le (Nat.le_of_eq hlength)]
      rfl
    have hsending := h.upward.idle hpumping
    split
    · rename_i hempty
      refine Carries.pipe h.downward hphase h.upward hsent htargets hsending ?_ starts
      rw [hpassed, hread, ← h.upward.client_data, hempty]
      rfl
    · cases ok with
      | true =>
          have hinitial := h.upward.client_data
          have hall : l.passed ++ l.client.initialData = initialData ++ l.client.read := by
            rw [hpassed, hinitial, hread, List.append_nil]
            rfl
          rw [if_pos rfl]
          refine Carries.pipe (h.downward.sends _) hphase ?_ ?_ htargets hsending ?_ starts
          · exact h.upward.sends hsent htargets h.upward.client_host h.upward.client_port hinitial
              hall hsending
          · exact List.append_ne_nil_of_right_ne_nil _ (List.cons_ne_nil _ [])
          · exact (passed_sends _ hsent).trans hall
      | false => exact h.ended
  · exact h

/-- The stage does not depend on the loops once they run. -/
theorem stage_of_pumping (h : l.Stage) (hpumping : l.client.pumping = true) :
    l.client.phase = .piping ∨ l.client.phase = .ended := by
  rw [Stage] at h
  cases hphase : l.client.phase with
  | piping => exact Or.inl rfl
  | ended => exact Or.inr rfl
  | _ =>
      rw [hphase] at h
      obtain ⟨-, -, hfalse, -⟩ := h
      rw [hpumping] at hfalse
      cases hfalse

theorem stage_of_phase (h : l.client.phase = .piping ∨ l.client.phase = .ended) : l.Stage := by
  rw [Stage]
  rcases h with h | h
  · rw [h]
    trivial
  · rw [h]
    trivial

theorem Carries.recv (h : Carries host port initialData l) (bytes : Bytes) :
    Carries host port initialData (l.step number (.recv bytes)) := by
  rw [step]
  split
  · rename_i hguard
    obtain ⟨hpumping, hsending, -⟩ := hguard
    have hphase := stage_of_pumping h.stage hpumping
    have hup := h.upward
    have hdown := h.downward
    obtain ⟨hsent, htargets, hall⟩ := hup.pumped hpumping
    split
    · exact ⟨stage_of_phase hphase,
        ⟨hup.client_host, hup.client_port, hup.client_data, hup.fed, hup.sent, hup.first, hup.later,
          hup.passed, nofun, fun _ => hsending⟩,
        ⟨hdown.answered, hdown.answers, hdown.returned, hdown.delivered, hdown.whole,
          hdown.heard⟩⟩
    · rw [hsending, Option.getD_none, List.append_nil] at hall
      refine ⟨stage_of_phase hphase, ?_,
        ⟨hdown.answered, hdown.answers, hdown.returned, hdown.delivered, hdown.whole,
          hdown.heard⟩⟩
      refine ⟨hup.client_host, hup.client_port, hup.client_data, hup.fed, hup.sent, hup.first,
        hup.later, ?_, fun _ => ⟨hsent, htargets, ?_⟩, fun hfalse => ?_⟩
      · refine hup.passed.trans ?_
        rw [← List.append_assoc]
        exact List.prefix_append _ _
      · refine (congrArg (· ++ bytes) hall).trans ?_
        exact List.append_assoc _ _ _
      · exact absurd (hfalse.symm.trans hpumping) (by decide)
  · exact h

theorem Carries.send (h : Carries host port initialData l) (ok : Bool) :
    Carries host port initialData (l.step number (.send ok)) := by
  rw [step]
  cases hsending : l.client.sending with
  | none => exact h
  | some bytes =>
      have hup := h.upward
      have hdown := h.downward
      have hpumping : l.client.pumping = true := by
        rw [← Bool.not_eq_false]
        intro hfalse
        rw [hup.idle hfalse] at hsending
        cases hsending
      have hphase := stage_of_pumping h.stage hpumping
      obtain ⟨hsent, htargets, hall⟩ := hup.pumped hpumping
      rw [hsending] at hall
      cases ok with
      | true =>
          exact ⟨stage_of_phase hphase,
            hup.sends hsent htargets hup.client_host hup.client_port hup.client_data hall rfl,
            ⟨hdown.answered, hdown.answers, hdown.returned, hdown.delivered, hdown.whole,
          hdown.heard⟩⟩
      | false =>
          exact ⟨stage_of_phase hphase,
            ⟨hup.client_host, hup.client_port, hup.client_data, hup.fed, hup.sent, hup.first,
              hup.later, hup.passed, nofun, fun _ => rfl⟩,
            ⟨hdown.answered, hdown.answers, hdown.returned, hdown.delivered, hdown.whole,
          hdown.heard⟩⟩

theorem Carries.receive (h : Carries host port initialData l) (fails : Option ℕ) :
    Carries host port initialData (l.step number (.receive fails)) := by
  rw [step]
  split
  · rename_i hguard
    cases hframes : l.down with
    | nil => exact h
    | cons frame down =>
        have hup := h.upward
        have hdown := h.downward
        have hanswered : l.answered = l.taken ++ [frame] ++ down := by
          rw [hdown.answered, hframes, List.append_assoc]
          rfl
        have hcarries (phase : RelayPhase) (delivered : Bytes)
            (hstage : Stage { l with
              down, taken := l.taken ++ [frame], client := { l.client with phase, delivered } })
            (hstarts : delivered <+: (binaries (l.taken ++ [frame])).flatten)
            (hwhole : phase ≠ .ended → delivered = (binaries (l.taken ++ [frame])).flatten) :
            Carries host port initialData { l with
              down, taken := l.taken ++ [frame], client := { l.client with phase, delivered } } :=
          ⟨hstage,
            ⟨hup.client_host, hup.client_port, hup.client_data, hup.fed, hup.sent, hup.first,
              hup.later, hup.passed, hup.pumped, hup.idle⟩,
            ⟨hanswered, hdown.answers, hdown.returned, hstarts, hwhole, hdown.heard⟩⟩
        dsimp only
        rcases hguard with hwaiting | hpiping
        · have hstage := h.stage
          rw [Stage, hwaiting] at hstage
          obtain ⟨hlength, htaken, hpumping, hread⟩ := hstage
          have hdelivered : l.client.delivered = [] := by
            have hempty := hdown.delivered
            rw [htaken] at hempty
            exact List.prefix_nil.1 hempty
          have hfirst : l.answered = frame :: down := by
            rw [hanswered, htaken]
            rfl
          -- the first frame says how the Worker has answered
          have hanswers := hdown.answers
          rw [hfirst] at hanswers
          cases hanswers with
          | greeted htargets =>
              rw [TunnelClient.receive_connected hwaiting]
              refine hcarries .replaying l.client.delivered ⟨hlength, htargets, hpumping, hread⟩ ?_
                fun _ => ?_
              · rw [hdelivered]
                exact List.nil_prefix
              · rw [hdelivered, htaken]
                rfl
          | refused hready hrefuses =>
              rw [TunnelClient.receive_refuses hwaiting (hrefuses frame List.mem_cons_self)]
              refine hcarries .ended l.client.delivered trivial ?_ fun hne => absurd rfl hne
              rw [hdelivered]
              exact List.nil_prefix
        · obtain ⟨phase, delivered, heq, hphase, hstarts, hwhole⟩ :=
            TunnelClient.receive_piping hpiping frame fails
          have hbytes : l.client.delivered ++ (binaries [frame]).flatten =
              (binaries (l.taken ++ [frame])).flatten := by
            rw [binaries_append, List.flatten_append,
              hdown.whole fun hended => by rw [hpiping] at hended; cases hended]
          rw [heq]
          rw [hbytes] at hstarts hwhole
          exact hcarries phase delivered (stage_of_phase hphase) hstarts hwhole
  · exact h

/-- What an event of the Worker does to the link, once it is known what the tunnel keeps. -/
theorem Carries.work {up : List Message} (h : Carries host port initialData l)
    {event : TunnelEvent} (hfed : (l.tunnel.step event).Fed host port)
    (harrived : l.sent = (l.tunnel.step event).arrived ++ up) (speaks : Bool) :
    Carries host port initialData ({ l with up }.work event speaks) := by
  have hup := h.upward
  have hdown := h.downward
  have htargets (hne : l.tunnel.targets ≠ []) : (l.tunnel.step event).targets ≠ [] := by
    intro hnil
    have hgrows := l.tunnel.length_targets_step event
    rw [hnil] at hgrows
    exact hne (List.length_eq_zero_iff.1 (Nat.le_zero.1 hgrows))
  refine ⟨?_, ?_, ?_⟩
  · have hstage := h.stage
    rw [Stage] at hstage ⊢
    rw [Link.work]
    dsimp only
    cases hphase : l.client.phase with
    | replaying =>
        rw [hphase] at hstage
        obtain ⟨hlength, hne, hpumping, hread⟩ := hstage
        exact ⟨hlength, htargets hne, hpumping, hread⟩
    | _ =>
        rw [hphase] at hstage
        exact hstage
  · refine ⟨hup.client_host, hup.client_port, hup.client_data, hfed, harrived, hup.first,
      fun m hm => ?_, hup.passed, fun hpumping => ?_, hup.idle⟩
    · exact ⟨(hup.later m hm).1, htargets (hup.later m hm).2⟩
    · obtain ⟨hsent, hne, hall⟩ := hup.pumped hpumping
      exact ⟨hsent, htargets hne, hall⟩
  · refine ⟨?_, hdown.answers.step hfed, ?_, hdown.delivered, hdown.whole,
      hdown.heard.step hup.fed event⟩
    · exact (congrArg (· ++ _) hdown.answered).trans (List.append_assoc _ _ _)
    · refine (binaries_append _ _).trans ?_
      rw [hdown.returned]
      exact binaries_frames l.tunnel event speaks hfed.known

theorem Carries.deliver (h : Carries host port initialData l) (speaks : Bool) :
    Carries host port initialData (l.step number (.deliver speaks)) := by
  rw [step]
  cases hup : l.up with
  | nil => exact h
  | cons m up =>
      have hsent := h.upward.sent
      rw [hup] at hsent
      have hfed : (l.tunnel.step (.message m)).Fed host port := by
        refine h.upward.fed.message (fun hnil => ?_) fun hne => ?_
        · refine h.upward.first m ?_
          rw [hsent, hnil]
          rfl
        · refine h.upward.later m ?_
          obtain ⟨first, rest, hcons⟩ := List.exists_cons_of_ne_nil hne
          rw [hsent, hcons, List.cons_append, List.drop_one, List.tail_cons]
          exact List.mem_append_right _ List.mem_cons_self
      refine h.work hfed ?_ speaks
      rw [(l.tunnel.step_message_records m).2, List.append_assoc]
      exact hsent

theorem Carries.step (hnumber : ReadsNumerals number) (hport : port < 65536)
    (h : Carries host port initialData l) (event : LinkEvent) :
    Carries host port initialData (l.step number event) := by
  cases event with
  | connect ok => exact h.connect ok
  | command ok => exact h.command hnumber hport ok
  | replay ok starts => exact h.replay ok starts
  | recv bytes => exact h.recv bytes
  | send ok => exact h.send ok
  | receive fails => exact h.receive fails
  | lost => exact h.ended
  | deliver speaks => exact h.deliver speaks
  | worker event speaks =>
      by_cases hmessage : ∃ m, event = .message m
      · obtain ⟨m, rfl⟩ := hmessage
        exact h
      · have hother : ∀ m, event ≠ .message m := fun m heq => hmessage ⟨m, heq⟩
        have hwork : l.step number (.worker event speaks) =
            { l with up := l.up }.work event speaks := by
          cases event with
          | message m => exact absurd rfl (hother m)
          | _ => rfl
        rw [hwork]
        refine h.work (h.upward.fed.step hother) ?_ speaks
        rw [(l.tunnel.step_records hother).1]
        exact h.upward.sent

theorem carries_start (host : Bytes) (port : ℕ) (initialData : Bytes) :
    Carries host port initialData (start host port initialData) := by
  refine ⟨⟨rfl, rfl, rfl, rfl⟩, ⟨rfl, rfl, rfl, Tunnel.fed_new host port, rfl, ?_, ?_, ?_, nofun,
    fun _ => rfl⟩, ⟨rfl, .silent rfl rfl, rfl, List.prefix_rfl, fun _ => rfl,
      List.prefix_rfl, fun _ => rfl, fun _ => rfl⟩⟩
  · intro m hm
    cases hm
  · intro m hm
    cases hm
  · exact List.nil_prefix

/-! ## Runs -/

/-- The events of a link to `host` and `port`, whose Worker reads values by `number`. -/
def run (number : JsonText.Value → Option ℕ) (host : Bytes) (port : ℕ) (initialData : Bytes)
    (events : List LinkEvent) : Link :=
  History.run (step number) (start host port initialData) events

theorem run_carries (hnumber : ReadsNumerals number) (hport : port < 65536) (host : Bytes)
    (initialData : Bytes) (events : List LinkEvent) :
    Carries host port initialData (run number host port initialData events) :=
  run_invariant (step number) _ (fun _ l => Carries host port initialData l)
    (carries_start host port initialData) (fun _ _ event h => h.step hnumber hport event) events

/-- The target gets the beginning of what the client said, the client the beginning of what the
Worker has read from the target, each in its order and without a gap, whatever the threads, the
handlers and the network do. The Worker looks up no other host and opens one connection at most, to
the client's port. -/
theorem tunnel_carries (hnumber : ReadsNumerals number) (hport : port < 65536) (host : Bytes)
    (initialData : Bytes) (events : List LinkEvent) :
    let l := run number host port initialData events
    l.tunnel.writtenData.flatten <+: initialData ++ l.client.read ∧
      l.client.delivered <+: l.heard.flatten ∧
      (∀ lookup ∈ l.tunnel.lookups.map Job.task, lookup = ⟨host, port⟩) ∧
      l.tunnel.targets.length ≤ 1 ∧ ∀ target ∈ l.tunnel.targets, target.port = port := by
  have hcarries := run_carries hnumber hport host initialData events
  revert hcarries
  generalize run number host port initialData events = l
  intro hcarries
  have hup := hcarries.upward
  have hdown := hcarries.downward
  refine ⟨?_, ?_, hup.fed.asks, ?_, hup.fed.reaches⟩
  · refine List.IsPrefix.trans ?_ hup.passed
    have hlater : l.tunnel.laterData <+: (l.sent.drop 1).map Message.data := by
      refine List.IsPrefix.map _ (List.IsPrefix.drop ?_ 1)
      rw [hup.sent]
      exact List.prefix_append _ _
    exact (hup.fed.written.trans hlater).flatten
  · refine hdown.delivered.trans (List.IsPrefix.flatten ?_)
    refine List.IsPrefix.trans ?_ hdown.heard.returned
    rw [← hdown.returned, hdown.answered, binaries_append]
    exact List.prefix_append _ _
  · exact (Nat.le_add_left _ _).trans hup.fed.one

/-- `Number` on numerals of digits. -/
def sampleNumber : JsonText.Value → Option ℕ
  | .number numeral => some (Json.digitsValue numeral)
  | _ => none

theorem sampleNumber_reads : ReadsNumerals sampleNumber :=
  fun n _ => congrArg some (Json.digitsValue_decimal n)

/-- A tunnel that is asked for, opened and answered through. -/
def sampleEvents : List LinkEvent :=
  [.connect true, .command true, .deliver true,
    .worker (.resolved 0 (some Tunnel.sampleFoundAddress) true true) true,
    .receive none, .replay true true, .deliver true, .worker (.read 0 (.value [1, 2] true)) true,
    .receive none]

theorem tunnel_carries_sample :
    let l := run sampleNumber (ofString "a.com") 443 [7] sampleEvents
    (l.tunnel.writtenData.flatten <+: [7] ++ l.client.read ∧
      l.client.delivered <+: l.heard.flatten ∧
      (∀ lookup ∈ l.tunnel.lookups.map Job.task, lookup = ⟨ofString "a.com", 443⟩) ∧
      l.tunnel.targets.length ≤ 1 ∧ ∀ target ∈ l.tunnel.targets, target.port = 443) ∧
      l.tunnel.writtenData = [[7]] ∧ l.client.delivered = [1, 2] ∧ l.heard = [[1, 2]] :=
  ⟨tunnel_carries sampleNumber_reads (by decide) (ofString "a.com") [7] sampleEvents,
    by decide +kernel⟩

end Link

end Worker

end SplitHello
