import SplitHello.Lifecycle.Engine

/-!
# What stands while the engine is up

For every place in `main` it is said what stands of the relay, of the DNS relay and of the capture,
and what `main` has found out when it has looked at the flags. What the other threads do raises
flags and moves none of it.
-/

namespace SplitHello

namespace Lifecycle

open History Socks Inquiry

/-! ## The listener of the relay -/

/-- The listener stands until it is taken down, and does not come back. -/
structure Listening (r : Socks.Proxy) : Prop where
  listens : r.stopper = .idle → r.running = true → r.listenSock = true
  requested : 1 ≤ r.stopper.order → r.stopRequested = true
  closed : 3 ≤ r.stopper.order → r.listenSock = false ∧ r.runner ≠ .checked

section Listener

open Socks.Proxy

variable {r : Socks.Proxy}

theorem spawnSession_listenSock (r : Socks.Proxy) (starts : Bool) :
    (r.spawnSession starts).listenSock = r.listenSock := by
  unfold spawnSession
  split
  · rfl
  · cases starts <;> rfl

/-- The thread in `run` publishes the listener, or leaves it alone. -/
theorem runStep_listener (r : Socks.Proxy) (input : RunnerInput) :
    r.runner = .checked ∧ (r.runStep input).listenSock = true ∨
      (r.runStep input).listenSock = r.listenSock ∧
        ((r.runStep input).running = true → r.running = true) := by
  unfold Socks.Proxy.runStep
  cases hrunner : r.runner with
  | starting =>
      dsimp only
      split
      · simp
      · split <;> simp
  | checked => exact Or.inl ⟨rfl, rfl⟩
  | looping errors => dsimp only; split <;> simp
  | accepting errors => dsimp only; split <;> simp
  | failed errors fatal =>
      dsimp only
      split
      · simp
      · split <;> simp
  | givingUp => simp
  | accepted => simp
  | reaping handles =>
      cases handles with
      | nil =>
          refine Or.inr ⟨spawnSession_listenSock r input.starts, fun h => ?_⟩
          rw [← (spawnSession_stopper r input.starts).2.1]
          exact h
      | cons handle handles =>
          rcases join_cases r .runner handle with hnone | hsome
          · simp [hnone]
          · simp [hsome]
  | returned => simp

theorem sessionStep_listenSock (r : Socks.Proxy) (id : ℕ) (result : Result) :
    (r.sessionStep id result).listenSock = r.listenSock := by
  unfold sessionStep
  cases r.threads.lookup id with
  | none => rfl
  | some phase =>
      cases phase with
      | negotiating => cases result <;> rfl
      | joining handles =>
          cases handles with
          | nil => rfl
          | cons handle handles =>
              rcases join_cases r (.session id) handle with hnone | hsome
              · simp [hnone]
              · simp [hsome]
      | _ => rfl

theorem Listening.run (h : Listening r) (input : RunnerInput) : Listening (r.runStep input) := by
  obtain ⟨hstopper, hrequested, -, hchecked, -⟩ := runStep_frame r input
  refine ⟨fun hidle hrunning => ?_, fun horder => ?_, fun horder => ?_⟩
  · rw [hstopper] at hidle
    rcases runStep_listener r input with ⟨-, hsock⟩ | ⟨hsock, hbefore⟩
    · exact hsock
    · rw [hsock]
      exact h.listens hidle (hbefore hrunning)
  · rw [hstopper] at horder
    rw [hrequested]
    exact h.requested horder
  · rw [hstopper] at horder
    obtain ⟨hclosed, hrunner⟩ := h.closed horder
    constructor
    · rcases runStep_listener r input with ⟨hnow, -⟩ | ⟨hsock, -⟩
      · exact absurd hnow hrunner
      · rw [hsock, hclosed]
    · intro hnow
      have hfalse := (hchecked hnow).2
      rw [h.requested (Nat.le_of_succ_le (Nat.le_of_succ_le horder))] at hfalse
      cases hfalse

theorem Listening.session (h : Listening r) (id : ℕ) (result : Result) :
    Listening (r.sessionStep id result) := by
  obtain ⟨hrunner, hstopper, hrunning, hrequested, -⟩ := sessionStep_frame r id result
  have hsock := sessionStep_listenSock r id result
  constructor
  · rw [hstopper, hrunning, hsock]
    exact h.listens
  · rw [hstopper, hrequested]
    exact h.requested
  · rw [hstopper, hsock, hrunner]
    exact h.closed

theorem Listening.stop (h : Listening r) : Listening r.stopStep := by
  have hlater {r' : Socks.Proxy} (horder : 3 ≤ r.stopper.order)
      (hidle : r'.stopper ≠ .idle) (hrequested : r'.stopRequested = r.stopRequested)
      (hsock : r'.listenSock = r.listenSock) (hrunner : r'.runner = r.runner) : Listening r' := by
    refine ⟨fun h => absurd h hidle, fun _ => ?_, fun _ => ?_⟩
    · rw [hrequested]
      exact h.requested (Nat.le_of_succ_le (Nat.le_of_succ_le horder))
    · rw [hsock, hrunner]
      exact h.closed horder
  unfold stopStep
  cases hstopper : r.stopper with
  | idle =>
      refine ⟨nofun, fun _ => rfl, fun horder => ?_⟩
      exact absurd (show 3 ≤ 1 from horder) (by decide)
  | requested =>
      refine ⟨nofun, fun _ => h.requested (by rw [hstopper]; decide), fun horder => ?_⟩
      exact absurd (show 3 ≤ 2 from horder) (by decide)
  | cleared =>
      dsimp only
      split
      · exact h
      · rename_i hrunner
        exact ⟨nofun, fun _ => h.requested (by rw [hstopper]; decide), fun _ => ⟨rfl, hrunner⟩⟩
  | closed => exact hlater (by rw [hstopper]; decide) nofun rfl rfl rfl
  | waiting =>
      dsimp only
      split
      · exact hlater (by rw [hstopper]; decide) nofun rfl rfl rfl
      · exact h
  | drained => exact hlater (by rw [hstopper]; decide) nofun rfl rfl rfl
  | reaping handles =>
      cases handles with
      | nil => exact hlater (by rw [hstopper]; decide) nofun rfl rfl rfl
      | cons handle handles =>
          dsimp only
          rcases join_cases r .stopper handle with hnone | hsome
          · rw [hnone]
            exact h
          · rw [hsome]
            exact hlater (by rw [hstopper]; exact Nat.le_of_ble_eq_true rfl) nofun rfl rfl rfl
  | returned => exact h

end Listener

/-! ## What holds in which phase -/

namespace MainPhase

/-- Nobody has called the relay's `stop`. -/
def idle : MainPhase → Bool
  | .stoppingRelay _ | .joiningRelay _ | .destroying _ _ | .returned _ => false
  | _ => true

/-- The listener must stand. -/
def listening : MainPhase → Bool
  | .startingDns | .openingPackets | .openingDrop | .startingThread | .signalling | .watching _
  | .judging _ | .stoppingPackets _ | .joiningPackets _ | .stoppingDns _ | .joiningDns _ => true
  | _ => false

/-- The relay's `stop` has returned. -/
def joining : MainPhase → Bool
  | .joiningRelay _ | .destroying _ _ | .returned _ => true
  | _ => false

/-- The thread that was in the relay's `run` is gone. -/
def joined : MainPhase → Bool
  | .destroying _ _ | .returned _ => true
  | _ => false

/-- The second `stop` has seen the last session go. -/
def drained : MainPhase → Bool
  | .destroying _ stop => 5 ≤ stop.order
  | .returned _ => true
  | _ => false

/-- The DNS socket must be open, if there is one. -/
def answering : MainPhase → Bool
  | .openingPackets | .openingDrop | .startingThread | .signalling | .watching _ | .judging _
  | .stoppingPackets _ | .joiningPackets _ | .stoppingDns _ => true
  | _ => false

/-- The DNS socket may be open. -/
def resolving : MainPhase → Bool
  | .joiningDns _ => true
  | phase => phase.answering

/-- Packets are diverted. -/
def diverting : MainPhase → Bool
  | .openingDrop | .startingThread | .signalling | .watching _ | .judging _ | .stoppingPackets _
  | .joiningPackets _ => true
  | _ => false

/-- Packets may be read. -/
def reading : MainPhase → Bool
  | .signalling | .watching _ | .judging _ | .stoppingPackets _ | .joiningPackets _ => true
  | _ => false

/-- Only the thread that reads packets may have ended the capture. -/
def capturing : MainPhase → Bool
  | .signalling | .watching _ | .judging _ | .stoppingPackets _ => true
  | _ => false

/-- `main` asks why it stops, or has just found out. -/
def deciding : MainPhase → Bool
  | .watching _ | .judging _ | .stoppingPackets _ => true
  | _ => false

/-- What is said of the relay there is said here already. -/
def relayLeads (before after : MainPhase) : Bool :=
  (!after.idle || before.idle) && (!after.listening || before.listening) &&
    (!after.joining || before.joining) && (!after.joined || before.joined) &&
    (!after.drained || before.drained)

/-- The same of the DNS relay. -/
def dnsLeads (before after : MainPhase) : Bool :=
  (!after.answering || before.answering) && (!before.resolving || after.resolving)

/-- The same of the capture. -/
def packetLeads (before after : MainPhase) : Bool :=
  (!before.diverting || after.diverting) && (!after.diverting || before.diverting) &&
    (!before.reading || after.reading) && (!after.capturing || before.capturing)

def leads (before after : MainPhase) : Bool :=
  before.relayLeads after && before.dnsLeads after && before.packetLeads after

theorem leads_self (phase : MainPhase) :
    phase.relayLeads phase = true ∧ phase.dnsLeads phase = true ∧
      phase.packetLeads phase = true := by
  simp [relayLeads, dnsLeads, packetLeads]

theorem joined_of_drained {phase : MainPhase} (h : phase.drained = true) :
    phase.joined = true := by
  cases phase <;> first | rfl | cases h

theorem answering_of_diverting {phase : MainPhase} (h : phase.diverting = true) :
    phase.listening = true ∧ phase.answering = true := by
  cases phase <;> first | exact ⟨rfl, rfl⟩ | cases h

end MainPhase

theorem imp_of_or {a b : Bool} (h : (!a || b) = true) (ha : a = true) : b = true := by
  rw [ha] at h
  exact h

namespace Engine

variable {setup : Setup} {s s' : Engine}

/-- What stands of the relay. -/
structure RelaySound (s : Engine) : Prop where
  listener : Listening s.relay
  idle : s.main.idle = true → s.relay.stopper = .idle
  listening : s.main.listening = true → s.relay.listenSock = true
  exited : s.relayExited = true → s.relay.runner = .returned
  stopped : s.main.joining = true → s.relay.stopper = .returned
  joined : s.main.joined = true → s.relayExited = true
  drained : s.main.drained = true → s.relay.sessions = ∅

/-- What stands of the DNS relay. -/
structure DnsSound (setup : Setup) (s : Engine) : Prop where
  up : setup.useWorkerDns = true → s.main.answering = true → s.dnsSocket = true
  down : s.dnsSocket = true → s.main.resolving = true
  threads : s.dnsThreads ≠ 0 → s.dnsSocket = true

/-- What stands of the capture. -/
structure PacketSound (s : Engine) : Prop where
  handles : s.packetHandle = true ∨ s.quicDropHandle = true → s.main.diverting = true
  diverts : s.main.diverting = true → s.packetHandle = true
  thread : s.packetThread ≠ .absent → s.packetThread ≠ .ended → s.main.reading = true
  failed : s.packetThread = .failed → s.fatal = true
  fatal : s.main.capturing = true → s.capturing = false → s.fatal = true

/-- What `main` has found out is so. -/
structure VerdictSound (setup : Setup) (s : Engine) : Prop where
  watch : ∀ t, s.main = .watching t →
    t.Ends Explained (fun result g => result = true → ∃ q ∈ setup.watched, g q = true) s.flags
  judge : ∀ t, s.main = .judging t → t.Ends Explained (Fair setup) s.flags
  told : ∀ code, s.main = .stoppingPackets code → Fair setup code s.flags

structure Sound (setup : Setup) (s : Engine) : Prop where
  relay : s.RelaySound
  dns : s.DnsSound setup
  packets : s.PacketSound
  verdict : s.VerdictSound setup

theorem RelaySound.congr (h : s.RelaySound) (hrelay : s'.relay = s.relay)
    (hexited : s'.relayExited = s.relayExited) (hleads : s.main.relayLeads s'.main = true) :
    s'.RelaySound := by
  rw [MainPhase.relayLeads] at hleads
  simp only [Bool.and_eq_true] at hleads
  obtain ⟨⟨⟨⟨hidle, hlistening⟩, hjoining⟩, hjoined⟩, hdrained⟩ := hleads
  constructor
  case listener => rw [hrelay]; exact h.listener
  case idle => rw [hrelay]; exact fun hphase => h.idle (imp_of_or hidle hphase)
  case listening => rw [hrelay]; exact fun hphase => h.listening (imp_of_or hlistening hphase)
  case exited => rw [hrelay, hexited]; exact h.exited
  case stopped => rw [hrelay]; exact fun hphase => h.stopped (imp_of_or hjoining hphase)
  case joined => rw [hexited]; exact fun hphase => h.joined (imp_of_or hjoined hphase)
  case drained => rw [hrelay]; exact fun hphase => h.drained (imp_of_or hdrained hphase)

theorem DnsSound.congr (h : s.DnsSound setup) (hsocket : s'.dnsSocket = s.dnsSocket)
    (hthreads : s'.dnsThreads = s.dnsThreads) (hleads : s.main.dnsLeads s'.main = true) :
    s'.DnsSound setup := by
  rw [MainPhase.dnsLeads, Bool.and_eq_true] at hleads
  constructor
  case up => rw [hsocket]; exact fun hworker hphase => h.up hworker (imp_of_or hleads.1 hphase)
  case down => rw [hsocket]; exact fun hopen => imp_of_or hleads.2 (h.down hopen)
  case threads => rw [hsocket, hthreads]; exact h.threads

theorem PacketSound.congr (h : s.PacketSound) (hpackets : s'.packetHandle = s.packetHandle)
    (hdrop : s'.quicDropHandle = s.quicDropHandle) (hthread : s'.packetThread = s.packetThread)
    (hcapturing : s'.capturing = s.capturing) (hfatal : s'.fatal = s.fatal)
    (hleads : s.main.packetLeads s'.main = true) : s'.PacketSound := by
  rw [MainPhase.packetLeads] at hleads
  simp only [Bool.and_eq_true] at hleads
  obtain ⟨⟨⟨hclosing, hopening⟩, hreading⟩, hcaptured⟩ := hleads
  constructor
  case handles => rw [hpackets, hdrop]; exact fun hopen => imp_of_or hclosing (h.handles hopen)
  case diverts => rw [hpackets]; exact fun hphase => h.diverts (imp_of_or hopening hphase)
  case thread =>
    rw [hthread]
    exact fun habsent hended => imp_of_or hreading (h.thread habsent hended)
  case failed => rw [hthread, hfatal]; exact h.failed
  case fatal => rw [hcapturing, hfatal]; exact fun hphase => h.fatal (imp_of_or hcaptured hphase)

theorem verdict_of_not (h : s.main.deciding = false) : s.VerdictSound setup := by
  have hno {phase : MainPhase} (hm : s.main = phase) : phase.deciding = false := hm ▸ h
  exact ⟨fun t ht => (by cases hno ht), fun t ht => (by cases hno ht),
    fun code hcode => (by cases hno hcode)⟩

/-- `main` goes on and changes nothing else. -/
theorem Sound.enter (h : s.Sound setup) {phase : MainPhase} (hleads : s.main.leads phase = true)
    (hverdict : (s.enter phase).VerdictSound setup) : (s.enter phase).Sound setup := by
  rw [MainPhase.leads] at hleads
  simp only [Bool.and_eq_true] at hleads
  obtain ⟨⟨hrelay, hdns⟩, hpackets⟩ := hleads
  exact ⟨h.relay.congr rfl rfl hrelay, h.dns.congr rfl rfl hdns,
    h.packets.congr rfl rfl rfl rfl rfl hpackets, hverdict⟩

theorem PacketSound.thread_over (h : s.PacketSound) (hreading : s.main.reading = false) :
    s.packetThread = .absent ∨ s.packetThread = .ended := by
  by_contra hlive
  rw [not_or] at hlive
  rw [h.thread hlive.1 hlive.2] at hreading
  cases hreading

theorem Sound.explained (h : s.Sound setup) (hcapturing : s.main.capturing = true) :
    Explained s.flags :=
  fun hended => h.packets.fatal hcapturing ((Bool.not_eq_true' _).mp hended)

/-! ## The other threads -/

theorem le_flags (hshutdown : s.shutdownRequested = true → s'.shutdownRequested = true)
    (hexited : s.relayExited = true → s'.relayExited = true)
    (hcapturing : s.capturing = false → s'.capturing = false)
    (hdns : s.dnsRunning = false → s'.dnsRunning = false)
    (hworker : s.workerLost = true → s'.workerLost = true)
    (hfatal : s.fatal = true → s'.fatal = true) : s.flags ≤ s'.flags := by
  intro q hq
  cases q with
  | shutdown => exact hshutdown hq
  | relayExited => exact hexited hq
  | captureEnded =>
      have hoff := hcapturing ((Bool.not_eq_true' _).mp hq)
      exact (Bool.not_eq_true' _).mpr hoff
  | dnsStopped =>
      have hoff := hdns ((Bool.not_eq_true' _).mp hq)
      exact (Bool.not_eq_true' _).mpr hoff
  | workerLost => exact hworker hq
  | fatal => exact hfatal hq

theorem flags_otherStep (setup : Setup) (s : Engine) (event : EngineEvent) :
    s.flags ≤ (s.otherStep setup event).flags := by
  cases event with
  | main ok => exact le_rfl
  | console => exact le_flags (fun _ => rfl) id id id id id
  | monitor =>
      rw [Engine.otherStep]
      split
      · exact le_flags (fun _ => rfl) id id id id id
      · exact le_rfl
  | run input => exact le_flags id id id id id id
  | session number result => exact le_flags id id id id id id
  | runThrows =>
      rw [Engine.otherStep, Engine.runThrows]
      split
      · exact le_rfl
      · exact le_flags id id id id id id
  | relayThread =>
      rw [Engine.otherStep]
      split
      · exact le_flags id (fun _ => rfl) id id id id
      · exact le_rfl
  | packets ok =>
      rw [Engine.otherStep, packetStep]
      split
      · split
        · exact le_flags id id id id id id
        · split
          · exact le_rfl
          · exact le_flags id id id id id id
      · exact le_flags id id id id id fun _ => rfl
      · exact le_flags id id (fun _ => rfl) id id id
      · exact le_rfl
  | dnsFails => exact le_flags id id id (fun _ => rfl) id id
  | dnsThread =>
      rw [Engine.otherStep]
      split
      · exact le_flags id id id id id id
      · exact le_rfl
  | workerLost => exact le_flags id id id id (fun _ => rfl) id

theorem main_otherStep (setup : Setup) (s : Engine) (event : EngineEvent) :
    (s.otherStep setup event).main = s.main := by
  cases event with
  | monitor =>
      rw [Engine.otherStep]
      split <;> rfl
  | runThrows =>
      rw [Engine.otherStep, Engine.runThrows]
      split <;> rfl
  | relayThread =>
      rw [Engine.otherStep]
      split <;> rfl
  | dnsThread =>
      rw [Engine.otherStep]
      split <;> rfl
  | packets ok =>
      rw [Engine.otherStep, packetStep]
      split
      · split
        · rfl
        · split <;> rfl
      all_goals rfl
  | _ => rfl

theorem RelaySound.runStep (h : s.RelaySound) (input : RunnerInput) :
    (s.runStep input).RelaySound := by
  have hstopper := (Socks.Proxy.runStep_frame s.relay input).1
  have hreturned (hrunner : s.relay.runner = .returned) : s.relay.runStep input = s.relay := by
    rw [Socks.Proxy.runStep, hrunner]
  constructor
  case listener => exact h.listener.run input
  case idle => exact fun hphase => hstopper.trans (h.idle hphase)
  case listening =>
    intro hphase
    rcases runStep_listener s.relay input with ⟨-, hup⟩ | ⟨hsame, -⟩
    · exact hup
    · exact hsame.trans (h.listening hphase)
  case exited =>
    intro hexited
    exact (congrArg Socks.Proxy.runner (hreturned (h.exited hexited))).trans (h.exited hexited)
  case stopped => exact fun hphase => hstopper.trans (h.stopped hphase)
  case joined => exact h.joined
  case drained =>
    intro hphase
    have hexited := h.joined (MainPhase.joined_of_drained hphase)
    exact (congrArg Socks.Proxy.sessions (hreturned (h.exited hexited))).trans (h.drained hphase)

theorem RelaySound.sessionStep (h : s.RelaySound) (number : ℕ) (result : Result) :
    ({ s with relay := s.relay.sessionStep number result } : Engine).RelaySound := by
  obtain ⟨hrunner, hstopper, -⟩ := Socks.Proxy.sessionStep_frame s.relay number result
  exact
    { listener := h.listener.session number result
      idle := fun hphase => hstopper.trans (h.idle hphase)
      listening := fun hphase =>
        (sessionStep_listenSock s.relay number result).trans (h.listening hphase)
      exited := fun hexited => hrunner.trans (h.exited hexited)
      stopped := fun hphase => hstopper.trans (h.stopped hphase)
      joined := h.joined
      drained := fun hphase => Socks.Proxy.sessionStep_sessions (h.drained hphase) number result }

theorem RelaySound.otherStep (h : s.RelaySound) (event : EngineEvent) :
    (s.otherStep setup event).RelaySound := by
  have hself := (MainPhase.leads_self s.main).1
  cases event with
  | main ok => exact h
  | console => exact h.congr rfl rfl hself
  | monitor =>
      rw [Engine.otherStep]
      split
      · exact h.congr rfl rfl hself
      · exact h
  | run input => exact h.runStep input
  | session number result => exact h.sessionStep number result
  | runThrows =>
      rw [Engine.otherStep, Engine.runThrows]
      split
      · exact h
      · refine ⟨⟨h.listener.listens, h.listener.requested, fun horder => ?_⟩, h.idle, h.listening,
          fun _ => rfl, h.stopped, h.joined, h.drained⟩
        exact ⟨(h.listener.closed horder).1, fun hstops => by cases hstops⟩
  | relayThread =>
      rw [Engine.otherStep]
      split
      · exact ⟨h.listener, h.idle, h.listening, fun _ => ‹_›, h.stopped, fun _ => rfl, h.drained⟩
      · exact h
  | packets ok =>
      rw [Engine.otherStep, packetStep]
      split
      · split
        · exact h.congr rfl rfl hself
        · split
          · exact h
          · exact h.congr rfl rfl hself
      · exact h.congr rfl rfl hself
      · exact h.congr rfl rfl hself
      · exact h
  | dnsFails => exact h.congr rfl rfl hself
  | dnsThread =>
      rw [Engine.otherStep]
      split
      · exact h.congr rfl rfl hself
      · exact h
  | workerLost => exact h.congr rfl rfl hself

/-- Only the DNS threads themselves change anything here: they end. -/
theorem otherStep_dns (setup : Setup) (s : Engine) (event : EngineEvent) :
    (s.otherStep setup event).dnsSocket = s.dnsSocket ∧
      (s.otherStep setup event).dnsThreads ≤ s.dnsThreads := by
  cases event with
  | monitor =>
      rw [Engine.otherStep]
      split <;> exact ⟨rfl, le_rfl⟩
  | runThrows =>
      rw [Engine.otherStep, Engine.runThrows]
      split <;> exact ⟨rfl, le_rfl⟩
  | relayThread =>
      rw [Engine.otherStep]
      split <;> exact ⟨rfl, le_rfl⟩
  | packets ok =>
      rw [Engine.otherStep, packetStep]
      split
      · split
        · exact ⟨rfl, le_rfl⟩
        · split <;> exact ⟨rfl, le_rfl⟩
      all_goals exact ⟨rfl, le_rfl⟩
  | dnsThread =>
      rw [Engine.otherStep]
      split
      · exact ⟨rfl, Nat.sub_le _ _⟩
      · exact ⟨rfl, le_rfl⟩
  | _ => exact ⟨rfl, le_rfl⟩

theorem DnsSound.otherStep (h : s.DnsSound setup) (event : EngineEvent) :
    (s.otherStep setup event).DnsSound setup := by
  obtain ⟨hsocket, hthreads⟩ := otherStep_dns setup s event
  constructor
  case up => rw [hsocket, main_otherStep]; exact h.up
  case down => rw [hsocket, main_otherStep]; exact h.down
  case threads =>
    rw [hsocket]
    intro hne
    exact h.threads fun hnone => hne (Nat.le_zero.1 (hthreads.trans_eq hnone))

/-- The thread that reads packets leaves an error behind before it ends. -/
theorem PacketSound.packetStep (h : s.PacketSound) (ok : Bool) :
    (s.packetStep ok).PacketSound := by
  rw [Engine.packetStep]
  split
  · rename_i hreading
    have hphase := h.thread (by rw [hreading]; decide) (by rw [hreading]; decide)
    split
    · exact ⟨h.handles, h.diverts, fun _ hended => absurd rfl hended,
        fun hended => (by cases hended), h.fatal⟩
    · split
      · exact h
      · exact ⟨h.handles, h.diverts, fun _ _ => hphase, fun hended => (by cases hended), h.fatal⟩
  · rename_i hfailing
    have hphase := h.thread (by rw [hfailing]; decide) (by rw [hfailing]; decide)
    exact ⟨h.handles, h.diverts, fun _ _ => hphase, fun _ => rfl, fun _ _ => rfl⟩
  · rename_i hfailed
    exact ⟨h.handles, h.diverts, fun _ hended => absurd rfl hended,
      fun hended => (by cases hended), fun _ _ => h.failed hfailed⟩
  · exact h

theorem PacketSound.otherStep (h : s.PacketSound) (event : EngineEvent) :
    (s.otherStep setup event).PacketSound := by
  have hself := (MainPhase.leads_self s.main).2.2
  cases event with
  | main ok => exact h
  | monitor =>
      rw [Engine.otherStep]
      split
      · exact h.congr rfl rfl rfl rfl rfl hself
      · exact h
  | runThrows =>
      rw [Engine.otherStep, Engine.runThrows]
      split
      · exact h
      · exact h.congr rfl rfl rfl rfl rfl hself
  | relayThread =>
      rw [Engine.otherStep]
      split
      · exact h.congr rfl rfl rfl rfl rfl hself
      · exact h
  | dnsThread =>
      rw [Engine.otherStep]
      split
      · exact h.congr rfl rfl rfl rfl rfl hself
      · exact h
  | packets ok => exact h.packetStep ok
  | _ => exact h.congr rfl rfl rfl rfl rfl hself

theorem VerdictSound.otherStep (h : s.VerdictSound setup) (event : EngineEvent) :
    (s.otherStep setup event).VerdictSound setup := by
  have hflags := flags_otherStep setup s event
  have hlasting : Lasting fun (result : Bool) (g : Flag → Bool) =>
      result = true → ∃ q ∈ setup.watched, g q = true := by
    intro result f g hfg hf hresult
    obtain ⟨q, hq, hup⟩ := hf hresult
    exact ⟨q, hq, up_of_le hfg hup⟩
  constructor
  case watch => rw [main_otherStep]; exact fun t ht => (h.watch t ht).mono hlasting hflags
  case judge => rw [main_otherStep]; exact fun t ht => (h.judge t ht).mono lasting_fair hflags
  case told =>
    rw [main_otherStep]
    exact fun code hcode => lasting_fair _ _ _ hflags (h.told code hcode)

theorem Sound.otherStep (h : s.Sound setup) (event : EngineEvent) :
    (s.otherStep setup event).Sound setup :=
  ⟨h.relay.otherStep event, h.dns.otherStep event, h.packets.otherStep event,
    h.verdict.otherStep event⟩

end Engine

end Lifecycle

end SplitHello
