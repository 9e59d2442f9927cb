import SplitHello.Dns.Proxy
import SplitHello.Library.Inquiry
import SplitHello.Socks.Sessions

/-!
# The life of the engine

`main` brings the listeners up before packets are diverted to them, watches all parts, and takes
the diversion down before the listeners. The thread of `main`, the one that serves the relay's
listener, the one that reads packets and the DNS threads go on in any order; every step of `main`
looks at one flag at most. When `main` is left the relay is destroyed, and its destructor stops it
once more.
-/

namespace SplitHello

namespace Lifecycle

open History Socks Inquiry

/-- What `main` looks at while other threads raise it. -/
inductive Flag
  | shutdown
  | relayExited
  | captureEnded
  | dnsStopped
  | workerLost
  | fatal
  deriving DecidableEq, Repr

/-- What is settled before the engine comes up. -/
structure Setup where
  monitorRequested : Bool
  monitorActive : Bool
  winsock : Bool
  configUnreadable : Bool
  workerMissing : Bool
  rulesInvalid : Bool
  manualProxy : Bool
  useWorkerDns : Bool
  dropsQuic : Bool
  maxConnections : ℕ
  deriving DecidableEq, Repr

/-- The exit code of an engine that does not come up at all. -/
def Setup.refusal (setup : Setup) : Option ℕ :=
  if setup.monitorRequested && !setup.monitorActive then some 15
  else if !setup.winsock then some 1
  else if setup.configUnreadable then some 16
  else if setup.workerMissing then some 14
  else if setup.rulesInvalid then some 13
  else none

/-- What ends the watch. -/
def Setup.watched (setup : Setup) : List Flag :=
  [.shutdown, .relayExited, .captureEnded] ++
    if setup.useWorkerDns then [.dnsStopped, .workerLost] else []

def failOpenExitCode : ℕ := 2

def workerUnavailableExitCode : ℕ := 3

/-- What is left to decide when `fatalWinDivertError` and `relayExitedUnexpectedly` are known. -/
def Setup.judge (setup : Setup) (fatal relayExitedUnexpectedly : Bool) : Inquiry Flag ℕ :=
  let last := done (if fatal || relayExitedUnexpectedly then failOpenExitCode else 0)
  let dns :=
    ask .shutdown last
      (if setup.useWorkerDns then ask .dnsStopped (done failOpenExitCode) last else last)
  ask .shutdown dns
    (if setup.useWorkerDns then ask .workerLost (done workerUnavailableExitCode) dns else dns)

/-- How `runtimeExitCode` comes about. -/
def Setup.verdict (setup : Setup) : Inquiry Flag ℕ :=
  let relay (fatal : Bool) :=
    ask .relayExited (ask .captureEnded (setup.judge fatal false) (setup.judge fatal true))
      (setup.judge fatal false)
  ask .fatal (relay true) (relay false)

/-- Where `main` is. A code that is not known yet is that of the relay's `run`. While the relay is
destroyed, `stop` says how far its second `stop` has come. -/
inductive MainPhase
  | manual (inquiry : Inquiry Flag Bool)
  | waiting (waited : ℕ)
  | waitingExited (waited : ℕ)
  | bound
  | startingDns
  | openingPackets
  | openingDrop
  | startingThread
  | signalling
  | watching (inquiry : Inquiry Flag Bool)
  | judging (inquiry : Inquiry Flag ℕ)
  | stoppingPackets (code : ℕ)
  | joiningPackets (code : ℕ)
  | stoppingDns (code : ℕ)
  | joiningDns (code : ℕ)
  | stoppingRelay (code : Option ℕ)
  | joiningRelay (code : Option ℕ)
  | destroying (code : ℕ) (stop : StopPhase)
  | returned (code : ℕ)
  deriving DecidableEq

/-- Where the thread that reads packets is: it stores the error before it clears `running_`. -/
inductive PacketPhase
  | absent
  | reading
  | failing
  | failed
  | ended
  deriving DecidableEq, Repr

structure Engine where
  main : MainPhase
  relay : Socks.Proxy
  shutdownRequested : Bool := false
  relayResult : Option Bool := none
  relayExited : Bool := false
  dnsSocket : Bool := false
  dnsRunning : Bool := false
  dnsThreads : ℕ := 0
  workerLost : Bool := false
  packetHandle : Bool := false
  quicDropHandle : Bool := false
  packetThread : PacketPhase := .absent
  capturing : Bool := false
  fatal : Bool := false
  ready : Bool := false

/-- `ok` is what the system says to a step. The relay's `stop` is called by `main` alone. -/
inductive EngineEvent
  | main (ok : Bool)
  | console
  | monitor
  | run (input : RunnerInput)
  | session (id : ℕ) (result : Result)
  | runThrows
  | relayThread
  | packets (ok : Bool)
  | dnsFails
  | dnsThread
  | workerLost
  deriving DecidableEq, Repr

namespace Engine

def flags (s : Engine) : Flag → Bool
  | .shutdown => s.shutdownRequested
  | .relayExited => s.relayExited
  | .captureEnded => !s.capturing
  | .dnsStopped => !s.dnsRunning
  | .workerLost => s.workerLost
  | .fatal => s.fatal

def start (setup : Setup) : Engine where
  main :=
    match setup.refusal with
    | some code => .returned code
    | none => if setup.manualProxy then .manual (anyOf [.shutdown, .relayExited]) else .waiting 0
  relay := Socks.Proxy.start setup.maxConnections

def enter (s : Engine) (main : MainPhase) : Engine := { s with main }

def closeHandles (s : Engine) : Engine :=
  { s with packetHandle := false, quicDropHandle := false }

/-- One step of `main`. -/
def mainStep (setup : Setup) (s : Engine) (ok : Bool) : Engine :=
  match s.main with
  | .manual (.done true) => s.enter (.stoppingRelay (some 0))
  | .manual (.done false) => s.enter (.manual (anyOf [.shutdown, .relayExited]))
  | .manual inquiry => s.enter (.manual (inquiry.turn s.flags))
  | .waiting waited => if s.relay.running then s.enter .bound else s.enter (.waitingExited waited)
  | .waitingExited waited =>
      if s.relayExited ∨ 2000 ≤ waited + 10 then s.enter .bound
      else s.enter (.waiting (waited + 10))
  | .bound => if s.relay.running then s.enter .startingDns else s.enter (.stoppingRelay none)
  | .startingDns =>
      if setup.useWorkerDns = false then s.enter .openingPackets
      else if ok then
        { s with
          dnsSocket := true
          dnsRunning := true
          dnsThreads := Dns.workerCount + 1
          main := .openingPackets }
      else s.enter (.stoppingRelay (some 11))
  | .openingPackets =>
      if ok then { s with packetHandle := true, main := .openingDrop }
      else s.enter (.stoppingDns 12)
  | .openingDrop =>
      if setup.dropsQuic = false then s.enter .startingThread
      else if ok then { s with quicDropHandle := true, main := .startingThread }
      else s.closeHandles.enter (.stoppingDns 12)
  | .startingThread =>
      if ok then { s with capturing := true, packetThread := .reading, main := .signalling }
      else s.closeHandles.enter (.stoppingDns 12)
  | .signalling => { s with ready := ok, main := .watching (anyOf setup.watched) }
  | .watching (.done true) => s.enter (.judging setup.verdict)
  | .watching (.done false) => s.enter (.watching (anyOf setup.watched))
  | .watching inquiry => s.enter (.watching (inquiry.turn s.flags))
  | .judging (.done code) => s.enter (.stoppingPackets code)
  | .judging inquiry => s.enter (.judging (inquiry.turn s.flags))
  | .stoppingPackets code => { s with capturing := false, main := .joiningPackets code }
  | .joiningPackets code =>
      if s.packetThread = .ended then s.closeHandles.enter (.stoppingDns code) else s
  | .stoppingDns code => { s with dnsRunning := false, main := .joiningDns code }
  | .joiningDns code =>
      if s.dnsThreads = 0 then { s with dnsSocket := false, main := .stoppingRelay (some code) }
      else s
  | .stoppingRelay code =>
      if s.relay.stopper = .returned then s.enter (.joiningRelay code)
      else { s with relay := s.relay.stopStep }
  | .joiningRelay code =>
      if s.relayExited then
        s.enter (.destroying (code.getD (if s.relayResult = some true then 0 else 10)) .idle)
      else s
  | .destroying code .returned => s.enter (.returned code)
  | .destroying code stop =>
      let relay := { s.relay with stopper := stop }.stopStep
      { s with
        relay := { relay with stopper := .returned }
        main := .destroying code relay.stopper }
  | .returned _ => s

/-- What `run` returns when its thread leaves it from here. -/
def runResult : RunnerPhase → Bool
  | .looping _ => true
  | .failed _ _ => true
  | _ => false

/-- One step of the thread in `run`, which has a result when it has returned. -/
def runStep (s : Engine) (input : RunnerInput) : Engine :=
  let relay := s.relay.runStep input
  { s with
    relay
    relayResult :=
      if relay.runner = .returned ∧ s.relay.runner ≠ .returned then some (runResult s.relay.runner)
      else s.relayResult }

/-- An exception leaves `run` and is caught behind it. -/
def runThrows (s : Engine) : Engine :=
  if s.relay.runner = .returned ∨ s.relay.runner = .checked then s
  else { s with relay := { s.relay with runner := .returned }, relayResult := some false }

def packetStep (s : Engine) (ok : Bool) : Engine :=
  match s.packetThread with
  | .reading =>
      if s.capturing = false then { s with packetThread := .ended }
      else if ok then s
      else { s with packetThread := .failing }
  | .failing => { s with fatal := true, packetThread := .failed }
  | .failed => { s with capturing := false, packetThread := .ended }
  | _ => s

/-- One step of another thread. -/
def otherStep (setup : Setup) (s : Engine) : EngineEvent → Engine
  | .main _ => s
  | .console => { s with shutdownRequested := true }
  | .monitor => if setup.monitorActive then { s with shutdownRequested := true } else s
  | .run input => s.runStep input
  | .session id result => { s with relay := s.relay.sessionStep id result }
  | .runThrows => s.runThrows
  | .relayThread => if s.relay.runner = .returned then { s with relayExited := true } else s
  | .packets ok => s.packetStep ok
  | .dnsFails => { s with dnsRunning := false }
  | .dnsThread =>
      if s.dnsRunning = false then { s with dnsThreads := s.dnsThreads - 1 } else s
  | .workerLost => { s with workerLost := true }

/-- When `main` has returned the process is gone. -/
def step (setup : Setup) (s : Engine) (event : EngineEvent) : Engine :=
  match s.main, event with
  | .returned _, _ => s
  | _, .main ok => s.mainStep setup ok
  | _, event => s.otherStep setup event

def run (setup : Setup) (events : List EngineEvent) : Engine :=
  History.run (step setup) (start setup) events

end Engine

/-! ## The verdict -/

section Verdict

variable (setup : Setup)

/-- A thread that has ended its reading without being told to has left an error behind. -/
def Explained (f : Flag → Bool) : Prop := f .captureEnded = true → f .fatal = true

/-- What an exit code says is so. Nothing went wrong and nobody asked for it only if the relay
and the capture failed at once. -/
structure Fair (code : ℕ) (f : Flag → Bool) : Prop where
  known : code = 0 ∨ code = failOpenExitCode ∨ code = workerUnavailableExitCode
  lost : code = workerUnavailableExitCode → setup.useWorkerDns = true ∧ f .workerLost = true
  failed : code = failOpenExitCode →
    f .fatal = true ∨ f .relayExited = true ∨ setup.useWorkerDns = true ∧ f .dnsStopped = true
  clean : code = 0 → f .shutdown = true ∨ f .relayExited = true ∧ f .fatal = true

/-- There is another reason than the relay alone or the capture. -/
def Excused (f : Flag → Bool) : Prop :=
  f .shutdown = true ∨ setup.useWorkerDns = true ∧ (f .dnsStopped = true ∨ f .workerLost = true) ∨
    f .relayExited = true ∧ f .fatal = true

variable {setup} {f g : Flag → Bool}

theorem Excused.mono (h : Excused setup f) (hfg : f ≤ g) : Excused setup g := by
  rcases h with h | ⟨hdns, h | h⟩ | ⟨hrelay, hfatal⟩
  · exact Or.inl (up_of_le hfg h)
  · exact Or.inr (Or.inl ⟨hdns, Or.inl (up_of_le hfg h)⟩)
  · exact Or.inr (Or.inl ⟨hdns, Or.inr (up_of_le hfg h)⟩)
  · exact Or.inr (Or.inr ⟨up_of_le hfg hrelay, up_of_le hfg hfatal⟩)

theorem lasting_fair : Lasting (Fair setup) := by
  intro code f g hfg h
  refine ⟨h.known, fun hcode => ?_, fun hcode => ?_, fun hcode => ?_⟩
  · exact ⟨(h.lost hcode).1, up_of_le hfg (h.lost hcode).2⟩
  · rcases h.failed hcode with h | h | ⟨hdns, h⟩
    · exact Or.inl (up_of_le hfg h)
    · exact Or.inr (Or.inl (up_of_le hfg h))
    · exact Or.inr (Or.inr ⟨hdns, up_of_le hfg h⟩)
  · rcases h.clean hcode with h | ⟨hrelay, hfatal⟩
    · exact Or.inl (up_of_le hfg h)
    · exact Or.inr ⟨up_of_le hfg hrelay, up_of_le hfg hfatal⟩

theorem fair_lost (hdns : setup.useWorkerDns = true) (h : f .workerLost = true) :
    Fair setup workerUnavailableExitCode f :=
  ⟨Or.inr (Or.inr rfl), fun _ => ⟨hdns, h⟩, nofun, nofun⟩

theorem fair_failed (h : f .fatal = true ∨ f .relayExited = true ∨
    setup.useWorkerDns = true ∧ f .dnsStopped = true) : Fair setup failOpenExitCode f :=
  ⟨Or.inr (Or.inl rfl), nofun, fun _ => h, nofun⟩

theorem fair_clean (h : f .shutdown = true ∨ f .relayExited = true ∧ f .fatal = true) :
    Fair setup 0 f :=
  ⟨Or.inl rfl, nofun, nofun, fun _ => h⟩

/-- The code when neither the Worker nor the DNS receivers gave it. -/
theorem fair_last {fatal relay : Bool} (hfatal : fatal = true → f .fatal = true)
    (hrelay : relay = true → f .relayExited = true)
    (hclean : fatal = false → relay = false →
      f .shutdown = true ∨ f .relayExited = true ∧ f .fatal = true) :
    Fair setup (if fatal || relay then failOpenExitCode else 0) f := by
  cases fatal with
  | true => exact fair_failed (Or.inl (hfatal rfl))
  | false =>
      cases relay with
      | true => exact fair_failed (Or.inr (Or.inl (hrelay rfl)))
      | false => exact fair_clean (hclean rfl rfl)

theorem judge_fair {fatal relay : Bool} (hfatal : fatal = true → f .fatal = true)
    (hrelay : relay = true → f .relayExited = true)
    (hexcused : fatal = false → relay = false → Excused setup f) :
    (setup.judge fatal relay).Ends Explained (Fair setup) f := by
  -- the last code, when the flags that were read as down rule the other reasons out
  have hlast (g : Flag → Bool) (hfg : f ≤ g)
      (hclean : Excused setup f → g .shutdown = true ∨ g .relayExited = true ∧ g .fatal = true) :
      Fair setup (if fatal || relay then failOpenExitCode else 0) g :=
    fair_last (fun h => up_of_le hfg (hfatal h)) (fun h => up_of_le hfg (hrelay h))
      fun hno hno' => hclean (hexcused hno hno')
  have hboth (g : Flag → Bool) (hfg : f ≤ g) (h : f .relayExited = true ∧ f .fatal = true) :
      g .shutdown = true ∨ g .relayExited = true ∧ g .fatal = true :=
    Or.inr ⟨up_of_le hfg h.1, up_of_le hfg h.2⟩
  rw [Setup.judge]
  cases hdns : setup.useWorkerDns with
  | false =>
      have hexcuse : Excused setup f → f .shutdown = true ∨
          f .relayExited = true ∧ f .fatal = true := by
        rintro (h | ⟨h, -⟩ | h)
        · exact Or.inl h
        · rw [hdns] at h
          cases h
        · exact Or.inr h
      have hdone (g : Flag → Bool) (hfg : f ≤ g) :
          Fair setup (if fatal || relay then failOpenExitCode else 0) g :=
        hlast g hfg fun h => (hexcuse h).elim (fun h => Or.inl (up_of_le hfg h)) (hboth g hfg)
      simp only [Bool.false_eq_true, if_false]
      refine ends_ask (fun g hfg _ _ => ?_) fun g hfg _ _ => ?_
      · exact ends_ask (fun g' hg' _ _ => hdone g' (hfg.trans hg'))
          fun g' hg' _ _ => hdone g' (hfg.trans hg')
      · exact ends_ask (fun g' hg' _ _ => hdone g' (hfg.trans hg'))
          fun g' hg' _ _ => hdone g' (hfg.trans hg')
  | true =>
      simp only [if_true]
      -- what remains behind the question for the Worker
      have hrest (g : Flag → Bool) (hfg : f ≤ g)
          (hworker : g .shutdown = true ∨ f .workerLost = false) :
          (ask .shutdown (done (if fatal || relay then failOpenExitCode else 0))
            (ask .dnsStopped (done failOpenExitCode)
              (done (if fatal || relay then failOpenExitCode else 0)))).Ends Explained
            (Fair setup) g := by
        refine ends_ask (fun g' hg' _ hup => hlast g' (hfg.trans hg') fun _ => Or.inl hup)
          fun g' hg' _ hdown => ?_
        refine ends_ask (fun g'' hg'' _ hup => fair_failed (Or.inr (Or.inr ⟨hdns, hup⟩)))
          fun g'' hg'' _ hdown' => hlast g'' (hfg.trans (hg'.trans hg'')) ?_
        have hfg' := hfg.trans hg'
        have hfg'' := hfg'.trans hg''
        rintro (h | ⟨-, h | h⟩ | h)
        · rw [up_of_le hfg' h] at hdown
          cases hdown
        · rw [up_of_le hfg'' h] at hdown'
          cases hdown'
        · rcases hworker with hup | hnot
          · rw [up_of_le hg' hup] at hdown
            cases hdown
          · rw [hnot] at h
            cases h
        · exact hboth g'' hfg'' h
      refine ends_ask (fun g hfg _ hup => hrest g hfg (Or.inl hup)) fun g hfg _ _ => ?_
      refine ends_ask (fun g' hg' _ hup => fair_lost hdns hup) fun g' hg' _ hdown =>
        hrest g' (hfg.trans hg') (Or.inr (down_of_le (hfg.trans hg') hdown))

/-- Whatever happens while the verdict is found, it is fair. -/
theorem verdict_fair (hA : Explained f) (h : ∃ q ∈ setup.watched, f q = true) :
    setup.verdict.Ends Explained (Fair setup) f := by
  have hreason : f .shutdown = true ∨ f .relayExited = true ∨ f .captureEnded = true ∨
      setup.useWorkerDns = true ∧ (f .dnsStopped = true ∨ f .workerLost = true) := by
    obtain ⟨q, hq, hup⟩ := h
    rw [Setup.watched, List.mem_append] at hq
    rcases hq with hq | hq
    · simp only [List.mem_cons, List.not_mem_nil, or_false] at hq
      rcases hq with rfl | rfl | rfl
      · exact Or.inl hup
      · exact Or.inr (Or.inl hup)
      · exact Or.inr (Or.inr (Or.inl hup))
    · split at hq
      · simp only [List.mem_cons, List.not_mem_nil, or_false] at hq
        rcases hq with rfl | rfl
        · exact Or.inr (Or.inr (Or.inr ⟨‹_›, Or.inl hup⟩))
        · exact Or.inr (Or.inr (Or.inr ⟨‹_›, Or.inr hup⟩))
      · cases hq
  refine ends_ask (fun g hfg _ hfatal => ?_) fun g hfg _ hfatal => ?_
  · refine ends_ask (fun g' hg' _ hrelay => ?_) fun g' hg' _ _ => ?_
    · have hup (g'' : Flag → Bool) (hg'' : g' ≤ g'') := up_of_le (hg'.trans hg'') hfatal
      refine ends_ask (fun g'' hg'' _ _ => ?_) fun g'' hg'' _ _ => ?_
      · exact judge_fair (fun _ => hup g'' hg'') nofun nofun
      · exact judge_fair (fun _ => hup g'' hg'') (fun _ => up_of_le hg'' hrelay) nofun
    · exact judge_fair (fun _ => up_of_le hg' hfatal) nofun nofun
  · refine ends_ask (fun g' hg' _ hrelay => ?_) fun g' hg' _ hrelay => ?_
    · refine ends_ask (fun g'' hg'' hA'' hcapture => ?_) fun g'' hg'' _ _ => ?_
      · exact judge_fair nofun nofun fun _ _ =>
          Or.inr (Or.inr ⟨up_of_le hg'' hrelay, hA'' hcapture⟩)
      · exact judge_fair nofun (fun _ => up_of_le hg'' hrelay) nofun
    · have hnone := down_of_le (hfg.trans hg') hrelay
      refine judge_fair nofun nofun fun _ _ => Excused.mono ?_ (hfg.trans hg')
      rcases hreason with h | h | h | h
      · exact Or.inl h
      · rw [hnone] at h
        cases h
      · have hexplained := hA h
        rw [down_of_le hfg hfatal] at hexplained
        cases hexplained
      · exact Or.inr (Or.inl h)

end Verdict

end Lifecycle

end SplitHello
