import SplitHello.Config
import SplitHello.Library.History
import SplitHello.Recovery

/-!
# The tray's supervision of the engine

The tray starts the engine as a process of its own, watches it by a timer and brings it up
again when it has failed. Everything runs on one thread: an event is a message of the window,
and with it comes what the system says while the message is handled. All readings of the
clock during one event give the same time.

`trace` notes what the supervision is about: what the user asked for, what the restart budget
granted and which engines were launched.
-/

namespace SplitHello

namespace Tray

open History Recovery

inductive EngineState
  | stopped
  | starting
  | running
  | stopping
  | failed
  deriving DecidableEq, Repr

inductive Effect
  | userStart
  | setupCompleted
  /-- A start that is not automatic. It resets the budget. -/
  | started
  | granted (attempt : ℕ)
  | launched (automatic : Bool)
  deriving DecidableEq, Repr

/-- How far the launch of the engine gets. -/
inductive Launch
  | noPath
  | noEvents
  | noProcess
  | ok
  deriving DecidableEq, Repr

/-- What `load` has made of the configuration file. -/
structure Loaded where
  config : Config := {}
  loadFailed : Bool := false
  deriving DecidableEq, Repr

def isValid (config : Config) : Bool := config.dnsMode = .system || config.workerUrl ≠ []

/-- What a tick of the timer finds. `exitedEarly` is the look at the process that decides
whether it hangs, `exited` the later one. -/
structure Poll where
  setupExited : Option UInt32 := none
  loaded : Loaded := {}
  saves : Bool := true
  setupLaunch : Launch := .ok
  ready : Bool := false
  exitedEarly : Bool := false
  exited : Option UInt32 := none
  launch : Launch := .ok
  deriving DecidableEq, Repr

inductive TrayEvent
  | start (launch : Launch)
  | stop
  | exit
  | setup (creates : Bool)
  | dnsMode (mode : DnsMode) (loaded : Loaded) (saves : Bool) (creates : Bool) (launch : Launch)
  | configuration (launch : Launch)
  | poll (poll : Poll)
  deriving DecidableEq, Repr

end Tray

open Tray in
structure TrayApp where
  canStart : Bool
  exiting : Bool := false
  restartPending : Bool := false
  configurationRestartPending : Bool := false
  engineKilled : Bool := false
  restartAtMs : UInt64 := 0
  stateSinceMs : UInt64 := 0
  restartBudget : Recovery.RestartBudget :=
    .create Recovery.maxAutomaticRestarts Recovery.restartWindowMs
  state : EngineState := .stopped
  window : Bool := true
  engineProcess : Bool := false
  shutdownEvent : Bool := false
  readyEvent : Bool := false
  setupProcess : Bool := false
  setupWantsWorker : Bool := false
  trace : List Effect := []
  deriving DecidableEq, Repr

namespace TrayApp

open Tray History Recovery

def engineTransitionTimeoutMs : UInt64 := 10000

/-- The exit codes of an engine that no restart helps. -/
def needsUserAction (code : UInt32) : Bool :=
  code = 12 || code = 13 || code = 14 || code = 16 || code = 0xC0000135

def note (s : TrayApp) (effect : Effect) : TrayApp := { s with trace := s.trace ++ [effect] }

def setState (s : TrayApp) (state : EngineState) (nowMs : UInt64) : TrayApp :=
  { s with
    stateSinceMs := if s.state ≠ state then nowMs else s.stateSinceMs
    state }

def closeEngineHandles (s : TrayApp) : TrayApp :=
  { s with engineProcess := false, shutdownEvent := false, readyEvent := false
           engineKilled := false }

def cancelRestart (s : TrayApp) : TrayApp := { s with restartPending := false, restartAtMs := 0 }

def startEngine (s : TrayApp) (automatic : Bool) (launch : Launch) (nowMs : UInt64) : TrayApp :=
  if s.canStart = false ∨ s.engineProcess then s
  else
    let s := { s.cancelRestart with engineKilled := false }
    let s :=
      if automatic then s else { s with restartBudget := s.restartBudget.reset }.note .started
    match launch with
    | .noPath => s.setState .failed nowMs
    | .noEvents => s.closeEngineHandles.setState .failed nowMs
    | .noProcess => s.closeEngineHandles.setState .failed nowMs
    | .ok =>
        ({ s with engineProcess := true, shutdownEvent := true, readyEvent := true }.note
          (.launched automatic)).setState .starting nowMs

def requestStop (s : TrayApp) (nowMs : UInt64) : TrayApp :=
  if s.restartPending then s.cancelRestart.setState .stopped nowMs
  else if s.engineProcess = false then s
  else if s.state ≠ .stopping then s.setState .stopping nowMs
  else s

/-- The window is destroyed at once if there is no engine to wait for. -/
def requestExit (s : TrayApp) (nowMs : UInt64) : TrayApp :=
  let s := { s.cancelRestart with exiting := true, configurationRestartPending := false }
  if s.engineProcess then s.requestStop nowMs else { s with window := false }

def launchSetup (s : TrayApp) (wantWorkerMode creates : Bool) : TrayApp :=
  if s.setupProcess then s
  else if creates then { s with setupProcess := true, setupWantsWorker := wantWorkerMode }
  else s

def restartEngineForConfiguration (s : TrayApp) (launch : Launch) (nowMs : UInt64) : TrayApp :=
  if s.exiting ∨ s.canStart = false then s
  else
    match s.state with
    | .stopped => s
    | .stopping => s
    | .starting => { s.cancelRestart with configurationRestartPending := true }.requestStop nowMs
    | .running => { s.cancelRestart with configurationRestartPending := true }.requestStop nowMs
    | .failed =>
        let s := s.cancelRestart
        if s.engineProcess then s else s.startEngine false launch nowMs

/-- `Config` with the mode that setup was run for, if it can be saved. -/
def adoptMode (wantsWorker : Bool) (config : Config) (saves : Bool) : Option Config :=
  if wantsWorker && config.dnsMode ≠ .worker then
    if saves then some { config with dnsMode := .worker } else none
  else some config

def pollSetup (s : TrayApp) (poll : Poll) (nowMs : UInt64) : TrayApp :=
  if s.setupProcess = false then s
  else
    match poll.setupExited with
    | none => s
    | some exitCode =>
        let s := { s with setupProcess := false }
        if s.exiting then s
        else if exitCode ≠ 0 ∨ poll.loaded.loadFailed ∨ poll.loaded.config.workerUrl = [] then s
        else
          match adoptMode s.setupWantsWorker poll.loaded.config poll.saves with
          | none => s
          | some config =>
              let s := { s with canStart := isValid config }.note .setupCompleted
              if s.canStart = false then s
              else if s.engineProcess = false ∧ (s.state = .stopped ∨ s.state = .failed) then
                s.startEngine false poll.setupLaunch nowMs
              else s.restartEngineForConfiguration poll.setupLaunch nowMs

def scheduleAutomaticRestart (s : TrayApp) (nowMs : UInt64) : TrayApp :=
  let s := s.setState .failed nowMs
  let (restartBudget, attempt) := s.restartBudget.consume nowMs
  let s := { s with restartBudget }
  if attempt = 0 then s
  else
    { s with
      restartPending := true
      restartAtMs := nowMs + automaticRestartDelayMs attempt }.note (.granted attempt)

def handleEngineExit (s : TrayApp) (exitCode : UInt32) (launch : Launch) (nowMs : UInt64) :
    TrayApp :=
  let expected : Bool := s.state = .stopping || s.exiting
  let s := s.closeEngineHandles
  if s.exiting then { s with window := false }
  else if expected then
    if s.configurationRestartPending then
      ({ s with configurationRestartPending := false }.setState .stopped nowMs).startEngine false
        launch nowMs
    else s.setState .stopped nowMs
  else if exitCode = workerUnavailableExitCode then s.cancelRestart.setState .failed nowMs
  else if needsUserAction exitCode then s.cancelRestart.setState .failed nowMs
  else s.scheduleAutomaticRestart nowMs

/-- The part of a tick that is about a running engine. -/
def pollProcess (s : TrayApp) (poll : Poll) (nowMs : UInt64) : TrayApp :=
  let s := if s.state = .starting ∧ s.readyEvent ∧ poll.ready then s.setState .running nowMs else s
  let s :=
    if s.engineKilled = false ∧ (s.state = .starting ∨ s.state = .stopping) ∧
        engineTransitionTimeoutMs ≤ nowMs - s.stateSinceMs ∧ poll.exitedEarly = false then
      { s with engineKilled := true }
    else s
  match poll.exited with
  | none => s
  | some exitCode => s.handleEngineExit exitCode poll.launch nowMs

def pollEngine (s : TrayApp) (poll : Poll) (nowMs : UInt64) : TrayApp :=
  let s := s.pollSetup poll nowMs
  if s.engineProcess = false then
    if s.restartPending ∧ s.restartAtMs ≤ nowMs then s.startEngine true poll.launch nowMs else s
  else s.pollProcess poll nowMs

def setDnsMode (s : TrayApp) (mode : DnsMode) (loaded : Loaded) (saves creates : Bool)
    (launch : Launch) (nowMs : UInt64) : TrayApp :=
  if loaded.loadFailed then s
  else if loaded.config.dnsMode = mode then s
  else if mode = .worker ∧ loaded.config.workerUrl = [] then s.launchSetup true creates
  else if saves = false then s
  else
    { s with canStart := isValid { loaded.config with dnsMode := mode }
      }.restartEngineForConfiguration launch nowMs

/-- The start of `run`. -/
def runBegin (canStart creates : Bool) (launch : Launch) (nowMs : UInt64) : TrayApp :=
  if canStart then { canStart : TrayApp }.startEngine false launch nowMs
  else { canStart : TrayApp }.launchSetup true creates

/-- A window that is destroyed gets no more messages. -/
def step (s : TrayApp) (event : UInt64 × TrayEvent) : TrayApp :=
  if s.window = false then s
  else
    match event.2 with
    | .start launch => (s.note .userStart).startEngine false launch event.1
    | .stop => { s with configurationRestartPending := false }.requestStop event.1
    | .exit => s.requestExit event.1
    | .setup creates => s.launchSetup true creates
    | .dnsMode mode loaded saves creates launch =>
        s.setDnsMode mode loaded saves creates launch event.1
    | .configuration launch => s.restartEngineForConfiguration launch event.1
    | .poll poll => s.pollEngine poll event.1

end TrayApp

end SplitHello
