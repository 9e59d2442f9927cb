import SplitHello.Tray.Supervisor

/-!
# Runs of the tray

Which of the flags can stand together, and what an engine is launched for: after a stop it is
the user who brings protection back, and a restart that nobody asked for has been granted by
the budget.
-/

namespace SplitHello

namespace TrayApp

open Tray History Recovery

/-! ## What holds while the window exists -/

/-- The budget has granted an attempt. -/
def Granted (effect : Effect) : Prop := ∃ attempt, attempt ≠ 0 ∧ effect = .granted attempt

/-- A granted attempt is used up, or lost to a start that is not automatic. -/
def Spent (effect : Effect) : Prop := effect = .launched true ∨ effect = .started

structure Supervised (s : TrayApp) : Prop where
  process : s.engineProcess = true ↔
    s.state = .starting ∨ s.state = .running ∨ s.state = .stopping
  pending : s.restartPending = true → s.state = .failed
  configuration : s.configurationRestartPending = true → s.state = .stopping
  granted : s.restartPending = true → Since Granted Spent s.trace
  launches : Before (fun effect => effect = .launched true) (Since Granted Spent) s.trace

variable {s : TrayApp}

theorem Supervised.process_of_pending (hs : s.Supervised) (hpending : s.restartPending = true) :
    s.engineProcess = false := by
  have hstate := hs.pending hpending
  have hprocess := hs.process
  rw [hstate] at hprocess
  simpa using hprocess

theorem Supervised.configuration_of_process (hs : s.Supervised)
    (hprocess : s.engineProcess = false) : s.configurationRestartPending = false := by
  by_contra hpending
  have hstate := hs.configuration (by simpa using hpending)
  rw [hs.process.2 (Or.inr (Or.inr hstate))] at hprocess
  cases hprocess

/-- Nothing is left pending. -/
theorem supervised_of_settled
    (hprocess : s.engineProcess = true ↔
      s.state = .starting ∨ s.state = .running ∨ s.state = .stopping)
    (hpending : s.restartPending = false)
    (hconfiguration : s.configurationRestartPending = true → s.state = .stopping)
    (hlaunches : Before (fun effect => effect = .launched true) (Since Granted Spent) s.trace) :
    s.Supervised := by
  refine ⟨hprocess, ?_, hconfiguration, ?_, hlaunches⟩
  · rw [hpending]
    exact fun h => by cases h
  · rw [hpending]
    exact fun h => by cases h

/-- The state after an event that leaves the engine and the trace alone. -/
theorem Supervised.congr (hs : s.Supervised) {s' : TrayApp}
    (hprocess : s'.engineProcess = s.engineProcess) (hstate : s'.state = s.state)
    (hpending : s'.restartPending = s.restartPending)
    (hconfiguration : s'.configurationRestartPending = s.configurationRestartPending)
    (htrace : s'.trace = s.trace) : s'.Supervised := by
  refine ⟨?_, ?_, ?_, ?_, ?_⟩
  · rw [hprocess, hstate]
    exact hs.process
  · rw [hpending, hstate]
    exact hs.pending
  · rw [hconfiguration, hstate]
    exact hs.configuration
  · rw [hpending, htrace]
    exact hs.granted
  · rw [htrace]
    exact hs.launches

theorem Supervised.note (hs : s.Supervised) {effect : Effect} (hlaunch : effect ≠ .launched true)
    (hspent : ¬ Spent effect) : (s.note effect).Supervised :=
  ⟨hs.process, hs.pending, hs.configuration, fun hpending => (hs.granted hpending).later hspent,
    hs.launches.concat fun h => absurd h hlaunch⟩

theorem Supervised.startEngine (hs : s.Supervised) (automatic : Bool)
    (hautomatic : automatic = true → s.restartPending = true) (launch : Launch)
    (nowMs : UInt64) : (s.startEngine automatic launch nowMs).Supervised := by
  unfold TrayApp.startEngine
  split
  · exact hs
  · rename_i hguard
    have hfree : s.engineProcess = false := by
      rw [not_or] at hguard
      simpa using hguard.2
    have hconfiguration := hs.configuration_of_process hfree
    have hstarted : Before (fun effect => effect = .launched true) (Since Granted Spent)
        (s.trace ++ [.started]) := hs.launches.concat fun h => by cases h
    cases automatic with
    | false =>
        cases launch with
        | ok =>
            refine supervised_of_settled ?_ rfl ?_ (hstarted.concat fun h => by cases h)
            · simp [setState, TrayApp.note]
            · simp [setState, TrayApp.note, cancelRestart, hconfiguration]
        | _ =>
            refine supervised_of_settled ?_ rfl ?_ hstarted
            · simp [setState, TrayApp.note, closeEngineHandles, cancelRestart, hfree]
            · simp [setState, TrayApp.note, closeEngineHandles, cancelRestart, hconfiguration]
    | true =>
        cases launch with
        | ok =>
            refine supervised_of_settled ?_ rfl ?_
              (hs.launches.concat fun _ => hs.granted (hautomatic rfl))
            · simp [setState, TrayApp.note]
            · simp [setState, TrayApp.note, cancelRestart, hconfiguration]
        | _ =>
            refine supervised_of_settled ?_ rfl ?_ hs.launches
            · simp [setState, closeEngineHandles, cancelRestart, hfree]
            · simp [setState, closeEngineHandles, cancelRestart, hconfiguration]

theorem Supervised.requestStop (hs : s.Supervised) (nowMs : UInt64) :
    (s.requestStop nowMs).Supervised := by
  unfold TrayApp.requestStop
  split
  · rename_i hpending
    have hfree := hs.process_of_pending hpending
    have hconfiguration := hs.configuration_of_process hfree
    refine supervised_of_settled ?_ rfl ?_ hs.launches
    · simp [setState, cancelRestart, hfree]
    · simp [setState, cancelRestart, hconfiguration]
  · rename_i hpending
    split
    · exact hs
    · rename_i hprocess
      split
      · refine supervised_of_settled ?_ ?_ (fun _ => rfl) hs.launches
        · simpa [setState] using hprocess
        · simpa [setState] using hpending
      · exact hs

theorem Supervised.restartEngineForConfiguration (hs : s.Supervised) (launch : Launch)
    (nowMs : UInt64) : (s.restartEngineForConfiguration launch nowMs).Supervised := by
  -- An engine that runs is stopped; the pending restart is what its exit will find.
  have hstop (hstate : s.state = .starting ∨ s.state = .running) :
      ({ s.cancelRestart with
        configurationRestartPending := true }.requestStop nowMs).Supervised := by
    have hprocess : s.engineProcess = true := hs.process.2 (by tauto)
    have hne : s.state ≠ .stopping := by
      rcases hstate with h | h <;> simp [h]
    refine supervised_of_settled ?_ ?_ ?_ ?_
    all_goals simp [TrayApp.requestStop, cancelRestart, setState, hprocess, hne, hs.launches]
  unfold TrayApp.restartEngineForConfiguration
  split
  · exact hs
  · cases hstate : s.state with
    | stopped => exact hs
    | stopping => exact hs
    | starting => exact hstop (Or.inl hstate)
    | running => exact hstop (Or.inr hstate)
    | failed =>
        have hfree : s.engineProcess = false := by
          have hprocess := hs.process
          rw [hstate] at hprocess
          simpa using hprocess
        have hcancelled : s.cancelRestart.Supervised := by
          refine supervised_of_settled hs.process rfl hs.configuration hs.launches
        dsimp only
        split
        · exact hcancelled
        · exact hcancelled.startEngine false (fun h => by cases h) launch nowMs

theorem Supervised.launchSetup (hs : s.Supervised) (wantWorkerMode creates : Bool) :
    (s.launchSetup wantWorkerMode creates).Supervised := by
  unfold TrayApp.launchSetup
  split
  · exact hs
  · split
    · exact hs.congr rfl rfl rfl rfl rfl
    · exact hs

theorem Supervised.setDnsMode (hs : s.Supervised) (mode : DnsMode) (loaded : Loaded)
    (saves creates : Bool) (launch : Launch) (nowMs : UInt64) :
    (s.setDnsMode mode loaded saves creates launch nowMs).Supervised := by
  have hvalid (canStart : Bool) : ({ s with canStart } : TrayApp).Supervised :=
    hs.congr rfl rfl rfl rfl rfl
  unfold TrayApp.setDnsMode
  split
  · exact hs
  · split
    · exact hs
    · split
      · exact hs.launchSetup true creates
      · split
        · exact hs
        · exact (hvalid _).restartEngineForConfiguration launch nowMs

theorem Supervised.pollSetup (hs : s.Supervised) (poll : Poll) (nowMs : UInt64) :
    (s.pollSetup poll nowMs).Supervised := by
  have hclosed : ({ s with setupProcess := false } : TrayApp).Supervised :=
    hs.congr rfl rfl rfl rfl rfl
  have hvalid (canStart : Bool) :
      ({ s with setupProcess := false, canStart } : TrayApp).Supervised :=
    hs.congr rfl rfl rfl rfl rfl
  unfold TrayApp.pollSetup
  split
  · exact hs
  · cases poll.setupExited with
    | none => exact hs
    | some exitCode =>
        dsimp only
        split
        · exact hclosed
        · split
          · exact hclosed
          · cases adoptMode s.setupWantsWorker poll.loaded.config poll.saves with
            | none => exact hclosed
            | some config =>
                have hnoted : ({ s with
                    setupProcess := false
                    canStart := isValid config }.note .setupCompleted).Supervised :=
                  (hvalid _).note (by simp) (by simp [Spent])
                dsimp only
                split
                · exact hnoted
                · split
                  · exact hnoted.startEngine false (fun h => by cases h) _ nowMs
                  · exact hnoted.restartEngineForConfiguration _ nowMs

theorem Supervised.scheduleAutomaticRestart
    (hfree : s.engineProcess = false) (hpending : s.restartPending = false)
    (hconfiguration : s.configurationRestartPending = false)
    (hlaunches : Before (fun effect => effect = .launched true) (Since Granted Spent) s.trace)
    (nowMs : UInt64) : (s.scheduleAutomaticRestart nowMs).Supervised := by
  unfold TrayApp.scheduleAutomaticRestart
  dsimp only
  split
  · refine supervised_of_settled ?_ hpending ?_ hlaunches
    · simp [setState, hfree]
    · simp [setState, hconfiguration]
  · rename_i hattempt
    refine ⟨?_, fun _ => rfl, ?_, fun _ => ?_, hlaunches.concat fun h => by cases h⟩
    · simp [setState, TrayApp.note, hfree]
    · simp [setState, TrayApp.note, hconfiguration]
    · exact Since.here _ ⟨_, hattempt, rfl⟩

/-- What is left of it when the window goes. -/
def Watched (s : TrayApp) : Prop :=
  (s.window = true → s.Supervised) ∧
    Before (fun effect => effect = .launched true) (Since Granted Spent) s.trace

theorem Supervised.watched (hs : s.Supervised) : s.Watched := ⟨fun _ => hs, hs.launches⟩

theorem Supervised.handleEngineExit (hs : s.Supervised) (exitCode : UInt32) (launch : Launch)
    (nowMs : UInt64) (hprocess : s.engineProcess = true) :
    (s.handleEngineExit exitCode launch nowMs).Watched := by
  have hpending : s.restartPending = false := by
    by_contra hpending
    rw [hs.process_of_pending (by simpa using hpending)] at hprocess
    cases hprocess
  have hfailed (hconfiguration : s.configurationRestartPending = false) :
      (s.closeEngineHandles.cancelRestart.setState .failed nowMs).Supervised := by
    refine supervised_of_settled ?_ rfl ?_ hs.launches
    · simp [setState, cancelRestart, closeEngineHandles]
    · simp [setState, cancelRestart, closeEngineHandles, hconfiguration]
  have hstopped (pending : Bool) (hconfiguration : pending = false) :
      ({ s.closeEngineHandles with configurationRestartPending := pending }.setState .stopped
        nowMs).Supervised := by
    refine supervised_of_settled ?_ hpending ?_ hs.launches
    · simp [setState, closeEngineHandles]
    · simp [setState, closeEngineHandles, hconfiguration]
  unfold TrayApp.handleEngineExit
  dsimp only
  split
  · exact ⟨(by cases ·), hs.launches⟩
  · refine Supervised.watched ?_
    split
    · split
      · exact (hstopped false rfl).startEngine false (fun h => by cases h) launch nowMs
      · rename_i hconfiguration
        exact hstopped _ (by simpa [closeEngineHandles] using hconfiguration)
    · rename_i hexpected
      have hconfiguration : s.configurationRestartPending = false := by
        by_contra hconfiguration
        have hstate := hs.configuration (by simpa using hconfiguration)
        exact hexpected (by simp [hstate])
      split
      · exact hfailed hconfiguration
      · split
        · exact hfailed hconfiguration
        · exact Supervised.scheduleAutomaticRestart (s := s.closeEngineHandles) rfl hpending
            hconfiguration hs.launches nowMs

theorem Supervised.pollProcess (hs : s.Supervised) (poll : Poll) (nowMs : UInt64)
    (hprocess : s.engineProcess = true) : (s.pollProcess poll nowMs).Watched := by
  have hready : (if s.state = .starting ∧ s.readyEvent ∧ poll.ready then s.setState .running nowMs
      else s).Supervised ∧ (if s.state = .starting ∧ s.readyEvent ∧ poll.ready then
        s.setState .running nowMs else s).engineProcess = true := by
    split
    · rename_i hstate
      refine ⟨⟨?_, fun hpending => ?_, fun hpending => ?_, hs.granted, hs.launches⟩, hprocess⟩
      · simpa [setState] using hprocess
      · rw [hs.pending hpending] at hstate
        cases hstate.1
      · rw [hs.configuration hpending] at hstate
        cases hstate.1
    · exact ⟨hs, hprocess⟩
  unfold TrayApp.pollProcess
  generalize (if s.state = .starting ∧ s.readyEvent ∧ poll.ready then s.setState .running nowMs
      else s) = t at hready ⊢
  obtain ⟨ht, hprocess⟩ := hready
  have hkilled : ({ t with engineKilled := true } : TrayApp).Supervised :=
    ht.congr rfl rfl rfl rfl rfl
  cases hexited : poll.exited with
  | none =>
      dsimp only
      split
      · exact hkilled.watched
      · exact ht.watched
  | some exitCode =>
      dsimp only
      split
      · exact hkilled.handleEngineExit exitCode poll.launch nowMs hprocess
      · exact ht.handleEngineExit exitCode poll.launch nowMs hprocess

theorem Supervised.pollEngine (hs : s.Supervised) (poll : Poll) (nowMs : UInt64) :
    (s.pollEngine poll nowMs).Watched := by
  have hsetup := hs.pollSetup poll nowMs
  unfold TrayApp.pollEngine
  generalize s.pollSetup poll nowMs = t at hsetup ⊢
  dsimp only
  split
  · split
    · rename_i hdue
      exact (hsetup.startEngine true (fun _ => hdue.1) poll.launch nowMs).watched
    · exact hsetup.watched
  · rename_i hprocess
    exact hsetup.pollProcess poll nowMs (by simpa using hprocess)

theorem Supervised.requestExit (hs : s.Supervised) (nowMs : UInt64) :
    (s.requestExit nowMs).Watched := by
  have hexiting : ({ s.cancelRestart with
      exiting := true
      configurationRestartPending := false } : TrayApp).Supervised :=
    supervised_of_settled hs.process rfl (fun h => by cases h) hs.launches
  unfold TrayApp.requestExit
  dsimp only
  split
  · exact (hexiting.requestStop nowMs).watched
  · exact ⟨(by cases ·), hs.launches⟩

theorem Watched.step (hw : s.Watched) (event : UInt64 × TrayEvent) : (s.step event).Watched := by
  unfold TrayApp.step
  split
  · exact hw
  · rename_i hopen
    have hs := hw.1 (by simpa using hopen)
    cases event.2 with
    | start launch =>
        have hnoted : (s.note .userStart).Supervised := hs.note (by simp) (by simp [Spent])
        exact (hnoted.startEngine false (fun h => by cases h) launch _).watched
    | stop =>
        have hcleared : ({ s with configurationRestartPending := false } : TrayApp).Supervised :=
          ⟨hs.process, hs.pending, (by cases ·), hs.granted, hs.launches⟩
        exact (hcleared.requestStop _).watched
    | exit => exact hs.requestExit _
    | setup creates => exact (hs.launchSetup true creates).watched
    | dnsMode mode loaded saves creates launch =>
        exact (hs.setDnsMode mode loaded saves creates launch _).watched
    | configuration launch => exact (hs.restartEngineForConfiguration launch _).watched
    | poll poll => exact hs.pollEngine poll _

theorem runBegin_supervised (canStart creates : Bool) (launch : Launch) (nowMs : UInt64) :
    (runBegin canStart creates launch nowMs).Supervised := by
  have hinit : ({ canStart } : TrayApp).Supervised := by
    refine supervised_of_settled ?_ rfl (fun h => by cases h) (Before.nil _ _)
    simp
  unfold runBegin
  split
  · exact hinit.startEngine false (fun h => by cases h) launch nowMs
  · exact hinit.launchSetup true creates

/-! ## What is noted stays noted -/

structure Continues (s s' : TrayApp) : Prop where
  alive : (s.exiting = false → s.window = true) → s'.exiting = false → s'.window = true
  trace : s.trace <+: s'.trace

theorem Continues.refl (s : TrayApp) : Continues s s := ⟨id, List.prefix_rfl⟩

theorem Continues.trans {s₁ s₂ s₃ : TrayApp} (h₁ : Continues s₁ s₂) (h₂ : Continues s₂ s₃) :
    Continues s₁ s₃ :=
  ⟨fun h => h₂.alive (h₁.alive h), h₁.trace.trans h₂.trace⟩

theorem continues_of_eq {s' : TrayApp} (hexiting : s'.exiting = s.exiting)
    (hwindow : s'.window = s.window) (htrace : s'.trace = s.trace) : Continues s s' :=
  ⟨by rw [hexiting, hwindow]; exact id, htrace ▸ List.prefix_rfl⟩

theorem note_continues (s : TrayApp) (effect : Effect) : Continues s (s.note effect) :=
  ⟨id, List.prefix_append _ _⟩

theorem startEngine_continues (s : TrayApp) (automatic : Bool) (launch : Launch)
    (nowMs : UInt64) : Continues s (s.startEngine automatic launch nowMs) := by
  unfold startEngine
  split
  · exact .refl s
  · cases automatic with
    | false =>
        cases launch with
        | ok => exact ⟨id, (List.prefix_append _ _).trans (List.prefix_append _ _)⟩
        | _ => exact ⟨id, List.prefix_append _ _⟩
    | true =>
        cases launch with
        | ok => exact ⟨id, List.prefix_append _ _⟩
        | _ => exact continues_of_eq rfl rfl rfl

theorem requestStop_continues (s : TrayApp) (nowMs : UInt64) :
    Continues s (s.requestStop nowMs) := by
  unfold requestStop
  split
  · exact continues_of_eq rfl rfl rfl
  · split
    · exact .refl s
    · split
      · exact continues_of_eq rfl rfl rfl
      · exact .refl s

theorem requestExit_continues (s : TrayApp) (nowMs : UInt64) :
    Continues s (s.requestExit nowMs) := by
  unfold requestExit
  dsimp only
  split
  · refine Continues.trans ?_ (requestStop_continues _ nowMs)
    exact ⟨fun _ => (by cases ·), List.prefix_rfl⟩
  · exact ⟨fun _ => (by cases ·), List.prefix_rfl⟩

theorem launchSetup_continues (s : TrayApp) (wantWorkerMode creates : Bool) :
    Continues s (s.launchSetup wantWorkerMode creates) := by
  unfold launchSetup
  split
  · exact .refl s
  · split
    · exact continues_of_eq rfl rfl rfl
    · exact .refl s

theorem restartEngineForConfiguration_continues (s : TrayApp) (launch : Launch)
    (nowMs : UInt64) : Continues s (s.restartEngineForConfiguration launch nowMs) := by
  have hstop : Continues s
      ({ s.cancelRestart with configurationRestartPending := true }.requestStop nowMs) := by
    refine Continues.trans ?_ (requestStop_continues _ nowMs)
    exact continues_of_eq rfl rfl rfl
  have hcancelled : Continues s s.cancelRestart := continues_of_eq rfl rfl rfl
  unfold restartEngineForConfiguration
  split
  · exact .refl s
  · cases s.state with
    | stopped => exact .refl s
    | stopping => exact .refl s
    | starting => exact hstop
    | running => exact hstop
    | failed =>
        dsimp only
        split
        · exact hcancelled
        · exact hcancelled.trans (startEngine_continues _ false launch nowMs)

theorem setDnsMode_continues (s : TrayApp) (mode : DnsMode) (loaded : Loaded)
    (saves creates : Bool) (launch : Launch) (nowMs : UInt64) :
    Continues s (s.setDnsMode mode loaded saves creates launch nowMs) := by
  unfold setDnsMode
  split
  · exact .refl s
  · split
    · exact .refl s
    · split
      · exact launchSetup_continues s true creates
      · split
        · exact .refl s
        · refine Continues.trans ?_ (restartEngineForConfiguration_continues _ launch nowMs)
          exact continues_of_eq rfl rfl rfl

/-- Setup goes on unnoticed, or its completion is noted before anything else. -/
theorem pollSetup_cases (s : TrayApp) (poll : Poll) (nowMs : UInt64) :
    (∃ setupProcess, s.pollSetup poll nowMs = { s with setupProcess }) ∨
      ∃ canStart, Continues ({ s with setupProcess := false, canStart }.note .setupCompleted)
        (s.pollSetup poll nowMs) := by
  unfold pollSetup
  split
  · exact Or.inl ⟨_, rfl⟩
  · cases poll.setupExited with
    | none => exact Or.inl ⟨_, rfl⟩
    | some exitCode =>
        dsimp only
        split
        · exact Or.inl ⟨_, rfl⟩
        · split
          · exact Or.inl ⟨_, rfl⟩
          · cases adoptMode s.setupWantsWorker poll.loaded.config poll.saves with
            | none => exact Or.inl ⟨_, rfl⟩
            | some config =>
                refine Or.inr ⟨isValid config, ?_⟩
                dsimp only
                split
                · exact .refl _
                · split
                  · exact startEngine_continues _ false _ nowMs
                  · exact restartEngineForConfiguration_continues _ _ nowMs

theorem pollSetup_continues (s : TrayApp) (poll : Poll) (nowMs : UInt64) :
    Continues s (s.pollSetup poll nowMs) := by
  rcases pollSetup_cases s poll nowMs with ⟨setupProcess, heq⟩ | ⟨canStart, hnoted⟩
  · rw [heq]
    exact continues_of_eq rfl rfl rfl
  · refine Continues.trans ?_ ((note_continues _ _).trans hnoted)
    exact continues_of_eq rfl rfl rfl

theorem scheduleAutomaticRestart_continues (s : TrayApp) (nowMs : UInt64) :
    Continues s (s.scheduleAutomaticRestart nowMs) := by
  unfold scheduleAutomaticRestart
  dsimp only
  split
  · exact continues_of_eq rfl rfl rfl
  · exact ⟨id, List.prefix_append _ _⟩

theorem handleEngineExit_continues (s : TrayApp) (exitCode : UInt32) (launch : Launch)
    (nowMs : UInt64) : Continues s (s.handleEngineExit exitCode launch nowMs) := by
  unfold handleEngineExit
  dsimp only
  split
  · rename_i hexiting
    refine ⟨fun _ h => ?_, List.prefix_rfl⟩
    have hfalse : s.exiting = false := h
    rw [show s.exiting = true from hexiting] at hfalse
    cases hfalse
  · split
    · split
      · refine Continues.trans ?_ (startEngine_continues _ false launch nowMs)
        exact continues_of_eq rfl rfl rfl
      · exact continues_of_eq rfl rfl rfl
    · split
      · exact continues_of_eq rfl rfl rfl
      · split
        · exact continues_of_eq rfl rfl rfl
        · refine Continues.trans ?_ (scheduleAutomaticRestart_continues _ nowMs)
          exact continues_of_eq rfl rfl rfl

theorem pollProcess_continues (s : TrayApp) (poll : Poll) (nowMs : UInt64) :
    Continues s (s.pollProcess poll nowMs) := by
  have hready : Continues s (if s.state = .starting ∧ s.readyEvent ∧ poll.ready then
      s.setState .running nowMs else s) := by
    split
    · exact continues_of_eq rfl rfl rfl
    · exact .refl s
  unfold pollProcess
  dsimp only
  refine hready.trans ?_
  generalize (if s.state = .starting ∧ s.readyEvent ∧ poll.ready then
    s.setState .running nowMs else s) = t
  have hkilled : Continues t { t with engineKilled := true } := continues_of_eq rfl rfl rfl
  cases poll.exited with
  | none =>
      dsimp only
      split
      · exact hkilled
      · exact .refl t
  | some exitCode =>
      dsimp only
      split
      · exact hkilled.trans (handleEngineExit_continues _ exitCode poll.launch nowMs)
      · exact handleEngineExit_continues t exitCode poll.launch nowMs

theorem pollEngine_continues (s : TrayApp) (poll : Poll) (nowMs : UInt64) :
    Continues s (s.pollEngine poll nowMs) := by
  have hsetup := pollSetup_continues s poll nowMs
  unfold pollEngine
  dsimp only
  refine hsetup.trans ?_
  split
  · split
    · exact startEngine_continues _ true poll.launch nowMs
    · exact .refl _
  · exact pollProcess_continues _ poll nowMs

theorem step_continues (s : TrayApp) (event : UInt64 × TrayEvent) :
    Continues s (s.step event) := by
  unfold step
  split
  · exact .refl s
  · cases event.2 with
    | start launch => exact (note_continues _ _).trans (startEngine_continues _ false launch _)
    | stop =>
        refine Continues.trans ?_ (requestStop_continues _ _)
        exact continues_of_eq rfl rfl rfl
    | exit => exact requestExit_continues s _
    | setup creates => exact launchSetup_continues s true creates
    | dnsMode mode loaded saves creates launch =>
        exact setDnsMode_continues s mode loaded saves creates launch _
    | configuration launch => exact restartEngineForConfiguration_continues s launch _
    | poll poll => exact pollEngine_continues s poll _

/-! ## A stop -/

/-- Nothing has happened since `noted`, and nothing that is pending will launch an engine. -/
structure Quelled (noted : List Effect) (s : TrayApp) : Prop where
  trace : s.trace = noted
  restart : s.restartPending = false
  configuration : s.configurationRestartPending = false
  state : s.state = .stopped ∨ s.state = .stopping

/-- What has happened first since `noted` is what allows an engine again. -/
def Lifted (noted : List Effect) (s : TrayApp) : Prop :=
  ∃ effect, (effect = .userStart ∨ effect = .setupCompleted) ∧ noted ++ [effect] <+: s.trace

theorem Lifted.continues {noted : List Effect} (h : Lifted noted s) {s' : TrayApp}
    (hcontinues : Continues s s') : Lifted noted s' := by
  obtain ⟨effect, heffect, hnoted⟩ := h
  exact ⟨effect, heffect, hnoted.trans hcontinues.trace⟩

namespace Quelled

variable {noted : List Effect}

theorem congr (h : Quelled noted s) {s' : TrayApp} (htrace : s'.trace = s.trace)
    (hrestart : s'.restartPending = s.restartPending)
    (hconfiguration : s'.configurationRestartPending = s.configurationRestartPending)
    (hstate : s'.state = s.state) : Quelled noted s' :=
  ⟨htrace.trans h.trace, hrestart.trans h.restart, hconfiguration.trans h.configuration,
    by rw [hstate]; exact h.state⟩

theorem requestStop (h : Quelled noted s) (nowMs : UInt64) :
    Quelled noted (s.requestStop nowMs) := by
  unfold TrayApp.requestStop
  rw [if_neg (by simp [h.restart])]
  split
  · exact h
  · split
    · exact ⟨h.trace, h.restart, h.configuration, Or.inr rfl⟩
    · exact h

theorem requestExit (h : Quelled noted s) (nowMs : UInt64) :
    Quelled noted (s.requestExit nowMs) := by
  unfold TrayApp.requestExit
  dsimp only
  split
  · refine requestStop ?_ nowMs
    exact ⟨h.trace, rfl, rfl, h.state⟩
  · exact ⟨h.trace, rfl, rfl, h.state⟩

theorem launchSetup (h : Quelled noted s) (wantWorkerMode creates : Bool) :
    Quelled noted (s.launchSetup wantWorkerMode creates) := by
  unfold TrayApp.launchSetup
  split
  · exact h
  · split
    · exact h.congr rfl rfl rfl rfl
    · exact h

theorem restartEngineForConfiguration (h : Quelled noted s) (launch : Launch) (nowMs : UInt64) :
    s.restartEngineForConfiguration launch nowMs = s := by
  unfold TrayApp.restartEngineForConfiguration
  rcases h.state with hstate | hstate <;> simp [hstate]

theorem setDnsMode (h : Quelled noted s) (mode : DnsMode) (loaded : Loaded)
    (saves creates : Bool) (launch : Launch) (nowMs : UInt64) :
    Quelled noted (s.setDnsMode mode loaded saves creates launch nowMs) := by
  have hvalid (canStart : Bool) : Quelled noted { s with canStart } := h.congr rfl rfl rfl rfl
  unfold TrayApp.setDnsMode
  split
  · exact h
  · split
    · exact h
    · split
      · exact h.launchSetup true creates
      · split
        · exact h
        · rw [(hvalid _).restartEngineForConfiguration]
          exact hvalid _

theorem handleEngineExit (h : Quelled noted s) (hstate : s.state = .stopping)
    (exitCode : UInt32) (launch : Launch) (nowMs : UInt64) :
    Quelled noted (s.handleEngineExit exitCode launch nowMs) := by
  have hclosed : Quelled noted s.closeEngineHandles := h.congr rfl rfl rfl rfl
  unfold TrayApp.handleEngineExit
  dsimp only
  split
  · exact hclosed.congr rfl rfl rfl rfl
  · rw [if_pos (by simp [hstate]), if_neg (by simp [hclosed.configuration])]
    exact ⟨h.trace, h.restart, h.configuration, Or.inl rfl⟩

theorem pollProcess (h : Quelled noted s) (hstate : s.state = .stopping) (poll : Poll)
    (nowMs : UInt64) : Quelled noted (s.pollProcess poll nowMs) := by
  have hkilled : Quelled noted { s with engineKilled := true } := h.congr rfl rfl rfl rfl
  unfold TrayApp.pollProcess
  rw [if_neg (by simp [hstate])]
  cases poll.exited with
  | none =>
      dsimp only
      split
      · exact hkilled
      · exact h
  | some exitCode =>
      dsimp only
      split
      · exact hkilled.handleEngineExit hstate exitCode poll.launch nowMs
      · exact h.handleEngineExit hstate exitCode poll.launch nowMs

theorem pollEngine (h : Quelled noted s) (hs : s.Supervised) (poll : Poll) (nowMs : UInt64) :
    Quelled noted (s.pollEngine poll nowMs) ∨ Lifted noted (s.pollEngine poll nowMs) := by
  have hrest := pollEngine_continues s poll nowMs
  unfold TrayApp.pollEngine at hrest ⊢
  rcases pollSetup_cases s poll nowMs with ⟨setupProcess, heq⟩ | ⟨canStart, hnoted⟩
  · have hsame : Quelled noted { s with setupProcess } := h.congr rfl rfl rfl rfl
    rw [heq]
    dsimp only
    refine Or.inl ?_
    split
    · rw [if_neg (by simp [h.restart])]
      exact hsame
    · rename_i hprocess
      have hstate : s.state = .stopping := by
        rcases h.state with hstate | hstate
        · have hrunning := hs.process.1 (by simpa using hprocess)
          simp [hstate] at hrunning
        · exact hstate
      exact hsame.pollProcess hstate poll nowMs
  · refine Or.inr ?_
    have hlifted : Lifted noted (s.pollSetup poll nowMs) := by
      refine ⟨.setupCompleted, Or.inr rfl, ?_⟩
      rw [← h.trace]
      exact hnoted.trace
    generalize s.pollSetup poll nowMs = t at hlifted ⊢
    dsimp only
    split
    · split
      · exact hlifted.continues (startEngine_continues t true poll.launch nowMs)
      · exact hlifted
    · exact hlifted.continues (pollProcess_continues t poll nowMs)

theorem step (h : Quelled noted s) (hw : s.Watched) (event : UInt64 × TrayEvent) :
    Quelled noted (s.step event) ∨ Lifted noted (s.step event) := by
  unfold TrayApp.step
  split
  · exact Or.inl h
  · rename_i hopen
    cases event.2 with
    | start launch =>
        refine Or.inr ⟨.userStart, Or.inl rfl, ?_⟩
        rw [← h.trace]
        exact (startEngine_continues (s.note .userStart) false launch _).trace
    | stop =>
        refine Or.inl (requestStop ?_ _)
        exact ⟨h.trace, h.restart, rfl, h.state⟩
    | exit => exact Or.inl (h.requestExit _)
    | setup creates => exact Or.inl (h.launchSetup true creates)
    | dnsMode mode loaded saves creates launch =>
        exact Or.inl (h.setDnsMode mode loaded saves creates launch _)
    | configuration launch =>
        dsimp only
        rw [h.restartEngineForConfiguration]
        exact Or.inl h
    | poll poll => exact h.pollEngine (hw.1 (by simpa using hopen)) poll _

end Quelled

/-- The user's stop, of an engine or of a restart that is pending. -/
theorem quelled_stop (hwindow : s.window = true) (nowMs : UInt64)
    (hstop : s.engineProcess = true ∨ s.restartPending = true) :
    Quelled s.trace (s.step (nowMs, .stop)) := by
  unfold TrayApp.step
  rw [if_neg (by simp [hwindow])]
  dsimp only
  unfold TrayApp.requestStop
  dsimp only
  split
  · exact ⟨rfl, rfl, rfl, Or.inl rfl⟩
  · rename_i hpending
    have hprocess := hstop.resolve_right hpending
    rw [if_neg (by simp [hprocess])]
    split
    · exact ⟨rfl, by simpa [setState] using hpending, rfl, Or.inr rfl⟩
    · rename_i hstate
      exact ⟨rfl, by simpa using hpending, rfl, Or.inr (not_not.1 hstate)⟩

theorem run_watched (canStart creates : Bool) (launch : Launch) (nowMs : UInt64)
    (events : List (UInt64 × TrayEvent)) :
    let s := run step (runBegin canStart creates launch nowMs) events
    (s.exiting = false → s.window = true) ∧ s.Watched := by
  have hbegin := runBegin_supervised canStart creates launch nowMs
  have hwindow : (runBegin canStart creates launch nowMs).window = true := by
    unfold runBegin launchSetup startEngine
    cases canStart <;> cases creates <;> cases launch <;> rfl
  refine run_invariant step _ (fun _ s => (s.exiting = false → s.window = true) ∧ s.Watched)
    ⟨fun _ => hwindow, hbegin.watched⟩ ?_ events
  rintro - s event ⟨halive, hs⟩
  exact ⟨(step_continues s event).alive halive, hs.step event⟩

/-- A run after a stop: nothing, or first what allows an engine again. -/
theorem run_quelled {noted : List Effect} (h : Quelled noted s) (hs : s.Watched)
    (events : List (UInt64 × TrayEvent)) :
    Quelled noted (run TrayApp.step s events) ∨ Lifted noted (run TrayApp.step s events) := by
  refine (run_invariant TrayApp.step s (fun _ s => s.Watched ∧ (Quelled noted s ∨ Lifted noted s))
    ⟨hs, Or.inl h⟩ ?_ events).2
  rintro - s event ⟨hs, hnoted⟩
  refine ⟨hs.step event, ?_⟩
  rcases hnoted with hquelled | hlifted
  · exact hquelled.step hs event
  · exact Or.inr (hlifted.continues (step_continues s event))

theorem run_of_closed (hclosed : s.window = false) (events : List (UInt64 × TrayEvent)) :
    run TrayApp.step s events = s := by
  refine run_invariant TrayApp.step s (fun _ t => t = s) rfl ?_ events
  rintro - t event rfl
  rw [TrayApp.step, if_pos hclosed]

/-- Before the first launch since `noted` comes what allows it. -/
theorem mem_of_lifted {noted before after : List Effect} {automatic : Bool}
    (h : Lifted noted s) (htrace : s.trace = noted ++ before ++ .launched automatic :: after) :
    .userStart ∈ before ∨ .setupCompleted ∈ before := by
  obtain ⟨effect, heffect, hnoted⟩ := h
  rw [htrace, List.append_assoc, List.prefix_append_right_inj] at hnoted
  obtain ⟨rest, hrest⟩ := hnoted
  cases before with
  | nil =>
      have hhead : effect = .launched automatic := List.head_eq_of_cons_eq hrest
      rw [hhead] at heffect
      simp at heffect
  | cons first before =>
      have hhead : effect = first := List.head_eq_of_cons_eq hrest
      rw [← hhead]
      rcases heffect with rfl | rfl
      · exact Or.inl List.mem_cons_self
      · exact Or.inr List.mem_cons_self

/-- Whatever events come in whatever order: as long as the tray is not exiting, its flags fit
the engine; an automatic launch has an attempt of its own, granted after the last start that
was not automatic; and after a stop no engine is launched before the user starts one or a
setup is completed. -/
theorem supervision (canStart creates : Bool) (launch : Launch) (nowMs : UInt64)
    (events : List (UInt64 × TrayEvent)) :
    let s := run step (runBegin canStart creates launch nowMs) events
    (s.exiting = false →
        (s.engineProcess = true ↔
          s.state = .starting ∨ s.state = .running ∨ s.state = .stopping) ∧
        (s.restartPending = true → s.engineProcess = false ∧ s.state = .failed) ∧
        (s.configurationRestartPending = true → s.state = .stopping)) ∧
      (∀ before after, s.trace = before ++ .launched true :: after →
        Since Granted Spent before) ∧
      (s.state = .starting ∨ s.state = .running ∨ s.restartPending = true →
        ∀ now later before automatic after,
          (run step s ((now, .stop) :: later)).trace =
              s.trace ++ before ++ .launched automatic :: after →
            .userStart ∈ before ∨ .setupCompleted ∈ before) := by
  intro s
  obtain ⟨halive, hs⟩ := run_watched canStart creates launch nowMs events
  refine ⟨fun hexiting => ?_, fun before after htrace => hs.2 before _ after htrace rfl, ?_⟩
  · have hsupervised := hs.1 (halive hexiting)
    exact ⟨hsupervised.process, fun hpending =>
      ⟨hsupervised.process_of_pending hpending, hsupervised.pending hpending⟩,
      hsupervised.configuration⟩
  · intro hstop now later before automatic after htrace
    -- A stop that leaves the trace as it is lets only what is lifted go on.
    have hsame (t : TrayApp) (ht : t.trace = s.trace)
        (hlaunched : t.trace = s.trace ++ before ++ .launched automatic :: after) : False := by
      rw [ht, List.append_assoc] at hlaunched
      simp at hlaunched
    cases hwindow : s.window with
    | false =>
        rw [run_of_closed hwindow] at htrace
        exact (hsame s rfl htrace).elim
    | true =>
        have hsupervised := hs.1 hwindow
        have hprocess : s.engineProcess = true ∨ s.restartPending = true := by
          rcases hstop with hstate | hstate | hpending
          · exact Or.inl (hsupervised.process.2 (Or.inl hstate))
          · exact Or.inl (hsupervised.process.2 (Or.inr (Or.inl hstate)))
          · exact Or.inr hpending
        have hquelled := quelled_stop hwindow now hprocess
        rcases run_quelled hquelled (hs.step (now, .stop)) later with hstill | hlifted
        · exact (hsame _ hstill.trace htrace).elim
        · exact mem_of_lifted hlifted htrace

/-- An engine that crashes and is brought up again, stopped by the user, and started. -/
def sampleRun : List (UInt64 × TrayEvent) :=
  [(1000, .poll { ready := true }), (2000, .poll { exited := some 2 }), (2500, .poll {}),
    (3000, .poll {}), (4000, .poll { ready := true })]

theorem supervision_sample :
    (run step (runBegin true true .ok 0) sampleRun).trace =
        [.started, .launched false, .granted 1, .launched true] ∧
      Since Granted Spent [.started, .launched false, .granted 1] ∧
      (Effect.userStart ∈ [Effect.userStart, .started] ∨
        Effect.setupCompleted ∈ [Effect.userStart, .started]) := by
  have hrun := supervision true true .ok 0 sampleRun
  refine ⟨by decide +kernel, hrun.2.1 _ [] (by decide +kernel), ?_⟩
  exact hrun.2.2 (by decide +kernel) 5000 [(5250, .poll { exited := some 0 }), (6000, .start .ok)] _
    false [] (by decide +kernel)

end TrayApp

end SplitHello
