import SplitHello.Lifecycle.Standing

/-!
# How the engine is brought up and taken down

Packets are diverted only between the steps that bring the listeners up and those that take them
down. Every phase of `main` keeps what stands, and so does a whole run; the exit code is settled
while packets are still diverted.
-/

namespace SplitHello

namespace Lifecycle

open History Socks Inquiry

namespace Engine

variable {setup : Setup} {s s' : Engine}

/-! ## The thread of `main` -/

section Main

variable {ok : Bool} {code : ℕ}

/-- A phase in which `main` does nothing but go on. -/
theorem Sound.goes (h : s.Sound setup) {before after : MainPhase} (hm : s.main = before)
    (hleads : before.leads after = true) (hdeciding : after.deciding = false) :
    (s.enter after).Sound setup :=
  h.enter (by rw [hm]; exact hleads) (verdict_of_not hdeciding)

theorem Sound.manual (h : s.Sound setup) {t : Inquiry Flag Bool} (hm : s.main = .manual t) :
    (s.mainStep setup ok).Sound setup := by
  unfold Engine.mainStep
  rw [hm]
  cases t with
  | done result => cases result <;> exact h.goes hm rfl rfl
  | ask q yes no => exact h.goes hm rfl rfl

theorem Sound.waiting (h : s.Sound setup) {waited : ℕ} (hm : s.main = .waiting waited) :
    (s.mainStep setup ok).Sound setup := by
  unfold Engine.mainStep
  rw [hm]
  dsimp only
  split <;> exact h.goes hm rfl rfl

theorem Sound.waitingExited (h : s.Sound setup) {waited : ℕ}
    (hm : s.main = .waitingExited waited) : (s.mainStep setup ok).Sound setup := by
  unfold Engine.mainStep
  rw [hm]
  dsimp only
  split <;> exact h.goes hm rfl rfl

/-- The relay has published its listener, or is given up. -/
theorem Sound.bound (h : s.Sound setup) (hm : s.main = .bound) :
    (s.mainStep setup ok).Sound setup := by
  have hidle := h.relay.idle (by rw [hm]; rfl)
  unfold Engine.mainStep
  rw [hm]
  dsimp only
  split
  · rename_i hrunning
    exact
      { relay :=
          { listener := h.relay.listener
            idle := fun _ => hidle
            listening := fun _ => h.relay.listener.listens hidle hrunning
            exited := h.relay.exited
            stopped := nofun
            joined := nofun
            drained := nofun }
        dns := h.dns.congr rfl rfl (by rw [hm]; rfl)
        packets := h.packets.congr rfl rfl rfl rfl rfl (by rw [hm]; rfl)
        verdict := verdict_of_not rfl }
  · exact h.goes hm rfl rfl

theorem Sound.startingDns (h : s.Sound setup) (hm : s.main = .startingDns) :
    (s.mainStep setup ok).Sound setup := by
  have hrelay {s' : Engine} (hsame : s'.relay = s.relay) (hexited : s'.relayExited = s.relayExited)
      (hmain : s'.main = .openingPackets) : s'.RelaySound :=
    h.relay.congr hsame hexited (by rw [hm, hmain]; rfl)
  have hpackets {s' : Engine} (hpacket : s'.packetHandle = s.packetHandle)
      (hdrop : s'.quicDropHandle = s.quicDropHandle) (hthread : s'.packetThread = s.packetThread)
      (hcapturing : s'.capturing = s.capturing) (hfatal : s'.fatal = s.fatal)
      (hmain : s'.main = .openingPackets) : s'.PacketSound :=
    h.packets.congr hpacket hdrop hthread hcapturing hfatal (by rw [hm, hmain]; rfl)
  unfold Engine.mainStep
  rw [hm]
  dsimp only
  split
  · rename_i hnone
    refine ⟨hrelay rfl rfl rfl, ⟨fun hworker => ?_, fun _ => rfl, h.dns.threads⟩,
      hpackets rfl rfl rfl rfl rfl rfl, verdict_of_not rfl⟩
    rw [hnone] at hworker
    cases hworker
  · split
    · exact ⟨hrelay rfl rfl rfl, ⟨fun _ _ => rfl, fun _ => rfl, fun _ => rfl⟩,
        hpackets rfl rfl rfl rfl rfl rfl, verdict_of_not rfl⟩
    · exact h.goes hm rfl rfl

theorem Sound.openingPackets (h : s.Sound setup) (hm : s.main = .openingPackets) :
    (s.mainStep setup ok).Sound setup := by
  have hover := h.packets.thread_over (by rw [hm]; rfl)
  unfold Engine.mainStep
  rw [hm]
  dsimp only
  split
  · exact
      { relay := h.relay.congr rfl rfl (by rw [hm]; rfl)
        dns := h.dns.congr rfl rfl (by rw [hm]; rfl)
        packets :=
          { handles := fun _ => rfl
            diverts := fun _ => rfl
            thread := fun habsent hended => (hover.elim habsent hended).elim
            failed := h.packets.failed
            fatal := nofun }
        verdict := verdict_of_not rfl }
  · exact h.goes hm rfl rfl

/-- The diversion ends, and nobody reads packets any more. -/
theorem Sound.release (h : s.Sound setup) (code : ℕ)
    (hrelay : s.main.relayLeads (.stoppingDns code) = true)
    (hdns : s.main.dnsLeads (.stoppingDns code) = true)
    (hthread : s.packetThread = .absent ∨ s.packetThread = .ended) :
    (s.closeHandles.enter (.stoppingDns code)).Sound setup where
  relay := h.relay.congr rfl rfl hrelay
  dns := h.dns.congr rfl rfl hdns
  packets :=
    { handles := fun hopen => by rcases hopen with hopen | hopen <;> cases hopen
      diverts := nofun
      thread := fun habsent hended => (hthread.elim habsent hended).elim
      failed := h.packets.failed
      fatal := nofun }
  verdict := verdict_of_not rfl

theorem Sound.openingDrop (h : s.Sound setup) (hm : s.main = .openingDrop) :
    (s.mainStep setup ok).Sound setup := by
  have hover := h.packets.thread_over (by rw [hm]; rfl)
  unfold Engine.mainStep
  rw [hm]
  dsimp only
  split
  · exact h.goes hm rfl rfl
  · split
    · exact
        { relay := h.relay.congr rfl rfl (by rw [hm]; rfl)
          dns := h.dns.congr rfl rfl (by rw [hm]; rfl)
          packets :=
            { handles := fun _ => rfl
              diverts := fun _ => h.packets.diverts (by rw [hm]; rfl)
              thread := fun habsent hended => (hover.elim habsent hended).elim
              failed := h.packets.failed
              fatal := nofun }
          verdict := verdict_of_not rfl }
    · exact h.release 12 (by rw [hm]; rfl) (by rw [hm]; rfl) hover

theorem Sound.startingThread (h : s.Sound setup) (hm : s.main = .startingThread) :
    (s.mainStep setup ok).Sound setup := by
  unfold Engine.mainStep
  rw [hm]
  dsimp only
  split
  · exact
      { relay := h.relay.congr rfl rfl (by rw [hm]; rfl)
        dns := h.dns.congr rfl rfl (by rw [hm]; rfl)
        packets :=
          { handles := fun _ => rfl
            diverts := fun _ => h.packets.diverts (by rw [hm]; rfl)
            thread := fun _ _ => rfl
            failed := nofun
            fatal := nofun }
        verdict := verdict_of_not rfl }
  · exact h.release 12 (by rw [hm]; rfl) (by rw [hm]; rfl)
      (h.packets.thread_over (by rw [hm]; rfl))

theorem verdict_watching (setup : Setup) (s : Engine) :
    (s.enter (.watching (anyOf setup.watched))).VerdictSound setup :=
  ⟨fun t ht => by cases ht; exact ends_anyOf _ _, nofun, nofun⟩

theorem Sound.signalling (h : s.Sound setup) (hm : s.main = .signalling) :
    (s.mainStep setup ok).Sound setup := by
  unfold Engine.mainStep
  rw [hm]
  exact
    { relay := h.relay.congr rfl rfl (by rw [hm]; rfl)
      dns := h.dns.congr rfl rfl (by rw [hm]; rfl)
      packets := h.packets.congr rfl rfl rfl rfl rfl (by rw [hm]; rfl)
      verdict := verdict_watching setup { s with ready := ok } }

theorem Sound.watching (h : s.Sound setup) {t : Inquiry Flag Bool} (hm : s.main = .watching t) :
    (s.mainStep setup ok).Sound setup := by
  have hexplained := h.explained (by rw [hm]; rfl)
  have hwatch := h.verdict.watch t hm
  unfold Engine.mainStep
  rw [hm]
  cases t with
  | done result =>
      cases result with
      | true =>
          refine h.enter (by rw [hm]; rfl) ⟨nofun, fun t ht => ?_, nofun⟩
          cases ht
          exact verdict_fair hexplained (hwatch rfl)
      | false => exact h.enter (by rw [hm]; rfl) (verdict_watching setup s)
  | ask q yes no =>
      refine h.enter (by rw [hm]; rfl) ⟨fun t ht => ?_, nofun, nofun⟩
      cases ht
      exact hwatch.turn hexplained

theorem Sound.judging (h : s.Sound setup) {t : Inquiry Flag ℕ} (hm : s.main = .judging t) :
    (s.mainStep setup ok).Sound setup := by
  have hexplained := h.explained (by rw [hm]; rfl)
  have hjudge := h.verdict.judge t hm
  unfold Engine.mainStep
  rw [hm]
  cases t with
  | done code =>
      refine h.enter (by rw [hm]; rfl) ⟨nofun, nofun, fun code hcode => ?_⟩
      cases hcode
      exact hjudge
  | ask q yes no =>
      refine h.enter (by rw [hm]; rfl) ⟨nofun, fun t ht => ?_, nofun⟩
      cases ht
      exact hjudge.turn hexplained

theorem Sound.stoppingPackets (h : s.Sound setup) (hm : s.main = .stoppingPackets code) :
    (s.mainStep setup ok).Sound setup := by
  unfold Engine.mainStep
  rw [hm]
  exact
    { relay := h.relay.congr rfl rfl (by rw [hm]; rfl)
      dns := h.dns.congr rfl rfl (by rw [hm]; rfl)
      packets :=
        { handles := fun _ => rfl
          diverts := fun _ => h.packets.diverts (by rw [hm]; rfl)
          thread := fun _ _ => rfl
          failed := h.packets.failed
          fatal := nofun }
      verdict := verdict_of_not rfl }

theorem Sound.joiningPackets (h : s.Sound setup) (hm : s.main = .joiningPackets code) :
    (s.mainStep setup ok).Sound setup := by
  unfold Engine.mainStep
  rw [hm]
  dsimp only
  split
  · exact h.release code (by rw [hm]; rfl) (by rw [hm]; rfl) (Or.inr ‹_›)
  · exact h

theorem Sound.stoppingDns (h : s.Sound setup) (hm : s.main = .stoppingDns code) :
    (s.mainStep setup ok).Sound setup := by
  unfold Engine.mainStep
  rw [hm]
  exact
    { relay := h.relay.congr rfl rfl (by rw [hm]; rfl)
      dns := h.dns.congr rfl rfl (by rw [hm]; rfl)
      packets := h.packets.congr rfl rfl rfl rfl rfl (by rw [hm]; rfl)
      verdict := verdict_of_not rfl }

theorem Sound.joiningDns (h : s.Sound setup) (hm : s.main = .joiningDns code) :
    (s.mainStep setup ok).Sound setup := by
  unfold Engine.mainStep
  rw [hm]
  dsimp only
  split
  · rename_i hnone
    exact
      { relay := h.relay.congr rfl rfl (by rw [hm]; rfl)
        dns := ⟨nofun, nofun, fun hne => absurd hnone hne⟩
        packets := h.packets.congr rfl rfl rfl rfl rfl (by rw [hm]; rfl)
        verdict := verdict_of_not rfl }
  · exact h

theorem Sound.stoppingRelay (h : s.Sound setup) {code : Option ℕ}
    (hm : s.main = .stoppingRelay code) : (s.mainStep setup ok).Sound setup := by
  unfold Engine.mainStep
  rw [hm]
  dsimp only
  split
  · rename_i hstopper
    exact
      { relay :=
          { listener := h.relay.listener
            idle := nofun
            listening := nofun
            exited := h.relay.exited
            stopped := fun _ => hstopper
            joined := nofun
            drained := nofun }
        dns := h.dns.congr rfl rfl (by rw [hm]; rfl)
        packets := h.packets.congr rfl rfl rfl rfl rfl (by rw [hm]; rfl)
        verdict := verdict_of_not rfl }
  · have hrunner := (Socks.Proxy.stopStep_frame s.relay).1
    exact
      { relay :=
          { listener := h.relay.listener.stop
            idle := nofun
            listening := nofun
            exited := fun hexited => hrunner.trans (h.relay.exited hexited)
            stopped := nofun
            joined := nofun
            drained := nofun }
        dns := h.dns.congr rfl rfl (by rw [hm]; rfl)
        packets := h.packets.congr rfl rfl rfl rfl rfl (by rw [hm]; rfl)
        verdict := verdict_of_not rfl }

theorem Sound.joiningRelay (h : s.Sound setup) {code : Option ℕ}
    (hm : s.main = .joiningRelay code) : (s.mainStep setup ok).Sound setup := by
  have hstopped := h.relay.stopped (by rw [hm]; rfl)
  unfold Engine.mainStep
  rw [hm]
  dsimp only
  split
  · rename_i hexited
    exact
      { relay :=
          { listener := h.relay.listener
            idle := nofun
            listening := nofun
            exited := h.relay.exited
            stopped := fun _ => hstopped
            joined := fun _ => hexited
            drained := nofun }
        dns := h.dns.congr rfl rfl (by rw [hm]; rfl)
        packets := h.packets.congr rfl rfl rfl rfl rfl (by rw [hm]; rfl)
        verdict := verdict_of_not rfl }
  · exact h

/-- `stop` does not open the listener. -/
theorem stopStep_listenSock {r : Socks.Proxy} (h : r.listenSock = false) :
    r.stopStep.listenSock = false := by
  unfold Socks.Proxy.stopStep
  split
  · exact h
  · exact h
  · split
    · exact h
    · rfl
  · exact h
  · split <;> exact h
  · exact h
  · rename_i handle handles _
    rcases Socks.Proxy.join_cases r .stopper handle with hnone | hsome
    · rw [hnone]
      exact h
    · rw [hsome]
      exact h
  · exact h
  · exact h

/-- The second `stop` waits until the last session is gone, and no thread is left that could
begin another. -/
theorem Sound.destroying (h : s.Sound setup) {stop : StopPhase}
    (hm : s.main = .destroying code stop) : (s.mainStep setup ok).Sound setup := by
  by_cases hreturned : stop = .returned
  · subst stop
    unfold Engine.mainStep
    rw [hm]
    exact h.goes hm rfl rfl
  · have hstopped := h.relay.stopped (by rw [hm]; rfl)
    have hjoined := h.relay.joined (by rw [hm]; rfl)
    have hlate : 3 ≤ s.relay.stopper.order := by
      rw [hstopped]
      decide
    obtain ⟨hclosed, hpublished⟩ := h.relay.listener.closed hlate
    have hrequested := h.relay.listener.requested (Nat.le_trans (by decide) hlate)
    generalize hrelay : { s.relay with stopper := stop }.stopStep = relay
    have hstep : s.mainStep setup ok =
        { s with
          relay := { relay with stopper := .returned }
          main := .destroying code relay.stopper } := by
      subst hrelay
      unfold Engine.mainStep
      rw [hm]
      cases stop <;> first | rfl | exact absurd rfl hreturned
    obtain ⟨hrunner, -, -, hrequest, -, hempty, -⟩ :=
      Socks.Proxy.stopStep_frame { s.relay with stopper := stop }
    obtain ⟨-, -, -, hdrains⟩ := Socks.Proxy.stopStep_order { s.relay with stopper := stop }
    have hsock := stopStep_listenSock (r := { s.relay with stopper := stop }) hclosed
    rw [hrelay] at hrunner hrequest hempty hdrains hsock
    rw [hstep]
    exact
      { relay :=
          { listener :=
              { listens := nofun
                requested := fun _ => hrequest.elim (fun hsame => hsame.trans hrequested) id
                closed := fun _ =>
                  ⟨hsock, fun hchecked => hpublished (hrunner.symm.trans hchecked)⟩ }
            idle := nofun
            listening := nofun
            exited := fun hexited => hrunner.trans (h.relay.exited hexited)
            stopped := fun _ => rfl
            joined := fun _ => hjoined
            drained := fun hphase => by
              have horder : 5 ≤ relay.stopper.order := of_decide_eq_true hphase
              by_cases hbefore : 5 ≤ stop.order
              · refine hempty (h.relay.drained ?_)
                rw [hm]
                exact decide_eq_true hbefore
              · exact hdrains (Nat.lt_of_not_le hbefore) horder }
        dns := h.dns.congr rfl rfl (by rw [hm]; rfl)
        packets := h.packets.congr rfl rfl rfl rfl rfl (by rw [hm]; rfl)
        verdict := verdict_of_not rfl }

theorem Sound.mainStep (h : s.Sound setup) (ok : Bool) : (s.mainStep setup ok).Sound setup := by
  cases hm : s.main with
  | manual t => exact h.manual hm
  | waiting waited => exact h.waiting hm
  | waitingExited waited => exact h.waitingExited hm
  | bound => exact h.bound hm
  | startingDns => exact h.startingDns hm
  | openingPackets => exact h.openingPackets hm
  | openingDrop => exact h.openingDrop hm
  | startingThread => exact h.startingThread hm
  | signalling => exact h.signalling hm
  | watching t => exact h.watching hm
  | judging t => exact h.judging hm
  | stoppingPackets code => exact h.stoppingPackets hm
  | joiningPackets code => exact h.joiningPackets hm
  | stoppingDns code => exact h.stoppingDns hm
  | joiningDns code => exact h.joiningDns hm
  | stoppingRelay code => exact h.stoppingRelay hm
  | joiningRelay code => exact h.joiningRelay hm
  | destroying code stop => exact h.destroying hm
  | returned code =>
      unfold Engine.mainStep
      rw [hm]
      exact h

end Main

theorem start_listening (maxConnections : ℕ) : Listening (Socks.Proxy.start maxConnections) :=
  ⟨fun _ => nofun, fun h => absurd (show 1 ≤ 0 from h) (by decide),
    fun h => absurd (show 3 ≤ 0 from h) (by decide)⟩

theorem start_sound (hrefusal : setup.refusal = none) : (start setup).Sound setup := by
  have hlistener := start_listening setup.maxConnections
  have hnone {p : Prop} (h : false = true ∨ false = true) : p := by
    rcases h with h | h <;> cases h
  rw [start, hrefusal]
  dsimp only
  cases setup.manualProxy with
  | true =>
      exact ⟨⟨hlistener, fun _ => rfl, nofun, nofun, nofun, nofun, nofun⟩,
        ⟨nofun, nofun, fun h => absurd rfl h⟩, ⟨hnone, nofun, fun h => absurd rfl h, nofun, nofun⟩,
        verdict_of_not rfl⟩
  | false =>
      exact ⟨⟨hlistener, fun _ => rfl, nofun, nofun, nofun, nofun, nofun⟩,
        ⟨nofun, nofun, fun h => absurd rfl h⟩, ⟨hnone, nofun, fun h => absurd rfl h, nofun, nofun⟩,
        verdict_of_not rfl⟩

def isMain : EngineEvent → Bool
  | .main _ => true
  | _ => false

/-- The process is gone, or `main` goes on, or another thread. -/
theorem step_cases (setup : Setup) (s : Engine) (event : EngineEvent) :
    (Engine.step setup s event = s ∧ ∃ code, s.main = .returned code) ∨
      (isMain event = true ∧ ∃ ok, Engine.step setup s event = s.mainStep setup ok) ∨
      isMain event = false ∧ Engine.step setup s event = s.otherStep setup event := by
  unfold Engine.step
  split
  · exact Or.inl ⟨rfl, _, ‹_›⟩
  · exact Or.inr (Or.inl ⟨rfl, _, rfl⟩)
  · rename_i other _ _ hother _
    refine Or.inr (Or.inr ⟨?_, rfl⟩)
    cases other with
    | main ok => exact (hother ok rfl).elim
    | _ => rfl

theorem Sound.step (h : s.Sound setup) (event : EngineEvent) :
    (Engine.step setup s event).Sound setup := by
  rcases step_cases setup s event with ⟨hs, -⟩ | ⟨-, ok, hs⟩ | ⟨-, hs⟩
  · rwa [hs]
  · rw [hs]
    exact h.mainStep ok
  · rw [hs]
    exact h.otherStep event

theorem run_sound (hrefusal : setup.refusal = none) (events : List EngineEvent) :
    (run setup events).Sound setup :=
  run_invariant (Engine.step setup) (start setup) (fun _ s => s.Sound setup)
    (start_sound hrefusal) (fun _ _ event h => h.step event) events

theorem step_returned {code : ℕ} (h : s.main = .returned code) (event : EngineEvent) :
    Engine.step setup s event = s := by
  unfold Engine.step
  rw [h]

/-- An engine that is refused does nothing at all. -/
theorem run_refused {code : ℕ} (hrefusal : setup.refusal = some code) (events : List EngineEvent) :
    run setup events = start setup :=
  run_invariant (Engine.step setup) (start setup) (fun _ s => s = start setup) rfl
    (fun _ s event hs => by
      have hmain : (start setup).main = .returned code := by
        rw [start, hrefusal]
      rw [hs]
      exact step_returned hmain event) events

theorem monitored_of_unrefused (hrefusal : setup.refusal = none)
    (hrequested : setup.monitorRequested = true) : setup.monitorActive = true := by
  cases hactive : setup.monitorActive with
  | true => rfl
  | false =>
      rw [Setup.refusal, hrequested, hactive] at hrefusal
      cases hrefusal

/-- While packets are diverted there is a listener for them, a socket for the DNS queries among
them, and someone who watches the tray if there is one. When the engine has returned nothing of
this is left, there is no session, and the threads of the capture, the DNS relay and the relay's
`run` have ended. The exit code that it settles on while packets are still diverted says what is
so. -/
theorem engine_fails_open (setup : Setup) (events : List EngineEvent) :
    let s := run setup events
    (s.packetHandle = true ∨ s.quicDropHandle = true →
      s.relay.listenSock = true ∧ (setup.useWorkerDns = true → s.dnsSocket = true) ∧
        (setup.monitorRequested = true → setup.monitorActive = true)) ∧
    (∀ code, s.main = .returned code →
      (s.packetHandle = false ∧ s.quicDropHandle = false ∧ s.dnsSocket = false ∧
        s.relay.listenSock = false) ∧
      s.relay.sessions = ∅ ∧ s.dnsThreads = 0 ∧
      (s.packetThread = .absent ∨ s.packetThread = .ended) ∧
      (s.relay.runner = .returned ∧ s.relayExited = true ∨ setup.refusal = some code)) ∧
    ∀ code, s.main = .stoppingPackets code →
      s.packetHandle = true ∧ Fair setup code s.flags := by
  intro s
  cases hrefusal : setup.refusal with
  | some refused =>
      have hs : s = start setup := run_refused hrefusal events
      have hmain : s.main = .returned refused := by
        rw [hs, start, hrefusal]
      have hoff : s.packetHandle = false ∧ s.quicDropHandle = false ∧ s.dnsSocket = false ∧
          s.relay.listenSock = false := by
        rw [hs]
        exact ⟨rfl, rfl, rfl, rfl⟩
      refine ⟨fun hopen => ?_, fun code hcode => ⟨hoff, ?_⟩, fun code hcode => ?_⟩
      · rw [hoff.1, hoff.2.1] at hopen
        rcases hopen with hopen | hopen <;> cases hopen
      · rw [hmain] at hcode
        cases hcode
        rw [hs]
        exact ⟨rfl, rfl, Or.inl rfl, Or.inr rfl⟩
      · rw [hmain] at hcode
        cases hcode
  | none =>
      have hsound : s.Sound setup := run_sound hrefusal events
      refine ⟨fun hopen => ?_, fun code hcode => ?_, fun code hcode => ⟨?_, ?_⟩⟩
      · obtain ⟨hlistening, hanswering⟩ :=
          MainPhase.answering_of_diverting (hsound.packets.handles hopen)
        exact ⟨hsound.relay.listening hlistening, fun hworker => hsound.dns.up hworker hanswering,
          monitored_of_unrefused hrefusal⟩
      · have hno {b p : Bool} (himp : b = true → p = true) (hp : p = false) : b = false := by
          cases b with
          | false => rfl
          | true => rw [himp rfl] at hp; cases hp
        have hdiverting : s.main.diverting = false := by rw [hcode]; rfl
        have hsocket : s.dnsSocket = false := hno hsound.dns.down (by rw [hcode]; rfl)
        have hstopper := hsound.relay.stopped (by rw [hcode]; rfl)
        have hexited := hsound.relay.joined (by rw [hcode]; rfl)
        refine ⟨⟨hno (fun h => hsound.packets.handles (Or.inl h)) hdiverting,
          hno (fun h => hsound.packets.handles (Or.inr h)) hdiverting, hsocket, ?_⟩,
          hsound.relay.drained (by rw [hcode]; rfl), ?_,
          hsound.packets.thread_over (by rw [hcode]; rfl),
          Or.inl ⟨hsound.relay.exited hexited, hexited⟩⟩
        · exact (hsound.relay.listener.closed (by rw [hstopper]; decide)).1
        · by_contra hlive
          rw [hsound.dns.threads hlive] at hsocket
          cases hsocket
      · exact hsound.packets.diverts (by rw [hcode]; rfl)
      · exact hsound.verdict.told code hcode

/-! ## Where an exit code comes from -/

/-- Nobody has read a packet yet, or `main` gave up before. -/
def early : MainPhase → Bool
  | .manual _ | .waiting _ | .waitingExited _ | .bound | .startingDns | .openingPackets
  | .openingDrop | .startingThread | .stoppingRelay none | .joiningRelay none => true
  | _ => false

def settled? : MainPhase → Option ℕ
  | .stoppingPackets code | .joiningPackets code | .stoppingDns code | .joiningDns code
  | .destroying code _ | .returned code => some code
  | .stoppingRelay code | .joiningRelay code => code
  | _ => none

/-- A code is kept, and a new one is that of the verdict, unless no packet was read. -/
def Keeps (s s' : Engine) : Prop :=
  (early s'.main = true → s'.packetThread = .absent) ∧
    ∀ code, settled? s'.main = some code →
      s'.packetThread = .absent ∨ s'.main = .stoppingPackets code ∨
        settled? s.main = some code ∧ s'.packetThread = s.packetThread

theorem keeps_mainStep (h : early s.main = true → s.packetThread = .absent) (ok : Bool) :
    Keeps s (s.mainStep setup ok) := by
  have hsame {s' : Engine} (hearly : early s.main = true)
      (hthread : s'.packetThread = s.packetThread) : Keeps s s' :=
    ⟨fun _ => hthread.trans (h hearly), fun _ _ => Or.inl (hthread.trans (h hearly))⟩
  have hnone {s' : Engine} (hearly : early s'.main = false) (hcode : settled? s'.main = none) :
      Keeps s s' :=
    ⟨(fun h => by rw [hearly] at h; cases h), fun _ h => by rw [hcode] at h; cases h⟩
  have hon {s' : Engine} (hearly : early s'.main = false)
      (hcode : settled? s'.main = settled? s.main)
      (hthread : s'.packetThread = s.packetThread) : Keeps s s' :=
    ⟨(fun h => by rw [hearly] at h; cases h),
      fun _ h => Or.inr (Or.inr ⟨hcode.symm.trans h, hthread⟩)⟩
  unfold Engine.mainStep
  split <;> rename_i hm
  · exact hsame (by rw [hm]; rfl) rfl
  · exact hsame (by rw [hm]; rfl) rfl
  · exact hsame (by rw [hm]; rfl) rfl
  · split <;> exact hsame (by rw [hm]; rfl) rfl
  · split <;> exact hsame (by rw [hm]; rfl) rfl
  · split <;> exact hsame (by rw [hm]; rfl) rfl
  · split
    · exact hsame (by rw [hm]; rfl) rfl
    · split <;> exact hsame (by rw [hm]; rfl) rfl
  · split <;> exact hsame (by rw [hm]; rfl) rfl
  · split
    · exact hsame (by rw [hm]; rfl) rfl
    · split <;> exact hsame (by rw [hm]; rfl) rfl
  · -- the thread that reads packets is started
    split
    · exact hnone rfl rfl
    · exact hsame (by rw [hm]; rfl) rfl
  · exact hnone rfl rfl
  · exact hnone rfl rfl
  · exact hnone rfl rfl
  · exact hnone rfl rfl
  · -- the verdict
    exact ⟨nofun, fun code hcode => Or.inr (Or.inl (by cases hcode; rfl))⟩
  · exact hnone rfl rfl
  · exact hon rfl (by rw [hm]; rfl) rfl
  · split
    · exact hon rfl (by rw [hm]; rfl) rfl
    · exact hon (by rw [hm]; rfl) rfl rfl
  · exact hon rfl (by rw [hm]; rfl) rfl
  · split
    · exact hon rfl (by rw [hm]; rfl) rfl
    · exact hon (by rw [hm]; rfl) rfl rfl
  · rename_i code
    cases code with
    | none => split <;> exact hsame (by rw [hm]; rfl) rfl
    | some code =>
        split
        · exact hon rfl (by rw [hm]; rfl) rfl
        · exact hon (show early s.main = false by rw [hm]; rfl) rfl rfl
  · rename_i code
    cases code with
    | none => split <;> exact hsame (by rw [hm]; rfl) rfl
    | some code =>
        split
        · exact hon rfl (by rw [hm]; rfl) rfl
        · exact hon (by rw [hm]; rfl) rfl rfl
  · exact hon rfl (by rw [hm]; rfl) rfl
  · exact hon rfl (by rw [hm]; rfl) rfl
  · exact hon (by rw [hm]; rfl) rfl rfl

theorem absent_otherStep (h : s.packetThread = .absent) (event : EngineEvent) :
    (s.otherStep setup event).packetThread = .absent := by
  cases event with
  | monitor =>
      rw [Engine.otherStep]
      split <;> exact h
  | runThrows =>
      rw [Engine.otherStep, Engine.runThrows]
      split <;> exact h
  | relayThread =>
      rw [Engine.otherStep]
      split <;> exact h
  | dnsThread =>
      rw [Engine.otherStep]
      split <;> exact h
  | packets ok =>
      rw [Engine.otherStep, packetStep, h]
      exact h
  | _ => exact h

/-- A code that is settled was the verdict of `main` when packets were still diverted, or no
packet was ever read. -/
structure Told (setup : Setup) (events : List EngineEvent) : Prop where
  early : early (run setup events).main = true → (run setup events).packetThread = .absent
  settled : ∀ code, settled? (run setup events).main = some code →
    (run setup events).packetThread = .absent ∨
      ∃ before after, events = before ++ after ∧ (run setup before).main = .stoppingPackets code

theorem Told.concat {events : List EngineEvent} (h : Told setup events) {event : EngineEvent}
    (hkeeps : Keeps (run setup events) (run setup (events ++ [event]))) :
    Told setup (events ++ [event]) := by
  refine ⟨hkeeps.1, fun code hcode => ?_⟩
  rcases hkeeps.2 code hcode with habsent | hnow | ⟨hbefore, hthread⟩
  · exact Or.inl habsent
  · exact Or.inr ⟨events ++ [event], [], (List.append_nil _).symm, hnow⟩
  · rcases h.settled code hbefore with habsent | ⟨before, after, heq, hmain⟩
    · exact Or.inl (hthread.trans habsent)
    · exact Or.inr ⟨before, after ++ [event], by rw [heq, List.append_assoc], hmain⟩

theorem Told.other {events : List EngineEvent} (h : Told setup events) {event : EngineEvent}
    (hrun : run setup (events ++ [event]) = (run setup events).otherStep setup event) :
    Told setup (events ++ [event]) := by
  constructor
  · rw [hrun, main_otherStep]
    exact fun hearly => absent_otherStep (h.early hearly) event
  · rw [hrun, main_otherStep]
    intro code hcode
    rcases h.settled code hcode with habsent | ⟨before, after, heq, hmain⟩
    · exact Or.inl (absent_otherStep habsent event)
    · exact Or.inr ⟨before, after ++ [event], by rw [heq, List.append_assoc], hmain⟩

theorem run_told (setup : Setup) (events : List EngineEvent) : Told setup events := by
  induction events using List.reverseRecOn with
  | nil => exact ⟨fun _ => rfl, fun _ _ => Or.inl rfl⟩
  | append_singleton events event ih =>
      have hrun : run setup (events ++ [event]) = Engine.step setup (run setup events) event :=
        run_concat _ _ _ _
      rcases step_cases setup (run setup events) event with ⟨hs, -⟩ | ⟨-, ok, hs⟩ | ⟨-, hs⟩
      · rw [hs] at hrun
        refine ih.concat ?_
        rw [hrun]
        exact ⟨ih.early, fun _ hcode => Or.inr (Or.inr ⟨hcode, rfl⟩)⟩
      · refine ih.concat ?_
        rw [hrun, hs]
        exact keeps_mainStep ih.early ok
      · exact ih.other (hrun.trans hs)

/-- An exit code is the one of an engine that never read a packet, or `main` settled on it while
packets were diverted, and then what it says was so. -/
theorem engine_exits (setup : Setup) (events : List EngineEvent) {code : ℕ}
    (hcode : (run setup events).main = .returned code) :
    (run setup events).packetThread = .absent ∨
      ∃ before after, events = before ++ after ∧
        (run setup before).main = .stoppingPackets code ∧
        (run setup before).packetHandle = true ∧ Fair setup code (run setup before).flags := by
  cases hrefusal : setup.refusal with
  | some refused =>
      rw [run_refused hrefusal]
      exact Or.inl rfl
  | none =>
      rcases (run_told setup events).settled code (by rw [hcode]; rfl) with
        habsent | ⟨before, after, heq, hmain⟩
      · exact Or.inl habsent
      · have hsound := run_sound hrefusal before
        exact Or.inr ⟨before, after, heq, hmain, hsound.packets.diverts (by rw [hmain]; rfl),
          hsound.verdict.told code hmain⟩

def sampleSetup : Setup where
  monitorRequested := true
  monitorActive := true
  winsock := true
  configUnreadable := false
  workerMissing := false
  rulesInvalid := false
  manualProxy := false
  useWorkerDns := true
  dropsQuic := false
  maxConnections := 4

/-- The engine comes up, and the packets cannot be read any more. -/
def sampleRun : List EngineEvent :=
  [.run {}, .run {}] ++ List.replicate 7 (.main true) ++ List.replicate 3 (.packets false)

/-- An engine that is taken down because packets cannot be read. -/
def sampleEnd : List EngineEvent :=
  sampleRun ++ List.replicate 20 (.main true) ++ List.replicate 9 .dnsThread ++
    List.replicate 20 (.main true) ++ [.run {}, .relayThread] ++ List.replicate 10 (.main true)

theorem engine_exits_sample :
    (run sampleSetup sampleEnd).packetThread = .absent ∨
      ∃ before after, sampleEnd = before ++ after ∧
        (run sampleSetup before).main = .stoppingPackets 2 ∧
        (run sampleSetup before).packetHandle = true ∧
        Fair sampleSetup 2 (run sampleSetup before).flags :=
  engine_exits sampleSetup sampleEnd (by decide +kernel)

end Engine

end Lifecycle

end SplitHello
