import SplitHello.Telemetry.Queue

/-!
# Every queued record is written once

As long as the database does what it is asked, the records that were accepted are those that
have been inserted, then those the writer holds, then the queue, in this order. The writer
exits only after it has found the queue empty, at a time when nothing is accepted.
-/

namespace SplitHello

namespace Telemetry

open ByteString KeyedTable History

variable {α : Type}

/-- The calls of the database succeed. -/
def StoreEvent.Succeeds : StoreEvent α → Prop
  | .writer input => input.opens = true ∧ input.prepares = true ∧ input.writes = true
  | _ => True

namespace Store

structure Sound (s : Store α) : Prop where
  ledger : s.accepted = s.inserted ++ s.batch ++ s.queue
  flags : s.stopping = true → s.accepting = false
  working : s.writer ≠ .failed
  absent : s.writer = .none → s.lifecycle = .spawning ∨ s.queue = [] ∧ s.accepting = false
  gone : s.writer = .closing ∨ s.writer = .exited → s.queue = [] ∧ s.accepting = false
  joined : s.lifecycle = .preparing ∨ s.lifecycle = .clearing ∨ s.lifecycle = .accepting ∨
    s.lifecycle = .spawning → s.writer = .none
  cleared : s.lifecycle = .accepting ∨ s.lifecycle = .spawning → s.stopping = false
  stopped : s.lifecycle = .joining → s.accepting = false ∧ s.stopping = true

variable {s : Store α}

/-- While `start` has no writer and accepts nothing yet, the queue is empty. -/
theorem Sound.queue_eq_nil (h : s.Sound)
    (hphase : s.lifecycle = .preparing ∨ s.lifecycle = .clearing ∨ s.lifecycle = .accepting) :
    s.writer = .none ∧ s.queue = [] ∧ s.accepting = false := by
  have hwriter : s.writer = .none := h.joined (by tauto)
  refine ⟨hwriter, (h.absent hwriter).resolve_left fun hspawning => ?_⟩
  rw [hspawning] at hphase
  simp at hphase

/-- A record is taken only while there is a writer, or one is about to be started. -/
theorem Sound.record (h : s.Sound) (call : ℕ) (record : ProbeRecord α) (unixSeconds : ℤ) :
    (s.record call record unixSeconds).Sound := by
  unfold Store.record
  split
  · exact h
  · split
    · exact ⟨h.ledger, h.flags, h.working, h.absent, h.gone, h.joined, h.cleared, h.stopped⟩
    · exact ⟨h.ledger, h.flags, h.working, h.absent, h.gone, h.joined, h.cleared, h.stopped⟩

theorem Sound.enqueue (h : s.Sound) (call : ℕ) : (s.enqueue call).Sound := by
  unfold Store.enqueue
  cases s.calls.lookup call with
  | none => exact h
  | some record =>
      dsimp only
      split
      · exact ⟨h.ledger, h.flags, h.working, h.absent, h.gone, h.joined, h.cleared, h.stopped⟩
      · rename_i haccepting
        split
        · exact ⟨h.ledger, h.flags, h.working, h.absent, h.gone, h.joined, h.cleared, h.stopped⟩
        · refine ⟨?_, h.flags, h.working, ?_, ?_, h.joined, h.cleared, h.stopped⟩
          · rw [← List.append_assoc]
            exact congrArg (· ++ [record]) h.ledger
          · intro hwriter
            exact (h.absent hwriter).imp_right fun hidle => absurd hidle.2 haccepting
          · intro hwriter
            exact absurd (h.gone hwriter).2 haccepting

theorem Sound.start (h : s.Sound) : s.start.Sound := by
  unfold Store.start
  cases hphase : s.lifecycle with
  | idle =>
      refine ⟨h.ledger, h.flags, h.working, ?_, h.gone, by simp, by simp, by simp⟩
      intro hwriter
      refine Or.inr ((h.absent hwriter).resolve_left ?_)
      simp [hphase]
  | _ => exact h

theorem Sound.stop (h : s.Sound) : s.stop.Sound := by
  unfold Store.stop
  cases hphase : s.lifecycle with
  | idle =>
      refine ⟨h.ledger, h.flags, h.working, ?_, h.gone, by simp, by simp, by simp⟩
      intro hwriter
      refine Or.inr ((h.absent hwriter).resolve_left ?_)
      simp [hphase]
  | _ => exact h

/-- A writer that has exited has left nothing behind. -/
theorem Sound.join (h : s.Sound) {next : Lifecycle}
    (hphase : s.lifecycle = .starting ∨ s.lifecycle = .joining)
    (hnext : next = .preparing ∨ next = .idle) : (s.join next).Sound := by
  have hspawning : s.lifecycle ≠ .spawning := by
    rcases hphase with h | h <;> simp [h]
  unfold Store.join
  cases hwriter : s.writer with
  | none =>
      have hidle := (h.absent hwriter).resolve_left hspawning
      refine ⟨?_, h.flags, by simp, fun _ => Or.inr hidle, by simp, fun _ => rfl, ?_, ?_⟩
      · rw [h.ledger, batch, batch, hwriter]
      · rcases hnext with rfl | rfl <;> simp
      · rcases hnext with rfl | rfl <;> simp
  | exited =>
      have hidle := h.gone (Or.inr hwriter)
      refine ⟨?_, h.flags, by simp, fun _ => Or.inr hidle, by simp, fun _ => rfl, ?_, ?_⟩
      · rw [h.ledger, batch, batch, hwriter]
      · rcases hnext with rfl | rfl <;> simp
      · rcases hnext with rfl | rfl <;> simp
  | _ => exact h

/-- Where the mutex is given back and nothing else has changed. -/
theorem Sound.leave (h : s.Sound) (hspawning : s.lifecycle ≠ .spawning) :
    ({ s with lifecycle := .idle } : Store α).Sound :=
  ⟨h.ledger, h.flags, h.working, fun hwriter => Or.inr ((h.absent hwriter).resolve_left hspawning),
    h.gone, by simp, by simp, by simp⟩

theorem Sound.lifecycleStep (h : s.Sound) (created : Bool) : (s.lifecycleStep created).Sound := by
  unfold Store.lifecycleStep
  cases hphase : s.lifecycle with
  | idle => exact h
  | starting =>
      dsimp only
      split
      · exact h.leave (by simp [hphase])
      · split
        · exact h.leave (by simp [hphase])
        · exact h.join (Or.inl hphase) (Or.inl rfl)
  | preparing =>
      obtain ⟨hwriter, hidle⟩ := h.queue_eq_nil (Or.inl hphase)
      refine ⟨h.ledger, h.flags, h.working, fun _ => Or.inr hidle, h.gone, fun _ => hwriter, ?_, ?_⟩
      · cases created <;> simp
      · cases created <;> simp
  | clearing =>
      obtain ⟨hwriter, hqueue, haccepting⟩ := h.queue_eq_nil (Or.inr (Or.inl hphase))
      refine ⟨?_, fun _ => haccepting, h.working, fun _ => Or.inr ⟨rfl, haccepting⟩,
        fun _ => ⟨rfl, haccepting⟩, fun _ => hwriter, fun _ => rfl, by simp⟩
      rw [h.ledger, hqueue]
      rfl
  | accepting =>
      obtain ⟨hwriter, hqueue, -⟩ := h.queue_eq_nil (Or.inr (Or.inr hphase))
      have hcleared := h.cleared (Or.inl hphase)
      refine ⟨h.ledger, ?_, h.working, fun _ => Or.inl rfl, ?_, fun _ => hwriter,
        fun _ => hcleared, by simp⟩
      · simp [hcleared]
      · simp [hwriter]
  | spawning =>
      have hwriter := h.joined (Or.inr (Or.inr (Or.inr hphase)))
      refine ⟨?_, h.flags, by simp, by simp, by simp, by simp, by simp, by simp⟩
      rw [h.ledger, batch, batch, hwriter]
  | stopping =>
      refine ⟨h.ledger, fun _ => rfl, h.working, ?_, ?_, by simp, by simp, fun _ => ⟨rfl, rfl⟩⟩
      · intro hwriter
        exact Or.inr ⟨((h.absent hwriter).resolve_left (by simp [hphase])).1, rfl⟩
      · exact fun hwriter => ⟨(h.gone hwriter).1, rfl⟩
  | joining => exact h.join (Or.inr hphase) (Or.inr rfl)

theorem Sound.lifecycle_of_writer (h : s.Sound) (hwriter : s.writer ≠ .none) :
    ¬ (s.lifecycle = .preparing ∨ s.lifecycle = .clearing ∨ s.lifecycle = .accepting ∨
      s.lifecycle = .spawning) :=
  fun hphase => hwriter (h.joined hphase)

/-- A step of the writer's loop. -/
theorem Sound.advance (h : s.Sound) (hwriter : s.writer ≠ .none) {s' : Store α}
    (hledger : s'.accepted = s'.inserted ++ s'.batch ++ s'.queue)
    (hstopping : s'.stopping = s.stopping) (haccepting : s'.accepting = s.accepting)
    (hlifecycle : s'.lifecycle = s.lifecycle) (hworking : s'.writer ≠ .failed)
    (hpresent : s'.writer ≠ .none)
    (hover : s'.writer = .closing ∨ s'.writer = .exited → s'.queue = [] ∧ s.accepting = false) :
    s'.Sound := by
  have hphase := h.lifecycle_of_writer hwriter
  refine ⟨hledger, ?_, hworking, fun hnone => absurd hnone hpresent, ?_, ?_, ?_, ?_⟩
  · rw [hstopping, haccepting]
    exact h.flags
  · rw [haccepting]
    exact hover
  · rw [hlifecycle]
    exact fun hjoined => absurd hjoined hphase
  · rw [hlifecycle]
    exact fun hcleared => absurd (by tauto) hphase
  · rw [hlifecycle, haccepting, hstopping]
    exact h.stopped

theorem Sound.takeBatch (h : s.Sound) (hwriter : s.writer = .waiting ∨ s.writer = .lingering) :
    s.takeBatch.Sound := by
  have hpresent : s.writer ≠ .none := by
    rcases hwriter with hw | hw <;> simp [hw]
  have hledger : s.accepted = s.inserted ++ s.queue := by
    rw [h.ledger, batch]
    rcases hwriter with hw | hw <;> simp [hw]
  unfold Store.takeBatch
  dsimp only
  split
  · rename_i hlast
    have hqueue : s.queue = [] := by
      rcases List.take_eq_nil_iff.1 hlast.1 with hzero | hnil
      · cases hzero
      · exact hnil
    refine h.advance hpresent ?_ rfl rfl rfl (by simp) (by simp) fun _ => ?_
    · rw [hledger, batch, hqueue]
      simp
    · rw [hqueue]
      exact ⟨rfl, h.flags hlast.2⟩
  · refine h.advance hpresent ?_ rfl rfl rfl (by simp) (by simp) (by simp)
    rw [hledger, batch, List.append_assoc, List.take_append_drop]

theorem Sound.writerLoop (h : s.Sound) (input : WriterInput) (hopens : input.opens = true)
    (hprepares : input.prepares = true) (hwrites : input.writes = true) :
    (s.writerLoop input).Sound := by
  unfold Store.writerLoop
  cases hwriter : s.writer with
  | none => exact h
  | opening =>
      dsimp only
      rw [if_neg (by simp [hopens]), if_neg (by simp [hprepares])]
      refine h.advance (by simp [hwriter]) ?_ rfl rfl rfl (by simp) (by simp) (by simp)
      rw [h.ledger, batch, batch, hwriter]
  | failed => exact absurd hwriter h.working
  | waiting =>
      dsimp only
      split
      · exact h
      · split
        · refine h.advance (by simp [hwriter]) ?_ rfl rfl rfl (by simp) (by simp) (by simp)
          rw [h.ledger, batch, batch, hwriter]
        · exact h.takeBatch (Or.inl hwriter)
  | lingering =>
      dsimp only
      split
      · exact h.takeBatch (Or.inr hwriter)
      · exact h
  | writing batch =>
      dsimp only
      rw [if_pos hwrites]
      refine h.advance (by simp [hwriter]) ?_ rfl rfl rfl (by simp) (by simp) (by simp)
      rw [h.ledger, Store.batch, Store.batch, hwriter]
      simp
  | closing =>
      have hover := h.gone (Or.inl hwriter)
      refine h.advance (by simp [hwriter]) ?_ rfl rfl rfl (by simp) (by simp) fun _ => hover
      rw [h.ledger, batch, batch, hwriter]
  | exited => exact h

theorem Sound.step (h : s.Sound) {event : StoreEvent α} (hevent : event.Succeeds) :
    (s.step event).Sound := by
  cases event with
  | record call record unixSeconds => exact h.record call record unixSeconds
  | enqueue call => exact h.enqueue call
  | start => exact h.start
  | stop => exact h.stop
  | lifecycle created => exact h.lifecycleStep created
  | writer input => exact h.writerLoop input hevent.1 hevent.2.1 hevent.2.2

theorem create_sound (path : Bytes) (maxQueued : ℕ) : (create path maxQueued : Store α).Sound :=
  ⟨rfl, by simp [create], by simp [create], fun _ => Or.inr ⟨rfl, rfl⟩, by simp [create],
    by simp [create], by simp [create], by simp [create]⟩

theorem run_counted (path : Bytes) (maxQueued : ℕ) (events : List (StoreEvent α)) :
    (run step (create path maxQueued) events).Counted ∧
      (run step (create path maxQueued) events).maxQueued = max maxQueued 64 := by
  refine run_invariant step _ (fun _ s => s.Counted ∧ s.maxQueued = max maxQueued 64)
    ⟨create_counted path maxQueued, rfl⟩ ?_ events
  rintro - s event ⟨hs, hmax⟩
  refine ⟨hs.step event, Eq.trans ?_ hmax⟩
  cases event with
  | record call record unixSeconds => exact (record_frame s call record unixSeconds).1
  | enqueue call => exact (enqueue_frame s call).1
  | start =>
      rw [step, Store.start]
      cases s.lifecycle <;> rfl
  | stop =>
      rw [step, Store.stop]
      cases s.lifecycle <;> rfl
  | lifecycle created => exact (lifecycleStep_frame s created).1
  | writer input => exact (writerLoop_frame s input).1

theorem run_sound {path : Bytes} {maxQueued : ℕ} {events : List (StoreEvent α)}
    (hevents : ∀ event ∈ events, event.Succeeds) :
    (run step (create path maxQueued) events).Sound := by
  induction events using List.reverseRecOn with
  | nil => exact create_sound path maxQueued
  | append_singleton events event ih =>
      rw [run_concat]
      refine (ih fun e he => hevents e (List.mem_append_left _ he)).step ?_
      exact hevents event (List.mem_append_right _ (List.mem_singleton_self event))

/-- With the step with which it gives its mutex back, `stop` has joined the writer. -/
theorem Sound.join_returns (h : s.Sound) (hjoining : s.lifecycle = .joining)
    (hidle : (s.join .idle).lifecycle = .idle) :
    (s.join .idle).accepted = s.accepted ∧ (s.join .idle).inserted = s.accepted := by
  unfold Store.join at hidle ⊢
  cases hwriter : s.writer with
  | none =>
      have hempty := ((h.absent hwriter).resolve_left (by simp [hjoining])).1
      refine ⟨rfl, ?_⟩
      rw [h.ledger, batch, hwriter, hempty]
      simp
  | exited =>
      have hempty := (h.gone (Or.inr hwriter)).1
      refine ⟨rfl, ?_⟩
      rw [h.ledger, batch, hwriter, hempty]
      simp
  | _ => simp [hwriter, hjoining] at hidle

theorem Sound.stop_returns (h : s.Sound) (hjoining : s.lifecycle = .joining)
    {event : StoreEvent α} (hidle : (s.step event).lifecycle = .idle) :
    (s.step event).accepted = s.accepted ∧ (s.step event).inserted = s.accepted ∧
      (s.step event).accepting = false := by
  have hbusy : s.lifecycle ≠ .idle := by simp [hjoining]
  have haccepting := (h.stopped hjoining).1
  cases event with
  | lifecycle created =>
      have hjoin : s.lifecycleStep created = s.join .idle := by
        rw [Store.lifecycleStep]
        simp only [hjoining]
      rw [Store.step, hjoin] at hidle ⊢
      obtain ⟨haccepted, hinserted⟩ := h.join_returns hjoining hidle
      refine ⟨haccepted, hinserted, ?_⟩
      unfold Store.join
      cases s.writer <;> exact haccepting
  | record call record unixSeconds =>
      rw [Store.step, (record_frame s call record unixSeconds).2.1] at hidle
      exact absurd hidle hbusy
  | enqueue call =>
      rw [Store.step, (enqueue_frame s call).2.1] at hidle
      exact absurd hidle hbusy
  | start => simp [Store.step, Store.start, hjoining] at hidle
  | stop => simp [Store.step, Store.stop, hjoining] at hidle
  | writer input =>
      rw [Store.step, (writerLoop_quiet s input).1] at hidle
      exact absurd hidle hbusy

/-- How many more steps the writer takes at most once it is told to stop. -/
def remaining (s : Store α) : ℕ :=
  2 * s.queue.length + match s.writer with
    | .none => 0
    | .opening => 3
    | .failed => 1
    | .waiting => 2
    | .lingering => 2
    | .writing _ => 3
    | .closing => 1
    | .exited => 0

theorem takeBatch_remaining (hstopping : s.stopping = true)
    (hwriter : s.writer = .waiting ∨ s.writer = .lingering) :
    s.takeBatch.remaining < s.remaining := by
  have hbefore : s.remaining = 2 * s.queue.length + 2 := by
    rcases hwriter with h | h <;> simp [remaining, h]
  rw [hbefore]
  unfold takeBatch
  dsimp only
  split
  · rw [remaining]
    simp only [List.length_drop]
    omega
  · rename_i hmore
    have hqueue : s.queue ≠ [] := fun hnil => hmore ⟨by rw [hnil]; rfl, hstopping⟩
    have hlength := List.length_pos_of_ne_nil hqueue
    have hbatch : 0 < writeBatchSize := by decide
    rw [remaining]
    simp only [List.length_drop]
    omega

theorem Sound.writer_remaining (h : s.Sound) (hstopping : s.stopping = true) :
    s.writer = .none ∨ s.writer = .exited ∨ (s.writerLoop {}).remaining < s.remaining := by
  unfold Store.writerLoop
  cases hwriter : s.writer with
  | none => exact Or.inl rfl
  | opening => simp [remaining, hwriter]
  | failed => exact absurd hwriter h.working
  | waiting => simpa [hstopping] using takeBatch_remaining hstopping (Or.inl hwriter)
  | lingering => simpa [hstopping] using takeBatch_remaining hstopping (Or.inr hwriter)
  | writing batch => simp [remaining, hwriter]
  | closing => simp [remaining, hwriter]
  | exited => exact Or.inr (Or.inl rfl)

theorem join_of_exited (hjoining : s.lifecycle = .joining)
    (hwriter : s.writer = .none ∨ s.writer = .exited) :
    (run Store.step s [.lifecycle true]).lifecycle = .idle := by
  rw [run, List.foldl_cons, List.foldl_nil, Store.step, Store.lifecycleStep]
  simp only [hjoining, Store.join]
  rcases hwriter with hw | hw <;> simp [hw]

/-- Left to itself the writer comes to its end, and `stop` returns. -/
theorem Sound.stop_can_return (h : s.Sound) (hjoining : s.lifecycle = .joining) :
    ∃ steps, (run Store.step s
      (List.replicate steps (.writer {}) ++ [.lifecycle true])).lifecycle = .idle := by
  induction hsize : s.remaining using Nat.strong_induction_on generalizing s with
  | _ size ih =>
      rcases h.writer_remaining (h.stopped hjoining).2 with hnone | hexited | hlt
      · exact ⟨0, join_of_exited hjoining (Or.inl hnone)⟩
      · exact ⟨0, join_of_exited hjoining (Or.inr hexited)⟩
      · have hnext : (s.writerLoop {}).lifecycle = .joining :=
          (writerLoop_quiet s {}).1.trans hjoining
        obtain ⟨steps, hsteps⟩ :=
          ih _ (hsize ▸ hlt) (h.writerLoop {} rfl rfl rfl) hnext rfl
        exact ⟨steps + 1, hsteps⟩

/-- Nothing is accepted, and no thread is in `start`. -/
def Quiet (s : Store α) : Prop :=
  s.accepting = false ∧
    (s.lifecycle = .idle ∨ s.lifecycle = .stopping ∨ s.lifecycle = .joining)

/-- Without another `start` it stays so. -/
theorem Quiet.step (h : s.Quiet) {event : StoreEvent α} (hevent : event ≠ .start) :
    (s.step event).Quiet ∧ (s.step event).accepted = s.accepted := by
  obtain ⟨haccepting, hphase⟩ := h
  cases event with
  | record call record unixSeconds =>
      obtain ⟨-, hlifecycle, hsame, haccepted⟩ := record_frame s call record unixSeconds
      exact ⟨⟨hsame.trans haccepting, hlifecycle.symm ▸ hphase⟩, haccepted⟩
  | enqueue call =>
      obtain ⟨-, hlifecycle, hsame, haccepted⟩ := enqueue_frame s call
      exact ⟨⟨hsame.trans haccepting, hlifecycle.symm ▸ hphase⟩, haccepted haccepting⟩
  | start => exact absurd rfl hevent
  | stop =>
      have haccepted : s.stop.accepted = s.accepted := by
        unfold Store.stop
        cases s.lifecycle <;> rfl
      refine ⟨?_, haccepted⟩
      rw [Store.step, Store.stop]
      rcases hphase with hidle | hstopping | hjoining
      · simp only [hidle]
        exact ⟨haccepting, Or.inr (Or.inl rfl)⟩
      · simp only [hstopping]
        exact ⟨haccepting, Or.inr (Or.inl hstopping)⟩
      · simp only [hjoining]
        exact ⟨haccepting, Or.inr (Or.inr hjoining)⟩
  | lifecycle created =>
      refine ⟨?_, (lifecycleStep_frame s created).2.2.1⟩
      rw [Store.step, Store.lifecycleStep]
      rcases hphase with hidle | hstopping | hjoining
      · simp only [hidle]
        exact ⟨haccepting, Or.inl hidle⟩
      · simp only [hstopping]
        exact ⟨rfl, Or.inr (Or.inr rfl)⟩
      · simp only [hjoining]
        unfold Store.join
        cases s.writer with
        | none => exact ⟨haccepting, Or.inl rfl⟩
        | exited => exact ⟨haccepting, Or.inl rfl⟩
        | _ => exact ⟨haccepting, Or.inr (Or.inr hjoining)⟩
  | writer input =>
      obtain ⟨hlifecycle, hsame⟩ := writerLoop_quiet s input
      exact ⟨⟨hsame haccepting, hlifecycle.symm ▸ hphase⟩, (writerLoop_frame s input).2.2.1⟩

theorem Quiet.run (h : s.Quiet) {events : List (StoreEvent α)}
    (hevents : ∀ event ∈ events, event ≠ .start) :
    (History.run Store.step s events).accepted = s.accepted := by
  induction events generalizing s with
  | nil => rfl
  | cons event events ih =>
      obtain ⟨hquiet, haccepted⟩ := h.step (hevents event List.mem_cons_self)
      exact (ih hquiet fun e he => hevents e (List.mem_cons_of_mem _ he)).trans haccepted

/-- Whatever the order of the steps: the queue is capped; a call of `record` is refused only
while nothing is accepted, and else its record is queued or counted as dropped. If the
database does its part, the records queued are inserted once and in their order by the time
`stop` returns, which it can always do, and none is accepted after that before the next
`start`. -/
theorem exactly_once (path : Bytes) (maxQueued : ℕ) (events : List (StoreEvent α)) :
    let s := run step (create path maxQueued) events
    (s.queue.length ≤ max maxQueued 64 ∧ s.accepted = queuedRecords s.returned ∧
        s.droppedRecords = .ofNat (droppedCalls s.returned)) ∧
      (∀ event record, (s.step event).returned = s.returned ++ [(record, .refused)] →
        s.accepting = false) ∧
      (∀ call record, s.calls.lookup call = some record → s.accepting = true →
        (s.step (.enqueue call)).returned = s.returned ++ [(record, .queued)] ∨
          (s.step (.enqueue call)).returned = s.returned ++ [(record, .dropped)]) ∧
      ((∀ event ∈ events, event.Succeeds) →
        s.accepted = s.inserted ++ s.batch ++ s.queue ∧
          (s.lifecycle = .joining → ∃ steps, (run step s
            (List.replicate steps (.writer {}) ++ [.lifecycle true])).lifecycle = .idle) ∧
          ∀ event, s.lifecycle = .joining → (s.step event).lifecycle = .idle →
            (s.step event).inserted = (s.step event).accepted ∧
              ∀ later, (∀ event ∈ later, event ≠ .start) →
                (run step (s.step event) later).accepted = (s.step event).accepted) := by
  intro s
  obtain ⟨hcounted, hmax⟩ := run_counted path maxQueued events
  refine ⟨⟨hmax ▸ hcounted.capped, hcounted.accepted, hcounted.dropped⟩,
    fun event record => not_accepting_of_refused, ?_, fun hevents => ?_⟩
  · intro call record hcall haccepting
    rw [step, Store.enqueue]
    simp only [hcall]
    rw [if_neg (by simpa using haccepting)]
    split
    · exact Or.inr rfl
    · exact Or.inl rfl
  · have hsound : s.Sound := run_sound hevents
    refine ⟨hsound.ledger, hsound.stop_can_return, fun event hjoining hidle => ?_⟩
    obtain ⟨haccepted, hinserted, haccepting⟩ := hsound.stop_returns hjoining hidle
    refine ⟨hinserted.trans haccepted.symm, fun later hlater => ?_⟩
    have hquiet : (s.step event).Quiet := ⟨haccepting, Or.inl hidle⟩
    exact hquiet.run hlater

/-- Two calls of `record` while the writer is about to be started, one of them overtaken by
`stop`. -/
def sampleRun : List (StoreEvent Bool) :=
  [.start, .lifecycle true, .lifecycle true, .lifecycle true, .lifecycle true,
    .record 1 { content := true } 1000, .record 2 { content := false } 1001, .enqueue 1,
    .lifecycle true, .writer {}, .writer {}, .stop, .lifecycle true, .enqueue 2, .writer {},
    .writer {}, .writer {}, .writer {}]

theorem exactly_once_sample :
    (run step (create (ofString "t.db") 64 : Store Bool)
        (sampleRun ++ [.lifecycle true])).inserted = [⟨1000, true⟩] ∧
      (run step (create (ofString "t.db") 64 : Store Bool) sampleRun).returned =
        [(⟨1000, true⟩, .queued), (⟨1001, false⟩, .refused)] := by
  have hrun := exactly_once (ofString "t.db") 64 sampleRun
  have hstop := hrun.2.2.2 (by simp [sampleRun, StoreEvent.Succeeds])
  refine ⟨?_, by decide +kernel⟩
  rw [run_append]
  refine (hstop.2.2 (.lifecycle true) (by decide +kernel) (by decide +kernel)).1.trans ?_
  decide +kernel

end Store

end Telemetry

end SplitHello
