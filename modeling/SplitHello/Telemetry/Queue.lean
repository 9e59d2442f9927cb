import SplitHello.Library.ByteString
import SplitHello.Library.History
import SplitHello.Library.KeyedTable

/-!
# The queue of probe records

Any number of threads hand their records to a queue, from which one thread of the store's own
writes them to the database in batches. `start` and `stop` exclude each other by a mutex, the
queue has another, and the flag `accepting_` is read and written with and without it.

A run is a list of events, each a step of one thread: what it does under the queue's mutex, or
a single access to a flag outside of it. What the records say does not matter here; `α` stands
for it.
-/

namespace SplitHello

namespace Telemetry

open ByteString KeyedTable History

def writeBatchSize : ℕ := 256

structure ProbeRecord (α : Type) where
  occurredAt : ℤ := 0
  content : α
  deriving DecidableEq, Repr

/-- What becomes of a call of `record`. -/
inductive Outcome
  | queued
  | dropped
  | refused
  deriving DecidableEq, Repr

/-- Where the thread is that is in `start` or `stop`. -/
inductive Lifecycle
  | idle
  | starting
  | preparing
  | clearing
  | accepting
  | spawning
  | stopping
  | joining
  deriving DecidableEq, Repr

/-- Where the writer is. `failed` is a writer that will still clear the queue. -/
inductive Writer (α : Type)
  | none
  | opening
  | failed
  | waiting
  | lingering
  | writing (batch : List (ProbeRecord α))
  | closing
  | exited
  deriving DecidableEq, Repr

/-- What the database and the clock say to the writer. -/
structure WriterInput where
  opens : Bool := true
  prepares : Bool := true
  writes : Bool := true
  timeout : Bool := false
  deriving DecidableEq, Repr

inductive StoreEvent (α : Type)
  | record (call : ℕ) (record : ProbeRecord α) (unixSeconds : ℤ)
  | enqueue (call : ℕ)
  | start
  | stop
  | lifecycle (created : Bool)
  | writer (input : WriterInput)
  deriving DecidableEq, Repr

/-- `accepted`, `inserted` and `returned` are what has happened so far: the records put into
the queue, the rows the database has been given, and the calls of `record` that are over. -/
structure Store (α : Type) where
  path : Bytes
  maxQueued : ℕ
  accepting : Bool := false
  stopping : Bool := false
  droppedRecords : UInt64 := 0
  queue : List (ProbeRecord α) := []
  lifecycle : Lifecycle := .idle
  writer : Writer α := .none
  calls : Table ℕ (ProbeRecord α) := ∅
  accepted : List (ProbeRecord α) := []
  inserted : List (ProbeRecord α) := []
  returned : List (ProbeRecord α × Outcome) := []

namespace Store

variable {α : Type}

def create (path : Bytes) (maxQueued : ℕ) : Store α := { path, maxQueued := max maxQueued 64 }

/-- `record` up to the first look at the flag. A call that is still going on is not made
again. -/
def record (s : Store α) (call : ℕ) (record : ProbeRecord α) (unixSeconds : ℤ) : Store α :=
  if (s.calls.lookup call).isSome then s
  else if s.accepting = false then { s with returned := s.returned ++ [(record, .refused)] }
  else
    let occurredAt := if record.occurredAt = 0 then unixSeconds else record.occurredAt
    { s with calls := s.calls.insert call { record with occurredAt } }

/-- The block of `record` under the mutex. -/
def enqueue (s : Store α) (call : ℕ) : Store α :=
  match s.calls.lookup call with
  | none => s
  | some record =>
      let s := { s with calls := s.calls.erase call }
      if s.accepting = false then { s with returned := s.returned ++ [(record, .refused)] }
      else if s.queue.length ≥ s.maxQueued then
        { s with
          droppedRecords := s.droppedRecords + 1
          returned := s.returned ++ [(record, .dropped)] }
      else
        { s with
          queue := s.queue ++ [record]
          accepted := s.accepted ++ [record]
          returned := s.returned ++ [(record, .queued)] }

/-- `start` and `stop` wait for the mutex that both take first. -/
def start (s : Store α) : Store α :=
  match s.lifecycle with
  | .idle => { s with lifecycle := .starting }
  | _ => s

def stop (s : Store α) : Store α :=
  match s.lifecycle with
  | .idle => { s with lifecycle := .stopping }
  | _ => s

/-- A writer that has not been joined is joined once it has exited. -/
def join (s : Store α) (next : Lifecycle) : Store α :=
  match s.writer with
  | .none => { s with lifecycle := next }
  | .exited => { s with writer := .none, lifecycle := next }
  | _ => s

def lifecycleStep (s : Store α) (created : Bool) : Store α :=
  match s.lifecycle with
  | .idle => s
  | .starting =>
      if s.path = [] then { s with lifecycle := .idle }
      else if s.accepting then { s with lifecycle := .idle }
      else s.join .preparing
  | .preparing => { s with lifecycle := if created then .clearing else .idle }
  | .clearing => { s with stopping := false, queue := [], lifecycle := .accepting }
  | .accepting => { s with accepting := true, lifecycle := .spawning }
  | .spawning => { s with writer := .opening, lifecycle := .idle }
  | .stopping => { s with accepting := false, stopping := true, lifecycle := .joining }
  | .joining => s.join .idle

/-- The end of the block in which the writer waits: a batch is taken from the queue. -/
def takeBatch (s : Store α) : Store α :=
  let batch := s.queue.take writeBatchSize
  let s := { s with queue := s.queue.drop writeBatchSize }
  if batch = [] ∧ s.stopping then { s with writer := .closing }
  else { s with writer := .writing batch }

def writerLoop (s : Store α) (input : WriterInput) : Store α :=
  match s.writer with
  | .none => s
  | .opening =>
      if input.opens = false then { s with accepting := false, writer := .failed }
      else if input.prepares = false then { s with accepting := false, writer := .exited }
      else { s with writer := .waiting }
  | .failed => { s with queue := [], writer := .exited }
  | .waiting =>
      if s.stopping = false ∧ s.queue = [] then s
      else if s.stopping = false ∧ s.queue.length < writeBatchSize then
        { s with writer := .lingering }
      else s.takeBatch
  | .lingering =>
      if s.stopping ∨ s.queue.length ≥ writeBatchSize ∨ input.timeout then s.takeBatch else s
  | .writing batch =>
      -- One transaction: every row of the batch, or none.
      if input.writes then { s with inserted := s.inserted ++ batch, writer := .waiting }
      else { s with writer := .waiting }
  | .closing => { s with writer := .exited }
  | .exited => s

def step (s : Store α) : StoreEvent α → Store α
  | .record call record unixSeconds => s.record call record unixSeconds
  | .enqueue call => s.enqueue call
  | .start => s.start
  | .stop => s.stop
  | .lifecycle created => s.lifecycleStep created
  | .writer input => s.writerLoop input

/-- The records the writer has taken and not yet written. -/
def batch (s : Store α) : List (ProbeRecord α) :=
  match s.writer with
  | .writing batch => batch
  | _ => []

/-! ## The calls of `record` -/

/-- The records of the calls that put theirs into the queue. -/
def queuedRecords (returned : List (ProbeRecord α × Outcome)) : List (ProbeRecord α) :=
  (returned.filter fun call => call.2 = .queued).map Prod.fst

def droppedCalls (returned : List (ProbeRecord α × Outcome)) : ℕ :=
  returned.countP fun call => call.2 = .dropped

/-- What holds of queue and calls whether the database works or not. -/
structure Counted (s : Store α) : Prop where
  capped : s.queue.length ≤ s.maxQueued
  accepted : s.accepted = queuedRecords s.returned
  dropped : s.droppedRecords = .ofNat (droppedCalls s.returned)

variable {s : Store α}

/-- A step in which no call of `record` ends. -/
theorem Counted.congr (h : s.Counted) {s' : Store α} (hmax : s'.maxQueued = s.maxQueued)
    (hqueue : s'.queue.length ≤ s.queue.length) (haccepted : s'.accepted = s.accepted)
    (hdropped : s'.droppedRecords = s.droppedRecords) (hreturned : s'.returned = s.returned) :
    s'.Counted := by
  constructor
  case capped =>
    rw [hmax]
    exact hqueue.trans h.capped
  case accepted =>
    rw [haccepted, hreturned]
    exact h.accepted
  case dropped =>
    rw [hdropped, hreturned]
    exact h.dropped

theorem Counted.refuse (h : s.Counted) (record : ProbeRecord α) :
    ({ s with returned := s.returned ++ [(record, .refused)] } : Store α).Counted := by
  refine ⟨h.capped, ?_, ?_⟩
  · simp [queuedRecords, h.accepted]
  · simp [droppedCalls, h.dropped]

theorem Counted.record (h : s.Counted) (call : ℕ) (record : ProbeRecord α) (unixSeconds : ℤ) :
    (s.record call record unixSeconds).Counted := by
  unfold Store.record
  split
  · exact h
  · split
    · exact h.refuse record
    · exact h.congr rfl le_rfl rfl rfl rfl

theorem Counted.enqueue (h : s.Counted) (call : ℕ) : (s.enqueue call).Counted := by
  unfold Store.enqueue
  cases s.calls.lookup call with
  | none => exact h
  | some record =>
      have herased : ({ s with calls := s.calls.erase call } : Store α).Counted :=
        h.congr rfl le_rfl rfl rfl rfl
      dsimp only
      split
      · exact herased.refuse record
      · split
        · refine ⟨h.capped, ?_, ?_⟩
          · simp [queuedRecords, h.accepted]
          · simp [droppedCalls, h.dropped]
        · rename_i hroom
          refine ⟨?_, ?_, ?_⟩
          · rw [List.length_append]
            exact not_le.1 hroom
          · simp [queuedRecords, h.accepted]
          · simp [droppedCalls, h.dropped]

theorem record_frame (s : Store α) (call : ℕ) (record : ProbeRecord α) (unixSeconds : ℤ) :
    (s.record call record unixSeconds).maxQueued = s.maxQueued ∧
      (s.record call record unixSeconds).lifecycle = s.lifecycle ∧
      (s.record call record unixSeconds).accepting = s.accepting ∧
      (s.record call record unixSeconds).accepted = s.accepted := by
  unfold Store.record
  split
  · exact ⟨rfl, rfl, rfl, rfl⟩
  · split <;> exact ⟨rfl, rfl, rfl, rfl⟩

theorem enqueue_frame (s : Store α) (call : ℕ) :
    (s.enqueue call).maxQueued = s.maxQueued ∧ (s.enqueue call).lifecycle = s.lifecycle ∧
      (s.enqueue call).accepting = s.accepting ∧
      (s.accepting = false → (s.enqueue call).accepted = s.accepted) := by
  unfold Store.enqueue
  cases s.calls.lookup call with
  | none => exact ⟨rfl, rfl, rfl, fun _ => rfl⟩
  | some record =>
      dsimp only
      split
      · exact ⟨rfl, rfl, rfl, fun _ => rfl⟩
      · rename_i haccepting
        split
        · exact ⟨rfl, rfl, rfl, fun _ => rfl⟩
        · exact ⟨rfl, rfl, rfl, fun hfalse => absurd hfalse haccepting⟩

/-- Only `record` touches the calls, and nothing else makes the queue longer. -/
theorem lifecycleStep_frame (s : Store α) (created : Bool) :
    (s.lifecycleStep created).maxQueued = s.maxQueued ∧
      (s.lifecycleStep created).queue.length ≤ s.queue.length ∧
      (s.lifecycleStep created).accepted = s.accepted ∧
      (s.lifecycleStep created).droppedRecords = s.droppedRecords ∧
      (s.lifecycleStep created).returned = s.returned := by
  unfold lifecycleStep join
  cases s.lifecycle with
  | starting =>
      dsimp only
      split
      · exact ⟨rfl, le_rfl, rfl, rfl, rfl⟩
      · split
        · exact ⟨rfl, le_rfl, rfl, rfl, rfl⟩
        · cases s.writer <;> exact ⟨rfl, le_rfl, rfl, rfl, rfl⟩
  | clearing => exact ⟨rfl, Nat.zero_le _, rfl, rfl, rfl⟩
  | joining => cases s.writer <;> exact ⟨rfl, le_rfl, rfl, rfl, rfl⟩
  | _ => exact ⟨rfl, le_rfl, rfl, rfl, rfl⟩

theorem takeBatch_frame (s : Store α) :
    s.takeBatch.maxQueued = s.maxQueued ∧ s.takeBatch.queue.length ≤ s.queue.length ∧
      s.takeBatch.accepted = s.accepted ∧ s.takeBatch.droppedRecords = s.droppedRecords ∧
      s.takeBatch.returned = s.returned := by
  have hshorter : (s.queue.drop writeBatchSize).length ≤ s.queue.length := by
    rw [List.length_drop]
    exact Nat.sub_le _ _
  unfold takeBatch
  dsimp only
  split <;> exact ⟨rfl, hshorter, rfl, rfl, rfl⟩

theorem writerLoop_frame (s : Store α) (input : WriterInput) :
    (s.writerLoop input).maxQueued = s.maxQueued ∧
      (s.writerLoop input).queue.length ≤ s.queue.length ∧
      (s.writerLoop input).accepted = s.accepted ∧
      (s.writerLoop input).droppedRecords = s.droppedRecords ∧
      (s.writerLoop input).returned = s.returned := by
  unfold writerLoop
  cases s.writer with
  | none => exact ⟨rfl, le_rfl, rfl, rfl, rfl⟩
  | opening =>
      dsimp only
      split
      · exact ⟨rfl, le_rfl, rfl, rfl, rfl⟩
      · split <;> exact ⟨rfl, le_rfl, rfl, rfl, rfl⟩
  | failed => exact ⟨rfl, Nat.zero_le _, rfl, rfl, rfl⟩
  | waiting =>
      dsimp only
      split
      · exact ⟨rfl, le_rfl, rfl, rfl, rfl⟩
      · split
        · exact ⟨rfl, le_rfl, rfl, rfl, rfl⟩
        · exact takeBatch_frame s
  | lingering =>
      dsimp only
      split
      · exact takeBatch_frame s
      · exact ⟨rfl, le_rfl, rfl, rfl, rfl⟩
  | writing batch =>
      dsimp only
      split <;> exact ⟨rfl, le_rfl, rfl, rfl, rfl⟩
  | closing => exact ⟨rfl, le_rfl, rfl, rfl, rfl⟩
  | exited => exact ⟨rfl, le_rfl, rfl, rfl, rfl⟩

/-- The writer takes no part in `start` and `stop`, and switches nothing on. -/
theorem writerLoop_quiet (s : Store α) (input : WriterInput) :
    (s.writerLoop input).lifecycle = s.lifecycle ∧
      (s.accepting = false → (s.writerLoop input).accepting = false) := by
  have htake : s.takeBatch.lifecycle = s.lifecycle ∧ s.takeBatch.accepting = s.accepting := by
    unfold takeBatch
    dsimp only
    split <;> exact ⟨rfl, rfl⟩
  unfold writerLoop
  cases s.writer with
  | opening =>
      dsimp only
      split
      · exact ⟨rfl, fun _ => rfl⟩
      · split
        · exact ⟨rfl, fun _ => rfl⟩
        · exact ⟨rfl, id⟩
  | waiting =>
      dsimp only
      split
      · exact ⟨rfl, id⟩
      · split
        · exact ⟨rfl, id⟩
        · exact ⟨htake.1, htake.2.trans⟩
  | lingering =>
      dsimp only
      split
      · exact ⟨htake.1, htake.2.trans⟩
      · exact ⟨rfl, id⟩
  | writing batch =>
      dsimp only
      split <;> exact ⟨rfl, id⟩
  | _ => exact ⟨rfl, id⟩

theorem Counted.step (h : s.Counted) (event : StoreEvent α) : (s.step event).Counted := by
  cases event with
  | record call record unixSeconds => exact h.record call record unixSeconds
  | enqueue call => exact h.enqueue call
  | start =>
      rw [Store.step, Store.start]
      cases s.lifecycle <;> exact h.congr rfl le_rfl rfl rfl rfl
  | stop =>
      rw [Store.step, Store.stop]
      cases s.lifecycle <;> exact h.congr rfl le_rfl rfl rfl rfl
  | lifecycle created =>
      obtain ⟨hmax, hqueue, haccepted, hdropped, hreturned⟩ := lifecycleStep_frame s created
      exact h.congr hmax hqueue haccepted hdropped hreturned
  | writer input =>
      obtain ⟨hmax, hqueue, haccepted, hdropped, hreturned⟩ := writerLoop_frame s input
      exact h.congr hmax hqueue haccepted hdropped hreturned

theorem create_counted (path : Bytes) (maxQueued : ℕ) :
    (create path maxQueued : Store α).Counted :=
  ⟨Nat.zero_le _, rfl, rfl⟩

/-- A call is refused only while the store accepts nothing. -/
theorem not_accepting_of_refused {event : StoreEvent α} {record : ProbeRecord α}
    (hrefused : (s.step event).returned = s.returned ++ [(record, .refused)]) :
    s.accepting = false := by
  have hsame : s.returned ≠ s.returned ++ [(record, .refused)] := by simp
  cases event with
  | record call record' unixSeconds =>
      rw [Store.step, Store.record] at hrefused
      split at hrefused
      · exact absurd hrefused hsame
      · split at hrefused
        · assumption
        · exact absurd hrefused hsame
  | enqueue call =>
      rw [Store.step, Store.enqueue] at hrefused
      cases hlookup : s.calls.lookup call with
      | none =>
          simp only [hlookup] at hrefused
          exact absurd hrefused hsame
      | some record' =>
          simp only [hlookup] at hrefused
          split at hrefused
          · assumption
          · split at hrefused <;> simp at hrefused
  | start =>
      rw [Store.step, Store.start] at hrefused
      cases hphase : s.lifecycle <;> simp [hphase] at hrefused
  | stop =>
      rw [Store.step, Store.stop] at hrefused
      cases hphase : s.lifecycle <;> simp [hphase] at hrefused
  | lifecycle created =>
      rw [Store.step, (lifecycleStep_frame s created).2.2.2.2] at hrefused
      exact absurd hrefused hsame
  | writer input =>
      rw [Store.step, (writerLoop_frame s input).2.2.2.2] at hrefused
      exact absurd hrefused hsame

end Store

end Telemetry

end SplitHello
