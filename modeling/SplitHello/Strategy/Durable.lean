import SplitHello.Strategy.Saving
import SplitHello.FileUtil

/-!
# The strategy file and power failures

The threads of a saver hand their snapshots to `writeAtomic` one after the other. The file on the
disk is followed here through every interleaving, up to a power failure in the middle of a write.
-/

namespace SplitHello

namespace Strategy

open ByteString History FileUtil
open Volume hiding Op

variable {T : Type*} [DecidableEq T]

/-- A saver and the disk that its file is on. -/
structure OnDisk (T : Type*) where
  saver : Saver T
  disk : WideDisk

inductive DiskEvent (T : Type*)
  | call (thread : T) (call : Call) (now : Moment)
  | commit (thread : T) (calls : Calls)

namespace OnDisk

section

variable (widen : Bytes → WideString)

/-- What the `commit` of a thread does to the disk, and its result. -/
def commitOps (d : Saver T) (thread : T) (calls : Calls) :
    List (Volume.Op WideString UInt8) × Bool :=
  match d.held thread with
  | none => ([], true)
  | some snapshot =>
      if snapshot.seq = 0 ∨ snapshot.seq ≤ d.writtenSeq then ([], true)
      else writeAtomic widen calls d.path snapshot.text

/-- The event of the saver alone, with the result that the disk gives it. -/
def toSaveEvent (d : Saver T) : DiskEvent T → SaveEvent T
  | .call thread call now => .call thread call now
  | .commit thread calls => .commit thread (commitOps widen d thread calls).2

def step (s : OnDisk T) (event : DiskEvent T) : OnDisk T :=
  { saver := s.saver.step (toSaveEvent widen s.saver event)
    disk :=
      match event with
      | .call .. => s.disk
      | .commit thread calls => applyAll (commitOps widen s.saver thread calls).1 s.disk }

/-- What the saver sees of a run. -/
def saveEvents (d : Saver T) : List (DiskEvent T) → List (SaveEvent T)
  | [] => []
  | event :: events =>
      let e := toSaveEvent widen d event
      e :: saveEvents (d.step e) events

end

variable {widen : Bytes → WideString}

theorem run_saver (s : OnDisk T) (events : List (DiskEvent T)) :
    (run (step widen) s events).saver =
      run Saver.step s.saver (saveEvents widen s.saver events) := by
  induction events generalizing s with
  | nil => rfl
  | cons event events ih => exact ih (s.step widen event)

theorem saveEvents_concat (s : OnDisk T) (events : List (DiskEvent T)) (event : DiskEvent T) :
    saveEvents widen s.saver (events ++ [event]) = saveEvents widen s.saver events ++
      [toSaveEvent widen (run (step widen) s events).saver event] := by
  induction events generalizing s with
  | nil => rfl
  | cons event' events ih =>
      rw [List.cons_append, saveEvents, saveEvents, List.cons_append]
      exact congrArg _ (ih (s.step widen event'))

/-- The file on the disk is the one that the saver believes in, and settled there. -/
def InStep (widen : Bytes → WideString) (s : OnDisk T) : Prop :=
  s.disk (widen s.saver.path) = { content := s.saver.file }

theorem path_step (d : Saver T) (e : SaveEvent T) : (d.step e).path = d.path := by
  have hstep := d.step_saveStep e
  revert hstep
  generalize d.takes e = taken
  generalize d.writes e = written
  generalize d.step e = d'
  intro hstep
  cases hstep <;> rfl

theorem path_run (d : Saver T) (events : List (SaveEvent T)) :
    (run Saver.step d events).path = d.path := by
  induction events generalizing d with
  | nil => rfl
  | cons e events ih => exact (ih (d.step e)).trans (path_step d e)

/-- A thread that has nothing to write leaves the disk alone. -/
theorem step_commit (d : Saver T) (thread : T) (calls : Calls) :
    (commitOps widen d thread calls).1 = [] ∧
        (d.step (.commit thread (commitOps widen d thread calls).2)).file = d.file ∨
      ∃ snapshot, d.held thread = some snapshot ∧ d.writtenSeq < snapshot.seq ∧
        commitOps widen d thread calls = writeAtomic widen calls d.path snapshot.text ∧
        (d.step (.commit thread (commitOps widen d thread calls).2)).file =
          if (commitOps widen d thread calls).2 then some snapshot.text else d.file := by
  cases hheld : d.held thread with
  | none =>
      have hops : commitOps widen d thread calls = ([], true) := by rw [commitOps, hheld]
      rw [hops]
      refine Or.inl ⟨rfl, ?_⟩
      rw [Saver.step, hheld]
  | some snapshot =>
      by_cases hskip : snapshot.seq = 0 ∨ snapshot.seq ≤ d.writtenSeq
      · have hops : commitOps widen d thread calls = ([], true) := by
          rw [commitOps, hheld]
          exact if_pos hskip
        rw [hops]
        refine Or.inl ⟨rfl, ?_⟩
        rw [Saver.step, hheld]
        dsimp only
        rw [Saver.commit]
        rcases hskip with hzero | hold
        · rw [if_pos hzero]
        · rw [if_pos hold, ite_self]
      · have hops : commitOps widen d thread calls =
            writeAtomic widen calls d.path snapshot.text := by
          rw [commitOps, hheld]
          exact if_neg hskip
        rw [not_or, Nat.not_le] at hskip
        refine Or.inr ⟨snapshot, rfl, hskip.2, hops, ?_⟩
        rw [Saver.step, hheld]
        dsimp only
        rw [Saver.commit, if_neg hskip.1, if_neg (Nat.not_le.2 hskip.2)]
        cases (commitOps widen d thread calls).2 <;> rfl

/-- The events whose flushes do not fail. -/
def Flushes : DiskEvent T → Prop
  | .call .. => True
  | .commit _ calls => calls.flushed = true

theorem InStep.step {s : OnDisk T} (h : s.InStep widen) {event : DiskEvent T}
    (hflushed : Flushes event)
    (hshort : ∀ thread snapshot, s.saver.held thread = some snapshot →
      s.saver.writtenSeq < snapshot.seq → snapshot.text.length < 2 ^ 32) :
    (s.step widen event).InStep widen := by
  have hpath : (s.step widen event).saver.path = s.saver.path := path_step _ _
  rw [InStep, hpath]
  cases event with
  | call thread call now =>
      dsimp only [OnDisk.step, toSaveEvent]
      have hstep := s.saver.step_call_saveStep thread call now
      revert hstep
      generalize s.saver.step (.call thread call now) = d'
      generalize s.saver.takes (.call thread call now) = taken
      intro hstep
      have hfile : d'.file = s.saver.file := by cases hstep <;> rfl
      rw [hfile]
      exact h
  | commit thread calls =>
      dsimp only [OnDisk.step, toSaveEvent]
      rcases @step_commit _ _ widen s.saver thread calls with
        ⟨hnone, hfile⟩ | ⟨snapshot, hheld, hnew, hops, hfile⟩
      · rw [hnone, hfile]
        exact h
      · have hcontent := stored_eq_self (hshort thread snapshot hheld hnew)
        have hflushed : calls.flushed = true := hflushed
        rw [hfile, hops, writeAtomic_target, hcontent, hflushed]
        cases (writeAtomic widen calls s.saver.path snapshot.text).2 with
        | false => exact h
        | true => rfl

/-- All the texts fit into a file. -/
def Short (snapshots : List Snapshot) : Prop :=
  ∀ snapshot ∈ snapshots, snapshot.text.length < 2 ^ 32

instance (snapshots : List Snapshot) : Decidable (Short snapshots) :=
  inferInstanceAs (Decidable (∀ snapshot ∈ snapshots, _))

theorem held_mem_taken {d : Saver T} (hd : d.Fresh) (events : List (SaveEvent T)) {thread : T}
    {snapshot : Snapshot} (hheld : (run Saver.step d events).held thread = some snapshot)
    (hnew : (run Saver.step d events).writtenSeq < snapshot.seq) :
    snapshot ∈ d.taken events := by
  rcases (hd.run_ordered events).held_taken thread snapshot hheld with hzero | hmem
  · omega
  · exact hmem

theorem run_inStep {s : OnDisk T} (hfresh : s.saver.Fresh) (h : s.InStep widen)
    {events : List (DiskEvent T)} (hflushed : ∀ event ∈ events, Flushes event)
    (hshort : Short (s.saver.taken (saveEvents widen s.saver events))) :
    (run (step widen) s events).InStep widen := by
  induction events using List.reverseRecOn with
  | nil => exact h
  | append_singleton events event ih =>
      rw [saveEvents_concat, Saver.taken_concat] at hshort
      have hbefore : Short (s.saver.taken (saveEvents widen s.saver events)) :=
        fun snapshot hmem => hshort snapshot (List.mem_append_left _ hmem)
      have ih := ih (fun event' hmem => hflushed event' (List.mem_append_left _ hmem)) hbefore
      rw [run_concat]
      refine ih.step (hflushed event (by simp)) fun thread snapshot hheld hnew => ?_
      rw [run_saver] at hheld hnew
      exact hbefore snapshot (held_mem_taken hfresh _ hheld hnew)

/-- A power failure at any moment, also in the middle of a write, leaves a whole snapshot behind:
the newest of those that were written, or the newer one that was just being written. -/
theorem file_survives {s : OnDisk T} (hfresh : s.saver.Fresh) (hfile : s.InStep widen)
    {events : List (DiskEvent T)} {thread : T} {calls : Calls}
    (hflushed : ∀ event ∈ events ++ [.commit thread calls], Flushes event)
    (hshort : Short (s.saver.taken (saveEvents widen s.saver events))) {k : ℕ} {left : WideDisk}
    (hleft : Survives (applyAll ((commitOps widen (run (step widen) s events).saver thread
      calls).1.take k) (run (step widen) s events).disk) left) :
    let written := s.saver.written (saveEvents widen s.saver events)
    (left (widen s.saver.path)).content =
        (written.getLast?.map Snapshot.text).or s.saver.file ∨
      ∃ snapshot ∈ s.saver.taken (saveEvents widen s.saver events),
        Saver.lastSeq written < snapshot.seq ∧
          (run (step widen) s events).saver.held thread = some snapshot ∧
          (left (widen s.saver.path)).content = some snapshot.text := by
  dsimp only
  have hordered := hfresh.run_ordered (saveEvents widen s.saver events)
  have hin := run_inStep hfresh hfile
    (fun event hmem => hflushed event (List.mem_append_left _ hmem)) hshort
  have hcalls : calls.flushed = true := hflushed (.commit thread calls) (by simp)
  rw [InStep, run_saver, path_run, hordered.file_eq] at hin
  have hsurvives := hleft (widen s.saver.path)
  rw [run_saver] at hsurvives ⊢
  rcases @step_commit _ _ widen
    (run Saver.step s.saver (saveEvents widen s.saver events)) thread calls with
    ⟨hnone, -⟩ | ⟨snapshot, hheld, hnew, hops, -⟩
  · rw [hnone, List.take_nil] at hsurvives
    have hsame := hsurvives.2 (by rw [applyAll, List.foldl_nil, hin])
    rw [hsame, applyAll, List.foldl_nil, hin]
    exact Or.inl rfl
  · have hmem := held_mem_taken hfresh _ hheld hnew
    rw [hops, path_run] at hsurvives
    rcases writeAtomic_take widen calls s.saver.path snapshot.text k
      (run (step widen) s events).disk (target_ne_temp (widen s.saver.path)) with
      hsame | ⟨-, -, hreplaced⟩
    · rw [hsame, hin] at hsurvives
      rw [hsurvives.2 rfl]
      exact Or.inl rfl
    · rw [hreplaced, hcalls] at hsurvives
      refine Or.inr ⟨snapshot, hmem, ?_, hheld, ?_⟩
      · rw [← hordered.writtenSeq_eq]
        exact hnew
      · rw [hsurvives.2 rfl, stored_eq_self (hshort snapshot hmem)]

end OnDisk

/-- A new store is cleared. -/
def clearing : List (DiskEvent Bool) :=
  let now : Moment :=
    { wall := 1, mono := 1, wall_pos := Nat.one_pos, wall_lt := firstSecond_fits,
      mono_pos := Nat.one_pos }
  [.call true ⟨now, .clear⟩ now]

def emptyDisk : OnDisk Bool :=
  { saver := { path := ofString "strategy.json" }, disk := fun _ => {} }

/-- The power fails when the second file has been created. -/
theorem file_survives_sample :
    let s := run (OnDisk.step sampleWiden) emptyDisk clearing
    let left := calm (applyAll ((OnDisk.commitOps sampleWiden s.saver true {}).1.take 1) s.disk)
    let saves := OnDisk.saveEvents sampleWiden emptyDisk.saver clearing
    (left (sampleWiden emptyDisk.saver.path)).content =
        ((emptyDisk.saver.written saves).getLast?.map Snapshot.text).or emptyDisk.saver.file ∨
      ∃ snapshot ∈ emptyDisk.saver.taken saves,
        Saver.lastSeq (emptyDisk.saver.written saves) < snapshot.seq ∧
          s.saver.held true = some snapshot ∧
          (left (sampleWiden emptyDisk.saver.path)).content = some snapshot.text :=
  OnDisk.file_survives (s := emptyDisk) ⟨rfl, rfl, fun _ => rfl⟩ rfl
    (by
      intro event hmem
      rcases List.mem_append.1 hmem with hmem | hmem
      · rw [List.mem_singleton.1 hmem]
        trivial
      · rw [List.mem_singleton.1 hmem]
        rfl)
    (by decide +kernel) (survives_calm _)

end Strategy

end SplitHello
