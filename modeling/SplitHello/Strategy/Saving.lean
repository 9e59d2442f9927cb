import SplitHello.Strategy.File
import SplitHello.Library.History
import Mathlib.Logic.Function.Basic

/-!
# Saving the store

A call changes the tables under one mutex and, when it has to be saved, takes a
numbered snapshot of the text there; the text is written later, under a second
mutex. The threads of a `Saver` are therefore always in one of two places: idle,
or on the way to `commit` with a snapshot in hand. Every interleaving is a list
of events.

`taken` and `written` read off a history which snapshots were made and which of
them reached the disk, oldest first.
-/

namespace SplitHello

namespace Strategy

open ByteString KeyedTable History

/-- A complete text of the file. The number zero marks that there is nothing to
write. -/
structure Snapshot where
  seq : ℕ := 0
  text : Bytes := []
  deriving DecidableEq, Repr

/-- Whether a call asks for the file to be written. -/
def Store.dirties (s : Store) (call : Call) : Bool :=
  match call.op with
  | .remember networkId host profileName kind confidence =>
      (s.remember call.now networkId host profileName kind confidence).2.2
  | .noteBaselineHealthy networkId host => (s.noteBaselineHealthy call.now networkId host).2
  | .recordFailure networkId host profile => (s.recordFailure networkId host profile).2
  | .forget host => (s.forget host).2
  | .clear => true
  | .probeOrder _ _ _ => false
  | .load _ => false

/-- The store with its file and the snapshots its threads carry to `commit`. -/
structure Saver (T : Type*) where
  store : Store := {}
  path : Bytes
  file : Option Bytes := none
  nextSeq : ℕ := 0
  writtenSeq : ℕ := 0
  saveFailing : Bool := false
  held : T → Option Snapshot := fun _ => none

/-- A thread runs the locked part of a call, the clock standing at `now` when the
snapshot is taken; or it runs `commit`, the write going well or not. -/
inductive SaveEvent (T : Type*)
  | call (thread : T) (call : Call) (now : Moment)
  | commit (thread : T) (ok : Bool)

namespace Saver

variable {T : Type*} [DecidableEq T]

/-- The snapshot of the tables and the counter behind it. A store without a path
has nothing to write. -/
def snapshotLocked (d : Saver T) (now : Moment) : Snapshot × ℕ :=
  if d.path = [] then ({}, d.nextSeq)
  else (⟨d.nextSeq + 1, d.store.snapshotText now⟩, d.nextSeq + 1)

def commit (d : Saver T) (snapshot : Snapshot) (ok : Bool) : Saver T :=
  if snapshot.seq = 0 then d
  else if snapshot.seq ≤ d.writtenSeq then d
  else if ok then
    { d with file := some snapshot.text, writtenSeq := snapshot.seq, saveFailing := false }
  else { d with saveFailing := true }

/-- The locked part of a call. A call that changed nothing worth saving goes on
to `commit` with the empty snapshot. -/
def perform (d : Saver T) (thread : T) (call : Call) (now : Moment) : Saver T :=
  let after := { d with store := d.store.apply call }
  if d.store.dirties call then
    let (snapshot, nextSeq) := after.snapshotLocked now
    { after with nextSeq, held := Function.update d.held thread (some snapshot) }
  else { after with held := Function.update d.held thread (some {}) }

def step (d : Saver T) : SaveEvent T → Saver T
  | .call thread call now => if d.held thread = none then d.perform thread call now else d
  | .commit thread ok =>
      match d.held thread with
      | none => d
      | some snapshot =>
          { d.commit snapshot ok with held := Function.update d.held thread none }

/-- The snapshot a step makes, if it makes one. -/
def takes (d : Saver T) : SaveEvent T → Option Snapshot
  | .call thread call now =>
      if d.held thread = none ∧ d.store.dirties call ∧ d.path ≠ [] then
        some ⟨d.nextSeq + 1, (d.store.apply call).snapshotText now⟩
      else none
  | .commit _ _ => none

/-- The snapshot a step puts on the disk, if it does. -/
def writes (d : Saver T) : SaveEvent T → Option Snapshot
  | .call _ _ _ => none
  | .commit thread ok =>
      if ok then
        (d.held thread).filter fun snapshot =>
          snapshot.seq ≠ 0 ∧ ¬ snapshot.seq ≤ d.writtenSeq
      else none

def taken (d : Saver T) : List (SaveEvent T) → List Snapshot
  | [] => []
  | e :: es => (d.takes e).toList ++ taken (d.step e) es

def written (d : Saver T) : List (SaveEvent T) → List Snapshot
  | [] => []
  | e :: es => (d.writes e).toList ++ written (d.step e) es

/-- No write of the history failed. -/
def AllSucceed (events : List (SaveEvent T)) : Prop :=
  ∀ thread, SaveEvent.commit thread false ∉ events

/-- Every thread is idle. -/
def Quiet (d : Saver T) : Prop := ∀ thread, d.held thread = none

/-- A store as a program opens it: nothing was saved yet and no thread runs. -/
structure Fresh (d : Saver T) : Prop where
  nextSeq_eq : d.nextSeq = 0
  writtenSeq_eq : d.writtenSeq = 0
  quiet : d.Quiet

theorem taken_concat (d : Saver T) (events : List (SaveEvent T)) (e : SaveEvent T) :
    d.taken (events ++ [e]) = d.taken events ++ ((run step d events).takes e).toList := by
  induction events generalizing d with
  | nil => simp [taken]
  | cons e' events ih => simp [taken, ih, run]

theorem written_concat (d : Saver T) (events : List (SaveEvent T)) (e : SaveEvent T) :
    d.written (events ++ [e]) = d.written events ++ ((run step d events).writes e).toList := by
  induction events generalizing d with
  | nil => simp [written]
  | cons e' events ih => simp [written, ih, run]

/-! ## What one step does -/

/-- Every way a step can go: the snapshot it takes, the one it puts on the disk,
and the state it leaves. -/
inductive SaveStep (d : Saver T) (e : SaveEvent T) :
    Option Snapshot → Option Snapshot → Saver T → Prop
  | idle : SaveStep d e none none d
  | clean {thread : T} {store : Store} (hidle : d.held thread = none) :
      SaveStep d e none none
        { d with store, held := Function.update d.held thread (some {}) }
  | take {thread : T} {store : Store} {text : Bytes} (hidle : d.held thread = none) :
      SaveStep d e (some ⟨d.nextSeq + 1, text⟩) none
        { d with
          store
          nextSeq := d.nextSeq + 1
          held := Function.update d.held thread (some ⟨d.nextSeq + 1, text⟩) }
  | skip {thread : T} {snapshot : Snapshot} {ok failing : Bool}
      (hevent : e = .commit thread ok) (hheld : d.held thread = some snapshot)
      (hskip : ok = false ∨ snapshot.seq ≤ d.writtenSeq) :
      SaveStep d e none none
        { d with saveFailing := failing, held := Function.update d.held thread none }
  | write {thread : T} {snapshot : Snapshot} (hheld : d.held thread = some snapshot)
      (hnew : d.writtenSeq < snapshot.seq) :
      SaveStep d e none (some snapshot)
        { d with
          file := some snapshot.text
          writtenSeq := snapshot.seq
          saveFailing := false
          held := Function.update d.held thread none }

theorem step_call_saveStep (d : Saver T) (thread : T) (call : Call) (now : Moment) :
    SaveStep d (.call thread call now) (d.takes (.call thread call now)) none
      (d.step (.call thread call now)) := by
  rw [takes, step]
  by_cases hidle : d.held thread = none
  · rw [if_pos hidle, perform]
    by_cases hdirty : d.store.dirties call = true
    · by_cases hpath : d.path = []
      · have hnothing : ({ d with store := d.store.apply call } : Saver T).snapshotLocked now =
            ({}, d.nextSeq) := if_pos hpath
        rw [if_pos hdirty, hnothing, if_neg fun h => h.2.2 hpath]
        exact .clean hidle
      · simp only [hidle, hdirty, hpath, snapshotLocked, ne_eq, not_false_eq_true, and_self,
          if_true, if_false]
        exact .take hidle
    · simp only [hdirty, Bool.false_eq_true, false_and, and_false, if_false]
      exact .clean hidle
  · simp only [hidle, false_and, if_false]
    exact .idle

theorem step_commit_saveStep (d : Saver T) (thread : T) (ok : Bool) :
    SaveStep d (.commit thread ok) none (d.writes (.commit thread ok))
      (d.step (.commit thread ok)) := by
  cases hheld : d.held thread with
  | none =>
      simp only [writes, step, hheld, Option.filter_none, ite_self]
      exact .idle
  | some snapshot =>
      have hskip (h : ok = false ∨ snapshot.seq ≤ d.writtenSeq) (failing : Bool) :
          SaveStep d (.commit thread ok) none none
            { d with saveFailing := failing, held := Function.update d.held thread none } :=
        .skip rfl hheld h
      by_cases hold : snapshot.seq ≤ d.writtenSeq
      · have hcommit : d.commit snapshot ok = d := by
          rw [commit, if_pos hold]
          simp
        simp only [writes, step, hheld, Option.filter_some, hold, not_true_eq_false, and_false,
          decide_false, Bool.false_eq_true, if_false, ite_self, hcommit]
        exact hskip (Or.inr hold) d.saveFailing
      · have hzero : snapshot.seq ≠ 0 := by omega
        cases ok with
        | false =>
            simp only [writes, step, hheld, commit, if_neg hzero, if_neg hold,
              Bool.false_eq_true, if_false]
            exact hskip (Or.inl rfl) true
        | true =>
            simp only [writes, step, hheld, commit, hzero, hold, if_true, if_false,
              Option.filter_some, ne_eq, not_false_eq_true, and_self, decide_true]
            exact .write hheld (by omega)

theorem step_saveStep (d : Saver T) (e : SaveEvent T) :
    SaveStep d e (d.takes e) (d.writes e) (d.step e) := by
  cases e with
  | call thread call now => exact d.step_call_saveStep thread call now
  | commit thread ok => exact d.step_commit_saveStep thread ok

/-! ## Runs -/

/-- The number of the last snapshot of a list, zero when there is none. -/
def lastSeq (snapshots : List Snapshot) : ℕ := (snapshots.getLast?.map Snapshot.seq).getD 0

/-- Numbers that grow along the list. -/
def Growing (snapshots : List Snapshot) : Prop := snapshots.Pairwise fun a b => a.seq < b.seq

@[simp] theorem lastSeq_concat (l : List Snapshot) (s : Snapshot) : lastSeq (l ++ [s]) = s.seq := by
  simp [lastSeq]

theorem Growing.le_lastSeq {l : List Snapshot} (h : Growing l) {s : Snapshot} (hs : s ∈ l) :
    s.seq ≤ lastSeq l := by
  induction l using List.reverseRecOn with
  | nil => cases hs
  | append_singleton l last =>
      rw [lastSeq_concat]
      rcases List.mem_append.1 hs with hs | hs
      · exact (List.pairwise_append.1 h).2.2 s hs last (by simp) |>.le
      · rw [List.mem_singleton.1 hs]

theorem Growing.concat {l : List Snapshot} (h : Growing l) {s : Snapshot}
    (hs : lastSeq l < s.seq) : Growing (l ++ [s]) := by
  refine List.pairwise_append.2 ⟨h, by simp, ?_⟩
  intro a ha b hb
  rw [List.mem_singleton.1 hb]
  exact (h.le_lastSeq ha).trans_lt hs

theorem Growing.eq_of_seq {l : List Snapshot} (h : Growing l) {a b : Snapshot} (ha : a ∈ l)
    (hb : b ∈ l) (hseq : a.seq = b.seq) : a = b := by
  have hdistinct : (l.map Snapshot.seq).Nodup := List.pairwise_map.2 (h.imp fun h => h.ne)
  exact List.inj_on_of_nodup_map hdistinct ha hb hseq

/-- What holds between a history and the state after it: numbers are handed out
in order, every snapshot in hand was taken, the writes went through in the order
of their numbers and the last one is the file; a snapshot that is neither in hand
nor older than the file was lost by a failed write. -/
structure Ordered (first : Option Bytes) (taken written : List Snapshot) (noFailure : Prop)
    (d : Saver T) : Prop where
  taken_growing : Growing taken
  taken_pos : ∀ s ∈ taken, 0 < s.seq
  written_growing : Growing written
  nextSeq_eq : d.nextSeq = lastSeq taken
  writtenSeq_eq : d.writtenSeq = lastSeq written
  held_taken : ∀ thread s, d.held thread = some s → s.seq = 0 ∨ s ∈ taken
  written_taken : ∀ s ∈ written, s ∈ taken
  file_eq : d.file = (written.getLast?.map Snapshot.text).or first
  settled : noFailure → ∀ s ∈ taken,
    (∃ thread, d.held thread = some s) ∨ s.seq ≤ d.writtenSeq

omit [DecidableEq T] in
theorem Fresh.ordered {d : Saver T} (hd : d.Fresh) (noFailure : Prop) :
    Ordered d.file [] [] noFailure d where
  taken_growing := List.Pairwise.nil
  taken_pos s h := by cases h
  written_growing := List.Pairwise.nil
  nextSeq_eq := hd.nextSeq_eq
  writtenSeq_eq := hd.writtenSeq_eq
  held_taken thread s h := by
    rw [hd.quiet thread] at h
    cases h
  written_taken s h := by cases h
  file_eq := rfl
  settled _ s h := by cases h

/-- A snapshot in hand stays there while another thread moves. -/
theorem held_update {held : T → Option Snapshot} {thread : T} {s : Snapshot}
    (v : Option Snapshot) (hidle : held thread = none) (hs : ∃ thread', held thread' = some s) :
    ∃ thread', Function.update held thread v thread' = some s := by
  obtain ⟨thread', hs⟩ := hs
  have hne : thread' ≠ thread := by
    rintro rfl
    rw [hidle] at hs
    cases hs
  exact ⟨thread', by rw [Function.update_of_ne hne, hs]⟩

theorem held_of_update {held : T → Option Snapshot} {thread thread' : T} {v : Option Snapshot}
    {s : Snapshot} (h : Function.update held thread v thread' = some s) :
    v = some s ∨ held thread' = some s := by
  by_cases heq : thread' = thread
  · subst heq
    rw [Function.update_self] at h
    exact Or.inl h
  · rw [Function.update_of_ne heq] at h
    exact Or.inr h

/-- A thread that leaves `commit` takes at most its own snapshot with it. -/
theorem held_release {held : T → Option Snapshot} {thread : T} {s snapshot : Snapshot}
    (hheld : held thread = some snapshot) (hs : ∃ thread', held thread' = some s) :
    s = snapshot ∨ ∃ thread', Function.update held thread none thread' = some s := by
  obtain ⟨thread', hs⟩ := hs
  by_cases heq : thread' = thread
  · subst heq
    rw [hheld] at hs
    exact Or.inl (Option.some.inj hs).symm
  · exact Or.inr ⟨thread', by rw [Function.update_of_ne heq, hs]⟩

theorem Ordered.held_taken_release {first : Option Bytes} {taken written : List Snapshot}
    {noFailure : Prop} {d : Saver T} (h : Ordered first taken written noFailure d) (thread : T)
    (thread' : T) (s : Snapshot) (hs : Function.update d.held thread none thread' = some s) :
    s.seq = 0 ∨ s ∈ taken := by
  rcases held_of_update hs with heq | hs
  · cases heq
  · exact h.held_taken thread' s hs

/-- Nothing is lost when a thread leaves `commit` with the file at least as new as its
snapshot. -/
theorem Ordered.settled_release {first : Option Bytes} {taken written : List Snapshot}
    {noFailure : Prop} {d : Saver T} (h : Ordered first taken written noFailure d)
    (hok : noFailure) {thread : T} {snapshot : Snapshot} (hheld : d.held thread = some snapshot)
    {seq : ℕ} (hwritten : d.writtenSeq ≤ seq) (hsnapshot : snapshot.seq ≤ seq) :
    ∀ s ∈ taken, (∃ thread', Function.update d.held thread none thread' = some s) ∨
      s.seq ≤ seq := by
  intro s hs
  rcases h.settled hok s hs with hin | hold
  · rcases held_release hheld hin with heq | hin
    · rw [heq]
      exact Or.inr hsnapshot
    · exact Or.inl hin
  · exact Or.inr (hold.trans hwritten)

theorem Ordered.saveStep {first : Option Bytes} {taken written : List Snapshot}
    {noFailure : Prop} {d d' : Saver T} {e : SaveEvent T} {t w : Option Snapshot}
    (h : Ordered first taken written noFailure d) (hstep : SaveStep d e t w d') :
    Ordered first (taken ++ t.toList) (written ++ w.toList)
      (noFailure ∧ ∀ thread, e ≠ .commit thread false) d' := by
  cases hstep with
  | idle =>
      simp only [Option.toList_none, List.append_nil]
      exact { h with settled := fun hok => h.settled hok.1 }
  | clean hidle =>
      simp only [Option.toList_none, List.append_nil]
      refine { h with held_taken := ?_, settled := ?_ }
      · intro thread' s hs
        rcases held_of_update hs with heq | hs
        · rw [← Option.some.inj heq]
          exact Or.inl rfl
        · exact h.held_taken thread' s hs
      · intro hok s hs
        exact (h.settled hok.1 s hs).imp_left (held_update _ hidle)
  | @take thread store text hidle =>
      have hnew : lastSeq taken < d.nextSeq + 1 := by
        rw [h.nextSeq_eq]
        exact Nat.lt_succ_self _
      simp only [Option.toList_none, List.append_nil, Option.toList_some]
      refine { h with
        taken_growing := h.taken_growing.concat hnew
        taken_pos := ?_
        nextSeq_eq := by rw [lastSeq_concat]
        held_taken := ?_
        written_taken := fun s hs => List.mem_append_left _ (h.written_taken s hs)
        settled := ?_ }
      · intro s hs
        rcases List.mem_append.1 hs with hs | hs
        · exact h.taken_pos s hs
        · rw [List.mem_singleton.1 hs]
          exact Nat.succ_pos _
      · intro thread' s hs
        rcases held_of_update hs with heq | hs
        · rw [← Option.some.inj heq]
          exact Or.inr (List.mem_append_right _ (List.mem_singleton.2 rfl))
        · exact (h.held_taken thread' s hs).imp_right (List.mem_append_left _)
      · intro hok s hs
        rcases List.mem_append.1 hs with hs | hs
        · exact (h.settled hok.1 s hs).imp_left (held_update _ hidle)
        · rw [List.mem_singleton.1 hs]
          exact Or.inl ⟨thread, Function.update_self ..⟩
  | @skip thread snapshot ok failing hevent hheld hskip =>
      simp only [Option.toList_none, List.append_nil]
      refine { h with held_taken := h.held_taken_release thread, settled := ?_ }
      intro hok
      have hold : snapshot.seq ≤ d.writtenSeq := by
        rcases hskip with hfail | hold
        · rw [hfail] at hevent
          exact absurd hevent (hok.2 thread)
        · exact hold
      exact h.settled_release hok.1 hheld le_rfl hold
  | @write thread snapshot hheld hnew =>
      have hmem : snapshot ∈ taken := by
        rcases h.held_taken thread snapshot hheld with hzero | hmem
        · omega
        · exact hmem
      simp only [Option.toList_none, List.append_nil, Option.toList_some]
      refine { h with
        written_growing := h.written_growing.concat (h.writtenSeq_eq ▸ hnew)
        writtenSeq_eq := by rw [lastSeq_concat]
        held_taken := h.held_taken_release thread
        written_taken := ?_
        file_eq := by simp
        settled := fun hok => h.settled_release hok.1 hheld hnew.le le_rfl }
      intro s hs
      rcases List.mem_append.1 hs with hs | hs
      · exact h.written_taken s hs
      · rw [List.mem_singleton.1 hs]
        exact hmem

omit [DecidableEq T] in
/-- Without failures, what an idle saver wrote last is what it took last. -/
theorem Ordered.getLast?_written {first : Option Bytes} {taken written : List Snapshot}
    {noFailure : Prop} {d : Saver T} (h : Ordered first taken written noFailure d)
    (hok : noFailure) (hquiet : d.Quiet) : written.getLast? = taken.getLast? := by
  rcases List.eq_nil_or_concat' taken with rfl | ⟨older, s, rfl⟩
  · have hnone : written = [] :=
      List.eq_nil_iff_forall_not_mem.2 fun s hs => List.not_mem_nil (h.written_taken s hs)
    rw [hnone]
  · have hs : s ∈ older ++ [s] := List.mem_append_right _ (List.mem_singleton.2 rfl)
    have hsettled : s.seq ≤ lastSeq written := by
      rw [← h.writtenSeq_eq]
      rcases h.settled hok s hs with ⟨thread, hin⟩ | hold
      · rw [hquiet thread] at hin
        cases hin
      · exact hold
    rcases List.eq_nil_or_concat' written with rfl | ⟨olderWrites, w, rfl⟩
    · exact absurd hsettled (h.taken_pos s hs).not_ge
    · have hw : w ∈ older ++ [s] := h.written_taken w (by simp)
      have hle : w.seq ≤ s.seq := by
        have hle := h.taken_growing.le_lastSeq hw
        rwa [lastSeq_concat] at hle
      rw [lastSeq_concat] at hsettled
      rw [h.taken_growing.eq_of_seq hw hs (hle.antisymm hsettled)]
      simp

omit [DecidableEq T] in
theorem allSucceed_concat {events : List (SaveEvent T)} {e : SaveEvent T} :
    AllSucceed (events ++ [e]) ↔ AllSucceed events ∧ ∀ thread, e ≠ .commit thread false := by
  simp [AllSucceed, forall_and, eq_comm]

theorem Fresh.run_ordered {d : Saver T} (hd : d.Fresh) (events : List (SaveEvent T)) :
    Ordered d.file (d.taken events) (d.written events) (AllSucceed events)
      (run step d events) := by
  induction events using List.reverseRecOn with
  | nil => exact hd.ordered _
  | append_singleton events e ih =>
      rw [taken_concat, written_concat, allSucceed_concat, run_concat]
      exact ih.saveStep (step_saveStep _ e)

/-- The file is at every moment the newest of the snapshots that were written,
each write is newer than the ones before it, and when no write fails the threads
leave the last snapshot behind. -/
theorem file_is_newest_write {d : Saver T} (hd : d.Fresh) (events : List (SaveEvent T)) :
    (d.written events = [] ∧ (run step d events).file = d.file ∨
      ∃ s ∈ d.written events, (∀ s' ∈ d.written events, s'.seq ≤ s.seq) ∧
        (run step d events).file = some s.text) ∧
      (∀ s ∈ d.written events, s ∈ d.taken events) ∧
      (d.written events).Pairwise (fun a b => a.seq < b.seq) ∧
      (AllSucceed events → (run step d events).Quiet →
        (run step d events).file = ((d.taken events).getLast?.map Snapshot.text).or d.file) := by
  have h := hd.run_ordered events
  refine ⟨?_, h.written_taken, h.written_growing, ?_⟩
  · rw [h.file_eq]
    rcases List.eq_nil_or_concat' (d.written events) with hnil | ⟨l, s, hl⟩
    · exact Or.inl ⟨hnil, by rw [hnil]; rfl⟩
    · refine Or.inr ⟨s, by simp [hl], ?_, by simp [hl]⟩
      intro s' hs'
      have hle := h.written_growing.le_lastSeq hs'
      rwa [hl, lastSeq_concat] at hle
  · intro hok hquiet
    rw [h.file_eq, h.getLast?_written hok hquiet]

end Saver

theorem firstSecond_fits : 1 < 2 ^ 63 := by decide

/-- Two threads clear the store; the one that took its snapshot first writes
last. -/
def overtaken : List (SaveEvent Bool) :=
  let now : Moment :=
    { wall := 1, mono := 1, wall_pos := Nat.one_pos, wall_lt := firstSecond_fits,
      mono_pos := Nat.one_pos }
  [.call true ⟨now, .clear⟩ now, .call false ⟨now, .clear⟩ now, .commit false true,
    .commit true true]

theorem file_is_newest_write_sample :
    let d : Saver Bool := { path := ofString "strategy.json" }
    d.Fresh ∧ (d.written overtaken).map Snapshot.seq = [2] ∧
      (run Saver.step d overtaken).file =
        ((d.taken overtaken).getLast?.map Snapshot.text).or none := by
  intro d
  have hfresh : d.Fresh := ⟨rfl, rfl, fun _ => rfl⟩
  have hok : Saver.AllSucceed overtaken := by
    intro thread
    simp [overtaken]
  have hquiet : (run Saver.step d overtaken).Quiet := by
    intro thread
    cases thread <;> rfl
  exact ⟨hfresh, by decide, (Saver.file_is_newest_write hfresh overtaken).2.2.2 hok hquiet⟩

end Strategy

end SplitHello
