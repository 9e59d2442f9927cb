import SplitHello.Dns.Service
import SplitHello.Library.Slots
import SplitHello.Transparent.Registry

/-!
# The relay for reflected DNS queries

One thread receives the reflected datagrams and eight work on them, each inside a call on the
resolver; the receiver works itself on queries for the Worker's own name, since all the others
may be waiting for that answer. Between them lies a bounded queue. Calls of others on the
resolver and the interceptor's notes in the registry run in between at any time.

The receiver's claim and its push are one event here, as the one touches the registry alone and
the other the queue.
-/

namespace SplitHello

namespace Dns

open ByteString Slots History
open Transparent (DatagramRegistry DatagramOp)

def workerCount : ℕ := 8
def maxQueuedQueries : ℕ := 1024
def maxDnsDatagram : ℕ := 4096
def maxQueueAgeMs : ℕ := 3000
def jobDeadlineMs : ℕ := 8000

/-- A datagram with its sender, as text. -/
structure Job where
  data : Bytes
  address : Bytes
  port : ℕ
  enqueuedMs : ℕ
  deriving DecidableEq, Repr

/-- A thread inside `process` has the number of its call on the resolver. The receiver is the
first of the threads. `ops`, `started` and `sent` only record what happened. -/
structure Proxy where
  system : System
  datagrams : DatagramRegistry := {}
  running : Bool := true
  jobs : List Job := []
  threads : List (Option (ℕ × Job)) := idle (workerCount + 1)
  ops : List (Transparent.Timed DatagramOp) := []
  started : List (Job × ℕ) := []
  sent : List (Job × Bytes) := []

inductive ProxyEvent
  /-- The interceptor reflects a datagram. -/
  | observe (address : Bytes) (port now : ℕ) (bucket : Bytes → ℕ)
  | receive (data address : Bytes) (port now : ℕ)
  /-- The receiver's socket fails. -/
  | broken
  | take (worker now : ℕ)
  | act (index : ℕ) (input : Input)
  /-- The thread is done with its call, and sends the reply or fails to. -/
  | finish (thread : ℕ) (delivered : Bool)
  | resolve (host : Bytes) (deadlineMs : ℕ)
  | clearCache
  /-- `stop`, up to its wait for the threads. -/
  | stop

namespace Proxy

def isBootstrapHost (r : Resolver) (host : Bytes) : Bool :=
  !r.workerHost.isEmpty && lowercase host = lowercase r.workerHost

section

variable (pton : InetPton)

def process (s : Proxy) (thread : ℕ) (job : Job) (now : ℕ) : Proxy :=
  { s with
    system := s.system.step pton (.buildReply job.data (job.enqueuedMs + jobDeadlineMs))
    threads := s.threads.set thread (some (s.system.calls.length, job))
    started := s.started ++ [(job, now)] }

/-- What the receiver does with a datagram that the registry knows of. -/
def accept (s : Proxy) (job : Job) : Proxy :=
  let (query, parsed) := parseQuery (memory job.data) job.data.length
  if parsed && isBootstrapHost s.system.resolver query.name then s.process pton 0 job job.enqueuedMs
  else if s.jobs.length ≥ maxQueuedQueries then s
  else { s with jobs := s.jobs ++ [job] }

def receive (s : Proxy) (job : Job) : Proxy :=
  if job.port = 0 then s
  else
    let (datagrams, known) := s.datagrams.claim job.address job.port job.enqueuedMs
    let s :=
      { s with
        datagrams
        ops := s.ops ++ [⟨.claim job.address job.port, job.enqueuedMs, fun _ => 0⟩] }
    if !known then s else s.accept pton job

def fail (s : Proxy) : Proxy := { s with running := false }

def step (s : Proxy) : ProxyEvent → Proxy
  | .observe address port now bucket =>
      { s with
        datagrams := s.datagrams.observe address port now bucket
        ops := s.ops ++ [⟨.observe address port, now, bucket⟩] }
  | .receive data address port now =>
      -- A datagram that does not fit the buffer is an error that the loop goes on from.
      if !s.running ∨ s.threads[0]? ≠ some none ∨ maxDnsDatagram < data.length then s
      else s.receive pton ⟨data, address, port, now⟩
  | .broken => s.fail
  | .take worker now =>
      match s.jobs with
      | [] => s
      | job :: jobs =>
          if !s.running ∨ worker = 0 ∨ s.threads[worker]? ≠ some none then s
          else
            let s := { s with jobs }
            if now - job.enqueuedMs > maxQueueAgeMs then s else s.process pton worker job now
  | .act index input => { s with system := s.system.step pton (.act index input) }
  | .finish thread delivered =>
      match s.threads[thread]? with
      | some (some (index, job)) =>
          let left := { s with threads := s.threads.set thread none }
          match (s.system.calls[index]?).map Call.phase with
          | some (.replied _ reply) =>
              if reply ≠ [] ∧ s.running ∧ delivered then
                { left with sent := s.sent ++ [(job, reply)] }
              else left
          | some .thrown => left.fail
          | _ => s
      | _ => s
  | .resolve host deadlineMs => { s with system := s.system.step pton (.resolve host deadlineMs) }
  | .clearCache => { s with system := s.system.step pton .clearCache }
  | .stop => { s with running := false, jobs := [] }

def start (workerHost : Bytes) (bootstrap : Option Result) (now : ℕ) : Proxy :=
  { system := ⟨Resolver.start pton workerHost bootstrap now, []⟩ }

end

/-! ## Where a datagram of a peer may be -/

def ofPeer (address : Bytes) (port : ℕ) (job : Job) : Bool :=
  job.address = address && job.port = port

/-- The datagrams of a peer that wait, are worked on or were answered. -/
def held (address : Bytes) (port : ℕ) (s : Proxy) : ℕ :=
  s.jobs.countP (ofPeer address port) +
    (busy s.threads).countP (fun serving => ofPeer address port serving.2) +
    s.sent.countP fun answer => ofPeer address port answer.1

/-- What holds of the relay after every run, with a datagram or none between two places. -/
structure Sound (loose : List Job) (s : Proxy) : Prop where
  system : s.system.Sound
  threads : s.threads.length = workerCount + 1
  queued : s.jobs.length ≤ maxQueuedQueries
  fits : ∀ job ∈ loose ++ s.jobs, job.data.length ≤ maxDnsDatagram
  registry : s.datagrams = run DatagramRegistry.step {} s.ops
  granted : ∀ address port, loose.countP (ofPeer address port) + s.held address port ≤
    DatagramRegistry.granted address port {} s.ops
  serving : ∀ serving ∈ busy s.threads, serving.2.data.length ≤ maxDnsDatagram ∧
    ∃ c, s.system.calls[serving.1]? = some c ∧ c.datagram = some serving.2.data
  unfinished : ∀ index c, s.system.calls[index]? = some c → c.datagram ≠ none →
    ¬ c.phase.Over → index ∈ (busy s.threads).map Prod.fst
  started : ∀ entry ∈ s.started, entry.2 - entry.1.enqueuedMs ≤ maxQueueAgeMs
  sent : ∀ answer ∈ s.sent, answer.1.data.length ≤ maxDnsDatagram ∧ answer.2 ≠ [] ∧
    ∃ whole, Served answer.1.data whole answer.2

section

variable (pton : InetPton) {s : Proxy} {loose : List Job}

theorem start_sound (workerHost : Bytes) (bootstrap : Option Result) (now : ℕ) :
    Sound [] (start pton workerHost bootstrap now) := by
  have hidle : busy (start pton workerHost bootstrap now).threads = [] := busy_idle _
  refine ⟨system_sound pton workerHost bootstrap now [], rfl, Nat.zero_le _, ?_, rfl, ?_, ?_, ?_,
    ?_, ?_⟩
  · intro job hjob
    cases hjob
  · intro address port
    rw [held, hidle]
    exact Nat.zero_le _
  · intro serving hserving
    rw [hidle] at hserving
    cases hserving
  · intro index c hc
    cases hc
  · intro entry hentry
    cases hentry
  · intro answer hanswer
    cases hanswer

/-- A call that is over stays so. -/
theorem step_over {c : Call} (h : c.phase.Over) (r : Resolver) (input : Input) :
    (c.step pton r input).2.Over := by
  rw [Call.step.eq_def]
  cases hphase : c.phase with
  | found result => trivial
  | replied whole reply => trivial
  | thrown => trivial
  | _ =>
      rw [hphase] at h
      cases h

/-- What other events than a new datagram do to the calls. -/
theorem calls_step (system : System) {e : Event}
    (he : ∀ datagram deadlineMs, e ≠ .buildReply datagram deadlineMs) (index : ℕ) :
    (∀ c, system.calls[index]? = some c →
        ∃ c', (system.step pton e).calls[index]? = some c' ∧ c'.datagram = c.datagram) ∧
      ∀ c', (system.step pton e).calls[index]? = some c' → c'.datagram ≠ none →
        ¬ c'.phase.Over →
          ∃ c, system.calls[index]? = some c ∧ c.datagram ≠ none ∧ ¬ c.phase.Over := by
  cases e with
  | buildReply datagram deadlineMs => exact absurd rfl (he datagram deadlineMs)
  | clearCache => exact ⟨fun c hc => ⟨c, hc, rfl⟩, fun c hc hd hover => ⟨c, hc, hd, hover⟩⟩
  | resolve host deadlineMs =>
      refine ⟨fun c hc => ⟨c, ?_, rfl⟩, fun c hc hd hover => ⟨c, ?_, hd, hover⟩⟩
      · rw [System.step]
        dsimp only
        rw [List.getElem?_append_left (List.getElem?_eq_some_iff.1 hc).1, hc]
      · rw [System.step] at hc
        dsimp only at hc
        by_cases hindex : index < system.calls.length
        · rwa [List.getElem?_append_left hindex] at hc
        · rw [List.getElem?_append_right (Nat.le_of_not_lt hindex)] at hc
          have hlast := List.mem_singleton.1 (List.mem_of_getElem? hc)
          rw [hlast] at hd
          exact absurd rfl hd
  | act i input =>
      rw [System.step]
      cases hi : system.calls[i]? with
      | none => exact ⟨fun c hc => ⟨c, hc, rfl⟩, fun c hc hd hover => ⟨c, hc, hd, hover⟩⟩
      | some acting =>
          have hlength : i < system.calls.length := (List.getElem?_eq_some_iff.1 hi).1
          dsimp only
          by_cases hsame : i = index
          · subst hsame
            rw [List.getElem?_set_self hlength]
            refine ⟨fun c hc => ⟨_, rfl, ?_⟩, fun c' hc' hd hover => ⟨acting, hi, ?_, ?_⟩⟩
            · rw [hi] at hc
              rw [← Option.some.inj hc]
            · rw [← Option.some.inj hc'] at hd
              exact hd
            · rw [← Option.some.inj hc'] at hover
              exact fun h => hover (step_over pton h _ _)
          · rw [List.getElem?_set_ne hsame]
            exact ⟨fun c hc => ⟨c, hc, rfl⟩, fun c hc hd hover => ⟨c, hc, hd, hover⟩⟩

variable {pton}

theorem Sound.resolver (h : Sound loose s) {e : Event}
    (he : ∀ datagram deadlineMs, e ≠ .buildReply datagram deadlineMs) :
    Sound loose { s with system := s.system.step pton e } := by
  refine { h with system := h.system.step pton e, serving := ?_, unfinished := ?_ }
  · intro serving hserving
    obtain ⟨hfits, c, hc, hdatagram⟩ := h.serving serving hserving
    obtain ⟨c', hc', hsame⟩ := (calls_step pton s.system he serving.1).1 c hc
    exact ⟨hfits, c', hc', hsame.trans hdatagram⟩
  · intro index c' hc' hdatagram hover
    obtain ⟨c, hc, hd, ho⟩ := (calls_step pton s.system he index).2 c' hc' hdatagram hover
    exact h.unfinished index c hc hd ho

/-- A datagram may be dropped. -/
theorem Sound.drop {job : Job} (h : Sound [job] s) : Sound [] s := by
  refine { h with fits := fun job' hjob' => ?_, granted := fun address port => ?_ }
  · exact h.fits job' (List.mem_append_right _ hjob')
  · exact Nat.le_trans (Nat.add_le_add_right (Nat.zero_le _) _) (h.granted address port)

theorem Sound.push {job : Job} (h : Sound [job] s) (hroom : s.jobs.length < maxQueuedQueries) :
    Sound [] { s with jobs := s.jobs ++ [job] } := by
  refine { h with
    queued := ?_, fits := fun job' hjob' => ?_, granted := fun address port => ?_ }
  · rw [List.length_append, List.length_singleton]
    exact hroom
  · exact h.fits job' (List.perm_append_comm.subset hjob')
  · have hgranted := h.granted address port
    rw [held] at hgranted ⊢
    dsimp only
    rw [List.countP_append, List.countP_nil]
    omega

/-- A thread takes up a datagram. -/
theorem Sound.process {job : Job} (h : Sound [job] s) {thread now : ℕ}
    (hidle : s.threads[thread]? = some none) (hfresh : now - job.enqueuedMs ≤ maxQueueAgeMs) :
    Sound [] (s.process pton thread job now) := by
  have henter := busy_enter hidle (s.system.calls.length, job)
  have hcalls : (s.system.step pton
      (.buildReply job.data (job.enqueuedMs + jobDeadlineMs))).calls =
      s.system.calls ++ [Call.buildReply job.data (job.enqueuedMs + jobDeadlineMs)] := rfl
  refine ⟨h.system.step pton (.buildReply job.data (job.enqueuedMs + jobDeadlineMs)), ?_,
    h.queued, fun job' hjob' => ?_, h.registry, fun address port => ?_,
    fun serving hserving => ?_, fun index c hc hdatagram hover => ?_,
    fun entry hentry => ?_, h.sent⟩
  · rw [Proxy.process, List.length_set]
    exact h.threads
  · exact h.fits job' (List.mem_append_right _ hjob')
  · have hgranted := h.granted address port
    rw [held] at hgranted ⊢
    rw [Proxy.process]
    dsimp only
    rw [henter.countP_eq, List.countP_cons, List.countP_nil]
    rw [List.countP_singleton] at hgranted
    dsimp only
    omega
  · rcases List.mem_cons.1 (henter.subset hserving) with rfl | hold
    · refine ⟨h.fits job (by simp), Call.buildReply job.data (job.enqueuedMs + jobDeadlineMs),
        ?_, rfl⟩
      rw [Proxy.process, hcalls]
      exact List.getElem?_concat_length
    · obtain ⟨hfits, c, hc, hdatagram⟩ := h.serving serving hold
      refine ⟨hfits, c, ?_, hdatagram⟩
      rw [Proxy.process, hcalls, List.getElem?_append_left (List.getElem?_eq_some_iff.1 hc).1, hc]
  · refine (henter.map Prod.fst).symm.subset ?_
    rw [Proxy.process, hcalls] at hc
    by_cases hindex : index < s.system.calls.length
    · rw [List.getElem?_append_left hindex] at hc
      exact List.mem_cons_of_mem _ (h.unfinished index c hc hdatagram hover)
    · have hlength := (List.getElem?_eq_some_iff.1 hc).1
      rw [List.length_append, List.length_singleton] at hlength
      have heq : index = s.system.calls.length := by omega
      rw [heq]
      exact List.mem_cons_self
  · rcases List.mem_append.1 hentry with hentry | hentry
    · exact h.started entry hentry
    · rw [List.mem_singleton.1 hentry]
      exact hfresh

/-- A thread is done with its datagram, whose call is over. -/
theorem Sound.leave (h : Sound [] s) {thread index : ℕ} {job : Job} {c : Call}
    (hbusy : s.threads[thread]? = some (some (index, job)))
    (hc : s.system.calls[index]? = some c) (hover : c.phase.Over) :
    Sound [job] { s with threads := s.threads.set thread none } := by
  have hleave := busy_leave hbusy
  refine { h with
    threads := by rw [List.length_set]; exact h.threads
    fits := fun job' hjob' => ?_
    granted := fun address port => ?_
    serving := fun serving hserving => ?_
    unfinished := fun index' c' hc' hdatagram hover' => ?_ }
  · rcases List.mem_append.1 hjob' with hjob' | hjob'
    · rw [List.mem_singleton.1 hjob']
      exact (h.serving (index, job) (mem_busy hbusy)).1
    · exact h.fits job' hjob'
  · have hgranted := h.granted address port
    rw [held] at hgranted ⊢
    dsimp only
    rw [hleave.countP_eq, List.countP_cons, List.countP_nil] at hgranted
    rw [List.countP_singleton]
    dsimp only at hgranted
    omega
  · exact h.serving serving (hleave.symm.subset (List.mem_cons_of_mem _ hserving))
  · have hmem := (hleave.map Prod.fst).subset (h.unfinished index' c' hc' hdatagram hover')
    rcases List.mem_cons.1 hmem with heq | hmem
    · rw [heq] at hc'
      have hsame := hc.symm.trans hc'
      rw [Option.some.inj hsame] at hover
      exact absurd hover hover'
    · exact hmem

theorem Sound.answer {job : Job} (h : Sound [job] s) {whole reply : Bytes} (hne : reply ≠ [])
    (hserved : Served job.data whole reply) :
    Sound [] { s with sent := s.sent ++ [(job, reply)] } := by
  refine { h with
    fits := fun job' hjob' => h.fits job' (List.mem_append_right _ hjob')
    granted := fun address port => ?_
    sent := fun answer hanswer => ?_ }
  · have hgranted := h.granted address port
    rw [held] at hgranted ⊢
    dsimp only
    rw [List.countP_append, List.countP_singleton, List.countP_nil]
    rw [List.countP_singleton] at hgranted
    dsimp only
    omega
  · rcases List.mem_append.1 hanswer with hanswer | hanswer
    · exact h.sent answer hanswer
    · rw [List.mem_singleton.1 hanswer]
      exact ⟨h.fits job (by simp), hne, whole, hserved⟩

theorem Sound.running (h : Sound loose s) (running : Bool) :
    Sound loose { s with running } :=
  { h with }

theorem Sound.finish (h : Sound [] s) (thread : ℕ) (delivered : Bool) :
    Sound [] (s.step pton (.finish thread delivered)) := by
  rw [step]
  dsimp only
  split
  · rename_i index job hbusy
    cases hcall : s.system.calls[index]? with
    | none => exact h
    | some c =>
        have hserving := (h.serving (index, job) (mem_busy hbusy)).2
        obtain ⟨c', hc', hdatagram⟩ := hserving
        have hsame : c = c' := Option.some.inj (hcall.symm.trans hc')
        subst hsame
        rw [Option.map_some]
        cases hphase : c.phase with
        | replied whole reply =>
            have hover : c.phase.Over := by
              rw [hphase]
              trivial
            have hleft := h.leave hbusy hcall hover
            have hcalled := h.system.calls index c hcall
            rw [hphase, hdatagram] at hcalled
            obtain ⟨datagram, hd, hserved⟩ := hcalled
            rw [← Option.some.inj hd] at hserved
            dsimp only
            split
            · rename_i hsend
              exact hleft.answer hsend.1 hserved
            · exact hleft.drop
        | thrown =>
            have hover : c.phase.Over := by
              rw [hphase]
              trivial
            exact (h.leave hbusy hcall hover).drop.running false
        | _ => exact h
  · exact h

/-- The registry is told of a datagram. -/
theorem Sound.observe (h : Sound [] s) (address : Bytes) (port now : ℕ) (bucket : Bytes → ℕ) :
    Sound [] (s.step pton (.observe address port now bucket)) := by
  refine { h with registry := ?_, granted := fun address' port' => ?_ }
  · rw [step, run_concat, ← h.registry]
    rfl
  · rw [step, DatagramRegistry.granted_concat]
    exact Nat.le_trans (h.granted address' port') (Nat.le_add_right _ _)

/-- A claim that succeeds leaves the datagram to be dealt with. -/
theorem Sound.claim (h : Sound [] s) {job : Job} (hfits : job.data.length ≤ maxDnsDatagram) :
    Sound (if (s.datagrams.claim job.address job.port job.enqueuedMs).2 then [job] else [])
      { s with
        datagrams := (s.datagrams.claim job.address job.port job.enqueuedMs).1
        ops := s.ops ++ [⟨.claim job.address job.port, job.enqueuedMs, fun _ => 0⟩] } := by
  refine { h with
    fits := fun job' hjob' => ?_, registry := ?_, granted := fun address port => ?_ }
  · rcases List.mem_append.1 hjob' with hjob' | hjob'
    · split at hjob'
      · rw [List.mem_singleton.1 hjob']
        exact hfits
      · cases hjob'
    · exact h.fits job' hjob'
  · dsimp only
    rw [run_concat, ← h.registry]
    rfl
  · have hgranted := h.granted address port
    dsimp only
    rw [DatagramRegistry.granted_concat, ← h.registry]
    rw [List.countP_nil, held] at hgranted
    rw [held]
    dsimp only
    by_cases hpeer : ofPeer address port job = true
    · obtain ⟨haddress, hport⟩ : job.address = address ∧ job.port = port := by
        simpa [ofPeer] using hpeer
      rw [haddress, hport]
      cases (s.datagrams.claim address port job.enqueuedMs).2 with
      | false => simpa using hgranted
      | true => simpa [hpeer, Nat.add_comm] using hgranted
    · have hnone : (if (s.datagrams.claim job.address job.port job.enqueuedMs).2 then [job]
          else []).countP (ofPeer address port) = 0 := by
        split
        · rw [List.countP_singleton, if_neg hpeer]
        · rfl
      rw [hnone]
      omega

theorem Sound.receive (h : Sound [] s) {job : Job} (hfits : job.data.length ≤ maxDnsDatagram)
    (hidle : s.threads[0]? = some none) : Sound [] (s.receive pton job) := by
  rw [Proxy.receive]
  split
  · exact h
  · have hclaim := h.claim hfits
    dsimp only
    cases hknown : (s.datagrams.claim job.address job.port job.enqueuedMs).2 with
    | false =>
        rw [hknown] at hclaim
        exact hclaim
    | true =>
        rw [hknown, if_pos rfl] at hclaim
        rw [if_neg (by simp), accept]
        dsimp only
        split
        · exact hclaim.process hidle (by omega)
        · split
          · exact hclaim.drop
          · rename_i hroom
            exact hclaim.push (Nat.lt_of_not_le hroom)

theorem Sound.take (h : Sound [] s) (worker now : ℕ) :
    Sound [] (s.step pton (.take worker now)) := by
  rw [step]
  cases hjobs : s.jobs with
  | nil => exact h
  | cons job jobs =>
      dsimp only
      split
      · exact h
      · rename_i hfree
        simp only [Bool.not_eq_true', not_or, not_not] at hfree
        have htaken : Sound [job] { s with jobs } := by
          refine { h with
            queued := ?_, fits := fun job' hjob' => ?_, granted := fun address port => ?_ }
          · have hqueued := h.queued
            rw [hjobs, List.length_cons] at hqueued
            exact Nat.le_of_succ_le hqueued
          · refine h.fits job' ?_
            rw [hjobs]
            exact hjob'
          · have hgranted := h.granted address port
            rw [held, hjobs, List.countP_cons, List.countP_nil] at hgranted
            rw [held, List.countP_singleton]
            dsimp only
            omega
        split
        · exact htaken.drop
        · rename_i hage
          exact htaken.process hfree.2.2 (Nat.le_of_not_lt hage)

theorem Sound.step (h : Sound [] s) (event : ProxyEvent) : Sound [] (s.step pton event) := by
  cases event with
  | observe address port now bucket => exact h.observe address port now bucket
  | receive data address port now =>
      rw [Proxy.step]
      split
      · exact h
      · rename_i hready
        simp only [Bool.not_eq_true', not_or, not_not, Nat.not_lt] at hready
        exact h.receive hready.2.2 hready.2.1
  | broken => exact h.running false
  | take worker now => exact h.take worker now
  | act index input => exact h.resolver fun _ _ he => Event.noConfusion he
  | finish thread delivered => exact h.finish thread delivered
  | resolve host deadlineMs => exact h.resolver fun _ _ he => Event.noConfusion he
  | clearCache => exact h.resolver fun _ _ he => Event.noConfusion he
  | stop =>
      refine { h with queued := Nat.zero_le _, fits := ?_, granted := fun address port => ?_ }
      · intro job hjob
        cases hjob
      · have hgranted := h.granted address port
        rw [held] at hgranted ⊢
        rw [Proxy.step]
        dsimp only
        rw [List.countP_nil]
        omega

theorem run_sound (workerHost : Bytes) (bootstrap : Option Result) (now : ℕ)
    (events : List ProxyEvent) :
    Sound [] (run (Proxy.step pton) (start pton workerHost bootstrap now) events) :=
  run_invariant _ _ (fun _ s => Sound [] s) (start_sound pton workerHost bootstrap now)
    (fun _ _ e h => h.step e) events

/-- For every history of the registry, of the resolver and of the threads: what is sent is the
reply that its datagram is owed, a peer gets no more replies than it had datagrams reflected,
the queue and the number of calls that a datagram keeps open are bounded, and no call is started
for a datagram that has waited too long. -/
theorem relay_serves (pton : InetPton) (workerHost : Bytes) (bootstrap : Option Result) (now : ℕ)
    (events : List ProxyEvent)
    (hclock : (run (Proxy.step pton) (start pton workerHost bootstrap now) events).ops.Pairwise
      fun c c' => c.now ≤ c'.now) (address : Bytes) (port : ℕ) :
    let s := run (Proxy.step pton) (start pton workerHost bootstrap now) events
    (∀ answer ∈ s.sent, answer.1.data.length ≤ maxDnsDatagram ∧ answer.2 ≠ [] ∧
        ∃ whole, Served answer.1.data whole answer.2) ∧
      s.sent.countP (fun answer => ofPeer address port answer.1) ≤
        DatagramRegistry.observed address port s.ops ∧
      s.jobs.length ≤ maxQueuedQueries ∧
      (∃ working : List ℕ, working.length ≤ workerCount + 1 ∧
        ∀ index c, s.system.calls[index]? = some c → c.datagram ≠ none → ¬ c.phase.Over →
          index ∈ working) ∧
      ∀ entry ∈ s.started, entry.2 - entry.1.enqueuedMs ≤ maxQueueAgeMs := by
  intro s
  have hsound : Sound [] s := run_sound workerHost bootstrap now events
  refine ⟨hsound.sent, ?_, hsound.queued, ⟨_, ?_, hsound.unfinished⟩, hsound.started⟩
  · have hgranted := hsound.granted address port
    have hspent := DatagramRegistry.granted_le address port s.ops hclock {} 0
      fun _ _ => Nat.zero_le _
    have hnothing : DatagramRegistry.credit {} (Transparent.flowKey address port) 0 = 0 := rfl
    rw [held] at hgranted
    omega
  · rw [List.length_map, ← hsound.threads]
    exact length_busy_le s.threads

end

/-- A query for the Worker's own name is reflected, answered and sent back. -/
def sampleRun : List ProxyEvent :=
  [.observe [49] 53 10 fun _ => 0, .receive sampleDatagram [49] 53 11, .act 0 {}, .finish 0 true]

theorem relay_serves_sample :
    let s := run (Proxy.step noLiterals) (start noLiterals [97] none 0) sampleRun
    (∀ answer ∈ s.sent, answer.1.data.length ≤ maxDnsDatagram ∧ answer.2 ≠ [] ∧
        ∃ whole, Served answer.1.data whole answer.2) ∧
      s.sent.countP (fun answer => ofPeer [49] 53 answer.1) ≤
        DatagramRegistry.observed [49] 53 s.ops ∧
      s.jobs.length ≤ maxQueuedQueries ∧
      (∃ working : List ℕ, working.length ≤ workerCount + 1 ∧
        ∀ index c, s.system.calls[index]? = some c → c.datagram ≠ none → ¬ c.phase.Over →
          index ∈ working) ∧
      ∀ entry ∈ s.started, entry.2 - entry.1.enqueuedMs ≤ maxQueueAgeMs :=
  relay_serves noLiterals [97] none 0 sampleRun (by decide +kernel) [49] 53

end Proxy

end Dns

end SplitHello
