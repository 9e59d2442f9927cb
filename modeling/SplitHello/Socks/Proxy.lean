import SplitHello.Library.History
import SplitHello.Library.KeyedTable

/-!
# The sessions of the relay's listener

`SocksProxy` serves every accepted connection by a thread of its own. A thread that is
done moves its own handle to the list of finished ones; the accept loop, `stop` and every
other thread that ends join what they find there.

The threads are the one in `run`, the one that calls `stop` once, and one for each session.
A run is a list of events, each naming the thread that goes on and what it is told by the
system. A block under a mutex is one step if it looks at the flags `running_` and
`stopRequested_` once at most, because `stop` writes them without the mutex. The block in
which the listener is published reads one flag and then writes the other, so it is two
steps, between which the mutex is held.
-/

namespace SplitHello

namespace Socks

open KeyedTable History

def acceptMaxConsecutiveErrors : ℕ := 100

/-- What the other threads may know about a session. -/
structure Session where
  clientSock : Bool := true
  relay : Bool := false
  cancelled : Bool := false
  deriving DecidableEq, Repr

/-- Where the thread in `run` is. `errors` counts failures of `accept` in a row. -/
inductive RunnerPhase
  | starting
  | checked
  | looping (errors : ℕ)
  | accepting (errors : ℕ)
  | failed (errors : ℕ) (fatal : Bool)
  | givingUp
  | accepted
  | reaping (handles : List ℕ)
  | returned
  deriving DecidableEq, Repr

/-- Where the thread in `stop` is. -/
inductive StopPhase
  | idle
  | requested
  | cleared
  | closed
  | waiting
  | drained
  | reaping (handles : List ℕ)
  | returned
  deriving DecidableEq, Repr

/-- Where the thread of a session is. -/
inductive ThreadPhase
  | negotiating
  | refusing
  | handingOver
  | relaying
  | relayed
  | relayThrown
  | thrown
  | finishing
  | joining (handles : List ℕ)
  | exited
  deriving DecidableEq, Repr

/-- The threads by which a handle can be joined. -/
inductive Owner
  | runner
  | stopper
  | session (id : ℕ)
  deriving DecidableEq, Repr

/-- The handle of a thread is the number of its session. `joined` lists who has joined
what. -/
structure Proxy where
  maxConnections : ℕ
  runner : RunnerPhase := .starting
  stopper : StopPhase := .idle
  threads : Table ℕ ThreadPhase := ∅
  listenSock : Bool := false
  running : Bool := false
  stopRequested : Bool := false
  sessions : Table ℕ Session := ∅
  finished : List ℕ := []
  nextSessionId : ℕ := 1
  rejected : ℕ := 0
  joined : List (Owner × ℕ) := []

/-- How a call ends. -/
inductive Result
  | ok
  | failed
  | threw
  deriving DecidableEq, Repr

/-- What the system says to the thread in `run`: whether the listener could be set up, what
`accept` returns, whether a thread could be started. -/
structure RunnerInput where
  listens : Bool := true
  accepts : Bool := true
  fatal : Bool := false
  starts : Bool := true
  deriving DecidableEq, Repr

inductive ProxyEvent
  | run (input : RunnerInput)
  | stop
  | session (id : ℕ) (result : Result)
  deriving DecidableEq, Repr

namespace Proxy

/-- The next handle of a list is joined once its thread is gone. -/
def join (s : Proxy) (owner : Owner) (handle : ℕ) : Option Proxy :=
  if s.threads.lookup handle = some .exited then
    some { s with joined := s.joined ++ [(owner, handle)] }
  else none

/-- The locked block of `spawnSession`. -/
def spawnSession (s : Proxy) (starts : Bool) : Proxy :=
  if s.running = false ∨ size s.sessions ≥ s.maxConnections then
    { s with rejected := s.rejected + 1 }
  else
    let id := s.nextSessionId
    let s := { s with nextSessionId := id + 1 }
    if starts then
      { s with
        sessions := s.sessions.insert id {}
        threads := s.threads.insert id .negotiating }
    else s

def runStep (s : Proxy) (input : RunnerInput) : Proxy :=
  match s.runner with
  | .starting =>
      if input.listens = false then { s with runner := .returned }
      else if s.stopRequested then { s with runner := .returned }
      else { s with runner := .checked }
  | .checked => { s with listenSock := true, running := true, runner := .looping 0 }
  | .looping errors =>
      if s.running then { s with runner := .accepting errors } else { s with runner := .returned }
  | .accepting errors =>
      -- A closed listener accepts nothing.
      if input.accepts && s.listenSock then { s with runner := .accepted }
      else { s with runner := .failed errors input.fatal }
  | .failed errors fatal =>
      if s.running = false then { s with runner := .returned }
      else if fatal ∨ errors + 1 > acceptMaxConsecutiveErrors then { s with runner := .givingUp }
      else { s with runner := .looping (errors + 1) }
  | .givingUp => { s with running := false, runner := .returned }
  | .accepted => { s with finished := [], runner := .reaping s.finished }
  | .reaping (handle :: handles) =>
      match s.join .runner handle with
      | some s => { s with runner := .reaping handles }
      | none => s
  | .reaping [] => { s.spawnSession input.starts with runner := .looping 0 }
  | .returned => s

def cancel (session : Session) : Session := { session with cancelled := true }

def stopStep (s : Proxy) : Proxy :=
  match s.stopper with
  | .idle => { s with stopRequested := true, stopper := .requested }
  | .requested => { s with running := false, stopper := .cleared }
  | .cleared =>
      if s.runner = .checked then s else { s with listenSock := false, stopper := .closed }
  | .closed => { s with sessions := mapValues cancel s.sessions, stopper := .waiting }
  | .waiting => if size s.sessions = 0 then { s with stopper := .drained } else s
  | .drained => { s with finished := [], stopper := .reaping s.finished }
  | .reaping (handle :: handles) =>
      match s.join .stopper handle with
      | some s => { s with stopper := .reaping handles }
      | none => s
  | .reaping [] => { s with stopper := .returned }
  | .returned => s

/-- A block in which the thread of a session changes what others know about it. -/
def update (s : Proxy) (id : ℕ) (f : Session → Session) (phase : ThreadPhase) : Proxy :=
  { s with
    sessions := match s.sessions.lookup id with
      | some session => s.sessions.insert id (f session)
      | none => s.sessions
    threads := s.threads.insert id phase }

/-- The last block of `sessionMain`. All handles but the thread's own are taken along. -/
def retire (s : Proxy) (id : ℕ) : Proxy :=
  { s with
    sessions := s.sessions.erase id
    finished := [id]
    threads := s.threads.insert id (.joining s.finished) }

def sessionStep (s : Proxy) (id : ℕ) (result : Result) : Proxy :=
  match s.threads.lookup id with
  | some .negotiating =>
      match result with
      | .ok => { s with threads := s.threads.insert id .handingOver }
      | .failed => { s with threads := s.threads.insert id .refusing }
      | .threw => { s with threads := s.threads.insert id .thrown }
  | some .refusing => s.update id (fun x => { x with clientSock := false }) .finishing
  | some .handingOver =>
      let cancelled := (s.sessions.lookup id).any Session.cancelled
      s.update id (fun x => { x with clientSock := false, relay := !cancelled })
        (if cancelled then .finishing else .relaying)
  | some .relaying =>
      { s with
        threads := s.threads.insert id (if result = .threw then .relayThrown else .relayed) }
  | some .relayed => s.update id (fun x => { x with relay := false }) .finishing
  | some .relayThrown => s.update id (fun x => { x with relay := false }) .thrown
  | some .thrown => s.update id (fun x => { x with clientSock := false }) .finishing
  | some .finishing => s.retire id
  | some (.joining (handle :: handles)) =>
      match s.join (.session id) handle with
      | some s => { s with threads := s.threads.insert id (.joining handles) }
      | none => s
  | some (.joining []) => { s with threads := s.threads.insert id .exited }
  | some .exited => s
  | none => s

def step (s : Proxy) : ProxyEvent → Proxy
  | .run input => s.runStep input
  | .stop => s.stopStep
  | .session id result => s.sessionStep id result

/-! ## Handles -/

end Proxy

def RunnerPhase.handles : RunnerPhase → List ℕ
  | .reaping handles => handles
  | _ => []

def StopPhase.handles : StopPhase → List ℕ
  | .reaping handles => handles
  | _ => []

def ThreadPhase.handles : ThreadPhase → List ℕ
  | .joining handles => handles
  | _ => []

/-- The thread has not come to its last block. -/
def ThreadPhase.serving : ThreadPhase → Bool
  | .joining _ => false
  | .exited => false
  | _ => true

namespace Proxy

/-- What a thread still has to join. -/
def joins (s : Proxy) : Owner → List ℕ
  | .runner => s.runner.handles
  | .stopper => s.stopper.handles
  | .session id => ((s.threads.lookup id).map ThreadPhase.handles).getD []

def Serving (s : Proxy) (id : ℕ) : Prop :=
  ∃ phase, s.threads.lookup id = some phase ∧ phase.serving = true

/-- What one step can do with sessions and handles. -/
inductive Moves (s s' : Proxy) : Prop
  | quiet (hmax : s'.maxConnections = s.maxConnections)
      (hnext : s.nextSessionId ≤ s'.nextSessionId)
      (hkeys : s'.sessions.keys.Perm s.sessions.keys)
      (hfinished : s'.finished = s.finished) (hjoined : s'.joined = s.joined)
      (hjoins : ∀ owner, s'.joins owner = s.joins owner)
      (hserving : ∀ id, s'.Serving id → s.Serving id)
  | spawned (hmax : s'.maxConnections = s.maxConnections)
      (hnext : s'.nextSessionId = s.nextSessionId + 1)
      (hroom : size s.sessions < s.maxConnections)
      (hsessions : s'.sessions = s.sessions.insert s.nextSessionId {})
      (hfinished : s'.finished = s.finished) (hjoined : s'.joined = s.joined)
      (hjoins : ∀ owner, owner ≠ .session s.nextSessionId → s'.joins owner = s.joins owner)
      (hnone : s'.joins (.session s.nextSessionId) = [])
      (hserving : ∀ id, s'.Serving id → id = s.nextSessionId ∨ s.Serving id)
  | swapped (owner : Owner) (hmax : s'.maxConnections = s.maxConnections)
      (hnext : s'.nextSessionId = s.nextSessionId) (hsessions : s'.sessions = s.sessions)
      (hfinished : s'.finished = []) (hjoined : s'.joined = s.joined)
      (howner : ∀ id, owner ≠ .session id) (hfree : s.joins owner = [])
      (htaken : s'.joins owner = s.finished)
      (hjoins : ∀ other, other ≠ owner → s'.joins other = s.joins other)
      (hserving : ∀ id, s'.Serving id → s.Serving id)
  | retired (id : ℕ) (hmax : s'.maxConnections = s.maxConnections)
      (hnext : s'.nextSessionId = s.nextSessionId) (hid : s.Serving id)
      (hsessions : s'.sessions = s.sessions.erase id) (hfinished : s'.finished = [id])
      (hjoined : s'.joined = s.joined) (htaken : s'.joins (.session id) = s.finished)
      (hjoins : ∀ other, other ≠ .session id → s'.joins other = s.joins other)
      (hserving : ∀ id', s'.Serving id' → id' ≠ id ∧ s.Serving id')
  | join (owner : Owner) (handle : ℕ) (hmax : s'.maxConnections = s.maxConnections)
      (hnext : s'.nextSessionId = s.nextSessionId) (hsessions : s'.sessions = s.sessions)
      (hfinished : s'.finished = s.finished)
      (hjoined : s'.joined = s.joined ++ [(owner, handle)])
      (hhandle : s.joins owner = handle :: s'.joins owner)
      (hjoins : ∀ other, other ≠ owner → s'.joins other = s.joins other)
      (hserving : ∀ id, s'.Serving id → s.Serving id)

variable {s s' : Proxy}

theorem serving_iff_of_insert {id : ℕ} {phase : ThreadPhase}
    (hthreads : s'.threads = s.threads.insert id phase) (id' : ℕ) :
    s'.Serving id' ↔ id' = id ∧ phase.serving = true ∨ id' ≠ id ∧ s.Serving id' := by
  rw [Serving, hthreads, lookup_insert_eq]
  by_cases heq : id' = id
  · simp [heq]
  · simp [heq, Serving]

theorem joins_session_of_insert {id : ℕ} {phase : ThreadPhase}
    (hthreads : s'.threads = s.threads.insert id phase) :
    s'.joins (.session id) = phase.handles := by
  rw [joins, hthreads, AList.lookup_insert]
  rfl

theorem joins_of_insert {id : ℕ} {phase : ThreadPhase}
    (hrunner : s'.runner.handles = s.runner.handles)
    (hstopper : s'.stopper.handles = s.stopper.handles)
    (hthreads : s'.threads = s.threads.insert id phase) {owner : Owner}
    (howner : owner ≠ .session id) : s'.joins owner = s.joins owner := by
  cases owner with
  | runner => exact hrunner
  | stopper => exact hstopper
  | session other =>
      have hne : other ≠ id := fun heq => howner (heq ▸ rfl)
      rw [joins, joins, hthreads, AList.lookup_insert_ne hne]

/-- A step of the thread of a session before its last block. -/
theorem moves_of_serving {id : ℕ} {old phase : ThreadPhase} (hold : s.threads.lookup id = some old)
    (hserving : old.serving = true) (hhandles : phase.handles = [])
    (hmax : s'.maxConnections = s.maxConnections) (hnext : s'.nextSessionId = s.nextSessionId)
    (hrunner : s'.runner = s.runner) (hstopper : s'.stopper = s.stopper)
    (hkeys : s'.sessions.keys.Perm s.sessions.keys) (hfinished : s'.finished = s.finished)
    (hjoined : s'.joined = s.joined) (hthreads : s'.threads = s.threads.insert id phase) :
    Moves s s' := by
  refine .quiet hmax hnext.ge hkeys hfinished hjoined ?_ ?_
  · intro owner
    by_cases howner : owner = .session id
    · rw [howner, joins_session_of_insert hthreads, hhandles, joins, hold]
      cases old <;> first | rfl | cases hserving
    · exact joins_of_insert (by rw [hrunner]) (by rw [hstopper]) hthreads howner
  · intro id' hid'
    rcases (serving_iff_of_insert hthreads id').1 hid' with ⟨rfl, -⟩ | ⟨-, hid'⟩
    · exact ⟨old, hold, hserving⟩
    · exact hid'

theorem keys_update (s : Proxy) (id : ℕ) (f : Session → Session) (phase : ThreadPhase) :
    (s.update id f phase).sessions.keys.Perm s.sessions.keys := by
  rw [update]
  cases hlookup : s.sessions.lookup id with
  | none => exact List.Perm.refl _
  | some session =>
      have hmem : id ∈ s.sessions.keys :=
        AList.mem_keys.1 (mem_of_lookup hlookup)
      simp only [AList.keys_insert]
      exact (List.perm_cons_erase hmem).symm

/-- A thread joins what it has at the head of its list, or waits. -/
theorem join_cases (s : Proxy) (owner : Owner) (handle : ℕ) :
    s.join owner handle = none ∨
      s.join owner handle = some { s with joined := s.joined ++ [(owner, handle)] } := by
  rw [join]
  split
  · exact Or.inr rfl
  · exact Or.inl rfl

theorem retire_moves {id : ℕ} (hid : s.Serving id) : Moves s (s.retire id) := by
  have hthreads : (s.retire id).threads = s.threads.insert id (.joining s.finished) := rfl
  have hrunner : (s.retire id).runner.handles = s.runner.handles := rfl
  refine .retired id rfl rfl hid rfl rfl rfl (joins_session_of_insert hthreads) ?_ ?_
  · intro other hother
    exact joins_of_insert hrunner rfl hthreads hother
  · intro id' hid'
    rcases (serving_iff_of_insert hthreads id').1 hid' with ⟨-, hfalse⟩ | hid'
    · cases hfalse
    · exact hid'

/-- A thread that is past its last block serves no one. -/
theorem serving_of_insert {id : ℕ} {phase : ThreadPhase} (hphase : phase.serving = false)
    (hthreads : s'.threads = s.threads.insert id phase) (id' : ℕ) (hid' : s'.Serving id') :
    s.Serving id' := by
  rcases (serving_iff_of_insert hthreads id').1 hid' with ⟨-, htrue⟩ | ⟨-, hid'⟩
  · rw [hphase] at htrue
    cases htrue
  · exact hid'

theorem exited_moves {id : ℕ} (hold : s.threads.lookup id = some (.joining [])) :
    Moves s { s with threads := s.threads.insert id .exited } := by
  generalize hs' : ({ s with threads := s.threads.insert id .exited } : Proxy) = s'
  have hthreads : s'.threads = s.threads.insert id .exited := by rw [← hs']
  have hrunner : s'.runner = s.runner := by rw [← hs']
  have hstopper : s'.stopper = s.stopper := by rw [← hs']
  refine .quiet (by rw [← hs']) (by rw [← hs']) (by rw [← hs']) (by rw [← hs']) (by rw [← hs']) ?_
    (serving_of_insert rfl hthreads)
  intro owner
  by_cases howner : owner = .session id
  · rw [howner, joins_session_of_insert hthreads, joins, hold]
    rfl
  · exact joins_of_insert (by rw [hrunner]) (by rw [hstopper]) hthreads howner

theorem sessionJoin_moves {id handle : ℕ} {handles : List ℕ}
    (hold : s.threads.lookup id = some (.joining (handle :: handles)))
    (hmax : s'.maxConnections = s.maxConnections) (hnext : s'.nextSessionId = s.nextSessionId)
    (hrunner : s'.runner = s.runner) (hstopper : s'.stopper = s.stopper)
    (hsessions : s'.sessions = s.sessions) (hfinished : s'.finished = s.finished)
    (hjoined : s'.joined = s.joined ++ [(.session id, handle)])
    (hthreads : s'.threads = s.threads.insert id (.joining handles)) : Moves s s' := by
  refine .join (.session id) handle hmax hnext hsessions hfinished hjoined ?_ ?_
    (serving_of_insert rfl hthreads)
  · rw [joins_session_of_insert hthreads, joins, hold]
    rfl
  · intro other hother
    exact joins_of_insert (by rw [hrunner]) (by rw [hstopper]) hthreads hother

theorem moves_refl (s : Proxy) : Moves s s :=
  .quiet rfl le_rfl (List.Perm.refl _) rfl rfl (fun _ => rfl) fun _ h => h

theorem sessionStep_moves (s : Proxy) (id : ℕ) (result : Result) :
    Moves s (s.sessionStep id result) := by
  have hupdate (old phase : ThreadPhase) (f : Session → Session)
      (hold : s.threads.lookup id = some old) (hserving : old.serving = true)
      (hhandles : phase.handles = []) : Moves s (s.update id f phase) :=
    moves_of_serving hold hserving hhandles rfl rfl rfl rfl (keys_update s id f phase) rfl rfl rfl
  unfold sessionStep
  cases hold : s.threads.lookup id with
  | none => exact moves_refl s
  | some phase =>
      cases phase with
      | negotiating =>
          cases result <;>
            exact moves_of_serving hold rfl rfl rfl rfl rfl rfl (List.Perm.refl _) rfl rfl rfl
      | refusing => exact hupdate _ _ _ hold rfl rfl
      | handingOver =>
          refine hupdate _ _ _ hold rfl ?_
          split <;> rfl
      | relaying =>
          refine moves_of_serving hold rfl ?_ rfl rfl rfl rfl (List.Perm.refl _) rfl rfl rfl
          split <;> rfl
      | relayed => exact hupdate _ _ _ hold rfl rfl
      | relayThrown => exact hupdate _ _ _ hold rfl rfl
      | thrown => exact hupdate _ _ _ hold rfl rfl
      | finishing => exact retire_moves ⟨_, hold, rfl⟩
      | exited => exact moves_refl s
      | joining handles =>
          cases handles with
          | nil => exact exited_moves hold
          | cons handle handles =>
              rcases join_cases s (.session id) handle with hnone | hsome
              · simp only [hnone]
                exact moves_refl s
              · simp only [hsome]
                exact sessionJoin_moves hold rfl rfl rfl rfl rfl rfl rfl rfl

/-- A step of the thread in `run` or of the one in `stop` that takes no session and no
handle. -/
theorem moves_of_quiet (hmax : s'.maxConnections = s.maxConnections)
    (hnext : s.nextSessionId ≤ s'.nextSessionId) (hthreads : s'.threads = s.threads)
    (hrunner : s'.runner.handles = s.runner.handles)
    (hstopper : s'.stopper.handles = s.stopper.handles)
    (hkeys : s'.sessions.keys.Perm s.sessions.keys) (hfinished : s'.finished = s.finished)
    (hjoined : s'.joined = s.joined) : Moves s s' := by
  refine .quiet hmax hnext hkeys hfinished hjoined ?_ ?_
  · intro owner
    cases owner with
    | runner => exact hrunner
    | stopper => exact hstopper
    | session id => rw [joins, joins, hthreads]
  · intro id hid
    rw [Serving, hthreads] at hid
    exact hid

/-- The step in which a session is created. -/
theorem spawned_moves (hroom : size s.sessions < s.maxConnections)
    (hmax : s'.maxConnections = s.maxConnections)
    (hnext : s'.nextSessionId = s.nextSessionId + 1)
    (hrunner : s'.runner.handles = s.runner.handles)
    (hstopper : s'.stopper.handles = s.stopper.handles)
    (hsessions : s'.sessions = s.sessions.insert s.nextSessionId {})
    (hfinished : s'.finished = s.finished) (hjoined : s'.joined = s.joined)
    (hthreads : s'.threads = s.threads.insert s.nextSessionId .negotiating) : Moves s s' := by
  refine .spawned hmax hnext hroom hsessions hfinished hjoined ?_
    (joins_session_of_insert hthreads) ?_
  · intro owner howner
    exact joins_of_insert hrunner hstopper hthreads howner
  · intro id hid
    rcases (serving_iff_of_insert hthreads id).1 hid with ⟨heq, -⟩ | ⟨-, hid⟩
    · exact Or.inl heq
    · exact Or.inr hid

theorem swapped_moves {owner : Owner} (howner : ∀ id, owner ≠ .session id)
    (hmax : s'.maxConnections = s.maxConnections) (hnext : s'.nextSessionId = s.nextSessionId)
    (hthreads : s'.threads = s.threads) (hsessions : s'.sessions = s.sessions)
    (hfinished : s'.finished = []) (hjoined : s'.joined = s.joined) (hfree : s.joins owner = [])
    (htaken : s'.joins owner = s.finished)
    (hjoins : ∀ other, other ≠ owner → s'.joins other = s.joins other) : Moves s s' := by
  refine .swapped owner hmax hnext hsessions hfinished hjoined howner hfree htaken hjoins ?_
  intro id hid
  rw [Serving, hthreads] at hid
  exact hid

/-- The step in which the thread in `run` or the one in `stop` joins another. -/
theorem joined_moves {owner : Owner} {handle : ℕ} (hmax : s'.maxConnections = s.maxConnections)
    (hnext : s'.nextSessionId = s.nextSessionId) (hthreads : s'.threads = s.threads)
    (hsessions : s'.sessions = s.sessions) (hfinished : s'.finished = s.finished)
    (hjoined : s'.joined = s.joined ++ [(owner, handle)])
    (hhandle : s.joins owner = handle :: s'.joins owner)
    (hjoins : ∀ other, other ≠ owner → s'.joins other = s.joins other) : Moves s s' := by
  refine .join owner handle hmax hnext hsessions hfinished hjoined hhandle hjoins ?_
  intro id hid
  rw [Serving, hthreads] at hid
  exact hid

theorem spawnSession_moves (hrunner : s.runner = .reaping []) (starts : Bool) :
    Moves s { s.spawnSession starts with runner := .looping 0 } := by
  have hhandles : s.runner.handles = [] := by rw [hrunner]; rfl
  rw [spawnSession]
  by_cases hfull : s.running = false ∨ size s.sessions ≥ s.maxConnections
  · rw [if_pos hfull]
    exact moves_of_quiet rfl le_rfl rfl hhandles.symm rfl (List.Perm.refl _) rfl rfl
  · rw [if_neg hfull]
    have hroom : size s.sessions < s.maxConnections := not_le.1 fun h => hfull (Or.inr h)
    cases starts with
    | false =>
        exact moves_of_quiet rfl (Nat.le_succ _) rfl hhandles.symm rfl (List.Perm.refl _) rfl rfl
    | true => exact spawned_moves hroom rfl rfl hhandles.symm rfl rfl rfl rfl rfl

theorem runStep_moves (s : Proxy) (input : RunnerInput) : Moves s (s.runStep input) := by
  have hquiet (phase : RunnerPhase) (listenSock running : Bool) (hold : s.runner.handles = [])
      (hnew : phase.handles = []) :
      Moves s { s with runner := phase, listenSock := listenSock, running := running } :=
    moves_of_quiet rfl le_rfl rfl (hnew.trans hold.symm) rfl (List.Perm.refl _) rfl rfl
  unfold runStep
  cases hrunner : s.runner with
  | starting =>
      have hold : s.runner.handles = [] := by rw [hrunner]; rfl
      dsimp only
      split
      · exact hquiet _ s.listenSock s.running hold rfl
      · split <;> exact hquiet _ s.listenSock s.running hold rfl
  | checked => exact hquiet _ _ _ (by rw [hrunner]; rfl) rfl
  | looping errors =>
      have hold : s.runner.handles = [] := by rw [hrunner]; rfl
      dsimp only
      split <;> exact hquiet _ s.listenSock s.running hold rfl
  | accepting errors =>
      have hold : s.runner.handles = [] := by rw [hrunner]; rfl
      dsimp only
      split <;> exact hquiet _ s.listenSock s.running hold rfl
  | failed errors fatal =>
      have hold : s.runner.handles = [] := by rw [hrunner]; rfl
      dsimp only
      split
      · exact hquiet _ s.listenSock s.running hold rfl
      · split <;> exact hquiet _ s.listenSock s.running hold rfl
  | givingUp => exact hquiet _ s.listenSock _ (by rw [hrunner]; rfl) rfl
  | accepted =>
      have howner (id : ℕ) : Owner.runner ≠ .session id := by simp
      refine swapped_moves howner rfl rfl rfl rfl rfl rfl
        (show s.runner.handles = [] by rw [hrunner]; rfl) rfl ?_
      intro other hother
      cases other with
      | runner => exact absurd rfl hother
      | stopper => rfl
      | session id => rfl
  | reaping handles =>
      cases handles with
      | nil => exact spawnSession_moves hrunner _
      | cons handle handles =>
          dsimp only
          rcases join_cases s .runner handle with hnone | hsome
          · rw [hnone]
            exact moves_refl s
          · rw [hsome]
            refine joined_moves rfl rfl rfl rfl rfl rfl
              (show s.runner.handles = _ by rw [hrunner]; rfl) ?_
            intro other hother
            cases other with
            | runner => exact absurd rfl hother
            | stopper => rfl
            | session id => rfl
  | returned => exact moves_refl s

theorem stopStep_moves (s : Proxy) : Moves s s.stopStep := by
  have hquiet (phase : StopPhase) (stopRequested running listenSock : Bool)
      (hold : s.stopper.handles = []) (hnew : phase.handles = []) :
      Moves s { s with
        stopper := phase, stopRequested := stopRequested, running := running,
        listenSock := listenSock } :=
    moves_of_quiet rfl le_rfl rfl rfl (hnew.trans hold.symm) (List.Perm.refl _) rfl rfl
  unfold stopStep
  cases hstopper : s.stopper with
  | idle => exact hquiet _ _ s.running s.listenSock (by rw [hstopper]; rfl) rfl
  | requested => exact hquiet _ s.stopRequested _ s.listenSock (by rw [hstopper]; rfl) rfl
  | cleared =>
      dsimp only
      split
      · exact moves_refl s
      · exact hquiet _ s.stopRequested s.running _ (by rw [hstopper]; rfl) rfl
  | closed =>
      have hold : s.stopper.handles = [] := by rw [hstopper]; rfl
      exact moves_of_quiet rfl le_rfl rfl rfl hold.symm
        (List.Perm.of_eq (keys_mapValues cancel s.sessions)) rfl rfl
  | waiting =>
      dsimp only
      split
      · exact hquiet _ s.stopRequested s.running s.listenSock (by rw [hstopper]; rfl) rfl
      · exact moves_refl s
  | drained =>
      have howner (id : ℕ) : Owner.stopper ≠ .session id := by simp
      refine swapped_moves howner rfl rfl rfl rfl rfl rfl
        (show s.stopper.handles = [] by rw [hstopper]; rfl) rfl ?_
      intro other hother
      cases other with
      | runner => rfl
      | stopper => exact absurd rfl hother
      | session id => rfl
  | reaping handles =>
      cases handles with
      | nil => exact hquiet _ s.stopRequested s.running s.listenSock (by rw [hstopper]; rfl) rfl
      | cons handle handles =>
          dsimp only
          rcases join_cases s .stopper handle with hnone | hsome
          · rw [hnone]
            exact moves_refl s
          · rw [hsome]
            refine joined_moves rfl rfl rfl rfl rfl rfl
              (show s.stopper.handles = _ by rw [hstopper]; rfl) ?_
            intro other hother
            cases other with
            | runner => rfl
            | stopper => exact absurd rfl hother
            | session id => rfl
  | returned => exact moves_refl s

theorem step_moves (s : Proxy) (event : ProxyEvent) : Moves s (s.step event) := by
  cases event with
  | run input => exact runStep_moves s input
  | stop => exact stopStep_moves s
  | session id result => exact sessionStep_moves s id result

end Proxy

end Socks

end SplitHello
