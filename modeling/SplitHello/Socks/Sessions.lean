import SplitHello.Socks.Proxy

/-!
# What holds while the relay runs and after it has stopped

The handle of a session's thread is with the session, among the finished ones, in the hands
of a thread that is about to join it, or joined; every step moves it on and no step copies
it. After `stop` nothing is left, unless both stores of `stop` fell into the block in which
the listener is published: then `running_` is set for good.
-/

namespace SplitHello

namespace Socks

open KeyedTable History

/-- Where the handle of a session's thread is. -/
inductive Place
  | absent
  | session
  | finished
  | held (owner : Owner)
  | joined (owner : Owner)
  deriving DecidableEq, Repr

/-- How far `stop` has come. -/
def StopPhase.order : StopPhase → ℕ
  | .idle => 0
  | .requested => 1
  | .cleared => 2
  | .closed => 3
  | .waiting => 4
  | .drained => 5
  | .reaping _ => 6
  | .returned => 7

namespace Proxy

/-- Every handle is in its place and nowhere else. -/
structure Sound (s : Proxy) (place : ℕ → Place) : Prop where
  capped : size s.sessions ≤ s.maxConnections
  fresh : ∀ id, s.nextSessionId ≤ id → place id = .absent ∧ s.joins (.session id) = []
  inSessions : ∀ id, id ∈ s.sessions ↔ place id = .session
  inFinished : ∀ id, id ∈ s.finished ↔ place id = .finished
  inJoins : ∀ owner id, id ∈ s.joins owner ↔ place id = .held owner
  inJoined : ∀ owner id, (owner, id) ∈ s.joined ↔ place id = .joined owner
  nodup_finished : s.finished.Nodup
  nodup_joins : ∀ owner, (s.joins owner).Nodup
  nodup_joined : (s.joined.map Prod.snd).Nodup
  foreign : ∀ id, place id ≠ .held (.session id) ∧ place id ≠ .joined (.session id)
  serving : ∀ id, s.Serving id → id ∈ s.sessions ∧ s.joins (.session id) = []

variable {s s' : Proxy} {place : ℕ → Place}

theorem Sound.quiet (hs : s.Sound place) (hmax : s'.maxConnections = s.maxConnections)
    (hnext : s.nextSessionId ≤ s'.nextSessionId)
    (hkeys : s'.sessions.keys.Perm s.sessions.keys)
    (hfinished : s'.finished = s.finished) (hjoined : s'.joined = s.joined)
    (hjoins : ∀ owner, s'.joins owner = s.joins owner)
    (hserving : ∀ id, s'.Serving id → s.Serving id) : s'.Sound place := by
  have hmem (id : ℕ) : id ∈ s'.sessions ↔ id ∈ s.sessions := by
    rw [AList.mem_keys, AList.mem_keys]
    exact hkeys.mem_iff
  constructor
  case capped =>
    rw [size, hkeys.length_eq, hmax]
    exact hs.capped
  case fresh =>
    intro id hid
    rw [hjoins]
    exact hs.fresh id (hnext.trans hid)
  case inSessions =>
    intro id
    rw [hmem]
    exact hs.inSessions id
  case inFinished =>
    rw [hfinished]
    exact hs.inFinished
  case inJoins =>
    intro owner id
    rw [hjoins]
    exact hs.inJoins owner id
  case inJoined =>
    rw [hjoined]
    exact hs.inJoined
  case nodup_finished =>
    rw [hfinished]
    exact hs.nodup_finished
  case nodup_joins =>
    intro owner
    rw [hjoins]
    exact hs.nodup_joins owner
  case nodup_joined =>
    rw [hjoined]
    exact hs.nodup_joined
  case foreign => exact hs.foreign
  case serving =>
    intro id hid
    rw [hmem, hjoins]
    exact hs.serving id (hserving id hid)

/-- A handle that goes from one place to another is the only one to leave or to enter. -/
theorem update_eq_iff {handle : ℕ} {left entered p : Place} (hplace : place handle = left)
    (hleft : p ≠ left) (hentered : p ≠ entered) (id : ℕ) :
    Function.update place handle entered id = p ↔ place id = p := by
  by_cases hid : id = handle
  · rw [hid, Function.update_self, hplace]
    exact ⟨fun h => absurd h.symm hentered, fun h => absurd h.symm hleft⟩
  · rw [Function.update_of_ne hid]

theorem Sound.spawned (hs : s.Sound place) (hmax : s'.maxConnections = s.maxConnections)
    (hnext : s'.nextSessionId = s.nextSessionId + 1)
    (hroom : size s.sessions < s.maxConnections)
    (hsessions : s'.sessions = s.sessions.insert s.nextSessionId {})
    (hfinished : s'.finished = s.finished) (hjoined : s'.joined = s.joined)
    (hjoins : ∀ owner, owner ≠ .session s.nextSessionId → s'.joins owner = s.joins owner)
    (hnone : s'.joins (.session s.nextSessionId) = [])
    (hserving : ∀ id, s'.Serving id → id = s.nextSessionId ∨ s.Serving id) :
    s'.Sound (Function.update place s.nextSessionId .session) := by
  have hnew := hs.fresh s.nextSessionId le_rfl
  have hjoins (owner : Owner) : s'.joins owner = s.joins owner := by
    by_cases howner : owner = .session s.nextSessionId
    · rw [howner, hnone, hnew.2]
    · exact hjoins owner howner
  have hplace (id : ℕ) (p : Place) (hsession : p ≠ .session) (habsent : p ≠ .absent) :
      Function.update place s.nextSessionId .session id = p ↔ place id = p :=
    update_eq_iff hnew.1 habsent hsession id
  constructor
  case capped =>
    rw [hsessions, hmax]
    exact (size_insert_le _ _ _).trans hroom
  case fresh =>
    intro id hid
    rw [hnext] at hid
    have hold := hs.fresh id (Nat.le_of_succ_le hid)
    rw [Function.update_of_ne (Nat.ne_of_gt hid), hjoins]
    exact hold
  case inSessions =>
    intro id
    rw [hsessions, AList.mem_insert]
    by_cases hid : id = s.nextSessionId
    · simp [hid]
    · rw [Function.update_of_ne hid]
      simp [hid, hs.inSessions id]
  case inFinished =>
    intro id
    rw [hfinished, hplace id _ (by simp) (by simp)]
    exact hs.inFinished id
  case inJoins =>
    intro owner id
    rw [hjoins, hplace id _ (by simp) (by simp)]
    exact hs.inJoins owner id
  case inJoined =>
    intro owner id
    rw [hjoined, hplace id _ (by simp) (by simp)]
    exact hs.inJoined owner id
  case nodup_finished =>
    rw [hfinished]
    exact hs.nodup_finished
  case nodup_joins =>
    intro owner
    rw [hjoins]
    exact hs.nodup_joins owner
  case nodup_joined =>
    rw [hjoined]
    exact hs.nodup_joined
  case foreign =>
    intro id
    rw [Ne, Ne, hplace id _ (by simp) (by simp), hplace id _ (by simp) (by simp)]
    exact hs.foreign id
  case serving =>
    intro id hid
    rw [hsessions, AList.mem_insert, hjoins]
    rcases hserving id hid with rfl | hid
    · exact ⟨Or.inl rfl, hnew.2⟩
    · exact ⟨Or.inr (hs.serving id hid).1, (hs.serving id hid).2⟩

/-- The handles of the finished threads pass to `owner`. -/
def passFinished (place : ℕ → Place) (owner : Owner) (id : ℕ) : Place :=
  if place id = .finished then .held owner else place id

theorem passFinished_of_ne {owner : Owner} {id : ℕ} {p : Place} (hfinished : p ≠ .finished)
    (hheld : p ≠ .held owner) : passFinished place owner id = p ↔ place id = p := by
  rw [passFinished]
  split
  · rename_i hplace
    rw [hplace]
    exact ⟨fun h => absurd h.symm hheld, fun h => absurd h.symm hfinished⟩
  · rfl

theorem Sound.held_iff_finished (hs : s.Sound place) {owner : Owner} (hfree : s.joins owner = [])
    (id : ℕ) : passFinished place owner id = .held owner ↔ id ∈ s.finished := by
  rw [hs.inFinished, passFinished]
  split
  · rename_i hplace
    simp [hplace]
  · rename_i hplace
    rw [← hs.inJoins, hfree]
    simp [hplace]

theorem Sound.nodup_joins_of_taken (hs : s.Sound place) {owner : Owner}
    (htaken : s'.joins owner = s.finished)
    (hjoins : ∀ other, other ≠ owner → s'.joins other = s.joins other) (other : Owner) :
    (s'.joins other).Nodup := by
  by_cases hother : other = owner
  · rw [hother, htaken]
    exact hs.nodup_finished
  · rw [hjoins other hother]
    exact hs.nodup_joins other

theorem Sound.swapped (hs : s.Sound place) {owner : Owner}
    (hmax : s'.maxConnections = s.maxConnections) (hnext : s'.nextSessionId = s.nextSessionId)
    (hsessions : s'.sessions = s.sessions) (hfinished : s'.finished = [])
    (hjoined : s'.joined = s.joined) (howner : ∀ id, owner ≠ .session id)
    (hfree : s.joins owner = []) (htaken : s'.joins owner = s.finished)
    (hjoins : ∀ other, other ≠ owner → s'.joins other = s.joins other)
    (hserving : ∀ id, s'.Serving id → s.Serving id) : s'.Sound (passFinished place owner) := by
  constructor
  case capped =>
    rw [hsessions, hmax]
    exact hs.capped
  case fresh =>
    intro id hid
    rw [hnext] at hid
    rw [passFinished_of_ne (by simp) (by simp), hjoins _ (howner id).symm]
    exact hs.fresh id hid
  case inSessions =>
    intro id
    rw [hsessions, passFinished_of_ne (by simp) (by simp)]
    exact hs.inSessions id
  case inFinished =>
    intro id
    rw [hfinished, passFinished]
    split <;> simp_all
  case inJoins =>
    intro other id
    by_cases hother : other = owner
    · rw [hother, htaken, hs.held_iff_finished hfree]
    · rw [hjoins other hother, passFinished_of_ne (by simp) (by simpa using hother)]
      exact hs.inJoins other id
  case inJoined =>
    intro other id
    rw [hjoined, passFinished_of_ne (by simp) (by simp)]
    exact hs.inJoined other id
  case nodup_finished => rw [hfinished]; exact List.nodup_nil
  case nodup_joins => exact hs.nodup_joins_of_taken htaken hjoins
  case nodup_joined =>
    rw [hjoined]
    exact hs.nodup_joined
  case foreign =>
    intro id
    rw [Ne, Ne, passFinished_of_ne (by simp) (by simpa using (howner id).symm),
      passFinished_of_ne (by simp) (by simp)]
    exact hs.foreign id
  case serving =>
    intro id hid
    rw [hsessions, hjoins _ (howner id).symm]
    exact hs.serving id (hserving id hid)

theorem Sound.retired (hs : s.Sound place) {id : ℕ}
    (hmax : s'.maxConnections = s.maxConnections) (hnext : s'.nextSessionId = s.nextSessionId)
    (hid : s.Serving id) (hsessions : s'.sessions = s.sessions.erase id)
    (hfinished : s'.finished = [id]) (hjoined : s'.joined = s.joined)
    (htaken : s'.joins (.session id) = s.finished)
    (hjoins : ∀ other, other ≠ .session id → s'.joins other = s.joins other)
    (hserving : ∀ id', s'.Serving id' → id' ≠ id ∧ s.Serving id') :
    s'.Sound (Function.update (passFinished place (.session id)) id .finished) := by
  obtain ⟨hmem, hfree⟩ := hs.serving id hid
  have hplace : place id = .session := (hs.inSessions id).1 hmem
  -- The thread that retires was in its session, so only the handles it takes along and its
  -- own have changed places.
  have hother (id' : ℕ) (p : Place) (hsession : p ≠ .session) (hfinished : p ≠ .finished)
      (hheld : p ≠ .held (.session id)) :
      Function.update (passFinished place (.session id)) id .finished id' = p ↔
        place id' = p := by
    have hpassed : passFinished place (.session id) id = .session :=
      (passFinished_of_ne (by simp) (by simp)).2 hplace
    rw [update_eq_iff hpassed hsession hfinished, passFinished_of_ne hfinished hheld]
  constructor
  case capped =>
    rw [hsessions, hmax]
    exact (size_erase_le _ _).trans hs.capped
  case fresh =>
    intro id' hid'
    rw [hnext] at hid'
    have hne : id' ≠ id := by
      rintro rfl
      rw [(hs.fresh _ hid').1] at hplace
      cases hplace
    rw [hother id' _ (by simp) (by simp) (by simp), hjoins _ (by simpa using hne)]
    exact hs.fresh id' hid'
  case inSessions =>
    intro id'
    rw [hsessions, AList.mem_erase]
    by_cases heq : id' = id
    · simp [heq]
    · rw [Function.update_of_ne heq, passFinished_of_ne (by simp) (by simp)]
      simp [heq, hs.inSessions id']
  case inFinished =>
    intro id'
    rw [hfinished, List.mem_singleton]
    by_cases heq : id' = id
    · simp [heq]
    · rw [Function.update_of_ne heq, passFinished]
      split <;> simp_all
  case inJoins =>
    intro owner id'
    by_cases howner : owner = .session id
    · rw [howner, htaken]
      by_cases heq : id' = id
      · rw [heq, Function.update_self, hs.inFinished, hplace]
        simp
      · rw [Function.update_of_ne heq, hs.held_iff_finished hfree]
    · rw [hjoins owner howner, hother id' _ (by simp) (by simp) (by simpa using howner)]
      exact hs.inJoins owner id'
  case inJoined =>
    intro owner id'
    rw [hjoined, hother id' _ (by simp) (by simp) (by simp)]
    exact hs.inJoined owner id'
  case nodup_finished => rw [hfinished]; exact List.nodup_singleton id
  case nodup_joins => exact hs.nodup_joins_of_taken htaken hjoins
  case nodup_joined =>
    rw [hjoined]
    exact hs.nodup_joined
  case foreign =>
    intro id'
    by_cases heq : id' = id
    · simp [heq]
    · rw [Ne, Ne, hother id' _ (by simp) (by simp) (by simpa using heq),
        hother id' _ (by simp) (by simp) (by simp)]
      exact hs.foreign id'
  case serving =>
    intro id' hid'
    obtain ⟨hne, hold⟩ := hserving id' hid'
    rw [hsessions, AList.mem_erase, hjoins _ (by simpa using hne)]
    exact ⟨⟨hne, (hs.serving id' hold).1⟩, (hs.serving id' hold).2⟩

theorem Sound.join (hs : s.Sound place) {owner : Owner} {handle : ℕ}
    (hmax : s'.maxConnections = s.maxConnections) (hnext : s'.nextSessionId = s.nextSessionId)
    (hsessions : s'.sessions = s.sessions) (hfinished : s'.finished = s.finished)
    (hjoined : s'.joined = s.joined ++ [(owner, handle)])
    (hhandle : s.joins owner = handle :: s'.joins owner)
    (hjoins : ∀ other, other ≠ owner → s'.joins other = s.joins other)
    (hserving : ∀ id, s'.Serving id → s.Serving id) :
    s'.Sound (Function.update place handle (.joined owner)) := by
  have hplace : place handle = .held owner := by
    rw [← hs.inJoins, hhandle]
    exact List.mem_cons_self
  have hnodup : (handle :: s'.joins owner).Nodup := hhandle ▸ hs.nodup_joins owner
  have hother (id : ℕ) (p : Place) (hheld : p ≠ .held owner) (hjoined : p ≠ .joined owner) :
      Function.update place handle (.joined owner) id = p ↔ place id = p :=
    update_eq_iff hplace hheld hjoined id
  have hempty (other : Owner) (hnil : s.joins other = []) : s'.joins other = [] := by
    by_cases heq : other = owner
    · rw [heq, hhandle] at hnil
      cases hnil
    · rw [hjoins other heq, hnil]
  constructor
  case capped =>
    rw [hsessions, hmax]
    exact hs.capped
  case fresh =>
    intro id hid
    rw [hnext] at hid
    rw [hother id _ (by simp) (by simp)]
    exact ⟨(hs.fresh id hid).1, hempty _ (hs.fresh id hid).2⟩
  case inSessions =>
    intro id
    rw [hsessions, hother id _ (by simp) (by simp)]
    exact hs.inSessions id
  case inFinished =>
    intro id
    rw [hfinished, hother id _ (by simp) (by simp)]
    exact hs.inFinished id
  case inJoins =>
    intro other id
    by_cases heq : other = owner
    · by_cases hid : id = handle
      · rw [heq, hid, Function.update_self]
        simp [(List.nodup_cons.1 hnodup).1]
      · rw [heq, Function.update_of_ne hid, ← hs.inJoins, hhandle]
        simp [hid]
    · rw [hjoins other heq, hother id _ (by simpa using heq) (by simp)]
      exact hs.inJoins other id
  case inJoined =>
    intro other id
    rw [hjoined, List.mem_append, hs.inJoined, List.mem_singleton, Prod.mk.injEq]
    by_cases hid : id = handle
    · rw [hid, Function.update_self, hplace]
      simp [eq_comm]
    · rw [Function.update_of_ne hid]
      simp [hid]
  case nodup_finished =>
    rw [hfinished]
    exact hs.nodup_finished
  case nodup_joins =>
    intro other
    by_cases heq : other = owner
    · rw [heq]
      exact (List.nodup_cons.1 hnodup).2
    · rw [hjoins other heq]
      exact hs.nodup_joins other
  case nodup_joined =>
    rw [hjoined, List.map_append, List.nodup_append]
    refine ⟨hs.nodup_joined, List.nodup_singleton _, ?_⟩
    rintro id hid _ hhead rfl
    rw [List.map_singleton, List.mem_singleton] at hhead
    obtain ⟨entry, hmem, hsnd⟩ := List.mem_map.1 hid
    have hnot := (hs.inJoined entry.1 entry.2).1 hmem
    rw [hsnd, hhead, hplace] at hnot
    cases hnot
  case foreign =>
    intro id
    by_cases hid : id = handle
    · rw [hid, Function.update_self]
      refine ⟨by simp, fun heq => ?_⟩
      rw [Place.joined.injEq] at heq
      exact (hs.foreign handle).1 (heq ▸ hplace)
    · rw [Function.update_of_ne hid]
      exact hs.foreign id
  case serving =>
    intro id hid
    rw [hsessions]
    exact ⟨(hs.serving id (hserving id hid)).1, hempty _ (hs.serving id (hserving id hid)).2⟩

/-- One step moves handles and loses none. -/
theorem Sound.moves (hs : s.Sound place) (hmoves : Moves s s') : ∃ place', s'.Sound place' := by
  cases hmoves with
  | quiet hmax hnext hkeys hfinished hjoined hjoins hserving =>
      exact ⟨_, hs.quiet hmax hnext hkeys hfinished hjoined hjoins hserving⟩
  | spawned hmax hnext hroom hsessions hfinished hjoined hjoins hnone hserving =>
      exact ⟨_, hs.spawned hmax hnext hroom hsessions hfinished hjoined hjoins hnone hserving⟩
  | swapped owner hmax hnext hsessions hfinished hjoined howner hfree htaken hjoins hserving =>
      exact ⟨_, hs.swapped hmax hnext hsessions hfinished hjoined howner hfree htaken hjoins
        hserving⟩
  | retired id hmax hnext hid hsessions hfinished hjoined htaken hjoins hserving =>
      exact ⟨_, hs.retired hmax hnext hid hsessions hfinished hjoined htaken hjoins hserving⟩
  | join owner handle hmax hnext hsessions hfinished hjoined hhandle hjoins hserving =>
      exact ⟨_, hs.join hmax hnext hsessions hfinished hjoined hhandle hjoins hserving⟩

def start (maxConnections : ℕ) : Proxy := { maxConnections }

theorem start_sound (maxConnections : ℕ) : (start maxConnections).Sound fun _ => .absent := by
  have hjoins (owner : Owner) : (start maxConnections).joins owner = [] := by
    cases owner <;> rfl
  refine ⟨Nat.zero_le _, ?_, ?_, ?_, ?_, ?_, List.nodup_nil, ?_, List.nodup_nil, ?_, ?_⟩
  · exact fun id _ => ⟨rfl, hjoins _⟩
  · exact fun id => ⟨fun hid => absurd hid (AList.notMem_empty id), fun h => by cases h⟩
  · exact fun id => ⟨fun hid => absurd hid List.not_mem_nil, fun h => by cases h⟩
  · intro owner id
    rw [hjoins]
    exact ⟨fun hid => absurd hid List.not_mem_nil, fun h => by cases h⟩
  · exact fun owner id => ⟨fun hid => absurd hid List.not_mem_nil, fun h => by cases h⟩
  · intro owner
    rw [hjoins]
    exact List.nodup_nil
  · exact fun id => ⟨by simp, by simp⟩
  · rintro id ⟨phase, hphase, -⟩
    cases hphase

theorem run_sound (maxConnections : ℕ) (events : List ProxyEvent) :
    ∃ place, (run step (start maxConnections) events).Sound place := by
  refine run_invariant step _ (fun _ s => ∃ place, s.Sound place) ⟨_, start_sound _⟩ ?_ events
  rintro - s event ⟨place, hs⟩
  exact hs.moves (step_moves s event)

theorem maxConnections_run (maxConnections : ℕ) (events : List ProxyEvent) :
    (run step (start maxConnections) events).maxConnections = maxConnections := by
  refine run_invariant step _ (fun _ s => s.maxConnections = maxConnections) rfl ?_ events
  intro _ s event hs
  cases step_moves s event with
  | quiet hmax => exact hmax.trans hs
  | spawned hmax => exact hmax.trans hs
  | swapped _ hmax => exact hmax.trans hs
  | retired _ hmax => exact hmax.trans hs
  | join _ _ hmax => exact hmax.trans hs

/-! ## Stopping -/

/-- What a step of a session's thread leaves alone. -/
theorem sessionStep_frame (s : Proxy) (id : ℕ) (result : Result) :
    (s.sessionStep id result).runner = s.runner ∧ (s.sessionStep id result).stopper = s.stopper ∧
      (s.sessionStep id result).running = s.running ∧
      (s.sessionStep id result).stopRequested = s.stopRequested ∧
      (s.sessionStep id result).nextSessionId = s.nextSessionId := by
  unfold sessionStep
  cases s.threads.lookup id with
  | none => exact ⟨rfl, rfl, rfl, rfl, rfl⟩
  | some phase =>
      cases phase with
      | negotiating => cases result <;> exact ⟨rfl, rfl, rfl, rfl, rfl⟩
      | joining handles =>
          cases handles with
          | nil => exact ⟨rfl, rfl, rfl, rfl, rfl⟩
          | cons handle handles =>
              rcases join_cases s (.session id) handle with hnone | hsome
              · simp [hnone]
              · simp [hsome]
      | _ => exact ⟨rfl, rfl, rfl, rfl, rfl⟩

theorem spawnSession_of_not_running {starts : Bool} (hrunning : s.running = false) :
    s.spawnSession starts = { s with rejected := s.rejected + 1 } := by
  rw [spawnSession, if_pos (Or.inl hrunning)]

@[simp] theorem spawnSession_stopper (s : Proxy) (starts : Bool) :
    (s.spawnSession starts).stopper = s.stopper ∧ (s.spawnSession starts).running = s.running ∧
      (s.spawnSession starts).stopRequested = s.stopRequested := by
  unfold spawnSession
  split
  · exact ⟨rfl, rfl, rfl⟩
  · cases starts <;> exact ⟨rfl, rfl, rfl⟩

/-- The thread in `run` sets `running_` only when it publishes the listener, and creates
sessions only while the flag is set. -/
theorem runStep_frame (s : Proxy) (input : RunnerInput) :
    (s.runStep input).stopper = s.stopper ∧
      (s.runStep input).stopRequested = s.stopRequested ∧
      (s.runStep input).runner ≠ .starting ∧
      ((s.runStep input).runner = .checked → s.runner = .starting ∧ s.stopRequested = false) ∧
      ((s.runStep input).running = true → s.running = true ∨ s.runner = .checked) ∧
      (s.running = false → (s.runStep input).sessions = s.sessions ∧
        (s.runStep input).nextSessionId = s.nextSessionId) := by
  unfold runStep
  cases hrunner : s.runner with
  | starting =>
      dsimp only
      split
      · simp
      · split <;> simp_all
  | checked => simp
  | looping errors =>
      dsimp only
      split <;> simp
  | accepting errors => dsimp only; split <;> simp
  | failed errors fatal =>
      dsimp only
      split
      · simp
      · split <;> simp_all
  | givingUp => simp
  | accepted => simp
  | reaping handles =>
      cases handles with
      | nil =>
          have hframe := spawnSession_stopper s input.starts
          refine ⟨hframe.1, hframe.2.2, by simp, by simp, by simp, fun hrunning => ?_⟩
          simp [spawnSession_of_not_running hrunning]
      | cons handle handles =>
          rcases join_cases s .runner handle with hnone | hsome
          · simp [hnone, hrunner]
          · simp [hsome]
  | returned => simp [hrunner]

theorem cancel_empty : mapValues cancel (∅ : Table ℕ Session) = ∅ := rfl

theorem eq_empty_of_size {t : Table ℕ Session} (ht : size t = 0) : t = ∅ := by
  rw [size, AList.keys, List.length_eq_zero_iff, List.keys, List.map_eq_nil_iff] at ht
  exact AList.ext ht

theorem stopStep_frame (s : Proxy) :
    s.stopStep.runner = s.runner ∧ s.stopStep.nextSessionId = s.nextSessionId ∧
      s.stopper.order ≤ s.stopStep.stopper.order ∧
      (s.stopStep.stopRequested = s.stopRequested ∨ s.stopStep.stopRequested = true) ∧
      (s.stopStep.running = s.running ∨ s.stopStep.running = false) ∧
      (s.sessions = ∅ → s.stopStep.sessions = ∅) ∧
      (s.finished = [] → s.stopStep.finished = []) := by
  unfold stopStep
  cases hstopper : s.stopper with
  | idle => simp [StopPhase.order]
  | requested => simp [StopPhase.order]
  | cleared =>
      dsimp only
      split
      · simp [hstopper, StopPhase.order]
      · simp [StopPhase.order]
  | closed =>
      refine ⟨rfl, rfl, by simp [StopPhase.order], Or.inl rfl, Or.inl rfl, fun hempty => ?_, id⟩
      rw [hempty, cancel_empty]
  | waiting =>
      dsimp only
      split
      · simp [StopPhase.order]
      · simp [hstopper, StopPhase.order]
  | drained => simp [StopPhase.order]
  | reaping handles =>
      cases handles with
      | nil => simp [StopPhase.order]
      | cons handle handles =>
          rcases join_cases s .stopper handle with hnone | hsome
          · simp [hnone, hstopper]
          · simp [hsome, StopPhase.order]
  | returned => simp [hstopper]

/-- What `stop` has brought about by the time it has come so far. -/
theorem stopStep_order (s : Proxy) :
    (s.stopper.order < 1 → 1 ≤ s.stopStep.stopper.order → s.stopStep.stopRequested = true) ∧
      (s.stopper.order < 2 → 2 ≤ s.stopStep.stopper.order → s.stopStep.running = false) ∧
      (s.stopper.order < 3 → 3 ≤ s.stopStep.stopper.order → s.runner ≠ .checked) ∧
      (s.stopper.order < 5 → 5 ≤ s.stopStep.stopper.order → s.stopStep.sessions = ∅) := by
  unfold stopStep
  cases hstopper : s.stopper with
  | idle => simp [StopPhase.order]
  | requested => simp [StopPhase.order]
  | cleared =>
      dsimp only
      split
      · simp [hstopper, StopPhase.order]
      · simpa [StopPhase.order] using ‹_›
  | closed => simp [StopPhase.order]
  | waiting =>
      dsimp only
      split
      · simpa [StopPhase.order] using eq_empty_of_size ‹_›
      · simp [hstopper, StopPhase.order]
  | drained => simp [StopPhase.order]
  | reaping handles => simp [StopPhase.order]
  | returned => simp [StopPhase.order]

/-- The threads of the sessions create none. -/
theorem sessionStep_sessions (hempty : s.sessions = ∅) (id : ℕ) (result : Result) :
    (s.sessionStep id result).sessions = ∅ := by
  have hnext := (sessionStep_frame s id result).2.2.2.2
  cases sessionStep_moves s id result with
  | quiet _ _ hkeys =>
      rw [hempty] at hkeys
      exact eq_empty_of_size (List.length_eq_zero_iff.2 hkeys.eq_nil)
  | spawned _ hsucc =>
      rw [hnext] at hsucc
      exact absurd hsucc (Nat.ne_of_lt (Nat.lt_succ_self _))
  | swapped _ _ _ hsessions => exact hsessions.trans hempty
  | retired id' _ _ _ hsessions =>
      rw [hsessions, hempty]
      rfl
  | join _ _ _ _ hsessions => exact hsessions.trans hempty

/-- The listener is published after `stop` has cleared `running_`. -/
def Late (s : Proxy) : ProxyEvent → Prop
  | .run _ => s.runner = .checked ∧ s.stopper = .cleared
  | .stop => False
  | .session _ _ => False

structure Stopping (s : Proxy) : Prop where
  requested : 1 ≤ s.stopper.order → s.stopRequested = true
  cleared : 2 ≤ s.stopper.order → s.running = false
  locked : 3 ≤ s.stopper.order → s.runner ≠ .checked
  drained : 5 ≤ s.stopper.order → s.sessions = ∅

theorem Stopping.run {input : RunnerInput} (hs : s.Stopping) (hlate : ¬ s.Late (.run input)) :
    (s.runStep input).Stopping := by
  obtain ⟨hstopper, hrequested, -, hchecked, hrunning, hsessions⟩ := runStep_frame s input
  constructor
  case requested =>
    rw [hstopper, hrequested]
    exact hs.requested
  case cleared =>
    intro horder
    rw [hstopper] at horder
    rw [← Bool.not_eq_true]
    intro htrue
    rcases hrunning htrue with hold | hphase
    · rw [hs.cleared horder] at hold
      cases hold
    · cases hphase' : s.stopper with
      | cleared => exact hlate ⟨hphase, hphase'⟩
      | idle => simp [hphase', StopPhase.order] at horder
      | requested => simp [hphase', StopPhase.order] at horder
      | _ => exact hs.locked (by simp [hphase', StopPhase.order]) hphase
  case locked =>
    intro horder hphase
    rw [hstopper] at horder
    rw [hs.requested (Nat.le_trans (by decide) horder)] at hchecked
    cases (hchecked hphase).2
  case drained =>
    intro horder
    rw [hstopper] at horder
    rw [(hsessions (hs.cleared (Nat.le_trans (by decide) horder))).1]
    exact hs.drained horder

theorem Stopping.stop (hs : s.Stopping) : s.stopStep.Stopping := by
  obtain ⟨hrunner, -, hle, hrequested, hrunning, hsessions, -⟩ := stopStep_frame s
  obtain ⟨horder₁, horder₂, horder₃, horder₅⟩ := stopStep_order s
  constructor
  case requested =>
    intro horder
    rcases Nat.lt_or_ge s.stopper.order 1 with hlt | hge
    · exact horder₁ hlt horder
    · rcases hrequested with heq | heq
      · rw [heq, hs.requested hge]
      · exact heq
  case cleared =>
    intro horder
    rcases Nat.lt_or_ge s.stopper.order 2 with hlt | hge
    · exact horder₂ hlt horder
    · rcases hrunning with heq | heq
      · rw [heq, hs.cleared hge]
      · exact heq
  case locked =>
    intro horder
    rw [hrunner]
    rcases Nat.lt_or_ge s.stopper.order 3 with hlt | hge
    · exact horder₃ hlt horder
    · exact hs.locked hge
  case drained =>
    intro horder
    rcases Nat.lt_or_ge s.stopper.order 5 with hlt | hge
    · exact horder₅ hlt horder
    · exact hsessions (hs.drained hge)

theorem Stopping.session (hs : s.Stopping) (id : ℕ) (result : Result) :
    (s.sessionStep id result).Stopping := by
  obtain ⟨hrunner, hstopper, hrunning, hrequested, -⟩ := sessionStep_frame s id result
  constructor
  case requested => rw [hstopper, hrequested]; exact hs.requested
  case cleared => rw [hstopper, hrunning]; exact hs.cleared
  case locked => rw [hstopper, hrunner]; exact hs.locked
  case drained =>
    rw [hstopper]
    exact fun horder => sessionStep_sessions (hs.drained horder) id result

theorem Stopping.step {event : ProxyEvent} (hs : s.Stopping) (hlate : ¬ s.Late event) :
    (s.step event).Stopping := by
  cases event with
  | run input => exact hs.run hlate
  | stop => exact hs.stop
  | session id result => exact hs.session id result

instance decidableLate (s : Proxy) : (event : ProxyEvent) → Decidable (s.Late event)
  | .run _ => inferInstanceAs (Decidable (_ ∧ _))
  | .stop => inferInstanceAs (Decidable False)
  | .session _ _ => inferInstanceAs (Decidable False)

/-- The listener is published before `stop` clears `running_`, or not at all. -/
def NeverLate (s : Proxy) : List ProxyEvent → Prop
  | [] => True
  | event :: events => ¬ s.Late event ∧ NeverLate (s.step event) events

instance decidableNeverLate (s : Proxy) :
    (events : List ProxyEvent) → Decidable (s.NeverLate events)
  | [] => inferInstanceAs (Decidable True)
  | event :: events =>
      have := decidableNeverLate (s.step event) events
      inferInstanceAs (Decidable (_ ∧ _))

theorem start_stopping (maxConnections : ℕ) : (start maxConnections).Stopping := by
  refine ⟨?_, ?_, ?_, ?_⟩ <;> simp [start, StopPhase.order]

theorem Stopping.run_events (hs : s.Stopping) {events : List ProxyEvent}
    (hlate : s.NeverLate events) : (History.run Proxy.step s events).Stopping := by
  induction events generalizing s with
  | nil => exact hs
  | cons event events ih => exact ih (hs.step hlate.1) hlate.2

/-- A step after `stop` has returned creates no session. -/
theorem Stopping.nextSessionId_step (hs : s.Stopping) (hreturned : s.stopper = .returned)
    (event : ProxyEvent) : (s.step event).nextSessionId = s.nextSessionId := by
  cases event with
  | run input =>
      have hrunning : s.running = false := hs.cleared (by rw [hreturned]; decide)
      exact ((runStep_frame s input).2.2.2.2.2 hrunning).2
  | stop => exact (stopStep_frame s).2.1
  | session id result => exact (sessionStep_frame s id result).2.2.2.2

theorem stopper_step (hreturned : s.stopper = .returned) (event : ProxyEvent) :
    (s.step event).stopper = .returned := by
  cases event with
  | run input => exact (runStep_frame s input).1.trans hreturned
  | stop =>
      rw [step, stopStep]
      simp [hreturned]
  | session id result => exact (sessionStep_frame s id result).2.1.trans hreturned

/-- What holds once `stop` has returned holds for good: nothing is published any more. -/
theorem Stopping.after (hs : s.Stopping) (hreturned : s.stopper = .returned)
    (more : List ProxyEvent) :
    (History.run Proxy.step s more).sessions = ∅ ∧
      (History.run Proxy.step s more).nextSessionId = s.nextSessionId := by
  have hinv : (History.run Proxy.step s more).Stopping ∧
      (History.run Proxy.step s more).stopper = .returned ∧
      (History.run Proxy.step s more).nextSessionId = s.nextSessionId := by
    refine run_invariant Proxy.step s
      (fun _ t => t.Stopping ∧ t.stopper = .returned ∧ t.nextSessionId = s.nextSessionId)
      ⟨hs, hreturned, rfl⟩ ?_ more
    rintro - t event ⟨ht, hstopper, hnext⟩
    refine ⟨ht.step ?_, stopper_step hstopper event, ?_⟩
    · cases event with
      | run input =>
          rintro ⟨-, hcleared⟩
          rw [hstopper] at hcleared
          cases hcleared
      | stop => exact id
      | session id result => exact fun h => h
    · rw [ht.nextSessionId_step hstopper, hnext]
  exact ⟨hinv.1.drained (by rw [hinv.2.1]; decide), hinv.2.2⟩

/-! ## A listener published late -/

theorem runStep_of_starting (hrunner : s.runner = .starting) (input : RunnerInput) :
    (s.runStep input).sessions = s.sessions ∧ (s.runStep input).finished = s.finished := by
  unfold runStep
  simp only [hrunner]
  split
  · exact ⟨rfl, rfl⟩
  · split <;> exact ⟨rfl, rfl⟩

theorem sessionStep_finished (hs : s.Sound place) (hempty : s.sessions = ∅)
    (hfinished : s.finished = []) (id : ℕ) (result : Result) :
    (s.sessionStep id result).finished = [] := by
  cases sessionStep_moves s id result with
  | quiet _ _ _ hsame => exact hsame.trans hfinished
  | spawned _ _ _ _ hsame => exact hsame.trans hfinished
  | swapped _ _ _ _ hnil => exact hnil
  | retired id' _ _ hid =>
      have hmem := (hs.serving id' hid).1
      rw [hempty] at hmem
      exact absurd hmem (AList.notMem_empty id')
  | join _ _ _ _ _ hsame => exact hsame.trans hfinished

/-- There is no session before the listener is published. -/
theorem run_unpublished (maxConnections : ℕ) (events : List ProxyEvent) :
    let s := History.run Proxy.step (start maxConnections) events
    s.runner = .starting ∨ s.runner = .checked → s.sessions = ∅ ∧ s.finished = [] := by
  refine (run_invariant Proxy.step _ (fun _ s => (∃ place, s.Sound place) ∧
    (s.runner = .starting ∨ s.runner = .checked → s.sessions = ∅ ∧ s.finished = []))
    ⟨⟨_, start_sound _⟩, fun _ => ⟨rfl, rfl⟩⟩ ?_ events).2
  rintro - s event ⟨⟨place, hs⟩, ih⟩
  refine ⟨hs.moves (step_moves s event), fun hphase => ?_⟩
  cases event with
  | run input =>
      obtain ⟨-, -, hnot, hchecked, -, -⟩ := runStep_frame s input
      have hstarting := (hchecked (hphase.resolve_left hnot)).1
      obtain ⟨hsessions, hfinished⟩ := runStep_of_starting hstarting input
      rw [step, hsessions, hfinished]
      exact ih (Or.inl hstarting)
  | stop =>
      obtain ⟨hrunner, -, -, -, -, hsessions, hfinished⟩ := stopStep_frame s
      rw [step, hrunner] at hphase
      exact ⟨hsessions (ih hphase).1, hfinished (ih hphase).2⟩
  | session id result =>
      rw [step, (sessionStep_frame s id result).1] at hphase
      obtain ⟨hempty, hfinished⟩ := ih hphase
      exact ⟨sessionStep_sessions hempty id result,
        sessionStep_finished hs hempty hfinished id result⟩

/-- The listener is published, a client is accepted, and `stop` goes on to its end. -/
def lateRun : List ProxyEvent :=
  [.run {}, .run {}, .run {}, .stop, .stop, .stop, .stop, .stop]

/-- A listener that is published late serves a client after `stop` has returned. -/
theorem late_session (hrunner : s.runner = .checked) (hstopper : s.stopper = .cleared)
    (hsessions : s.sessions = ∅) (hfinished : s.finished = []) (hmax : 0 < s.maxConnections) :
    (History.run Proxy.step s lateRun).stopper = .returned ∧
      size (History.run Proxy.step s (lateRun ++ [.run {}, .run {}])).sessions = 1 := by
  have hlate : History.run Proxy.step s lateRun =
      { s with
        runner := .accepted, stopper := .returned, listenSock := false, running := true
        sessions := ∅, finished := [] } := by
    simp [lateRun, History.run, step, runStep, stopStep, hrunner, hstopper, hsessions, hfinished,
      cancel_empty, size]
  rw [run_append, hlate]
  refine ⟨rfl, ?_⟩
  have hroom : ¬ (size (∅ : Table ℕ Session) ≥ s.maxConnections) := not_le.2 hmax
  simp [History.run, step, runStep, spawnSession, hroom]
  rfl

/-- Whatever the order of the steps, there are never more sessions than allowed and no
handle is joined twice or by its own thread. After `stop` has returned there is no session
and none is created, unless the listener was published late, and then there can be one. -/
theorem sessions_after_stop (maxConnections : ℕ) (events : List ProxyEvent) :
    let s := History.run Proxy.step (start maxConnections) events
    (size s.sessions ≤ maxConnections ∧ (s.joined.map Prod.snd).Nodup ∧
        ∀ id, (.session id, id) ∉ s.joined) ∧
      ((start maxConnections).NeverLate events → s.stopper = .returned → ∀ more,
        (History.run Proxy.step s more).sessions = ∅ ∧
          (History.run Proxy.step s more).nextSessionId = s.nextSessionId) ∧
      (0 < maxConnections → ∀ event, s.Late event → ∃ before after,
        (History.run Proxy.step s before).stopper = .returned ∧
          (History.run Proxy.step s (before ++ after)).sessions ≠ ∅) := by
  intro s
  obtain ⟨place, hs⟩ := run_sound maxConnections events
  refine ⟨⟨?_, hs.nodup_joined, fun id hid => ?_⟩, fun hlate hreturned => ?_, ?_⟩
  · exact hs.capped.trans_eq (maxConnections_run maxConnections events)
  · exact (hs.foreign id).2 ((hs.inJoined _ _).1 hid)
  · exact ((start_stopping maxConnections).run_events hlate).after hreturned
  · intro hmax event hlate
    have hphases : s.runner = .checked ∧ s.stopper = .cleared := by
      cases event with
      | run input => exact hlate
      | stop => exact hlate.elim
      | session id result => exact hlate.elim
    obtain ⟨hsessions, hfinished⟩ :=
      run_unpublished maxConnections events (Or.inr hphases.1)
    rw [← maxConnections_run maxConnections events] at hmax
    obtain ⟨hreturned, hone⟩ := late_session hphases.1 hphases.2 hsessions hfinished hmax
    refine ⟨lateRun, [.run {}, .run {}], hreturned, fun hempty => ?_⟩
    rw [hempty] at hone
    cases hone

/-- Two clients, of which one is refused and the other cut off by `stop`. -/
def stoppedRun : List ProxyEvent :=
  [.run {}, .run {}, .run {}, .run {}, .run {}, .run {},
    .session 1 .ok, .session 1 .ok, .run {}, .run {}, .run {}, .run {}, .stop, .stop, .stop,
    .stop, .run { accepts := false }, .run {}, .session 1 .ok, .session 1 .ok, .session 1 .ok,
    .session 1 .ok, .stop, .stop, .stop, .stop]

theorem sessions_after_stop_sample :
    (History.run Proxy.step (start 1) stoppedRun).rejected = 1 ∧
      (History.run Proxy.step (start 1) stoppedRun).joined = [(.stopper, 1)] ∧
      (History.run Proxy.step (start 1) (stoppedRun ++ [.run {}])).sessions = ∅ := by
  have hstop := (sessions_after_stop 1 stoppedRun).2.1 (by decide +kernel) (by decide +kernel)
  refine ⟨by decide +kernel, by decide +kernel, ?_⟩
  rw [run_append]
  exact (hstop [.run {}]).1

/-- `run` finds no request to stop, `stop` clears `running_`, and then the listener is
published. The client that is accepted before the listener is closed gets a session after
`stop` has returned. -/
theorem served_after_stop :
    (History.run Proxy.step (start 1) ([.run {}, .stop, .stop] ++ lateRun)).stopper = .returned ∧
      size (History.run Proxy.step (start 1)
        ([.run {}, .stop, .stop] ++ lateRun ++ [.run {}, .run {}])).sessions = 1 := by
  decide +kernel

end Proxy

end Socks

end SplitHello
