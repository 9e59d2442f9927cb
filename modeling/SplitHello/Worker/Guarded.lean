import SplitHello.Worker.FrontDoor
import Mathlib.Data.List.Induction

/-!
# What passes the front door

Over a whole run of an isolate: only a request that shows the secret gets to a handler, whoever
does not show it sees nothing of the secret and of those who do, and both brakes hold, up to the
fresh starts that the bounded tables allow.
-/

namespace SplitHello

namespace Worker

open KeyedTable InFlight FixedWindow

/-! ## One event -/

/-- The paths that lead to a handler. -/
def IsService (path : String) : Prop :=
  path = "/resolve" ∨ path = "/dns-query" ∨ path = "/tunnel"

instance (path : String) : Decidable (IsService path) :=
  inferInstanceAs (Decidable (_ ∨ _ ∨ _))

/-- What the counter of the isolate makes of a request. -/
def counted (now : ℕ) (request : Request) (localHits : Counters Text) : Outcome :=
  if blocked localWindowMs localMaxRequests now (clientKey request) localHits then
    .response tooManyRequests
  else .handled (handlerOf request.path) .counter

/-- The ways an event changes an isolate. -/
inductive Turn (env : Env) (s : Isolate) : Event → Isolate → Prop
  | probed (now : ℕ) (request : Request) : Turn env s (.request now request)
      (s.answer request (.response healthy))
  | missed (now : ℕ) (request : Request) : Turn env s (.request now request)
      (s.answer request (.response notFound))
  | braked (now : ℕ) (request : Request) : Turn env s (.request now request)
      (s.answer request (.response tooManyRequests))
  | denied (now : ℕ) (request : Request)
      (hfree : blocked authFailWindowMs authFailMax now (clientKey request) s.authFailures = false)
      (hdenied : isAuthorized request env = false) : Turn env s (.request now request)
      ({ s with
          authFailures :=
            note authFailWindowMs localMaxKeys now (clientKey request) s.authFailures }.answer
        request (.response unauthorized))
  | suspended (now : ℕ) (request : Request) (hservice : IsService request.path)
      (hauth : isAuthorized request env = true) : Turn env s (.request now request)
      { s with waiting := start s.waiting request }
  | counted (now : ℕ) (request : Request) (hservice : IsService request.path)
      (hauth : isAuthorized request env = true) : Turn env s (.request now request)
      ({ s with
          localHits := note localWindowMs localMaxKeys now (clientKey request) s.localHits }.answer
        request (counted now request s.localHits))
  | stray (now index : ℕ) (success : Option Bool) : Turn env s (.limit now index success) s
  | decided (now index : ℕ) (request : Request) (success : Bool)
      (hwaiting : waiting s.waiting index = some request) :
      Turn env s (.limit now index (some success))
      ({ s with waiting := settle s.waiting index }.answer request
        (if success then .handled (handlerOf request.path) .binding
          else .response tooManyRequests))
  | recounted (now index : ℕ) (request : Request)
      (hwaiting : waiting s.waiting index = some request) : Turn env s (.limit now index none)
      ({ s with
          waiting := settle s.waiting index
          localHits := note localWindowMs localMaxKeys now (clientKey request) s.localHits }.answer
        request (Worker.counted now request s.localHits))

theorem limitLocally_eq (s : Isolate) (now : ℕ) (request : Request) :
    s.limitLocally now request =
      { s with
          localHits := note localWindowMs localMaxKeys now (clientKey request) s.localHits }.answer
        request (counted now request s.localHits) := by
  rw [Isolate.limitLocally, localLimit_eq]
  rfl

theorem step_turn (env : Env) (s : Isolate) (event : Event) :
    Turn env s event (s.step env event) := by
  cases event with
  | request now request =>
      rw [Isolate.step, Isolate.fetch]
      dsimp only
      split
      · exact .probed now request
      · split
        · exact .missed now request
        · rename_i hservice
          have hservice : IsService request.path := by
            rw [IsService]
            tauto
          rw [authBlocked_eq, noteAuthFailure_eq]
          split
          · exact .braked now request
          · rename_i hfree
            split
            · rename_i hdenied
              exact .denied now request (by simpa using hfree) (by simpa using hdenied)
            · rename_i hauth
              have hauth : isAuthorized request env = true := by simpa using hauth
              split
              · exact .suspended now request hservice hauth
              · rw [limitLocally_eq]
                exact .counted now request hservice hauth
  | limit now index success =>
      rw [Isolate.step]
      cases hwaiting : waiting s.waiting index with
      | none => exact .stray now index success
      | some request =>
          cases success with
          | none =>
              dsimp only
              rw [limitLocally_eq]
              exact .recounted now index request hwaiting
          | some success =>
              have hturn := @Turn.decided env _ now index request success hwaiting
              cases success <;> exact hturn

/-! ## Only with the secret -/

/-- A request that may get to a handler. -/
def Passes (env : Env) (request : Request) : Prop :=
  IsService request.path ∧ isAuthorized request env = true

/-- Whoever waits for the binding, or has got to a handler, has shown the secret. -/
structure Checked (env : Env) (events : List Event) (s : Isolate) : Prop where
  waiting : ∀ request ∈ left s.waiting, Passes env request
  handled : ∀ request handler admission, (request, .handled handler admission) ∈ s.answered →
    Passes env request ∧ handler = handlerOf request.path
  arrived : (s.answered.map Prod.fst ++ left s.waiting).Perm (events.filterMap Event.request?)

section

variable {env : Env} {events : List Event} {s : Isolate}

theorem Checked.empty (env : Env) : Checked env [] {} :=
  ⟨by simp [left], by simp, by simp [left]⟩

/-- A request that arrives is answered at once. -/
theorem Checked.answer {now : ℕ} {request : Request} {outcome : Outcome}
    (h : Checked env events s)
    (hhandled : ∀ handler admission, outcome = .handled handler admission →
      Passes env request ∧ handler = handlerOf request.path)
    (localHits authFailures : Counters Text) :
    Checked env (events ++ [.request now request])
      ({ s with localHits, authFailures }.answer request outcome) := by
  refine ⟨h.waiting, fun request' handler admission hmem => ?_, ?_⟩
  · rcases List.mem_append.1 hmem with hmem | hmem
    · exact h.handled request' handler admission hmem
    · have heq := Prod.mk.inj (List.mem_singleton.1 hmem)
      rw [heq.1]
      exact hhandled handler admission heq.2.symm
  · rw [Isolate.answer, List.filterMap_append, List.map_append]
    dsimp only
    rw [List.append_assoc]
    exact (List.perm_append_comm.append_left _).trans
      (by rw [← List.append_assoc]; exact h.arrived.append_right [request])

/-- A request that has waited is answered. -/
theorem Checked.settle {now index : ℕ} {success : Option Bool} {request : Request}
    {outcome : Outcome} (h : Checked env events s)
    (hwaiting : InFlight.waiting s.waiting index = some request)
    (hhandled : ∀ handler admission, outcome = .handled handler admission →
      handler = handlerOf request.path) (localHits : Counters Text) :
    Checked env (events ++ [.limit now index success])
      ({ s with waiting := InFlight.settle s.waiting index, localHits }.answer
        request outcome) := by
  have hleft := left_settle hwaiting
  have hpasses : Passes env request :=
    h.waiting request (hleft.symm.subset List.mem_cons_self)
  refine ⟨fun request' hmem => ?_, fun request' handler admission hmem => ?_, ?_⟩
  · exact h.waiting request' (hleft.symm.subset (List.mem_cons_of_mem request hmem))
  · rcases List.mem_append.1 hmem with hmem | hmem
    · exact h.handled request' handler admission hmem
    · have heq := Prod.mk.inj (List.mem_singleton.1 hmem)
      rw [heq.1]
      exact ⟨hpasses, hhandled handler admission heq.2.symm⟩
  · rw [Isolate.answer, List.filterMap_append, List.map_append]
    dsimp only
    rw [List.append_assoc]
    have hnone : [Event.limit now index success].filterMap Event.request? = [] := rfl
    rw [hnone, List.append_nil]
    exact (hleft.symm.append_left _).trans h.arrived

theorem counted_handled {now : ℕ} {request : Request} {localHits : Counters Text}
    {handler : Handler} {admission : Admission}
    (h : counted now request localHits = .handled handler admission) :
    handler = handlerOf request.path := by
  rw [counted] at h
  split at h
  · cases h
  · cases h
    rfl

theorem Checked.step (h : Checked env events s) (event : Event) :
    Checked env (events ++ [event]) (s.step env event) := by
  have hturn := step_turn env s event
  revert hturn
  generalize s.step env event = s'
  intro hturn
  cases hturn with
  | probed now request =>
      exact h.answer (fun _ _ heq => Outcome.noConfusion heq) s.localHits s.authFailures
  | missed now request =>
      exact h.answer (fun _ _ heq => Outcome.noConfusion heq) s.localHits s.authFailures
  | braked now request =>
      exact h.answer (fun _ _ heq => Outcome.noConfusion heq) s.localHits s.authFailures
  | denied now request hfree hdenied =>
      exact h.answer (fun _ _ heq => Outcome.noConfusion heq) s.localHits _
  | suspended now request hservice hauth =>
      refine ⟨fun request' hmem => ?_, h.handled, ?_⟩
      · rw [left_start] at hmem
        rcases List.mem_append.1 hmem with hmem | hmem
        · exact h.waiting request' hmem
        · rw [List.mem_singleton.1 hmem]
          exact ⟨hservice, hauth⟩
      · rw [List.filterMap_append, left_start, ← List.append_assoc]
        exact h.arrived.append_right [request]
  | counted now request hservice hauth =>
      exact h.answer (fun _ _ heq => ⟨⟨hservice, hauth⟩, counted_handled heq⟩) _ s.authFailures
  | stray now index success =>
      refine ⟨h.waiting, h.handled, ?_⟩
      rw [List.filterMap_append]
      exact h.arrived.trans (by rw [List.filterMap_cons_none rfl, List.filterMap_nil,
        List.append_nil])
  | decided now index request success hwaiting =>
      refine h.settle hwaiting (fun handler admission heq => ?_) s.localHits
      cases success with
      | true =>
          cases heq
          rfl
      | false => cases heq
  | recounted now index request hwaiting =>
      exact h.settle hwaiting (fun _ _ heq => counted_handled heq) _

theorem run_checked (env : Env) (events : List Event) :
    Checked env events (Isolate.run env events) := by
  induction events using List.reverseRecOn with
  | nil => exact Checked.empty env
  | append_singleton events event ih =>
      rw [Isolate.run_concat]
      exact ih.step event

end

/-- No request is lost or answered twice, and only those get to a handler that show the secret
of the deployment, which must not be empty. -/
theorem handled_authorized (env : Env) (events : List Event) :
    (∀ request handler admission,
      (request, .handled handler admission) ∈ (Isolate.run env events).answered →
        (request.path, handler) ∈
            [("/resolve", .resolve), ("/dns-query", .dnsQuery), ("/tunnel", .tunnel)] ∧
          ∃ secret, env.sharedSecret = some secret ∧ secret ≠ [] ∧
            bearerToken request = secret) ∧
      ((Isolate.run env events).answered.map Prod.fst ++
          left (Isolate.run env events).waiting).Perm (events.filterMap Event.request?) := by
  have hchecked := run_checked env events
  refine ⟨fun request handler admission hmem => ?_, hchecked.arrived⟩
  obtain ⟨⟨hservice, hauth⟩, hhandler⟩ := hchecked.handled request handler admission hmem
  refine ⟨?_, isAuthorized_iff.1 hauth⟩
  rcases hservice with hpath | hpath | hpath <;> rw [hhandler, hpath] <;> decide

/-! ## Without the secret -/

/-- What a request without the secret leaves behind, and what it gets. -/
def deny (now : ℕ) (request : Request) (authFailures : Counters Text) :
    Counters Text × Response :=
  if request.path = "/" ∨ request.path = "/health" then (authFailures, healthy)
  else if ¬ IsService request.path then (authFailures, notFound)
  else if authBlocked (clientKey request) now authFailures then (authFailures, tooManyRequests)
  else (noteAuthFailure (clientKey request) now authFailures, unauthorized)

theorem fetch_of_denied {env : Env} {request : Request} (h : isAuthorized request env = false)
    (s : Isolate) (now : ℕ) :
    s.fetch env now request =
      { s with authFailures := (deny now request s.authFailures).1 }.answer request
        (.response (deny now request s.authFailures).2) := by
  have hservice : (request.path ≠ "/resolve" ∧ request.path ≠ "/dns-query" ∧
      request.path ≠ "/tunnel") ↔ ¬ IsService request.path := by
    rw [IsService]
    tauto
  rw [Isolate.fetch, deny]
  dsimp only
  rw [if_congr hservice rfl rfl, h]
  split
  · rfl
  · split
    · rfl
    · split <;> rfl

/-- The other events do not show in what the others get. -/
theorem Turn.unseen {env : Env} {s s' : Isolate} {event : Event} (h : Turn env s event s')
    (hwaiting : ∀ request ∈ left s.waiting, isAuthorized request env = true)
    (hevent : ∀ request, event.request? = some request → isAuthorized request env = true) :
    s'.authFailures = s.authFailures ∧
      s'.answered.filter (fun a => !isAuthorized a.1 env) =
        s.answered.filter (fun a => !isAuthorized a.1 env) := by
  have hanswer : ∀ (s : Isolate) (request : Request) (outcome : Outcome),
      isAuthorized request env = true →
        (s.answer request outcome).answered.filter (fun a => !isAuthorized a.1 env) =
          s.answered.filter (fun a => !isAuthorized a.1 env) := by
    intro s request outcome hauth
    rw [Isolate.answer]
    dsimp only
    rw [List.filter_append, List.filter_cons_of_neg (by simp [hauth]), List.filter_nil,
      List.append_nil]
  have hleft : ∀ {index request}, waiting s.waiting index = some request →
      isAuthorized request env = true := fun hindex =>
    hwaiting _ ((left_settle hindex).symm.subset List.mem_cons_self)
  cases h with
  | probed now request => exact ⟨rfl, hanswer s request _ (hevent request rfl)⟩
  | missed now request => exact ⟨rfl, hanswer s request _ (hevent request rfl)⟩
  | braked now request => exact ⟨rfl, hanswer s request _ (hevent request rfl)⟩
  | denied now request hfree hdenied =>
      rw [hevent request rfl] at hdenied
      cases hdenied
  | suspended now request hservice hauth => exact ⟨rfl, rfl⟩
  | counted now request hservice hauth => exact ⟨rfl, hanswer _ request _ hauth⟩
  | stray now index success => exact ⟨rfl, rfl⟩
  | decided now index request success hindex => exact ⟨rfl, hanswer _ request _ (hleft hindex)⟩
  | recounted now index request hindex => exact ⟨rfl, hanswer _ request _ (hleft hindex)⟩

def Event.deniedBy (env : Env) (event : Event) : Bool :=
  event.request?.any fun request => !isAuthorized request env

theorem Event.deniedBy_eq_false {env : Env} {event : Event} (h : event.deniedBy env = false)
    {request : Request} (hrequest : event.request? = some request) :
    isAuthorized request env = true := by
  rw [Event.deniedBy, hrequest] at h
  simpa using h

/-- What those get who do not show the secret depends neither on it nor on the requests of those
who do. -/
theorem denied_view (env env' : Env) (events : List Event)
    (h : ∀ event ∈ events, event.deniedBy env = true → event.deniedBy env' = true) :
    (Isolate.run env events).answered.filter (fun a => !isAuthorized a.1 env) =
      (Isolate.run env' (events.filter (Event.deniedBy env))).answered := by
  -- the table of the failures is the only thing the two runs have to share
  have hview : (Isolate.run env events).answered.filter (fun a => !isAuthorized a.1 env) =
        (Isolate.run env' (events.filter (Event.deniedBy env))).answered ∧
      (Isolate.run env events).authFailures =
        (Isolate.run env' (events.filter (Event.deniedBy env))).authFailures := by
    induction events using List.reverseRecOn with
    | nil => exact ⟨rfl, rfl⟩
    | append_singleton events event ih =>
        have ih := ih fun event' hmem => h event' (List.mem_append_left _ hmem)
        rw [Isolate.run_concat, List.filter_append]
        cases hdenied : event.deniedBy env with
        | false =>
            have hturn := step_turn env (Isolate.run env events) event
            have hunseen := hturn.unseen
              (fun request hmem => ((run_checked env events).waiting request hmem).2)
              fun request => Event.deniedBy_eq_false hdenied
            rw [List.filter_cons_of_neg (by simp [hdenied]), List.filter_nil, List.append_nil,
              hunseen.1, hunseen.2]
            exact ih
        | true =>
            have hdenied' := h event (by simp) hdenied
            rw [List.filter_cons_of_pos hdenied, List.filter_nil, Isolate.run_concat]
            cases event with
            | limit now index success => cases hdenied
            | request now request =>
                have hauth : isAuthorized request env = false := by
                  simpa [Event.deniedBy, Event.request?] using hdenied
                have hauth' : isAuthorized request env' = false := by
                  simpa [Event.deniedBy, Event.request?] using hdenied'
                rw [Isolate.step, Isolate.step, fetch_of_denied hauth, fetch_of_denied hauth',
                  ← ih.2]
                refine ⟨?_, rfl⟩
                rw [Isolate.answer, Isolate.answer]
                dsimp only
                rw [List.filter_append, ih.1, List.filter_cons_of_pos (by simp [hauth]),
                  List.filter_nil]
  exact hview.1

def sampleEnv (secret : String) : Env := { sharedSecret := some (text secret) }

def sampleRequest (path secret : String) : Request :=
  { path, authorization := some (text ("Bearer " ++ secret)) }

/-- A wrong secret between two right ones, and two wrong ones where another secret is meant. -/
theorem denied_view_sample :
    (Isolate.run (sampleEnv "abc")
        [.request 0 (sampleRequest "/resolve" "abc"), .request 1 (sampleRequest "/tunnel" "b"),
          .request 2 (sampleRequest "/tunnel" "abc")]).answered.filter
        (fun a => !isAuthorized a.1 (sampleEnv "abc")) =
      (Isolate.run (sampleEnv "xyz") (([.request 0 (sampleRequest "/resolve" "abc"),
          .request 1 (sampleRequest "/tunnel" "b"),
          .request 2 (sampleRequest "/tunnel" "abc")] : List Event).filter
        (Event.deniedBy (sampleEnv "abc")))).answered :=
  denied_view (sampleEnv "abc") (sampleEnv "xyz") _ (by decide +kernel)

/-! ## The brakes -/

def Outcome.isRefusal (outcome : Outcome) : Bool := outcome = .response unauthorized

def Outcome.isCounted : Outcome → Bool
  | .handled _ .counter => true
  | _ => false

/-- The wrong secrets of a client that were compared. -/
def refused (key : Text) (answered : List (Request × Outcome)) : ℕ :=
  answered.countP fun a => clientKey a.1 = key ∧ a.2.isRefusal

/-- The requests of a client that the counter of the isolate let pass. -/
def passed (key : Text) (answered : List (Request × Outcome)) : ℕ :=
  answered.countP fun a => clientKey a.1 = key ∧ a.2.isCounted

/-- Both tables with the account of a client since an isolate was this one, and what has been
answered since. -/
structure Braked (began now : ℕ) (key : Text) (first : Isolate) (count : ℕ)
    (answered : List (Request × Outcome)) (s : Isolate) : Prop where
  answered_eq : s.answered = first.answered ++ answered
  failures : ∃ notes ≤ size first.authFailures + count,
    Tally authFailWindowMs localMaxKeys authFailMax (began - authFailWindowMs) now key notes
      (refused key answered) s.authFailures
  hits : ∃ notes ≤ size first.localHits + count,
    Tally localWindowMs localMaxKeys localMaxRequests (began - localWindowMs) now key notes
      (passed key answered) s.localHits
  failures_size : size s.authFailures ≤ localMaxKeys + 1
  hits_size : size s.localHits ≤ localMaxKeys + 1

section

variable {env : Env} {began now count : ℕ} {key : Text} {first s : Isolate}
  {answered : List (Request × Outcome)}

theorem Braked.empty (hle : began ≤ now) : Braked began now key {} 0 [] {} :=
  ⟨rfl, ⟨0, Nat.zero_le _, Tally.empty ((Nat.sub_le _ _).trans hle)⟩,
    ⟨0, Nat.zero_le _, Tally.empty ((Nat.sub_le _ _).trans hle)⟩, Nat.zero_le _, Nat.zero_le _⟩

/-- A stretch may begin at any time. -/
theorem Braked.restart (h : Braked began now key first count answered s) :
    Braked now now key s 0 [] s := by
  obtain ⟨notes, -, hfailures⟩ := h.failures
  obtain ⟨notes', -, hhits⟩ := h.hits
  exact ⟨(List.append_nil _).symm, ⟨_, Nat.le_refl _, hfailures.restart⟩,
    ⟨_, Nat.le_refl _, hhits.restart⟩, h.failures_size, h.hits_size⟩

theorem Braked.later {later : ℕ} (h : Braked began now key first count answered s)
    (hle : now ≤ later) : Braked began later key first count answered s := by
  obtain ⟨notes, hnotes, hfailures⟩ := h.failures
  obtain ⟨notes', hnotes', hhits⟩ := h.hits
  exact ⟨h.answered_eq, ⟨notes, hnotes, hfailures.later hle⟩, ⟨notes', hnotes', hhits.later hle⟩,
    h.failures_size, h.hits_size⟩

/-- Nothing is counted. -/
theorem Braked.idle (h : Braked began now key first count answered s)
    (waiting : List (Job Request)) :
    Braked began now key first (count + 1) answered { s with waiting } := by
  obtain ⟨notes, hnotes, hfailures⟩ := h.failures
  obtain ⟨notes', hnotes', hhits⟩ := h.hits
  exact ⟨h.answered_eq, ⟨notes, Nat.le_succ_of_le hnotes, hfailures⟩,
    ⟨notes', Nat.le_succ_of_le hnotes', hhits⟩, h.failures_size, h.hits_size⟩

theorem refused_concat (answered : List (Request × Outcome)) (request : Request)
    (outcome : Outcome) :
    refused key (answered ++ [(request, outcome)]) = refused key answered +
      if clientKey request = key ∧ outcome.isRefusal then 1 else 0 := by
  rw [refused, List.countP_append, List.countP_singleton]
  simp [refused]

theorem passed_concat (answered : List (Request × Outcome)) (request : Request)
    (outcome : Outcome) :
    passed key (answered ++ [(request, outcome)]) = passed key answered +
      if clientKey request = key ∧ outcome.isCounted then 1 else 0 := by
  rw [passed, List.countP_append, List.countP_singleton]
  simp [passed]

theorem Braked.answer {request : Request} {outcome : Outcome}
    (h : Braked began now key first count answered s)
    (hrefusal : outcome.isRefusal = false) (hcounted : outcome.isCounted = false) :
    Braked began now key first count (answered ++ [(request, outcome)])
      (s.answer request outcome) := by
  refine ⟨?_, ?_, ?_, h.failures_size, h.hits_size⟩
  · rw [Isolate.answer, h.answered_eq, List.append_assoc]
  · rw [refused_concat, hrefusal, if_neg (by simp)]
    exact h.failures
  · rw [passed_concat, hcounted, if_neg (by simp)]
    exact h.hits

/-- A request that the counter of the isolate has to decide about. -/
theorem Braked.counted (h : Braked began now key first count answered s) (request : Request)
    (waiting : List (Job Request)) :
    Braked began now key first (count + 1)
      (answered ++ [(request, counted now request s.localHits)])
      ({ s with
          waiting
          localHits := note localWindowMs localMaxKeys now (clientKey request) s.localHits }.answer
        request (counted now request s.localHits)) := by
  obtain ⟨notes, hnotes, hhits⟩ := h.hits
  obtain ⟨notes', hnotes', hfailures⟩ := h.failures
  have hrefusal : (Worker.counted now request s.localHits).isRefusal = false := by
    rw [Worker.counted]
    split <;> rfl
  have hcounted : (Worker.counted now request s.localHits).isCounted =
      !blocked localWindowMs localMaxRequests now (clientKey request) s.localHits := by
    rw [Worker.counted]
    split <;> simp [*, Outcome.isCounted]
  refine ⟨?_, ⟨notes', Nat.le_succ_of_le hnotes', ?_⟩, ⟨notes + 1, Nat.succ_le_succ hnotes, ?_⟩,
    h.failures_size, size_note_le h.hits_size⟩
  · rw [Isolate.answer, h.answered_eq, List.append_assoc]
  · rw [refused_concat, hrefusal, if_neg (by simp)]
    exact hfailures
  · rw [Isolate.answer, passed_concat, hcounted]
    simpa using hhits.note (by decide) (clientKey request)

/-- A request whose secret is wrong. -/
theorem Braked.denied (h : Braked began now key first count answered s) (request : Request)
    (hfree : blocked authFailWindowMs authFailMax now (clientKey request) s.authFailures = false) :
    Braked began now key first (count + 1) (answered ++ [(request, .response unauthorized)])
      ({ s with
          authFailures :=
            note authFailWindowMs localMaxKeys now (clientKey request) s.authFailures }.answer
        request (.response unauthorized)) := by
  obtain ⟨notes, hnotes, hhits⟩ := h.hits
  obtain ⟨notes', hnotes', hfailures⟩ := h.failures
  refine ⟨?_, ⟨notes' + 1, Nat.succ_le_succ hnotes', ?_⟩, ⟨notes, Nat.le_succ_of_le hnotes, ?_⟩,
    size_note_le h.failures_size, h.hits_size⟩
  · rw [Isolate.answer, h.answered_eq, List.append_assoc]
  · have hnote := hfailures.note (by decide) (clientKey request)
    rw [Isolate.answer, refused_concat]
    simpa [hfree, Outcome.isRefusal] using hnote
  · have hcounted : (Outcome.response unauthorized).isCounted = false := rfl
    rw [passed_concat, hcounted, if_neg (by simp)]
    exact hhits

variable (env) in
theorem Braked.step (h : Braked began now key first count answered s) {event : Event}
    (hnow : event.time = now) :
    ∃ answered', Braked began now key first (count + 1) answered' (s.step env event) := by
  have hturn := step_turn env s event
  revert hturn
  generalize s.step env event = s'
  intro hturn
  cases hturn with
  | probed _ request => exact ⟨_, (h.idle s.waiting).answer (by decide) rfl⟩
  | missed _ request => exact ⟨_, (h.idle s.waiting).answer (by decide) rfl⟩
  | braked _ request => exact ⟨_, (h.idle s.waiting).answer (by decide) rfl⟩
  | denied _ request hfree _ =>
      cases hnow
      exact ⟨_, h.denied request hfree⟩
  | suspended _ request _ _ => exact ⟨_, h.idle _⟩
  | counted _ request _ _ =>
      cases hnow
      exact ⟨_, h.counted request s.waiting⟩
  | stray _ index success => exact ⟨_, h.idle s.waiting⟩
  | decided _ index request success _ =>
      refine ⟨_, (h.idle _).answer ?_ ?_⟩ <;> cases success <;> rfl
  | recounted _ index request _ =>
      cases hnow
      exact ⟨_, h.counted request _⟩

variable (env) in
/-- A stretch of events, each no earlier than the one before. -/
theorem Braked.run (h : Braked began began key s 0 [] s) {events : List Event}
    (hsorted : (events.map Event.time).Pairwise (· ≤ ·)) (hle : began ≤ now)
    (htimes : ∀ event ∈ events, began ≤ event.time ∧ event.time ≤ now) :
    ∃ answered, Braked began now key s events.length answered
      (events.foldl (Isolate.step env) s) := by
  induction events using List.reverseRecOn generalizing now with
  | nil => exact ⟨[], h.later hle⟩
  | append_singleton events event ih =>
      rw [List.map_append, List.pairwise_append] at hsorted
      have hbefore : ∀ event' ∈ events, began ≤ event'.time ∧ event'.time ≤ event.time :=
        fun event' hmem => ⟨(htimes event' (List.mem_append_left _ hmem)).1,
          hsorted.2.2 _ (List.mem_map_of_mem hmem) _ (by simp)⟩
      obtain ⟨hbegan, hlast⟩ := htimes event (by simp)
      obtain ⟨answered, hbraked⟩ := ih hsorted.1 hbegan hbefore
      obtain ⟨answered', hstep⟩ := hbraked.step env rfl
      rw [List.foldl_append, List.length_append, List.length_singleton]
      exact ⟨answered', hstep.later hlast⟩

end

/-- In any stretch of a run a client can try few secrets, and gets few requests past the counter:
three times the limit, for the counters that run at first, for those that are opened then and for
a table that is full already, once more for each window that has passed, and once more for each
time that the events of the stretch were enough to fill the table. The tables stay small. -/
theorem brakes_hold (env : Env) (key : Text) {began now : ℕ} {before events : List Event}
    (hsorted : ((before ++ events).map Event.time).Pairwise (· ≤ ·)) (hle : began ≤ now)
    (hbefore : ∀ event ∈ before, event.time ≤ began)
    (htimes : ∀ event ∈ events, began ≤ event.time ∧ event.time ≤ now) :
    let s := Isolate.run env (before ++ events)
    let rounds (width : ℕ) := 3 + (now - began) / (width + 1) + events.length / (localMaxKeys + 1)
    ∃ answered, s.answered = (Isolate.run env before).answered ++ answered ∧
      refused key answered ≤ authFailMax * rounds authFailWindowMs ∧
      passed key answered ≤ localMaxRequests * rounds localWindowMs ∧
      size s.authFailures ≤ localMaxKeys + 1 ∧ size s.localHits ≤ localMaxKeys + 1 := by
  dsimp only
  rw [List.map_append, List.pairwise_append] at hsorted
  have hempty : Braked 0 0 key {} 0 [] {} := Braked.empty (Nat.le_refl 0)
  obtain ⟨_, hfirst⟩ := hempty.run env hsorted.1 (Nat.zero_le began)
    fun event hmem => ⟨Nat.zero_le _, hbefore event hmem⟩
  have hstretch := hfirst.restart
  obtain ⟨answered, hbraked⟩ := hstretch.run env hsorted.2.1 hle htimes
  have hrun : Isolate.run env (before ++ events) =
      events.foldl (Isolate.step env) (Isolate.run env before) :=
    List.foldl_append
  rw [hrun]
  have hrounds (width notes full : ℕ) (hfull : full ≤ localMaxKeys + 1)
      (hnotes : notes ≤ full + events.length) :
      1 + (now - (began - width)) / (width + 1) + notes / (localMaxKeys + 1) ≤
        3 + (now - began) / (width + 1) + events.length / (localMaxKeys + 1) := by
    have htime : (now - (began - width)) / (width + 1) ≤ (now - began) / (width + 1) + 1 := by
      rw [← Nat.add_div_right _ (Nat.succ_pos width)]
      exact Nat.div_le_div_right (by omega)
    have hfill : notes / (localMaxKeys + 1) ≤ events.length / (localMaxKeys + 1) + 1 := by
      rw [← Nat.add_div_right _ (Nat.succ_pos localMaxKeys)]
      exact Nat.div_le_div_right (by omega)
    omega
  obtain ⟨notes, hnotes, hfailures⟩ := hbraked.failures
  obtain ⟨notes', hnotes', hhits⟩ := hbraked.hits
  refine ⟨answered, hbraked.answered_eq, hfailures.free_le.trans ?_, hhits.free_le.trans ?_,
    hbraked.failures_size, hbraked.hits_size⟩
  · exact Nat.mul_le_mul_left _ (hrounds _ _ _ hstretch.failures_size hnotes)
  · exact Nat.mul_le_mul_left _ (hrounds _ _ _ hstretch.hits_size hnotes')

/-- Two wrong secrets within a second, and one before. -/
theorem brakes_hold_sample :
    let s := Isolate.run (sampleEnv "abc")
      [.request 1 (sampleRequest "/tunnel" "a"), .request 5 (sampleRequest "/tunnel" "b"),
        .request 900 (sampleRequest "/tunnel" "c")]
    ∃ answered, s.answered = (Isolate.run (sampleEnv "abc")
          [.request 1 (sampleRequest "/tunnel" "a")]).answered ++ answered ∧
      refused (text "unknown") answered ≤ authFailMax * 3 ∧
      passed (text "unknown") answered ≤ localMaxRequests * 3 ∧
      size s.authFailures ≤ localMaxKeys + 1 ∧ size s.localHits ≤ localMaxKeys + 1 :=
  @brakes_hold (sampleEnv "abc") (text "unknown") 5 900 [.request 1 (sampleRequest "/tunnel" "a")]
    [.request 5 (sampleRequest "/tunnel" "b"), .request 900 (sampleRequest "/tunnel" "c")]
    (by decide +kernel) (by decide) (by decide +kernel) (by decide +kernel)

end Worker

end SplitHello
