import SplitHello.Library.FixedWindow
import SplitHello.Library.InFlight

/-!
# The Worker's front door

Every request but the liveness probe has to show the shared secret before one of the three
handlers sees it, and passes two brakes on the way: a counter of the wrong secrets of each
client, before the comparison, and a limiter of the requests, behind it. The limiter is a
binding of the account. Where the binding is missing or throws, a counter of the isolate
stands in for it. Only the call of the binding suspends a request, so a run is a list of
requests and of settled calls.
-/

namespace SplitHello

namespace Worker

open KeyedTable InFlight FixedWindow

def localWindowMs : ℕ := 60000
def localMaxRequests : ℕ := 600
def localMaxKeys : ℕ := 5000
def authFailWindowMs : ℕ := 60000
def authFailMax : ℕ := 30

/-- A string as its code units. -/
abbrev Text := List UInt16

def text (s : String) : Text := s.toList.map fun c => UInt16.ofNat c.toNat

/-! ## The secret -/

def constantTimeEqual (a b : Text) : Bool :=
  if a.length ≠ b.length then false
  else (List.zipWith (fun x y => x ^^^ y) a b).foldl (fun diff d => diff ||| d) 0 = 0

/-- The code units that `trim` takes away. -/
def isSpace (c : UInt16) : Bool :=
  (9 ≤ c && c ≤ 13) || c = 32 || c = 0xA0 || c = 0x1680 || (0x2000 ≤ c && c ≤ 0x200A) ||
    c = 0x2028 || c = 0x2029 || c = 0x202F || c = 0x205F || c = 0x3000 || c = 0xFEFF

def trimText (t : Text) : Text := ((t.dropWhile isSpace).reverse.dropWhile isSpace).reverse

/-- What the front door reads of a request. -/
structure Request where
  path : String
  authorization : Option Text := none
  connectingIp : Option Text := none
  deriving DecidableEq, Repr

/-- The bindings of the deployment. -/
structure Env where
  sharedSecret : Option Text := none
  rateLimiter : Bool := false
  deriving DecidableEq, Repr

def bearerToken (request : Request) : Text :=
  let header := request.authorization.getD []
  if text "Bearer " <+: header then trimText (header.drop 7) else []

def isAuthorized (request : Request) (env : Env) : Bool :=
  match env.sharedSecret with
  | none => false
  | some expected =>
      -- an empty secret counts as none
      if expected = [] then false else constantTimeEqual (bearerToken request) expected

def clientKey (request : Request) : Text :=
  match request.connectingIp with
  | none => text "unknown"
  | some ip => if ip = [] then text "unknown" else ip

/-! ## The brakes -/

def authBlocked (key : Text) (now : ℕ) (authFailures : Counters Text) : Bool :=
  match authFailures.lookup key with
  | none => false
  | some entry => now - entry.start ≤ authFailWindowMs && authFailMax ≤ entry.count

def noteAuthFailure (key : Text) (now : ℕ) (authFailures : Counters Text) : Counters Text :=
  let fresh := startCounter localMaxKeys now key authFailures
  match authFailures.lookup key with
  | none => fresh
  | some entry =>
      if now - entry.start > authFailWindowMs then fresh
      else authFailures.insert key { entry with count := entry.count + 1 }

/-- `isRateLimited` without the binding. -/
def localLimit (key : Text) (now : ℕ) (localHits : Counters Text) : Counters Text × Bool :=
  let fresh := startCounter localMaxKeys now key localHits
  match localHits.lookup key with
  | none => (fresh, false)
  | some entry =>
      if now - entry.start > localWindowMs then (fresh, false)
      else
        let count := entry.count + 1
        (localHits.insert key { entry with count }, localMaxRequests < count)

/-! ## The isolate -/

structure Response where
  status : ℕ
  body : String
  headers : List (String × String) := []
  deriving DecidableEq, Repr

def healthy : Response :=
  { status := 200
    body := "ok"
    headers := [("Content-Type", "text/plain"), ("Cache-Control", "no-store")] }

def notFound : Response := { status := 404, body := "Not Found" }

def tooManyRequests : Response :=
  { status := 429, body := "Too Many Requests", headers := [("Retry-After", "60")] }

def unauthorized : Response :=
  { status := 401, body := "Unauthorized", headers := [("WWW-Authenticate", "Bearer")] }

inductive Handler
  | resolve
  | dnsQuery
  | tunnel
  deriving DecidableEq, Repr

def handlerOf (path : String) : Handler :=
  if path = "/resolve" then .resolve
  else if path = "/dns-query" then .dnsQuery
  else .tunnel

/-- Which of the two limiters let a request pass. -/
inductive Admission
  | binding
  | counter
  deriving DecidableEq, Repr

/-- What became of a request. -/
inductive Outcome
  | response (response : Response)
  | handled (handler : Handler) (admission : Admission)
  deriving DecidableEq, Repr

/-- The state of one isolate: its two tables, and the requests that wait for the binding.
`answered` only records what happened, oldest first. -/
structure Isolate where
  localHits : Counters Text := ∅
  authFailures : Counters Text := ∅
  waiting : List (Job Request) := []
  answered : List (Request × Outcome) := []

inductive Event
  | request (now : ℕ) (request : Request)
  /-- The binding answers the call of this request with its `success`, or throws. -/
  | limit (now : ℕ) (index : ℕ) (success : Option Bool)
  deriving DecidableEq, Repr

def Event.time : Event → ℕ
  | .request now .. => now
  | .limit now .. => now

def Event.request? : Event → Option Request
  | .request _ r => some r
  | .limit .. => none

namespace Isolate

def answer (s : Isolate) (request : Request) (outcome : Outcome) : Isolate :=
  { s with answered := s.answered ++ [(request, outcome)] }

/-- What is done with a request once its limiter has decided. -/
def passOn (s : Isolate) (request : Request) (admission : Admission) (limited : Bool) : Isolate :=
  s.answer request <|
    if limited then .response tooManyRequests
    else .handled (handlerOf request.path) admission

def limitLocally (s : Isolate) (now : ℕ) (request : Request) : Isolate :=
  let (localHits, limited) := localLimit (clientKey request) now s.localHits
  { s with localHits }.passOn request .counter limited

def fetch (env : Env) (s : Isolate) (now : ℕ) (request : Request) : Isolate :=
  let path := request.path
  if path = "/" ∨ path = "/health" then s.answer request (.response healthy)
  else if path ≠ "/resolve" ∧ path ≠ "/dns-query" ∧ path ≠ "/tunnel" then
    s.answer request (.response notFound)
  else
    let key := clientKey request
    if authBlocked key now s.authFailures then s.answer request (.response tooManyRequests)
    else if !isAuthorized request env then
      { s with authFailures := noteAuthFailure key now s.authFailures }.answer request
        (.response unauthorized)
    else if env.rateLimiter then { s with waiting := start s.waiting request }
    else s.limitLocally now request

def step (env : Env) (s : Isolate) : Event → Isolate
  | .request now request => s.fetch env now request
  | .limit now index success =>
      match InFlight.waiting s.waiting index with
      | none => s
      | some request =>
          let s := { s with waiting := settle s.waiting index }
          match success with
          | some success => s.passOn request .binding !success
          | none => s.limitLocally now request

/-- What a new isolate makes of its events. -/
def run (env : Env) (events : List Event) : Isolate := events.foldl (step env) {}

theorem run_concat (env : Env) (events : List Event) (event : Event) :
    run env (events ++ [event]) = (run env events).step env event := by
  rw [run, run, List.foldl_append]
  rfl

end Isolate

/-! ## What the checks decide -/

theorem foldl_or_eq_zero (l : List UInt16) (diff : UInt16) :
    l.foldl (fun diff d => diff ||| d) diff = 0 ↔ diff = 0 ∧ ∀ d ∈ l, d = 0 := by
  induction l generalizing diff with
  | nil => simp
  | cons d l ih =>
      rw [List.foldl_cons, ih, UInt16.or_eq_zero_iff, List.forall_mem_cons, and_assoc]

theorem zipWith_xor_eq_zero {a b : Text} (hlength : a.length = b.length) :
    (∀ d ∈ List.zipWith (fun x y => x ^^^ y) a b, d = 0) ↔ a = b := by
  induction a generalizing b with
  | nil =>
      rw [List.length_eq_zero_iff.1 hlength.symm]
      simp
  | cons x a ih =>
      cases b with
      | nil => simp at hlength
      | cons y b =>
          have hrest : a.length = b.length := by simpa using hlength
          rw [List.zipWith_cons_cons, List.forall_mem_cons, ih hrest, UInt16.xor_eq_zero_iff,
            List.cons.injEq]

theorem constantTimeEqual_iff {a b : Text} : constantTimeEqual a b = true ↔ a = b := by
  rw [constantTimeEqual]
  split
  · rename_i hlength
    simp only [Bool.false_eq_true, false_iff]
    rintro rfl
    exact hlength rfl
  · rename_i hlength
    rw [decide_eq_true_eq, foldl_or_eq_zero, zipWith_xor_eq_zero (not_not.1 hlength)]
    simp

theorem isAuthorized_iff {request : Request} {env : Env} :
    isAuthorized request env = true ↔
      ∃ secret, env.sharedSecret = some secret ∧ secret ≠ [] ∧ bearerToken request = secret := by
  rw [isAuthorized]
  cases env.sharedSecret with
  | none => simp
  | some expected =>
      dsimp only
      by_cases hempty : expected = []
      · simp [hempty]
      · rw [if_neg hempty, constantTimeEqual_iff]
        constructor
        · rintro rfl
          exact ⟨_, rfl, hempty, rfl⟩
        · rintro ⟨secret, hsecret, -, hequal⟩
          rw [hequal, Option.some.inj hsecret]

theorem ended_iff {entry : Counter} {now width : ℕ} :
    entry.ended width now = true ↔ now - entry.start > width := by
  rw [Counter.ended, decide_eq_true_eq]
  omega

theorem authBlocked_eq (key : Text) (now : ℕ) (t : Counters Text) :
    authBlocked key now t = blocked authFailWindowMs authFailMax now key t := by
  rw [authBlocked, blocked]
  cases t.lookup key with
  | none => rfl
  | some entry =>
      have hended := @ended_iff entry now authFailWindowMs
      rw [Option.any_some]
      dsimp only
      congr 1
      rw [Bool.eq_iff_iff, Bool.not_eq_true', ← Bool.not_eq_true, hended, decide_eq_true_eq]
      omega

theorem noteAuthFailure_eq (key : Text) (now : ℕ) (t : Counters Text) :
    noteAuthFailure key now t = note authFailWindowMs localMaxKeys now key t := by
  rw [noteAuthFailure, note]
  cases t.lookup key with
  | none => rfl
  | some entry =>
      dsimp only
      rw [if_congr (@ended_iff _ _ authFailWindowMs).symm rfl rfl]

/-- The request is refused that finds its key blocked. -/
theorem localLimit_eq (key : Text) (now : ℕ) (t : Counters Text) :
    localLimit key now t = (note localWindowMs localMaxKeys now key t,
      blocked localWindowMs localMaxRequests now key t) := by
  rw [localLimit, note, blocked]
  cases t.lookup key with
  | none => rfl
  | some entry =>
      dsimp only
      rw [Option.any_some]
      by_cases hended : entry.ended localWindowMs now = true
      · rw [if_pos (ended_iff.1 hended), if_pos hended, hended]
        rfl
      · rw [if_neg (fun h => hended (ended_iff.2 h)), if_neg hended]
        simp only [Bool.not_eq_true] at hended
        rw [hended, Bool.not_false, Bool.true_and, decide_eq_decide.2 Nat.lt_succ_iff]

end Worker

end SplitHello
