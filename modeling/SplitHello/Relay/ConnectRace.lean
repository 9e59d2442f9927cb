import SplitHello.Library.ByteString
import SplitHello.Library.Handles
import SplitHello.Library.History

/-!
# The connection race

`connectAny` races the candidate addresses of a host: it begins an attempt every
`attemptDelayMs`, at once when an attempt fails, and hands over the first socket whose
connection stands. `step` is one turn of its loop, in which the system answers everything
the loop asks: the clock, the calls of `beginConnect`, `select` and `SO_ERROR`. The log
tells what was begun, waited for and closed.
-/

namespace SplitHello

namespace Relay

open ByteString History Handles

/-- Most sockets that are connecting at once. -/
def kMaxParallelAttempts : ℕ := 8

/-- What the system says to the calls of one `beginConnect`: whether the address could be
read, the socket it gives, whether the socket could be made non-blocking, and whether
`connect` took it up, at once or in the background. -/
structure BeginAnswers where
  resolved : Bool := true
  socket : Option ℕ
  nonBlocking : Bool := true
  connecting : Bool := true
  deriving DecidableEq, Repr

/-- The socket of an attempt that lives, and what was done with the handle on the way. -/
def beginConnect (answers : BeginAnswers) : Option ℕ × List (Use ℕ) :=
  if !answers.resolved then (none, [])
  else
    match answers.socket with
    | none => (none, [])
    | some sock =>
        if !answers.nonBlocking then (none, [.acquire sock, .release sock])
        else if !answers.connecting then (none, [.acquire sock, .release sock])
        else (some sock, [.acquire sock])

/-- What `select` reports: an error, nothing before the time was up, or which sockets it
marked writable and which failed. -/
inductive Ready
  | error
  | timeout
  | signalled (writable failed : ℕ → Bool)

/-- The answers of the system in one turn of the loop. -/
structure Round where
  now : ℕ
  begun : BeginAnswers := { socket := none }
  ready : Ready := .timeout
  soError : ℕ → ℕ := fun _ => 0

structure TcpAttempt where
  sock : ℕ
  address : Bytes
  deriving DecidableEq, Repr

inductive RaceEvent
  /-- `beginConnect` was called for a candidate. -/
  | began (address : Bytes) (now : ℕ) (answers : BeginAnswers)
  /-- The loop slept, or waited in `select`, for that long. -/
  | waited (now ms : ℕ)
  /-- An attempt was given up, with the error of its socket. -/
  | failed (attempt : TcpAttempt) (soError : ℕ)
  | closed (sock : ℕ)
  deriving DecidableEq, Repr

def RaceEvent.uses : RaceEvent → List (Use ℕ)
  | .began _ _ answers => (beginConnect answers).2
  | .waited _ _ => []
  | .failed attempt _ => [.release attempt.sock]
  | .closed sock => [.release sock]

/-- What the log says was done with handles. -/
def handleUses (log : List RaceEvent) : List (Use ℕ) := log.flatMap RaceEvent.uses

structure Race where
  inFlight : List TcpAttempt := []
  nextCandidate : ℕ := 0
  nextStartAt : ℕ := 0
  winner : Option ℕ := none
  chosenAddress : Bytes := []
  /-- The loop has been left by `break`. -/
  broken : Bool := false
  log : List RaceEvent := []
  deriving DecidableEq, Repr

/-- The loop is behind us. -/
def Race.ended (s : Race) : Bool := s.broken || s.winner.isSome

/-- What one pass over the attempts leaves: those still in flight, those given up, and the
one that won, after which the pass looks at no other. -/
structure Scan where
  kept : List TcpAttempt
  lost : List TcpAttempt
  winner : Option TcpAttempt

/-- The pass over the attempts in flight after `select` has signalled some. -/
def scan (writable failed : ℕ → Bool) (soError : ℕ → ℕ) : List TcpAttempt → Scan
  | [] => ⟨[], [], none⟩
  | attempt :: rest =>
      if !writable attempt.sock && !failed attempt.sock then
        let after := scan writable failed soError rest
        { after with kept := attempt :: after.kept }
      else if writable attempt.sock && soError attempt.sock == 0 then ⟨rest, [], some attempt⟩
      else
        let after := scan writable failed soError rest
        { after with lost := attempt :: after.lost }

/-- The next candidate is begun. Only an attempt that lives delays the one after it. -/
def Race.start (s : Race) (attemptDelayMs : ℕ) (address : Bytes) (round : Round) : Race :=
  let begun := RaceEvent.began address round.now round.begun
  match (beginConnect round.begun).1 with
  | some sock =>
      { s with
        inFlight := s.inFlight ++ [⟨sock, address⟩]
        nextCandidate := s.nextCandidate + 1
        nextStartAt := round.now + attemptDelayMs
        log := s.log ++ [begun] }
  | none => { s with nextCandidate := s.nextCandidate + 1, log := s.log ++ [begun] }

/-- What the loop makes of the sockets that `select` has signalled. A failed attempt lets the
next one begin now. -/
def Race.settle (s : Race) (writable failed : ℕ → Bool) (soError : ℕ → ℕ) : Race :=
  let result := scan writable failed soError s.inFlight
  { s with
    inFlight := result.kept
    nextStartAt := if result.lost.isEmpty then s.nextStartAt else 0
    winner := result.winner.map TcpAttempt.sock
    chosenAddress := (result.winner.map TcpAttempt.address).getD s.chosenAddress
    log := s.log ++ result.lost.map fun a => .failed a (soError a.sock) }

/-- How long `select` may wait: until the next candidate is due, or the deadline. -/
def waitMs (deadline nextStartAt now : ℕ) (mayStart : Bool) : ℕ :=
  let waitUntil := if mayStart then min deadline nextStartAt else deadline
  if waitUntil > now then waitUntil - now else 0

/-- One turn of the loop of `connectAny`. -/
def raceStep (addresses : List Bytes) (attemptDelayMs deadline : ℕ) (s : Race) (round : Round) :
    Race :=
  if s.ended then s
  else if deadline ≤ round.now then { s with broken := true }
  else
    let mayStart := s.nextCandidate < addresses.length && s.inFlight.length < kMaxParallelAttempts
    if mayStart && s.nextStartAt ≤ round.now then
      s.start attemptDelayMs (addresses.getD s.nextCandidate []) round
    else if s.inFlight.isEmpty then
      if addresses.length ≤ s.nextCandidate then { s with broken := true }
      else
        { s with
          log := s.log ++
            [.waited round.now (min (s.nextStartAt - round.now) (deadline - round.now))] }
    else
      let waiting :=
        { s with
          log := s.log ++ [.waited round.now (waitMs deadline s.nextStartAt round.now mayStart)] }
      match round.ready with
      | .error => { waiting with broken := true }
      | .timeout => waiting
      | .signalled writable failed => waiting.settle writable failed round.soError

structure RaceResult where
  winner : Option ℕ
  chosenAddress : Bytes
  log : List RaceEvent
  deriving DecidableEq, Repr

/-- What `connectAny` does once its loop has ended: it closes what is still connecting and
makes the winner blocking. -/
def Race.finish (s : Race) (blocking : Bool) : RaceResult :=
  let log := s.log ++ s.inFlight.map fun a => .closed a.sock
  match s.winner with
  | none => ⟨none, s.chosenAddress, log⟩
  | some sock =>
      if blocking then ⟨some sock, s.chosenAddress, log⟩ else ⟨none, [], log ++ [.closed sock]⟩

/-- `connectAny` called at the time `start`; there is no result while the loop still turns. -/
def connectAny (addresses : List Bytes) (attemptDelayMs totalTimeoutMs start : ℕ)
    (rounds : List Round) (blocking : Bool) : Option RaceResult :=
  if addresses.isEmpty then some ⟨none, [], []⟩
  else
    let s := run (raceStep addresses attemptDelayMs (start + totalTimeoutMs)) {} rounds
    if s.ended then some (s.finish blocking) else none

/-! ## What one turn can do -/

/-- The turns of the loop. -/
inductive Turn (addresses : List Bytes) (attemptDelayMs deadline : ℕ) (s : Race) (round : Round) :
    Race → Prop
  | timeUp : deadline ≤ round.now → Turn _ _ _ s round { s with broken := true }
  | start (sock : Option ℕ) (inFlight : List TcpAttempt) (nextStartAt : ℕ) (address : Bytes) :
      addresses[s.nextCandidate]? = some address →
      s.inFlight.length < kMaxParallelAttempts →
      s.nextStartAt ≤ round.now →
      (beginConnect round.begun).1 = sock →
      inFlight = s.inFlight ++ (sock.map fun n => ⟨n, address⟩).toList →
      nextStartAt = (if sock.isSome then round.now + attemptDelayMs else s.nextStartAt) →
      Turn _ _ _ s round
        { s with
          inFlight := inFlight
          nextCandidate := s.nextCandidate + 1
          nextStartAt := nextStartAt
          log := s.log ++ [.began address round.now round.begun] }
  | exhausted : s.inFlight = [] → addresses.length ≤ s.nextCandidate →
      Turn _ _ _ s round { s with broken := true }
  | sleep : s.inFlight = [] → round.now < s.nextStartAt → s.nextCandidate < addresses.length →
      Turn _ _ _ s round
        { s with
          log := s.log ++
            [.waited round.now (min (s.nextStartAt - round.now) (deadline - round.now))] }
  | wait (ms : ℕ) (broken : Bool) : round.now + ms ≤ deadline →
      (s.nextCandidate < addresses.length → s.inFlight.length < kMaxParallelAttempts →
        round.now + ms ≤ s.nextStartAt) →
      (broken = true → round.ready matches .error) →
      Turn _ _ _ s round
        { s with broken := broken, log := s.log ++ [.waited round.now ms] }
  | settle (ms : ℕ) (writable failed : ℕ → Bool) : round.now + ms ≤ deadline →
      (s.nextCandidate < addresses.length → s.inFlight.length < kMaxParallelAttempts →
        round.now + ms ≤ s.nextStartAt) →
      round.ready = .signalled writable failed →
      Turn _ _ _ s round
        (Race.settle { s with log := s.log ++ [.waited round.now ms] } writable failed
          round.soError)

section

variable {addresses : List Bytes} {attemptDelayMs deadline : ℕ} {s : Race} {round : Round}

theorem raceStep_of_ended (h : s.ended = true) :
    raceStep addresses attemptDelayMs deadline s round = s := by
  rw [raceStep, if_pos h]

theorem raceStep_turn (h : s.ended = false) :
    Turn addresses attemptDelayMs deadline s round
      (raceStep addresses attemptDelayMs deadline s round) := by
  rw [raceStep, if_neg (by simp [h])]
  split
  · rename_i htime
    exact .timeUp htime
  rename_i htime
  dsimp only
  split
  · rename_i hstart
    simp only [Bool.and_eq_true, decide_eq_true_eq] at hstart
    obtain ⟨⟨hcandidate, hroom⟩, hdue⟩ := hstart
    have haddress : addresses[s.nextCandidate]? = some (addresses.getD s.nextCandidate []) := by
      rw [List.getD_eq_getElem?_getD, List.getElem?_eq_getElem hcandidate, Option.getD_some]
    rw [Race.start]
    split
    · rename_i sock hsock
      exact .start (some sock) _ _ _ haddress hroom hdue hsock rfl rfl
    · rename_i hsock
      exact .start none s.inFlight s.nextStartAt _ haddress hroom hdue hsock (by simp) rfl
  rename_i hstart
  have hlater (hcandidate : s.nextCandidate < addresses.length)
      (hroom : s.inFlight.length < kMaxParallelAttempts) : round.now < s.nextStartAt := by
    simpa [hcandidate, hroom] using hstart
  split
  · rename_i hempty
    rw [List.isEmpty_iff] at hempty
    split
    · rename_i hlast
      exact .exhausted hempty hlast
    · rename_i hlast
      have hcandidate := Nat.lt_of_not_le hlast
      exact .sleep hempty (hlater hcandidate (by simp [hempty, kMaxParallelAttempts])) hcandidate
  · have hdeadline (mayStart : Bool) :
        round.now + waitMs deadline s.nextStartAt round.now mayStart ≤ deadline := by
      unfold waitMs
      dsimp only
      split <;> split <;> omega
    have hdue (hcandidate : s.nextCandidate < addresses.length)
        (hroom : s.inFlight.length < kMaxParallelAttempts) :
        round.now + waitMs deadline s.nextStartAt round.now
          (s.nextCandidate < addresses.length && s.inFlight.length < kMaxParallelAttempts) ≤
            s.nextStartAt := by
      have hnow := hlater hcandidate hroom
      simp only [waitMs, hcandidate, hroom, decide_true, Bool.and_self, if_true]
      split <;> omega
    split
    · rename_i hready
      exact .wait _ true (hdeadline _) hdue (by simp [hready])
    · have hbroken : s.broken = false := by
        simp only [Race.ended, Bool.or_eq_false_iff] at h
        exact h.1
      exact .wait _ s.broken (hdeadline _) hdue (by simp [hbroken])
    · rename_i writable failed hready
      exact .settle _ writable failed (hdeadline _) hdue hready

end

/-! ## The pass over the signalled attempts -/

section

variable (writable failed : ℕ → Bool) (soError : ℕ → ℕ) (attempts : List TcpAttempt)

/-- The pass drops no attempt and takes none twice. -/
theorem scan_perm : attempts.Perm ((scan writable failed soError attempts).lost ++
    ((scan writable failed soError attempts).winner.toList ++
      (scan writable failed soError attempts).kept)) := by
  induction attempts with
  | nil => exact List.Perm.refl _
  | cons attempt rest ih =>
      rw [scan]
      split
      · rw [← List.append_assoc]
        rw [← List.append_assoc] at ih
        exact (ih.cons attempt).trans List.perm_middle.symm
      · split
        · exact List.Perm.refl _
        · exact ih.cons attempt

/-- An attempt is given up on the word of the system only. -/
def GivenUp (writable failed : ℕ → Bool) (soError : ℕ → ℕ) (sock : ℕ) : Prop :=
  if writable sock then soError sock ≠ 0 else failed sock = true

theorem scan_lost : ∀ attempt ∈ (scan writable failed soError attempts).lost,
    GivenUp writable failed soError attempt.sock := by
  induction attempts with
  | nil => simp [scan]
  | cons attempt rest ih =>
      rw [scan]
      split
      · exact ih
      · rename_i hsignalled
        split
        · simp
        · rename_i hstands
          intro attempt' hmem
          rcases List.mem_cons.1 hmem with rfl | hmem
          · rw [GivenUp]
            split
            · rename_i hwritable
              simpa [hwritable] using hstands
            · rename_i hwritable
              simpa [hwritable] using hsignalled
          · exact ih attempt' hmem

variable {writable failed soError attempts} in
theorem scan_winner {attempt : TcpAttempt}
    (h : (scan writable failed soError attempts).winner = some attempt) :
    writable attempt.sock = true ∧ soError attempt.sock = 0 := by
  induction attempts with
  | nil => simp [scan] at h
  | cons attempt' rest ih =>
      rw [scan] at h
      split at h
      · exact ih h
      · split at h
        · rename_i hstands
          obtain rfl := Option.some.inj h
          simpa using hstands
        · exact ih h

end

/-! ## Handles -/

@[simp] theorem handleUses_nil : handleUses [] = [] := rfl

@[simp] theorem handleUses_append (log log' : List RaceEvent) :
    handleUses (log ++ log') = handleUses log ++ handleUses log' :=
  List.flatMap_append

@[simp] theorem handleUses_began (address : Bytes) (now : ℕ) (answers : BeginAnswers) :
    handleUses [.began address now answers] = (beginConnect answers).2 := by
  simp [handleUses, RaceEvent.uses]

@[simp] theorem handleUses_waited (now ms : ℕ) : handleUses [.waited now ms] = [] := rfl

@[simp] theorem handleUses_closed (sock : ℕ) : handleUses [.closed sock] = [.release sock] := rfl

theorem handleUses_map {f : TcpAttempt → RaceEvent}
    (h : ∀ attempt, (f attempt).uses = [.release attempt.sock]) (attempts : List TcpAttempt) :
    handleUses (attempts.map f) = (attempts.map TcpAttempt.sock).map .release := by
  induction attempts with
  | nil => rfl
  | cons attempt rest ih =>
      rw [handleUses] at ih
      simp [handleUses, h, ih]

/-- One attempt begun: a socket is held if the attempt lives, and none otherwise. -/
theorem ends_beginConnect {n : ℕ} {uses : List (Use ℕ)} {held : List ℕ} (h : Ends n uses held)
    (hroom : held.length < n) (answers : BeginAnswers) :
    Ends n (uses ++ (beginConnect answers).2) (held ++ (beginConnect answers).1.toList) := by
  unfold beginConnect
  split
  · simpa using h
  · split
    · simpa using h
    · rename_i sock hsock
      split
      · simpa using h.brief hroom sock
      · split
        · simpa using h.brief hroom sock
        · exact h.acquire hroom sock

/-- The sockets the loop answers for are those it holds. -/
def Race.Holds (s : Race) : Prop :=
  Ends kMaxParallelAttempts (handleUses s.log) (s.winner.toList ++ s.inFlight.map TcpAttempt.sock)

section

variable {addresses : List Bytes} {attemptDelayMs deadline : ℕ} {s t : Race} {round : Round}

theorem Race.Holds.settle (h : s.Holds) (hwinner : s.winner = none) (writable failed : ℕ → Bool)
    (soError : ℕ → ℕ) : (s.settle writable failed soError).Holds := by
  rw [Race.Holds, hwinner, Option.toList_none, List.nil_append] at h
  have hperm := (scan_perm writable failed soError s.inFlight).map TcpAttempt.sock
  rw [List.map_append] at hperm
  have hreleased := (h.congr hperm).releaseAll
  rw [Race.Holds, Race.settle]
  dsimp only
  rw [handleUses_append, handleUses_map fun _ => rfl]
  refine hreleased.congr ?_
  cases (scan writable failed soError s.inFlight).winner with
  | none => simp
  | some attempt => simp

theorem Turn.holds (hturn : Turn addresses attemptDelayMs deadline s round t)
    (hwinner : s.winner = none) (h : s.Holds) : t.Holds := by
  cases hturn with
  | timeUp => exact h
  | exhausted => exact h
  | start sock inFlight nextStartAt address _ hroom _ hsock hflight _ =>
      rw [Race.Holds, hwinner, Option.toList_none, List.nil_append] at h
      have hbegun := ends_beginConnect h (by simpa using hroom) round.begun
      rw [Race.Holds]
      dsimp only
      rw [handleUses_append, handleUses_began, hwinner, hflight]
      refine hbegun.congr ?_
      rw [hsock]
      cases sock with
      | none => simp
      | some n => simp
  | sleep => simpa [Race.Holds] using h
  | wait => simpa [Race.Holds] using h
  | settle ms writable failed =>
      refine Race.Holds.settle (s := { s with log := s.log ++ [.waited round.now ms] }) ?_ hwinner _
        _ _
      simpa [Race.Holds] using h

end

end Relay

end SplitHello
