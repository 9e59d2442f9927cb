import SplitHello.Relay.ConnectRace

/-!
# What the connection race comes to

Whatever the system answers, the race begins its candidates in their order, never holds up a
free place for longer than the delay behind an attempt that lives, hands over only a socket
that the system has called connected, and gives up only when the time is up, `select` fails
or every candidate has failed. All sockets but the winner's are closed by then.
-/

namespace SplitHello

namespace Relay

open ByteString History Handles

def RaceEvent.begunAddress? : RaceEvent → Option Bytes
  | .began address _ _ => some address
  | _ => none

/-- The candidates begun, in the order of their beginning. -/
def begunAddresses (log : List RaceEvent) : List Bytes := log.filterMap RaceEvent.begunAddress?

/-- The log has begun this attempt, and it lived. -/
def Begun (log : List RaceEvent) (attempt : TcpAttempt) : Prop :=
  ∃ now answers, .began attempt.address now answers ∈ log ∧
    (beginConnect answers).1 = some attempt.sock

/-- In one of the rounds the system reported the attempt as failed. -/
def Refused (rounds : List Round) (sock : ℕ) : Prop :=
  ∃ round ∈ rounds, ∃ writable failed, round.ready = .signalled writable failed ∧
    GivenUp writable failed round.soError sock

/-- In one of the rounds the system reported the attempt as connected. -/
def Connected (rounds : List Round) (sock : ℕ) : Prop :=
  ∃ round ∈ rounds, ∃ writable failed, round.ready = .signalled writable failed ∧
    writable sock = true ∧ round.soError sock = 0

def RaceEvent.Failed : RaceEvent → Prop
  | .failed _ _ => True
  | _ => False

/-- What the race owes to the answers it has had. -/
structure Race.Sound (addresses : List Bytes) (deadline : ℕ) (rounds : List Round) (s : Race) :
    Prop where
  order : begunAddresses s.log = addresses.take s.nextCandidate
  bound : s.nextCandidate ≤ addresses.length
  flight : ∀ attempt ∈ s.inFlight, Begun s.log attempt
  settled : ∀ attempt, Begun s.log attempt → attempt ∈ s.inFlight ∨
    (∃ error, .failed attempt error ∈ s.log) ∨
      s.winner = some attempt.sock ∧ s.chosenAddress = attempt.address
  failures : ∀ attempt error, .failed attempt error ∈ s.log → Refused rounds attempt.sock
  winner : ∀ sock, s.winner = some sock →
    Begun s.log ⟨sock, s.chosenAddress⟩ ∧ Connected rounds sock
  loser : s.winner = none → s.chosenAddress = []
  broken : s.broken = true → (∃ round ∈ rounds, deadline ≤ round.now) ∨
    (∃ round ∈ rounds, round.ready matches .error) ∨
      s.inFlight = [] ∧ addresses.length ≤ s.nextCandidate

@[simp] theorem begunAddresses_append (log log' : List RaceEvent) :
    begunAddresses (log ++ log') = begunAddresses log ++ begunAddresses log' :=
  List.filterMap_append

theorem begunAddresses_map {f : TcpAttempt → RaceEvent}
    (h : ∀ attempt, (f attempt).begunAddress? = none) (attempts : List TcpAttempt) :
    begunAddresses (attempts.map f) = [] := by
  rw [begunAddresses, List.filterMap_eq_nil_iff]
  intro e he
  obtain ⟨attempt, -, rfl⟩ := List.mem_map.1 he
  exact h attempt

theorem Begun.append {log : List RaceEvent} {attempt : TcpAttempt} (h : Begun log attempt)
    (log' : List RaceEvent) : Begun (log ++ log') attempt := by
  obtain ⟨now, answers, hmem, hlive⟩ := h
  exact ⟨now, answers, List.mem_append_left _ hmem, hlive⟩

/-- Only `began` begins an attempt. -/
theorem Begun.of_append {log log' : List RaceEvent} {attempt : TcpAttempt}
    (h : Begun (log ++ log') attempt) (hnone : begunAddresses log' = []) : Begun log attempt := by
  obtain ⟨now, answers, hmem, hlive⟩ := h
  rcases List.mem_append.1 hmem with hmem | hmem
  · exact ⟨now, answers, hmem, hlive⟩
  · rw [begunAddresses, List.filterMap_eq_nil_iff] at hnone
    have hbegun := hnone _ hmem
    cases hbegun

theorem Refused.concat {rounds : List Round} {sock : ℕ} (h : Refused rounds sock) (round : Round) :
    Refused (rounds ++ [round]) sock := by
  obtain ⟨r, hr, hrest⟩ := h
  exact ⟨r, List.mem_append_left _ hr, hrest⟩

theorem Connected.concat {rounds : List Round} {sock : ℕ} (h : Connected rounds sock)
    (round : Round) : Connected (rounds ++ [round]) sock := by
  obtain ⟨r, hr, hrest⟩ := h
  exact ⟨r, List.mem_append_left _ hr, hrest⟩

section

variable {addresses : List Bytes} {attemptDelayMs deadline : ℕ} {s t : Race} {round : Round}
  {rounds : List Round}

theorem Race.Sound.empty : Race.Sound addresses deadline [] {} where
  order := rfl
  bound := Nat.zero_le _
  flight := by simp
  settled := by
    rintro attempt ⟨now, answers, hmem, -⟩
    simp at hmem
  failures := by simp
  winner := by simp
  loser _ := rfl
  broken := by simp

/-- More rounds take nothing back. -/
theorem Race.Sound.concat (h : s.Sound addresses deadline rounds) (round : Round) :
    s.Sound addresses deadline (rounds ++ [round]) := by
  refine { h with
    failures := fun attempt error hmem => (h.failures attempt error hmem).concat round
    winner := fun sock hsock => ⟨(h.winner sock hsock).1, (h.winner sock hsock).2.concat round⟩
    broken := fun hbroken => ?_ }
  rcases h.broken hbroken with ⟨r, hr, htime⟩ | ⟨r, hr, herror⟩ | hdone
  · exact Or.inl ⟨r, List.mem_append_left _ hr, htime⟩
  · exact Or.inr (Or.inl ⟨r, List.mem_append_left _ hr, herror⟩)
  · exact Or.inr (Or.inr hdone)

/-- Waiting changes nothing. -/
theorem Race.Sound.waited (h : s.Sound addresses deadline rounds) (now ms : ℕ) :
    Race.Sound addresses deadline rounds { s with log := s.log ++ [.waited now ms] } := by
  refine { h with order := ?_, flight := ?_, settled := ?_, failures := ?_, winner := ?_ }
  · rw [begunAddresses_append, h.order]
    exact List.append_nil _
  · exact fun attempt hmem => (h.flight attempt hmem).append _
  · intro attempt hbegun
    rcases h.settled attempt (hbegun.of_append rfl) with hflight | ⟨error, hfailed⟩ | hwinner
    · exact Or.inl hflight
    · exact Or.inr (Or.inl ⟨error, List.mem_append_left _ hfailed⟩)
    · exact Or.inr (Or.inr hwinner)
  · intro attempt error hmem
    exact h.failures attempt error (by simpa using hmem)
  · exact fun sock hsock => ⟨(h.winner sock hsock).1.append _, (h.winner sock hsock).2⟩

theorem Race.Sound.breaks (h : s.Sound addresses deadline rounds)
    (hcause : (∃ round ∈ rounds, deadline ≤ round.now) ∨
      (∃ round ∈ rounds, round.ready matches .error) ∨
        s.inFlight = [] ∧ addresses.length ≤ s.nextCandidate) :
    Race.Sound addresses deadline rounds { s with broken := true } :=
  { h with broken := fun _ => hcause }

theorem Race.Sound.settle (h : s.Sound addresses deadline rounds) (hended : s.ended = false)
    {writable failed : ℕ → Bool} {soError : ℕ → ℕ}
    (hsignalled : ∃ round ∈ rounds, round.ready = .signalled writable failed ∧
      round.soError = soError) :
    (s.settle writable failed soError).Sound addresses deadline rounds := by
  obtain ⟨round, hround, hready, rfl⟩ := hsignalled
  simp only [Race.ended, Bool.or_eq_false_iff, Option.isSome_eq_false_iff,
    Option.isNone_iff_eq_none] at hended
  obtain ⟨hbroken, hnone⟩ := hended
  have hperm := scan_perm writable failed round.soError s.inFlight
  have hlost := scan_lost writable failed round.soError s.inFlight
  have hwinner (attempt : TcpAttempt)
      (h : (scan writable failed round.soError s.inFlight).winner = some attempt) :=
    scan_winner h
  revert hperm hlost hwinner
  rw [Race.settle]
  generalize scan writable failed round.soError s.inFlight = result
  intro hperm hlost hwinner
  have hnew : begunAddresses
      (result.lost.map fun a => RaceEvent.failed a (round.soError a.sock)) = [] :=
    begunAddresses_map (fun _ => rfl) _
  refine ⟨?_, h.bound, ?_, ?_, ?_, ?_, ?_, ?_⟩
  · dsimp only
    rw [begunAddresses_append, h.order, hnew, List.append_nil]
  · intro attempt hmem
    refine (h.flight attempt (hperm.mem_iff.2 ?_)).append _
    exact List.mem_append_right _ (List.mem_append_right _ hmem)
  · intro attempt hbegun
    rcases h.settled attempt (hbegun.of_append hnew) with hflight | ⟨error, hfailed⟩ | ⟨hsome, -⟩
    · rcases List.mem_append.1 (hperm.mem_iff.1 hflight) with hmem | hmem
      · exact Or.inr (Or.inl ⟨_, List.mem_append_right _ (List.mem_map_of_mem hmem)⟩)
      · rcases List.mem_append.1 hmem with hmem | hmem
        · rw [Option.mem_toList] at hmem
          exact Or.inr (Or.inr (by simp [hmem]))
        · exact Or.inl hmem
    · exact Or.inr (Or.inl ⟨error, List.mem_append_left _ hfailed⟩)
    · rw [hnone] at hsome
      cases hsome
  · intro attempt error hmem
    rcases List.mem_append.1 hmem with hmem | hmem
    · exact h.failures attempt error hmem
    · obtain ⟨attempt', hattempt, heq⟩ := List.mem_map.1 hmem
      cases heq
      exact ⟨round, hround, writable, failed, hready, hlost _ hattempt⟩
  · intro sock hsock
    obtain ⟨attempt, hattempt, rfl⟩ := Option.map_eq_some_iff.1 hsock
    have hmem : attempt ∈ s.inFlight := by
      refine hperm.mem_iff.2 (List.mem_append_right _ (List.mem_append_left _ ?_))
      simp [hattempt]
    have hbegun := (h.flight attempt hmem).append
      (result.lost.map fun a => RaceEvent.failed a (round.soError a.sock))
    refine ⟨?_, round, hround, writable, failed, hready, hwinner attempt hattempt⟩
    simpa [hattempt] using hbegun
  · intro hloser
    dsimp only at hloser
    rw [Option.map_eq_none_iff] at hloser
    simp [hloser, h.loser hnone]
  · intro hbroken'
    dsimp only at hbroken'
    rw [hbroken] at hbroken'
    cases hbroken'

theorem Race.Sound.turn (h : s.Sound addresses deadline rounds) (hended : s.ended = false)
    (hturn : Turn addresses attemptDelayMs deadline s round t) :
    t.Sound addresses deadline (rounds ++ [round]) := by
  have hround : round ∈ rounds ++ [round] := by simp
  have hnone : s.winner = none := by
    simp only [Race.ended, Bool.or_eq_false_iff, Option.isSome_eq_false_iff,
      Option.isNone_iff_eq_none] at hended
    exact hended.2
  replace h := h.concat round
  cases hturn with
  | timeUp htime => exact h.breaks (Or.inl ⟨round, hround, htime⟩)
  | exhausted hempty hlast => exact h.breaks (Or.inr (Or.inr ⟨hempty, hlast⟩))
  | sleep => exact h.waited _ _
  | wait ms broken _ _ herror =>
      cases broken with
      | true => exact (h.waited _ _).breaks (Or.inr (Or.inl ⟨round, hround, herror rfl⟩))
      | false => exact { h.waited round.now ms with broken := by simp }
  | settle ms writable failed _ _ hready =>
      exact (h.waited _ _).settle hended ⟨round, hround, hready, rfl⟩
  | start sock inFlight nextStartAt address haddress _ _ hsock hflight _ =>
      obtain ⟨hcandidate, rfl⟩ := List.getElem?_eq_some_iff.1 haddress
      refine { h with
        order := ?_, bound := hcandidate, flight := ?_, settled := ?_, failures := ?_
        winner := ?_, broken := ?_ }
      · rw [begunAddresses_append, h.order, List.take_add_one, haddress]
        rfl
      · intro attempt hmem
        rw [hflight] at hmem
        rcases List.mem_append.1 hmem with hmem | hmem
        · exact (h.flight attempt hmem).append _
        · obtain ⟨n, hn, rfl⟩ : ∃ n, sock = some n ∧ ⟨n, addresses[s.nextCandidate]⟩ = attempt := by
            simpa using hmem
          exact ⟨round.now, round.begun, by simp, hsock.trans hn⟩
      · rintro attempt ⟨now, answers, hmem, hlive⟩
        rcases List.mem_append.1 hmem with hmem | hmem
        · rcases h.settled attempt ⟨now, answers, hmem, hlive⟩ with hold | ⟨error, hfailed⟩ | hwon
          · exact Or.inl (hflight ▸ List.mem_append_left _ hold)
          · exact Or.inr (Or.inl ⟨error, List.mem_append_left _ hfailed⟩)
          · exact Or.inr (Or.inr hwon)
        · obtain ⟨haddr, -, rfl⟩ : attempt.address = addresses[s.nextCandidate] ∧
              now = round.now ∧ answers = round.begun := by simpa using hmem
          rw [hsock] at hlive
          subst hlive
          refine Or.inl (hflight ▸ List.mem_append_right _ ?_)
          simp [← haddr]
      · intro attempt error hmem
        exact h.failures attempt error (by simpa using hmem)
      · intro n hn
        dsimp only at hn
        rw [hnone] at hn
        cases hn
      · intro hbroken
        simp only [Race.ended, Bool.or_eq_false_iff] at hended
        dsimp only at hbroken
        rw [hended.1] at hbroken
        cases hbroken

end

/-! ## The clock -/

/-- Behind an attempt that lives the next one is begun after the delay, unless an attempt
has failed in between. -/
def Staggered (attemptDelayMs : ℕ) (log : List RaceEvent) : Prop :=
  ∀ before address now answers between address' now' answers' after,
    log = before ++ .began address now answers ::
      (between ++ .began address' now' answers' :: after) →
    (beginConnect answers).1.isSome → (∀ e ∈ between, ¬ e.Failed) → now + attemptDelayMs ≤ now'

/-- No wait passes the deadline, and while a candidate and a place are left no wait passes
the delay behind an attempt that lives. -/
def Punctual (candidates attemptDelayMs deadline : ℕ) (log : List RaceEvent) : Prop :=
  ∀ before now ms after, log = before ++ .waited now ms :: after →
    now + ms ≤ deadline ∧
      ((begunAddresses before).length < candidates →
        (holding (handleUses before)).length < kMaxParallelAttempts →
        ms = 0 ∨ ∃ address start answers, .began address start answers ∈ before ∧
          (beginConnect answers).1.isSome ∧ now + ms ≤ start + attemptDelayMs)

theorem notMem_began {log : List RaceEvent} (hnone : begunAddresses log = []) (address : Bytes)
    (now : ℕ) (answers : BeginAnswers) : .began address now answers ∉ log := by
  intro hmem
  rw [begunAddresses, List.filterMap_eq_nil_iff] at hnone
  cases hnone _ hmem

section

variable {candidates attemptDelayMs deadline : ℕ} {log log' : List RaceEvent}

theorem Staggered.append (h : Staggered attemptDelayMs log) (hnone : begunAddresses log' = []) :
    Staggered attemptDelayMs (log ++ log') := by
  intro before address now answers between address' now' answers' after heq
  rw [← List.cons_append, ← List.append_assoc] at heq
  obtain ⟨rest, -, hlog⟩ := append_eq_of_notMem heq (notMem_began hnone _ _ _)
  rw [List.append_assoc, List.cons_append] at hlog
  exact h before address now answers between address' now' answers' rest hlog

theorem Staggered.began (h : Staggered attemptDelayMs log) {address' : Bytes} {now' : ℕ}
    {answers' : BeginAnswers}
    (hdue : ∀ before address now answers after,
      log = before ++ .began address now answers :: after →
      (beginConnect answers).1.isSome → (∀ e ∈ after, ¬ e.Failed) → now + attemptDelayMs ≤ now') :
    Staggered attemptDelayMs (log ++ [.began address' now' answers']) := by
  intro before address now answers between address₂ now₂ answers₂ after heq hlive hquiet
  rw [← List.cons_append, ← List.append_assoc] at heq
  rcases concat_eq_cases heq with ⟨-, hlog, hlast⟩ | ⟨rest, -, hlog⟩
  · cases hlast
    exact hdue before address now answers between hlog hlive hquiet
  · rw [List.append_assoc, List.cons_append] at hlog
    exact h before address now answers between address₂ now₂ answers₂ rest hlog hlive hquiet

theorem Punctual.append (h : Punctual candidates attemptDelayMs deadline log)
    (hnone : ∀ now ms, .waited now ms ∉ log') :
    Punctual candidates attemptDelayMs deadline (log ++ log') := by
  intro before now ms after heq
  obtain ⟨rest, -, hlog⟩ := append_eq_of_notMem heq (hnone now ms)
  exact h before now ms rest hlog

theorem Punctual.waited (h : Punctual candidates attemptDelayMs deadline log) {now ms : ℕ}
    (hdeadline : now + ms ≤ deadline)
    (hdue : (begunAddresses log).length < candidates →
      (holding (handleUses log)).length < kMaxParallelAttempts →
      ms = 0 ∨ ∃ address start answers, .began address start answers ∈ log ∧
        (beginConnect answers).1.isSome ∧ now + ms ≤ start + attemptDelayMs) :
    Punctual candidates attemptDelayMs deadline (log ++ [.waited now ms]) := by
  intro before now' ms' after heq
  rcases concat_eq_cases heq with ⟨-, rfl, hlast⟩ | ⟨rest, -, hlog⟩
  · cases hlast
    exact ⟨hdeadline, hdue⟩
  · exact h before now' ms' rest hlog

end

/-- What the race owes to the clock. -/
structure Race.Timed (candidates attemptDelayMs deadline : ℕ) (s : Race) : Prop where
  staggered : Staggered attemptDelayMs s.log
  punctual : Punctual candidates attemptDelayMs deadline s.log
  due : ∀ before address now answers after, s.log = before ++ .began address now answers :: after →
    (beginConnect answers).1.isSome → (∀ e ∈ after, ¬ e.Failed) →
    now + attemptDelayMs ≤ s.nextStartAt
  origin : s.nextStartAt = 0 ∨ ∃ address start answers, .began address start answers ∈ s.log ∧
    (beginConnect answers).1.isSome ∧ s.nextStartAt = start + attemptDelayMs
  /-- Without an attempt in flight nothing is waited for. -/
  idle : s.winner = none → s.inFlight = [] → s.nextStartAt = 0

section

variable {candidates attemptDelayMs deadline : ℕ} {s t : Race}

theorem Race.Timed.empty : Race.Timed candidates attemptDelayMs deadline {} where
  staggered before address now answers between address' now' answers' after heq := by simp at heq
  punctual before now ms after heq := by simp at heq
  due before address now answers after heq := by simp at heq
  origin := Or.inl rfl
  idle _ _ := rfl

theorem Race.Timed.waited (h : s.Timed candidates attemptDelayMs deadline) (hholds : s.Holds)
    (hwinner : s.winner = none) (hbegun : (begunAddresses s.log).length = s.nextCandidate)
    {now ms : ℕ} (hdeadline : now + ms ≤ deadline)
    (hdue : s.nextCandidate < candidates → s.inFlight.length < kMaxParallelAttempts →
      now + ms ≤ s.nextStartAt) :
    Race.Timed candidates attemptDelayMs deadline
      { s with log := s.log ++ [.waited now ms] } where
  staggered := h.staggered.append rfl
  punctual := by
    refine h.punctual.waited hdeadline fun hcandidate hroom => ?_
    rw [hbegun] at hcandidate
    have hlength : (holding (handleUses s.log)).length = s.inFlight.length := by
      simpa [hwinner] using hholds.perm.length_eq
    rw [hlength] at hroom
    have hlimit := hdue hcandidate hroom
    rcases h.origin with hzero | ⟨address, start, answers, hmem, hlive, hstart⟩
    · exact Or.inl (by omega)
    · exact Or.inr ⟨address, start, answers, hmem, hlive, by omega⟩
  due before address now' answers after heq hlive hquiet := by
    obtain ⟨rest, rfl, hlog⟩ := append_eq_of_notMem heq (by simp)
    exact h.due before address now' answers rest hlog hlive fun e he =>
      hquiet e (List.mem_append_left _ he)
  origin := by
    rcases h.origin with hzero | ⟨address, start, answers, hmem, hlive, hstart⟩
    · exact Or.inl hzero
    · exact Or.inr ⟨address, start, answers, List.mem_append_left _ hmem, hlive, hstart⟩
  idle := h.idle

theorem Race.Timed.settle (h : s.Timed candidates attemptDelayMs deadline)
    (hwinner : s.winner = none) (writable failed : ℕ → Bool) (soError : ℕ → ℕ) :
    (s.settle writable failed soError).Timed candidates attemptDelayMs deadline := by
  have hperm := scan_perm writable failed soError s.inFlight
  revert hperm
  rw [Race.settle]
  generalize scan writable failed soError s.inFlight = result
  intro hperm
  have hnew : begunAddresses (result.lost.map fun a => RaceEvent.failed a (soError a.sock)) = [] :=
    begunAddresses_map (fun _ => rfl) _
  refine ⟨h.staggered.append hnew, h.punctual.append (by simp), ?_, ?_, ?_⟩
  · intro before address now answers after heq hlive hquiet
    obtain ⟨rest, rfl, hlog⟩ := append_eq_of_notMem heq (by simp)
    have hlost : result.lost = [] := by
      cases hcase : result.lost with
      | nil => rfl
      | cons attempt lost =>
          refine (hquiet (.failed attempt (soError attempt.sock)) ?_ trivial).elim
          simp [hcase]
    dsimp only
    rw [hlost, List.isEmpty_nil, if_pos rfl]
    exact h.due before address now answers rest hlog hlive fun e he =>
      hquiet e (List.mem_append_left _ he)
  · dsimp only
    split
    · rcases h.origin with hzero | ⟨address, start, answers, hmem, hlive, hstart⟩
      · exact Or.inl hzero
      · exact Or.inr ⟨address, start, answers, List.mem_append_left _ hmem, hlive, hstart⟩
    · exact Or.inl rfl
  · intro hnone hempty
    dsimp only at hnone hempty ⊢
    rw [Option.map_eq_none_iff] at hnone
    split
    · rename_i hlost
      rw [List.isEmpty_iff] at hlost
      rw [hnone, hempty, hlost] at hperm
      exact h.idle hwinner (by simpa using hperm.length_eq)
    · rfl

theorem Race.Timed.turn {addresses : List Bytes} {rounds : List Round} {round : Round}
    (h : s.Timed addresses.length attemptDelayMs deadline) (hholds : s.Holds)
    (hsound : s.Sound addresses deadline rounds) (hwinner : s.winner = none)
    (hturn : Turn addresses attemptDelayMs deadline s round t) :
    t.Timed addresses.length attemptDelayMs deadline := by
  have hbegun : (begunAddresses s.log).length = s.nextCandidate := by
    rw [hsound.order, List.length_take]
    exact Nat.min_eq_left hsound.bound
  cases hturn with
  | timeUp => exact { h with }
  | exhausted => exact { h with }
  | sleep hempty hlater =>
      rw [h.idle hwinner hempty] at hlater
      cases hlater
  | wait ms broken hdeadline hdue =>
      exact { h.waited hholds hwinner hbegun hdeadline hdue with }
  | settle ms writable failed hdeadline hdue =>
      exact (h.waited hholds hwinner hbegun hdeadline hdue).settle hwinner _ _ _
  | start sock inFlight nextStartAt address _ _ hnow hsock hflight hnext =>
      refine ⟨?_, h.punctual.append (by simp), ?_, ?_, ?_⟩
      · exact h.staggered.began fun before address' now' answers' after heq hlive hquiet =>
          Nat.le_trans (h.due before address' now' answers' after heq hlive hquiet) hnow
      · intro before address' now' answers' after heq hlive hquiet
        dsimp only
        rcases concat_eq_cases heq with ⟨-, hlog, hlast⟩ | ⟨rest, rfl, hlog⟩
        · cases hlast
          rw [hsock] at hlive
          exact Nat.le_of_eq (hnext.trans (if_pos hlive)).symm
        · have hold := h.due before address' now' answers' rest hlog hlive fun e he =>
            hquiet e (List.mem_append_left _ he)
          rw [hnext]
          split
          · exact Nat.le_trans (Nat.le_trans hold hnow) (Nat.le_add_right _ _)
          · exact hold
      · dsimp only
        rw [hnext]
        split
        · rename_i hlive
          exact Or.inr ⟨address, round.now, round.begun, by simp, by rwa [hsock], rfl⟩
        · rcases h.origin with hzero | ⟨address', start, answers, hmem, hlive, hstart⟩
          · exact Or.inl hzero
          · exact Or.inr ⟨address', start, answers, List.mem_append_left _ hmem, hlive, hstart⟩
      · intro _ hempty
        dsimp only at hempty ⊢
        rw [hflight] at hempty
        obtain ⟨hbefore, hnone⟩ := List.append_eq_nil_iff.1 hempty
        have hdead : sock = none := by simpa using hnone
        rw [hnext, hdead, Option.isSome_none, if_neg nofun]
        exact h.idle hwinner hbefore

end

/-! ## Whole races -/

section

variable {addresses : List Bytes} {attemptDelayMs totalTimeoutMs start deadline : ℕ}
  {rounds : List Round} {blocking : Bool} {result : RaceResult}

theorem Race.Holds.empty : Race.Holds {} := Ends.nil

/-- What holds after any number of rounds. -/
structure Race.Fair (addresses : List Bytes) (attemptDelayMs deadline : ℕ) (rounds : List Round)
    (s : Race) : Prop where
  holds : s.Holds
  sound : s.Sound addresses deadline rounds
  timed : s.Timed addresses.length attemptDelayMs deadline

theorem raceStep_fair (rounds : List Round) (s : Race) (round : Round)
    (h : s.Fair addresses attemptDelayMs deadline rounds) :
    (raceStep addresses attemptDelayMs deadline s round).Fair addresses attemptDelayMs deadline
      (rounds ++ [round]) := by
  cases hended : s.ended with
  | true =>
      rw [raceStep_of_ended hended]
      exact ⟨h.holds, h.sound.concat round, h.timed⟩
  | false =>
      have hturn : Turn addresses attemptDelayMs deadline s round
          (raceStep addresses attemptDelayMs deadline s round) := raceStep_turn hended
      have hwinner : s.winner = none := by
        simp only [Race.ended, Bool.or_eq_false_iff, Option.isSome_eq_false_iff,
          Option.isNone_iff_eq_none] at hended
        exact hended.2
      exact ⟨hturn.holds hwinner h.holds, h.sound.turn hended hturn,
        h.timed.turn h.holds h.sound hwinner hturn⟩

theorem raceRun_fair (addresses : List Bytes) (attemptDelayMs deadline : ℕ)
    (rounds : List Round) : (run (raceStep addresses attemptDelayMs deadline) {} rounds).Fair
      addresses attemptDelayMs deadline rounds :=
  run_invariant _ _ (Race.Fair addresses attemptDelayMs deadline)
    ⟨Race.Holds.empty, Race.Sound.empty, Race.Timed.empty⟩ raceStep_fair rounds

/-- A result is that of an empty list or of a race that has ended. -/
theorem connectAny_eq_some
    (h : connectAny addresses attemptDelayMs totalTimeoutMs start rounds blocking = some result) :
    addresses = [] ∧ result = ⟨none, [], []⟩ ∨
      ∃ s : Race, s.Fair addresses attemptDelayMs (start + totalTimeoutMs) rounds ∧
        s.ended = true ∧ result = s.finish blocking := by
  rw [connectAny] at h
  split at h
  · rename_i hempty
    exact Or.inl ⟨List.isEmpty_iff.1 hempty, (Option.some.inj h).symm⟩
  · dsimp only at h
    split at h
    · rename_i hended
      exact Or.inr ⟨_, raceRun_fair _ _ _ _, hended, (Option.some.inj h).symm⟩
    · cases h

theorem Race.finish_log (s : Race) (blocking : Bool) :
    ∃ closes, (s.finish blocking).log = s.log ++ closes ∧ begunAddresses closes = [] ∧
      ∀ now ms, .waited now ms ∉ closes := by
  have hflight : begunAddresses (s.inFlight.map fun a => RaceEvent.closed a.sock) = [] :=
    begunAddresses_map (fun _ => rfl) _
  rw [Race.finish]
  cases s.winner with
  | none => exact ⟨_, rfl, hflight, by simp⟩
  | some sock =>
      cases blocking with
      | true => exact ⟨_, rfl, hflight, by simp⟩
      | false =>
          refine ⟨s.inFlight.map (fun a => RaceEvent.closed a.sock) ++ [.closed sock], by simp, ?_,
            by simp⟩
          rw [begunAddresses_append, hflight]
          rfl

/-- Closing what is left over releases everything but the winner. -/
theorem Race.Holds.finish {s : Race} (h : s.Holds) (blocking : Bool) :
    Ends kMaxParallelAttempts (handleUses (s.finish blocking).log)
      (s.finish blocking).winner.toList := by
  have hperm : (s.winner.toList ++ s.inFlight.map TcpAttempt.sock).Perm
      (s.inFlight.map TcpAttempt.sock ++ s.winner.toList) := List.perm_append_comm
  have hclosed := (h.congr hperm).releaseAll
  rw [← handleUses_map (fun _ => rfl : ∀ a : TcpAttempt, (RaceEvent.closed a.sock).uses = _),
    ← handleUses_append] at hclosed
  rw [Race.finish]
  cases hwinner : s.winner with
  | none => simpa [hwinner] using hclosed
  | some sock =>
      rw [hwinner] at hclosed
      cases blocking with
      | true => exact hclosed
      | false =>
          have hreleased := hclosed.release sock (by simp)
          simpa using hreleased

/-- A first address that does not answer and, after the delay, a second one that does. -/
def secondAnswers : List Round :=
  [{ now := 0, begun := { socket := some 3 } }, { now := 1 },
    { now := 250, begun := { socket := some 4 } },
    { now := 251, ready := .signalled (fun sock => sock == 4) fun _ => false }]

def secondWins : RaceResult where
  winner := some 4
  chosenAddress := [50]
  log := [.began [49] 0 { socket := some 3 }, .waited 1 249, .began [50] 250 { socket := some 4 },
    .waited 251 9749, .closed 3]

theorem connectAny_secondAnswers :
    connectAny [[49], [50]] 250 10000 0 secondAnswers true = some secondWins := rfl

/-- Whatever the system answers, a race that returns has closed every socket it opened as often
as it opened it, but for the one it returns, and never held more than eight. -/
theorem connectAny_closes
    (h : connectAny addresses attemptDelayMs totalTimeoutMs start rounds blocking = some result) :
    Ends kMaxParallelAttempts (handleUses result.log) result.winner.toList ∧
      ∀ sock, (handleUses result.log).count (.acquire sock) =
        (handleUses result.log).count (.release sock) + result.winner.toList.count sock := by
  have hends : Ends kMaxParallelAttempts (handleUses result.log) result.winner.toList := by
    rcases connectAny_eq_some h with ⟨-, rfl⟩ | ⟨s, hfair, -, rfl⟩
    · exact Ends.nil
    · exact hfair.holds.finish blocking
  exact ⟨hends, hends.balanced⟩

theorem connectAny_closes_secondAnswers :
    Ends kMaxParallelAttempts (handleUses secondWins.log) [4] :=
  (connectAny_closes connectAny_secondAnswers).1

/-- A race hands over a socket that the system has called connected, with the address it was
begun for. It hands over none only when the socket could not be made blocking, the time was
up, `select` failed, or every address was begun and every attempt reported as failed. -/
theorem connectAny_verdict
    (h : connectAny addresses attemptDelayMs totalTimeoutMs start rounds blocking = some result) :
    (∀ sock, result.winner = some sock → result.chosenAddress ∈ addresses ∧
      Begun result.log ⟨sock, result.chosenAddress⟩ ∧ Connected rounds sock) ∧
    (result.winner = none → result.chosenAddress = [] ∧
      (blocking = false ∨ (∃ round ∈ rounds, start + totalTimeoutMs ≤ round.now) ∨
        (∃ round ∈ rounds, round.ready matches .error) ∨
        begunAddresses result.log = addresses ∧
          ∀ attempt, Begun result.log attempt → Refused rounds attempt.sock)) := by
  rcases connectAny_eq_some h with ⟨rfl, rfl⟩ | ⟨s, hfair, hended, rfl⟩
  · refine ⟨nofun, fun _ => ⟨rfl, Or.inr (Or.inr (Or.inr ⟨rfl, ?_⟩))⟩⟩
    rintro attempt ⟨now, answers, hmem, -⟩
    simp at hmem
  · have hsound := hfair.sound
    obtain ⟨closes, hlog, hnone, -⟩ := s.finish_log blocking
    rw [hlog]
    cases hwinner : s.winner with
    | some sock =>
        obtain ⟨hbegun, hconnected⟩ := hsound.winner sock hwinner
        have haddress : s.chosenAddress ∈ addresses := by
          obtain ⟨now, answers, hmem, -⟩ := hbegun
          have hmem' : s.chosenAddress ∈ begunAddresses s.log :=
            List.mem_filterMap.2 ⟨_, hmem, rfl⟩
          rw [hsound.order] at hmem'
          exact List.mem_of_mem_take hmem'
        cases blocking with
        | true =>
            simp only [Race.finish, hwinner, if_true]
            refine ⟨fun sock' heq => ?_, nofun⟩
            cases heq
            exact ⟨haddress, hbegun.append _, hconnected⟩
        | false =>
            rw [Race.finish, hwinner]
            exact ⟨nofun, fun _ => ⟨rfl, Or.inl rfl⟩⟩
    | none =>
        simp only [Race.finish, hwinner]
        refine ⟨nofun, fun _ => ⟨hsound.loser hwinner, Or.inr ?_⟩⟩
        have hbroken : s.broken = true := by simpa [Race.ended, hwinner] using hended
        rcases hsound.broken hbroken with htime | herror | ⟨hempty, hlast⟩
        · exact Or.inl htime
        · exact Or.inr (Or.inl herror)
        · refine Or.inr (Or.inr ⟨?_, fun attempt hbegun => ?_⟩)
          · rw [begunAddresses_append, hnone, List.append_nil, hsound.order,
              List.take_of_length_le hlast]
          · rcases hsound.settled attempt (hbegun.of_append hnone) with
              hflight | ⟨error, hfailed⟩ | ⟨hsome, -⟩
            · rw [hempty] at hflight
              cases hflight
            · exact hsound.failures attempt error hfailed
            · rw [hwinner] at hsome
              cases hsome

theorem connectAny_verdict_secondAnswers : Connected secondAnswers 4 :=
  ((connectAny_verdict connectAny_secondAnswers).1 4 rfl).2.2

end

end Relay

end SplitHello
