import Mathlib.Data.List.Basic

/-!
# Dialogues

One side of a dialogue reads what the other side sends, and answers it. What has been sent
comes in pieces of any size, and a read can be refused. A program is a function of the peer as
it stands: it comes to no end, it fails, or it succeeds with a value. `Takes` says which letters
a program takes off the stream if it succeeds, whatever pieces they come in, and `Succeeds` that
it does so when no read is refused; both are put together along `bind`.
-/

namespace Dialogue

/-- What a read meets: nothing, in time or at all, or one letter and so many more. -/
inductive Answer
  | refused
  | ready (more : ℕ)
  deriving DecidableEq, Repr

/-- The letters that have not been read yet, the answers to all reads, and what is kept of the
other direction. -/
structure Peer (α ω : Type) where
  unread : List α
  answers : ℕ → Answer
  calls : ℕ := 0
  out : ω

/-- No result is that of a run without an end; a result without a value is that of a failure. -/
def Program (α ω β : Type) : Type := Peer α ω → Option (Option β × Peer α ω)

namespace Program

variable {α ω β γ : Type}

def done (b : β) : Program α ω β := fun p => some (some b, p)

def fail : Program α ω β := fun p => some (none, p)

def andThen (r : Program α ω β) (f : β → Program α ω γ) : Program α ω γ := fun p =>
  (r p).bind fun q =>
    match q.1 with
    | none => some (none, q.2)
    | some b => f b q.2

instance : Monad (Program α ω) where
  pure := done
  bind := andThen

/-- The failure of a program as a value. -/
def attempt (r : Program α ω β) : Program α ω (Option β) := fun p =>
  (r p).map fun q => (some q.1, q.2)

/-- One read of some letters, of which there may be fewer. -/
def receive (n : ℕ) : Program α ω (List α) := fun p =>
  let q := { p with calls := p.calls + 1 }
  match p.answers p.calls, p.unread with
  | .refused, _ => some (none, q)
  | .ready _, [] => some (none, q)
  | .ready more, c :: unread =>
      let part := (c :: unread).take (min n (more + 1))
      some (some part, { q with unread := (c :: unread).drop (min n (more + 1)) })

/-- The next letter, which stays unread. -/
def peek : Program α ω α := fun p =>
  let q := { p with calls := p.calls + 1 }
  match p.answers p.calls, p.unread with
  | .refused, _ => some (none, q)
  | .ready _, [] => some (none, q)
  | .ready _, c :: _ => some (some c, q)

/-- Something happens in the other direction, with success or without. -/
def write (f : ω → Bool × ω) : Program α ω Unit := fun p =>
  some (if (f p.out).1 then some () else none, { p with out := (f p.out).2 })

/-- Reads until there are so many letters. -/
def exactLoop (n : ℕ) : ℕ → List α → Program α ω (List α)
  | 0, _ => fun _ => none
  | rounds + 1, read =>
      if n ≤ read.length then done read
      else (receive (n - read.length)).andThen fun part => exactLoop n rounds (read ++ part)

def exact (n : ℕ) : Program α ω (List α) := exactLoop n (n + 1) []

/-- Reads letter by letter until they end what is read, or are more than the limit. -/
def lineLoop (ends : List α → Bool) (limit : ℕ) : ℕ → List α → Program α ω (List α)
  | 0, _ => fun _ => none
  | rounds + 1, read =>
      (receive 1).andThen fun c =>
        if ends (read ++ c) then done (read ++ c)
        else if (read ++ c).length > limit then fail
        else lineLoop ends limit rounds (read ++ c)

def line (ends : List α → Bool) (limit : ℕ) : Program α ω (List α) :=
  lineLoop ends limit (limit + 1) []

/-! ## What a program does -/

def Terminates (r : Program α ω β) : Prop := ∀ p, (r p).isSome

/-- If it succeeds with these letters next, it takes them and gives that value. -/
def Takes (r : Program α ω β) (w : List α) (b : β) : Prop :=
  ∀ p rest b' p', p.unread = w ++ rest → r p = some (some b', p') → b' = b ∧ p'.unread = rest

/-- No read is refused. -/
def Prompt (p : Peer α ω) : Prop := ∀ k, p.answers k ≠ .refused

/-- It succeeds with these letters next, takes them and gives that value. -/
def Succeeds (willing : ω → Prop) (r : Program α ω β) (w : List α) (b : β) : Prop :=
  ∀ p rest, p.unread = w ++ rest → Prompt p → willing p.out →
    ∃ p', r p = some (some b, p') ∧ p'.unread = rest ∧ Prompt p' ∧ willing p'.out

variable {r : Program α ω β} {f : β → Program α ω γ} {w v : List α} {b : β} {c : γ}
  {willing : ω → Prop}

theorem andThen_eq_some {p p' : Peer α ω} :
    r.andThen f p = some (some c, p') ↔
      ∃ b q, r p = some (some b, q) ∧ f b q = some (some c, p') := by
  rw [andThen]
  constructor
  · intro h
    obtain ⟨⟨b, q⟩, hr, hf⟩ := Option.bind_eq_some_iff.1 h
    cases b with
    | none => cases hf
    | some b => exact ⟨b, q, hr, hf⟩
  · rintro ⟨b, q, hr, hf⟩
    rw [hr]
    exact hf

theorem Terminates.done (b : β) : Terminates (done b : Program α ω β) := fun _ => rfl

theorem Terminates.fail : Terminates (fail : Program α ω β) := fun _ => rfl

theorem Terminates.andThen (hr : Terminates r) (hf : ∀ b, Terminates (f b)) :
    Terminates (r.andThen f) := by
  intro p
  obtain ⟨⟨b, q⟩, hq⟩ := Option.isSome_iff_exists.1 (hr p)
  rw [Program.andThen, hq]
  cases b with
  | none => rfl
  | some b => exact hf b q

theorem Terminates.attempt (hr : Terminates r) : Terminates (attempt r) := by
  intro p
  rw [Program.attempt, Option.isSome_map]
  exact hr p

theorem Terminates.receive (n : ℕ) : Terminates (receive n : Program α ω (List α)) := by
  intro p
  rw [Program.receive]
  split <;> rfl

theorem Terminates.peek : Terminates (peek : Program α ω α) := by
  intro p
  rw [Program.peek]
  split <;> rfl

theorem Terminates.write (g : ω → Bool × ω) : Terminates (write g : Program α ω Unit) :=
  fun _ => rfl

theorem Terminates.ite {P : Prop} [Decidable P] {r' : Program α ω β} (hr : Terminates r)
    (hr' : Terminates r') : Terminates (if P then r else r') := by
  split
  · exact hr
  · exact hr'

theorem Takes.done (b : β) : Takes (done b : Program α ω β) [] b := by
  rintro p rest b' p' hp ⟨⟩
  exact ⟨rfl, hp⟩

theorem Takes.fail : Takes (fail : Program α ω β) w b := by
  rintro p rest b' p' hp ⟨⟩

theorem Takes.andThen (hr : Takes r w b) (hf : Takes (f b) v c) :
    Takes (r.andThen f) (w ++ v) c := by
  intro p rest c' p' hp h
  obtain ⟨b', q, hb, hc⟩ := andThen_eq_some.1 h
  rw [List.append_assoc] at hp
  obtain ⟨rfl, hq⟩ := hr p (v ++ rest) b' q hp hb
  exact hf q rest c' p' hq hc

theorem Takes.write (g : ω → Bool × ω) : Takes (write g : Program α ω Unit) [] () := by
  intro p rest b' p' hp h
  rw [Program.write, Option.some.injEq, Prod.mk.injEq] at h
  obtain ⟨-, rfl⟩ := h
  exact ⟨rfl, hp⟩

theorem Succeeds.done (b : β) : Succeeds willing (done b : Program α ω β) [] b :=
  fun p _ hp hprompt hout => ⟨p, rfl, hp, hprompt, hout⟩

theorem Succeeds.andThen (hr : Succeeds willing r w b) (hf : Succeeds willing (f b) v c) :
    Succeeds willing (r.andThen f) (w ++ v) c := by
  intro p rest hp hprompt hout
  rw [List.append_assoc] at hp
  obtain ⟨q, hb, hq, hprompt', hout'⟩ := hr p (v ++ rest) hp hprompt hout
  obtain ⟨p', hc, hrest⟩ := hf q rest hq hprompt' hout'
  exact ⟨p', andThen_eq_some.2 ⟨b, q, hb, hc⟩, hrest⟩

theorem Succeeds.write {g : ω → Bool × ω} (h : ∀ s, willing s → (g s).1 = true ∧ willing (g s).2) :
    Succeeds willing (write g : Program α ω Unit) [] () := by
  intro p rest hp hprompt hout
  obtain ⟨hok, hout'⟩ := h p.out hout
  refine ⟨{ p with out := (g p.out).2 }, ?_, hp, hprompt, hout'⟩
  rw [Program.write, if_pos hok]

/-! ## Reading -/

/-- A read fails, or takes some of the letters that are next. -/
theorem receive_cases {n : ℕ} (hn : 0 < n) (p : Peer α ω) :
    (∃ q, receive n p = some (none, q) ∧ (Prompt p → p.unread = [])) ∨
      ∃ part q, receive n p = some (some part, q) ∧ part ≠ [] ∧ part.length ≤ n ∧
        p.unread = part ++ q.unread ∧ q.answers = p.answers ∧ q.out = p.out := by
  rw [receive]
  cases hanswer : p.answers p.calls with
  | refused => exact Or.inl ⟨_, rfl, fun hprompt => absurd hanswer (hprompt p.calls)⟩
  | ready more =>
      cases hunread : p.unread with
      | nil => exact Or.inl ⟨_, rfl, fun _ => rfl⟩
      | cons c unread =>
          refine Or.inr ⟨_, _, rfl, ?_, ?_, (List.take_append_drop _ _).symm, rfl, rfl⟩
          · obtain ⟨k, hk⟩ : ∃ k, min n (more + 1) = k + 1 := ⟨min n (more + 1) - 1, by omega⟩
            rw [hk, List.take_succ_cons]
            exact List.cons_ne_nil _ _
          · exact Nat.le_trans (List.length_take_le _ _) (Nat.min_le_left _ _)

theorem exactLoop_terminates {n rounds : ℕ} {read : List α} (h : n < read.length + rounds)
    (hpos : 0 < rounds) : Terminates (exactLoop n rounds read : Program α ω (List α)) := by
  induction rounds generalizing read with
  | zero => cases hpos
  | succ rounds ih =>
      rw [exactLoop]
      by_cases hdone : n ≤ read.length
      · rw [if_pos hdone]
        exact .done read
      · rw [if_neg hdone]
        intro p
        rw [andThen]
        rcases receive_cases (show 0 < n - read.length by omega) p with
          ⟨q, hq, -⟩ | ⟨part, q, hq, hpart, -⟩
        · rw [hq]
          rfl
        · have hpos := List.length_pos_iff.2 hpart
          rw [hq]
          exact ih (by rw [List.length_append]; omega) (by omega) q

theorem Terminates.exact (n : ℕ) : Terminates (exact n : Program α ω (List α)) :=
  exactLoop_terminates (by omega) (Nat.succ_pos n)

theorem exactLoop_takes {n rounds : ℕ} {read w : List α} (h : read.length + w.length = n) :
    Takes (exactLoop n rounds read : Program α ω (List α)) w (read ++ w) := by
  induction rounds generalizing read w with
  | zero => rintro p rest b' p' hp ⟨⟩
  | succ rounds ih =>
      rw [exactLoop]
      by_cases hdone : n ≤ read.length
      · obtain rfl : w = [] := List.eq_nil_of_length_eq_zero (by omega)
        rw [if_pos hdone, List.append_nil]
        exact .done read
      · rw [if_neg hdone]
        intro p rest b' p' hp hrun
        rcases receive_cases (show 0 < n - read.length by omega) p with
          ⟨q, hq, -⟩ | ⟨part, q, hq, -, hle, hunread, -⟩
        · rw [andThen, hq] at hrun
          cases hrun
        · rw [andThen, hq] at hrun
          rw [hp] at hunread
          obtain ⟨w', rfl⟩ : part <+: w :=
            List.prefix_of_prefix_length_le ⟨_, hunread.symm⟩ ⟨_, rfl⟩ (by omega)
          rw [List.append_assoc] at hunread
          rw [List.length_append] at h
          rw [← List.append_assoc]
          exact ih (by rw [List.length_append]; omega) q rest b' p'
            (List.append_cancel_left hunread).symm hrun

theorem Takes.exact {n : ℕ} (h : w.length = n) : Takes (exact n : Program α ω (List α)) w w :=
  exactLoop_takes (by rw [List.length_nil]; omega)

theorem exactLoop_succeeds {n rounds : ℕ} {read w : List α} (h : read.length + w.length = n)
    (hrounds : w.length < rounds) :
    Succeeds willing (exactLoop n rounds read : Program α ω (List α)) w (read ++ w) := by
  induction rounds generalizing read w with
  | zero => cases hrounds
  | succ rounds ih =>
      rw [exactLoop]
      by_cases hdone : n ≤ read.length
      · obtain rfl : w = [] := List.eq_nil_of_length_eq_zero (by omega)
        rw [if_pos hdone, List.append_nil]
        exact .done read
      · rw [if_neg hdone]
        intro p rest hp hprompt hout
        have hmore : w ≠ [] := by
          rintro rfl
          exact hdone (by rw [← h, List.length_nil]; omega)
        rcases receive_cases (show 0 < n - read.length by omega) p with
          ⟨q, -, hnone⟩ | ⟨part, q, hq, hpart, hle, hunread, hanswers, hsame⟩
        · rw [hnone hprompt] at hp
          exact absurd (List.append_eq_nil_iff.1 hp.symm).1 hmore
        · rw [hp] at hunread
          obtain ⟨w', rfl⟩ : part <+: w :=
            List.prefix_of_prefix_length_le ⟨_, hunread.symm⟩ ⟨_, rfl⟩ (by omega)
          have hpos := List.length_pos_iff.2 hpart
          rw [List.append_assoc] at hunread
          rw [List.length_append] at h hrounds
          obtain ⟨p', hrun, hrest⟩ := @ih (read ++ part) w'
            (by rw [List.length_append]; omega) (by omega) q rest
            (List.append_cancel_left hunread).symm
            (by rw [Prompt, hanswers]; exact hprompt) (by rw [hsame]; exact hout)
          rw [List.append_assoc] at hrun
          exact ⟨p', by rw [andThen, hq]; exact hrun, hrest⟩

theorem Succeeds.exact {n : ℕ} (h : w.length = n) :
    Succeeds willing (exact n : Program α ω (List α)) w w :=
  exactLoop_succeeds (by rw [List.length_nil]; omega) (by omega)

/-- The first end of a line is at the end of these letters. -/
structure IsLine (ends : List α → Bool) (read w : List α) : Prop where
  ne_nil : w ≠ []
  ends_all : ends (read ++ w) = true
  not_before : ∀ u v, w = u ++ v → u ≠ [] → v ≠ [] → ends (read ++ u) = false

/-- The first letter of a line ends it if it is the only one. -/
theorem IsLine.cons {ends : List α → Bool} {read w : List α} {a : α}
    (h : IsLine ends read (a :: w)) :
    (ends (read ++ [a]) = true ∧ w = []) ∨
      (ends (read ++ [a]) = false ∧ w ≠ [] ∧ IsLine ends (read ++ [a]) w) := by
  by_cases hw : w = []
  · refine Or.inl ⟨?_, hw⟩
    have hall := h.ends_all
    rwa [hw] at hall
  · refine Or.inr ⟨h.not_before [a] w rfl (List.cons_ne_nil _ _) hw, hw, hw, ?_, ?_⟩
    · rw [List.append_assoc]
      exact h.ends_all
    · rintro u v rfl hu hv
      rw [List.append_assoc]
      exact h.not_before (a :: u) v rfl (List.cons_ne_nil _ _) hv

/-- One letter of a line. -/
theorem receive_one_cases (p : Peer α ω) :
    (∃ q, receive 1 p = some (none, q) ∧ (Prompt p → p.unread = [])) ∨
      ∃ a q, receive 1 p = some (some [a], q) ∧ p.unread = a :: q.unread ∧
        q.answers = p.answers ∧ q.out = p.out := by
  rcases receive_cases (Nat.succ_pos 0) p with h | ⟨part, q, hq, hpart, hle, hunread, hsame⟩
  · exact Or.inl h
  · obtain ⟨a, rfl⟩ : ∃ a, part = [a] :=
      List.length_eq_one_iff.1 (Nat.le_antisymm hle (List.length_pos_iff.2 hpart))
    exact Or.inr ⟨a, q, hq, hunread, hsame⟩

theorem lineLoop_terminates (ends : List α → Bool) {limit rounds : ℕ} {read : List α}
    (h : limit < read.length + rounds) (hread : read.length ≤ limit) :
    Terminates (lineLoop ends limit rounds read : Program α ω (List α)) := by
  induction rounds generalizing read with
  | zero => omega
  | succ rounds ih =>
      intro p
      rw [lineLoop, andThen]
      rcases receive_one_cases p with ⟨q, hq, -⟩ | ⟨a, q, hq, -⟩
      · rw [hq]
        rfl
      · rw [hq, Option.bind_some]
        dsimp only
        have hlength : (read ++ [a]).length = read.length + 1 := by
          rw [List.length_append, List.length_singleton]
        by_cases hends : ends (read ++ [a]) = true
        · rw [if_pos hends]
          rfl
        rw [if_neg hends]
        by_cases hlimit : (read ++ [a]).length > limit
        · rw [if_pos hlimit]
          rfl
        · rw [if_neg hlimit]
          exact ih (by omega) (by omega) q

theorem Terminates.line (ends : List α → Bool) (limit : ℕ) :
    Terminates (line ends limit : Program α ω (List α)) :=
  lineLoop_terminates ends (by rw [List.length_nil]; omega) (Nat.zero_le limit)

theorem lineLoop_takes {ends : List α → Bool} {limit rounds : ℕ} {read w : List α}
    (h : IsLine ends read w) :
    Takes (lineLoop ends limit rounds read : Program α ω (List α)) w (read ++ w) := by
  induction rounds generalizing read w with
  | zero => rintro p rest b' p' hp ⟨⟩
  | succ rounds ih =>
      intro p rest b' p' hp hrun
      rw [lineLoop, andThen] at hrun
      rcases receive_one_cases p with ⟨q, hq, -⟩ | ⟨a, q, hq, hunread, -⟩
      · rw [hq] at hrun
        cases hrun
      · obtain ⟨d, w, rfl⟩ := List.exists_cons_of_ne_nil h.ne_nil
        rw [hunread, List.cons_append, List.cons.injEq] at hp
        obtain ⟨rfl, hq'⟩ := hp
        rw [hq, Option.bind_some] at hrun
        dsimp only at hrun
        rcases h.cons with ⟨hends, rfl⟩ | ⟨hends, -, hline⟩
        · rw [if_pos hends] at hrun
          cases hrun
          exact ⟨rfl, hq'⟩
        · rw [hends, if_neg (by decide)] at hrun
          by_cases hlimit : (read ++ [a]).length > limit
          · rw [if_pos hlimit] at hrun
            cases hrun
          · rw [if_neg hlimit] at hrun
            have htakes := ih hline q rest b' p' hq' hrun
            rwa [List.append_assoc] at htakes

theorem Takes.line {ends : List α → Bool} {limit : ℕ} (h : IsLine ends [] w) :
    Takes (line ends limit : Program α ω (List α)) w w :=
  lineLoop_takes h

theorem lineLoop_succeeds {ends : List α → Bool} {limit rounds : ℕ} {read w : List α}
    (h : IsLine ends read w) (hlimit : (read ++ w).length ≤ limit + 1)
    (hrounds : w.length ≤ rounds) :
    Succeeds willing (lineLoop ends limit rounds read : Program α ω (List α)) w (read ++ w) := by
  induction rounds generalizing read w with
  | zero => exact absurd (List.eq_nil_of_length_eq_zero (Nat.le_zero.1 hrounds)) h.ne_nil
  | succ rounds ih =>
      intro p rest hp hprompt hout
      obtain ⟨d, w, rfl⟩ := List.exists_cons_of_ne_nil h.ne_nil
      rcases receive_one_cases p with ⟨q, -, hnone⟩ | ⟨a, q, hq, hunread, hanswers, hsame⟩
      · rw [hnone hprompt] at hp
        cases hp
      · rw [hunread, List.cons_append, List.cons.injEq] at hp
        obtain ⟨rfl, hq'⟩ := hp
        have hprompt' : Prompt q := by
          rw [Prompt, hanswers]
          exact hprompt
        have hout' : willing q.out := by
          rw [hsame]
          exact hout
        rw [lineLoop, andThen, hq, Option.bind_some]
        dsimp only
        rcases h.cons with ⟨hends, rfl⟩ | ⟨hends, hne, hline⟩
        · rw [if_pos hends]
          exact ⟨q, rfl, hq', hprompt', hout'⟩
        · have hpos := List.length_pos_iff.2 hne
          rw [List.length_append, List.length_cons] at hlimit
          rw [List.length_cons] at hrounds
          have hlength : (read ++ [a]).length = read.length + 1 := by
            rw [List.length_append, List.length_singleton]
          rw [hends, if_neg (by decide), if_neg (by omega)]
          obtain ⟨p', hrun, hrest⟩ := ih hline (by rw [List.length_append]; omega) (by omega) q rest
            hq' hprompt' hout'
          rw [List.append_assoc] at hrun
          exact ⟨p', hrun, hrest⟩

theorem Succeeds.line {ends : List α → Bool} {limit : ℕ} (h : IsLine ends [] w)
    (hlimit : w.length ≤ limit + 1) :
    Succeeds willing (line ends limit : Program α ω (List α)) w w :=
  lineLoop_succeeds h hlimit (by omega)

/-- Looking at the next letter does not take it. -/
theorem peek_andThen {g : α → Program α ω γ} {p p' : Peer α ω}
    (h : (peek.andThen g) p = some (some c, p')) :
    ∃ a unread q, p.unread = a :: unread ∧ q.unread = p.unread ∧ g a q = some (some c, p') := by
  obtain ⟨a, q, hpeek, hg⟩ := andThen_eq_some.1 h
  rw [peek] at hpeek
  cases hanswer : p.answers p.calls with
  | refused =>
      rw [hanswer] at hpeek
      cases hpeek
  | ready more =>
      cases hunread : p.unread with
      | nil =>
          rw [hanswer, hunread] at hpeek
          cases hpeek
      | cons d unread =>
          rw [hanswer, hunread] at hpeek
          cases hpeek
          exact ⟨a, unread, _, rfl, rfl, hg⟩

theorem Takes.peek {g : α → Program α ω γ} {a : α} (h : Takes (g a) (a :: w) c) :
    Takes (peek.andThen g) (a :: w) c := by
  intro p rest c' p' hp hrun
  obtain ⟨d, unread, q, hunread, hq, hg⟩ := peek_andThen hrun
  rw [hp, List.cons_append, List.cons.injEq] at hunread
  obtain ⟨rfl, -⟩ := hunread
  exact h q rest c' p' (hq.trans hp) hg

theorem Succeeds.peek {g : α → Program α ω γ} {a : α} (h : Succeeds willing (g a) (a :: w) c) :
    Succeeds willing (peek.andThen g) (a :: w) c := by
  intro p rest hp hprompt hout
  have hpeek : Program.peek p = some (some a, { p with calls := p.calls + 1 }) := by
    rw [Program.peek]
    cases hanswer : p.answers p.calls with
    | refused => exact absurd hanswer (hprompt p.calls)
    | ready more =>
        rw [hp]
        rfl
  obtain ⟨p', hrun, hrest⟩ := h { p with calls := p.calls + 1 } rest hp hprompt hout
  exact ⟨p', andThen_eq_some.2 ⟨a, _, hpeek, hrun⟩, hrest⟩

/-! ## Both at once -/

/-- The program takes these letters and gives that value if it succeeds, and it succeeds under a
condition. -/
structure Reads (willing : ω → Prop) (ok : Prop) (r : Program α ω β) (w : List α) (b : β) :
    Prop where
  takes : Takes r w b
  succeeds : ok → Succeeds willing r w b

namespace Reads

variable {ok : Prop}

theorem done (b : β) : Reads willing ok (Program.done b : Program α ω β) [] b :=
  ⟨.done b, fun _ => .done b⟩

theorem fail (h : ¬ ok) : Reads willing ok (Program.fail : Program α ω β) w b :=
  ⟨.fail, fun hok => absurd hok h⟩

theorem andThen (hr : Reads willing ok r w b) (hf : Reads willing ok (f b) v c) :
    Reads willing ok (r.andThen f) (w ++ v) c :=
  ⟨hr.takes.andThen hf.takes, fun hok => (hr.succeeds hok).andThen (hf.succeeds hok)⟩

theorem andThen_done (hr : Reads willing ok r w b) (g : β → γ) :
    Reads willing ok (r.andThen fun b => Program.done (g b)) w (g b) := by
  have hreads := hr.andThen (f := fun b => Program.done (g b)) (Reads.done (g b))
  rwa [List.append_nil] at hreads

theorem exact {n : ℕ} (h : w.length = n) :
    Reads willing ok (Program.exact n : Program α ω (List α)) w w :=
  ⟨.exact h, fun _ => .exact h⟩

theorem line {ends : List α → Bool} {limit : ℕ} (h : IsLine ends [] w)
    (hlimit : ok → w.length ≤ limit + 1) :
    Reads willing ok (Program.line ends limit : Program α ω (List α)) w w :=
  ⟨.line h, fun hok => .line h (hlimit hok)⟩

theorem write {g : ω → Bool × ω} (h : ∀ s, willing s → (g s).1 = true ∧ willing (g s).2) :
    Reads willing ok (Program.write g : Program α ω Unit) [] () :=
  ⟨.write g, fun _ => .write h⟩

theorem peek {g : α → Program α ω γ} {a : α} (h : Reads willing ok (g a) (a :: w) c) :
    Reads willing ok (Program.peek.andThen g) (a :: w) c :=
  ⟨h.takes.peek, fun hok => (h.succeeds hok).peek⟩

end Reads

end Program

end Dialogue
