import Mathlib.Data.List.Basic
import Mathlib.Tactic.TypeStar

/-!
# Argument vectors

A process gets its arguments as one text and splits it itself. Separators outside of quotes end
an argument, and a run of backslashes means something else only where a quote follows it: half
of them are there, and what is left over makes the quote a letter. `Writes` says of a text that
it stands for one argument wherever a separator or the end of the line follows it; such texts
can be put behind one another.
-/

namespace ArgumentVector

/-- The letters that splitting looks at. -/
structure Alphabet (α : Type*) where
  quote : α
  backslash : α
  separates : α → Bool
  quote_ne_backslash : quote ≠ backslash
  not_separates_quote : separates quote = false
  not_separates_backslash : separates backslash = false

/-- What a quote directly behind a closing quote is: an opening quote as any other, or a letter,
with the argument quoted again behind it or not. -/
inductive Doubled
  | delimiter
  | letter (quoted : Bool)

/-- Where in an argument the splitting stands; `closed` is directly behind a closing quote. -/
inductive Mode
  | plain
  | quoted
  | closed
  deriving DecidableEq

def Mode.settled : Mode → Mode
  | .plain => .plain
  | .quoted => .quoted
  | .closed => .plain

variable {α : Type*} [DecidableEq α]

/-- The argument under way is none between two arguments; the backslashes behind it wait for
what follows them. -/
def split (A : Alphabet α) (doubled : Doubled) :
    Mode → ℕ → Option (List α) → List α → List (List α)
  | _, slashes, current, [] =>
      (current.map (· ++ List.replicate slashes A.backslash)).toList
  | mode, slashes, current, c :: text =>
      let argument := current.getD []
      if c = A.backslash then split A doubled mode.settled (slashes + 1) (some argument) text
      else if c = A.quote then
        let argument := argument ++ List.replicate (slashes / 2) A.backslash
        if slashes % 2 = 1 then
          split A doubled mode.settled 0 (some (argument ++ [A.quote])) text
        else
          match mode, doubled with
          | .closed, .letter quoted =>
              split A doubled (if quoted then .quoted else .plain) 0
                (some (argument ++ [A.quote])) text
          | .quoted, _ => split A doubled .closed 0 (some argument) text
          | _, _ => split A doubled .quoted 0 (some argument) text
      else if A.separates c ∧ mode ≠ .quoted then
        (current.map (· ++ List.replicate slashes A.backslash)).toList ++
          split A doubled .plain 0 none text
      else
        split A doubled mode.settled 0
          (some (argument ++ List.replicate slashes A.backslash ++ [c])) text

/-- The text behind the program's name, whose backslashes are letters. -/
def behindProgram (A : Alphabet α) : Bool → List α → List α
  | _, [] => []
  | quoted, c :: text =>
      if c = A.quote then behindProgram A (!quoted) text
      else if A.separates c ∧ quoted = false then text
      else behindProgram A quoted text

/-! ## One letter -/

section Letters

variable {A : Alphabet α} {doubled : Doubled} {mode : Mode} {slashes : ℕ} {argument : List α}
  {text : List α}

theorem split_backslash (current : Option (List α)) :
    split A doubled mode slashes current (A.backslash :: text) =
      split A doubled mode.settled (slashes + 1) (some (current.getD [])) text := by
  rw [split]
  exact if_pos rfl

theorem split_backslashes (hmode : mode.settled = mode) (n : ℕ) :
    split A doubled mode slashes (some argument) (List.replicate n A.backslash ++ text) =
      split A doubled mode (slashes + n) (some argument) text := by
  induction n generalizing slashes with
  | zero => rfl
  | succ n ih =>
      rw [List.replicate_succ, List.cons_append, split_backslash, hmode, Option.getD_some, ih,
        Nat.add_assoc, Nat.add_comm 1]

/-- An odd number of backslashes makes the quote behind them a letter. -/
theorem split_quote_letter (hodd : slashes % 2 = 1) (current : Option (List α)) :
    split A doubled mode slashes current (A.quote :: text) =
      split A doubled mode.settled 0
        (some (current.getD [] ++ List.replicate (slashes / 2) A.backslash ++ [A.quote])) text := by
  rw [split]
  dsimp only
  rw [if_neg A.quote_ne_backslash, if_pos rfl, if_pos hodd]

theorem split_quote_opening (current : Option (List α)) :
    split A doubled .plain 0 current (A.quote :: text) =
      split A doubled .quoted 0 (some (current.getD [])) text := by
  rw [split]
  dsimp only
  rw [if_neg A.quote_ne_backslash, if_pos rfl, if_neg (by decide), List.replicate_zero,
    List.append_nil]

/-- An even number of backslashes leaves the quote behind them the one that closes. -/
theorem split_quote_closing (heven : slashes % 2 = 0) :
    split A doubled .quoted slashes (some argument) (A.quote :: text) =
      split A doubled .closed 0
        (some (argument ++ List.replicate (slashes / 2) A.backslash)) text := by
  rw [split]
  dsimp only
  rw [if_neg A.quote_ne_backslash, if_pos rfl, if_neg (by omega)]
  rfl

theorem split_separator {c : α} (hc : A.separates c = true) (hmode : mode ≠ .quoted)
    (current : Option (List α)) :
    split A doubled mode slashes current (c :: text) =
      (current.map (· ++ List.replicate slashes A.backslash)).toList ++
        split A doubled .plain 0 none text := by
  have hquote : c ≠ A.quote := by
    rintro rfl
    exact absurd hc (by rw [A.not_separates_quote]; decide)
  have hbackslash : c ≠ A.backslash := by
    rintro rfl
    exact absurd hc (by rw [A.not_separates_backslash]; decide)
  rw [split]
  dsimp only
  rw [if_neg hbackslash, if_neg hquote, if_pos ⟨hc, hmode⟩]

/-- Any other letter, and a separator between quotes, is one of the argument. -/
theorem split_letter {c : α} (hbackslash : c ≠ A.backslash) (hquote : c ≠ A.quote)
    (hc : A.separates c = false ∨ mode = .quoted) (current : Option (List α)) :
    split A doubled mode slashes current (c :: text) =
      split A doubled mode.settled 0
        (some (current.getD [] ++ List.replicate slashes A.backslash ++ [c])) text := by
  rw [split]
  dsimp only
  rw [if_neg hbackslash, if_neg hquote, if_neg]
  rintro ⟨hseparates, hmode⟩
  rcases hc with hc | hc
  · rw [hc] at hseparates
    cases hseparates
  · exact hmode hc

end Letters

/-! ## One argument -/

/-- The text stands for the argument, whatever is written behind the separator after it. -/
structure Writes (A : Alphabet α) (doubled : Doubled) (text argument : List α) : Prop where
  last : split A doubled .plain 0 none text = [argument]
  before : ∀ c rest, A.separates c = true → split A doubled .plain 0 none (text ++ c :: rest) =
    argument :: split A doubled .plain 0 none rest

section Bare

variable {A : Alphabet α} {doubled : Doubled}

/-- The letters of an argument that needs no quotes. -/
def Bare (A : Alphabet α) (argument : List α) : Prop :=
  ∀ c ∈ argument, c ≠ A.quote ∧ A.separates c = false

theorem split_bare {argument : List α} (h : Bare A argument) (slashes : ℕ) (front : List α)
    (rest : List α) (hrest : ∀ c, rest.head? = some c → A.separates c = true) :
    split A doubled .plain slashes (some front) (argument ++ rest) =
      (front ++ List.replicate slashes A.backslash ++ argument) ::
        split A doubled .plain 0 none rest.tail := by
  induction argument generalizing slashes front with
  | nil =>
      rw [List.nil_append, List.append_nil]
      cases rest with
      | nil => rfl
      | cons c rest =>
          rw [split_separator (hrest c rfl) (by decide)]
          rfl
  | cons c argument ih =>
      obtain ⟨⟨hquote, hc⟩, hbehind⟩ := List.forall_mem_cons.1 h
      rw [List.cons_append]
      by_cases hbackslash : c = A.backslash
      · rw [hbackslash, split_backslash, Mode.settled, Option.getD_some, ih hbehind,
          List.replicate_succ', List.append_assoc, List.append_assoc, List.append_assoc]
        rfl
      · rw [split_letter hbackslash hquote (Or.inl hc), Mode.settled, Option.getD_some,
          ih hbehind, List.replicate_zero, List.append_nil, List.append_assoc,
          List.singleton_append]

/-- The first letter of an argument begins it. -/
theorem split_none {c : α} {text : List α} (hquote : c ≠ A.quote) (hc : A.separates c = false) :
    split A doubled .plain 0 none (c :: text) =
      split A doubled .plain 0 (some []) (c :: text) := by
  by_cases hbackslash : c = A.backslash
  · rw [hbackslash, split_backslash, split_backslash]
    rfl
  · rw [split_letter hbackslash hquote (Or.inl hc), split_letter hbackslash hquote (Or.inl hc)]
    rfl

theorem writes_bare {argument : List α} (h : Bare A argument) (hne : argument ≠ []) :
    Writes A doubled argument argument := by
  obtain ⟨c, text, rfl⟩ := List.exists_cons_of_ne_nil hne
  obtain ⟨hquote, hc⟩ := h c (List.mem_cons_self ..)
  constructor
  · have hsplit : split A doubled .plain 0 (some []) (c :: text ++ []) = _ :=
      split_bare h 0 [] [] (fun _ h => by cases h)
    rw [List.append_nil, ← split_none hquote hc] at hsplit
    exact hsplit
  · intro d rest hd
    rw [List.cons_append, split_none hquote hc, ← List.cons_append,
      split_bare h 0 [] (d :: rest) (by rintro _ ⟨⟩; exact hd)]
    rfl

end Bare

/-! ## Between quotes -/

/-- An argument as it is written between quotes behind so many backslashes, with the quote that
closes it. -/
def escaped (A : Alphabet α) : ℕ → List α → List α
  | slashes, [] => List.replicate (slashes * 2) A.backslash ++ [A.quote]
  | slashes, c :: argument =>
      if c = A.backslash then escaped A (slashes + 1) argument
      else if c = A.quote then
        List.replicate (slashes * 2 + 1) A.backslash ++ c :: escaped A 0 argument
      else List.replicate slashes A.backslash ++ c :: escaped A 0 argument

section Escaped

variable {A : Alphabet α} {doubled : Doubled}

theorem split_escaped (slashes : ℕ) (argument front rest : List α) :
    split A doubled .quoted 0 (some front) (escaped A slashes argument ++ rest) =
      split A doubled .closed 0
        (some (front ++ List.replicate slashes A.backslash ++ argument)) rest := by
  induction argument generalizing slashes front with
  | nil =>
      rw [escaped, List.append_assoc, split_backslashes rfl, List.singleton_append,
        split_quote_closing (by omega), Nat.zero_add, Nat.mul_div_cancel _ (by decide),
        List.append_nil]
  | cons c argument ih =>
      rw [escaped]
      by_cases hbackslash : c = A.backslash
      · rw [if_pos hbackslash, ih, hbackslash, List.replicate_succ']
        simp only [List.append_assoc, List.singleton_append]
      rw [if_neg hbackslash]
      by_cases hquote : c = A.quote
      · rw [if_pos hquote, hquote, List.append_assoc, split_backslashes rfl, List.cons_append,
          split_quote_letter (by omega), Mode.settled, ih, Option.getD_some, List.replicate_zero,
          List.append_nil, Nat.zero_add, show (slashes * 2 + 1) / 2 = slashes by omega]
        simp only [List.append_assoc, List.singleton_append]
      · rw [if_neg hquote, List.append_assoc, split_backslashes rfl, List.cons_append,
          split_letter hbackslash hquote (Or.inr rfl), Mode.settled, ih, Option.getD_some,
          List.replicate_zero, List.append_nil, Nat.zero_add]
        simp only [List.append_assoc, List.singleton_append]

theorem mem_escaped {slashes : ℕ} {argument : List α} {c : α} (h : c ∈ escaped A slashes argument) :
    c ∈ argument ∨ c = A.backslash ∨ c = A.quote := by
  induction argument generalizing slashes with
  | nil =>
      rw [escaped, List.mem_append, List.mem_singleton] at h
      rcases h with h | h
      · exact Or.inr (Or.inl (List.eq_of_mem_replicate h))
      · exact Or.inr (Or.inr h)
  | cons d argument ih =>
      have hbehind : ∀ n, c ∈ List.replicate n A.backslash ++ d :: escaped A 0 argument →
          c ∈ d :: argument ∨ c = A.backslash ∨ c = A.quote := by
        intro n hn
        rw [List.mem_append, List.mem_cons] at hn
        rcases hn with hn | rfl | hn
        · exact Or.inr (Or.inl (List.eq_of_mem_replicate hn))
        · exact Or.inl (List.mem_cons_self ..)
        · exact (ih hn).imp_left (List.mem_cons_of_mem d)
      rw [escaped] at h
      by_cases hbackslash : d = A.backslash
      · rw [if_pos hbackslash] at h
        exact (ih h).imp_left (List.mem_cons_of_mem d)
      rw [if_neg hbackslash] at h
      by_cases hquote : d = A.quote
      · rw [if_pos hquote] at h
        exact hbehind _ h
      · rw [if_neg hquote] at h
        exact hbehind _ h

theorem writes_escaped (argument : List α) :
    Writes A doubled (A.quote :: escaped A 0 argument) argument := by
  constructor
  · have hsplit : split A doubled .quoted 0 (some []) (escaped A 0 argument ++ []) = _ :=
      split_escaped 0 argument [] []
    rw [List.append_nil] at hsplit
    rw [split_quote_opening, Option.getD_none, hsplit]
    simp [split]
  · intro c rest hc
    rw [List.cons_append, split_quote_opening, Option.getD_none, split_escaped,
      split_separator hc (by decide)]
    simp

/-- A program's name has no quotes, so that the first quote behind it is the one that closes. -/
theorem behindProgram_escaped {argument : List α} (h : A.quote ∉ argument) (slashes : ℕ)
    (rest : List α) :
    behindProgram A true (escaped A slashes argument ++ rest) = behindProgram A false rest := by
  have hslashes : ∀ (n : ℕ) (text : List α),
      behindProgram A true (List.replicate n A.backslash ++ text) = behindProgram A true text := by
    intro n text
    induction n with
    | zero => rfl
    | succ n ih =>
        rw [List.replicate_succ, List.cons_append, behindProgram,
          if_neg (Ne.symm A.quote_ne_backslash), if_neg (by simp), ih]
  induction argument generalizing slashes with
  | nil =>
      rw [escaped, List.append_assoc, hslashes, List.singleton_append, behindProgram, if_pos rfl]
      rfl
  | cons c argument ih =>
      rw [List.mem_cons, not_or] at h
      rw [escaped]
      by_cases hbackslash : c = A.backslash
      · rw [if_pos hbackslash, ih h.2]
      rw [if_neg hbackslash, if_neg (Ne.symm h.1), List.append_assoc, hslashes, List.cons_append,
        behindProgram, if_neg (Ne.symm h.1), if_neg (by simp), ih h.2]

end Escaped

theorem behindProgram_separator {A : Alphabet α} {rest : List α}
    (hrest : ∀ c, rest.head? = some c → A.separates c = true) :
    behindProgram A false rest = rest.tail := by
  cases rest with
  | nil => rfl
  | cons c rest =>
      have hc := hrest c rfl
      have hquote : c ≠ A.quote := by
        rintro rfl
        exact absurd hc (by rw [A.not_separates_quote]; decide)
      rw [behindProgram, if_neg hquote, if_pos ⟨hc, rfl⟩, List.tail_cons]

theorem behindProgram_bare {A : Alphabet α} {argument : List α} (h : Bare A argument)
    (rest : List α) :
    behindProgram A false (argument ++ rest) = behindProgram A false rest := by
  induction argument with
  | nil => rfl
  | cons d argument ih =>
      obtain ⟨⟨hquote, hd⟩, hbehind⟩ := List.forall_mem_cons.1 h
      rw [List.cons_append, behindProgram, if_neg hquote, if_neg (by simp [hd]), ih hbehind]

/-! ## Several arguments -/

/-- Texts that are written behind one another with a separator between two of them. -/
theorem split_joined {A : Alphabet α} {doubled : Doubled} {write : List α → List α}
    (h : ∀ argument, Writes A doubled (write argument) argument) {c : α}
    (hc : A.separates c = true) (argument : List α) (arguments : List (List α)) :
    split A doubled .plain 0 none
        (write argument ++ arguments.flatMap fun argument => c :: write argument) =
      argument :: arguments := by
  induction arguments generalizing argument with
  | nil =>
      rw [List.flatMap_nil, List.append_nil]
      exact (h argument).last
  | cons next arguments ih =>
      rw [List.flatMap_cons, List.cons_append, (h argument).before _ _ hc, ih]

end ArgumentVector
