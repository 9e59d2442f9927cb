import SplitHello.Library.ArgumentVector
import Mathlib.Data.List.TakeWhile

/-!
# Command lines

The tray, the elevation relaunch and the wrangler start their children with a command line of
quoted arguments, which the child splits again. Whatever the arguments are, the child gets them
as they were.
-/

namespace SplitHello

/-- A wide string of Windows, a list of UTF-16 units. -/
abbrev Wide := List UInt16

namespace CommandLine

open ArgumentVector

/-- `" \t\n\v\""` -/
def special : Wide := [32, 9, 10, 11, 34]

/-- One turn of the loop, with the text so far and the backslashes that wait behind it. -/
def quoteStep : Wide × ℕ → UInt16 → Wide × ℕ
  | (result, backslashes), character =>
      if character = 92 then (result, backslashes + 1)
      else if character = 34 then
        (result ++ List.replicate (backslashes * 2 + 1) 92 ++ [character], 0)
      else (result ++ List.replicate backslashes 92 ++ [character], 0)

def quoteArgument (argument : Wide) : Wide :=
  if argument ≠ [] ∧ argument.all (· ∉ special) then argument
  else
    let (result, backslashes) := argument.foldl quoteStep ([34], 0)
    result ++ List.replicate (backslashes * 2) 92 ++ [34]

/-- The command line of `startEngine`. -/
def commandLine (executable : Wide) (arguments : List Wide) : Wide :=
  arguments.foldl (fun line argument => line ++ [32] ++ quoteArgument argument)
    (quoteArgument executable)

/-- The parameters of `relaunchElevated`, which the shell writes behind the program's name. -/
def parameters (arguments : List Wide) : Wide :=
  arguments.foldl (fun line argument =>
    (if line ≠ [] then line ++ [32] else line) ++ quoteArgument argument) []

end CommandLine

namespace Wrangler

/-- One turn of the loop of the wrangler's own `quoteArgument`. -/
def quoteStep : Wide × ℕ → UInt16 → Wide × ℕ
  | (quoted, backslashes), ch =>
      if ch = 92 then (quoted, backslashes + 1)
      else if ch = 34 then (quoted ++ List.replicate (backslashes * 2 + 1) 92 ++ [ch], 0)
      else (quoted ++ List.replicate backslashes 92 ++ [ch], 0)

def quoteArgument (value : Wide) : Wide :=
  if value ≠ [] ∧ value.all (· ∉ ([32, 9, 10, 11, 34] : Wide)) then value
  else
    let (quoted, backslashes) := value.foldl quoteStep ([34], 0)
    quoted ++ List.replicate (backslashes * 2) 92 ++ [34]

theorem quoteArgument_eq (value : Wide) :
    quoteArgument value = CommandLine.quoteArgument value := rfl

end Wrangler

namespace CommandLine

open ArgumentVector

/-! ## How a child splits it -/

/-- Space and tab separate, and nothing else does. -/
def windows : Alphabet UInt16 where
  quote := 34
  backslash := 92
  separates c := c = 32 ∨ c = 9
  quote_ne_backslash := by decide
  not_separates_quote := by decide
  not_separates_backslash := by decide

/-- The arguments in a text, which ends at the first NUL. -/
def splitArguments (doubled : Doubled) (text : Wide) : List Wide :=
  split windows doubled .plain 0 none (text.takeWhile (· ≠ 0))

/-- The arguments in a command line, behind the program's name. -/
def splitCommandLine (doubled : Doubled) (line : Wide) : List Wide :=
  split windows doubled .plain 0 none (behindProgram windows false (line.takeWhile (· ≠ 0)))

/-! ## What is written for one argument -/

theorem foldl_quoteStep (argument result : Wide) (backslashes : ℕ) :
    let state := argument.foldl quoteStep (result, backslashes)
    state.1 ++ List.replicate (state.2 * 2) 92 ++ [34] =
      result ++ escaped windows backslashes argument := by
  dsimp only
  induction argument generalizing result backslashes with
  | nil => exact List.append_assoc ..
  | cons c argument ih =>
      rw [List.foldl_cons, quoteStep, escaped]
      by_cases hbackslash : c = 92
      · rw [if_pos hbackslash, ih, if_pos (show c = windows.backslash from hbackslash)]
      rw [if_neg hbackslash, if_neg (show c ≠ windows.backslash from hbackslash)]
      by_cases hquote : c = 34
      · rw [if_pos hquote, ih, if_pos (show c = windows.quote from hquote)]
        simp only [List.append_assoc, List.singleton_append]
        rfl
      · rw [if_neg hquote, ih, if_neg (show c ≠ windows.quote from hquote)]
        simp only [List.append_assoc, List.singleton_append]
        rfl

/-- An argument stands as it is, or between quotes. -/
theorem quoteArgument_cases (argument : Wide) :
    (argument ≠ [] ∧ Bare windows argument ∧ quoteArgument argument = argument) ∨
      quoteArgument argument = windows.quote :: escaped windows 0 argument := by
  rw [quoteArgument]
  by_cases hplain : argument ≠ [] ∧ argument.all (· ∉ special)
  · refine Or.inl ⟨hplain.1, fun c hc => ?_, if_pos hplain⟩
    have hspecial := of_decide_eq_true (List.all_eq_true.1 hplain.2 c hc)
    simp only [special, List.mem_cons, List.not_mem_nil, or_false, not_or] at hspecial
    obtain ⟨hspace, htab, -, -, hquote⟩ := hspecial
    exact ⟨hquote, by simp [windows, hspace, htab]⟩
  · rw [if_neg hplain]
    exact Or.inr (foldl_quoteStep argument [34] 0)

theorem quoteArgument_ne_nil (argument : Wide) : quoteArgument argument ≠ [] := by
  rcases quoteArgument_cases argument with ⟨hne, -, heq⟩ | heq
  · rwa [heq]
  · rw [heq]
    exact List.cons_ne_nil _ _

theorem mem_quoteArgument {argument : Wide} {c : UInt16} (h : c ∈ quoteArgument argument) :
    c ∈ argument ∨ c = 92 ∨ c = 34 := by
  rcases quoteArgument_cases argument with ⟨-, -, heq⟩ | heq
  · rw [heq] at h
    exact Or.inl h
  · rw [heq, List.mem_cons] at h
    rcases h with h | h
    · exact Or.inr (Or.inr h)
    · exact mem_escaped h

theorem zero_notMem_quoteArgument {argument : Wide} (h : (0 : UInt16) ∉ argument) :
    (0 : UInt16) ∉ quoteArgument argument := by
  intro hmem
  rcases mem_quoteArgument hmem with hmem | hmem | hmem
  · exact h hmem
  · exact absurd hmem (by decide)
  · exact absurd hmem (by decide)

theorem writes_quoteArgument (doubled : Doubled) (argument : Wide) :
    Writes windows doubled (quoteArgument argument) argument := by
  rcases quoteArgument_cases argument with ⟨hne, hbare, heq⟩ | heq
  · rw [heq]
    exact writes_bare hbare hne
  · rw [heq]
    exact writes_escaped argument

theorem behindProgram_quoteArgument {executable : Wide} (h : (34 : UInt16) ∉ executable)
    {rest : Wide} (hrest : ∀ c, rest.head? = some c → windows.separates c = true) :
    behindProgram windows false (quoteArgument executable ++ rest) = rest.tail := by
  rcases quoteArgument_cases executable with ⟨-, hbare, heq⟩ | heq
  · rw [heq, behindProgram_bare hbare, behindProgram_separator hrest]
  · rw [heq, List.cons_append, behindProgram, if_pos rfl]
    exact (behindProgram_escaped h 0 rest).trans (behindProgram_separator hrest)

/-! ## The whole line -/

theorem foldl_commandLine (arguments : List Wide) (line : Wide) :
    arguments.foldl (fun line argument => line ++ [32] ++ quoteArgument argument) line =
      line ++ arguments.flatMap fun argument => 32 :: quoteArgument argument := by
  induction arguments generalizing line with
  | nil => exact (List.append_nil line).symm
  | cons argument arguments ih =>
      rw [List.foldl_cons, ih, List.flatMap_cons, List.append_assoc, List.append_assoc,
        List.singleton_append, List.cons_append]

theorem foldl_parameters (arguments : List Wide) {line : Wide} (h : line ≠ []) :
    arguments.foldl (fun line argument =>
        (if line ≠ [] then line ++ [32] else line) ++ quoteArgument argument) line =
      line ++ arguments.flatMap fun argument => 32 :: quoteArgument argument := by
  induction arguments generalizing line with
  | nil => exact (List.append_nil line).symm
  | cons argument arguments ih =>
      rw [List.foldl_cons, if_pos h,
        ih (List.append_ne_nil_of_right_ne_nil _ (quoteArgument_ne_nil argument)),
        List.flatMap_cons, List.append_assoc, List.append_assoc, List.singleton_append,
        List.cons_append]

theorem parameters_cons (argument : Wide) (arguments : List Wide) :
    parameters (argument :: arguments) =
      quoteArgument argument ++ arguments.flatMap fun argument => 32 :: quoteArgument argument := by
  rw [parameters, List.foldl_cons, if_neg (by simp), List.nil_append,
    foldl_parameters _ (quoteArgument_ne_nil argument)]

/-- Behind the program's name stands nothing, or a space and the parameters. -/
theorem exists_commandLine (executable : Wide) (arguments : List Wide) :
    ∃ rest : Wide, commandLine executable arguments = quoteArgument executable ++ rest ∧
      (∀ c, rest.head? = some c → c = 32) ∧ rest.tail = parameters arguments := by
  rw [commandLine, foldl_commandLine]
  refine ⟨_, rfl, ?_, ?_⟩
  · cases arguments with
    | nil => exact fun c hc => by cases hc
    | cons argument arguments =>
        rintro _ ⟨⟩
        rfl
  · cases arguments with
    | nil => rfl
    | cons argument arguments =>
        rw [parameters_cons]
        rfl

theorem zero_notMem_parameters {arguments : List Wide} (h : ∀ a ∈ arguments, (0 : UInt16) ∉ a) :
    (0 : UInt16) ∉ parameters arguments := by
  cases arguments with
  | nil => exact List.not_mem_nil
  | cons argument arguments =>
      obtain ⟨hargument, harguments⟩ := List.forall_mem_cons.1 h
      rw [parameters_cons, List.mem_append, List.mem_flatMap]
      rintro (hmem | ⟨next, hnext, hmem⟩)
      · exact zero_notMem_quoteArgument hargument hmem
      · rcases List.mem_cons.1 hmem with hmem | hmem
        · exact absurd hmem (by decide)
        · exact zero_notMem_quoteArgument (harguments next hnext) hmem

theorem takeWhile_of_zero_notMem {text : Wide} (h : (0 : UInt16) ∉ text) :
    text.takeWhile (· ≠ 0) = text :=
  List.takeWhile_eq_self_iff.2 fun _ hc => decide_eq_true (ne_of_mem_of_not_mem hc h)

theorem split_parameters (doubled : Doubled) (arguments : List Wide) :
    split windows doubled .plain 0 none (parameters arguments) = arguments := by
  cases arguments with
  | nil => rfl
  | cons argument arguments =>
      rw [parameters_cons]
      exact split_joined (writes_quoteArgument doubled) (by decide) argument arguments

/-- A child gets the arguments that it was started with, with a program's name in front of them
or not, and whatever its runtime makes of a doubled quote; both copies of the quoting write the
same. -/
theorem splitArguments_quoteArgument (doubled : Doubled) (arguments : List Wide)
    (h : ∀ argument ∈ arguments, (0 : UInt16) ∉ argument) :
    splitArguments doubled (parameters arguments) = arguments ∧
      (∀ executable : Wide, (0 : UInt16) ∉ executable → (34 : UInt16) ∉ executable →
        splitCommandLine doubled (commandLine executable arguments) = arguments) ∧
      ∀ argument, Wrangler.quoteArgument argument = quoteArgument argument := by
  have hzero := zero_notMem_parameters h
  refine ⟨?_, ?_, Wrangler.quoteArgument_eq⟩
  · rw [splitArguments, takeWhile_of_zero_notMem hzero, split_parameters]
  · intro executable hexecutable hquote
    obtain ⟨rest, heq, hhead, htail⟩ := exists_commandLine executable arguments
    have hrest : (0 : UInt16) ∉ rest := by
      cases rest with
      | nil => exact List.not_mem_nil
      | cons c rest =>
          rw [List.tail_cons] at htail
          rw [List.mem_cons, hhead c rfl, htail, not_or]
          exact ⟨by decide, hzero⟩
    have hline : (0 : UInt16) ∉ quoteArgument executable ++ rest := by
      rw [List.mem_append, not_or]
      exact ⟨zero_notMem_quoteArgument hexecutable, hrest⟩
    rw [splitCommandLine, heq, takeWhile_of_zero_notMem hline,
      behindProgram_quoteArgument hquote fun c hc => by rw [hhead c hc]; rfl, htail,
      split_parameters]

theorem splitArguments_quoteArgument_sample :
    let arguments : List Wide := [[], [97, 32, 92], [92, 34], [92, 92]]
    splitArguments .delimiter (parameters arguments) = arguments ∧
      (∀ executable : Wide, (0 : UInt16) ∉ executable → (34 : UInt16) ∉ executable →
        splitCommandLine .delimiter (commandLine executable arguments) = arguments) ∧
      ∀ argument, Wrangler.quoteArgument argument = quoteArgument argument :=
  splitArguments_quoteArgument .delimiter [[], [97, 32, 92], [92, 34], [92, 92]] (by decide)

end CommandLine

end SplitHello
