import SplitHello.Config
import SplitHello.Process.Rules

/-!
# The process scope, from the file to the packet filter

The engine reads the include list from the file, refuses to start when the list
is flagged, appends the patterns of the command line and hands everything to the
rules. Each layer drops entries by a criterion of its own; here are the inputs
for which the composition keeps a given include list from turning into "every
process".
-/

namespace SplitHello

namespace Process

open ByteString Json Config

variable (protect unprotect : Bytes → Bytes)

/-- What the command line accepts as a pattern. -/
def validProcessPattern (pattern : Bytes) : Bool :=
  0 < pattern.length && pattern.length ≤ 1024

/-- The rules the engine starts with; none when it refuses to start. -/
def startRules (config : Config) (cliInclude cliExclude : List Bytes) : Option Rules :=
  if config.processIncludeInvalid then none
  else
    some (Rules.ofLists (config.processInclude ++ cliInclude) (config.processExclude ++ cliExclude))

/-- Whether the flows of a process with this image are intercepted. -/
def engineIntercepts (config : Config) (cliInclude cliExclude : List Bytes) (image : Bytes) :
    Bool :=
  match startRules config cliInclude cliExclude with
  | none => false
  | some rules => rules.intercepts image

/-- The file gives the include list as an array that does not close at once. -/
def GivesIncludeArray (content : Bytes) : Prop :=
  ∃ c rest, findValue includeKey content = some (91 :: rest) ∧ (skipWs rest).head? = some c ∧
    c ≠ 93

/-- The engine refuses, or has an include pattern, or its rules allow nothing. -/
def FailsClosed (config : Config) (cliInclude cliExclude : List Bytes) : Prop :=
  match startRules config cliInclude cliExclude with
  | none => True
  | some rules => rules.includes ≠ [] ∨
      rules.includeListInvalid ∧ ∀ image, rules.allowsImage image = false

/-! ## What flags the list -/

/-- The flag is set when the file has strings for the list and none can be used. -/
theorem processIncludeInvalid_iff (self : Config) (content : Bytes) :
    (load unprotect self content).processIncludeInvalid ↔
      getStringArray content includeKey ≠ [] ∧
        ∀ rule ∈ getStringArray content includeKey, ¬ usableRule rule := by
  have hmaximum : ¬ Config.maximumRules = 0 := by decide
  simp only [load, readProcessRules, Bool.and_eq_true, List.isEmpty_iff, Bool.not_eq_true',
    List.isEmpty_eq_false_iff, List.take_eq_nil_iff, List.filter_eq_nil_iff, hmaximum, false_or]
  exact and_comm

theorem allowsImage_of_includeListInvalid {rules : Rules} (h : rules.includeListInvalid)
    (image : Bytes) : rules.allowsImage image = false := by
  rw [Rules.allowsImage, if_pos h]

/-- Rules made from lists do not treat the include list as absent exactly when it
holds a pattern that is not blank. -/
theorem ofLists_closed_iff (includes excludes : List Bytes) :
    ((Rules.ofLists includes excludes).includes ≠ [] ∨
        (Rules.ofLists includes excludes).includeListInvalid ∧
          ∀ image, (Rules.ofLists includes excludes).allowsImage image = false) ↔
      ∃ rule ∈ includes, ¬ Blank rule := by
  rw [← normalizeRules_trace]
  constructor
  · rintro (h | ⟨h, -⟩)
    · exact Or.inl h
    · right
      simp only [Rules.includeListInvalid, Bool.and_eq_true, decide_eq_true_eq] at h
      exact h.2
  · intro h
    by_cases hempty : (normalizeRules includes).1 = []
    · right
      have hrejected := h.resolve_left fun hne => hne hempty
      have hinvalid : (Rules.ofLists includes excludes).includeListInvalid := by
        simp [Rules.includeListInvalid, Rules.ofLists, hempty, hrejected]
      exact ⟨hinvalid, allowsImage_of_includeListInvalid hinvalid⟩
    · exact Or.inl hempty

/-- The scope fails closed exactly when all strings of the list are unusable (and
there is one), or when one of the 128 that the file contributes, or one of the
command line, is more than blanks. -/
theorem failsClosed_iff (content : Bytes) (cliInclude cliExclude : List Bytes) :
    FailsClosed (load unprotect {} content) cliInclude cliExclude ↔
      (getStringArray content includeKey ≠ [] ∧
          ∀ rule ∈ getStringArray content includeKey, ¬ usableRule rule) ∨
        ∃ rule ∈ ((getStringArray content includeKey).filter usableRule).take 128 ++ cliInclude,
          ¬ Blank rule := by
  rw [← processIncludeInvalid_iff unprotect {} content, FailsClosed, startRules]
  by_cases hinvalid : (load unprotect {} content).processIncludeInvalid
  · simp [hinvalid]
  · rw [if_neg hinvalid]
    dsimp only
    rw [ofLists_closed_iff, or_iff_right hinvalid]
    rfl

/-- Two files that give an include list: one blank pattern, and a number in front
of the pattern. -/
def blankInclude : Bytes := ofString "\x7b\"process_include\": [\"   \"]\x7d"
def numberInclude : Bytes := ofString "\x7b\"process_include\": [1, \"chrome.exe\"]\x7d"

theorem startRules_blankInclude :
    startRules (load id {} blankInclude) [ofString " "] [] =
      some (Rules.ofLists [ofString "   ", ofString " "] []) := by
  decide +kernel

theorem startRules_numberInclude :
    startRules (load id {} numberInclude) [] [] = some (Rules.ofLists [] []) := by
  decide +kernel

/-- With either file every process is intercepted; a blank pattern on the command
line changes nothing. -/
theorem failsClosed_fails :
    (GivesIncludeArray blankInclude ∧ validProcessPattern (ofString " ") ∧
        ¬ FailsClosed (load id {} blankInclude) [ofString " "] [] ∧
        engineIntercepts (load id {} blankInclude) [ofString " "] [] (ofString "curl.exe") =
          true) ∧
      GivesIncludeArray numberInclude ∧ ¬ FailsClosed (load id {} numberInclude) [] [] ∧
        engineIntercepts (load id {} numberInclude) [] [] (ofString "curl.exe") = true := by
  refine ⟨⟨⟨34, _, by rfl, by rfl, by decide⟩, by decide, ?_, ?_⟩,
    ⟨49, _, by rfl, by rfl, by decide⟩, ?_, ?_⟩
  · rw [FailsClosed, startRules_blankInclude]
    dsimp only
    rw [ofLists_closed_iff]
    decide
  · rw [engineIntercepts, startRules_blankInclude]
    rfl
  · rw [FailsClosed, startRules_numberInclude]
    dsimp only
    rw [ofLists_closed_iff]
    decide
  · rw [engineIntercepts, startRules_numberInclude]
    rfl

/-! ## Saving and loading again -/

/-- The configuration of a later start, after the DNS mode was changed and the file
saved. -/
def reloaded (mode : DnsMode) (content : Bytes) : Config :=
  load unprotect {} (saveText protect { load unprotect {} content with dnsMode := mode })

/-- Neither the flag nor the intercepted images change by saving. -/
def ScopeKept (mode : DnsMode) (content : Bytes) : Prop :=
  ((load unprotect {} content).processIncludeInvalid →
      (reloaded protect unprotect mode content).processIncludeInvalid) ∧
    ∀ cliInclude cliExclude image,
      engineIntercepts (reloaded protect unprotect mode content) cliInclude cliExclude image =
        engineIntercepts (load unprotect {} content) cliInclude cliExclude image

theorem readProcessRules_readProcessRules (content key : Bytes) :
    ((readProcessRules content key).filter usableRule).take Config.maximumRules =
      readProcessRules content key := by
  have hfilter : (readProcessRules content key).filter usableRule =
      readProcessRules content key := by
    rw [List.filter_eq_self]
    intro rule hrule
    exact (List.mem_filter.1 (List.mem_of_mem_take hrule)).2
  rw [hfilter, List.take_of_length_le]
  exact List.length_take_le _ _

theorem reloaded_processInclude (mode : DnsMode) (content : Bytes) :
    (reloaded protect unprotect mode content).processInclude =
      (load unprotect {} content).processInclude := by
  rw [reloaded]
  simp only [load]
  rw [readProcessRules, getStringArray_saveText_include]
  exact readProcessRules_readProcessRules content includeKey

theorem reloaded_processExclude (mode : DnsMode) (content : Bytes) :
    (reloaded protect unprotect mode content).processExclude =
      (load unprotect {} content).processExclude := by
  rw [reloaded]
  simp only [load]
  rw [readProcessRules, getStringArray_saveText_exclude]
  exact readProcessRules_readProcessRules content excludeKey

/-- The flag is never set after a save: the rules written are all usable. -/
theorem reloaded_processIncludeInvalid (mode : DnsMode) (content : Bytes) :
    (reloaded protect unprotect mode content).processIncludeInvalid = false := by
  rw [Bool.eq_false_iff, Ne, reloaded, processIncludeInvalid_iff, getStringArray_saveText_include]
  rintro ⟨hne, hunusable⟩
  obtain ⟨rule, hrule⟩ := List.exists_mem_of_ne_nil _ hne
  exact hunusable rule hrule (List.mem_filter.1 (List.mem_of_mem_take hrule)).2

/-- Saving keeps the scope exactly when the flag was not set by the file: not all
of its strings are unusable, or it has none. -/
theorem scopeKept_iff (mode : DnsMode) (content : Bytes) :
    ScopeKept protect unprotect mode content ↔
      ¬ (getStringArray content includeKey ≠ [] ∧
        ∀ rule ∈ getStringArray content includeKey, ¬ usableRule rule) := by
  rw [← processIncludeInvalid_iff unprotect {} content]
  constructor
  · rintro ⟨hflag, -⟩ hinvalid
    have hlost := reloaded_processIncludeInvalid protect unprotect mode content
    rw [hflag hinvalid] at hlost
    cases hlost
  · intro hinvalid
    refine ⟨fun h => absurd h hinvalid, ?_⟩
    intro cliInclude cliExclude image
    rw [engineIntercepts, engineIntercepts, startRules, startRules, if_neg hinvalid, if_neg]
    · rw [reloaded_processInclude, reloaded_processExclude]
    · rw [reloaded_processIncludeInvalid]
      decide

/-- A file whose list is one empty string. -/
def emptyInclude : Bytes := ofString "\x7b\"process_include\": [\"\"]\x7d"

/-- Refused before the save, every process intercepted after it. -/
theorem scopeKept_fails :
    (load id {} emptyInclude).processIncludeInvalid = true ∧
      ¬ ScopeKept id id .system emptyInclude ∧
      engineIntercepts (load id {} emptyInclude) [] [] (ofString "curl.exe") = false ∧
      engineIntercepts (reloaded id id .system emptyInclude) [] [] (ofString "curl.exe") =
        true := by
  have hflag : (load id {} emptyInclude).processIncludeInvalid = true := by decide +kernel
  have hrules : startRules (reloaded id id .system emptyInclude) [] [] =
      some (Rules.ofLists [] []) := by decide +kernel
  refine ⟨hflag, ?_, ?_, ?_⟩
  · intro hkept
    have hlost := reloaded_processIncludeInvalid id id .system emptyInclude
    rw [hkept.1 hflag] at hlost
    cases hlost
  · rw [engineIntercepts, startRules, if_pos hflag]
  · rw [engineIntercepts, hrules]
    rfl

end Process

end SplitHello
