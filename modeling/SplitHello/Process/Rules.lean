import SplitHello.Library.ByteString
import Mathlib.Data.List.TakeWhile

/-!
# Process rules

Include and exclude patterns over image paths. A list of patterns is normalised
once; blank patterns vanish silently, and a pattern that cannot be kept for
another reason is counted, so that an include list that lost all its patterns
can be told from one that never had any.
-/

namespace SplitHello

namespace Process

open ByteString

def maximumRules : ℕ := 128
def maximumRuleLength : ℕ := 1024

/-- Blank, tab, carriage return, line feed. -/
def isBlank (c : UInt8) : Bool := c = 32 || c = 9 || c = 13 || c = 10

/-- A pattern with nothing but blanks in it. -/
def Blank (value : Bytes) : Prop := ∀ c ∈ value, isBlank c

instance (value : Bytes) : Decidable (Blank value) :=
  decidable_of_iff (value.all isBlank) (by rw [Blank, List.all_eq_true])

def trim (value : Bytes) : Bytes :=
  ((value.dropWhile isBlank).reverse.dropWhile isBlank).reverse

def normalize (value : Bytes) : Bytes :=
  let value := trim value
  if value.length > maximumRuleLength then []
  else (lower value).map fun c => if c = 47 then 92 else c

/-- What one pattern adds: itself, unless it is blank or known already, or one
more rejection. -/
def keepRule (acc : List Bytes × ℕ) (value : Bytes) : List Bytes × ℕ :=
  let normalized := normalize value
  if normalized = [] then
    if Blank value then acc else (acc.1, acc.2 + 1)
  else if normalized ∈ acc.1 then acc
  else if acc.1.length = maximumRules then (acc.1, acc.2 + 1)
  else (acc.1 ++ [normalized], acc.2)

/-- The normalised patterns, and how many that were not blank could not be kept. -/
def normalizeRules (values : List Bytes) : List Bytes × ℕ := values.foldl keepRule ([], 0)

/-- The matching loop: what is left of the pattern and of the text, and for the
last star the pattern behind it with the text to retry from. -/
def wildcardLoop : ℕ → Bytes → Bytes → Option (Bytes × Bytes) → Bool
  | 0, _, _, _ => false
  | _ + 1, pattern, [], _ => pattern.all (· = 42)
  | fuel + 1, pattern, c :: text, star =>
      match pattern with
      | p :: pattern =>
          if p = 63 ∨ p = c then wildcardLoop fuel pattern text star
          else if p = 42 then wildcardLoop fuel pattern (c :: text) (some (pattern, c :: text))
          else
            match star with
            | some (behind, retry) =>
                wildcardLoop fuel behind retry.tail (some (behind, retry.tail))
            | none => false
      | [] =>
          match star with
          | some (behind, retry) =>
              wildcardLoop fuel behind retry.tail (some (behind, retry.tail))
          | none => false

/-- `?` stands for one byte, `*` for any number of them. The fuel covers one pass
over pattern and text for every position a star can be retried from. -/
def wildcardMatch (pattern text : Bytes) : Bool :=
  wildcardLoop ((text.length + 2) * (pattern.length + text.length + 1)) pattern text none

def matchesAny (patterns : List Bytes) (fullPath basename : Bytes) : Bool :=
  patterns.any fun pattern => wildcardMatch pattern (if 92 ∈ pattern then fullPath else basename)

structure Rules where
  includes : List Bytes := []
  excludes : List Bytes := []
  rejectedIncludes : ℕ := 0
  rejectedExcludes : ℕ := 0
  deriving DecidableEq, Repr

namespace Rules

def ofLists (includes excludes : List Bytes) : Rules where
  includes := (normalizeRules includes).1
  excludes := (normalizeRules excludes).1
  rejectedIncludes := (normalizeRules includes).2
  rejectedExcludes := (normalizeRules excludes).2

/-- An include list was given and no pattern of it survived. -/
def includeListInvalid (rules : Rules) : Bool :=
  rules.includes.isEmpty && rules.rejectedIncludes ≠ 0

def enabled (rules : Rules) : Bool :=
  !rules.includes.isEmpty || !rules.excludes.isEmpty || rules.includeListInvalid

def basename (fullPath : Bytes) : Bytes := (fullPath.reverse.takeWhile (· ≠ 92)).reverse

def allowsImage (rules : Rules) (imagePath : Bytes) : Bool :=
  if rules.includeListInvalid then false
  else
    let fullPath := normalize imagePath
    if fullPath = [] then false
    else if matchesAny rules.excludes fullPath (basename fullPath) then false
    else rules.includes.isEmpty || matchesAny rules.includes fullPath (basename fullPath)

/-- The filter's decision about a new flow whose owner is resolved to an image;
no image stands for an owner that could not be found. -/
def intercepts (rules : Rules) (image : Bytes) : Bool :=
  if !rules.enabled then true else image ≠ [] && rules.allowsImage image

end Rules

/-! ## Which lists come out empty -/

theorem trim_eq_nil (value : Bytes) : trim value = [] ↔ Blank value := by
  have hblank (l : Bytes) : l.dropWhile isBlank = [] ↔ Blank l := List.dropWhile_eq_nil_iff
  rw [trim, List.reverse_eq_nil_iff, hblank, ← hblank value]
  constructor
  · intro h
    by_contra hne
    have hhead := List.head_dropWhile_not isBlank hne
    rw [h _ (List.mem_reverse.2 (List.head_mem hne))] at hhead
    cases hhead
  · intro h
    rw [h]
    simp [Blank]

theorem normalize_of_blank {value : Bytes} (h : Blank value) : normalize value = [] := by
  rw [normalize, (trim_eq_nil value).2 h]
  rfl

theorem keepRule_of_blank (acc : List Bytes × ℕ) {value : Bytes} (h : Blank value) :
    keepRule acc value = acc := by
  simp [keepRule, normalize_of_blank h, h]

/-- A pattern with something in it leaves a trace. -/
theorem keepRule_of_not_blank (acc : List Bytes × ℕ) {value : Bytes} (h : ¬ Blank value) :
    (keepRule acc value).1 ≠ [] ∨ (keepRule acc value).2 ≠ 0 := by
  rw [keepRule]
  split
  · exact Or.inr (Nat.succ_ne_zero _)
  · split
    · exact Or.inl (List.ne_nil_of_mem ‹_›)
    · split
      · exact Or.inr (Nat.succ_ne_zero _)
      · exact Or.inl (by simp)

theorem foldl_keepRule (values : List Bytes) (acc : List Bytes × ℕ) :
    (values.foldl keepRule acc).1 ≠ [] ∨ (values.foldl keepRule acc).2 ≠ 0 ↔
      (acc.1 ≠ [] ∨ acc.2 ≠ 0) ∨ ∃ value ∈ values, ¬ Blank value := by
  induction values generalizing acc with
  | nil => simp
  | cons value values ih =>
      rw [List.foldl_cons, ih]
      by_cases hblank : Blank value
      · rw [keepRule_of_blank acc hblank]
        simp [hblank]
      · have htrace := keepRule_of_not_blank acc hblank
        simp [htrace, hblank]

/-- Something survives of a list, or is counted as rejected, exactly when the list
holds a pattern that is not blank. -/
theorem normalizeRules_trace (values : List Bytes) :
    (normalizeRules values).1 ≠ [] ∨ (normalizeRules values).2 ≠ 0 ↔
      ∃ value ∈ values, ¬ Blank value := by
  rw [normalizeRules, foldl_keepRule]
  simp

end Process

end SplitHello
