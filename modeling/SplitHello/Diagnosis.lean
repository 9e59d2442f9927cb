import SplitHello.Strategy.Plan

/-!
# Differential diagnosis

The verdict on one connection's attempts. A timeout or reset by itself is
ambiguous; what is judged is the difference between the untouched baseline and
the profile that got through, together with what the caller knew beforehand.
-/

namespace SplitHello

namespace Diagnosis

open ByteString Strategy

/-- How one attempt ended. -/
inductive ProbeSignal
  | serverHello
  | alert
  | timeout
  | reset
  | closed
  | unexpected
  deriving DecidableEq, Repr

/-- The classification of a connection. -/
inductive Kind
  | unknown
  | noInterference
  | sniInterferenceLikely
  | tlsIncompatible
  | transportFailure
  | throttlingSuspected
  | learnedProfile
  | transientFailure
  | interferenceSuspected
  deriving DecidableEq, Repr

def Kind.name : Kind → Bytes
  | .unknown => ofString "unknown"
  | .noInterference => ofString "no-interference"
  | .sniInterferenceLikely => ofString "sni-interference-likely"
  | .tlsIncompatible => ofString "tls-incompatible"
  | .transportFailure => ofString "transport-failure"
  | .throttlingSuspected => ofString "throttling-suspected"
  | .learnedProfile => ofString "learned-profile"
  | .transientFailure => ofString "transient-failure"
  | .interferenceSuspected => ofString "interference-suspected"

structure Attempt where
  profile : Profile
  signal : ProbeSignal
  elapsedMs : ℕ
  deriving DecidableEq, Repr

structure Verdict where
  kind : Kind := .unknown
  confidence : ℕ := 0
  winningProfile : Option Profile := none
  deriving DecidableEq, Repr

/-- What was known before the attempts. -/
structure Context where
  rememberedProfile : Option Profile := none
  baselineRecentlyHealthy : Bool := false
  deriving DecidableEq, Repr

def slowServerHelloMs : ℕ := 1500

def findAttempt (attempts : List Attempt) (profile : Profile) : Option Attempt :=
  attempts.find? fun a => a.profile = profile

def findSuccess (attempts : List Attempt) : Option Attempt :=
  attempts.find? fun a => a.signal = .serverHello

def isTransportFailure (signal : ProbeSignal) : Bool :=
  signal = .timeout || signal = .reset || signal = .closed

/-- The proven bypass failed together with the baseline and a third profile got
through: the path blinked. -/
def sharedHiccup (attempts : List Attempt) (context : Context) (success baseline : Attempt) :
    Bool :=
  match context.rememberedProfile with
  | none => false
  | some remembered =>
      remembered ≠ success.profile &&
        match findAttempt attempts remembered with
        | none => false
        | some attempt =>
            isTransportFailure attempt.signal && isTransportFailure baseline.signal

/-- The verdict when some attempt drew a ServerHello. -/
def inferSuccess (attempts : List Attempt) (context : Context) (success : Attempt) : Verdict :=
  if success.profile = .none then
    if success.elapsedMs ≥ slowServerHelloMs then
      ⟨.throttlingSuspected, 55, some success.profile⟩
    else ⟨.noInterference, 95, some success.profile⟩
  else
    match findAttempt attempts .none with
    | none => ⟨.learnedProfile, 65, some success.profile⟩
    | some baseline =>
        if baseline.signal = .serverHello then ⟨.learnedProfile, 65, some success.profile⟩
        else if context.baselineRecentlyHealthy then
          ⟨.transientFailure, 70, some success.profile⟩
        else if sharedHiccup attempts context success baseline then
          ⟨.transientFailure, 60, some success.profile⟩
        else
          ⟨.sniInterferenceLikely, if baseline.signal = .alert then 70 else 92,
            some success.profile⟩

def infer (attempts : List Attempt) (context : Context) : Verdict :=
  if attempts = [] then {}
  else
    match findSuccess attempts with
    | some success => inferSuccess attempts context success
    | none =>
        if attempts.any fun a => a.signal = .alert then ⟨.tlsIncompatible, 75, none⟩
        else if attempts.all fun a => isTransportFailure a.signal then
          ⟨.transportFailure, 45, none⟩
        else ⟨.unknown, 25, none⟩

theorem infer_of_findSuccess {attempts : List Attempt} {context : Context} {success : Attempt}
    (h : findSuccess attempts = some success) :
    infer attempts context = inferSuccess attempts context success := by
  unfold infer
  have hne : attempts ≠ [] := by
    rintro rfl
    cases h
  rw [if_neg hne, h]

/-- A differential needs a baseline that was tried and failed, on a path whose
baseline was not recently healthy. -/
theorem inferSuccess_sniInterferenceLikely {attempts : List Attempt} {context : Context}
    {success : Attempt}
    (h : (inferSuccess attempts context success).kind = .sniInterferenceLikely) :
    success.profile ≠ .none ∧ context.baselineRecentlyHealthy = false ∧
      ∃ baseline, findAttempt attempts .none = some baseline ∧
        baseline.signal ≠ .serverHello ∧
        sharedHiccup attempts context success baseline = false := by
  unfold inferSuccess at h
  split at h
  · split at h <;> cases h
  rename_i hprofile
  split at h
  · cases h
  rename_i baseline hbaseline
  split at h
  · cases h
  rename_i hsignal
  split at h
  · cases h
  rename_i hhealthy
  split at h
  · cases h
  rename_i hhiccup
  exact ⟨hprofile, by simpa using hhealthy, baseline, hbaseline, hsignal, by simpa using hhiccup⟩

/-- What a profile other than the baseline can win with. -/
theorem inferSuccess_kind {attempts : List Attempt} {context : Context} {success : Attempt}
    (h : success.profile ≠ .none) :
    (inferSuccess attempts context success).kind = .sniInterferenceLikely ∨
      (inferSuccess attempts context success).kind = .learnedProfile ∨
      (inferSuccess attempts context success).kind = .transientFailure := by
  rw [inferSuccess, if_neg h]
  split
  · exact Or.inr (Or.inl rfl)
  · split
    · exact Or.inr (Or.inl rfl)
    · split
      · exact Or.inr (Or.inr rfl)
      · split
        · exact Or.inr (Or.inr rfl)
        · exact Or.inl rfl

/-- A differential rests on an untouched attempt that failed, on a path whose baseline was
not recently healthy. -/
theorem infer_sniInterferenceLikely {attempts : List Attempt} {context : Context}
    (h : (infer attempts context).kind = .sniInterferenceLikely) :
    (∃ baseline ∈ attempts, baseline.profile = .none ∧ baseline.signal ≠ .serverHello) ∧
      context.baselineRecentlyHealthy = false := by
  cases hsuccess : findSuccess attempts with
  | none =>
      rw [infer, hsuccess] at h
      dsimp only at h
      split at h
      · cases h
      · split at h
        · cases h
        · split at h <;> cases h
  | some success =>
      rw [infer_of_findSuccess hsuccess] at h
      obtain ⟨-, hhealthy, baseline, hbaseline, hsignal, -⟩ := inferSuccess_sniInterferenceLikely h
      refine ⟨⟨baseline, List.mem_of_find?_eq_some hbaseline, ?_, hsignal⟩, hhealthy⟩
      simpa using List.find?_some hbaseline

/-- Among attempts with different profiles, the one of a profile is the one found. -/
theorem findAttempt_of_mem {attempts : List Attempt} {a : Attempt}
    (hnodup : (attempts.map Attempt.profile).Nodup) (ha : a ∈ attempts) :
    findAttempt attempts a.profile = some a := by
  induction attempts with
  | nil => cases ha
  | cons b attempts ih =>
      obtain ⟨hnotMem, hnodup⟩ := List.nodup_cons.1 hnodup
      rw [findAttempt, List.find?_cons]
      rcases List.mem_cons.1 ha with rfl | ha
      · simp
      · have hne : b.profile ≠ a.profile := by
          intro heq
          exact hnotMem (heq ▸ List.mem_map_of_mem ha)
        simp only [hne, decide_false]
        exact ih hnodup ha

theorem findSuccess_concat {attempts : List Attempt} {success : Attempt}
    (hattempts : ∀ a ∈ attempts, a.signal ≠ .serverHello)
    (hsuccess : success.signal = .serverHello) :
    findSuccess (attempts ++ [success]) = some success := by
  rw [findSuccess, List.find?_append, List.find?_eq_none.2]
  · simp [hsuccess]
  · simpa using hattempts

/-- When the proven bypass and the baseline both lost their connection, a third profile
that gets through is no evidence. -/
theorem infer_sharedHiccup {attempts : List Attempt} {context : Context}
    {success baseline winner : Attempt}
    (hnodup : ((attempts ++ [success]).map Attempt.profile).Nodup)
    (hattempts : ∀ a ∈ attempts, a.signal ≠ .serverHello)
    (hsuccess : success.signal = .serverHello)
    (hbaseline : baseline ∈ attempts) (hnone : baseline.profile = .none)
    (hlost : isTransportFailure baseline.signal = true)
    (hwinner : winner ∈ attempts) (hremembered : context.rememberedProfile = some winner.profile)
    (hlost' : isTransportFailure winner.signal = true) :
    (infer (attempts ++ [success]) context).kind = .transientFailure := by
  have hother : ∀ a ∈ attempts, a.profile ≠ success.profile := by
    intro a ha heq
    rw [List.map_append, List.nodup_append] at hnodup
    exact hnodup.2.2 _ (List.mem_map_of_mem ha) _ (by simp) heq
  have hfound : findAttempt (attempts ++ [success]) .none = some baseline := by
    rw [← hnone]
    exact findAttempt_of_mem hnodup (List.mem_append_left _ hbaseline)
  have hfound' : findAttempt (attempts ++ [success]) winner.profile = some winner :=
    findAttempt_of_mem hnodup (List.mem_append_left _ hwinner)
  have hne : success.profile ≠ .none := by
    rw [← hnone]
    exact (hother baseline hbaseline).symm
  rw [infer_of_findSuccess (findSuccess_concat hattempts hsuccess), inferSuccess, if_neg hne,
    hfound]
  dsimp only
  rw [if_neg (hattempts baseline hbaseline)]
  split
  · rfl
  · rw [if_pos]
    simp [sharedHiccup, hremembered, hfound', hlost, hlost', hother winner hwinner]

end Diagnosis

end SplitHello
