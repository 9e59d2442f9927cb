import SplitHello.Lifecycle.FailOpen

/-!
# How long a failure can go unnoticed

`main` reads the flags that end its watch one after the other. A flag that is raised behind its
back is found in the next round at the latest.
-/

namespace SplitHello

namespace Lifecycle

open History Inquiry

namespace Engine

variable {setup : Setup} {s s' : Engine}

/-- The engine is watched, or is about to be taken down, or is down. -/
def beyond : MainPhase → Bool
  | .watching _ | .judging _ | .stoppingPackets _ | .joiningPackets _ | .stoppingDns _
  | .joiningDns _ | .stoppingRelay _ | .joiningRelay _ | .destroying _ _ | .returned _ => true
  | _ => false

def watches : MainPhase → Bool
  | .watching _ => true
  | _ => false

/-- Something is up, and the watch is left after so many steps of `main`: the flags are read to
the end, and, if what is up was passed already, once more from the beginning. -/
structure Leaving (setup : Setup) (n : ℕ) (s : Engine) : Prop where
  past : beyond s.main = true
  soon : ∀ t, s.main = .watching t → (∃ q ∈ setup.watched, s.flags q = true) ∧
    (t.depth < n ∧ t.Ends Explained (fun result _ => result = true) s.flags ∨
      t.depth + setup.watched.length + 1 < n)

theorem lasting_true : Lasting fun (result : Bool) (_ : Flag → Bool) => result = true :=
  fun _ _ _ _ h => h

theorem Leaving.otherStep {n : ℕ} (h : Leaving setup n s) (event : EngineEvent) :
    Leaving setup n (s.otherStep setup event) := by
  have hflags := flags_otherStep setup s event
  constructor
  · rw [main_otherStep]
    exact h.past
  · rw [main_otherStep]
    intro t ht
    obtain ⟨⟨q, hq, hup⟩, hsoon⟩ := h.soon t ht
    refine ⟨⟨q, hq, up_of_le hflags hup⟩, ?_⟩
    rcases hsoon with ⟨hdepth, hends⟩ | hdepth
    · exact Or.inl ⟨hdepth, hends.mono lasting_true hflags⟩
    · exact Or.inr hdepth

/-- One step of `main` is one step less. -/
theorem Leaving.mainStep {n : ℕ} (hsound : s.Sound setup) (h : Leaving setup n s) (ok : Bool) :
    Leaving setup (n - 1) (s.mainStep setup ok) := by
  have hleft {s' : Engine} (hs' : beyond s'.main = true) (hwatch : watches s'.main = false) :
      Leaving setup (n - 1) s' := by
    refine ⟨hs', fun t ht => ?_⟩
    rw [ht] at hwatch
    cases hwatch
  have hnot {phase : MainPhase} (hm : s.main = phase) (hphase : beyond phase = false) :
      Leaving setup (n - 1) (s.mainStep setup ok) := by
    have hpast := h.past
    rw [hm, hphase] at hpast
    cases hpast
  cases hm : s.main with
  | watching t =>
      obtain ⟨hup, hsoon⟩ := h.soon t hm
      have hexplained := hsound.explained (by rw [hm]; rfl)
      unfold Engine.mainStep
      rw [hm]
      cases t with
      | done result =>
          cases result with
          | true => exact hleft rfl rfl
          | false =>
              -- all flags were read before one was up: once more from the beginning
              refine ⟨rfl, fun t ht => ?_⟩
              cases ht
              rcases hsoon with ⟨-, hends⟩ | hdepth
              · cases hends
              · refine ⟨hup, Or.inl ⟨?_, ends_anyOf_true hup⟩⟩
                rw [depth_anyOf]
                rw [depth] at hdepth
                omega
      | ask q yes no =>
          refine ⟨rfl, fun t ht => ?_⟩
          cases ht
          have hless := depth_turn s.flags (t := ask q yes no) (Nat.succ_ne_zero _)
          refine ⟨hup, ?_⟩
          rcases hsoon with ⟨hdepth, hends⟩ | hdepth
          · exact Or.inl ⟨by omega, hends.turn hexplained⟩
          · exact Or.inr (by omega)
  | judging t =>
      unfold Engine.mainStep
      rw [hm]
      cases t with
      | done code => exact hleft rfl rfl
      | ask q yes no => exact hleft rfl rfl
  | stoppingPackets code =>
      unfold Engine.mainStep
      rw [hm]
      exact hleft rfl rfl
  | joiningPackets code =>
      unfold Engine.mainStep
      rw [hm]
      dsimp only
      split
      · exact hleft rfl rfl
      · exact hleft (by rw [hm]; rfl) (by rw [hm]; rfl)
  | stoppingDns code =>
      unfold Engine.mainStep
      rw [hm]
      exact hleft rfl rfl
  | joiningDns code =>
      unfold Engine.mainStep
      rw [hm]
      dsimp only
      split
      · exact hleft rfl rfl
      · exact hleft (by rw [hm]; rfl) (by rw [hm]; rfl)
  | stoppingRelay code =>
      unfold Engine.mainStep
      rw [hm]
      dsimp only
      split
      · exact hleft rfl rfl
      · exact hleft rfl rfl
  | joiningRelay code =>
      unfold Engine.mainStep
      rw [hm]
      dsimp only
      split
      · exact hleft rfl rfl
      · exact hleft (by rw [hm]; rfl) (by rw [hm]; rfl)
  | destroying code stop =>
      unfold Engine.mainStep
      rw [hm]
      cases stop <;> exact hleft rfl rfl
  | returned code =>
      unfold Engine.mainStep
      rw [hm]
      exact hleft (by rw [hm]; rfl) (by rw [hm]; rfl)
  | _ => exact hnot hm rfl

theorem Leaving.step {n : ℕ} (hsound : s.Sound setup) (h : Leaving setup n s)
    (event : EngineEvent) :
    Leaving setup (if isMain event then n - 1 else n) (Engine.step setup s event) := by
  rcases step_cases setup s event with ⟨hs, code, hm⟩ | ⟨hmain, ok, hs⟩ | ⟨hmain, hs⟩
  · rw [hs]
    exact ⟨h.past, fun t ht => by rw [hm] at ht; cases ht⟩
  · rw [hs, if_pos hmain]
    exact h.mainStep hsound ok
  · rw [hs, if_neg (by rw [hmain]; exact Bool.false_ne_true)]
    exact h.otherStep event

theorem Leaving.run {n : ℕ} (hsound : s.Sound setup) (h : Leaving setup n s)
    {events : List EngineEvent} (hsteps : n ≤ events.countP isMain) (t : Inquiry Flag Bool) :
    (History.run (Engine.step setup) s events).main ≠ .watching t := by
  induction events generalizing s n with
  | nil =>
      intro ht
      obtain ⟨-, ⟨hdepth, -⟩ | hdepth⟩ := h.soon t ht
      · exact absurd (Nat.lt_of_lt_of_le hdepth hsteps) (Nat.not_lt_zero _)
      · exact absurd (Nat.lt_of_lt_of_le hdepth hsteps) (Nat.not_lt_zero _)
  | cons event events ih =>
      refine ih (hsound.step event) (h.step hsound event) ?_
      rw [List.countP_cons] at hsteps
      split
      · rw [if_pos ‹_›] at hsteps
        omega
      · rwa [if_neg ‹_›, Nat.add_zero] at hsteps

/-- A failure or a request to stop is not overlooked: once one of the watched flags is up, `main`
is out of the watch after reading those that are left, and, if it had passed the flag already,
once more all of them; it takes the diversion down next. -/
theorem engine_lets_go (setup : Setup) (events : List EngineEvent) {t : Inquiry Flag Bool}
    (ht : (run setup events).main = .watching t)
    (hup : ∃ q ∈ setup.watched, (run setup events).flags q = true) {after : List EngineEvent}
    (hsteps : t.depth + setup.watched.length + 2 ≤ after.countP isMain)
    (t' : Inquiry Flag Bool) : (run setup (events ++ after)).main ≠ .watching t' := by
  have hrefusal : setup.refusal = none := by
    cases hrefusal : setup.refusal with
    | none => rfl
    | some code =>
        rw [run_refused hrefusal, start, hrefusal] at ht
        cases ht
  have hleaving : Leaving setup (t.depth + setup.watched.length + 2) (run setup events) := by
    refine ⟨by rw [ht]; rfl, fun t' ht' => ?_⟩
    rw [ht] at ht'
    cases ht'
    exact ⟨hup, Or.inr (Nat.lt_succ_self _)⟩
  rw [Engine.run, run_append]
  exact hleaving.run (run_sound hrefusal events) hsteps t'

theorem engine_lets_go_sample :
    (run sampleSetup (sampleRun ++ List.replicate 12 (.main true))).main ≠
      .watching (anyOf sampleSetup.watched) :=
  engine_lets_go sampleSetup sampleRun (t := anyOf sampleSetup.watched) (by decide +kernel)
    (by decide +kernel) (by decide +kernel) (anyOf sampleSetup.watched)

end Engine

end Lifecycle

end SplitHello
