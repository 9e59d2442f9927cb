import SplitHello.Dns.Question

/-!
# What the walk looks at

The walk reads names, types and lengths, never a TTL, and nothing below the
question count. So a message stays well formed, with the same records, when its
id or its TTLs change; and a message cut behind its question stays well formed
with no records at all.
-/

namespace SplitHello

namespace Dns

open ByteString

/-! ## One name, one section -/

theorem skipNameLoop_bounds {m : Memory} {length fuel offset offset' : ℕ}
    (h : skipNameLoop m length fuel offset = some offset') :
    offset < offset' ∧ offset < length := by
  induction fuel generalizing offset with
  | zero => cases h
  | succ fuel ih =>
      rw [skipNameLoop] at h
      split at h
      · cases h
      · rename_i hinside
        refine ⟨?_, by omega⟩
        dsimp only at h
        split at h
        · cases h
          omega
        · split at h
          · split at h
            · cases h
            · cases h
              omega
          · split at h
            · cases h
            · have := (ih h).1
              omega

theorem skipNameLoop_congr {m m' : Memory} {length fuel offset offset' : ℕ}
    (h : skipNameLoop m length fuel offset = some offset')
    (hm : ∀ i, offset ≤ i → i < offset' → m i = m' i) :
    skipNameLoop m' length fuel offset = some offset' := by
  induction fuel generalizing offset with
  | zero => cases h
  | succ fuel ih =>
      have hbounds := skipNameLoop_bounds h
      have hfirst := hm offset (Nat.le_refl _) hbounds.1
      rw [skipNameLoop] at h ⊢
      rw [← hfirst]
      split at h
      · cases h
      · rw [if_neg ‹_›]
        dsimp only at h ⊢
        split at h
        · rw [if_pos ‹_›]
          exact h
        · rw [if_neg ‹_›]
          split at h
          · rw [if_pos ‹_›]
            exact h
          · rw [if_neg ‹_›]
            split at h
            · cases h
            · rw [if_neg ‹_›]
              exact ih h fun i hi hi' => hm i (by omega) hi'

theorem skipName_lt {m : Memory} {length offset offset' : ℕ}
    (h : skipName m length offset = some offset') : offset < offset' :=
  (skipNameLoop_bounds h).1

/-- A compression pointer ends a name. -/
theorem skipName_pointer {m : Memory} {length offset : ℕ} (h : m offset = 0xC0)
    (hlength : offset + 2 ≤ length) : skipName m length offset = some (offset + 2) := by
  have hfirst : (m offset).toNat = 0xC0 := by rw [h]; rfl
  rw [skipName, skipNameLoop, if_neg (by omega)]
  simp only [hfirst]
  rw [if_neg (by decide), if_pos (by decide), if_neg (by omega)]

theorem skipName_root {m : Memory} {length offset : ℕ} (h : m offset = 0)
    (hlength : offset < length) : skipName m length offset = some (offset + 1) := by
  have hfirst : (m offset).toNat = 0 := by rw [h]; rfl
  rw [skipName, skipNameLoop, if_neg (by omega)]
  simp [hfirst]

/-- The step of `recordsLoop`: name, fixed part, data, and the records behind. -/
theorem recordsLoop_succ {m : Memory} {length s count offset offset' : ℕ}
    {records : List RecordRef} :
    recordsLoop m length s (count + 1) offset = some (offset', records) ↔
      ∃ start rest, skipName m length offset = some start ∧
        start + 10 + be16 m (start + 8) ≤ length ∧
        recordsLoop m length s count (start + 10 + be16 m (start + 8)) = some (offset', rest) ∧
        records = ⟨be16 m start, s, start + 4⟩ :: rest := by
  rw [recordsLoop]
  cases hskip : skipName m length offset with
  | none => simp
  | some start =>
      dsimp only
      constructor
      · intro h
        split at h
        · cases h
        · split at h
          · cases h
          · obtain ⟨⟨behind, rest⟩, hrest, heq⟩ := Option.map_eq_some_iff.1 h
            cases heq
            exact ⟨start, rest, rfl, by omega, hrest, rfl⟩
      · rintro ⟨start', rest, hstart, hlength, hrest, rfl⟩
        cases hstart
        rw [if_neg (by omega), if_neg (by omega), hrest]
        rfl

theorem recordsLoop_bounds {m : Memory} {length s count offset offset' : ℕ}
    {records : List RecordRef} (h : recordsLoop m length s count offset = some (offset', records))
    (hoffset : offset ≤ length) :
    offset ≤ offset' ∧ offset' ≤ length ∧
      ∀ r ∈ records, offset ≤ r.ttlOffset ∧ r.ttlOffset + 4 ≤ offset' := by
  induction count generalizing offset records with
  | zero =>
      cases h
      exact ⟨Nat.le_refl _, hoffset, by simp⟩
  | succ count ih =>
      obtain ⟨start, rest, hskip, hlength, hrest, rfl⟩ := recordsLoop_succ.1 h
      have hstart := skipName_lt hskip
      obtain ⟨hle, hend, hrecords⟩ := ih hrest hlength
      refine ⟨by omega, hend, ?_⟩
      intro r hr
      rcases List.mem_cons.1 hr with rfl | hr
      · dsimp only
        omega
      · have := hrecords r hr
        omega

/-- The TTL fields of a section lie one behind the other. -/
theorem recordsLoop_sorted {m : Memory} {length s count offset offset' : ℕ}
    {records : List RecordRef} (h : recordsLoop m length s count offset = some (offset', records)) :
    records.Pairwise fun a b => a.ttlOffset + 4 ≤ b.ttlOffset := by
  induction count generalizing offset records with
  | zero =>
      cases h
      exact List.Pairwise.nil
  | succ count ih =>
      obtain ⟨start, rest, -, hlength, hrest, rfl⟩ := recordsLoop_succ.1 h
      obtain ⟨-, -, hrecords⟩ := recordsLoop_bounds hrest hlength
      refine List.pairwise_cons.2 ⟨fun r hr => ?_, ih hrest⟩
      have := hrecords r hr
      dsimp only
      omega

/-- An offset that lies in no TTL field of the records. -/
def Outside (records : List RecordRef) (i : ℕ) : Prop :=
  ∀ r ∈ records, i < r.ttlOffset ∨ r.ttlOffset + 4 ≤ i

theorem Outside.filter {records : List RecordRef} {i : ℕ} (h : Outside records i)
    (p : RecordRef → Bool) : Outside (records.filter p) i :=
  fun r hr => h r (List.mem_filter.1 hr).1

theorem be16_congr {m m' : Memory} {i : ℕ} (h₀ : m i = m' i) (h₁ : m (i + 1) = m' (i + 1)) :
    be16 m i = be16 m' i := by
  rw [be16, be16, h₀, h₁]

theorem recordsLoop_congr {m m' : Memory} {length s count offset offset' : ℕ}
    {records : List RecordRef} (h : recordsLoop m length s count offset = some (offset', records))
    (hm : ∀ i, offset ≤ i → i < offset' → Outside records i → m i = m' i) :
    recordsLoop m' length s count offset = some (offset', records) := by
  induction count generalizing offset records with
  | zero => exact h
  | succ count ih =>
      obtain ⟨start, rest, hskip, hlength, hrest, rfl⟩ := recordsLoop_succ.1 h
      have hstart := skipName_lt hskip
      obtain ⟨hle, hend, hrecords⟩ := recordsLoop_bounds hrest hlength
      -- In front of the next record only the TTL of this one may differ.
      have hsame : ∀ i, offset ≤ i → i < start + 10 → (i < start + 4 ∨ start + 8 ≤ i) →
          m i = m' i := by
        intro i hi hi' hfield
        refine hm i hi (by omega) ?_
        intro r hr
        rcases List.mem_cons.1 hr with rfl | hr
        · exact hfield
        · have := hrecords r hr
          omega
      have htype : be16 m start = be16 m' start :=
        be16_congr (hsame _ (by omega) (by omega) (by omega))
          (hsame _ (by omega) (by omega) (by omega))
      have hdata : be16 m (start + 8) = be16 m' (start + 8) :=
        be16_congr (hsame _ (by omega) (by omega) (by omega))
          (hsame _ (by omega) (by omega) (by omega))
      rw [recordsLoop_succ]
      refine ⟨start, rest, ?_, by rw [← hdata]; exact hlength, ?_, by rw [htype]⟩
      · exact skipNameLoop_congr hskip fun i hi hi' =>
          hsame i hi (by omega) (Or.inl (by omega))
      · rw [← hdata]
        refine ih hrest fun i hi hi' hout => hm i (by omega) hi' ?_
        intro r hr
        rcases List.mem_cons.1 hr with rfl | hr
        · exact Or.inr (by dsimp only; omega)
        · exact hout r hr

/-! ## The whole message -/

/-- What an accepted walk went through. -/
structure Walked (m : Memory) (length questionEnd : ℕ)
    (answers authority additional : List RecordRef) : Prop where
  header_le : headerSize ≤ length
  counts_le : be16 m 4 * 5 + (be16 m 6 + be16 m 8 + be16 m 10) * 11 ≤ length
  questions : questionsLoop m length (be16 m 4) headerSize = some questionEnd
  records : ∃ o₁ o₂ o₃, recordsLoop m length 0 (be16 m 6) questionEnd = some (o₁, answers) ∧
    recordsLoop m length 1 (be16 m 8) o₁ = some (o₂, authority) ∧
    recordsLoop m length 2 (be16 m 10) o₂ = some (o₃, additional)

theorem walk_eq_some {m : Memory} {length questionEnd : ℕ} {records : List RecordRef} :
    walk m length = some (questionEnd, records) ↔
      ∃ answers authority additional, records = answers ++ authority ++ additional ∧
        Walked m length questionEnd answers authority additional := by
  rw [walk]
  constructor
  · intro h
    split at h
    · cases h
    · split at h
      · cases h
      · split at h
        · cases h
        · split at h
          · cases h
          · split at h
            · cases h
            · split at h
              · cases h
              · cases h
                exact ⟨_, _, _, rfl, by omega, by omega, ‹_›, _, _, _, ‹_›, ‹_›, ‹_›⟩
  · rintro ⟨answers, authority, additional, rfl, hheader, hcounts, hquestions, o₁, o₂, o₃, h₁, h₂,
      h₃⟩
    rw [if_neg (by omega), if_neg (by omega)]
    simp only [hquestions, h₁, h₂, h₃]

theorem questionsLoop_bounds {m : Memory} {length count offset offset' : ℕ}
    (h : questionsLoop m length count offset = some offset') (hoffset : offset ≤ length) :
    offset ≤ offset' ∧ offset' ≤ length := by
  induction count generalizing offset with
  | zero =>
      cases h
      exact ⟨Nat.le_refl _, hoffset⟩
  | succ count ih =>
      rw [questionsLoop] at h
      split at h
      · cases h
      · rename_i start hskip
        have hstart := skipName_lt hskip
        split at h
        · cases h
        · obtain ⟨hle, hend⟩ := ih h (by omega)
          omega

theorem questionsLoop_congr {m m' : Memory} {length count offset offset' : ℕ}
    (h : questionsLoop m length count offset = some offset') (hoffset : offset ≤ length)
    (hm : ∀ i, offset ≤ i → i < offset' → m i = m' i) :
    questionsLoop m' length count offset = some offset' := by
  induction count generalizing offset with
  | zero => exact h
  | succ count ih =>
      rw [questionsLoop] at h ⊢
      split at h
      · cases h
      · rename_i start hskip
        have hstart := skipName_lt hskip
        split at h
        · cases h
        · rename_i hfull
          obtain ⟨hle, hend⟩ := questionsLoop_bounds h (by omega)
          have hskip' : skipName m' length offset = some start :=
            skipNameLoop_congr hskip fun i hi hi' => hm i hi (by omega)
          rw [hskip']
          dsimp only
          rw [if_neg hfull]
          exact ih h (by omega) fun i hi hi' => hm i (by omega) hi'

/-- Where the parts of an accepted message lie. -/
theorem walk_bounds {m : Memory} {length questionEnd : ℕ} {records : List RecordRef}
    (h : walk m length = some (questionEnd, records)) :
    headerSize ≤ questionEnd ∧ questionEnd ≤ length ∧
      ∀ r ∈ records, questionEnd ≤ r.ttlOffset ∧ r.ttlOffset + 4 ≤ length := by
  obtain ⟨answers, authority, additional, rfl, hw⟩ := walk_eq_some.1 h
  obtain ⟨hle, hend⟩ := questionsLoop_bounds hw.questions hw.header_le
  obtain ⟨o₁, o₂, o₃, h₁, h₂, h₃⟩ := hw.records
  obtain ⟨hle₁, hend₁, hr₁⟩ := recordsLoop_bounds h₁ hend
  obtain ⟨hle₂, hend₂, hr₂⟩ := recordsLoop_bounds h₂ hend₁
  obtain ⟨hle₃, hend₃, hr₃⟩ := recordsLoop_bounds h₃ hend₂
  refine ⟨hle, hend, ?_⟩
  intro r hr
  rcases List.mem_append.1 hr with hr | hr
  · rcases List.mem_append.1 hr with hr | hr
    · have := hr₁ r hr
      omega
    · have := hr₂ r hr
      omega
  · have := hr₃ r hr
    omega

theorem walk_sorted {m : Memory} {length questionEnd : ℕ} {records : List RecordRef}
    (h : walk m length = some (questionEnd, records)) :
    records.Pairwise fun a b => a.ttlOffset + 4 ≤ b.ttlOffset := by
  obtain ⟨answers, authority, additional, rfl, hw⟩ := walk_eq_some.1 h
  obtain ⟨hle, hend⟩ := questionsLoop_bounds hw.questions hw.header_le
  obtain ⟨o₁, o₂, o₃, h₁, h₂, h₃⟩ := hw.records
  obtain ⟨hle₁, hend₁, hr₁⟩ := recordsLoop_bounds h₁ hend
  obtain ⟨hle₂, hend₂, hr₂⟩ := recordsLoop_bounds h₂ hend₁
  obtain ⟨hle₃, hend₃, hr₃⟩ := recordsLoop_bounds h₃ hend₂
  refine List.pairwise_append.2 ⟨List.pairwise_append.2
    ⟨recordsLoop_sorted h₁, recordsLoop_sorted h₂, ?_⟩, recordsLoop_sorted h₃, ?_⟩
  · intro a ha b hb
    have := hr₁ a ha
    have := hr₂ b hb
    omega
  · intro a ha b hb
    have := hr₃ b hb
    rcases List.mem_append.1 ha with ha | ha
    · have := hr₁ a ha
      omega
    · have := hr₂ a ha
      omega

/-- The walk does not depend on the first four bytes nor on any TTL. -/
theorem walk_congr {m m' : Memory} {length questionEnd : ℕ} {records : List RecordRef}
    (h : walk m length = some (questionEnd, records))
    (hm : ∀ i, 4 ≤ i → Outside records i → m i = m' i) :
    walk m' length = some (questionEnd, records) := by
  obtain ⟨hheader, hend, hrecords⟩ := walk_bounds h
  obtain ⟨answers, authority, additional, rfl, hw⟩ := walk_eq_some.1 h
  obtain ⟨o₁, o₂, o₃, h₁, h₂, h₃⟩ := hw.records
  obtain ⟨hle₁, hend₁, hr₁⟩ := recordsLoop_bounds h₁ hend
  obtain ⟨hle₂, hend₂, hr₂⟩ := recordsLoop_bounds h₂ hend₁
  obtain ⟨hle₃, hend₃, hr₃⟩ := recordsLoop_bounds h₃ hend₂
  have hfront : ∀ i, 4 ≤ i → i < questionEnd → m i = m' i := by
    intro i hi hi'
    refine hm i hi fun r hr => Or.inl ?_
    have := hrecords r hr
    omega
  have hcount (i : ℕ) (hi : 4 ≤ i) (hi' : i < 11) : be16 m i = be16 m' i := by
    have : headerSize = 12 := rfl
    exact be16_congr (hfront _ hi (by omega)) (hfront _ (by omega) (by omega))
  have hc₄ := hcount 4 (by omega) (by omega)
  have hc₆ := hcount 6 (by omega) (by omega)
  have hc₈ := hcount 8 (by omega) (by omega)
  have hc₁₀ := hcount 10 (by omega) (by omega)
  rw [walk_eq_some]
  refine ⟨answers, authority, additional, rfl, hw.header_le, ?_, ?_, o₁, o₂, o₃, ?_, ?_, ?_⟩
  · rw [← hc₄, ← hc₆, ← hc₈, ← hc₁₀]
    exact hw.counts_le
  · rw [← hc₄]
    refine questionsLoop_congr hw.questions hw.header_le fun i hi hi' => hfront i ?_ hi'
    have : headerSize = 12 := rfl
    omega
  · rw [← hc₆]
    refine recordsLoop_congr h₁ fun i hi hi' hout => hm i (by simp only [headerSize] at *; omega) ?_
    intro r hr
    rcases List.mem_append.1 hr with hr | hr
    · rcases List.mem_append.1 hr with hr | hr
      · exact hout r hr
      · have := hr₂ r hr
        omega
    · have := hr₃ r hr
      omega
  · rw [← hc₈]
    refine recordsLoop_congr h₂ fun i hi hi' hout => hm i (by simp only [headerSize] at *; omega) ?_
    intro r hr
    rcases List.mem_append.1 hr with hr | hr
    · rcases List.mem_append.1 hr with hr | hr
      · have := hr₁ r hr
        omega
      · exact hout r hr
    · have := hr₃ r hr
      omega
  · rw [← hc₁₀]
    refine recordsLoop_congr h₃ fun i hi hi' hout => hm i (by simp only [headerSize] at *; omega) ?_
    intro r hr
    rcases List.mem_append.1 hr with hr | hr
    · rcases List.mem_append.1 hr with hr | hr
      · have := hr₁ r hr
        omega
      · have := hr₂ r hr
        omega
    · exact hout r hr

end Dns

end SplitHello
