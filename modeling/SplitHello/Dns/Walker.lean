import SplitHello.Dns.Grammar
import SplitHello.Dns.Walk

/-!
# The walk over hostile bytes

`walk` moves its offset past the end before it looks whether there is anything left, and
rejects counts that cannot fit before it loops on them. It reads no byte behind the end, comes
to its end on every message, and its shortcut rejects nothing that the loops would accept.
-/

namespace SplitHello

namespace Dns

open ByteString

/-! ## With checked reads -/

namespace Checked

/-- A name that does not come to its end within the rounds is no result. -/
def skipNameLoop (m : Memory) (length : ℕ) : ℕ → ℕ → Option (Option ℕ)
  | 0, _ => none
  | fuel + 1, offset =>
      if offset ≥ length then some none
      else
        (loadByte m length offset).bind fun first =>
          let first := first.toNat
          if first = 0 then some (some (offset + 1))
          else if first ≥ 0xC0 then
            if offset + 2 > length then some none else some (some (offset + 2))
          else if first ≥ 0x40 then some none
          else skipNameLoop m length fuel (offset + 1 + first)

def skipName (m : Memory) (length offset : ℕ) : Option (Option ℕ) :=
  skipNameLoop m length (length + 1) offset

def questionsLoop (m : Memory) (length : ℕ) : ℕ → ℕ → Option (Option ℕ)
  | 0, offset => some (some offset)
  | count + 1, offset =>
      (skipName m length offset).bind fun
        | none => some none
        | some offset =>
            if offset + 4 > length then some none else questionsLoop m length count (offset + 4)

def recordsLoop (m : Memory) (length sectionIndex : ℕ) :
    ℕ → ℕ → Option (Option (ℕ × List RecordRef))
  | 0, offset => some (some (offset, []))
  | count + 1, offset =>
      (skipName m length offset).bind fun
        | none => some none
        | some offset =>
            if offset + 10 > length then some none
            else
              (load16 m length offset).bind fun type =>
                (load16 m length (offset + 8)).bind fun rdLength =>
                  if offset + 10 + rdLength > length then some none
                  else
                    (recordsLoop m length sectionIndex count (offset + 10 + rdLength)).map
                      fun rest => rest.map fun rest =>
                        (rest.1, ⟨type, sectionIndex, offset + 4⟩ :: rest.2)

def walk (m : Memory) (length : ℕ) : Option (Option (ℕ × List RecordRef)) :=
  if length < headerSize then some none
  else
    (load16 m length 4).bind fun questions =>
      (load16 m length 6).bind fun answers =>
        (load16 m length 8).bind fun authority =>
          (load16 m length 10).bind fun additional =>
            if questions * 5 + (answers + authority + additional) * 11 > length then some none
            else
              (questionsLoop m length questions headerSize).bind fun
                | none => some none
                | some questionEnd =>
                    (recordsLoop m length 0 answers questionEnd).bind fun
                      | none => some none
                      | some (offset, first) =>
                          (recordsLoop m length 1 authority offset).bind fun
                            | none => some none
                            | some (offset, second) =>
                                (recordsLoop m length 2 additional offset).map fun last =>
                                  last.map fun last =>
                                    (questionEnd, first ++ second ++ last.2)

theorem skipNameLoop_eq (m : Memory) (length : ℕ) {fuel offset : ℕ}
    (hfuel : length < offset + fuel) (hpos : 0 < fuel) :
    skipNameLoop m length fuel offset = some (Dns.skipNameLoop m length fuel offset) := by
  induction fuel generalizing offset with
  | zero => cases hpos
  | succ fuel ih =>
      rw [skipNameLoop, Dns.skipNameLoop]
      by_cases hinside : offset ≥ length
      · rw [if_pos hinside, if_pos hinside]
      rw [if_neg hinside, if_neg hinside, loadByte_of_lt (by omega), Option.bind_some]
      dsimp only
      by_cases hroot : (m offset).toNat = 0
      · rw [if_pos hroot, if_pos hroot]
      rw [if_neg hroot, if_neg hroot]
      split_ifs
      · rfl
      · rfl
      · rfl
      · exact ih (by omega) (by omega)

theorem skipName_eq (m : Memory) (length offset : ℕ) :
    skipName m length offset = some (Dns.skipName m length offset) :=
  skipNameLoop_eq m length (by omega) (Nat.succ_pos length)

theorem questionsLoop_eq (m : Memory) (length count offset : ℕ) :
    questionsLoop m length count offset = some (Dns.questionsLoop m length count offset) := by
  induction count generalizing offset with
  | zero => rfl
  | succ count ih =>
      rw [questionsLoop, Dns.questionsLoop, skipName_eq, Option.bind_some]
      cases Dns.skipName m length offset with
      | none => rfl
      | some start =>
          dsimp only
          split_ifs
          · rfl
          · exact ih _

theorem recordsLoop_eq (m : Memory) (length s count offset : ℕ) :
    recordsLoop m length s count offset = some (Dns.recordsLoop m length s count offset) := by
  induction count generalizing offset with
  | zero => rfl
  | succ count ih =>
      rw [recordsLoop, Dns.recordsLoop, skipName_eq, Option.bind_some]
      cases Dns.skipName m length offset with
      | none => rfl
      | some start =>
          dsimp only
          by_cases hfits : start + 10 > length
          · rw [if_pos hfits, if_pos hfits]
          rw [if_neg hfits, if_neg hfits, load16_of_le (by omega), load16_of_le (by omega),
            Option.bind_some, Option.bind_some, ih]
          split_ifs
          · rfl
          · rfl

/-- Every byte that the walk reads is a byte of the message. -/
theorem walk_eq (m : Memory) (length : ℕ) : walk m length = some (Dns.walk m length) := by
  have hsize : headerSize = 12 := rfl
  rw [walk, Dns.walk]
  by_cases hheader : length < headerSize
  · rw [if_pos hheader, if_pos hheader]
  rw [if_neg hheader, if_neg hheader, load16_of_le (by omega), load16_of_le (by omega),
    load16_of_le (by omega), load16_of_le (by omega)]
  simp only [Option.bind_some, questionsLoop_eq, recordsLoop_eq]
  by_cases hcounts : be16 m 4 * 5 + (be16 m 6 + be16 m 8 + be16 m 10) * 11 > length
  · rw [if_pos hcounts, if_pos hcounts]
  rw [if_neg hcounts, if_neg hcounts]
  cases Dns.questionsLoop m length (be16 m 4) headerSize with
  | none => rfl
  | some questionEnd =>
      dsimp only
      cases Dns.recordsLoop m length 0 (be16 m 6) questionEnd with
      | none => rfl
      | some first =>
          dsimp only
          cases Dns.recordsLoop m length 1 (be16 m 8) first.1 with
          | none => rfl
          | some second =>
              dsimp only
              cases Dns.recordsLoop m length 2 (be16 m 10) second.1 with
              | none => rfl
              | some last => rfl

end Checked

/-! ## Without the shortcut -/

/-- `walk` without the check of the counts in front of its loops. -/
def walkUncounted (m : Memory) (length : ℕ) : Option (ℕ × List RecordRef) :=
  if length < headerSize then none
  else
    match questionsLoop m length (be16 m 4) headerSize with
    | none => none
    | some questionEnd =>
        match recordsLoop m length 0 (be16 m 6) questionEnd with
        | none => none
        | some (offset, answers) =>
            match recordsLoop m length 1 (be16 m 8) offset with
            | none => none
            | some (offset, authority) =>
                match recordsLoop m length 2 (be16 m 10) offset with
                | none => none
                | some (_, additional) => some (questionEnd, answers ++ authority ++ additional)

/-- A question takes its root label, its type and its class at least. -/
theorem questionsLoop_advance {m : Memory} {length count offset offset' : ℕ}
    (h : questionsLoop m length count offset = some offset') : offset + count * 5 ≤ offset' := by
  induction count generalizing offset with
  | zero =>
      cases h
      omega
  | succ count ih =>
      rw [questionsLoop] at h
      cases hskip : skipName m length offset with
      | none =>
          rw [hskip] at h
          cases h
      | some start =>
          rw [hskip] at h
          dsimp only at h
          have hstart := skipName_lt hskip
          by_cases hfull : start + 4 > length
          · rw [if_pos hfull] at h
            cases h
          · rw [if_neg hfull] at h
            have := ih h
            omega

/-- A record takes its root label and the ten bytes of its fixed part at least. -/
theorem recordsLoop_advance {m : Memory} {length s count offset offset' : ℕ}
    {records : List RecordRef} (h : recordsLoop m length s count offset = some (offset', records)) :
    offset + count * 11 ≤ offset' ∧ records.length = count := by
  induction count generalizing offset records with
  | zero =>
      cases h
      exact ⟨by omega, rfl⟩
  | succ count ih =>
      obtain ⟨start, rest, hskip, -, hrest, rfl⟩ := recordsLoop_succ.1 h
      have hstart := skipName_lt hskip
      obtain ⟨hadvance, hnumber⟩ := ih hrest
      refine ⟨by omega, ?_⟩
      rw [List.length_cons, hnumber]

/-- Counts that do not fit run the loops into the end of the message. -/
theorem walkUncounted_eq (m : Memory) (length : ℕ) : walkUncounted m length = walk m length := by
  rw [walkUncounted, walk]
  by_cases hheader : length < headerSize
  · rw [if_pos hheader, if_pos hheader]
  rw [if_neg hheader, if_neg hheader]
  by_cases hcounts : be16 m 4 * 5 + (be16 m 6 + be16 m 8 + be16 m 10) * 11 > length
  · rw [if_pos hcounts]
    cases hquestions : questionsLoop m length (be16 m 4) headerSize with
    | none => rfl
    | some questionEnd =>
        have hadvance := questionsLoop_advance hquestions
        have hend := (questionsLoop_bounds hquestions (by omega)).2
        dsimp only
        cases h₁ : recordsLoop m length 0 (be16 m 6) questionEnd with
        | none => rfl
        | some first =>
            have hadvance₁ := (recordsLoop_advance h₁).1
            have hend₁ := (recordsLoop_bounds h₁ hend).2.1
            dsimp only
            cases h₂ : recordsLoop m length 1 (be16 m 8) first.1 with
            | none => rfl
            | some second =>
                have hadvance₂ := (recordsLoop_advance h₂).1
                have hend₂ := (recordsLoop_bounds h₂ hend₁).2.1
                dsimp only
                cases h₃ : recordsLoop m length 2 (be16 m 10) second.1 with
                | none => rfl
                | some last =>
                    have hadvance₃ := (recordsLoop_advance h₃).1
                    have hend₃ := (recordsLoop_bounds h₃ hend₂).2.1
                    omega
  · exact (if_neg hcounts).symm

theorem walk_length {m : Memory} {length questionEnd : ℕ} {records : List RecordRef}
    (h : walk m length = some (questionEnd, records)) :
    records.length = be16 m 6 + be16 m 8 + be16 m 10 := by
  obtain ⟨answers, authority, additional, rfl, hw⟩ := walk_eq_some.1 h
  obtain ⟨o₁, o₂, o₃, h₁, h₂, h₃⟩ := hw.records
  rw [List.length_append, List.length_append, (recordsLoop_advance h₁).2,
    (recordsLoop_advance h₂).2, (recordsLoop_advance h₃).2]

/-- The walk reads below the length and comes to its end, the check of the counts rejects
nothing that the loops accept, and the TTLs of an accepted message lie apart, behind the header
and inside of the message. -/
theorem walk_safe (m : Memory) (length : ℕ) :
    Checked.walk m length = some (walk m length) ∧
      ((walk m length).isSome ↔ (walkUncounted m length).isSome) ∧
      ∀ questionEnd records, walk m length = some (questionEnd, records) →
        (∀ r ∈ records, 12 ≤ r.ttlOffset ∧ r.ttlOffset + 4 ≤ length) ∧
        (records.Pairwise fun a b => a.ttlOffset + 4 ≤ b.ttlOffset) ∧
        records.length = be16 m 6 + be16 m 8 + be16 m 10 ∧ questionEnd ≤ length := by
  refine ⟨Checked.walk_eq m length, by rw [walkUncounted_eq], ?_⟩
  intro questionEnd records h
  obtain ⟨hheader, hend, hfields⟩ := walk_bounds h
  refine ⟨fun r hr => ?_, walk_sorted h, walk_length h, hend⟩
  have hfield := hfields r hr
  have hsize : headerSize = 12 := rfl
  omega

end Dns

end SplitHello
