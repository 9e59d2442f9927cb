import SplitHello.Dns.Message

/-!
# Names and questions on the wire

A name is a list of labels; `nameText` is its wire form in lower case. What the
parser accepted is such a name, the same question in any letter case takes the
same bytes on the wire, and a query's question is determined by its name and its
type.
-/

namespace SplitHello

namespace Dns

open ByteString

/-- A label of a query in lower case. -/
structure IsLabel (label : Bytes) : Prop where
  pos : 0 < label.length
  le : label.length ≤ 63
  chars : label.all isNameChar = true

/-- The wire form of a name. -/
def nameText (labels : List Bytes) : Bytes :=
  labels.flatMap (fun label => UInt8.ofNat label.length :: label) ++ [0]

@[simp] theorem nameText_nil : nameText [] = [0] := rfl

theorem nameText_cons (label : Bytes) (labels : List Bytes) :
    nameText (label :: labels) = UInt8.ofNat label.length :: (label ++ nameText labels) := by
  simp [nameText]

theorem length_le_length_nameText (labels : List Bytes) :
    labels.length < (nameText labels).length := by
  induction labels with
  | nil => simp
  | cons label labels ih =>
      simp only [nameText_cons, List.length_cons, List.length_append]
      omega

/-- A length byte is never a letter, so letter case does not touch it. -/
theorem eq_of_lowerByte_eq {b : UInt8} {n : ℕ} (hn : n ≤ 63)
    (h : lowerByte b = UInt8.ofNat n) : b.toNat = n := by
  have hnat := congrArg UInt8.toNat h
  have hofNat : (UInt8.ofNat n).toNat = n := by
    simp
    omega
  rw [hofNat] at hnat
  unfold lowerByte at hnat
  split at hnat
  · rename_i hupper
    simp only [UInt8.le_iff_toNat_le, UInt8.toNat_add] at hupper hnat
    simp at hupper hnat
    omega
  · exact hnat

theorem slice_succ (m : Memory) (i n : ℕ) : slice m i (n + 1) = m i :: slice m (i + 1) n := by
  rw [Nat.add_comm n 1, slice_add]
  rfl

/-- Skipping a name whose bytes spell given labels in some letter case. -/
theorem skipNameLoop_nameText {m : Memory} {length : ℕ} {labels : List Bytes}
    (hlabels : ∀ label ∈ labels, IsLabel label) {offset fuel : ℕ}
    (hfuel : labels.length < fuel) (hend : offset + (nameText labels).length ≤ length)
    (h : lower (slice m offset (nameText labels).length) = nameText labels) :
    skipNameLoop m length fuel offset = some (offset + (nameText labels).length) := by
  induction labels generalizing offset fuel with
  | nil =>
      obtain ⟨fuel, rfl⟩ := Nat.exists_eq_succ_of_ne_zero (Nat.ne_of_gt hfuel)
      simp only [nameText_nil, List.length_singleton] at h hend ⊢
      have hzero : (m offset).toNat = 0 := by
        apply eq_of_lowerByte_eq (Nat.zero_le 63)
        simpa [slice, lower] using h
      rw [skipNameLoop, if_neg (by omega)]
      simp [hzero]
  | cons label labels ih =>
      obtain ⟨fuel, rfl⟩ := Nat.exists_eq_succ_of_ne_zero (Nat.ne_of_gt (Nat.zero_lt_of_lt hfuel))
      have hlabel := hlabels label (by simp)
      have hpos := hlabel.pos
      have hle := hlabel.le
      have hlength : (nameText (label :: labels)).length =
          (label.length + (nameText labels).length) + 1 := by
        rw [nameText_cons]
        simp
      rw [hlength, slice_succ, slice_add, nameText_cons] at h
      simp only [lower, List.map_cons, List.map_append, List.cons.injEq] at h
      obtain ⟨hfirst, hrest⟩ := h
      have hsize := eq_of_lowerByte_eq hle hfirst
      have htail := (List.append_inj hrest (by simp)).2
      rw [hlength] at hend ⊢
      rw [List.length_cons] at hfuel
      rw [skipNameLoop, if_neg (by omega)]
      simp only [hsize]
      rw [if_neg (by omega), if_neg (by omega), if_neg (by omega),
        ih (fun l hl => hlabels l (List.mem_cons_of_mem _ hl)) (by omega) (by omega)
          (by simpa [lower] using htail)]
      congr 1
      omega

theorem skipName_nameText {m : Memory} {length : ℕ} {labels : List Bytes}
    (hlabels : ∀ label ∈ labels, IsLabel label) {offset : ℕ}
    (hend : offset + (nameText labels).length ≤ length)
    (h : lower (slice m offset (nameText labels).length) = nameText labels) :
    skipName m length offset = some (offset + (nameText labels).length) := by
  have := length_le_length_nameText labels
  exact skipNameLoop_nameText hlabels (by omega) hend h

/-! ## What the parser reads -/

/-- The dotted form, continued from what was read before. -/
def joinLabel (name label : Bytes) : Bytes := withDot name ++ label

/-- Lengths of labels are no letters. -/
theorem lowerByte_of_le {b : UInt8} (h : b.toNat ≤ 63) : lowerByte b = b := by
  rw [lowerByte, if_neg]
  rintro ⟨h65, -⟩
  rw [UInt8.le_iff_toNat_le] at h65
  simp at h65
  omega

/-- One turn of the loop ends the name or reads a label. -/
theorem nameLoop_succ_cases {m : Memory} {length fuel offset : ℕ} {name : Bytes}
    {result : Bytes × ℕ} (h : nameLoop m length (fuel + 1) offset name = some result) :
    (offset < length ∧ m offset = 0 ∧ result = (name, offset + 1)) ∨
      ∃ label, IsLabel label ∧ label.length = (m offset).toNat ∧
        lower (slice m (offset + 1) label.length) = label ∧
        (joinLabel name label).length ≤ maxNameLength ∧
        nameLoop m length fuel (offset + 1 + label.length) (joinLabel name label) =
          some result := by
  rw [nameLoop] at h
  split at h
  · cases h
  · rename_i hinside
    dsimp only at h
    split at h
    · rename_i hzero
      refine Or.inl ⟨by omega, ?_, (Option.some.inj h).symm⟩
      exact UInt8.toNat_inj.1 (by simpa using hzero)
    · rename_i hzero
      rw [Option.ite_none_left_eq_some, Option.ite_none_left_eq_some,
        Option.ite_none_left_eq_some] at h
      obtain ⟨hlabel, hlong, hchars, h⟩ := h
      rw [not_or, Nat.not_lt, Nat.not_lt] at hlabel
      have hsize : (lower (slice m (offset + 1) (m offset).toNat)).length = (m offset).toNat := by
        simp [lower]
      refine Or.inr ⟨lower (slice m (offset + 1) (m offset).toNat), ?_, hsize, ?_, ?_, ?_⟩
      · refine ⟨by omega, by omega, ?_⟩
        simpa using hchars
      · rw [hsize]
      · rw [joinLabel, List.length_append]
        omega
      · rw [hsize]
        exact h

theorem nameLoop_spec {m : Memory} {length fuel offset : ℕ} {name name' : Bytes} {offset' : ℕ}
    (h : nameLoop m length fuel offset name = some (name', offset')) :
    ∃ labels, (∀ label ∈ labels, IsLabel label) ∧
      offset' = offset + (nameText labels).length ∧ offset' ≤ length ∧
      lower (slice m offset (nameText labels).length) = nameText labels ∧
      name' = labels.foldl joinLabel name ∧
      (labels ≠ [] → name'.length ≤ maxNameLength) := by
  induction fuel generalizing offset name with
  | zero => cases h
  | succ fuel ih =>
      rcases nameLoop_succ_cases h with ⟨hinside, hbyte, heq⟩ |
        ⟨label, hlabel, hsize, htext, hlong, hrest⟩
      · cases heq
        refine ⟨[], by simp, by simp, by omega, ?_, rfl, by simp⟩
        simp [slice, lower, hbyte, lowerByte]
      · obtain ⟨labels, hlabels, hend, hle, hslice, hname, hmax⟩ := ih hrest
        have hfirst : lowerByte (m offset) = UInt8.ofNat label.length := by
          rw [lowerByte_of_le (hsize ▸ hlabel.le), hsize, UInt8.ofNat_toNat]
        have hlength : (nameText (label :: labels)).length =
            (label.length + (nameText labels).length) + 1 := by
          rw [nameText_cons]
          simp
        refine ⟨label :: labels, List.forall_mem_cons.2 ⟨hlabel, hlabels⟩, by omega, hle, ?_,
          hname, ?_⟩
        · have hlower (b : UInt8) (s t : Bytes) :
              lower (b :: (s ++ t)) = lowerByte b :: (lower s ++ lower t) := by
            simp [lower]
          rw [hlength, slice_succ, slice_add, nameText_cons, hlower, hfirst, htext, hslice]
        · intro _
          cases labels with
          | nil =>
              rw [hname]
              exact hlong
          | cons next labels => exact hmax (by simp)

theorem joinLabel_ne_nil {name label : Bytes} (h : label ≠ []) : joinLabel name label ≠ [] := by
  simp [joinLabel, h]

/-- Joining labels one after the other is putting dots between them. -/
theorem foldl_joinLabel {labels : List Bytes} (hlabels : ∀ label ∈ labels, label ≠ [])
    {name : Bytes} (hname : name ≠ []) :
    labels.foldl joinLabel name = (ofString ".").intercalate (name :: labels) := by
  induction labels generalizing name with
  | nil => simp [List.intercalate]
  | cons label labels ih =>
      have hlabel := hlabels label (by simp)
      have hdot : withDot name = name ++ ofString "." := by rw [withDot, if_neg hname]
      rw [List.foldl_cons, ih (fun l hl => hlabels l (List.mem_cons_of_mem _ hl))
        (joinLabel_ne_nil hlabel), joinLabel, hdot]
      cases labels with
      | nil => simp [List.intercalate]
      | cons next labels =>
          rw [List.intercalate_cons_cons, List.intercalate_cons_cons, List.intercalate_cons_cons]
          simp

theorem foldl_joinLabel_nil {labels : List Bytes} (hlabels : ∀ label ∈ labels, label ≠ []) :
    labels.foldl joinLabel [] = (ofString ".").intercalate labels := by
  cases labels with
  | nil => rfl
  | cons label labels =>
      rw [List.foldl_cons]
      exact foldl_joinLabel (fun l hl => hlabels l (List.mem_cons_of_mem _ hl))
        (hlabels label (by simp))

theorem IsLabel.ne_nil {label : Bytes} (h : IsLabel label) : label ≠ [] :=
  List.ne_nil_of_length_pos h.pos

theorem IsLabel.dot_notMem {label : Bytes} (h : IsLabel label) : (46 : UInt8) ∉ label := by
  intro hmem
  have := List.all_eq_true.1 h.chars _ hmem
  cases this

/-- Names are equal only if their labels are. -/
theorem eq_of_intercalate_eq {labels labels' : List Bytes}
    (h : ∀ label ∈ labels, IsLabel label) (h' : ∀ label ∈ labels', IsLabel label)
    (hne : labels ≠ []) (hne' : labels' ≠ [])
    (heq : (ofString ".").intercalate labels = (ofString ".").intercalate labels') :
    labels = labels' := by
  have hdot : ofString "." = [46] := by decide
  rw [hdot] at heq
  have hsplit := congrArg (List.splitOn 46) heq
  rwa [List.splitOn_intercalate _ (fun l hl => (h l hl).dot_notMem) hne,
    List.splitOn_intercalate _ (fun l hl => (h' l hl).dot_notMem) hne'] at hsplit

/-- The wire form has two bytes more than the dotted one. -/
theorem length_nameText {labels : List Bytes} (hne : labels ≠ []) :
    (nameText labels).length = ((ofString ".").intercalate labels).length + 2 := by
  induction labels with
  | nil => exact absurd rfl hne
  | cons label labels ih =>
      cases labels with
      | nil => simp [nameText, List.intercalate]
      | cons next labels =>
          have ih := ih (by simp)
          have hdot : (ofString ".").length = 1 := by decide
          rw [nameText_cons, List.intercalate_cons_cons]
          simp only [List.length_cons, List.length_append] at ih ⊢
          omega

/-- What is known of a query that was accepted: its question is one name in some
letter case, its type and the class Internet. -/
structure Asked (query : Query) : Prop where
  id_lt : query.id < 65536
  type_lt : query.type < 65536
  question : ∃ labels, labels ≠ [] ∧ (∀ label ∈ labels, IsLabel label) ∧
    query.name = (ofString ".").intercalate labels ∧
    (nameText labels).length ≤ 255 ∧
    query.question.length = (nameText labels).length + 4 ∧
    lower query.question = nameText labels ++ lower (put16 query.type ++ put16 classInternet)

theorem parseEdns_same (m : Memory) (length offset : ℕ) (query : Query) :
    (parseEdns m length offset query).id = query.id ∧
      (parseEdns m length offset query).type = query.type ∧
      (parseEdns m length offset query).name = query.name ∧
      (parseEdns m length offset query).question = query.question ∧
      (parseEdns m length offset query).recursionDesired = query.recursionDesired := by
  rw [parseEdns]
  split
  · exact ⟨rfl, rfl, rfl, rfl, rfl⟩
  · split <;> exact ⟨rfl, rfl, rfl, rfl, rfl⟩

/-- What an accepted query was read from. -/
theorem parseQuery_accepted {m : Memory} {length : ℕ} {query : Query}
    (h : parseQuery m length = (query, true)) :
    headerSize ≤ length ∧ (be16 m 2).testBit 15 = false ∧ query.id = be16 m 0 ∧
      ∃ name offset, nameLoop m length (length + 1) headerSize [] = some (name, offset) ∧
        name ≠ [] ∧ be16 m (offset + 2) = classInternet ∧ query.type = be16 m offset ∧
        query.name = name ∧ query.question = slice m headerSize (offset + 4 - headerSize) := by
  rw [parseQuery] at h
  split at h
  · cases h
  · rename_i hlength
    dsimp only at h
    split at h
    · cases h
    · rename_i hresponse
      split at h
      · cases h
      · split at h
        · cases h
        · split at h
          · cases h
          · rename_i name offset hname
            split at h
            · cases h
            · rename_i hfull
              split at h
              · cases h
              · rename_i hclass
                obtain ⟨hid, htype, hnm, hquestion, -⟩ := parseEdns_same m length (offset + 4)
                  { id := be16 m 0
                    opcode := be16 m 2 / 2048 % 16
                    recursionDesired := (be16 m 2).testBit 8
                    type := be16 m offset
                    name
                    question := slice m headerSize (offset + 4 - headerSize) }
                have hquery := congrArg Prod.fst h
                dsimp only at hquery
                rw [hquery] at hid htype hnm hquestion
                rw [not_or] at hfull
                exact ⟨Nat.not_lt.1 hlength, Bool.eq_false_iff.2 hresponse, hid, name, offset,
                  hname, hfull.1, not_not.1 hclass, htype, hnm, hquestion⟩

theorem asked_of_parseQuery {m : Memory} {length : ℕ} {query : Query}
    (h : parseQuery m length = (query, true)) :
    Asked query ∧ headerSize ≤ length ∧ (be16 m 2).testBit 15 = false ∧ query.id = be16 m 0 := by
  obtain ⟨hlength, hresponse, hid, name, offset, hread, hname, hclass, htype, hnm, hquestion⟩ :=
    parseQuery_accepted h
  obtain ⟨labels, hlabels, hoffset, hle, hslice, hjoined, hmax⟩ := nameLoop_spec hread
  have hne : labels ≠ [] := by
    rintro rfl
    exact hname hjoined
  have hdotted := foldl_joinLabel_nil fun l hl => (hlabels l hl).ne_nil
  rw [← hjoined] at hdotted
  have htext := length_nameText hne
  rw [← hdotted] at htext
  have hmax := hmax hne
  refine ⟨⟨?_, ?_, labels, hne, hlabels, ?_, ?_, ?_, ?_⟩, hlength, hresponse, hid⟩
  · rw [hid]
    exact be16_lt m 0
  · rw [htype]
    exact be16_lt m offset
  · rw [hnm]
    exact hdotted
  · rw [htext]
    simp only [maxNameLength] at hmax
    omega
  · rw [hquestion, length_slice]
    omega
  · have hsize : offset + 4 - headerSize = (nameText labels).length + 2 + 2 := by
      omega
    rw [hquestion, htype, hsize, slice_add, slice_add, ← hclass, put16_be16, put16_be16]
    simp only [lower, List.map_append] at hslice ⊢
    rw [hslice, hoffset, List.append_assoc]
    rfl

/-- Name and type of a query determine its question up to letter case. -/
theorem Asked.question_eq {query query' : Query} (h : Asked query) (h' : Asked query')
    (hname : query.name = query'.name) (htype : query.type = query'.type) :
    lower query.question = lower query'.question := by
  obtain ⟨labels, hne, hlabels, hjoined, -, -, hquestion⟩ := h.question
  obtain ⟨labels', hne', hlabels', hjoined', -, -, hquestion'⟩ := h'.question
  have hsame : labels = labels' :=
    eq_of_intercalate_eq hlabels hlabels' hne hne' (by rw [← hjoined, ← hjoined', hname])
  rw [hquestion, hquestion', hsame, htype]

theorem Asked.question_length {query : Query} (h : Asked query) :
    5 ≤ query.question.length ∧ query.question.length ≤ 259 := by
  obtain ⟨labels, -, -, -, hle, hlength, -⟩ := h.question
  have := length_le_length_nameText labels
  omega

/-! ## Messages that repeat a question -/

theorem echoesQuestion_iff {m : Memory} {length : ℕ} {query : Query} (hquery : Asked query) :
    echoesQuestion m length query = true ↔
      headerSize + query.question.length ≤ length ∧ be16 m 4 = 1 ∧
        lower (slice m headerSize query.question.length) = lower query.question := by
  have hne : query.question ≠ [] := by
    have := hquery.question_length
    exact List.ne_nil_of_length_pos (by omega)
  simp [echoesQuestion, hne, and_assoc]

theorem echoesQuestion_of_question_eq {m : Memory} {length : ℕ} {query query' : Query}
    (hquery : Asked query) (hquery' : Asked query')
    (hsame : lower query.question = lower query'.question)
    (h : echoesQuestion m length query = true) : echoesQuestion m length query' = true := by
  have hlength : query.question.length = query'.question.length := by
    simpa [lower] using congrArg List.length hsame
  rw [echoesQuestion_iff hquery] at h
  rw [echoesQuestion_iff hquery', ← hlength, ← hsame]
  exact h

/-- The walk finds the end of a repeated question where the query's own question
ends. -/
theorem questionsLoop_of_slice {m : Memory} {length : ℕ} {query : Query} (hquery : Asked query)
    (hlength : headerSize + query.question.length ≤ length)
    (h : lower (slice m headerSize query.question.length) = lower query.question) :
    questionsLoop m length 1 headerSize = some (headerSize + query.question.length) := by
  obtain ⟨labels, -, hlabels, -, -, hsize, hquestion⟩ := hquery.question
  rw [hquestion, hsize, slice_add] at h
  simp only [lower, List.map_append] at h
  have hname := (List.append_inj h (by simp)).1
  have hskip : skipName m length headerSize = some (headerSize + (nameText labels).length) :=
    skipName_nameText hlabels (by omega) (by simpa [lower] using hname)
  rw [questionsLoop, hskip]
  dsimp only
  rw [if_neg (by omega), questionsLoop, hsize]
  congr 1

end Dns

end SplitHello
