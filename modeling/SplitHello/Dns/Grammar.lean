import SplitHello.Dns.Question
import SplitHello.Library.Checked

/-!
# The grammar of queries

`parseQuery` reads a name label by label and gives up at the first thing that is wrong. What
it accepts is a header and one question, whose name is put together from labels in any letter
case; the rest of the message matters only as far as it is a row of records at the root, up
to the first OPT.
-/

namespace SplitHello

namespace Dns

open ByteString

/-! ## Labels in any letter case -/

/-- Letters, digits, hyphen and underscore. -/
def NameByte (c : UInt8) : Prop :=
  (65 ≤ c ∧ c ≤ 90) ∨ (97 ≤ c ∧ c ≤ 122) ∨ (48 ≤ c ∧ c ≤ 57) ∨ c = 45 ∨ c = 95

/-- A label as it stands in a message. -/
structure IsWireLabel (label : Bytes) : Prop where
  pos : 0 < label.length
  le : label.length ≤ 63
  bytes : ∀ c ∈ label, NameByte c

def dotted (labels : List Bytes) : Bytes := (ofString ".").intercalate labels

theorem isNameChar_lowerByte_iff (c : UInt8) : isNameChar (lowerByte c) = true ↔ NameByte c := by
  by_cases hupper : 65 ≤ c ∧ c ≤ 90
  · rw [lowerByte, if_pos hupper, NameByte]
    refine ⟨fun _ => Or.inl hupper, fun _ => ?_⟩
    simp only [isNameChar, UInt8.le_iff_toNat_le, UInt8.toNat_add, Bool.or_eq_true,
      Bool.and_eq_true, decide_eq_true_eq] at hupper ⊢
    simp at hupper ⊢
    omega
  · rw [lowerByte, if_neg hupper, NameByte]
    simp only [isNameChar, Bool.or_eq_true, Bool.and_eq_true, decide_eq_true_eq, hupper,
      false_or, or_assoc]

theorem isLabel_lower_iff {label : Bytes} : IsLabel (lower label) ↔ IsWireLabel label := by
  have hlength : (lower label).length = label.length := List.length_map _
  have hchars : (lower label).all isNameChar = true ↔ ∀ c ∈ label, NameByte c := by
    rw [lower, List.all_map, List.all_eq_true]
    exact forall₂_congr fun c _ => isNameChar_lowerByte_iff c
  exact ⟨fun h => ⟨hlength ▸ h.pos, hlength ▸ h.le, hchars.1 h.chars⟩,
    fun h => ⟨hlength.symm ▸ h.pos, hlength.symm ▸ h.le, hchars.2 h.bytes⟩⟩

theorem lower_nameText {labels : List Bytes} (h : ∀ label ∈ labels, label.length ≤ 63) :
    lower (nameText labels) = nameText (labels.map lower) := by
  induction labels with
  | nil => rfl
  | cons label labels ih =>
      have hle := h label List.mem_cons_self
      have hsize : (UInt8.ofNat label.length).toNat ≤ 63 := by
        rw [UInt8.toNat_ofNat']
        omega
      rw [nameText_cons, List.map_cons, nameText_cons,
        ← ih fun l hl => h l (List.mem_cons_of_mem _ hl)]
      simp [lower, lowerByte_of_le hsize]

/-- Bytes that spell labels in lower case spell labels. -/
theorem exists_labels_of_lower {labels : List Bytes} (h : ∀ label ∈ labels, label.length ≤ 63)
    {bytes : Bytes} (hbytes : lower bytes = nameText labels) :
    ∃ labels', labels'.map lower = labels ∧ bytes = nameText labels' := by
  induction labels generalizing bytes with
  | nil =>
      obtain ⟨c, rfl, hc⟩ := List.map_eq_singleton_iff.1 hbytes
      have hzero : c.toNat = 0 := eq_of_lowerByte_eq (Nat.zero_le 63) hc
      refine ⟨[], rfl, ?_⟩
      rw [UInt8.toNat_inj (b := 0) |>.1 hzero]
      rfl
  | cons label labels ih =>
      rw [nameText_cons, lower, List.map_eq_cons_iff] at hbytes
      obtain ⟨c, rest, rfl, hc, hrest⟩ := hbytes
      obtain ⟨front, back, rfl, hfront, hback⟩ := List.map_eq_append_iff.1 hrest
      obtain ⟨labels', hlabels', rfl⟩ := ih (fun l hl => h l (List.mem_cons_of_mem _ hl)) hback
      have hsize := eq_of_lowerByte_eq (h label List.mem_cons_self) hc
      have hlength : front.length = label.length := by rw [← hfront, List.length_map]
      refine ⟨front :: labels', ?_, ?_⟩
      · rw [List.map_cons, hlabels', lower, hfront]
      · rw [nameText_cons, hlength, ← hsize, UInt8.ofNat_toNat]

theorem length_nameText_lower (labels : List Bytes) :
    (nameText (labels.map lower)).length = (nameText labels).length := by
  induction labels with
  | nil => rfl
  | cons label labels ih =>
      simp [nameText_cons, ih, lower]

theorem lower_dotted (labels : List Bytes) : lower (dotted labels) = dotted (labels.map lower) := by
  induction labels with
  | nil => rfl
  | cons label labels ih =>
      cases labels with
      | nil => simp [dotted]
      | cons next labels =>
          have hdot : (ofString ".").map lowerByte = ofString "." := by decide
          rw [List.map_cons, List.map_cons, dotted, dotted, List.intercalate_cons_cons,
            List.intercalate_cons_cons, ← dotted, ← dotted, ← List.map_cons, ← ih]
          simp [lower, hdot]

/-! ## The name of a question -/

theorem length_foldl_joinLabel_ge (labels : List Bytes) (name : Bytes) :
    name.length ≤ (labels.foldl joinLabel name).length := by
  induction labels generalizing name with
  | nil => exact Nat.le_refl _
  | cons label labels ih =>
      have hwith : name.length ≤ (withDot name).length := by
        rw [withDot]
        split
        · exact Nat.le_refl _
        · rw [List.length_append]
          omega
      have hjoin := ih (joinLabel name label)
      have hlength : (joinLabel name label).length = (withDot name).length + label.length :=
        List.length_append
      rw [List.foldl_cons]
      omega

/-- The loop reads every name that is spelled and not too long. -/
theorem nameLoop_of_nameText {m : Memory} {length : ℕ} {labels : List Bytes}
    (hlabels : ∀ label ∈ labels, IsLabel label) {fuel offset : ℕ} {name : Bytes}
    (hfuel : labels.length < fuel) (hend : offset + (nameText labels).length ≤ length)
    (h : lower (slice m offset (nameText labels).length) = nameText labels)
    (hmax : labels ≠ [] → (labels.foldl joinLabel name).length ≤ maxNameLength) :
    nameLoop m length fuel offset name =
      some (labels.foldl joinLabel name, offset + (nameText labels).length) := by
  induction labels generalizing fuel offset name with
  | nil =>
      obtain ⟨fuel, rfl⟩ := Nat.exists_eq_succ_of_ne_zero (Nat.ne_of_gt hfuel)
      simp only [nameText_nil, List.length_singleton] at h hend ⊢
      have hzero : (m offset).toNat = 0 := by
        apply eq_of_lowerByte_eq (Nat.zero_le 63)
        simpa [slice, lower] using h
      rw [nameLoop, if_neg (by omega)]
      simp [hzero]
  | cons label labels ih =>
      obtain ⟨fuel, rfl⟩ := Nat.exists_eq_succ_of_ne_zero (Nat.ne_of_gt (Nat.zero_lt_of_lt hfuel))
      have hlabel := hlabels label List.mem_cons_self
      have hpos := hlabel.pos
      have hle := hlabel.le
      have hlength : (nameText (label :: labels)).length =
          (label.length + (nameText labels).length) + 1 := by
        rw [nameText_cons]
        simp
      rw [hlength, slice_succ, slice_add, nameText_cons] at h
      simp only [lower, List.map_cons, List.map_append, List.cons.injEq] at h
      obtain ⟨hfirst, hrest⟩ := h
      have hsize := eq_of_lowerByte_eq hle hfirst
      obtain ⟨htext, htail⟩ := List.append_inj hrest (by simp)
      rw [hlength] at hend ⊢
      rw [List.length_cons] at hfuel
      have hmax := hmax (List.cons_ne_nil _ _)
      rw [List.foldl_cons] at hmax ⊢
      have hjoin := length_foldl_joinLabel_ge labels (joinLabel name label)
      have hlong : (joinLabel name label).length = (withDot name).length + label.length :=
        List.length_append
      rw [nameLoop, if_neg (by omega)]
      simp only [hsize]
      rw [if_neg (by omega), if_neg (by omega), lower, htext, if_neg (by omega),
        if_neg (by simp [hlabel.chars]), ← joinLabel,
        ih (fun l hl => hlabels l (List.mem_cons_of_mem _ hl)) (by omega) (by omega)
          (by simpa [lower] using htail) fun _ => hmax]
      congr 2
      omega

/-- A question of these labels, whatever its type and class. -/
structure Spells (m : Memory) (length : ℕ) (labels : List Bytes) : Prop where
  nonempty : labels ≠ []
  wire : ∀ label ∈ labels, IsWireLabel label
  short : (dotted labels).length ≤ maxNameLength
  text : slice m headerSize (nameText labels).length = nameText labels
  inside : headerSize + (nameText labels).length + 4 ≤ length

theorem joined_lower {labels : List Bytes} (h : ∀ label ∈ labels, IsWireLabel label) :
    (labels.map lower).foldl joinLabel [] = lower (dotted labels) := by
  rw [foldl_joinLabel_nil, lower_dotted, dotted]
  intro label hlabel
  obtain ⟨wire, hwire, rfl⟩ := List.mem_map.1 hlabel
  exact (isLabel_lower_iff.2 (h wire hwire)).ne_nil

theorem length_dotted_pos {labels : List Bytes} (hne : labels ≠ [])
    (h : ∀ label ∈ labels, IsWireLabel label) : 0 < (dotted labels).length := by
  cases labels with
  | nil => exact absurd rfl hne
  | cons label labels =>
      have hpos := (h label List.mem_cons_self).pos
      have hsize := length_nameText hne
      have htail := length_le_length_nameText labels
      rw [nameText_cons, List.length_cons, List.length_append, ← dotted] at hsize
      omega

/-- The loop reads a name that is not empty and leaves room for type and class exactly if the
message spells labels. -/
theorem nameLoop_iff {m : Memory} {length : ℕ} {name : Bytes} {offset : ℕ} :
    (nameLoop m length (length + 1) headerSize [] = some (name, offset) ∧ name ≠ [] ∧
        offset + 4 ≤ length) ↔
      ∃ labels, Spells m length labels ∧ name = lower (dotted labels) ∧
        offset = headerSize + (nameText labels).length := by
  constructor
  · rintro ⟨hread, hname, hinside⟩
    obtain ⟨labels, hlabels, hoffset, -, htext, hjoined, hmax⟩ := nameLoop_spec hread
    obtain ⟨wire, rfl, hwire⟩ := exists_labels_of_lower (fun l hl => (hlabels l hl).le) htext
    have hwires : ∀ label ∈ wire, IsWireLabel label := fun l hl =>
      isLabel_lower_iff.1 (hlabels _ (List.mem_map_of_mem hl))
    rw [joined_lower hwires] at hjoined
    rw [length_nameText_lower] at hoffset hwire
    have hne : wire ≠ [] := by
      rintro rfl
      exact hname hjoined
    have hshort := hmax (by simpa using hne)
    rw [hjoined, lower, List.length_map] at hshort
    exact ⟨wire, ⟨hne, hwires, hshort, hwire, hoffset ▸ hinside⟩, hjoined, hoffset⟩
  · rintro ⟨labels, h, rfl, rfl⟩
    have hlabels : ∀ label ∈ labels.map lower, IsLabel label := by
      intro label hlabel
      obtain ⟨wire, hwire, rfl⟩ := List.mem_map.1 hlabel
      exact isLabel_lower_iff.2 (h.wire wire hwire)
    have hcount := length_le_length_nameText (labels.map lower)
    have hsize := length_nameText_lower labels
    have hinside := h.inside
    have hread : nameLoop m length (length + 1) headerSize [] =
        some ((labels.map lower).foldl joinLabel [],
          headerSize + (nameText (labels.map lower)).length) := by
      refine nameLoop_of_nameText hlabels (by omega) (by omega) ?_ fun _ => ?_
      · rw [hsize, h.text, lower_nameText fun l hl => (h.wire l hl).le]
      · rw [joined_lower h.wire, lower, List.length_map]
        exact h.short
    rw [hread, joined_lower h.wire, hsize]
    refine ⟨rfl, ?_, hinside⟩
    have hdotted := length_dotted_pos h.nonempty h.wire
    rw [lower, Ne, List.map_eq_nil_iff]
    exact List.ne_nil_of_length_pos hdotted

/-! ## The first OPT record -/

/-- A record at the root that fits into the message. -/
structure RootRecord (m : Memory) (length offset : ℕ) : Prop where
  root : m offset = 0
  fits : offset + 11 + be16 m (offset + 9) ≤ length

/-- Where the record after so many others starts, if all are at the root. -/
def recordAt (m : Memory) (offset : ℕ) : ℕ → ℕ
  | 0 => offset
  | k + 1 => recordAt m (offset + 11 + be16 m (offset + 9)) k

/-- Among the first `count` records at the root there is an OPT; it starts here, and up to its
end everything is at the root and fits. -/
structure FirstOpt (m : Memory) (length offset count opt : ℕ) : Prop where
  reached : ∃ k < count, opt = recordAt m offset k ∧
    (∀ j ≤ k, RootRecord m length (recordAt m offset j)) ∧
    ∀ j < k, be16 m (recordAt m offset j + 1) ≠ typeOpt
  type : be16 m (opt + 1) = typeOpt

theorem firstOpt_succ_iff {m : Memory} {length offset count opt : ℕ} :
    FirstOpt m length offset (count + 1) opt ↔
      RootRecord m length offset ∧
        (be16 m (offset + 1) = typeOpt ∧ opt = offset ∨
          be16 m (offset + 1) ≠ typeOpt ∧
            FirstOpt m length (offset + 11 + be16 m (offset + 9)) count opt) := by
  constructor
  · rintro ⟨⟨k, hk, rfl, hroot, hbefore⟩, htype⟩
    refine ⟨hroot 0 (Nat.zero_le _), ?_⟩
    cases k with
    | zero => exact Or.inl ⟨htype, rfl⟩
    | succ k =>
        exact Or.inr ⟨hbefore 0 (Nat.succ_pos k), ⟨k, Nat.lt_of_succ_lt_succ hk, rfl,
          fun j hj => hroot (j + 1) (Nat.succ_le_succ hj),
          fun j hj => hbefore (j + 1) (Nat.succ_lt_succ hj)⟩, htype⟩
  · rintro ⟨hroot, ⟨htype, rfl⟩ | ⟨hother, ⟨k, hk, rfl, hroots, hbefore⟩, htype⟩⟩
    · exact ⟨⟨0, Nat.succ_pos _, rfl, fun j hj => Nat.le_zero.1 hj ▸ hroot, nofun⟩, htype⟩
    · refine ⟨⟨k + 1, Nat.succ_lt_succ hk, rfl, fun j hj => ?_, fun j hj => ?_⟩, htype⟩
      · cases j with
        | zero => exact hroot
        | succ j => exact hroots j (Nat.le_of_succ_le_succ hj)
      · cases j with
        | zero => exact hother
        | succ j => exact hbefore j (Nat.lt_of_succ_lt_succ hj)

theorem ednsLoop_iff {m : Memory} {length count offset : ℕ} {found : ℕ × Bool} :
    ednsLoop m length count offset = some found ↔
      ∃ opt, FirstOpt m length offset count opt ∧
        found = (be16 m (opt + 3), (be32 m (opt + 5)).testBit 15) := by
  induction count generalizing offset with
  | zero =>
      refine ⟨nofun, ?_⟩
      rintro ⟨opt, ⟨⟨k, hk, -⟩, -⟩, -⟩
      cases hk
  | succ count ih =>
      rw [ednsLoop]
      dsimp only
      by_cases hroot : RootRecord m length offset
      · rw [if_neg (by have := hroot.fits; simp [hroot.root]; omega),
          if_neg (Nat.not_lt.2 hroot.fits)]
        by_cases htype : be16 m (offset + 1) = typeOpt
        · rw [if_pos htype]
          simp [firstOpt_succ_iff, hroot, htype, eq_comm]
        · rw [if_neg htype, ih]
          simp [firstOpt_succ_iff, hroot, htype]
      · have hnone : ¬ ∃ opt, FirstOpt m length offset (count + 1) opt ∧
            found = (be16 m (opt + 3), (be32 m (opt + 5)).testBit 15) := by
          rintro ⟨opt, hopt, -⟩
          exact hroot (firstOpt_succ_iff.1 hopt).1
        refine iff_of_false ?_ hnone
        split
        · nofun
        · rename_i hhere
          rw [not_or, not_not] at hhere
          rw [if_pos]
          · nofun
          · by_contra hfits
            exact hroot ⟨hhere.2, Nat.not_lt.1 hfits⟩

/-! ## The whole query -/

/-- A query with an intact header and one question in the class Internet. -/
structure IsQuery (m : Memory) (length : ℕ) (labels : List Bytes) : Prop where
  header : headerSize ≤ length
  query : (be16 m 2).testBit 15 = false
  opcode : be16 m 2 / 2048 % 16 = 0
  count : be16 m 4 = 1
  spells : Spells m length labels
  internet : be16 m (headerSize + (nameText labels).length + 2) = classInternet

/-- What the header says about a query. -/
def headed (m : Memory) : Query :=
  { id := be16 m 0
    opcode := be16 m 2 / 2048 % 16
    recursionDesired := (be16 m 2).testBit 8 }

/-- What is known of a query before its records are looked at. -/
def asked (m : Memory) (labels : List Bytes) : Query :=
  { headed m with
    type := be16 m (headerSize + (nameText labels).length)
    name := lower (dotted labels)
    question := slice m headerSize ((nameText labels).length + 4) }

section

variable {m : Memory} {length : ℕ}

theorem parseQuery_of_short (h : length < headerSize) : parseQuery m length = ({}, false) := by
  rw [parseQuery, if_pos h]

theorem parseQuery_of_response (h : (be16 m 2).testBit 15 = true) :
    parseQuery m length = ({}, false) := by
  rw [parseQuery]
  split
  · rfl
  · simp only [h, if_true]

theorem parseQuery_of_opcode (hheader : headerSize ≤ length)
    (hquery : (be16 m 2).testBit 15 = false) (hopcode : be16 m 2 / 2048 % 16 ≠ 0) :
    parseQuery m length = ({ headed m with error := rcodeNotImp }, false) := by
  rw [parseQuery, if_neg (Nat.not_lt.2 hheader)]
  simp only [hquery, Bool.false_eq_true, if_false, if_pos hopcode, headed]

variable (hheader : headerSize ≤ length) (hquery : (be16 m 2).testBit 15 = false)
  (hopcode : be16 m 2 / 2048 % 16 = 0)

include hheader hquery hopcode

theorem parseQuery_of_count (hcount : be16 m 4 ≠ 1) :
    parseQuery m length = ({ headed m with error := rcodeFormErr }, false) := by
  rw [parseQuery, if_neg (Nat.not_lt.2 hheader)]
  simp only [hquery, Bool.false_eq_true, if_false, hopcode, ne_eq, not_true_eq_false,
    if_pos hcount, headed]

variable (hcount : be16 m 4 = 1)

include hcount

theorem parseQuery_of_not_spells (h : ¬ ∃ labels, Spells m length labels) :
    parseQuery m length = ({ headed m with error := rcodeFormErr }, false) := by
  rw [parseQuery, if_neg (Nat.not_lt.2 hheader)]
  simp only [hquery, Bool.false_eq_true, if_false, hopcode, hcount, ne_eq, not_true_eq_false,
    headed]
  split
  · rfl
  · rename_i name offset hread
    rw [if_pos]
    by_contra hfull
    rw [not_or, Nat.not_lt] at hfull
    obtain ⟨labels, hspells, -⟩ := nameLoop_iff.1 ⟨hread, hfull⟩
    exact h ⟨labels, hspells⟩

theorem parseQuery_of_spells {labels : List Bytes} (h : Spells m length labels) :
    parseQuery m length =
      if be16 m (headerSize + (nameText labels).length + 2) = classInternet then
        (parseEdns m length (headerSize + (nameText labels).length + 4) (asked m labels), true)
      else ({ headed m with error := rcodeNotImp }, false) := by
  obtain ⟨hread, hname, hinside⟩ := nameLoop_iff.2 ⟨labels, h, rfl, rfl⟩
  have hsize : headerSize + (nameText labels).length + 4 - headerSize =
      (nameText labels).length + 4 := by omega
  rw [parseQuery, if_neg (Nat.not_lt.2 hheader)]
  simp only [hquery, Bool.false_eq_true, if_false, hopcode, hcount, ne_eq, not_true_eq_false, hread]
  rw [if_neg (by simp only [hname, false_or]; omega), ite_not, hsize]
  simp only [asked, headed, hopcode]

end

/-! ## With checked reads -/

namespace Checked

def ednsLoop (m : Memory) (length : ℕ) : ℕ → ℕ → Option (Option (ℕ × Bool))
  | 0, _ => some none
  | count + 1, offset =>
      if offset + 11 > length then some none
      else
        (loadByte m length offset).bind fun root =>
          if root ≠ 0 then some none
          else
            (load16 m length (offset + 1)).bind fun type =>
              (load16 m length (offset + 3)).bind fun recordClass =>
                (load32 m length (offset + 5)).bind fun ttl =>
                  (load16 m length (offset + 9)).bind fun rdLength =>
                    if offset + 11 + rdLength > length then some none
                    else if type = typeOpt then some (some (recordClass, ttl.testBit 15))
                    else ednsLoop m length count (offset + 11 + rdLength)

def parseEdns (m : Memory) (length offset : ℕ) (out : Query) : Option Query :=
  (load16 m length 6).bind fun answers =>
    if answers ≠ 0 then some out
    else
      (load16 m length 8).bind fun authority =>
        if authority ≠ 0 then some out
        else
          (load16 m length 10).bind fun count =>
            (ednsLoop m length count offset).map fun
              | none => out
              | some (ednsPayload, dnssecOk) => { out with ednsPayload, dnssecOk }

/-- A name that does not come to its end within the rounds is no result. -/
def nameLoop (m : Memory) (length : ℕ) : ℕ → ℕ → Bytes → Option (Option (Bytes × ℕ))
  | 0, _, _ => none
  | fuel + 1, offset, name =>
      if offset ≥ length then some none
      else
        (loadByte m length offset).bind fun labelLength =>
          let labelLength := labelLength.toNat
          let offset := offset + 1
          if labelLength = 0 then some (some (name, offset))
          else if labelLength > 63 ∨ offset + labelLength > length then some none
          else if (withDot name).length + labelLength > maxNameLength then some none
          else
            (loadSlice m length offset labelLength).bind fun bytes =>
              let label := lower bytes
              if !label.all isNameChar then some none
              else nameLoop m length fuel (offset + labelLength) (withDot name ++ label)

def parseQuery (m : Memory) (length : ℕ) : Option (Query × Bool) :=
  if length < headerSize then some ({}, false)
  else
    (load16 m length 2).bind fun flags =>
      if flags.testBit 15 then some ({}, false)
      else
        (load16 m length 0).bind fun id =>
          let out : Query :=
            { id, opcode := flags / 2048 % 16, recursionDesired := flags.testBit 8 }
          if out.opcode ≠ 0 then some ({ out with error := rcodeNotImp }, false)
          else
            let malformed : Query := { out with error := rcodeFormErr }
            (load16 m length 4).bind fun count =>
              if count ≠ 1 then some (malformed, false)
              else
                (nameLoop m length (length + 1) headerSize []).bind fun
                  | none => some (malformed, false)
                  | some (name, offset) =>
                      if name = [] ∨ offset + 4 > length then some (malformed, false)
                      else
                        (load16 m length offset).bind fun type =>
                          (load16 m length (offset + 2)).bind fun queryClass =>
                            if queryClass ≠ classInternet then
                              some ({ out with error := rcodeNotImp }, false)
                            else
                              (loadSlice m length headerSize (offset + 4 - headerSize)).bind
                                fun question =>
                                  (parseEdns m length (offset + 4)
                                      { out with type, name, question }).map fun query =>
                                    (query, true)

theorem ednsLoop_eq (m : Memory) (length count offset : ℕ) :
    ednsLoop m length count offset = some (Dns.ednsLoop m length count offset) := by
  induction count generalizing offset with
  | zero => rfl
  | succ count ih =>
      rw [ednsLoop, Dns.ednsLoop]
      by_cases hfits : offset + 11 > length
      · rw [if_pos hfits, if_pos (Or.inl hfits)]
      rw [if_neg hfits, loadByte_of_lt (by omega), Option.bind_some]
      by_cases hroot : m offset = 0
      · rw [if_neg (not_not.2 hroot), if_neg (by simp [hfits, hroot]), load16_of_le (by omega),
          load16_of_le (by omega), load32_of_le (by omega), load16_of_le (by omega)]
        simp only [Option.bind_some, ih]
        split_ifs <;> rfl
      · rw [if_pos hroot, if_pos (Or.inr hroot)]

theorem parseEdns_eq {m : Memory} {length : ℕ} (hheader : headerSize ≤ length) (offset : ℕ)
    (out : Query) : parseEdns m length offset out = some (Dns.parseEdns m length offset out) := by
  have hsize : headerSize = 12 := rfl
  rw [parseEdns, Dns.parseEdns, load16_of_le (by omega), load16_of_le (by omega),
    load16_of_le (by omega)]
  simp only [Option.bind_some, ednsLoop_eq, Option.map_some]
  by_cases hanswers : be16 m 6 = 0
  · by_cases hauthority : be16 m 8 = 0
    · cases Dns.ednsLoop m length (be16 m 10) offset with
      | none => simp [hanswers, hauthority]
      | some edns => simp [hanswers, hauthority]
    · simp [hanswers, hauthority]
  · simp [hanswers]

theorem nameLoop_eq (m : Memory) (length : ℕ) {fuel offset : ℕ} (name : Bytes)
    (hfuel : length < offset + fuel) (hpos : 0 < fuel) :
    nameLoop m length fuel offset name = some (Dns.nameLoop m length fuel offset name) := by
  induction fuel generalizing offset name with
  | zero => cases hpos
  | succ fuel ih =>
      rw [nameLoop, Dns.nameLoop]
      by_cases hinside : offset ≥ length
      · rw [if_pos hinside, if_pos hinside]
      rw [if_neg hinside, if_neg hinside, loadByte_of_lt (by omega), Option.bind_some]
      dsimp only
      by_cases hend : (m offset).toNat = 0
      · rw [if_pos hend, if_pos hend]
      rw [if_neg hend, if_neg hend]
      by_cases hlabel : (m offset).toNat > 63 ∨ offset + 1 + (m offset).toNat > length
      · rw [if_pos hlabel, if_pos hlabel]
      rw [if_neg hlabel, if_neg hlabel, loadSlice_of_le (by omega), Option.bind_some]
      split_ifs
      · rfl
      · rfl
      · exact ih _ (by omega) (by omega)

/-- Every byte that the parser reads is a byte of the message. -/
theorem parseQuery_eq (m : Memory) (length : ℕ) :
    parseQuery m length = some (Dns.parseQuery m length) := by
  have hsize : headerSize = 12 := rfl
  rw [parseQuery, Dns.parseQuery]
  by_cases hheader : length < headerSize
  · rw [if_pos hheader, if_pos hheader]
  rw [if_neg hheader, if_neg hheader, load16_of_le (by omega), load16_of_le (by omega),
    load16_of_le (by omega), nameLoop_eq m length [] (by omega) (by omega)]
  simp only [Option.bind_some]
  split_ifs
  · rfl
  · rfl
  · rfl
  · cases hname : Dns.nameLoop m length (length + 1) headerSize [] with
    | none => rfl
    | some read =>
        obtain ⟨name, offset⟩ := read
        dsimp only
        by_cases hfull : name = [] ∨ offset + 4 > length
        · rw [if_pos hfull, if_pos hfull]
        · rw [if_neg hfull, if_neg hfull, load16_of_le (by omega), load16_of_le (by omega),
            loadSlice_of_le (by omega)]
          simp only [Option.bind_some, parseEdns_eq (Nat.not_lt.1 hheader), Option.map_some]
          split_ifs <;> rfl

end Checked

/-- What a query says about EDNS: nothing, unless its answer and authority sections are empty
and its additional section begins with records at the root, of which one is an OPT. -/
structure EdnsOf (m : Memory) (length offset : ℕ) (query : Query) : Prop where
  found : be16 m 6 = 0 → be16 m 8 = 0 → ∀ opt, FirstOpt m length offset (be16 m 10) opt →
    query.ednsPayload = be16 m (opt + 3) ∧ query.dnssecOk = (be32 m (opt + 5)).testBit 15
  absent : (be16 m 6 ≠ 0 ∨ be16 m 8 ≠ 0 ∨ ∀ opt, ¬ FirstOpt m length offset (be16 m 10) opt) →
    query.ednsPayload = 0 ∧ query.dnssecOk = false

theorem parseEdns_ednsOf (m : Memory) (length offset : ℕ) {query : Query}
    (hpayload : query.ednsPayload = 0) (hdnssec : query.dnssecOk = false) :
    EdnsOf m length offset (parseEdns m length offset query) := by
  rw [parseEdns]
  split
  · rename_i hcounts
    refine ⟨fun hanswers hauthority => ?_, fun _ => ⟨hpayload, hdnssec⟩⟩
    exact absurd hcounts (by simp [hanswers, hauthority])
  · rename_i hcounts
    rw [not_or, not_not, not_not] at hcounts
    cases hloop : ednsLoop m length (be16 m 10) offset with
    | none =>
        refine ⟨fun _ _ opt hopt => ?_, fun _ => ⟨hpayload, hdnssec⟩⟩
        have hfound := ednsLoop_iff.2 ⟨opt, hopt, rfl⟩
        rw [hloop] at hfound
        cases hfound
    | some found =>
        obtain ⟨opt, hopt, rfl⟩ := ednsLoop_iff.1 hloop
        refine ⟨fun _ _ opt' hopt' => ?_, ?_⟩
        · have hfound := ednsLoop_iff.2 ⟨opt', hopt', rfl⟩
          rw [hloop] at hfound
          exact ⟨congrArg Prod.fst (Option.some.inj hfound),
            congrArg Prod.snd (Option.some.inj hfound)⟩
        · rintro (hanswers | hauthority | hnone)
          · exact absurd hcounts.1 hanswers
          · exact absurd hcounts.2 hauthority
          · exact absurd hopt (hnone opt)

/-- A header that can be read, and is no answer's. -/
def Readable (m : Memory) (length : ℕ) : Prop :=
  headerSize ≤ length ∧ (be16 m 2).testBit 15 = false

/-- A query of another kind: another opcode, or a question in another class. -/
def Foreign (m : Memory) (length : ℕ) : Prop :=
  be16 m 2 / 2048 % 16 ≠ 0 ∨
    be16 m 4 = 1 ∧ ∃ labels, Spells m length labels ∧
      be16 m (headerSize + (nameText labels).length + 2) ≠ classInternet

/-- The code that goes with a message that is refused. -/
structure RefusedWith (m : Memory) (length error : ℕ) : Prop where
  unreadable : ¬ Readable m length → error = 0
  foreign : Readable m length → Foreign m length → error = rcodeNotImp
  malformed : Readable m length → ¬ Foreign m length → error = rcodeFormErr

theorem IsQuery.parseQuery {labels : List Bytes} {m : Memory} {length : ℕ}
    (h : IsQuery m length labels) :
    Dns.parseQuery m length =
      (parseEdns m length (headerSize + (nameText labels).length + 4) (asked m labels), true) := by
  rw [parseQuery_of_spells h.header h.query h.opcode h.count h.spells, if_pos h.internet]

theorem not_readable_cases {m : Memory} {length : ℕ} (h : ¬ Readable m length) :
    parseQuery m length = ({}, false) := by
  by_cases hheader : length < headerSize
  · exact parseQuery_of_short hheader
  · refine parseQuery_of_response ?_
    by_contra hquery
    exact h ⟨Nat.not_lt.1 hheader, Bool.not_eq_true _ ▸ hquery⟩

/-- Every readable query is one of the grammar, of another kind, or malformed. -/
theorem readable_cases {m : Memory} {length : ℕ} (h : Readable m length) :
    (∃ labels, IsQuery m length labels) ∨
      (Foreign m length ∧ parseQuery m length = ({ headed m with error := rcodeNotImp }, false)) ∨
      (¬ Foreign m length ∧
        parseQuery m length = ({ headed m with error := rcodeFormErr }, false)) := by
  obtain ⟨hheader, hquery⟩ := h
  by_cases hopcode : be16 m 2 / 2048 % 16 = 0
  · by_cases hcount : be16 m 4 = 1
    · by_cases hspells : ∃ labels, Spells m length labels
      · obtain ⟨labels, hspells⟩ := hspells
        have hparse := parseQuery_of_spells hheader hquery hopcode hcount hspells
        by_cases hclass : be16 m (headerSize + (nameText labels).length + 2) = classInternet
        · exact Or.inl ⟨labels, hheader, hquery, hopcode, hcount, hspells, hclass⟩
        · rw [if_neg hclass] at hparse
          exact Or.inr (Or.inl ⟨Or.inr ⟨hcount, labels, hspells, hclass⟩, hparse⟩)
      · refine Or.inr (Or.inr ⟨?_,
          parseQuery_of_not_spells hheader hquery hopcode hcount hspells⟩)
        rintro (hother | ⟨-, labels, hlabels, -⟩)
        · exact hother hopcode
        · exact hspells ⟨labels, hlabels⟩
    · refine Or.inr (Or.inr ⟨?_, parseQuery_of_count hheader hquery hopcode hcount⟩)
      rintro (hother | ⟨hone, -⟩)
      · exact hother hopcode
      · exact hcount hone
  · exact Or.inr (Or.inl ⟨Or.inl hopcode, parseQuery_of_opcode hheader hquery hopcode⟩)

theorem refusedWith_of_refused {m : Memory} {length : ℕ} (h : (parseQuery m length).2 = false) :
    RefusedWith m length (parseQuery m length).1.error := by
  by_cases hreadable : Readable m length
  · rcases readable_cases hreadable with ⟨labels, hquery⟩ | ⟨hforeign, hparse⟩ |
      ⟨hforeign, hparse⟩
    · rw [hquery.parseQuery] at h
      cases h
    · rw [hparse]
      exact ⟨absurd hreadable, fun _ _ => rfl, fun _ hnot => absurd hforeign hnot⟩
    · rw [hparse]
      exact ⟨absurd hreadable, fun _ hnot => absurd hnot hforeign, fun _ _ => rfl⟩
  · rw [not_readable_cases hreadable]
    exact ⟨fun _ => rfl, fun hnot => absurd hnot hreadable, fun hnot => absurd hnot hreadable⟩

/-- The parser accepts its grammar and nothing else, reads from a query what it says, tells
what is wrong with any other message, and stays inside the message. -/
theorem parseQuery_exact (m : Memory) (length : ℕ) :
    ((parseQuery m length).2 = true ↔ ∃ labels, IsQuery m length labels) ∧
    (∀ labels, IsQuery m length labels →
      (parseQuery m length).1.name = lower (dotted labels) ∧
      (parseQuery m length).1.question = slice m headerSize ((nameText labels).length + 4) ∧
      (parseQuery m length).1.type = be16 m (headerSize + (nameText labels).length) ∧
      EdnsOf m length (headerSize + (nameText labels).length + 4) (parseQuery m length).1) ∧
    ((parseQuery m length).2 = false → RefusedWith m length (parseQuery m length).1.error) ∧
    Checked.parseQuery m length = some (parseQuery m length) := by
  refine ⟨⟨fun h => ?_, ?_⟩, fun labels hquery => ?_, refusedWith_of_refused,
    Checked.parseQuery_eq m length⟩
  · by_cases hreadable : Readable m length
    · rcases readable_cases hreadable with hquery | ⟨-, hparse⟩ | ⟨-, hparse⟩
      · exact hquery
      · rw [hparse] at h
        cases h
      · rw [hparse] at h
        cases h
    · rw [not_readable_cases hreadable] at h
      cases h
  · rintro ⟨labels, hquery⟩
    rw [hquery.parseQuery]
  · rw [hquery.parseQuery]
    obtain ⟨-, htype, hname, hquestion, -⟩ := parseEdns_same m length
      (headerSize + (nameText labels).length + 4) (asked m labels)
    exact ⟨hname, hquestion, htype, parseEdns_ednsOf m length _ rfl rfl⟩

/-- A query that carries an answer, and the OPT record in its additional section; and one
whose OPT record is cut off. Both records are at the root, and neither is looked at. -/
theorem opt_overlooked :
    let head : Bytes := [0, 1, 1, 0, 0, 1]
    let question : Bytes := [1, 97, 0, 0, 1, 0, 1]
    let answer : Bytes := [0, 0, 1, 0, 1, 0, 0, 0, 0, 0, 0]
    let opt : Bytes := [0, 0, 41, 4, 208, 0, 0, 0, 0, 0, 0]
    let cut : Bytes := [0, 0, 41, 4, 208, 0, 0, 0, 0, 0, 1]
    let message := head ++ [0, 1, 0, 0, 0, 1] ++ question ++ answer ++ opt
    let message' := head ++ [0, 0, 0, 0, 0, 1] ++ question ++ cut
    (parseQuery (memory message) message.length).2 = true ∧
      RootRecord (memory message) message.length 19 ∧
      RootRecord (memory message) message.length 30 ∧
      be16 (memory message) 31 = typeOpt ∧ be16 (memory message) 33 = 1232 ∧
      (parseQuery (memory message) message.length).1.ednsPayload = 0 ∧
    (parseQuery (memory message') message'.length).2 = true ∧
      be16 (memory message') 20 = typeOpt ∧ be16 (memory message') 22 = 1232 ∧
      (parseQuery (memory message') message'.length).1.ednsPayload = 0 := by
  refine ⟨by decide +kernel, ⟨rfl, by decide +kernel⟩, ⟨rfl, by decide +kernel⟩, ?_⟩
  decide +kernel

end Dns

end SplitHello
