import SplitHello.Tls.Encoding

/-!
# The name in a ClientHello

A hello may carry several server_name extensions and each of them several entries.
The parser takes the first host_name entry of an extension, and goes on to the next
extension when that name is empty. `NamedAt` says the same of the extensions that
were encoded, with the offset at which the bytes of the name were written.
-/

namespace SplitHello

namespace Tls

open ByteString

/-- The first host_name entry of a server_name extension. -/
def Extension.hostName : Extension → Option Bytes
  | .serverName entries => (entries.find? fun entry => entry.type = 0).map NameEntry.name
  | .other .. => none

/-- The name is the first host_name of an extension, it is not empty, and no earlier
extension has such a one; the offset is that of its bytes from the first extension on. -/
def NamedAt (extensions : List Extension) (offset : ℕ) (name : Bytes) : Prop :=
  ∃ earlier skipped others later,
    extensions = earlier ++ .serverName (skipped ++ ⟨0, name⟩ :: others) :: later ∧
      (∀ e ∈ earlier, ∀ n, e.hostName = some n → n = []) ∧
      (∀ entry ∈ skipped, entry.type ≠ 0) ∧ name ≠ [] ∧
      offset = (earlier.flatMap Extension.encode).length + 6 +
        (skipped.flatMap NameEntry.encode).length + 3

theorem hostNameAt_cases (p : ℕ) (entries : List NameEntry) :
    hostNameAt p entries = none ∧ (Extension.serverName entries).hostName = none ∨
      ∃ skipped name others, entries = skipped ++ ⟨0, name⟩ :: others ∧
        (∀ entry ∈ skipped, entry.type ≠ 0) ∧
        (Extension.serverName entries).hostName = some name ∧
        hostNameAt p entries = some (p + (skipped.flatMap NameEntry.encode).length + 3, name) := by
  induction entries generalizing p with
  | nil => exact Or.inl ⟨rfl, rfl⟩
  | cons e entries ih =>
      by_cases hhost : e.type = 0
      · obtain ⟨type, name⟩ := e
        dsimp only at hhost
        subst hhost
        exact Or.inr ⟨[], name, entries, rfl, by simp, rfl, rfl⟩
      · have hskip : (Extension.serverName (e :: entries)).hostName =
            (Extension.serverName entries).hostName := by
          simp [Extension.hostName, hhost]
        rw [hskip, hostNameAt, if_neg hhost]
        rcases ih (p + e.encode.length) with
          hnone | ⟨skipped, name, others, rfl, htypes, hname, hat⟩
        · exact Or.inl hnone
        · refine Or.inr ⟨e :: skipped, name, others, rfl, ?_, hname, ?_⟩
          · intro entry hentry
            rcases List.mem_cons.1 hentry with rfl | hentry
            · exact hhost
            · exact htypes entry hentry
          · rw [hat, List.flatMap_cons, List.length_append, Nat.add_assoc p]

/-- An extension without a name moves the others along. -/
theorem namedAt_cons {e : Extension} (h : ∀ n, e.hostName = some n → n = [])
    (extensions : List Extension) (offset : ℕ) (name : Bytes) :
    NamedAt (e :: extensions) offset name ↔
      ∃ o, offset = e.encode.length + o ∧ NamedAt extensions o name := by
  constructor
  · rintro ⟨earlier, skipped, others, later, heq, hearlier, hskipped, hne, rfl⟩
    cases earlier with
    | nil =>
        obtain ⟨rfl, -⟩ := List.cons.inj heq
        have hfirst : (Extension.serverName (skipped ++ ⟨0, name⟩ :: others)).hostName =
            some name := by
          have hnone : skipped.find? (fun entry => entry.type = 0) = none := by
            rw [List.find?_eq_none]
            intro entry hentry
            simpa using hskipped entry hentry
          simp [Extension.hostName, List.find?_append, hnone]
        exact absurd (h name hfirst) hne
    | cons e' earlier =>
        obtain ⟨rfl, rfl⟩ := List.cons.inj heq
        refine ⟨_, ?_, earlier, skipped, others, later, rfl,
          fun e' he' => hearlier e' (List.mem_cons_of_mem e he'), hskipped, hne, rfl⟩
        rw [List.flatMap_cons, List.length_append]
        omega
  · rintro ⟨o, rfl, earlier, skipped, others, later, rfl, hearlier, hskipped, hne, rfl⟩
    refine ⟨e :: earlier, skipped, others, later, rfl, ?_, hskipped, hne, ?_⟩
    · intro e' he'
      rcases List.mem_cons.1 he' with rfl | he'
      · exact h
      · exact hearlier e' he'
    · rw [List.flatMap_cons, List.length_append]
      omega

/-- The bytes at the offset are the name. -/
theorem NamedAt.at {data : Memory} {extensions : List Extension} {p offset : ℕ} {name : Bytes}
    (h : NamedAt extensions offset name)
    (hat : At data p (extensions.flatMap Extension.encode)) : At data (p + offset) name := by
  obtain ⟨earlier, skipped, others, later, rfl, -, -, -, rfl⟩ := h
  rw [List.flatMap_append, List.flatMap_cons] at hat
  obtain ⟨hencoded, -⟩ := at_append.1 (at_append.1 hat).2
  obtain ⟨-, hbody⟩ := at_append.1 (at_append.1 hencoded).2
  obtain ⟨-, hlist⟩ := at_append.1 hbody
  rw [List.flatMap_append, List.flatMap_cons] at hlist
  obtain ⟨hentry, -⟩ := at_append.1 (at_append.1 hlist).2
  obtain ⟨-, hname⟩ := at_append.1 (at_cons.1 hentry).2
  simp only [length_put16] at hname
  convert hname using 1
  omega

/-! ## What all extensions together leave -/

theorem note_sameRecord (out : ClientHello) (p : ℕ) (e : Extension) :
    SameRecord out (out.note p e) := by
  cases e with
  | serverName entries =>
      rw [ClientHello.note]
      split
      · exact SameRecord.refl out
      · cases hostNameAt (p + 6) entries with
        | none => exact SameRecord.refl out
        | some found => exact ⟨rfl, rfl, rfl⟩
  | other type body type_lt type_ne =>
      rw [ClientHello.note]
      split
      · exact ⟨rfl, rfl, rfl⟩
      · exact SameRecord.refl out

theorem noteAll_sameRecord (out : ClientHello) (p : ℕ) (extensions : List Extension) :
    SameRecord out (out.noteAll p extensions) := by
  induction extensions generalizing out p with
  | nil => exact SameRecord.refl out
  | cons e extensions ih => exact (note_sameRecord out p e).trans (ih _ _)

theorem note_hasEch (out : ClientHello) (p : ℕ) (e : Extension) :
    (out.note p e).hasEch = true ↔
      out.hasEch = true ∨ e.type = extEncryptedClientHello := by
  cases e with
  | serverName entries =>
      have hne : ¬ extServerName = extEncryptedClientHello := by decide
      have hsame : (out.note p (.serverName entries)).hasEch = out.hasEch := by
        rw [ClientHello.note]
        split
        · rfl
        · cases hostNameAt (p + 6) entries with
          | none => rfl
          | some found => rfl
      rw [hsame]
      exact ⟨Or.inl, fun h => h.resolve_right hne⟩
  | other type body type_lt type_ne =>
      rw [ClientHello.note, Extension.type]
      split
      · simp [*]
      · simp [*]

theorem noteAll_hasEch (out : ClientHello) (p : ℕ) (extensions : List Extension) :
    (out.noteAll p extensions).hasEch = true ↔
      out.hasEch = true ∨ ∃ e ∈ extensions, e.type = extEncryptedClientHello := by
  induction extensions generalizing out p with
  | nil => simp [ClientHello.noteAll]
  | cons e extensions ih =>
      rw [ClientHello.noteAll, ih, note_hasEch]
      simp [or_assoc]

/-- The two hellos name the same server at the same place. -/
structure SameName (out out' : ClientHello) : Prop where
  offset : out'.sniOffset = out.sniOffset
  length : out'.sniLength = out.sniLength
  name : out'.serverName = out.serverName

theorem SameName.hasSni {out out' : ClientHello} (h : SameName out out') :
    out'.hasSni = out.hasSni := by
  rw [ClientHello.hasSni, ClientHello.hasSni, h.length]

theorem note_other (out : ClientHello) (p type : ℕ) (body : Bytes) (type_lt : type < 65536)
    (type_ne : type ≠ extServerName) :
    SameName out (out.note p (.other type body type_lt type_ne)) := by
  rw [ClientHello.note]
  split
  · exact ⟨rfl, rfl, rfl⟩
  · exact ⟨rfl, rfl, rfl⟩

/-- A name that was found stays. -/
theorem noteAll_of_hasSni {out : ClientHello} (h : out.hasSni = true) (p : ℕ)
    (extensions : List Extension) : SameName out (out.noteAll p extensions) := by
  induction extensions generalizing out p with
  | nil => exact ⟨rfl, rfl, rfl⟩
  | cons e extensions ih =>
      have hstep : SameName out (out.note p e) := by
        cases e with
        | serverName entries =>
            rw [ClientHello.note, if_pos h]
            exact ⟨rfl, rfl, rfl⟩
        | other type body type_lt type_ne => exact note_other out p type body type_lt type_ne
      have hrest := ih (hstep.hasSni.trans h) (p + e.encode.length)
      exact ⟨hrest.offset.trans hstep.offset, hrest.length.trans hstep.length,
        hrest.name.trans hstep.name⟩

/-- The hello names this server, or none. -/
structure Names (out : ClientHello) (offset : ℕ) (name : Bytes) : Prop where
  offset : out.sniOffset = offset
  length : out.sniLength = name.length
  name : out.serverName = name

structure Nameless (out : ClientHello) : Prop where
  length : out.sniLength = 0
  name : out.serverName = []

theorem Nameless.hasSni {out : ClientHello} (h : Nameless out) : out.hasSni = false := by
  rw [ClientHello.hasSni, h.length]
  rfl

/-- The name that all extensions together leave in a hello that had none. -/
theorem noteAll_names {out : ClientHello} (h : Nameless out) (p : ℕ)
    (extensions : List Extension) :
    (∃ offset name, NamedAt extensions offset name ∧
        Names (out.noteAll p extensions) (p + offset) name) ∨
      (∀ offset name, ¬ NamedAt extensions offset name) ∧
        Nameless (out.noteAll p extensions) := by
  induction extensions generalizing out p with
  | nil =>
      refine Or.inr ⟨?_, h⟩
      rintro offset name ⟨earlier, skipped, others, later, heq, -⟩
      simp at heq
  | cons e extensions ih =>
      -- An extension that leaves the hello without a name is followed by the others.
      have hunnamed : (∀ n, e.hostName = some n → n = []) → Nameless (out.note p e) →
          (∃ offset name, NamedAt (e :: extensions) offset name ∧
              Names (out.noteAll p (e :: extensions)) (p + offset) name) ∨
            (∀ offset name, ¬ NamedAt (e :: extensions) offset name) ∧
              Nameless (out.noteAll p (e :: extensions)) := by
        intro hempty hnameless
        rcases ih hnameless (p + e.encode.length) with ⟨o, name, hnamed, hnames⟩ | ⟨hnone, hstill⟩
        · refine Or.inl ⟨e.encode.length + o, name, ?_, ?_⟩
          · exact (namedAt_cons hempty _ _ _).2 ⟨o, rfl, hnamed⟩
          · rw [ClientHello.noteAll, ← Nat.add_assoc]
            exact hnames
        · refine Or.inr ⟨fun offset name hnamed => ?_, hstill⟩
          obtain ⟨o, -, hnamed⟩ := (namedAt_cons hempty _ _ _).1 hnamed
          exact hnone o name hnamed
      cases e with
      | other type body type_lt type_ne =>
          have hsame := note_other out p type body type_lt type_ne
          refine hunnamed ?_ ⟨hsame.length.trans h.length, hsame.name.trans h.name⟩
          intro n hn
          cases hn
      | serverName entries =>
          have hnote : out.note p (.serverName entries) =
              out.named (hostNameAt (p + 6) entries) := by
            rw [ClientHello.note, h.hasSni]
            rfl
          rcases hostNameAt_cases (p + 6) entries with
            ⟨hat, hname⟩ | ⟨skipped, name, others, rfl, htypes, hname, hat⟩
          · refine hunnamed (fun n hn => by rw [hname] at hn; cases hn) ?_
            rw [hnote, hat]
            exact h
          · by_cases hempty : name = []
            · refine hunnamed (fun n hn => ?_) ?_
              · rw [hname] at hn
                rw [← Option.some.inj hn]
                exact hempty
              · rw [hnote, hat, hempty]
                exact ⟨rfl, rfl⟩
            · have hsni : (out.note p (.serverName (skipped ++ ⟨0, name⟩ :: others))).hasSni =
                  true := by
                rw [hnote, hat]
                simpa [ClientHello.named, ClientHello.hasSni] using List.length_pos_iff.2 hempty
              have hstays := noteAll_of_hasSni hsni
                (p + (Extension.serverName (skipped ++ ⟨0, name⟩ :: others)).encode.length)
                extensions
              rw [hnote, hat] at hstays
              refine Or.inl ⟨_, name, ⟨[], skipped, others, extensions, rfl, by simp, htypes,
                hempty, rfl⟩, ?_⟩
              rw [ClientHello.noteAll, hnote, hat]
              refine ⟨hstays.offset.trans ?_, hstays.length, hstays.name⟩
              simp only [ClientHello.named, List.flatMap_nil, List.length_nil]
              omega

theorem at_blockStart (h : Hello) (rest : Bytes) :
    At (memory (h.encode ++ rest)) h.blockStart
      ((h.extensions.getD []).flatMap Extension.encode) := by
  obtain ⟨-, hvector⟩ := at_append.1 (at_memory_append h.encode rest)
  obtain ⟨-, hhandshake⟩ := at_append.1 hvector
  obtain ⟨-, hbody⟩ := at_append.1 (at_cons.1 hhandshake).2
  obtain ⟨-, hblock⟩ := at_append.1 hbody
  cases hextensions : h.extensions with
  | none => exact at_nil _ _
  | some extensions =>
      rw [HelloParts.extensionBlock, hextensions] at hblock
      exact (at_append.1 hblock).2

/-- The parser inverts the encoding of a ClientHello. -/
theorem parseClientHello_inverts_encode (h : Hello) (rest : Bytes) :
    ∃ parsed, parseClientHello (memory (h.encode ++ rest)) (h.encode ++ rest).length =
        (.ok, parsed) ∧
      parsed.recordPayloadLength = h.handshake.length ∧
      parsed.recordTotalLength = h.encode.length ∧ parsed.spansRecords = false ∧
      (parsed.hasEch = true ↔
        ∃ e ∈ h.extensions.getD [], e.type = extEncryptedClientHello) ∧
      ((∃ offset name, NamedAt (h.extensions.getD []) offset name ∧
          Names parsed (h.blockStart + offset) name ∧ parsed.hasSni = true ∧
          slice (memory (h.encode ++ rest)) parsed.sniOffset parsed.sniLength = name) ∨
        (∀ offset name, ¬ NamedAt (h.extensions.getD []) offset name) ∧
          parsed.hasSni = false ∧ parsed.serverName = []) := by
  have hsame := noteAll_sameRecord h.record h.blockStart (h.extensions.getD [])
  refine ⟨_, parseClientHello_encode h rest, hsame.payload, ?_, hsame.spans, ?_, ?_⟩
  · rw [hsame.total, length_encode]
    rfl
  · rw [noteAll_hasEch]
    simp [Hello.record]
  · have hnameless : Nameless h.record := ⟨rfl, rfl⟩
    rcases noteAll_names hnameless h.blockStart (h.extensions.getD []) with
      ⟨offset, name, hnamed, hnames⟩ | ⟨hnone, hnameless⟩
    · refine Or.inl ⟨offset, name, hnamed, hnames, ?_, ?_⟩
      · have hne : name ≠ [] := by
          obtain ⟨-, -, -, -, -, -, -, hne, -⟩ := hnamed
          exact hne
        rw [ClientHello.hasSni, hnames.length]
        simpa using List.length_pos_iff.2 hne
      · rw [hnames.offset, hnames.length]
        exact (hnamed.at (at_blockStart h rest)).slice
    · exact Or.inr ⟨hnone, hnameless.hasSni, hnameless.name⟩

end Tls

end SplitHello
