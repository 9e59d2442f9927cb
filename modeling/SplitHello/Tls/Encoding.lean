import SplitHello.Tls.Streaming

/-!
# Writing a ClientHello

The encoding of a ClientHello as one TLS record, level by level: names in a
server_name list, extensions in their block, the hello around the block, the
handshake header and the record header. Reading goes down the same levels. The
offsets the parser reports are those of the encoding, so they can be compared with
what was written in front of a name.
-/

namespace SplitHello

namespace Tls

open ByteString

/-! ## The encoding -/

/-- A string behind its length in one byte. -/
def vector8 (b : Bytes) : Bytes := UInt8.ofNat b.length :: b

/-- A string behind its length in two bytes. -/
def vector16 (b : Bytes) : Bytes := put16 b.length ++ b

/-- An entry of a server_name list; type zero is a host_name. -/
structure NameEntry where
  type : UInt8
  name : Bytes
  deriving DecidableEq, Repr

def NameEntry.encode (e : NameEntry) : Bytes := e.type :: vector16 e.name

/-- A server_name extension has a list of names as its body, every other one what it
likes. -/
inductive Extension
  | serverName (entries : List NameEntry)
  | other (type : ℕ) (body : Bytes) (type_lt : type < 65536) (type_ne : type ≠ extServerName)

namespace Extension

def type : Extension → ℕ
  | serverName _ => extServerName
  | other type _ _ _ => type

def body : Extension → Bytes
  | serverName entries => vector16 (entries.flatMap NameEntry.encode)
  | other _ body _ _ => body

def encode (e : Extension) : Bytes := put16 e.type ++ vector16 e.body

end Extension

/-- The parts of a ClientHello; one without an extension block is legal. -/
structure HelloParts where
  recordMinor : UInt8
  versionMajor : UInt8
  versionMinor : UInt8
  random : Bytes
  sessionId : Bytes
  cipherSuites : Bytes
  compression : Bytes
  extensions : Option (List Extension)

namespace HelloParts

def fixedPart (h : HelloParts) : Bytes :=
  [h.versionMajor, h.versionMinor] ++ h.random ++ vector8 h.sessionId ++
    vector16 h.cipherSuites ++ vector8 h.compression

def extensionBlock (h : HelloParts) : Bytes :=
  h.extensions.elim [] fun extensions => vector16 (extensions.flatMap Extension.encode)

def body (h : HelloParts) : Bytes := h.fixedPart ++ h.extensionBlock

def handshake (h : HelloParts) : Bytes := handshakeClientHello :: put24 h.body.length ++ h.body

def encode (h : HelloParts) : Bytes :=
  [recordHandshake, 0x03, h.recordMinor] ++ vector16 h.handshake

end HelloParts

/-- A ClientHello that its length fields have room for and that fits one record. -/
structure Hello extends HelloParts where
  random_length : random.length = 32
  sessionId_length : sessionId.length ≤ 255
  compression_length : compression.length ≤ 255
  fits : toHelloParts.handshake.length ≤ maxRecordPayload

/-! ## Where the names stand -/

/-- The offset and the text of the first host_name of a list that starts at `p`. -/
def hostNameAt : ℕ → List NameEntry → Option (ℕ × Bytes)
  | _, [] => none
  | p, e :: entries =>
      if e.type = 0 then some (p + 3, e.name) else hostNameAt (p + e.encode.length) entries

/-- The hello with a name that was found. -/
def ClientHello.named (out : ClientHello) (found : Option (ℕ × Bytes)) : ClientHello :=
  match found with
  | none => out
  | some (offset, name) =>
      { out with sniOffset := offset, sniLength := name.length, serverName := name }

/-- What the parser notes of an extension that starts at `p`. -/
def ClientHello.note (out : ClientHello) (p : ℕ) : Extension → ClientHello
  | .serverName entries => if out.hasSni then out else out.named (hostNameAt (p + 6) entries)
  | .other type _ _ _ => if type = extEncryptedClientHello then { out with hasEch := true } else out

/-- What it notes of all extensions from `p` on. -/
def ClientHello.noteAll (out : ClientHello) : ℕ → List Extension → ClientHello
  | _, [] => out
  | p, e :: extensions => (out.note p e).noteAll (p + e.encode.length) extensions

/-! ## Reading it back -/

/-- The reader of the `n` bytes from `p` on. -/
def region (p n : ℕ) : Reader := ⟨p, p + n, by omega⟩

@[simp] theorem remaining_region (p n : ℕ) : (region p n).remaining = n := by
  rw [Reader.remaining, region]
  dsimp only
  omega

@[simp] theorem take_region (p n k : ℕ) : (region p n).take k = region p k := rfl

theorem skip_region (p k n : ℕ) : (region p (k + n)).skip k = some (region (p + k) n) := by
  have hle : k ≤ (region p (k + n)).stop - (region p (k + n)).pos := by
    dsimp only [region]
    omega
  rw [Reader.skip, dif_pos hle]
  simp only [region, Nat.add_assoc]

section

variable {data : Memory}

theorem u8_region {p n : ℕ} {c : UInt8} (h : data p = c) :
    (region p (1 + n)).u8 data = some (c, region (p + 1) n) := by
  rw [Reader.u8, skip_region, Option.map_some]
  rw [show data (region p (1 + n)).pos = c from h]

theorem u16_region {p n value : ℕ} (h : At data p (put16 value)) (hvalue : value < 65536) :
    (region p (2 + n)).u16 data = some (value, region (p + 2) n) := by
  rw [Reader.u16, skip_region, Option.map_some]
  rw [show be16 data (region p (2 + n)).pos = value from h.be16 hvalue]

theorem length_encode_entry (e : NameEntry) : e.encode.length = 1 + (2 + e.name.length) := by
  simp [NameEntry.encode, vector16]
  omega

theorem serverNameLoop_entries {entries : List NameEntry} {p fuel : ℕ}
    (hfuel : entries.length ≤ fuel) (hat : At data p (entries.flatMap NameEntry.encode))
    (hnames : ∀ e ∈ entries, e.name.length < 65536) (out : ClientHello) :
    (serverNameLoop data fuel (region p (entries.flatMap NameEntry.encode).length) out).2 =
      out.named (hostNameAt p entries) := by
  induction entries generalizing p fuel with
  | nil => cases fuel <;> simp [serverNameLoop, hostNameAt, ClientHello.named]
  | cons e entries ih =>
      obtain ⟨fuel, rfl⟩ : ∃ k, fuel = k + 1 :=
        ⟨fuel - 1, by rw [List.length_cons] at hfuel; omega⟩
      rw [List.flatMap_cons] at hat ⊢
      obtain ⟨hhead, hrest⟩ := at_append.1 hat
      obtain ⟨htype, hvector⟩ := at_cons.1 hhead
      obtain ⟨hlength, hname⟩ := at_append.1 hvector
      set rest := (entries.flatMap NameEntry.encode).length with hrestlength
      have hsize : (e.encode ++ entries.flatMap NameEntry.encode).length =
          1 + (2 + (e.name.length + rest)) := by
        rw [List.length_append, length_encode_entry]
        omega
      have hremaining : ¬ (region p (1 + (2 + (e.name.length + rest)))).remaining = 0 := by
        rw [remaining_region]
        omega
      have hfits : ¬ e.name.length > (region (p + 1 + 2) (e.name.length + rest)).remaining := by
        rw [remaining_region]
        omega
      rw [hsize, serverNameLoop, if_neg hremaining, u8_region htype]
      dsimp only
      rw [u16_region hlength (hnames e (by simp))]
      dsimp only
      rw [if_neg hfits, hostNameAt]
      by_cases hhost : e.type = 0
      · rw [if_pos hhost, if_pos hhost]
        have hslice : slice data (region (p + 1 + 2) (e.name.length + rest)).pos e.name.length =
            e.name := hname.slice
        rw [hslice]
        rfl
      · rw [if_neg hhost, if_neg hhost, skip_region]
        have hoffset : p + 1 + 2 + e.name.length = p + e.encode.length := by
          rw [length_encode_entry]
          omega
        dsimp only
        rw [hoffset]
        refine ih ?_ hrest fun e' he' => hnames e' (List.mem_cons_of_mem e he')
        rw [List.length_cons] at hfuel
        omega

theorem length_le_of_mem {α : Type*} (encode : α → Bytes) {l : List α} {e : α} (h : e ∈ l) :
    (encode e).length ≤ (l.flatMap encode).length :=
  (List.sublist_flatten_of_mem (List.mem_map_of_mem h)).length_le

theorem length_le_flatMap {α : Type*} {encode : α → Bytes} (hpos : ∀ e, 0 < (encode e).length)
    (l : List α) : l.length ≤ (l.flatMap encode).length := by
  induction l with
  | nil => simp
  | cons e l ih =>
      have := hpos e
      simp only [List.flatMap_cons, List.length_append, List.length_cons]
      omega

theorem readServerName_body {entries : List NameEntry} {p : ℕ}
    (hat : At data p (vector16 (entries.flatMap NameEntry.encode)))
    (hlt : (entries.flatMap NameEntry.encode).length < 65536) (out : ClientHello) :
    (readServerName data (region p (vector16 (entries.flatMap NameEntry.encode)).length) out).2 =
      out.named (hostNameAt (p + 2) entries) := by
  obtain ⟨hlength, hentries⟩ := at_append.1 hat
  have hsize : (vector16 (entries.flatMap NameEntry.encode)).length =
      2 + (entries.flatMap NameEntry.encode).length := by
    simp [vector16]
  have hnames : ∀ e ∈ entries, e.name.length < 65536 := by
    intro e he
    have hle := length_le_of_mem NameEntry.encode he
    rw [length_encode_entry] at hle
    omega
  rw [readServerName, hsize, u16_region hlength hlt]
  dsimp only
  rw [if_neg (by rw [remaining_region]; omega), take_region]
  refine serverNameLoop_entries (length_le_flatMap (fun e => ?_) entries) hentries hnames out
  rw [length_encode_entry]
  omega

theorem length_encode_extension (e : Extension) :
    e.encode.length = 2 + (2 + e.body.length) := by
  simp [Extension.encode, vector16]

/-- The parser's step on one extension is what it notes of it. -/
theorem note_eq {e : Extension} {p : ℕ} (hbody : At data (p + 4) e.body)
    (hlt : e.body.length < 65536) (out : ClientHello) :
    (if e.type = extEncryptedClientHello then { out with hasEch := true }
      else if e.type = extServerName ∧ out.hasSni = false then
        (readServerName data (region (p + 4) e.body.length) out).2
      else out) = out.note p e := by
  cases e with
  | serverName entries =>
      have hlist : (entries.flatMap NameEntry.encode).length < 65536 := by
        have hsize : (Extension.serverName entries).body.length =
            2 + (entries.flatMap NameEntry.encode).length := by
          simp [Extension.body, vector16]
        omega
      have htype : (Extension.serverName entries).type = extServerName := rfl
      have hech : ¬ extServerName = extEncryptedClientHello := by decide
      rw [htype, if_neg hech, ClientHello.note]
      cases hsni : out.hasSni with
      | true => simp
      | false =>
          rw [if_pos ⟨rfl, rfl⟩, if_neg Bool.false_ne_true]
          exact readServerName_body hbody hlist out
  | other type body type_lt type_ne =>
      have htype : (Extension.other type body type_lt type_ne).type = type := rfl
      rw [htype, ClientHello.note]
      by_cases hech : type = extEncryptedClientHello
      · rw [if_pos hech, if_pos hech]
      · rw [if_neg hech, if_neg hech]
        exact if_neg fun h => type_ne h.1

theorem extensionsLoop_extensions {extensions : List Extension} {p fuel : ℕ}
    (hfuel : extensions.length ≤ fuel) (hat : At data p (extensions.flatMap Extension.encode))
    (hbodies : ∀ e ∈ extensions, e.body.length < 65536) (out : ClientHello) :
    extensionsLoop data fuel (region p (extensions.flatMap Extension.encode).length) out =
      (.ok, out.noteAll p extensions) := by
  induction extensions generalizing p fuel out with
  | nil => cases fuel <;> simp [extensionsLoop, ClientHello.noteAll]
  | cons e extensions ih =>
      obtain ⟨fuel, rfl⟩ : ∃ k, fuel = k + 1 :=
        ⟨fuel - 1, by rw [List.length_cons] at hfuel; omega⟩
      rw [List.flatMap_cons] at hat ⊢
      obtain ⟨hhead, hrest⟩ := at_append.1 hat
      obtain ⟨htype, hvector⟩ := at_append.1 hhead
      obtain ⟨hlength, hbody⟩ := at_append.1 hvector
      have hfour : p + 2 + 2 = p + 4 := rfl
      simp only [length_put16, hfour] at hlength hbody
      set rest := (extensions.flatMap Extension.encode).length with hrestlength
      have hsize : (e.encode ++ extensions.flatMap Extension.encode).length =
          2 + (2 + (e.body.length + rest)) := by
        rw [List.length_append, length_encode_extension]
        omega
      have hremaining : ¬ (region p (2 + (2 + (e.body.length + rest)))).remaining = 0 := by
        rw [remaining_region]
        omega
      have hfits : ¬ e.body.length > (region (p + 4) (e.body.length + rest)).remaining := by
        rw [remaining_region]
        omega
      have htypelt : e.type < 65536 := by
        cases e with
        | serverName entries => exact Nat.succ_pos _
        | other type body type_lt type_ne => exact type_lt
      have hlt := hbodies e (by simp)
      rw [hsize, extensionsLoop, if_neg hremaining, u16_region htype htypelt]
      dsimp only
      rw [u16_region hlength hlt, hfour]
      dsimp only
      rw [if_neg hfits, take_region, note_eq hbody hlt, skip_region]
      have hoffset : p + 4 + e.body.length = p + e.encode.length := by
        rw [length_encode_extension]
        omega
      dsimp only
      rw [hoffset, ClientHello.noteAll]
      refine ih ?_ hrest (fun e' he' => hbodies e' (List.mem_cons_of_mem e he')) _
      rw [List.length_cons] at hfuel
      omega

theorem toNat_ofNat_of_le {n : ℕ} (h : n ≤ 255) : (UInt8.ofNat n).toNat = n := by
  rw [UInt8.toNat_ofNat', Nat.mod_eq_of_lt (by omega)]

theorem length_fixedPart (h : Hello) : h.fixedPart.length =
    2 + (32 + (1 + (h.sessionId.length + (2 + (h.cipherSuites.length +
      (1 + h.compression.length)))))) := by
  simp only [HelloParts.fixedPart, vector8, vector16, List.length_append, List.length_cons,
    List.length_nil, length_put16, h.random_length]
  omega

/-- The fixed part is skipped as it was written. -/
theorem skipFixedPart_region (h : Hello) {p n : ℕ} (hat : At data p h.fixedPart)
    (hsuites : h.cipherSuites.length < 65536) :
    skipFixedPart data (region p (h.fixedPart.length + n)) =
      some (region (p + h.fixedPart.length) n) := by
  obtain ⟨hfront, hcompression⟩ := at_append.1 hat
  obtain ⟨hfront, hsuitesAt⟩ := at_append.1 hfront
  obtain ⟨-, hsession⟩ := at_append.1 hfront
  have hsession : data (p + 2 + 32) = UInt8.ofNat h.sessionId.length := by
    rw [← (at_cons.1 hsession).1]
    congr 1
    simp [h.random_length]
  have hsuitesAt : At data (p + 2 + 32 + 1 + h.sessionId.length)
      (put16 h.cipherSuites.length) := by
    convert (at_append.1 hsuitesAt).1 using 1
    simp [vector8, h.random_length]
    omega
  have hcompression : data (p + 2 + 32 + 1 + h.sessionId.length + 2 + h.cipherSuites.length) =
      UInt8.ofNat h.compression.length := by
    rw [← (at_cons.1 hcompression).1]
    congr 1
    simp [vector8, vector16, h.random_length]
    omega
  have hsize : h.fixedPart.length + n = 2 + (32 + (1 + (h.sessionId.length +
      (2 + (h.cipherSuites.length + (1 + (h.compression.length + n))))))) := by
    rw [length_fixedPart]
    omega
  have hend : p + h.fixedPart.length = p + 2 + 32 + 1 + h.sessionId.length + 2 +
      h.cipherSuites.length + 1 + h.compression.length := by
    rw [length_fixedPart]
    omega
  rw [skipFixedPart, hsize, hend]
  simp only [Option.bind_eq_bind, Option.bind_some, skip_region, u8_region hsession,
    toNat_ofNat_of_le h.sessionId_length, u16_region hsuitesAt hsuites, u8_region hcompression,
    toNat_ofNat_of_le h.compression_length]

theorem length_handshake (h : HelloParts) : h.handshake.length = 4 + h.body.length := by
  simp [HelloParts.handshake]
  omega

theorem length_encode (h : HelloParts) :
    h.encode.length = recordHeaderSize + h.handshake.length := by
  simp [HelloParts.encode, vector16, recordHeaderSize]
  omega

/-- What is known of a record before anything behind its header is read. -/
def Hello.record (h : Hello) : ClientHello where
  recordPayloadLength := h.handshake.length
  recordTotalLength := recordHeaderSize + h.handshake.length

/-- The offset of the first extension. -/
def Hello.blockStart (h : Hello) : ℕ := recordHeaderSize + 4 + h.fixedPart.length + 2

theorem parseExtensions_block {extensions : List Extension} {p : ℕ}
    (hat : At data p (vector16 (extensions.flatMap Extension.encode)))
    (hlt : (extensions.flatMap Extension.encode).length < 65536) (out : ClientHello) :
    parseExtensions data (region p (vector16 (extensions.flatMap Extension.encode)).length) out =
      (.ok, out.noteAll (p + 2) extensions) := by
  obtain ⟨hlength, hextensions⟩ := at_append.1 hat
  have hsize : (vector16 (extensions.flatMap Extension.encode)).length =
      2 + (extensions.flatMap Extension.encode).length := by
    simp [vector16]
  have hbodies : ∀ e ∈ extensions, e.body.length < 65536 := by
    intro e he
    have hle := length_le_of_mem Extension.encode he
    rw [length_encode_extension] at hle
    omega
  rw [parseExtensions, hsize, u16_region hlength hlt]
  dsimp only
  rw [if_neg (by rw [remaining_region]; omega), take_region]
  refine extensionsLoop_extensions (length_le_flatMap (fun e => ?_) extensions) hextensions
    hbodies out
  rw [length_encode_extension]
  omega

theorem parseHandshake_hello (h : Hello) (hat : At data recordHeaderSize h.handshake) :
    parseHandshake data h.record =
      (.ok, h.record.noteAll h.blockStart (h.extensions.getD [])) := by
  obtain ⟨htype, hbehind⟩ := at_cons.1 hat
  obtain ⟨hlength, hbody⟩ := at_append.1 hbehind
  obtain ⟨hfixed, hblock⟩ := at_append.1 hbody
  have hfits := h.fits
  have hmax : maxRecordPayload = 16384 := rfl
  have hheader : recordHeaderSize = 5 := rfl
  have hhandshake := length_handshake h.toHelloParts
  have hbodylength : h.body.length = h.fixedPart.length + h.extensionBlock.length := by
    simp [HelloParts.body]
  have hfixedlength := length_fixedPart h
  have hlength : be24 data (recordHeaderSize + 1) = h.body.length := hlength.be24 (by omega)
  have hfixed : At data (recordHeaderSize + 4) h.fixedPart := hfixed
  have hskip := skipFixedPart_region (n := h.extensionBlock.length) h hfixed (by omega)
  have hlong : ¬ h.record.recordPayloadLength < 4 := by
    dsimp only [Hello.record]
    omega
  have hinside : ¬ recordHeaderSize + 4 + h.body.length > h.record.recordTotalLength := by
    dsimp only [Hello.record]
    omega
  have hregion : handshakeBody data =
      region (recordHeaderSize + 4) (h.fixedPart.length + h.extensionBlock.length) := by
    simp only [handshakeBody, region, hlength, hbodylength]
  rw [parseHandshake_eq, if_neg hlong, if_neg (not_not.2 htype), hlength, if_neg hinside, hregion,
    hskip, Option.elim_some, remaining_region]
  cases hextensions : h.extensions with
  | none =>
      have hempty : h.extensionBlock.length = 0 := by
        rw [HelloParts.extensionBlock, hextensions]
        rfl
      rw [if_pos hempty]
      rfl
  | some extensions =>
      have hsome : h.extensionBlock = vector16 (extensions.flatMap Extension.encode) := by
        rw [HelloParts.extensionBlock, hextensions]
        rfl
      have hsize : (vector16 (extensions.flatMap Extension.encode)).length =
          2 + (extensions.flatMap Extension.encode).length := by
        simp [vector16]
      rw [hsome] at hbodylength hblock ⊢
      rw [if_neg (by omega)]
      exact parseExtensions_block hblock (by omega) h.record

end

/-- What the parser reads from an encoded hello, whatever follows it. -/
theorem parseClientHello_encode (h : Hello) (rest : Bytes) :
    parseClientHello (memory (h.encode ++ rest)) (h.encode ++ rest).length =
      (.ok, h.record.noteAll h.blockStart (h.extensions.getD [])) := by
  set data := memory (h.encode ++ rest)
  obtain ⟨hheader, hvector⟩ := at_append.1 (at_memory_append h.encode rest)
  obtain ⟨htype, hheader⟩ := at_cons.1 hheader
  obtain ⟨hversion, -⟩ := at_cons.1 hheader
  obtain ⟨hlength, hhandshake⟩ := at_append.1 hvector
  have hfits := h.fits
  have hmax : maxRecordPayload = 16384 := rfl
  have hsize : recordHeaderSize = 5 := rfl
  have hpayload := length_handshake h.toHelloParts
  have htotal : (h.encode ++ rest).length =
      recordHeaderSize + h.handshake.length + rest.length := by
    rw [List.length_append, length_encode]
  have hlength : be16 data 3 = h.handshake.length := hlength.be16 (by omega)
  rw [parseClientHello, if_neg (by omega), if_neg (not_not.2 htype), if_neg (by omega),
    if_neg (not_not.2 hversion), if_neg (by omega), hlength]
  dsimp only
  rw [if_neg (by omega), if_neg (by omega)]
  exact parseHandshake_hello h hhandshake

end Tls

end SplitHello
