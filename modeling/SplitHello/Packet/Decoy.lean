import SplitHello.Packet.Split
import SplitHello.Tls.ServerName

/-!
# The hello for another host

`buildFakeClientHello` writes out the six nested length fields of its hello by hand. What
comes out is the encoding of a ClientHello with two extensions, the first of which names the
host, so the parser reads it back whatever follows it.
-/

namespace SplitHello

namespace Packet

open ByteString Tls

/-- The extensions of the hello: the name of the host, and the one TLS version there is. -/
def decoyExtensions (hostname : Bytes) : List Extension :=
  [.serverName [⟨0, hostname⟩], .other 0x002b (2 :: put16 0x0304) (by decide) (by decide)]

/-- The parts of the hello that stands for the host. -/
def decoyParts (hostname : Bytes) : HelloParts where
  recordMinor := 1
  versionMajor := 3
  versionMinor := 3
  random := (List.range 32).map fun value => UInt8.ofNat (value + 1)
  sessionId := []
  cipherSuites := put16 0x1301
  compression := [0]
  extensions := some (decoyExtensions hostname)

theorem length_decoyParts (hostname : Bytes) :
    (decoyParts hostname).handshake.length = hostname.length + 63 := by
  rw [length_handshake]
  simp [HelloParts.body, HelloParts.fixedPart, HelloParts.extensionBlock, decoyParts,
    decoyExtensions, Extension.encode, Extension.body, NameEntry.encode, vector8, vector16]
  omega

/-- The hello that stands for the host. -/
def decoy (hostname : Bytes) (h : hostname.length ≤ 253) : Hello where
  toHelloParts := decoyParts hostname
  random_length := by simp [decoyParts]
  sessionId_length := by simp [decoyParts]
  compression_length := by simp [decoyParts]
  fits := by
    rw [length_decoyParts, maxRecordPayload]
    omega

theorem encode_decoyExtensions (hostname : Bytes) :
    (decoyExtensions hostname).flatMap Extension.encode =
      put16 0x0000 ++ put16 (hostname.length + 5) ++ put16 (hostname.length + 3) ++ [0] ++
        put16 hostname.length ++ hostname ++ put16 0x002b ++ put16 3 ++ [2] ++ put16 0x0304 := by
  have hname : (NameEntry.encode ⟨0, hostname⟩).length = hostname.length + 3 := by
    rw [length_encode_entry]
    dsimp only
    omega
  have hlist : (vector16 (NameEntry.encode ⟨0, hostname⟩)).length = hostname.length + 5 := by
    rw [vector16, List.length_append, length_put16, hname]
    omega
  have hsni : Extension.encode (.serverName [⟨0, hostname⟩]) =
      put16 0x0000 ++ (put16 (hostname.length + 5) ++ (put16 (hostname.length + 3) ++
        (0 :: (put16 hostname.length ++ hostname)))) := by
    rw [Extension.encode, vector16, Extension.body, List.flatMap_singleton, hlist, vector16, hname,
      NameEntry.encode, vector16]
    rfl
  rw [decoyExtensions, List.flatMap_cons, List.flatMap_singleton, hsni]
  simp [Extension.encode, Extension.body, Extension.type, vector16]

/-- The length fields that are written by hand are those of the encoding. -/
theorem buildFakeClientHello_eq {hostname : Bytes} (hne : hostname ≠ [])
    (h : hostname.length ≤ 253) : buildFakeClientHello hostname = (decoy hostname h).encode := by
  have hshort : ¬ (hostname = [] ∨ hostname.length > 253) := by
    rw [not_or]
    exact ⟨hne, by omega⟩
  rw [buildFakeClientHello, if_neg hshort, ← encode_decoyExtensions]
  have hbody : put16 0x0303 ++ (List.range 32).map (fun value => UInt8.ofNat (value + 1)) ++ [0] ++
      put16 2 ++ put16 0x1301 ++ [1] ++ [0] ++
        put16 ((decoyExtensions hostname).flatMap Extension.encode).length ++
        (decoyExtensions hostname).flatMap Extension.encode = (decoyParts hostname).body := by
    rw [HelloParts.body, HelloParts.extensionBlock]
    simp [HelloParts.fixedPart, decoyParts, vector8, vector16, put16]
  dsimp only
  rw [hbody]
  simp [HelloParts.encode, HelloParts.handshake, decoy, decoyParts, vector16, put16,
    recordHandshake, handshakeClientHello]

/-- The name stands behind the headers of its extension, its list and itself. -/
theorem slice_decoy {hostname : Bytes} (h : hostname.length ≤ 253) (rest : Bytes) :
    slice (memory ((decoy hostname h).encode ++ rest)) ((decoy hostname h).blockStart + 9)
      hostname.length = hostname := by
  have hat := at_blockStart (decoy hostname h) rest
  have hextensions : (decoy hostname h).extensions.getD [] = decoyExtensions hostname := rfl
  rw [hextensions, encode_decoyExtensions] at hat
  generalize (decoy hostname h).blockStart = start at hat ⊢
  simp only [List.append_assoc] at hat
  have hname := (at_append.1 (at_append.1 (at_append.1 (at_append.1 (at_append.1
    (at_append.1 hat).2).2).2).2).2).1
  exact hname.slice

/-- The parser reads the host from the hello that was written for it, whatever follows. -/
theorem buildFakeClientHello_parses (hostname : Bytes) (hne : hostname ≠ [])
    (h : hostname.length ≤ 253) :
    ∃ hello : ClientHello, (∀ rest : Bytes,
        parseClientHello (memory (buildFakeClientHello hostname ++ rest))
          (buildFakeClientHello hostname ++ rest).length = (.ok, hello)) ∧
      hello.serverName = hostname ∧ hello.spansRecords = false ∧ hello.hasEch = false ∧
      hello.recordTotalLength = (buildFakeClientHello hostname).length ∧
      hello.sniLength = hostname.length ∧ ∀ rest : Bytes,
        slice (memory (buildFakeClientHello hostname ++ rest)) hello.sniOffset hostname.length =
          hostname := by
  rw [buildFakeClientHello_eq hne h]
  refine ⟨_, parseClientHello_encode (decoy hostname h), rfl, rfl, rfl, ?_, rfl,
    fun rest => slice_decoy h rest⟩
  rw [length_encode]
  rfl

theorem buildFakeClientHello_parses_sample :
    ∃ hello : ClientHello, (∀ rest : Bytes,
        parseClientHello (memory (buildFakeClientHello (ofString "example.org") ++ rest))
          (buildFakeClientHello (ofString "example.org") ++ rest).length = (.ok, hello)) ∧
      hello.serverName = ofString "example.org" := by
  obtain ⟨hello, hparse, hname, -⟩ :=
    buildFakeClientHello_parses (ofString "example.org") (by decide) (by decide)
  exact ⟨hello, hparse, hname⟩

end Packet

end SplitHello
