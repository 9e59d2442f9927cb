import SplitHello.Socks.Handshake
import SplitHello.Dns.Message
import Mathlib.Data.Nat.Digits.Lemmas

/-!
# One target in two spellings

Both front ends of the proxy hand a host and a port to the same connect path. What a client asks
for is written in binary by one and as text by the other, and an IPv6 address stands in brackets
in the text. The HTTP front end takes the brackets over, so for these addresses its host is not
what the SOCKS5 front end gives, and no address literal.
-/

namespace SplitHello

namespace Socks

open ByteString Json Dialogue Dialogue.Program

/-- What the operating system makes of address literals, both ways. -/
structure AddressTexts extends Dns.InetPton where
  ntop : Bytes → Bytes
  v6_ntop : ∀ address, address.length = 16 → v6 (ntop address) = some address
  /-- Hexadecimal digits, colons and dots, in at most 45 characters. -/
  v6_text : ∀ text address, v6 text = some address →
    text.length ≤ 45 ∧ ∀ c ∈ text, isHexDigit c ∨ c = 58 ∨ c = 46

/-- Two targets have one port, and one host or two literals of one address. -/
def SameTarget (texts : AddressTexts) (t t' : Bytes × ℕ) : Prop :=
  t.2 = t'.2 ∧ (t.1 = t'.1 ∨
    ∃ address, texts.v6 t.1 = some address ∧ texts.v6 t'.1 = some address)

namespace Asked

/-- How the host stands in a request line. -/
def Spelled (texts : AddressTexts) : Asked → Bytes → Prop
  | ipv4 a b c d, host => host = ipv4Text [a, b, c, d]
  | domain name, host =>
      host = name ∧ (32 : UInt8) ∉ name ∧ (58 : UInt8) ∉ name ∧ (13 : UInt8) ∉ name ∧
        (10 : UInt8) ∉ name
  | ipv6 address, host =>
      ∃ literal, texts.v6 literal = some address ∧ host = 91 :: literal ++ [93]

def IsIpv6 : Asked → Prop
  | ipv4 .. | domain _ => False
  | ipv6 _ => True

end Asked

/-- What stands behind the method in a request line. -/
def targetText (host : Bytes) (port : ℕ) : Bytes :=
  host ++ 58 :: (decimal port ++ 32 :: ofString "HTTP/1.1")

/-! ## The port -/

theorem parsePort_decimal {port : ℕ} (hpos : 1 ≤ port) (hport : port < 65536) :
    parsePort (decimal port) = some port := by
  have hbits : port < 2 ^ 32 := by omega
  have hvalue := fromChars_decimal hbits [] (fun c hc => by cases hc)
  have hall := takeWhile_decimal port [] (fun c hc => by cases hc)
  rw [List.append_nil] at hvalue hall
  rw [parsePort, hvalue, Option.bind_some, hall, if_neg]
  rintro (h | h | h)
  · exact h rfl
  · omega
  · omega

theorem length_decimal_le {port : ℕ} (hport : port < 65536) : (decimal port).length ≤ 5 := by
  rw [decimal]
  split
  · exact Nat.succ_le_succ (Nat.zero_le _)
  · rw [List.length_map, List.length_reverse, Nat.digits_length_le_iff (by decide)]
    omega

/-! ## The host -/

theorem hostPort_targetText {host : Bytes} (hspace : (32 : UInt8) ∉ host) (port : ℕ) :
    hostPort (targetText host port) = host ++ 58 :: decimal port := by
  have hnone : (32 : UInt8) ∉ host ++ 58 :: decimal port := by
    rw [List.mem_append, List.mem_cons]
    rintro (h | h | h)
    · exact hspace h
    · cases h
    · exact notMem_decimal (by decide) port h
  have hsplit : targetText host port =
      (host ++ 58 :: decimal port) ++ 32 :: ofString "HTTP/1.1" := by
    rw [targetText, List.append_assoc, List.cons_append]
  rw [hostPort, hsplit, find_append hnone]
  exact List.take_left

/-- The last colon is the one in front of the port. -/
theorem parseTarget_append {host : Bytes} (hne : host ≠ []) {port : ℕ} (hpos : 1 ≤ port)
    (hport : port < 65536) : parseTarget (host ++ 58 :: decimal port) = some (host, port) := by
  have hcolon : (58 : UInt8) ∉ decimal port := notMem_decimal (by decide) port
  have hdrop : (host ++ 58 :: decimal port).drop (host.length + 1) = decimal port := by
    rw [List.drop_append, List.drop_of_length_le (Nat.le_succ _), Nat.add_sub_cancel_left]
    rfl
  rw [parseTarget, rfind_append hcolon, Option.bind_some, List.take_left, if_neg hne, hdrop,
    parsePort_decimal hpos hport]
  rfl

/-- What a host has to be for its request line to be read as it is meant. -/
structure PlainHost (host : Bytes) : Prop where
  ne_nil : host ≠ []
  length_le : host.length ≤ 255
  no_space : (32 : UInt8) ∉ host
  no_newline : (10 : UInt8) ∉ host

theorem plainHost_ipv4Text (a b c d : UInt8) : PlainHost (ipv4Text [a, b, c, d]) := by
  have hlength : ∀ n : UInt8, (decimal n.toNat).length ≤ 5 := fun n =>
    length_decimal_le (Nat.lt_of_lt_of_le n.toNat_lt (by decide))
  have htext : ipv4Text [a, b, c, d] = decimal a.toNat ++ (46 :: (decimal b.toNat ++
      (46 :: (decimal c.toNat ++ 46 :: decimal d.toNat)))) := by
    simp [ipv4Text, List.intercalate, ofString]
  have hnotMem : ∀ x : UInt8, isDigit x = false → x ≠ 46 → x ∉ ipv4Text [a, b, c, d] := by
    intro x hdigit hdot hmem
    rw [htext] at hmem
    simp only [List.mem_append, List.mem_cons, notMem_decimal hdigit, hdot, or_self] at hmem
  refine ⟨?_, ?_, hnotMem 32 (by decide) (by decide), hnotMem 10 (by decide) (by decide)⟩
  · rw [htext]
    exact List.append_ne_nil_of_left_ne_nil (decimal_ne_nil _) _
  · rw [htext]
    simp only [List.length_append, List.length_cons]
    have ha := hlength a
    have hb := hlength b
    have hc := hlength c
    have hd := hlength d
    omega

variable {texts : AddressTexts}

/-- A literal has neither brackets nor any of the delimiters of a request line. -/
theorem AddressTexts.notMem {literal address : Bytes} (h : texts.v6 literal = some address)
    {c : UInt8} (hdigit : isHexDigit c = false) (hcolon : c ≠ 58) (hdot : c ≠ 46) :
    c ∉ literal := by
  intro hmem
  rcases (texts.v6_text literal address h).2 c hmem with hc | hc | hc
  · rw [hdigit] at hc
    cases hc
  · exact hcolon hc
  · exact hdot hc

theorem Asked.Spelled.plainHost {asked : Asked} (hwell : asked.WellFormed) {host : Bytes}
    (h : asked.Spelled texts host) : PlainHost host := by
  cases asked with
  | ipv4 a b c d =>
      obtain rfl : host = _ := h
      exact plainHost_ipv4Text a b c d
  | domain name =>
      obtain ⟨rfl, hspace, -, -, hnewline⟩ := h
      exact ⟨List.length_pos_iff.1 hwell.1, hwell.2, hspace, hnewline⟩
  | ipv6 address =>
      obtain ⟨literal, hliteral, rfl⟩ := h
      have hlength := (texts.v6_text literal address hliteral).1
      have hspace := texts.notMem hliteral (c := 32) (by decide) (by decide) (by decide)
      have hnewline := texts.notMem hliteral (c := 10) (by decide) (by decide) (by decide)
      refine ⟨List.cons_ne_nil _ _, ?_, ?_, ?_⟩
      · rw [List.length_append, List.length_cons, List.length_singleton]
        omega
      · simpa using hspace
      · simpa using hnewline

/-! ## The request line -/

theorem PlainHost.isText {host : Bytes} (h : PlainHost host) (port : ℕ) :
    IsText (connectLine (targetText host port)) := by
  intro hcrlf
  have hmem : (10 : UInt8) ∈ connectLine (targetText host port) :=
    hcrlf.subset (List.mem_cons_of_mem _ (List.mem_singleton_self _))
  rw [connectLine, targetText, List.mem_append, List.mem_cons, List.mem_append, List.mem_cons,
    List.mem_append] at hmem
  rcases hmem with hm | hm | hm | hm | hm | hm
  · exact absurd hm (by decide)
  · exact absurd hm (by decide)
  · exact h.no_newline hm
  · exact absurd hm (by decide)
  · exact notMem_decimal (by decide) port hm
  · exact absurd hm (by decide)

theorem PlainHost.length_lt {host : Bytes} (h : PlainHost host) {port : ℕ} (hport : port < 65536) :
    (connectLine (targetText host port)).length < maxLineLength := by
  have hhost := h.length_le
  have hdecimal := length_decimal_le hport
  have hmethod : (ofString "CONNECT").length = 7 := rfl
  have hversion : (ofString "HTTP/1.1").length = 8 := rfl
  simp only [connectLine, targetText, List.length_append, List.length_cons]
  rw [maxLineLength, hmethod, hversion]
  omega

/-- The header lines of a request are lines, and neither too long nor too many. -/
def HeaderLines (headers : List Bytes) : Prop :=
  headers.length < maxHeaderLines ∧
    ∀ header ∈ headers, IsText header ∧ header ≠ [] ∧ header.length < maxLineLength

/-- The HTTP front end gives the host as it stands in the request line. -/
theorem httpConnectHandshake_target {host : Bytes} (hhost : PlainHost host) {port : ℕ}
    (hpos : 1 ≤ port) (hport : port < 65536) {headers : List Bytes}
    (hheaders : HeaderLines headers) :
    Reads Relay.Socket.Willing True httpConnectHandshake
      (httpText (connectLine (targetText host port)) headers) (host, port) := by
  have htarget : parseTarget (hostPort (targetText host port)) = some (host, port) := by
    rw [hostPort_targetText hhost.no_space]
    exact parseTarget_append hhost.ne_nil hpos hport
  have hshort : Short (connectLine (targetText host port)) headers :=
    ⟨hhost.length_lt hport, fun header hmem => (hheaders.2 header hmem).2.2, hheaders.1⟩
  have hreads := httpConnectHandshake_reads (hhost.isText port)
    fun header hmem => ⟨(hheaders.2 header hmem).1, (hheaders.2 header hmem).2.1⟩
  rw [htarget] at hreads
  exact ⟨hreads.takes, fun _ => hreads.succeeds ⟨hshort, rfl⟩⟩

/-! ## Both front ends -/

/-- The hosts of the two front ends are the same unless brackets are around one of them. -/
theorem sameTarget_iff {asked : Asked} (hwell : asked.WellFormed) {host : Bytes}
    (h : asked.Spelled texts host) (port : ℕ) :
    SameTarget texts (host, port) (asked.host texts.ntop, port) ↔ ¬ asked.IsIpv6 := by
  cases asked with
  | ipv4 a b c d => exact iff_of_true ⟨rfl, Or.inl h⟩ not_false
  | domain name => exact iff_of_true ⟨rfl, Or.inl h.1⟩ not_false
  | ipv6 address =>
      obtain ⟨literal, -, rfl⟩ := h
      have hnot : ∀ text address', texts.v6 text = some address' → (91 : UInt8) ∉ text :=
        fun text address' htext => texts.notMem htext (by decide) (by decide) (by decide)
      have hbracket : (91 : UInt8) ∈ 91 :: literal ++ [93] := List.mem_cons_self ..
      refine iff_of_false ?_ (fun hnot => hnot trivial)
      rintro ⟨-, hsame | ⟨address', hliteral, -⟩⟩
      · have hmem : (91 : UInt8) ∈ texts.ntop address := by
          rw [← show 91 :: literal ++ [93] = texts.ntop address from hsame]
          exact hbracket
        exact hnot _ address (texts.v6_ntop address hwell) hmem
      · exact hnot _ address' hliteral hbracket

/-- For what a client can ask for in both protocols, both handshakes give a target, and it is the
same one exactly if it is not an IPv6 address. -/
theorem targets_agree_iff (texts : AddressTexts) {asked : Asked} (hwell : asked.WellFormed)
    {host : Bytes} (hhost : asked.Spelled texts host) {port : ℕ} (hpos : 1 ≤ port)
    (hport : port ≤ 65535) {headers : List Bytes} (hheaders : HeaderLines headers)
    {methods : Bytes} (hmethods : 0 ∈ methods) (hcount : methods.length < 256)
    (reserved : UInt8) :
    ∃ viaHttp viaSocks5 : Bytes × ℕ,
      Reads Relay.Socket.Willing True httpConnectHandshake
        (httpText (connectLine (targetText host port)) headers) viaHttp ∧
      Reads Relay.Socket.Willing True (socks5Handshake texts.ntop)
        (socks5Text methods reserved asked port) viaSocks5 ∧
      (SameTarget texts viaHttp viaSocks5 ↔ ¬ asked.IsIpv6) := by
  have hplain := hhost.plainHost hwell
  have hsocks5 := socks5Handshake_reads texts.ntop (List.ne_nil_of_mem hmethods) hcount reserved
    hwell (Nat.lt_succ_of_le hport)
  exact ⟨(host, port), (asked.host texts.ntop, port),
    httpConnectHandshake_target hplain hpos (Nat.lt_succ_of_le hport) hheaders,
    ⟨hsocks5.takes, fun _ => hsocks5.succeeds hmethods⟩, sameTarget_iff hwell hhost port⟩

/-! ## A system that knows the long literals -/

def byteText (c : UInt8) : Bytes := [hexDigit (c.toNat / 16), hexDigit (c.toNat % 16)]

/-- Two bytes in each group. -/
def groupsText : Bytes → Bytes
  | [] => []
  | [c] => byteText c
  | [c, d] => byteText c ++ byteText d
  | c :: d :: rest => byteText c ++ byteText d ++ 58 :: groupsText rest

def bytePairs : Bytes → Bytes
  | a :: b :: rest => UInt8.ofNat (hexValue a * 16 + hexValue b) :: bytePairs rest
  | _ => []

theorem bytePairs_byteText (c : UInt8) (rest : Bytes) :
    bytePairs (byteText c ++ rest) = c :: bytePairs rest := by
  have hhigh : c.toNat / 16 < 16 := Nat.div_lt_of_lt_mul c.toNat_lt
  have hlow : c.toNat % 16 < 16 := Nat.mod_lt _ (by decide)
  rw [byteText, List.cons_append, List.cons_append, List.nil_append, bytePairs,
    hexValue_hexDigit _ hhigh, hexValue_hexDigit _ hlow, Nat.div_add_mod', UInt8.ofNat_toNat]

theorem isHexDigit_of_mem_byteText {c x : UInt8} (h : x ∈ byteText c) : isHexDigit x = true := by
  have hhigh : c.toNat / 16 < 16 := Nat.div_lt_of_lt_mul c.toNat_lt
  have hlow : c.toNat % 16 < 16 := Nat.mod_lt _ (by decide)
  rw [byteText, List.mem_pair] at h
  rcases h with rfl | rfl
  · exact isHexDigit_hexDigit _ hhigh
  · exact isHexDigit_hexDigit _ hlow

theorem filter_byteText (c : UInt8) : (byteText c).filter (· ≠ 58) = byteText c := by
  refine List.filter_eq_self.2 fun x hx => decide_eq_true ?_
  rintro rfl
  exact absurd (isHexDigit_of_mem_byteText hx) (by decide)

theorem bytePairs_groupsText (address : Bytes) :
    bytePairs ((groupsText address).filter (· ≠ 58)) = address := by
  induction address using groupsText.induct with
  | case1 => rfl
  | case2 c =>
      have h := bytePairs_byteText c []
      rw [List.append_nil] at h
      rw [groupsText, filter_byteText, h]
      rfl
  | case3 c d =>
      have h := bytePairs_byteText d []
      rw [List.append_nil] at h
      rw [groupsText, List.filter_append, filter_byteText, filter_byteText, bytePairs_byteText, h]
      rfl
  | case4 c d rest hrest ih =>
      rw [groupsText.eq_4 c d rest hrest, List.filter_append, List.filter_append, filter_byteText,
        filter_byteText, List.filter_cons_of_neg (by decide), List.append_assoc,
        bytePairs_byteText, bytePairs_byteText, ih]

theorem length_groupsText (address : Bytes) :
    2 * (groupsText address).length ≤ 5 * address.length := by
  induction address using groupsText.induct with
  | case1 => exact Nat.le_refl 0
  | case2 c => exact (by decide : 2 * 2 ≤ 5 * 1)
  | case3 c d => exact (by decide : 2 * 4 ≤ 5 * 2)
  | case4 c d rest hrest ih =>
      rw [groupsText.eq_4 c d rest hrest]
      simp only [byteText, List.length_append, List.length_cons, List.length_nil]
      omega

theorem mem_groupsText {address : Bytes} {x : UInt8} (h : x ∈ groupsText address) :
    isHexDigit x = true ∨ x = 58 := by
  induction address using groupsText.induct with
  | case1 => cases h
  | case2 c => exact Or.inl (isHexDigit_of_mem_byteText h)
  | case3 c d =>
      rw [groupsText, List.mem_append] at h
      exact Or.inl (h.elim isHexDigit_of_mem_byteText isHexDigit_of_mem_byteText)
  | case4 c d rest hrest ih =>
      rw [groupsText.eq_4 c d rest hrest, List.mem_append, List.mem_append, List.mem_cons] at h
      rcases h with (h | h) | h | h
      · exact Or.inl (isHexDigit_of_mem_byteText h)
      · exact Or.inl (isHexDigit_of_mem_byteText h)
      · exact Or.inr h
      · exact ih h

/-- The address of a literal without gaps and in lower case. -/
def readGroups (text : Bytes) : Option Bytes :=
  let address := bytePairs (text.filter (· ≠ 58))
  if address.length = 16 ∧ groupsText address = text then some address else none

theorem readGroups_eq_some {text address : Bytes} (h : readGroups text = some address) :
    address.length = 16 ∧ groupsText address = text := by
  rw [readGroups] at h
  split at h
  · rename_i hboth
    cases h
    exact hboth
  · cases h

theorem readGroups_groupsText {address : Bytes} (h : address.length = 16) :
    readGroups (groupsText address) = some address := by
  rw [readGroups, bytePairs_groupsText, if_pos ⟨h, rfl⟩]

theorem readGroups_text {text address : Bytes} (h : readGroups text = some address) :
    text.length ≤ 45 ∧ ∀ c ∈ text, isHexDigit c ∨ c = 58 ∨ c = 46 := by
  obtain ⟨hlength, rfl⟩ := readGroups_eq_some h
  have hle := length_groupsText address
  refine ⟨by omega, fun c hc => ?_⟩
  rcases mem_groupsText hc with hdigit | hcolon
  · exact Or.inl hdigit
  · exact Or.inr (Or.inl hcolon)

def noQuads : Bytes → Option Bytes := fun _ => none

theorem length_noQuads (text address : Bytes) (h : noQuads text = some address) :
    address.length = 4 := by
  cases h

theorem length_readGroups (text address : Bytes) (h : readGroups text = some address) :
    address.length = 16 :=
  (readGroups_eq_some h).1

def longLiterals : AddressTexts where
  v4 := noQuads
  v6 := readGroups
  length_v4 := length_noQuads
  length_v6 := length_readGroups
  ntop := groupsText
  v6_ntop := fun _ h => readGroups_groupsText h
  v6_text := fun _ _ h => readGroups_text h

def sampleAddress : Bytes :=
  [0x20, 0x01, 0x1d, 0xb8, 0x11, 0x11, 0x22, 0x22, 0x33, 0x33, 0x44, 0x44, 0x55, 0x55, 0x66, 0x66]

def sampleLiteral : Bytes := ofString "2001:1db8:1111:2222:3333:4444:5555:6666"

theorem spelled_sampleAddress :
    (Asked.ipv6 sampleAddress).Spelled longLiterals (91 :: sampleLiteral ++ [93]) :=
  ⟨sampleLiteral, by decide +kernel, rfl⟩

theorem headerLines_nil : HeaderLines [] := ⟨by decide, fun _ h => by cases h⟩

theorem targets_agree_iff_sample :
    ∃ viaHttp viaSocks5 : Bytes × ℕ,
      Reads Relay.Socket.Willing True httpConnectHandshake
        (httpText (connectLine (targetText (91 :: sampleLiteral ++ [93]) 443)) []) viaHttp ∧
      Reads Relay.Socket.Willing True (socks5Handshake longLiterals.ntop)
        (socks5Text [0] 0 (.ipv6 sampleAddress) 443) viaSocks5 ∧
      (SameTarget longLiterals viaHttp viaSocks5 ↔ ¬ (Asked.ipv6 sampleAddress).IsIpv6) :=
  targets_agree_iff longLiterals (show (Asked.ipv6 sampleAddress).WellFormed from rfl)
    spelled_sampleAddress (by decide) (by decide) headerLines_nil (by decide) (by decide) 0

/-- Of one client's `CONNECT [2001:…]:443` and another's request for the same address, the first
gives a host that is no literal. -/
theorem bracketed_target_differs :
    let viaHttp : Client :=
      { unread := httpText (connectLine (targetText (91 :: sampleLiteral ++ [93]) 443)) []
        answers := fun _ => .ready 0
        out := {} }
    let viaSocks5 : Client :=
      { unread := socks5Text [0] 0 (.ipv6 sampleAddress) 443
        answers := fun _ => .ready 0
        out := {} }
    ∃ viaHttp' viaSocks5' : Client,
      httpConnectHandshake viaHttp = some (some (91 :: sampleLiteral ++ [93], 443), viaHttp') ∧
      socks5Handshake longLiterals.ntop viaSocks5 = some (some (sampleLiteral, 443), viaSocks5') ∧
      longLiterals.v6 sampleLiteral = some sampleAddress ∧
      longLiterals.v6 (91 :: sampleLiteral ++ [93]) = none ∧
      ¬ SameTarget longLiterals (91 :: sampleLiteral ++ [93], 443) (sampleLiteral, 443) := by
  intro viaHttp viaSocks5
  have hwell : (Asked.ipv6 sampleAddress).WellFormed := rfl
  have hhttp := httpConnectHandshake_target (spelled_sampleAddress.plainHost hwell)
    (show 1 ≤ 443 by decide) (by decide) headerLines_nil
  have hsocks5 := socks5Handshake_reads longLiterals.ntop (show ([0] : Bytes) ≠ [] by decide)
    (by decide) 0 hwell (show 443 < 65536 by decide)
  obtain ⟨viaHttp', hrun, -⟩ := hhttp.succeeds trivial viaHttp [] (List.append_nil _).symm
    (fun _ h => by cases h) (fun _ h => by cases h)
  obtain ⟨viaSocks5', hrun', -⟩ := hsocks5.succeeds (by decide) viaSocks5 []
    (List.append_nil _).symm (fun _ h => by cases h) (fun _ h => by cases h)
  have hliteral : longLiterals.ntop sampleAddress = sampleLiteral := by decide +kernel
  have hsame := sameTarget_iff hwell spelled_sampleAddress 443
  rw [Asked.host, hliteral] at hrun' hsame
  refine ⟨viaHttp', viaSocks5', hrun, hrun', by decide +kernel, by decide +kernel, fun h => ?_⟩
  exact hsame.1 h trivial

end Socks

end SplitHello
