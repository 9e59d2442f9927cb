import SplitHello.Library.Dialogue
import SplitHello.Relay.Socket
import SplitHello.Transparent.Registry
import SplitHello.Json.Written

/-!
# The handshakes of the proxy

A client of the manual mode speaks SOCKS5 or HTTP CONNECT, which its first byte tells. Both
handshakes read what belongs to them and not a byte of what the client sends behind, in whatever
pieces it arrives, and both come to an end on everything that a client can send.
-/

namespace SplitHello

namespace Socks

open ByteString Json Dialogue Dialogue.Program

/-- What arrives at the proxy, and the sending side of the same socket. -/
abbrev Client : Type := Peer UInt8 Relay.Socket

abbrev Handshake (β : Type) : Type := Program UInt8 Relay.Socket β

def maxHeaderLines : ℕ := 100
def maxLineLength : ℕ := 8192

def crlf : Bytes := [13, 10]

def sendAll (data : Bytes) : Handshake Unit := write fun sock => Relay.sendAll sock data

def recvExact (n : ℕ) : Handshake Bytes := exact n

def recvLine : Handshake Bytes := do
  let text ← line (fun text => decide (crlf <:+ text)) maxLineLength
  return text.take (text.length - 2)

def find (c : UInt8) (text : Bytes) : Option ℕ := text.findIdx? (· = c)

def rfind (c : UInt8) (text : Bytes) : Option ℕ :=
  (text.reverse.findIdx? (· = c)).map fun i => text.length - 1 - i

def parsePort (text : Bytes) : Option ℕ :=
  (fromChars 32 text).bind fun value =>
    if text.takeWhile isDigit ≠ text ∨ value = 0 ∨ value > 65535 then none else some value

/-! ## HTTP CONNECT -/

/-- What is between the method and the next space. -/
def hostPort (afterMethod : Bytes) : Bytes :=
  match find 32 afterMethod with
  | none => afterMethod
  | some nextSpace => afterMethod.take nextSpace

/-- The host in front of the last colon and the port behind it. -/
def parseTarget (hostPort : Bytes) : Option (Bytes × ℕ) :=
  (rfind 58 hostPort).bind fun colonPos =>
    if hostPort.take colonPos = [] then none
    else (parsePort (hostPort.drop (colonPos + 1))).map fun port => (hostPort.take colonPos, port)

/-- The rest of a request that is refused. -/
def drainHeaders : ℕ → Handshake Unit
  | 0 => pure ()
  | lines + 1 => do
      match ← attempt recvLine with
      | none => pure ()
      | some header => if header = [] then pure () else drainHeaders lines

def recvHeaders : ℕ → Handshake Unit
  | 0 => fail
  | lines + 1 => do
      let header ← recvLine
      if header = [] then pure () else recvHeaders lines

def methodNotAllowed : Bytes :=
  ofString "HTTP/1.1 405 Method Not Allowed" ++ crlf ++ ofString "Content-Length: 0" ++ crlf ++
    ofString "Connection: close" ++ crlf ++ crlf

def established : Bytes := ofString "HTTP/1.1 200 Connection Established" ++ crlf ++ crlf

def httpConnectHandshake : Handshake (Bytes × ℕ) := do
  let requestLine ← recvLine
  match find 32 requestLine with
  | none => fail
  | some spacePos =>
      if requestLine.take spacePos ≠ ofString "CONNECT" then
        drainHeaders maxHeaderLines
        let _ ← attempt (sendAll methodNotAllowed)
        fail
      else
        match parseTarget (hostPort (requestLine.drop (spacePos + 1))) with
        | none => fail
        | some target =>
            recvHeaders maxHeaderLines
            sendAll established
            return target

/-! ## SOCKS5 -/

def ipv4Text (ipBytes : Bytes) : Bytes :=
  (ofString ".").intercalate (ipBytes.map fun b => decimal b.toNat)

/-- The target of a request by its type; `ntop` is `inet_ntop` for IPv6. -/
def recvAddress (ntop : Bytes → Bytes) (atyp : UInt8) : Handshake Bytes :=
  if atyp = 1 then do
    let ipBytes ← recvExact 4
    return ipv4Text ipBytes
  else if atyp = 3 then do
    let domainLen ← recvExact 1
    if domainLen.getD 0 0 = 0 then fail else recvExact (domainLen.getD 0 0).toNat
  else if atyp = 4 then do
    let ipv6Bytes ← recvExact 16
    return ntop ipv6Bytes
  else fail

def socks5Handshake (ntop : Bytes → Bytes) : Handshake (Bytes × ℕ) := do
  let header ← recvExact 2
  if header.getD 0 0 ≠ 5 ∨ header.getD 1 0 = 0 then fail
  else
    let methods ← recvExact (header.getD 1 0).toNat
    sendAll [5, if 0 ∈ methods then 0 else 0xFF]
    if 0 ∉ methods then fail
    else
      let req ← recvExact 4
      if req.getD 0 0 ≠ 5 then fail
      else if req.getD 1 0 ≠ 1 then
        let _ ← attempt (sendAll [5, 7, 0, 1, 0, 0, 0, 0, 0, 0])
        fail
      else
        let targetHost ← recvAddress ntop (req.getD 3 0)
        let portBytes ← recvExact 2
        sendAll [5, 0, 0, 1, 0, 0, 0, 0, 0, 0]
        return (targetHost, be16 (memory portBytes) 0)

/-! ## Which of the two -/

structure Negotiated where
  targetHost : Bytes
  targetPort : ℕ
  originalAddress : Bytes := []
  connectPort : ℕ := 0
  deriving DecidableEq, Repr

/-- The protocol that begins with a byte. -/
def handshake (ntop : Bytes → Bytes) (firstByte : UInt8) : Handshake (Bytes × ℕ) :=
  if firstByte = 5 then socks5Handshake ntop
  else if 65 ≤ firstByte ∧ firstByte ≤ 90 then httpConnectHandshake
  else fail

/-- With transparent flows there is no handshake, and a client whose flow is not known is
refused. -/
def negotiate (ntop : Bytes → Bytes) (flows : Option (Option Transparent.Target)) :
    Handshake Negotiated :=
  match flows with
  | some (some target) =>
      return ⟨target.address, target.targetPort, target.address, target.connectPort⟩
  | some none => fail
  | none => do
      let firstByte ← peek
      let target ← handshake ntop firstByte
      return ⟨target.1, target.2, [], 0⟩

/-! ## They come to an end -/

theorem recvExact_terminates (n : ℕ) : Terminates (recvExact n) := Terminates.exact n

theorem recvLine_terminates : Terminates recvLine :=
  (Terminates.line _ _).andThen fun _ => .done _

theorem sendAll_terminates (data : Bytes) : Terminates (sendAll data) := Terminates.write _

theorem drainHeaders_terminates (lines : ℕ) : Terminates (drainHeaders lines) := by
  induction lines with
  | zero => exact .done ()
  | succ lines ih =>
      refine recvLine_terminates.attempt.andThen fun header => ?_
      cases header with
      | none => exact .done ()
      | some header => exact (Terminates.done ()).ite ih

theorem recvHeaders_terminates (lines : ℕ) : Terminates (recvHeaders lines) := by
  induction lines with
  | zero => exact .fail
  | succ lines ih => exact recvLine_terminates.andThen fun _ => (Terminates.done ()).ite ih

theorem httpConnectHandshake_terminates : Terminates httpConnectHandshake := by
  refine recvLine_terminates.andThen fun requestLine => ?_
  cases find 32 requestLine with
  | none => exact .fail
  | some spacePos =>
      refine Terminates.ite ?_ ?_
      · exact (drainHeaders_terminates _).andThen fun _ =>
          (sendAll_terminates _).attempt.andThen fun _ => .fail
      · cases parseTarget (hostPort (requestLine.drop (spacePos + 1))) with
        | none => exact .fail
        | some target =>
            exact (recvHeaders_terminates _).andThen fun _ =>
              (sendAll_terminates _).andThen fun _ => .done target

theorem recvAddress_terminates (ntop : Bytes → Bytes) (atyp : UInt8) :
    Terminates (recvAddress ntop atyp) := by
  refine Terminates.ite ?_ (Terminates.ite ?_ (Terminates.ite ?_ .fail))
  · exact (recvExact_terminates _).andThen fun _ => .done _
  · exact (recvExact_terminates _).andThen fun _ => Terminates.fail.ite (recvExact_terminates _)
  · exact (recvExact_terminates _).andThen fun _ => .done _

theorem socks5Handshake_terminates (ntop : Bytes → Bytes) : Terminates (socks5Handshake ntop) := by
  refine (recvExact_terminates _).andThen fun header => Terminates.fail.ite ?_
  refine (recvExact_terminates _).andThen fun methods => ?_
  refine (sendAll_terminates _).andThen fun _ => Terminates.fail.ite ?_
  refine (recvExact_terminates _).andThen fun req => Terminates.fail.ite (Terminates.ite ?_ ?_)
  · exact (sendAll_terminates _).attempt.andThen fun _ => .fail
  · exact (recvAddress_terminates _ _).andThen fun _ => (recvExact_terminates _).andThen fun _ =>
      (sendAll_terminates _).andThen fun _ => .done _

theorem negotiate_terminates (ntop : Bytes → Bytes) : Terminates (negotiate ntop none) := by
  refine Terminates.peek.andThen fun firstByte => Terminates.andThen ?_ fun _ => .done _
  exact (socks5Handshake_terminates ntop).ite (httpConnectHandshake_terminates.ite .fail)

/-! ## A line -/

/-- A line has no end in it. -/
def IsText (text : Bytes) : Prop := ¬ crlf <:+: text

theorem isLine_crlf {text : Bytes} (h : IsText text) :
    IsLine (fun text => decide (crlf <:+ text)) [] (text ++ crlf) where
  ne_nil := List.append_ne_nil_of_right_ne_nil _ (List.cons_ne_nil _ _)
  ends_all := decide_eq_true (List.suffix_append text crlf)
  not_before := by
    intro u v huv hu hv
    refine decide_eq_false ?_
    rintro ⟨front, rfl⟩
    rcases List.append_eq_append_iff.1 huv with ⟨a, hfront, hcrlf⟩ | ⟨a, htext, -⟩
    · cases a with
      | nil =>
          rw [List.append_nil] at hfront
          exact h ⟨front, [], by rw [List.append_nil, hfront]⟩
      | cons c a =>
          -- The end cannot be in front of the last byte of the line's own end.
          obtain rfl : a = [] := by
            have hlength := congrArg List.length hcrlf
            have hpos := List.length_pos_iff.2 hv
            rw [crlf, List.length_append, List.length_cons] at hlength
            exact List.eq_nil_of_length_eq_zero (by simp at hlength; omega)
          have hc : c = 13 := (List.cons.inj hcrlf).1.symm
          have hlast := congrArg List.getLast? hfront
          rw [hc, crlf, List.getLast?_append, List.getLast?_append] at hlast
          cases hlast
    · exact h ⟨front, a, htext.symm⟩

theorem take_crlf (text : Bytes) : (text ++ crlf).take ((text ++ crlf).length - 2) = text := by
  rw [List.length_append]
  exact List.take_left

section

variable (ok : Prop)

theorem recvLine_reads {text : Bytes} (h : IsText text)
    (hlength : ok → text.length < maxLineLength) :
    Reads Relay.Socket.Willing ok recvLine (text ++ crlf) text := by
  have hline : Reads Relay.Socket.Willing ok
      (line (fun text => decide (crlf <:+ text)) maxLineLength) (text ++ crlf) (text ++ crlf) := by
    refine .line (isLine_crlf h) fun hok => ?_
    rw [List.length_append]
    exact Nat.succ_le_succ (hlength hok)
  have hreads := hline.andThen_done fun text => text.take (text.length - 2)
  rw [take_crlf] at hreads
  exact hreads

theorem sendAll_reads (data : Bytes) : Reads Relay.Socket.Willing ok (sendAll data) [] () :=
  .write fun sock hwilling => (Relay.sendAll_wrote sock data).willing hwilling

end

/-! ## SOCKS5 requests -/

/-- What a client can ask for. -/
inductive Asked
  | ipv4 (a b c d : UInt8)
  | domain (name : Bytes)
  | ipv6 (address : Bytes)
  deriving DecidableEq, Repr

namespace Asked

def WellFormed : Asked → Prop
  | ipv4 .. => True
  | domain name => 1 ≤ name.length ∧ name.length ≤ 255
  | ipv6 address => address.length = 16

def atyp : Asked → UInt8
  | ipv4 .. => 1
  | domain _ => 3
  | ipv6 _ => 4

def wire : Asked → Bytes
  | ipv4 a b c d => [a, b, c, d]
  | domain name => UInt8.ofNat name.length :: name
  | ipv6 address => address

/-- What the proxy is to connect to. -/
def host (ntop : Bytes → Bytes) : Asked → Bytes
  | ipv4 a b c d => ipv4Text [a, b, c, d]
  | domain name => name
  | ipv6 address => ntop address

end Asked

/-- The greeting with its methods, and the request. -/
def socks5Text (methods : Bytes) (reserved : UInt8) (asked : Asked) (port : ℕ) : Bytes :=
  [5, UInt8.ofNat methods.length] ++ (methods ++ ([5, 1, reserved, asked.atyp] ++
    (asked.wire ++ put16 port)))

theorem recvAddress_reads (ntop : Bytes → Bytes) {asked : Asked} (h : asked.WellFormed)
    (ok : Prop) :
    Reads Relay.Socket.Willing ok (recvAddress ntop asked.atyp) asked.wire (asked.host ntop) := by
  cases asked with
  | ipv4 a b c d => exact (Reads.exact (w := [a, b, c, d]) rfl).andThen_done ipv4Text
  | domain name =>
      have hlength : (UInt8.ofNat name.length).toNat = name.length :=
        UInt8.toNat_ofNat_of_lt' (Nat.lt_succ_of_le h.2)
      have hne : (UInt8.ofNat name.length) ≠ 0 := by
        intro hzero
        rw [hzero] at hlength
        exact absurd h.1 (by rw [← hlength]; decide)
      refine Reads.andThen (w := [UInt8.ofNat name.length]) (b := [UInt8.ofNat name.length])
        (.exact rfl) ?_
      rw [List.getD_cons_zero, if_neg hne, hlength]
      exact .exact rfl
  | ipv6 address => exact (Reads.exact h).andThen_done ntop

/-- A SOCKS5 request is read to its end, and answered if the client can do without a password. -/
theorem socks5Handshake_reads (ntop : Bytes → Bytes) {methods : Bytes} (hmethods : methods ≠ [])
    (hcount : methods.length < 256) (reserved : UInt8) {asked : Asked} (h : asked.WellFormed)
    {port : ℕ} (hport : port < 65536) :
    Reads Relay.Socket.Willing (0 ∈ methods) (socks5Handshake ntop)
      (socks5Text methods reserved asked port) (asked.host ntop, port) := by
  have hlength : (UInt8.ofNat methods.length).toNat = methods.length :=
    UInt8.toNat_ofNat_of_lt' hcount
  have hne : (UInt8.ofNat methods.length) ≠ 0 := by
    intro hzero
    rw [hzero] at hlength
    exact hmethods (List.eq_nil_of_length_eq_zero hlength.symm)
  refine Reads.andThen (b := [5, UInt8.ofNat methods.length]) (.exact rfl) ?_
  rw [if_neg (by simpa using hne)]
  refine Reads.andThen (b := methods) (.exact hlength.symm) ?_
  refine Reads.andThen (w := []) (sendAll_reads _ _) ?_
  by_cases hnoAuth : (0 : UInt8) ∈ methods
  · rw [if_neg (not_not.2 hnoAuth)]
    refine Reads.andThen (b := [5, 1, reserved, asked.atyp]) (.exact rfl) ?_
    rw [if_neg (by simp), if_neg (by simp)]
    refine Reads.andThen (recvAddress_reads ntop h _) ?_
    have hbytes : be16 (memory (put16 port)) 0 = port :=
      At.be16 (fun k _ => by rw [Nat.zero_add]) hport
    have hlast := Reads.andThen (r := recvExact 2) (w := put16 port) (b := put16 port)
      (f := fun portBytes => (sendAll [5, 0, 0, 1, 0, 0, 0, 0, 0, 0]).andThen fun _ =>
        done (asked.host ntop, be16 (memory portBytes) 0))
      (Reads.exact rfl) ((sendAll_reads (0 ∈ methods) _).andThen_done fun _ =>
        (asked.host ntop, be16 (memory (put16 port)) 0))
    rw [List.append_nil, hbytes] at hlast
    exact hlast
  · rw [if_pos hnoAuth]
    exact .fail hnoAuth

/-! ## HTTP requests -/

theorem find_append {c : UInt8} {a : Bytes} (h : c ∉ a) (b : Bytes) :
    find c (a ++ c :: b) = some a.length := by
  have hnone : a.findIdx? (fun d => decide (d = c)) = none := by
    rw [List.findIdx?_eq_none_iff]
    exact fun d hd => decide_eq_false (ne_of_mem_of_not_mem hd h)
  rw [find, List.findIdx?_append, hnone, List.findIdx?_cons, if_pos (decide_eq_true rfl)]
  simp

theorem rfind_append {c : UInt8} {b : Bytes} (h : c ∉ b) (a : Bytes) :
    rfind c (a ++ c :: b) = some a.length := by
  have hfind := find_append (a := b.reverse) (fun hmem => h (List.mem_reverse.1 hmem)) a.reverse
  rw [find] at hfind
  rw [rfind, List.reverse_append, List.reverse_cons, List.append_assoc, List.singleton_append,
    hfind, Option.map_some, List.length_append, List.length_cons, List.length_reverse]
  congr 1
  omega

/-- A request line with its header lines, and the empty line behind them. -/
def httpText (requestLine : Bytes) (headers : List Bytes) : Bytes :=
  (requestLine ++ crlf) ++ ((headers.flatMap fun header => header ++ crlf) ++ crlf)

/-- A request that is not too long in any way. -/
structure Short (requestLine : Bytes) (headers : List Bytes) : Prop where
  requestLine_lt : requestLine.length < maxLineLength
  headers_lt : ∀ header ∈ headers, header.length < maxLineLength
  count_lt : headers.length < maxHeaderLines

theorem recvHeaders_reads (ok : Prop) {headers : List Bytes} (lines : ℕ)
    (h : ∀ header ∈ headers, IsText header ∧ header ≠ [])
    (hok : ok → headers.length < lines ∧ ∀ header ∈ headers, header.length < maxLineLength) :
    Reads Relay.Socket.Willing ok (recvHeaders lines)
      ((headers.flatMap fun header => header ++ crlf) ++ crlf) () := by
  induction lines generalizing headers with
  | zero => exact .fail fun h => Nat.not_lt_zero _ (hok h).1
  | succ lines ih =>
      cases headers with
      | nil =>
          have hempty : IsText [] := by rw [IsText]; decide
          have hreads := Reads.andThen (r := recvLine) (w := [] ++ crlf) (b := [])
            (f := fun header => if header = [] then done () else recvHeaders lines) (v := [])
            (c := ()) (recvLine_reads ok hempty fun _ => by decide) (Reads.done ())
          exact hreads
      | cons header headers =>
          obtain ⟨⟨htext, hne⟩, hbehind⟩ := List.forall_mem_cons.1 h
          rw [List.flatMap_cons, List.append_assoc]
          refine Reads.andThen (b := header) (recvLine_reads _ htext fun hok' => ?_) ?_
          · exact (hok hok').2 header (List.mem_cons_self ..)
          · rw [if_neg hne]
            refine ih hbehind fun hok' => ?_
            obtain ⟨hcount, hshort⟩ := hok hok'
            exact ⟨Nat.lt_of_succ_lt_succ hcount, (List.forall_mem_cons.1 hshort).2⟩

/-- The request line of a CONNECT. -/
def connectLine (target : Bytes) : Bytes := ofString "CONNECT" ++ 32 :: target

/-- A CONNECT is read to the empty line behind its header lines, and answered if it is not too
long and names a target. -/
theorem httpConnectHandshake_reads {target : Bytes} {headers : List Bytes}
    (hline : IsText (connectLine target))
    (hheaders : ∀ header ∈ headers, IsText header ∧ header ≠ []) :
    Reads Relay.Socket.Willing
      (Short (connectLine target) headers ∧ (parseTarget (hostPort target)).isSome)
      httpConnectHandshake (httpText (connectLine target) headers)
      ((parseTarget (hostPort target)).getD ([], 0)) := by
  have hfind : find 32 (connectLine target) = some 7 := find_append (by decide) target
  refine Reads.andThen (b := connectLine target)
    (recvLine_reads _ hline fun hok => hok.1.requestLine_lt) ?_
  rw [hfind]
  dsimp only
  rw [if_neg (by simp [connectLine]; rfl)]
  have hrest : (connectLine target).drop (7 + 1) = target := rfl
  rw [hrest]
  cases htarget : parseTarget (hostPort target) with
  | none => exact .fail fun hok => by cases hok.2
  | some asked =>
      have hreads := Reads.andThen (w := (headers.flatMap fun header => header ++ crlf) ++ crlf)
        (f := fun _ => (sendAll established).andThen fun _ => done asked)
        (recvHeaders_reads (Short (connectLine target) headers ∧ (some asked).isSome)
          maxHeaderLines hheaders fun hok => ⟨hok.1.count_lt, hok.1.headers_lt⟩)
        ((sendAll_reads _ established).andThen_done fun _ => asked)
      rw [List.append_nil] at hreads
      exact hreads

/-! ## Both protocols -/

theorem negotiate_reads {ntop : Bytes → Bytes} {ok : Prop} (firstByte : UInt8) {text : Bytes}
    {target : Bytes × ℕ}
    (h : Reads Relay.Socket.Willing ok (handshake ntop firstByte) (firstByte :: text) target) :
    Reads Relay.Socket.Willing ok (negotiate ntop none) (firstByte :: text)
      ⟨target.1, target.2, [], 0⟩ :=
  Reads.peek (h.andThen_done fun target => (⟨target.1, target.2, [], 0⟩ : Negotiated))

/-- What a client sends up to the end of its handshake. -/
inductive Request : Bytes → Prop
  | socks5 {methods : Bytes} (hmethods : methods ≠ []) (hcount : methods.length < 256)
      (reserved : UInt8) {asked : Asked} (hasked : asked.WellFormed) {port : ℕ}
      (hport : port < 65536) : Request (socks5Text methods reserved asked port)
  | http {target : Bytes} {headers : List Bytes} (hline : IsText (connectLine target))
      (hheaders : ∀ header ∈ headers, IsText header ∧ header ≠ []) :
      Request (httpText (connectLine target) headers)

theorem Request.takes (ntop : Bytes → Bytes) {request : Bytes} (h : Request request) :
    ∃ target, Takes (negotiate ntop none) request target := by
  cases h with
  | @socks5 methods hmethods hcount reserved asked hasked port hport =>
      exact ⟨_, (negotiate_reads 5
        (socks5Handshake_reads ntop hmethods hcount reserved hasked hport)).takes⟩
  | @http target headers hline hheaders =>
      exact ⟨_, (negotiate_reads 67
        (httpConnectHandshake_reads hline hheaders)).takes⟩

/-- A handshake that succeeds has read the client's request and nothing behind it, in whatever
pieces it arrived, and every handshake comes to its end. -/
theorem negotiate_consumes_request (ntop : Bytes → Bytes) :
    (∀ request, Request request →
      ∀ (payload : Bytes) (client client' : Client) (target : Negotiated),
      client.unread = request ++ payload →
      negotiate ntop none client = some (some target, client') → client'.unread = payload) ∧
    ∀ client : Client, (socks5Handshake ntop client).isSome ∧
      (httpConnectHandshake client).isSome ∧ (negotiate ntop none client).isSome := by
  refine ⟨?_, fun client => ⟨socks5Handshake_terminates ntop client,
    httpConnectHandshake_terminates client, negotiate_terminates ntop client⟩⟩
  intro request hrequest payload client client' target hunread hrun
  obtain ⟨target', htakes⟩ := hrequest.takes ntop
  exact (htakes client payload target client' hunread hrun).2

/-- A request for `a:443` whose bytes come one by one, with three bytes behind it. -/
theorem negotiate_consumes_request_sample :
    let client : Client :=
      { unread := socks5Text [0] 0 (.domain [97]) 443 ++ [1, 2, 3]
        answers := fun _ => .ready 0
        out := {} }
    ∃ client', negotiate id none client = some (some ⟨[97], 443, [], 0⟩, client') ∧
      client'.unread = [1, 2, 3] := by
  intro client
  have hasked : (Asked.domain [97]).WellFormed := ⟨by decide, by decide⟩
  have hreads := negotiate_reads 5 (socks5Handshake_reads id (show ([0] : Bytes) ≠ [] by decide)
    (by decide) 0 hasked (show 443 < 65536 by decide))
  obtain ⟨client', hrun, -⟩ := hreads.succeeds (by decide) client [1, 2, 3] rfl
    (fun _ h => by cases h) (fun _ h => by cases h)
  exact ⟨client', hrun, (negotiate_consumes_request id).1 _
    (.socks5 (by decide) (by decide) 0 hasked (by decide)) [1, 2, 3] client client' _ rfl hrun⟩

end Socks

end SplitHello
