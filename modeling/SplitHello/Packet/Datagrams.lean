import SplitHello.Packet.Variant
import SplitHello.Quic.FastPath
import SplitHello.Transparent.Endpoints

/-!
# The UDP side of the packet loop

DNS queries are reflected to the local proxy and its answers back to who asked. Datagrams to
and from port 443 are left alone, dropped, or watched for servers that do not answer QUIC,
whose first Initial goes out behind a priming datagram. A datagram is dropped for QUIC and
for nothing else.
-/

namespace SplitHello

namespace Packet

open ByteString KeyedTable Transparent Quic

def dnsPort : ℕ := 53

/-- A packet with its headers located inside it; the payload is everything behind the UDP
header. -/
structure UdpPacket where
  bytes : Bytes
  ipv6 : Bool
  udp : ℕ
  ip_le : (if ipv6 then 40 else 20) ≤ udp
  udp_le : udp + 8 ≤ bytes.length

namespace UdpPacket

def endpoints (p : UdpPacket) : Endpoints := endpointsAt p.ipv6 p.udp p.bytes
def sourcePort (p : UdpPacket) : ℕ := p.endpoints.sourcePort
def destinationPort (p : UdpPacket) : ℕ := p.endpoints.destinationPort
def payload (p : UdpPacket) : Bytes := p.bytes.drop (p.udp + 8)

end UdpPacket

inductive DatagramRoute
  | pass
  | reflectDnsToProxy
  | reflectProxyToClient
  deriving DecidableEq, Repr

def routeDatagram (outbound : Bool) (sourcePort destinationPort dnsPort proxyPort : ℕ) :
    DatagramRoute :=
  if !outbound then .pass
  else if sourcePort = proxyPort then .reflectProxyToClient
  else if destinationPort = dnsPort then .reflectDnsToProxy
  else .pass

/-! ## QUIC -/

inductive QuicMode
  | allow
  | block
  | adaptive
  deriving DecidableEq, Repr

def quicV2 : ℕ := 0x6B3343CF
def minimumInitialSize : ℕ := 1200

/-- A long header with the fixed bit, of an Initial in the version it names. -/
def looksLikeInitial (payload : Bytes) : Bool :=
  if payload.length < minimumInitialSize then false
  else
    let first := memory payload 0
    if first &&& 0xC0 ≠ 0xC0 then false
    else
      let version := be32 (memory payload) 1
      if version = 0 then false
      else
        let longPacketType := first &&& 0x30
        if version = quicV2 then longPacketType = 0x10 else longPacketType = 0

/-- Random bytes, or fixed ones where the system has none, with QUIC's fixed bit clear. -/
def buildPrimePayload (random : Option (Fin 32 → UInt8)) : Bytes :=
  let payload := match random with
    | some bytes => List.ofFn bytes
    | none => (List.range 32).map fun i => 0xA5 ^^^ UInt8.ofNat (i * 29)
  payload.modifyHead fun first => first &&& 0x3F

/-- Where the headers of a UDP packet are. -/
structure UdpLayout where
  ipv6 : Bool
  udp : ℕ
  headerEnd : ℕ
  deriving DecidableEq, Repr

/-- The driver's helpers as the UDP branch uses them, and the text of an address. -/
structure UdpDriver where
  parse : Bytes → Option UdpLayout
  calcChecksums : Bytes × DivertAddress → Bytes × DivertAddress
  addressText : Bool → Bytes → Bytes

def buildUdpVariant (D : UdpDriver) (packet : Bytes) (payload : ℕ) (replacement : Bytes)
    (address : DivertAddress) : Option Bytes :=
  match D.parse packet with
  | none => none
  | some parsed =>
      if parsed.headerEnd = packet.length ∨ parsed.headerEnd ≠ payload then none
      else
        let headerLength := payload
        let totalLength := headerLength + replacement.length
        if headerLength = 0 ∨ totalLength > mtuMax then none
        else
          let out := packet.take headerLength ++ replacement
          let isIpv6 : Bool := (memory out 0).toNat / 16 = 6
          let ipBase := if isIpv6 then 40 else 0
          if out.length < ipBase ∨ out.length - ipBase > 65535 then none
          else
            -- The copied header still has the lengths of the original.
            let out := splice out (if isIpv6 then 4 else 2) (put16 (out.length - ipBase))
            if headerLength < 8 ∨ replacement.length > 65535 - 8 then none
            else
              let udpLength := 8 + replacement.length
              let out := splice out (headerLength - 8 + 4) (put16 udpLength)
              match D.parse out with
              | none => none
              | some variant =>
                  let wireLength := out.length - if variant.ipv6 then 40 else 0
                  let out := splice out (if variant.ipv6 then 4 else 2) (put16 wireLength)
                  let out := splice out (variant.udp + 4) (put16 udpLength)
                  some (D.calcChecksums (out, address)).1

/-! ## One datagram -/

/-- What does not change while the loop runs. -/
structure DatagramSetup where
  driver : UdpDriver
  dnsProxyPort : ℕ
  quicMode : QuicMode
  /-- There is a process filter and it has rules. -/
  filterEnabled : Bool

/-- A captured datagram, the clocks when the registries are asked, what the process rules say
if they are asked, and the random bytes of a priming datagram. -/
structure CapturedDatagram where
  packet : UdpPacket
  address : DivertAddress
  now : ℕ := 0
  bucket : Bytes → ℕ := fun _ => 0
  quicNow : UInt64 := 0
  leftAlone : Bool := false
  random : Option (Fin 32 → UInt8) := none

namespace CapturedDatagram

variable (setup : DatagramSetup) (c : CapturedDatagram)

def route : DatagramRoute :=
  routeDatagram c.address.outbound c.packet.sourcePort c.packet.destinationPort dnsPort
    setup.dnsProxyPort

def processScoped : Bool :=
  setup.filterEnabled &&
    (c.address.outbound &&
        (c.packet.destinationPort = dnsPort || c.packet.destinationPort = httpsPort) ||
      !c.address.outbound && c.packet.sourcePort = httpsPort)

def processBypass : Bool := c.processScoped setup && c.leftAlone

/-- The text of one of its addresses. -/
def addressText (destination : Bool) : Bytes :=
  setup.driver.addressText c.packet.ipv6 (ipAddress c.packet.ipv6 c.packet.bytes destination)

/-- To or from port 443 of a server. -/
def isQuic : Bool :=
  c.address.outbound && c.packet.destinationPort = httpsPort ||
    !c.address.outbound && c.packet.sourcePort = httpsPort

/-- The new port, addresses and direction of a datagram that is reflected. -/
def rewritten : Bytes × DivertAddress :=
  let p := c.packet
  match c.route setup with
  | .reflectDnsToProxy =>
      (swapAddressesAt p.ipv6 p.bytes (splice p.bytes (p.udp + 2) (put16 setup.dnsProxyPort)),
        { c.address with outbound := false })
  | .reflectProxyToClient =>
      (swapAddressesAt p.ipv6 p.bytes (splice p.bytes p.udp (put16 dnsPort)),
        { c.address with outbound := false })
  | .pass => (p.bytes, c.address)

/-- The datagram as it is queued if it is not dropped. -/
def forwarded : Bytes × DivertAddress :=
  if c.processBypass setup then (c.packet.bytes, c.address)
  else
    match c.route setup with
    | .pass => (c.packet.bytes, c.address)
    | _ => setup.driver.calcChecksums (c.rewritten setup)

/-- What the QUIC registry is asked about. -/
def asked : Quic.Timed Datagram where
  op :=
    if c.address.outbound then
      .outbound (c.addressText setup true) (UInt16.ofNat c.packet.sourcePort)
        (looksLikeInitial c.packet.payload)
    else .inbound (c.addressText setup false) (UInt16.ofNat c.packet.destinationPort)
  now := c.quicNow

def prime : Option Bytes :=
  buildUdpVariant setup.driver c.packet.bytes (c.packet.udp + 8) (buildPrimePayload c.random)
    c.address

end CapturedDatagram

structure DatagramState where
  datagrams : DatagramRegistry := {}
  quic : AdaptiveRegistry

section

variable (setup : DatagramSetup) (s : DatagramState) (c : CapturedDatagram)

/-- The decision of the QUIC registry, where it is asked. -/
def quicDecision : AdaptiveRegistry × Option Decision :=
  if !c.processBypass setup && c.route setup = .pass && c.isQuic && setup.quicMode = .adaptive
  then s.quic.observeIfNeeded (c.asked setup)
  else (s.quic, none)

/-- A datagram that is not queued. -/
def drops : Bool :=
  !c.processBypass setup && c.route setup = .pass && c.isQuic &&
    (setup.quicMode = .block || (quicDecision setup s c).2 = some .drop)

/-- The priming datagram in front of the first Initial of a flow. -/
def primed : List (Bytes × DivertAddress) :=
  if (quicDecision setup s c).2 = some .primeAndPass then
    ((c.prime setup).map fun bytes => (bytes, c.address)).toList
  else []

/-- One datagram through the loop: the registries after it and what is queued. -/
def interceptDatagram : DatagramState × List (Bytes × DivertAddress) :=
  let datagrams :=
    if !c.processBypass setup && c.route setup = .reflectDnsToProxy then
      s.datagrams.observe (c.addressText setup true) c.packet.sourcePort c.now c.bucket
    else s.datagrams
  let s' : DatagramState := { datagrams, quic := (quicDecision setup s c).1 }
  (s', primed setup s c ++ if drops setup s c then [] else [c.forwarded setup])

end

/-! ## What is dropped and what is queued -/

section

variable {setup : DatagramSetup} {s : DatagramState} {c : CapturedDatagram}

end

/-! ## A query -/

/-- An IPv4 datagram without payload. -/
def sampleDatagram (source destination : Bytes) (sourcePort destinationPort : ℕ) : Bytes :=
  [0x45, 0, 0, 28, 0, 0, 0, 0, 64, 17, 0, 0] ++ source ++ destination ++ put16 sourcePort ++
    put16 destinationPort ++ [0, 8, 0, 0]

def sampleQuery : CapturedDatagram where
  packet :=
    { bytes := sampleDatagram [10, 0, 0, 2] [9, 9, 9, 9] 50000 53
      ipv6 := false
      udp := 20
      ip_le := Nat.le_refl 20
      udp_le := Nat.le_of_ble_eq_true rfl }
  address := { outbound := true }

end Packet

end SplitHello
