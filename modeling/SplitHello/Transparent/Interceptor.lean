import SplitHello.Transparent.FlowTable

/-!
# The TCP side of the packet loop

One captured packet goes in, and what is queued for re-injection comes out. The
driver has located the headers; everything else is read from the bytes. The
checksum helper belongs to the driver, the answer of the process rules and the
packet policy of a first TLS segment come with the packet.
-/

namespace SplitHello

namespace Transparent

open ByteString KeyedTable

def httpsPort : ℕ := 443

/-- A packet with its headers located inside it. -/
structure TcpPacket where
  bytes : Bytes
  ipv6 : Bool
  tcp : ℕ
  ip_le : (if ipv6 then 40 else 20) ≤ tcp
  tcp_le : tcp + 20 ≤ bytes.length

namespace TcpPacket

def sourcePort (p : TcpPacket) : ℕ := be16 (memory p.bytes) p.tcp
def destinationPort (p : TcpPacket) : ℕ := be16 (memory p.bytes) (p.tcp + 2)

/-- A bit of the byte with the TCP flags. -/
def flag (p : TcpPacket) (mask : UInt8) : Bool := memory p.bytes (p.tcp + 13) &&& mask ≠ 0

def fin (p : TcpPacket) : Bool := p.flag 0x01
def rst (p : TcpPacket) : Bool := p.flag 0x04
def ack (p : TcpPacket) : Bool := p.flag 0x10
def syn (p : TcpPacket) : Bool := p.flag 0x02

def addressLength (p : TcpPacket) : ℕ := if p.ipv6 then 16 else 4
def addressOffset (p : TcpPacket) (destination : Bool) : ℕ :=
  (if p.ipv6 then 8 else 12) + if destination then p.addressLength else 0

def addressBytes (p : TcpPacket) (destination : Bool) : Bytes :=
  slice (memory p.bytes) (p.addressOffset destination) p.addressLength

def packetAddress (p : TcpPacket) (destination : Bool) : Bytes :=
  addressFromBytes (p.addressBytes destination) p.ipv6

def packetTtl (p : TcpPacket) : ℕ := (memory p.bytes (if p.ipv6 then 7 else 8)).toNat

def swapAddresses (p : TcpPacket) (b : Bytes) : Bytes :=
  splice (splice b (p.addressOffset false) (p.addressBytes true)) (p.addressOffset true)
    (p.addressBytes false)

def setSourcePort (p : TcpPacket) (port : ℕ) (b : Bytes) : Bytes := splice b p.tcp (put16 port)
def setDestinationPort (p : TcpPacket) (port : ℕ) (b : Bytes) : Bytes :=
  splice b (p.tcp + 2) (put16 port)

end TcpPacket

/-- The driver's address of a packet: its direction, and fields the loop never
reads. -/
structure DivertAddress where
  outbound : Bool
  rest : Bytes := []
  deriving DecidableEq, Repr

/-- What does not change while the loop runs. -/
structure Setup where
  proxyPort : ℕ
  connectPort : ℕ
  calcChecksums : Bytes × DivertAddress → Bytes × DivertAddress

/-- A captured packet, the clock when the table is asked about it, whether the
process rules leave its program alone, and what the packet policies make of it
on its way to the target. -/
structure Captured where
  packet : TcpPacket
  address : DivertAddress
  now : ℕ
  processBypass : Bool := false
  bucket : PeerKey → ℕ := fun _ => 0
  desync : Bytes × DivertAddress → List (Bytes × DivertAddress) := fun p => [p]

namespace Captured

/-- The first packet of a connection. -/
def opening (c : Captured) : Bool := c.packet.syn && !c.packet.ack

def route (setup : Setup) (c : Captured) : PacketRoute :=
  routePacket c.address.outbound c.packet.sourcePort c.packet.destinationPort httpsPort
    setup.proxyPort setup.connectPort

/-- The tuple a packet of each route is looked up under. -/
def flowKey (setup : Setup) (c : Captured) : Option PeerKey :=
  match c.route setup with
  | .reflectClientToProxy => some ⟨c.packet.packetAddress true, c.packet.sourcePort, .client⟩
  | .reflectProxyToClient => some ⟨c.packet.packetAddress true, c.packet.destinationPort, .client⟩
  | .redirectProxyToTarget => some ⟨c.packet.packetAddress true, c.packet.sourcePort, .upstream⟩
  | .redirectTargetToProxy =>
      some ⟨c.packet.packetAddress false, c.packet.destinationPort, .upstream⟩
  | .pass => none

end Captured

/-- What the loop tells the other registries. -/
inductive Effect
  | observeFlow (server : Bytes) (clientPort targetPort connectPort : ℕ)
  | observeHop (server : Bytes) (port ttl : ℕ)
  deriving DecidableEq, Repr

/-- What one packet leads to. -/
structure Reinjected where
  queued : List (Bytes × DivertAddress)
  effects : List Effect := []

variable (setup : Setup)

/-- The table after a packet, and whether the packet belongs to a flow that is
rewritten. The port alone never decides. -/
def trackPacket (table : TcpFlowTable) (c : Captured) : TcpFlowTable × Bool :=
  let track (key : PeerKey) := table.track key c.packet.fin c.packet.rst c.now
  match c.route setup with
  | .reflectClientToProxy =>
      let key : PeerKey := ⟨c.packet.packetAddress true, c.packet.sourcePort, .client⟩
      if c.opening then
        if c.processBypass then (table.remove key, false)
        else (table.add key c.now c.bucket, true)
      else track key
  | .reflectProxyToClient =>
      track ⟨c.packet.packetAddress true, c.packet.destinationPort, .client⟩
  | .redirectProxyToTarget =>
      let key : PeerKey := ⟨c.packet.packetAddress true, c.packet.sourcePort, .upstream⟩
      if c.opening then (table.add key c.now c.bucket, true) else ((track key).1, true)
  | .redirectTargetToProxy =>
      track ⟨c.packet.packetAddress false, c.packet.destinationPort, .upstream⟩
  | .pass => (table, false)

/-- The new ports, addresses and direction of a packet that is rewritten. -/
def rewritten (c : Captured) : Bytes × DivertAddress :=
  let p := c.packet
  match c.route setup with
  | .reflectClientToProxy =>
      (p.swapAddresses (p.setDestinationPort setup.proxyPort p.bytes),
        { c.address with outbound := false })
  | .reflectProxyToClient =>
      (p.swapAddresses (p.setSourcePort httpsPort p.bytes), { c.address with outbound := false })
  | .redirectProxyToTarget => (p.setDestinationPort httpsPort p.bytes, c.address)
  | .redirectTargetToProxy => (p.setSourcePort setup.connectPort p.bytes, c.address)
  | .pass => (p.bytes, c.address)

def effects (c : Captured) : List Effect :=
  match c.route setup with
  | .reflectClientToProxy =>
      if c.opening then
        [.observeFlow (c.packet.packetAddress true) c.packet.sourcePort httpsPort
          setup.connectPort]
      else []
  | .redirectTargetToProxy =>
      if c.packet.syn && c.packet.ack then
        [.observeHop (c.packet.packetAddress false) c.packet.destinationPort c.packet.packetTtl]
      else []
  | _ => []

/-- One packet through the loop. -/
def intercept (table : TcpFlowTable) (c : Captured) : TcpFlowTable × Reinjected :=
  let (table, owned) := trackPacket setup table c
  if owned then
    let packet := setup.calcChecksums (rewritten setup c)
    let queued :=
      if c.route setup = .redirectProxyToTarget then c.desync packet else [packet]
    (table, { queued, effects := effects setup c })
  else (table, { queued := [(c.packet.bytes, c.address)] })

end Transparent

end SplitHello
