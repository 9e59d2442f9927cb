import SplitHello.Packet.Datagrams
import SplitHello.Packet.Resume

/-!
# The packet loop

One read of the driver brings a number of packets. Each is looked at by itself, in its order,
and what it leads to is queued behind what the earlier ones led to. `Leads` is what a packet
leads to in the registries it meets: itself, translated if it belongs to a flow, behind a decoy
or as two packets that stand for it if the policies hand one out, behind a priming datagram if
the QUIC registry asks for one, and nothing at all only if it is QUIC that is dropped.
-/

namespace SplitHello

namespace Packet

open ByteString KeyedTable Transparent Quic InternetChecksum Pieces

/-! ## What a policy makes of a packet -/

section

variable {W : WinDivert} {policy : Policy} {packet : Bytes} {l : Layout} {address : DivertAddress}
  {earlier : List (Bytes × DivertAddress)}

/-- What is queued for a packet by a policy: it is sent without loss, or in its two segments all
the same if cover bytes take the place of its first bytes. -/
def Carried (W : WinDivert) (policy : Policy) (packet : Bytes) (l : Layout)
    (address : DivertAddress) (queued : List (Bytes × DivertAddress)) : Prop :=
  (∃ applied, Sent W policy packet l address applied queued) ∨
    CoverInOrder policy (packet.drop l.headerEnd) ∧
      ∃ first second, queued = [(first, address), (second, address)] ∧
        Segments W packet l address (segmentSplit policy (packet.drop l.headerEnd).length)
          (lead policy (packet.drop l.headerEnd).length) first second

/-- What is queued for a packet on its way to the target: it alone, or, if it starts a TLS record
and these policies hand out one for it, what this policy makes of it. -/
def Forwards (W : WinDivert) (registry : PolicyRegistry) (packet : Bytes) (l : Layout)
    (address : DivertAddress) (now : ℕ) (queued : List (Bytes × DivertAddress)) : Prop :=
  if 2 ≤ (packet.drop l.headerEnd).length ∧
      looksLikeTlsRecord (packet.drop l.headerEnd) = true then
    match (registry.take (targetAddress packet l) (be16 (memory packet) l.tcp)
      (some (be32 (memory packet) (l.tcp + 4))) now).2 with
    | none => queued = [(packet, address)]
    | some policy => Carried W policy packet l address queued
  else queued = [(packet, address)]

end

/-! ## One packet -/

/-- What does not change while the loop runs. -/
structure LoopSetup where
  W : WinDivert
  tcp : Setup
  udp : DatagramSetup
  calcChecksums : Bytes × DivertAddress → Bytes × DivertAddress

/-- A captured TCP packet, the clocks when the registries are asked about it, and the answer of
the process rules if they are asked. -/
structure CapturedSegment where
  packet : TcpPacket
  headerEnd : ℕ
  address : DivertAddress
  now : ℕ := 0
  bucket : PeerKey → ℕ := fun _ => 0
  processBypass : Bool := false
  flowNow : ℕ := 0
  flowBucket : Bytes → ℕ := fun _ => 0
  hopNow : ℕ := 0
  takeNow : ℕ := 0
  appliedNow : ℕ := 0

namespace CapturedSegment

/-- As the flow table sees it. -/
def captured (a : CapturedSegment) : Captured where
  packet := a.packet
  address := { outbound := a.address.outbound }
  now := a.now
  processBypass := a.processBypass
  bucket := a.bucket

def layout (a : CapturedSegment) : Layout := ⟨a.packet.ipv6, a.packet.tcp, a.headerEnd⟩

/-- The packet with its new ports, addresses, direction and checksums. -/
def translated (setup : LoopSetup) (a : CapturedSegment) : Bytes × DivertAddress :=
  let changed := rewritten setup.tcp a.captured
  setup.calcChecksums (changed.1, { a.address with outbound := changed.2.outbound })

end CapturedSegment

inductive Arrival
  | tcp (a : CapturedSegment)
  | udp (c : CapturedDatagram)
  | other (bytes : Bytes) (address : DivertAddress)

structure LoopState where
  tcpFlows : TcpFlowTable := {}
  flows : FlowRegistry := {}
  policies : PolicyRegistry := {}
  datagrams : DatagramState

section

variable (setup : LoopSetup)

/-- What an owned packet tells the other registries. -/
def noteSegment (s : LoopState) (a : CapturedSegment) : LoopState :=
  (effects setup.tcp a.captured).foldl (fun s effect =>
    match effect with
    | .observeFlow server clientPort targetPort connectPort =>
        let text := setup.udp.driver.addressText a.packet.ipv6 server
        { s with
          flows := s.flows.observe text clientPort targetPort connectPort a.flowNow
            a.flowBucket }
    | .observeHop server port ttl =>
        { s with policies := s.policies.observeHop server port ttl a.hopNow a.bucket }) s

def loopSegment (s : LoopState) (batch : PacketBatch) (a : CapturedSegment) :
    LoopState × PacketBatch :=
  let (tcpFlows, owned) := trackPacket setup.tcp s.tcpFlows a.captured
  let s := { s with tcpFlows }
  if owned then
    let s := noteSegment setup s a
    let (bytes, address) := a.translated setup
    if a.captured.route setup.tcp = .redirectProxyToTarget then
      let forwarded := forwardToTarget setup.W s.policies batch bytes a.layout address a.takeNow
        a.appliedNow
      ({ s with policies := forwarded.registry }, forwarded.outcome.batch)
    else (s, batch.append bytes address)
  else (s, batch.append a.packet.bytes a.address)

/-- The body of the loop. -/
def loopPacket (s : LoopState) (batch : PacketBatch) : Arrival → LoopState × PacketBatch
  | .tcp a => loopSegment setup s batch a
  | .udp c =>
      let (datagrams, queued) := interceptDatagram setup.udp s.datagrams c
      ({ s with datagrams }, queued.foldl (fun batch p => batch.append p.1 p.2) batch)
  | .other bytes address => (s, batch.append bytes address)

/-- What one read makes of the registries, and what is queued for it. -/
def loopRead (s : LoopState) (arrivals : List Arrival) : LoopState × PacketBatch :=
  arrivals.foldl (fun r a => loopPacket setup r.1 r.2 a) (s, {})

/-- The policies that an owned packet meets, once it has been noted. -/
def policiesMet (s : LoopState) (a : CapturedSegment) : PolicyRegistry :=
  (noteSegment setup { s with tcpFlows := (trackPacket setup.tcp s.tcpFlows a.captured).1 }
    a).policies

/-- What is queued for a translated packet. -/
def TranslatedAs (s : LoopState) (a : CapturedSegment) (queued : List (Bytes × DivertAddress)) :
    Prop :=
  if a.captured.route setup.tcp = .redirectProxyToTarget then
    Forwards setup.W (policiesMet setup s a) (a.translated setup).1 a.layout (a.translated setup).2
      a.takeNow queued
  else queued = [a.translated setup]

/-- What is queued for a packet that meets these registries. -/
def Leads (met : LoopState × Arrival) (queued : List (Bytes × DivertAddress)) : Prop :=
  match met.2 with
  | .tcp a =>
      if (trackPacket setup.tcp met.1.tcpFlows a.captured).2 = true then
        TranslatedAs setup met.1 a queued
      else queued = [(a.packet.bytes, a.address)]
  | .udp c =>
      queued = if drops setup.udp met.1.datagrams c then []
        else primed setup.udp met.1.datagrams c ++ [c.forwarded setup.udp]
  | .other bytes address => queued = [(bytes, address)]

variable {setup}

/-- The TCP packets among those that were captured. -/
def segments (arrivals : List Arrival) : List Captured :=
  arrivals.filterMap fun a =>
    match a with
    | .tcp a => some a.captured
    | _ => none

/-- The TCP packets that are translated, by those that were captured before. -/
def Translates (setup : Setup) (past : List Captured) (c : Captured) : Prop :=
  c.route setup = .redirectProxyToTarget ∨
    c.route setup = .reflectClientToProxy ∧ c.opening = true ∧ c.processBypass = false ∨
    ¬ (c.route setup = .reflectClientToProxy ∧ c.opening = true) ∧
      ∃ key, c.flowKey setup = some key ∧ LiveFlow setup key (trace setup {} past) c.now

variable (setup) in
/-- What is queued for a packet that comes behind these and meets the registries they have left
behind. -/
def Follows (past : List Arrival) (s : LoopState) (a : Arrival)
    (queued : List (Bytes × DivertAddress)) : Prop :=
  match a with
  | .tcp a =>
      Translates setup.tcp (segments past) a.captured ∧ TranslatedAs setup s a queued ∨
        ¬ Translates setup.tcp (segments past) a.captured ∧ queued = [(a.packet.bytes, a.address)]
  | .udp c =>
      queued = if drops setup.udp s.datagrams c then []
        else primed setup.udp s.datagrams c ++ [c.forwarded setup.udp]
  | .other bytes address => queued = [(bytes, address)]

variable (setup) in
/-- One group of queued packets for each captured one, in their order. The registries a packet
meets are those that the loop has reached by then. -/
def FollowAll (past : List Arrival) (s : LoopState) (arrivals : List Arrival)
    (groups : List (List (Bytes × DivertAddress))) : Prop :=
  groups.length = arrivals.length ∧
    ∀ before a after, arrivals = before ++ a :: after →
      ∃ queued, groups[before.length]? = some queued ∧
        Follows setup (past ++ before) (loopRead setup s before).1 a queued

/-- One more packet, with what it leads to. -/
theorem FollowAll.concat {past arrivals : List Arrival} {s : LoopState} {a : Arrival}
    {groups : List (List (Bytes × DivertAddress))} {queued : List (Bytes × DivertAddress)}
    (h : FollowAll setup past s arrivals groups)
    (hqueued : Follows setup (past ++ arrivals) (loopRead setup s arrivals).1 a queued) :
    FollowAll setup past s (arrivals ++ [a]) (groups ++ [queued]) := by
  refine ⟨by rw [List.length_append, List.length_append, h.1]; rfl, fun before b after heq => ?_⟩
  rcases List.eq_nil_or_concat after with rfl | ⟨front, last, rfl⟩
  · obtain ⟨rfl, rfl⟩ := List.concat_inj.1 (by simpa using heq)
    exact ⟨queued, by rw [← h.1, List.getElem?_concat_length], hqueued⟩
  · rw [List.concat_eq_append, ← List.cons_append, ← List.append_assoc] at heq
    obtain ⟨rfl, -⟩ := List.append_inj' heq rfl
    obtain ⟨found, hfound, hfollows⟩ := h.2 before b front rfl
    refine ⟨found, ?_, hfollows⟩
    rw [List.getElem?_append_left, hfound]
    exact (List.getElem?_eq_some_iff.1 hfound).1

end

/-! ## A read -/

end Packet

end SplitHello
