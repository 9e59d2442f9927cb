import SplitHello.Transparent.Liveness

/-!
# Both ends see the other one

The packet loop translates addresses and ports on the way to the proxy and back. An answer
that the proxy gives to a translated packet comes out as an answer to the packet itself: the
client hears its server at port 443, and the relay hears the target at the private port. The
translation touches the addresses and one port and nothing else of the packet.
-/

namespace SplitHello

namespace Transparent

open ByteString KeyedTable History

/-- Who sent a packet and to whom. -/
structure Endpoints where
  source : Bytes
  sourcePort : ℕ
  destination : Bytes
  destinationPort : ℕ
  deriving DecidableEq, Repr

/-- The endpoints of an answer. -/
def Endpoints.answer (e : Endpoints) : Endpoints where
  source := e.destination
  sourcePort := e.destinationPort
  destination := e.source
  destinationPort := e.sourcePort

@[simp] theorem Endpoints.answer_answer (e : Endpoints) : e.answer.answer = e := rfl

def ipAddressLength (ipv6 : Bool) : ℕ := if ipv6 then 16 else 4

def ipAddressOffset (ipv6 destination : Bool) : ℕ :=
  (if ipv6 then 8 else 12) + if destination then ipAddressLength ipv6 else 0

def ipAddress (ipv6 : Bool) (b : Bytes) (destination : Bool) : Bytes :=
  slice (memory b) (ipAddressOffset ipv6 destination) (ipAddressLength ipv6)

/-- What the headers say, the transport header being at a known place. -/
def endpointsAt (ipv6 : Bool) (transport : ℕ) (b : Bytes) : Endpoints where
  source := ipAddress ipv6 b false
  sourcePort := be16 (memory b) transport
  destination := ipAddress ipv6 b true
  destinationPort := be16 (memory b) (transport + 2)

/-- The addresses of `b` written into `out` the other way round. -/
def swapAddressesAt (ipv6 : Bool) (b out : Bytes) : Bytes :=
  splice (splice out (ipAddressOffset ipv6 false) (ipAddress ipv6 b true))
    (ipAddressOffset ipv6 true) (ipAddress ipv6 b false)

/-- The places the translation writes to. -/
def IsEndpoint (ipv6 : Bool) (transport k : ℕ) : Prop :=
  ipAddressOffset ipv6 false ≤ k ∧ k < ipAddressOffset ipv6 true + ipAddressLength ipv6 ∨
    transport ≤ k ∧ k < transport + 4

/-- The places of the checksums, the one of the transport header being at a known place. -/
def IsChecksum (ipv6 : Bool) (checksum k : ℕ) : Prop :=
  ipv6 = false ∧ 10 ≤ k ∧ k < 12 ∨ checksum ≤ k ∧ k < checksum + 2

/-- A packet with other endpoints and other checksums, and the same but for these. -/
structure Readdressed (ipv6 : Bool) (transport checksum : ℕ) (e : Endpoints) (b out : Bytes) :
    Prop where
  endpoints_eq : endpointsAt ipv6 transport out = e
  same : SameExcept (fun k => IsEndpoint ipv6 transport k ∨ IsChecksum ipv6 checksum k) out b

section

variable {ipv6 : Bool} {transport : ℕ} {b out : Bytes}

@[simp] theorem length_ipAddress (ipv6 : Bool) (b : Bytes) (destination : Bool) :
    (ipAddress ipv6 b destination).length = ipAddressLength ipv6 :=
  length_slice _ _ _

/-- The addresses lie in front of the transport header. -/
theorem addresses_le (h : (if ipv6 then 40 else 20) ≤ transport) :
    ipAddressOffset ipv6 true + ipAddressLength ipv6 ≤ transport := by
  cases ipv6 with
  | true => simpa [ipAddressOffset, ipAddressLength] using h
  | false => simpa [ipAddressOffset, ipAddressLength] using h

theorem ipAddressOffset_true (ipv6 : Bool) :
    ipAddressOffset ipv6 true = ipAddressOffset ipv6 false + ipAddressLength ipv6 := by
  simp [ipAddressOffset]

/-- A port that is written changes no address. -/
theorem ipAddress_splice {i : ℕ} {v : Bytes} (hip : (if ipv6 then 40 else 20) ≤ i)
    (hfits : i + v.length ≤ out.length) (destination : Bool) :
    ipAddress ipv6 (splice out i v) destination = ipAddress ipv6 out destination := by
  have hle := addresses_le hip
  have hoffset := ipAddressOffset_true ipv6
  refine slice_congr fun k hk => memory_splice_of_notMem hfits (Or.inl ?_)
  cases destination with
  | true => omega
  | false => omega

theorem endpointsAt_swapAddressesAt (b : Bytes) {out : Bytes}
    (hip : (if ipv6 then 40 else 20) ≤ transport) (hfits : transport ≤ out.length) :
    endpointsAt ipv6 transport (swapAddressesAt ipv6 b out) =
      { endpointsAt ipv6 transport out with
        source := ipAddress ipv6 b true
        destination := ipAddress ipv6 b false } := by
  have hle := addresses_le hip
  have hoffset := ipAddressOffset_true ipv6
  have hsource : ipAddressOffset ipv6 false + (ipAddress ipv6 b true).length ≤ out.length := by
    rw [length_ipAddress]
    omega
  have hlength := length_splice hsource
  have hdestination : ipAddressOffset ipv6 true + (ipAddress ipv6 b false).length ≤
      (splice out (ipAddressOffset ipv6 false) (ipAddress ipv6 b true)).length := by
    rw [length_ipAddress, hlength]
    omega
  have hport (i : ℕ) (hi : transport ≤ i) :
      be16 (memory (swapAddressesAt ipv6 b out)) i = be16 (memory out) i := by
    rw [swapAddressesAt, be16_splice_of_notMem hdestination (by rw [length_ipAddress]; omega),
      be16_splice_of_notMem hsource (by rw [length_ipAddress]; omega)]
  rw [endpointsAt, endpointsAt, hport transport (Nat.le_refl _),
    hport (transport + 2) (Nat.le_add_right _ _), Endpoints.mk.injEq]
  refine ⟨?_, rfl, ?_, rfl⟩
  · have hat : At (memory (swapAddressesAt ipv6 b out)) (ipAddressOffset ipv6 false)
        (ipAddress ipv6 b true) := by
      intro k hk
      have hk' := hk
      rw [length_ipAddress] at hk'
      rw [swapAddressesAt, memory_splice_of_notMem hdestination (Or.inl (by omega)),
        memory_splice_of_mem hsource hk]
    have hslice := hat.slice
    rwa [length_ipAddress] at hslice
  · have hat : At (memory (swapAddressesAt ipv6 b out)) (ipAddressOffset ipv6 true)
        (ipAddress ipv6 b false) :=
      fun k hk => memory_splice_of_mem hdestination hk
    have hslice := hat.slice
    rwa [length_ipAddress] at hslice

theorem swapAddressesAt_same (hip : (if ipv6 then 40 else 20) ≤ transport)
    (hfits : transport ≤ out.length) :
    SameExcept (IsEndpoint ipv6 transport) (swapAddressesAt ipv6 b out) out := by
  have hle := addresses_le hip
  have hoffset := ipAddressOffset_true ipv6
  have hsource : SameExcept (IsEndpoint ipv6 transport)
      (splice out (ipAddressOffset ipv6 false) (ipAddress ipv6 b true)) out := by
    refine (SameExcept.of_splice (by rw [length_ipAddress]; omega)).mono fun k hk => Or.inl ?_
    rw [length_ipAddress] at hk
    omega
  refine SameExcept.trans ?_ hsource
  refine (SameExcept.of_splice ?_).mono fun k hk => Or.inl ?_
  · rw [length_ipAddress, hsource.length_eq]
    omega
  · rw [length_ipAddress] at hk
    omega

/-- A new source port, and nothing else. -/
theorem endpointsAt_setSourcePort (hip : (if ipv6 then 40 else 20) ≤ transport)
    (hfits : transport + 4 ≤ b.length) {port : ℕ} (hport : port < 65536) :
    endpointsAt ipv6 transport (splice b transport (put16 port)) =
      { endpointsAt ipv6 transport b with sourcePort := port } := by
  have hwrite : transport + (put16 port).length ≤ b.length := by
    rw [length_put16]
    omega
  rw [endpointsAt, endpointsAt, ipAddress_splice hip hwrite, ipAddress_splice hip hwrite,
    be16_splice_put16 hport (by omega), be16_splice_of_notMem hwrite (Or.inr (by simp))]

theorem endpointsAt_setDestinationPort (hip : (if ipv6 then 40 else 20) ≤ transport)
    (hfits : transport + 4 ≤ b.length) {port : ℕ} (hport : port < 65536) :
    endpointsAt ipv6 transport (splice b (transport + 2) (put16 port)) =
      { endpointsAt ipv6 transport b with destinationPort := port } := by
  have hwrite : transport + 2 + (put16 port).length ≤ b.length := by
    rw [length_put16]
    omega
  have hip' : (if ipv6 then 40 else 20) ≤ transport + 2 := by omega
  rw [endpointsAt, endpointsAt, ipAddress_splice hip' hwrite, ipAddress_splice hip' hwrite,
    be16_splice_put16 hport (by omega), be16_splice_of_notMem hwrite (Or.inl (by omega))]

theorem setPort_same {i port : ℕ} (hlow : transport ≤ i) (hhigh : i + 2 ≤ transport + 4)
    (hfits : transport + 4 ≤ b.length) :
    SameExcept (IsEndpoint ipv6 transport) (splice b i (put16 port)) b := by
  refine (SameExcept.of_splice_put16 (by omega)).mono fun k hk => Or.inr ?_
  omega

/-- The checksums are none of the endpoints. -/
theorem endpointsAt_of_checksums {checksum : ℕ} (hip : (if ipv6 then 40 else 20) ≤ transport)
    (hplace : transport + 4 ≤ checksum) (h : SameExcept (IsChecksum ipv6 checksum) out b) :
    endpointsAt ipv6 transport out = endpointsAt ipv6 transport b := by
  have haddresses := addresses_le hip
  have hkept {k : ℕ} (hlow : ipAddressOffset ipv6 false ≤ k) (hhigh : k < transport + 4) :
      ¬ IsChecksum ipv6 checksum k := by
    rintro (⟨hipv4, -, hk⟩ | ⟨hk, -⟩)
    · have hoffset : ipAddressOffset ipv6 false = 12 := by
        rw [hipv4]
        rfl
      omega
    · omega
  have hoffset : ipAddressOffset ipv6 true = ipAddressOffset ipv6 false + ipAddressLength ipv6 :=
    rfl
  have haddress (destination : Bool) : ipAddress ipv6 out destination =
      ipAddress ipv6 b destination := by
    refine slice_congr fun k hk => h.memory_eq _ (hkept ?_ ?_)
    · cases destination <;> omega
    · cases destination <;> omega
  rw [endpointsAt, endpointsAt, haddress, haddress,
    h.be16_eq (hkept (by omega) (by omega)) (hkept (by omega) (by omega)),
    h.be16_eq (hkept (by omega) (by omega)) (hkept (by omega) (by omega))]

theorem Readdressed.of_checksums {checksum : ℕ} {packet : Bytes} {e : Endpoints}
    (hip : (if ipv6 then 40 else 20) ≤ transport) (hplace : transport + 4 ≤ checksum)
    (hendpoints : endpointsAt ipv6 transport b = e)
    (hsame : SameExcept (IsEndpoint ipv6 transport) b packet)
    (h : SameExcept (IsChecksum ipv6 checksum) out b) :
    Readdressed ipv6 transport checksum e packet out where
  endpoints_eq := (endpointsAt_of_checksums hip hplace h).trans hendpoints
  same := (h.mono fun _ hk => Or.inr hk).trans (hsame.mono fun _ hk => Or.inl hk)

end

/-! ## The four routes -/

/-- What a route makes of the endpoints of a packet. -/
def PacketRoute.translate (route : PacketRoute) (proxyPort connectPort : ℕ) (e : Endpoints) :
    Endpoints :=
  match route with
  | .reflectClientToProxy => ⟨e.destination, e.sourcePort, e.source, proxyPort⟩
  | .reflectProxyToClient => ⟨e.destination, httpsPort, e.source, e.destinationPort⟩
  | .redirectProxyToTarget => { e with destinationPort := httpsPort }
  | .redirectTargetToProxy => { e with sourcePort := connectPort }
  | .pass => e

/-- The way back of an answer. -/
def PacketRoute.back : PacketRoute → PacketRoute
  | .reflectClientToProxy => .reflectProxyToClient
  | .reflectProxyToClient => .reflectClientToProxy
  | .redirectProxyToTarget => .redirectTargetToProxy
  | .redirectTargetToProxy => .redirectProxyToTarget
  | .pass => .pass

namespace Captured

def endpoints (c : Captured) : Endpoints :=
  endpointsAt c.packet.ipv6 c.packet.tcp c.packet.bytes

variable {setup : Setup} {c : Captured}

theorem route_eq (setup : Setup) (c : Captured) :
    c.route setup = routePacket c.address.outbound c.endpoints.sourcePort
      c.endpoints.destinationPort httpsPort setup.proxyPort setup.connectPort := rfl

end Captured

theorem routePacket_inbound {sourcePort destinationPort targetPort proxyPort connectPort : ℕ} :
    routePacket false sourcePort destinationPort targetPort proxyPort connectPort =
      if sourcePort = targetPort then .redirectTargetToProxy else .pass := by
  rw [routePacket, if_neg nofun]

theorem routePacket_outbound {sourcePort destinationPort targetPort proxyPort connectPort : ℕ} :
    routePacket true sourcePort destinationPort targetPort proxyPort connectPort =
      if sourcePort = proxyPort then .reflectProxyToClient
      else if destinationPort = connectPort then .redirectProxyToTarget
      else if destinationPort = targetPort then .reflectClientToProxy
      else .pass := by
  rw [routePacket, if_pos rfl]

/-- What a packet on one of the two ways out is like. -/
theorem routePacket_forward {outbound : Bool}
    {sourcePort destinationPort targetPort proxyPort connectPort : ℕ} :
    (routePacket outbound sourcePort destinationPort targetPort proxyPort connectPort =
        .reflectClientToProxy → outbound = true ∧ destinationPort = targetPort) ∧
      (routePacket outbound sourcePort destinationPort targetPort proxyPort connectPort =
        .redirectProxyToTarget → outbound = true ∧ destinationPort = connectPort) := by
  cases outbound with
  | false =>
      rw [routePacket_inbound]
      split <;> simp
  | true =>
      rw [routePacket_outbound]
      split
      · simp
      · split
        · simp_all
        · split <;> simp_all

section

variable (setup : Setup)

/-- The rewriting of the bytes is the translation of the endpoints. -/
theorem endpointsAt_rewritten (hproxy : setup.proxyPort < 65536)
    (hconnect : setup.connectPort < 65536) (c : Captured) :
    endpointsAt c.packet.ipv6 c.packet.tcp (rewritten setup c).1 =
      (c.route setup).translate setup.proxyPort setup.connectPort c.endpoints := by
  have hip := c.packet.ip_le
  have hfits : c.packet.tcp + 4 ≤ c.packet.bytes.length :=
    Nat.le_trans (Nat.add_le_add_left (by decide) _) c.packet.tcp_le
  have hhttps : httpsPort < 65536 := by decide
  rw [rewritten]
  cases c.route setup with
  | pass => rfl
  | redirectProxyToTarget => exact endpointsAt_setDestinationPort hip hfits hhttps
  | redirectTargetToProxy => exact endpointsAt_setSourcePort hip hfits hconnect
  | reflectClientToProxy =>
      have hlength : c.packet.tcp ≤
          (c.packet.setDestinationPort setup.proxyPort c.packet.bytes).length := by
        rw [TcpPacket.setDestinationPort, length_splice (by rw [length_put16]; omega)]
        omega
      refine (endpointsAt_swapAddressesAt c.packet.bytes hip hlength).trans ?_
      rw [TcpPacket.setDestinationPort, endpointsAt_setDestinationPort hip hfits hproxy]
      rfl
  | reflectProxyToClient =>
      have hlength : c.packet.tcp ≤
          (c.packet.setSourcePort httpsPort c.packet.bytes).length := by
        rw [TcpPacket.setSourcePort, length_splice (by rw [length_put16]; omega)]
        omega
      refine (endpointsAt_swapAddressesAt c.packet.bytes hip hlength).trans ?_
      rw [TcpPacket.setSourcePort, endpointsAt_setSourcePort hip hfits hhttps]
      rfl

/-- Nothing but addresses and ports is touched. -/
theorem rewritten_same (c : Captured) :
    SameExcept (IsEndpoint c.packet.ipv6 c.packet.tcp) (rewritten setup c).1 c.packet.bytes := by
  have hip := c.packet.ip_le
  have hfits : c.packet.tcp + 4 ≤ c.packet.bytes.length :=
    Nat.le_trans (Nat.add_le_add_left (by decide) _) c.packet.tcp_le
  have hsource (port : ℕ) : SameExcept (IsEndpoint c.packet.ipv6 c.packet.tcp)
      (c.packet.setSourcePort port c.packet.bytes) c.packet.bytes :=
    setPort_same (Nat.le_refl _) (by omega) hfits
  have hdestination (port : ℕ) : SameExcept (IsEndpoint c.packet.ipv6 c.packet.tcp)
      (c.packet.setDestinationPort port c.packet.bytes) c.packet.bytes :=
    setPort_same (Nat.le_add_right _ _) (by omega) hfits
  rw [rewritten]
  cases c.route setup with
  | pass => exact ⟨rfl, fun _ _ => rfl⟩
  | redirectProxyToTarget => exact hdestination _
  | redirectTargetToProxy => exact hsource _
  | reflectClientToProxy =>
      have hport := hdestination setup.proxyPort
      refine SameExcept.trans (swapAddressesAt_same hip ?_) hport
      rw [hport.length_eq]
      omega
  | reflectProxyToClient =>
      have hport := hsource httpsPort
      refine SameExcept.trans (swapAddressesAt_same hip ?_) hport
      rw [hport.length_eq]
      omega

/-- `r` answers, over the same kind of address, what became of `c`: the proxy answers a packet
that was reflected to it, the server one that was sent on to it. -/
structure Replies (r c : Captured) : Prop where
  ipv6_eq : r.packet.ipv6 = c.packet.ipv6
  direction : c.route setup = .reflectClientToProxy ∧ r.address.outbound = true ∨
    c.route setup = .redirectProxyToTarget ∧ r.address.outbound = false
  endpoints_eq : r.endpoints =
    (endpointsAt c.packet.ipv6 c.packet.tcp (rewritten setup c).1).answer

section

variable {setup} {r c : Captured} (hproxy : setup.proxyPort < 65536)
  (hconnect : setup.connectPort < 65536) (h : Replies setup r c)

include hproxy hconnect h

/-- An answer takes the way back, under the key of the packet it answers, and comes out as an
answer to that packet. -/
theorem Replies.translated :
    r.route setup = (c.route setup).back ∧ r.flowKey setup = c.flowKey setup ∧
      endpointsAt r.packet.ipv6 r.packet.tcp (rewritten setup r).1 = c.endpoints.answer := by
  have heq := h.endpoints_eq
  rw [endpointsAt_rewritten setup hproxy hconnect c] at heq
  have hkey (destination : Bool) : r.packet.packetAddress destination =
      addressFromBytes (if destination then r.endpoints.destination else r.endpoints.source)
        c.packet.ipv6 := by
    rw [← h.ipv6_eq]
    cases destination <;> rfl
  have hforward := @routePacket_forward c.address.outbound c.endpoints.sourcePort
    c.endpoints.destinationPort httpsPort setup.proxyPort setup.connectPort
  rcases h.direction with ⟨hroute, hout⟩ | ⟨hroute, hout⟩
  · rw [hroute] at heq ⊢
    obtain ⟨-, hport⟩ := hforward.1 hroute
    have hback : r.route setup = .reflectProxyToClient := by
      rw [Captured.route_eq, hout, heq, routePacket_outbound]
      exact if_pos rfl
    refine ⟨hback, ?_, ?_⟩
    · have hdestination : r.packet.destinationPort = c.packet.sourcePort :=
        congrArg Endpoints.destinationPort heq
      rw [Captured.flowKey, Captured.flowKey, hback, hroute]
      dsimp only
      rw [hkey, hdestination, heq]
      rfl
    · rw [endpointsAt_rewritten setup hproxy hconnect, hback, heq]
      simp only [PacketRoute.translate, Endpoints.answer, hport]
  · rw [hroute] at heq ⊢
    obtain ⟨-, hport⟩ := hforward.2 hroute
    have hback : r.route setup = .redirectTargetToProxy := by
      rw [Captured.route_eq, hout, heq, routePacket_inbound]
      exact if_pos rfl
    refine ⟨hback, ?_, ?_⟩
    · have hdestination : r.packet.destinationPort = c.packet.sourcePort :=
        congrArg Endpoints.destinationPort heq
      rw [Captured.flowKey, Captured.flowKey, hback, hroute]
      dsimp only
      rw [hkey, hdestination, heq]
      rfl
    · rw [endpointsAt_rewritten setup hproxy hconnect, hback, heq]
      simp only [PacketRoute.translate, Endpoints.answer, hport]

/-- After any sequence of captured packets an answer in a live flow goes to the one who sent
the packet it answers, as if the one it was sent to had answered, and nothing but its
addresses and ports is touched; nor is anything else of what the driver makes of it, if the
driver fills in the checksums only. -/
theorem reply_reaches_sender {past : List Captured} (hclock : InOrder past) {key : PeerKey}
    (hkey : c.flowKey setup = some key)
    (hlive : LiveFlow setup key (trace setup {} past) r.now) :
    ∃ b, (intercept setup (tableAfter setup {} past) r).2.queued =
        [setup.calcChecksums (b, { r.address with outbound := false })] ∧
      endpointsAt r.packet.ipv6 r.packet.tcp b = c.endpoints.answer ∧
      SameExcept (IsEndpoint r.packet.ipv6 r.packet.tcp) b r.packet.bytes ∧
      (SameExcept (IsChecksum r.packet.ipv6 (r.packet.tcp + 16))
          (setup.calcChecksums (b, { r.address with outbound := false })).1 b →
        Readdressed r.packet.ipv6 r.packet.tcp (r.packet.tcp + 16) c.endpoints.answer
          r.packet.bytes (setup.calcChecksums (b, { r.address with outbound := false })).1) := by
  obtain ⟨hroute, hsame, hendpoints⟩ := h.translated hproxy hconnect
  refine ⟨(rewritten setup r).1, ?_, hendpoints, rewritten_same setup r,
    Readdressed.of_checksums r.packet.ip_le (Nat.add_le_add_left (by decide) _) hendpoints
      (rewritten_same setup r)⟩
  have hother : r.route setup ≠ .reflectClientToProxy ∧ r.route setup ≠ .redirectProxyToTarget := by
    rw [hroute]
    rcases h.direction with ⟨hforward, -⟩ | ⟨hforward, -⟩
    · rw [hforward]
      decide
    · rw [hforward]
      decide
  have howned : (trackPacket setup (tableAfter setup {} past) r).2 = true :=
    (owned_iff setup hclock r).2
      (Or.inr (Or.inr ⟨fun hnot => hother.1 hnot.1, key, hsame.trans hkey, hlive⟩))
  have hdirection : (rewritten setup r).2 = { r.address with outbound := false } := by
    rw [rewritten, hroute]
    rcases h.direction with ⟨hforward, -⟩ | ⟨hforward, hout⟩
    · rw [hforward]
      rfl
    · rw [hforward, ← hout]
      rfl
  rw [intercept]
  dsimp only
  rw [if_pos howned, if_neg hother.2, ← hdirection]

end

end

/-! ## A connection that is opened -/

/-- An IPv4 packet without options and payload between a program and 203.0.113.7. -/
def sampleSegment (source destination : Bytes) (sourcePort destinationPort : ℕ) (flags : UInt8) :
    Bytes :=
  [0x45, 0, 0, 40, 0, 0, 0, 0, 64, 6, 0, 0] ++ source ++ destination ++ put16 sourcePort ++
    put16 destinationPort ++ [0, 0, 0, 0, 0, 0, 0, 0, 0x50, flags, 0, 0, 0, 0, 0, 0]

def sampleSetup : Setup where
  proxyPort := 1080
  connectPort := 65534
  calcChecksums := id

def sampleSyn : Captured where
  packet :=
    { bytes := sampleSegment [10, 0, 0, 2] [203, 0, 113, 7] 50000 443 0x02
      ipv6 := false
      tcp := 20
      ip_le := by decide
      tcp_le := by decide }
  address := { outbound := true }
  now := 5

/-- The proxy takes the connection. -/
def sampleSynAck : Captured where
  packet :=
    { bytes := sampleSegment [10, 0, 0, 2] [203, 0, 113, 7] 1080 50000 0x12
      ipv6 := false
      tcp := 20
      ip_le := by decide
      tcp_le := by decide }
  address := { outbound := true }
  now := 6

theorem sampleSynAck_replies : Replies sampleSetup sampleSynAck sampleSyn where
  ipv6_eq := rfl
  direction := Or.inl (by decide +kernel)
  endpoints_eq := by decide +kernel

theorem reply_reaches_sender_sample :
    ∃ b, (intercept sampleSetup (tableAfter sampleSetup {} [sampleSyn]) sampleSynAck).2.queued =
        [(b, { outbound := false })] ∧
      Readdressed false 20 36 ⟨[203, 0, 113, 7], 443, [10, 0, 0, 2], 50000⟩
        sampleSynAck.packet.bytes b := by
  have hlive : LiveFlow sampleSetup ⟨addressFromBytes [203, 0, 113, 7] false, 50000, .client⟩
      (trace sampleSetup {} [sampleSyn]) 6 := by
    refine ⟨[], ⟨{}, sampleSyn⟩, [], 5, false, rfl, ⟨?_, ?_, ?_, ?_⟩, nofun, rfl, ?_⟩
    all_goals decide +kernel
  obtain ⟨b, hqueued, -, -, hreaddressed⟩ := reply_reaches_sender (by decide) (by decide)
    sampleSynAck_replies (List.pairwise_singleton _ _ : InOrder [sampleSyn]) (by decide +kernel)
    hlive
  obtain ⟨hendpoints, hsame⟩ := hreaddressed ⟨rfl, fun _ _ => rfl⟩
  exact ⟨b, hqueued, hendpoints.trans (by decide +kernel), hsame⟩

end Transparent

end SplitHello
