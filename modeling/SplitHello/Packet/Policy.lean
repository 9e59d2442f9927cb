import SplitHello.Strategy.Plan

/-!
# Packet policies

A packet profile does not cut the stream the relay writes. It leaves a policy for the
packet loop, which changes how the first TLS packet of the connection goes out.
-/

namespace SplitHello

namespace Packet

open ByteString Tls Strategy

inductive Mode
  | none
  | reverseOrder
  | fakeBadSequence
  | fakeBadChecksum
  | fakeAutoTtl
  | sequenceOverlap
  | ipFragment
  deriving DecidableEq, Repr

/-- Offsets count from the start of the stream. The host name lies between `sniBegin`
and `sniEnd`; with `sniEnd = 0` it is not known where it lies. -/
structure Policy where
  mode : Mode := .none
  splitOffset : ℕ := 2
  overlapBytes : ℕ := 8
  fakeSequenceDelta : ℤ := -10000
  fakeTtl : ℕ := 0
  coverSni : Bytes := ofString "www.google.com"
  sniBegin : ℕ := 0
  sniEnd : ℕ := 0
  deriving DecidableEq, Repr

def modeForProfile : Profile → Option Mode
  | .packetReverse => some .reverseOrder
  | .packetFakeBadseq => some .fakeBadSequence
  | .packetFakeBadsum => some .fakeBadChecksum
  | .packetAutottl => some .fakeAutoTtl
  | .packetSeqovl => some .sequenceOverlap
  | .packetIpfrag => some .ipFragment
  | _ => none

def policyForProfile (profile : Profile) (hello : ClientHello) : Option Policy :=
  (modeForProfile profile).map fun mode =>
    let preferredSplit := if hello.hasSni then hello.sniOffset + hello.sniLength / 2 else 2
    { mode
      splitOffset := max 2 preferredSplit
      sniBegin := if hello.hasSni then hello.sniOffset else 0
      sniEnd := if hello.hasSni then hello.sniOffset + hello.sniLength else 0 }

end Packet

end SplitHello
