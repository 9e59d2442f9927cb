import SplitHello.Library.Pieces
import SplitHello.Packet.Variant

/-!
# What the other end makes of the packets

The receiver puts a TCP stream together by sequence numbers and an IPv4 packet by fragment
offsets. In both what has been delivered in order stays, and a duplicate that was queued
does not replace it.
-/

namespace SplitHello

namespace Packet

open ByteString InternetChecksum Pieces

/-! ## TCP -/

/-- How far a sequence number lies behind another one. -/
def streamOffset (base sequence : ℕ) : ℕ := (sequence + (4294967296 - base)) % 4294967296

/-- What a packet adds to the stream from a sequence number on. -/
def tcpPiece (W : WinDivert) (base : ℕ) (packet : Bytes) : Option (Piece UInt8) :=
  (W.parse packet).map fun l =>
    ⟨streamOffset base (be32 (memory packet) (l.tcp + 4)), packet.drop l.headerEnd⟩

/-! ## IPv4 -/

def ipHeaderLength (packet : Bytes) : ℕ := (memory packet 0).toNat % 16 * 4

def moreFragments (packet : Bytes) : Bool := be16 (memory packet) 6 / 0x2000 % 2 = 1

def ipPiece (packet : Bytes) : Piece UInt8 :=
  ⟨be16 (memory packet) 6 % 0x2000 * 8, packet.drop (ipHeaderLength packet)⟩

/-- A header a receiver does not drop. -/
def headerValid (packet : Bytes) : Bool :=
  (memory packet 0).toNat / 16 = 4 && 20 ≤ ipHeaderLength packet &&
    ipHeaderLength packet ≤ packet.length && be16 (memory packet) 2 = packet.length &&
    foldCarries (wordSum (memory packet) 0 (ipHeaderLength packet / 2)) = 65535

/-- What ties fragments to each other: identification, protocol and addresses. -/
def datagram (packet : Bytes) : Bytes :=
  slice (memory packet) 4 2 ++ slice (memory packet) 9 1 ++ slice (memory packet) 12 8

/-- The data of a packet, once the fragments reach up to the last one. -/
def ipReassembled (fragments : List Bytes) : Option Bytes :=
  let data := reassemble (fragments.map ipPiece)
  let complete := fragments.all fun fragment =>
    let piece := ipPiece fragment
    moreFragments fragment = decide (piece.start + piece.content.length < data.length)
  if fragments.all headerValid && complete then some data else none

/-- A piece has every byte of a payload between two offsets, at its place. The payload
starts at `shift` in what the piece belongs to. -/
def Holds (piece : Piece UInt8) (shift : ℕ) (payload : Bytes) (first last : ℕ) : Prop :=
  ∀ i, first ≤ i → i < last → i < payload.length →
    piece.start ≤ shift + i ∧ piece.content[shift + i - piece.start]? = payload[i]?

/-- The first part of a payload lacks what comes after the cut. -/
theorem not_holds_take {payload : Bytes} {split first last : ℕ} (hbegin : first < split)
    (hend : split < last) (hsplit : split < payload.length) (shift : ℕ) {content : Bytes}
    (hcontent : content.length = shift + split) :
    ¬ Holds ⟨0, content⟩ shift payload first last := by
  intro h
  obtain ⟨-, hbyte⟩ := h split hbegin.le hend hsplit
  rw [Nat.sub_zero, List.getElem?_eq_none hcontent.le, List.getElem?_eq_getElem hsplit] at hbyte
  cases hbyte

/-- The second part lacks what comes before the cut. -/
theorem not_holds_drop {payload content : Bytes} {split first last : ℕ} (hbegin : first < split)
    (hend : split < last) (hsplit : split < payload.length) (shift : ℕ) :
    ¬ Holds ⟨shift + split, content⟩ shift payload first last := by
  intro h
  obtain ⟨hstart, -⟩ := h first le_rfl (hbegin.trans hend) (hbegin.trans hsplit)
  dsimp only at hstart
  omega

/-- Behind cover bytes it has everything exactly if these are what they cover. -/
theorem holds_cover_iff {cover payload : Bytes} {split first last : ℕ}
    (hcover : cover.length ≤ split) (hsplit : split < payload.length) (hbegin : first < split)
    (hend : split < last) :
    Holds ⟨split - cover.length, cover ++ payload.drop split⟩ 0 payload first last ↔
      split ≤ first + cover.length ∧
        cover.drop (first + cover.length - split) = (payload.take split).drop first := by
  constructor
  · intro h
    have hstart := (h first le_rfl (hbegin.trans hend) (hbegin.trans hsplit)).1
    dsimp only at hstart
    refine ⟨by omega, List.ext_getElem? fun j => ?_⟩
    rw [List.getElem?_drop, List.getElem?_drop, List.getElem?_take]
    split
    · rename_i hj
      have hbyte := (h (first + j) (Nat.le_add_right _ _) (hj.trans hend) (hj.trans hsplit)).2
      have hindex : 0 + (first + j) - (split - cover.length) =
          first + cover.length - split + j := by omega
      rw [hindex, List.getElem?_append_left (by omega)] at hbyte
      exact hbyte
    · exact List.getElem?_eq_none (by omega)
  · rintro ⟨hreaches, hsame⟩ i hfirst hlast hlength
    dsimp only
    refine ⟨by omega, ?_⟩
    rcases lt_or_ge i split with hi | hi
    · have hbyte := congrArg (·[i - first]?) hsame
      rw [List.getElem?_drop, List.getElem?_drop, List.getElem?_take, if_pos (by omega)] at hbyte
      rw [List.getElem?_append_left (by omega)]
      have hindex : 0 + i - (split - cover.length) =
          first + cover.length - split + (i - first) := by omega
      have hplace : first + (i - first) = i := by omega
      rw [hindex, hbyte, hplace]
    · rw [List.getElem?_append_right (by omega), List.getElem?_drop]
      congr 1
      omega

/-! ## Variants and fragments -/

theorem IsVariant.tcpPiece_eq {W : WinDivert} {packet out replacement : Bytes} {l : Layout}
    {address : DivertAddress} {ttl : ℕ} {corruptChecksum : Bool} {sequenceOffset : ℕ}
    (h : IsVariant W packet l address ttl corruptChecksum replacement sequenceOffset out)
    (hsmall : sequenceOffset < 4294967296) :
    tcpPiece W (be32 (memory packet) (l.tcp + 4)) out = some ⟨sequenceOffset, replacement⟩ := by
  have hbase := be32_lt (memory packet) (l.tcp + 4)
  have hoffset : streamOffset (be32 (memory packet) (l.tcp + 4))
      (be32 (memory out) (l.tcp + 4)) = sequenceOffset := by
    rw [streamOffset, h.sequence_eq]
    omega
  rw [tcpPiece, h.parse_eq, Option.map_some, hoffset, h.payload_eq]

section

variable {packet fragment out : Bytes} {n field : ℕ}

/-- A finished fragment keeps what its header has in common with the packet. -/
theorem Finished.byte_eq {ihl : ℕ} (h : Finished ihl fragment field out)
    (hfragment : ∀ k < 20, memory fragment k = memory packet k) {k : ℕ} (hk : k < 20)
    (hplace : ¬ FragmentPlace k) : memory out k = memory packet k :=
  (h.same.memory_eq k hplace).trans (hfragment k hk)

theorem Finished.header_eq {ihl : ℕ} (h : Finished ihl fragment field out)
    (hfragment : ∀ k < 20, memory fragment k = memory packet k) :
    memory out 0 = memory packet 0 ∧ datagram out = datagram packet := by
  refine ⟨h.byte_eq hfragment (by decide) (by rw [FragmentPlace]; omega), ?_⟩
  have hslice (i m : ℕ) (hlt : i + m ≤ 20) (hplace : ∀ k < m, ¬ FragmentPlace (i + k)) :
      slice (memory out) i m = slice (memory packet) i m :=
    slice_congr fun k hk => h.byte_eq hfragment (by omega) (hplace k hk)
  rw [datagram, datagram, hslice 4 2 (by decide) fun k hk => by rw [FragmentPlace]; omega,
    hslice 9 1 (by decide) fun k hk => by rw [FragmentPlace]; omega,
    hslice 12 8 (by decide) fun k hk => by rw [FragmentPlace]; omega]

theorem Finished.headerValid_eq (h : Finished (ipHeaderLength packet) fragment field out)
    (hfragment : ∀ k < 20, memory fragment k = memory packet k)
    (hversion : (memory packet 0).toNat / 16 = 4) (hheader : 20 ≤ ipHeaderLength packet)
    (hle : ipHeaderLength packet ≤ fragment.length) :
    ipHeaderLength out = ipHeaderLength packet ∧ headerValid out = true := by
  obtain ⟨hfirst, -⟩ := h.header_eq hfragment
  have hlength : ipHeaderLength out = ipHeaderLength packet := by
    rw [ipHeaderLength, ipHeaderLength, hfirst]
  have hwords : (ipHeaderLength packet + 1) / 2 = ipHeaderLength packet / 2 := by
    rw [ipHeaderLength]
    omega
  refine ⟨hlength, ?_⟩
  rw [headerValid, hlength, hfirst, h.length_eq, h.same.length_eq, ← hwords, h.checksum]
  simp [hversion, hheader, hle]

theorem FragmentPlace.lt {k : ℕ} (h : FragmentPlace k) : k < 12 := by
  rw [FragmentPlace] at h
  omega

section

variable {first second : Bytes} (h : Halves packet (ipHeaderLength packet) n first second)
  (hversion : (memory packet 0).toNat / 16 = 4)

include h

/-- Both fragments start with the header of the packet, before it is finished. -/
theorem Halves.header_bytes :
    (∀ k < 20, memory (packet.take (ipHeaderLength packet + n)) k = memory packet k) ∧
      ∀ k < 20, memory (packet.take (ipHeaderLength packet) ++
        packet.drop (ipHeaderLength packet + n)) k = memory packet k := by
  have hheader := h.header_le
  have hcut := h.cut_lt
  refine ⟨fun k hk => memory_take packet (by omega), fun k hk => ?_⟩
  rw [memory_append_left _ (by rw [List.length_take]; omega), memory_take packet (by omega)]

theorem Halves.datagram_eq : datagram first = datagram packet ∧ datagram second = datagram packet :=
  ⟨(h.first_eq.header_eq h.header_bytes.1).2, (h.second_eq.header_eq h.header_bytes.2).2⟩

theorem Halves.moreFragments_eq : moreFragments first = true ∧ moreFragments second = false := by
  have hcut := h.cut_lt
  have hmax := h.length_le
  rw [moreFragments, h.first_eq.field_eq, moreFragments, h.second_eq.field_eq,
    decide_eq_false_iff_not]
  refine ⟨rfl, ?_⟩
  omega

include hversion

theorem Halves.headerValid_eq :
    (ipHeaderLength first = ipHeaderLength packet ∧ headerValid first = true) ∧
      ipHeaderLength second = ipHeaderLength packet ∧ headerValid second = true := by
  have hheader := h.header_le
  have hcut := h.cut_lt
  refine ⟨h.first_eq.headerValid_eq h.header_bytes.1 hversion hheader ?_,
    h.second_eq.headerValid_eq h.header_bytes.2 hversion hheader ?_⟩
  · rw [List.length_take]
    omega
  · rw [List.length_append, List.length_take]
    omega

theorem Halves.ipPiece_eq :
    ipPiece first = ⟨0, (packet.drop (ipHeaderLength packet)).take n⟩ ∧
      ipPiece second = ⟨n, (packet.drop (ipHeaderLength packet)).drop n⟩ := by
  have hheader := h.header_le
  have hcut := h.cut_lt
  have hmod := h.cut_mod
  have hmax := h.length_le
  have hplace (k : ℕ) (hk : FragmentPlace k) : k < ipHeaderLength packet :=
    hk.lt.trans_le ((by decide : 12 ≤ 20).trans hheader)
  obtain ⟨⟨hfirst, -⟩, hsecond, -⟩ := h.headerValid_eq hversion
  have hlength : (packet.take (ipHeaderLength packet)).length = ipHeaderLength packet := by
    rw [List.length_take]
    omega
  have hoffset : n / 8 % 0x2000 * 8 = n := by omega
  constructor
  · rw [ipPiece, h.first_eq.field_eq, hfirst, h.first_eq.same.drop_eq hplace, List.drop_take,
      Nat.add_sub_cancel_left]
  · rw [ipPiece, h.second_eq.field_eq, hsecond, h.second_eq.same.drop_eq hplace,
      List.drop_left' hlength, hoffset, List.drop_drop]

/-- The two fragments of a packet are put together to its data again. -/
theorem Halves.ipReassembled_eq :
    ipReassembled [first, second] = some (packet.drop (ipHeaderLength packet)) := by
  have hcut := h.cut_lt
  obtain ⟨hpiece₁, hpiece₂⟩ := h.ipPiece_eq hversion
  obtain ⟨hmore₁, hmore₂⟩ := h.moreFragments_eq
  obtain ⟨⟨-, hvalid₁⟩, -, hvalid₂⟩ := h.headerValid_eq hversion
  have hcontent : ((packet.drop (ipHeaderLength packet)).take n).length = n := by
    rw [List.length_take, List.length_drop]
    omega
  have hdata : reassemble ([first, second].map ipPiece) =
      packet.drop (ipHeaderLength packet) := by
    have hturn := reassemble_in_turn ((packet.drop (ipHeaderLength packet)).take n)
      ((packet.drop (ipHeaderLength packet)).drop n)
    rw [hcontent, List.take_append_drop] at hturn
    rw [List.map_cons, List.map_singleton, hpiece₁, hpiece₂, hturn]
  rw [ipReassembled, hdata]
  simp [hvalid₁, hvalid₂, hmore₁, hmore₂, hpiece₁, hpiece₂]
  omega

end

end

end Packet

end SplitHello
