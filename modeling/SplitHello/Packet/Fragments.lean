import SplitHello.Packet.Wire

/-!
# Fragments of an IPv4 packet

What is cut off a packet has to be a packet again: its own length, its place among the
fragments, a checksum that adds up, and every other byte of the header as it was. And of all
the multiples of 8 at which a packet may be cut, the one is taken that lies closest to where
the policy wants it, although only the two next to that place are looked at.
-/

namespace SplitHello

namespace Packet

open ByteString InternetChecksum

/-! ## The fragments are valid -/

/-- A fragment with the header of the packet it was cut from. -/
structure FragmentOf (packet : Bytes) (ipHeaderLength : ℕ) (fragment : Bytes) : Prop where
  totalLength : be16 (memory fragment) 2 = fragment.length
  checksum : foldCarries (wordSum (memory fragment) 0 (ipHeaderLength / 2)) = 0xFFFF
  header : ∀ k < ipHeaderLength, ¬ FragmentPlace k → memory fragment k = memory packet k

theorem Finished.fragmentOf {packet fragment out : Bytes} {ipHeaderLength field : ℕ}
    (h : Finished ipHeaderLength fragment field out) (heven : ipHeaderLength % 2 = 0)
    (hfragment : ∀ k < ipHeaderLength, memory fragment k = memory packet k) :
    FragmentOf packet ipHeaderLength out where
  totalLength := by rw [h.length_eq, h.same.length_eq]
  checksum := by
    have hwords : (ipHeaderLength + 1) / 2 = ipHeaderLength / 2 := by omega
    rw [← hwords]
    exact h.checksum
  header := fun k hk hplace => (h.same.memory_eq k hplace).trans (hfragment k hk)

section

variable {packet first second : Bytes} {ipHeaderLength n : ℕ}

/-- Before they are finished both fragments start with the header of the packet. -/
theorem Halves.header_eq (h : Halves packet ipHeaderLength n first second) :
    (∀ k < ipHeaderLength, memory (packet.take (ipHeaderLength + n)) k = memory packet k) ∧
      ∀ k < ipHeaderLength, memory (packet.take ipHeaderLength ++
        packet.drop (ipHeaderLength + n)) k = memory packet k := by
  have hcut := h.cut_lt
  refine ⟨fun k hk => memory_take packet (by omega), fun k hk => ?_⟩
  rw [memory_append_left _ (by rw [List.length_take]; omega), memory_take packet hk]

/-- The data of the packet, cut after `n` bytes. -/
theorem Halves.drop_eq (h : Halves packet ipHeaderLength n first second) :
    first.drop ipHeaderLength = (packet.drop ipHeaderLength).take n ∧
      second.drop ipHeaderLength = (packet.drop ipHeaderLength).drop n := by
  have hheader := h.header_le
  have hcut := h.cut_lt
  have hplace (k : ℕ) (hk : FragmentPlace k) : k < ipHeaderLength :=
    hk.lt.trans_le ((by decide : 12 ≤ 20).trans hheader)
  have hlength : (packet.take ipHeaderLength).length = ipHeaderLength := by
    rw [List.length_take]
    omega
  constructor
  · rw [h.first_eq.same.drop_eq hplace, List.drop_take, Nat.add_sub_cancel_left]
  · rw [h.second_eq.same.drop_eq hplace, List.drop_left' hlength, List.drop_drop]

/-- Where the second fragment stands among the fragments. -/
theorem Halves.offset_eq (h : Halves packet ipHeaderLength n first second) :
    be16 (memory first) 6 % 0x2000 * 8 = 0 ∧ be16 (memory second) 6 % 0x2000 * 8 = n := by
  have hcut := h.cut_lt
  have hmod := h.cut_mod
  have hmax := h.length_le
  rw [h.first_eq.field_eq, h.second_eq.field_eq]
  omega

end

/-- What `buildIpv4Fragments` returns, if it returns something: two fragments of which the
first stands at the start with more to come and the second behind it, on the grid of eight
bytes, with nothing to come, each with a header of its own that is valid and otherwise the
packet's, and together with its data. A packet that is a fragment itself is not cut. -/
theorem fragments_valid (packet : Bytes) (firstFragmentEnd : ℕ) :
    let fragments := buildIpv4Fragments packet (ipHeaderLength packet) firstFragmentEnd
    ((moreFragments packet = true ∨ be16 (memory packet) 6 % 0x2000 ≠ 0) → fragments = []) ∧
      (fragments ≠ [] → ∃ first second n, fragments = [first, second] ∧
        (first.drop (ipHeaderLength packet)).length = n ∧ 0 < n ∧ n % 8 = 0 ∧
        be16 (memory first) 6 % 0x2000 * 8 = 0 ∧ moreFragments first = true ∧
        be16 (memory second) 6 % 0x2000 * 8 = n ∧ moreFragments second = false ∧
        (∀ fragment ∈ [first, second], FragmentOf packet (ipHeaderLength packet) fragment) ∧
        first.drop (ipHeaderLength packet) ++ second.drop (ipHeaderLength packet) =
          packet.drop (ipHeaderLength packet)) := by
  dsimp only
  have heven : ipHeaderLength packet % 2 = 0 := by
    rw [ipHeaderLength]
    omega
  rcases buildIpv4Fragments_halves packet (ipHeaderLength packet) firstFragmentEnd rfl with
    ⟨hnone, -⟩ | ⟨hcuttable, hpos, first, second, heq, hhalves⟩
  · exact ⟨fun _ => hnone, fun hsome => absurd hnone hsome⟩
  · generalize (firstFragmentEnd - ipHeaderLength packet + 7) / 8 * 8 = n at hpos hhalves
    have hwhole := hcuttable.whole
    have hcut := hhalves.cut_lt
    obtain ⟨hdrop₁, hdrop₂⟩ := hhalves.drop_eq
    obtain ⟨hmore₁, hmore₂⟩ := hhalves.moreFragments_eq
    obtain ⟨hoffset₁, hoffset₂⟩ := hhalves.offset_eq
    obtain ⟨hheader₁, hheader₂⟩ := hhalves.header_eq
    constructor
    · rintro (hmore | hoffset)
      · rw [moreFragments, decide_eq_true_eq] at hmore
        omega
      · omega
    · intro _
      refine ⟨first, second, n, heq, ?_, hpos, hhalves.cut_mod, hoffset₁, hmore₁, hoffset₂, hmore₂,
        ?_, ?_⟩
      · rw [hdrop₁, List.length_take, List.length_drop]
        omega
      · intro fragment hfragment
        rcases List.mem_cons.1 hfragment with rfl | hfragment
        · exact hhalves.first_eq.fragmentOf heven hheader₁
        · rw [List.mem_singleton.1 hfragment]
          exact hhalves.second_eq.fragmentOf heven hheader₂
      · rw [hdrop₁, hdrop₂, List.take_append_drop]

/-! ## The boundary is the best there is -/

/-- A place in the payload where it may be cut: bytes on both sides, and inside the host
name if it is known where that is. -/
structure AllowedCut (policy : Policy) (payloadLength cut : ℕ) : Prop where
  pos : 0 < cut
  lt : cut < payloadLength
  inside : policy.sniBegin < policy.sniEnd → policy.sniBegin < cut ∧ cut < policy.sniEnd

/-- The allowed cuts are those between two bounds. -/
theorem allowedCut_iff {policy : Policy} {payloadLength cut : ℕ} :
    AllowedCut policy payloadLength cut ↔
      lowestCut policy ≤ cut ∧ cut ≤ highestCut policy payloadLength := by
  rw [lowestCut, highestCut]
  constructor
  · rintro ⟨hpos, hlt, hinside⟩
    split <;> omega
  · rintro ⟨hlow, hhigh⟩
    split at hlow
    · rw [if_pos ‹_›] at hhigh
      exact ⟨by omega, by omega, by omega⟩
    · rw [if_neg ‹_›] at hhigh
      exact ⟨by omega, by omega, by omega⟩

/-- A multiple of 8 that is a place to cut the data of the packet, counted from the
transport header. -/
def Boundary (transportHeaderLength : ℕ) (policy : Policy) (payloadLength b : ℕ) : Prop :=
  b % 8 = 0 ∧ ∃ cut, b = transportHeaderLength + cut ∧ AllowedCut policy payloadLength cut

theorem boundary_iff {transportHeaderLength payloadLength b : ℕ} {policy : Policy} :
    Boundary transportHeaderLength policy payloadLength b ↔
      b % 8 = 0 ∧ transportHeaderLength + lowestCut policy ≤ b ∧
        b ≤ transportHeaderLength + highestCut policy payloadLength := by
  constructor
  · rintro ⟨hmod, cut, rfl, hcut⟩
    obtain ⟨hlow, hhigh⟩ := allowedCut_iff.1 hcut
    omega
  · rintro ⟨hmod, hlow, hhigh⟩
    exact ⟨hmod, b - transportHeaderLength, by omega, allowedCut_iff.2 (by omega)⟩

theorem consider_of_outside {target low high best candidate : ℕ}
    (h : candidate < low ∨ candidate > high) :
    consider target low high best candidate = best := if_pos h

theorem consider_zero {target low high candidate : ℕ} (hlow : low ≤ candidate)
    (hhigh : candidate ≤ high) : consider target low high 0 candidate = candidate := by
  rw [consider, if_neg (by omega)]
  exact if_pos (Or.inl rfl)

/-- Between two candidates the closer one is kept. -/
theorem consider_closer (target low high best candidate : ℕ) (hbest : best ≠ 0)
    (hlow : low ≤ candidate) (hhigh : candidate ≤ high) :
    (consider target low high best candidate = best ∨
        consider target low high best candidate = candidate) ∧
      distance target (consider target low high best candidate) ≤ distance target best ∧
      distance target (consider target low high best candidate) ≤ distance target candidate := by
  rw [consider, if_neg (by omega)]
  split
  · rename_i hcloser
    have hcloser := hcloser.resolve_left hbest
    exact ⟨Or.inr rfl, hcloser.le, le_rfl⟩
  · rename_i hfarther
    rw [not_or, Nat.not_lt] at hfarther
    exact ⟨Or.inl rfl, le_rfl, hfarther.2⟩

/-- On its side of the target no multiple of 8 is closer than the neighbour. -/
theorem distance_neighbours {target b : ℕ} (hmod : b % 8 = 0) :
    (b ≤ target → distance target (target / 8 * 8) ≤ distance target b ∧ b ≤ target / 8 * 8) ∧
      (target ≤ b →
        distance target ((target + 7) / 8 * 8) ≤ distance target b ∧
          (target + 7) / 8 * 8 ≤ b) := by
  constructor
  · intro hle
    rw [distance, distance, if_neg (by omega), if_neg (by omega)]
    omega
  · intro hle
    have hup : (target + 7) / 8 * 8 ≤ b := by omega
    refine ⟨?_, hup⟩
    rw [distance, distance]
    split <;> split <;> omega

/-- Of the multiples of 8 between two bounds around the target the two next to it are
enough: if one of them is outside the bounds, so is everything on its side. -/
theorem consider_neighbours (target low high : ℕ) (hpos : 0 < low) (hlow : low ≤ target)
    (hhigh : target ≤ high) :
    let best := consider target low high
      (consider target low high 0 (target / 8 * 8)) ((target + 7) / 8 * 8)
    (best = 0 ∧ ∀ b, b % 8 = 0 → low ≤ b → b ≤ high → False) ∨
      best % 8 = 0 ∧ low ≤ best ∧ best ≤ high ∧
        ∀ b, b % 8 = 0 → low ≤ b → b ≤ high → distance target best ≤ distance target b := by
  dsimp only
  by_cases hdown : low ≤ target / 8 * 8
  · rw [consider_zero hdown (by omega)]
    by_cases hup : (target + 7) / 8 * 8 ≤ high
    · obtain ⟨hone, hcloser₁, hcloser₂⟩ := consider_closer target low high
        (target / 8 * 8) ((target + 7) / 8 * 8) (by omega) (by omega) hup
      refine Or.inr ⟨by omega, by omega, by omega, fun b hmod hb _ => ?_⟩
      rcases Nat.le_total b target with hle | hle
      · exact hcloser₁.trans ((distance_neighbours hmod).1 hle).1
      · exact hcloser₂.trans ((distance_neighbours hmod).2 hle).1
    · rw [consider_of_outside (Or.inr (Nat.lt_of_not_le hup))]
      refine Or.inr ⟨by omega, hdown, by omega, fun b hmod _ hb => ?_⟩
      have hle : b ≤ target := by
        by_contra hgt
        have := ((distance_neighbours hmod).2 (Nat.le_of_not_le hgt)).2
        omega
      exact ((distance_neighbours hmod).1 hle).1
  · have hnone : consider target low high 0 (target / 8 * 8) = 0 :=
      consider_of_outside (Or.inl (Nat.lt_of_not_le hdown))
    rw [hnone]
    by_cases hup : (target + 7) / 8 * 8 ≤ high
    · rw [consider_zero (by omega) hup]
      refine Or.inr ⟨by omega, by omega, hup, fun b hmod hb _ => ?_⟩
      have hle : target ≤ b := by
        by_contra hgt
        have := ((distance_neighbours hmod).1 (Nat.le_of_not_le hgt)).2
        omega
      exact ((distance_neighbours hmod).2 hle).1
    · rw [consider_of_outside (Or.inr (Nat.lt_of_not_le hup))]
      refine Or.inl ⟨rfl, fun b hmod hb₁ hb₂ => ?_⟩
      rcases Nat.le_total b target with hle | hle
      · have := ((distance_neighbours hmod).1 hle).2
        omega
      · have := ((distance_neighbours hmod).2 hle).2
        omega

/-- The place the policy asks for, moved into the range of the allowed cuts. -/
def wantedCut (policy : Policy) (payloadLength : ℕ) : ℕ :=
  clamp policy.splitOffset (lowestCut policy) (highestCut policy payloadLength)

/-- What the boundary comes to, in terms of the places that are allowed. -/
theorem ipv4FragmentBoundary_cases (transportHeaderLength payloadLength : ℕ) (policy : Policy) :
    let b := ipv4FragmentBoundary transportHeaderLength policy payloadLength
    (b = 0 ∧ ∀ b', ¬ Boundary transportHeaderLength policy payloadLength b') ∨
      Boundary transportHeaderLength policy payloadLength b ∧
        ∀ b', Boundary transportHeaderLength policy payloadLength b' →
          distance (transportHeaderLength + wantedCut policy payloadLength) b ≤
            distance (transportHeaderLength + wantedCut policy payloadLength) b' := by
  dsimp only
  rw [ipv4FragmentBoundary]
  split
  · rename_i hnone
    refine Or.inl ⟨rfl, fun b' hb' => ?_⟩
    obtain ⟨-, cut, -, hcut⟩ := hb'
    have hpos := hcut.pos
    have hlt := hcut.lt
    obtain ⟨hlow, hhigh⟩ := allowedCut_iff.1 hcut
    omega
  rename_i hsome
  rw [not_or, Nat.not_lt, Nat.not_lt] at hsome
  have hlowest : 0 < lowestCut policy := by
    rw [lowestCut]
    split <;> omega
  have hwanted : lowestCut policy ≤ wantedCut policy payloadLength ∧
      wantedCut policy payloadLength ≤ highestCut policy payloadLength := by
    rw [wantedCut, clamp]
    omega
  dsimp only
  rw [← wantedCut]
  rcases consider_neighbours (transportHeaderLength + wantedCut policy payloadLength)
    (transportHeaderLength + lowestCut policy)
    (transportHeaderLength + highestCut policy payloadLength) (by omega) (by omega)
    (by omega) with ⟨hzero, hnone⟩ | ⟨hmod, hlow, hhigh, hclosest⟩
  · refine Or.inl ⟨hzero, fun b' hb' => ?_⟩
    obtain ⟨hmod, hlow, hhigh⟩ := boundary_iff.1 hb'
    exact hnone b' hmod hlow hhigh
  · refine Or.inr ⟨boundary_iff.2 ⟨hmod, hlow, hhigh⟩, fun b' hb' => ?_⟩
    obtain ⟨hmod', hlow', hhigh'⟩ := boundary_iff.1 hb'
    exact hclosest b' hmod' hlow' hhigh'

theorem Boundary.pos {transportHeaderLength payloadLength b : ℕ} {policy : Policy}
    (h : Boundary transportHeaderLength policy payloadLength b) :
    0 < b ∧ b < transportHeaderLength + payloadLength := by
  obtain ⟨-, cut, rfl, hcut⟩ := h
  have hpos := hcut.pos
  have hlt := hcut.lt
  omega

/-- The boundary is 0 if there is none, and otherwise one that is closest to the wanted
cut. Called with it `buildIpv4Fragments` cuts a packet there or not at all, and it does cut
every whole packet with these lengths. -/
theorem ipv4FragmentBoundary_optimal (transportHeaderLength payloadLength : ℕ)
    (policy : Policy) :
    let b := ipv4FragmentBoundary transportHeaderLength policy payloadLength
    (b = 0 ↔ ¬ ∃ b', Boundary transportHeaderLength policy payloadLength b') ∧
      (b ≠ 0 → Boundary transportHeaderLength policy payloadLength b ∧
        (∀ b', Boundary transportHeaderLength policy payloadLength b' →
          distance (transportHeaderLength + wantedCut policy payloadLength) b ≤
            distance (transportHeaderLength + wantedCut policy payloadLength) b') ∧
        ∀ packet ipHeaderLength,
          buildIpv4Fragments packet ipHeaderLength (ipHeaderLength + b) = [] ∧
              ¬ (Cuttable packet ipHeaderLength ∧
                packet.length = ipHeaderLength + transportHeaderLength + payloadLength) ∨
            ∃ first second,
              buildIpv4Fragments packet ipHeaderLength (ipHeaderLength + b) = [first, second] ∧
                first.drop ipHeaderLength = (packet.drop ipHeaderLength).take b ∧
                second.drop ipHeaderLength = (packet.drop ipHeaderLength).drop b) := by
  dsimp only
  rcases ipv4FragmentBoundary_cases transportHeaderLength payloadLength policy with
    ⟨hzero, hnone⟩ | ⟨hboundary, hclosest⟩
  · rw [hzero]
    exact ⟨⟨fun _ => not_exists.2 hnone, fun _ => rfl⟩, fun hne => absurd rfl hne⟩
  · generalize ipv4FragmentBoundary transportHeaderLength policy payloadLength = b
      at hboundary hclosest ⊢
    obtain ⟨hpos, hlt⟩ := hboundary.pos
    have hmod := hboundary.1
    constructor
    · exact ⟨fun hzero => absurd hzero hpos.ne', fun hnone => absurd ⟨b, hboundary⟩ hnone⟩
    · refine fun _ => ⟨hboundary, hclosest, fun packet ipHeaderLength => ?_⟩
      have hround : (ipHeaderLength + b - ipHeaderLength + 7) / 8 * 8 = b := by omega
      rcases buildIpv4Fragments_halves packet ipHeaderLength (ipHeaderLength + b) hround with
        ⟨hnil, hnot⟩ | ⟨-, -, first, second, heq, hhalves⟩
      · refine Or.inl ⟨hnil, ?_⟩
        rintro ⟨hcuttable, hlength⟩
        exact hnot ⟨hcuttable, hpos, by omega⟩
      · exact Or.inr ⟨first, second, heq, hhalves.drop_eq⟩

-- No multiple of 8 lies inside the first host name; one does inside the second.
example : ipv4FragmentBoundary 20 { splitOffset := 6, sniBegin := 5, sniEnd := 8 } 60 = 0 ∧
    ipv4FragmentBoundary 20 { splitOffset := 6, sniBegin := 3, sniEnd := 7 } 60 = 24 := by
  decide

end Packet

end SplitHello
