import Mathlib.Algebra.Group.Nat.Defs
import Mathlib.Data.List.Basic
import Mathlib.Data.Nat.Notation

/-!
# Byte strings

A byte string is a list of bytes; a buffer handed to a parser is a memory,
a total function from offsets to bytes, together with a length kept separately.
That a parser stays inside its buffer is then the statement that its result
does not depend on the memory at or above the length, and a longer prefix of
the same stream is the same memory with a larger length.
-/

namespace ByteString

/-- A string of bytes. -/
abbrev Bytes := List UInt8

/-- What a pointer to the first byte of a buffer gives access to. -/
abbrev Memory := ℕ → UInt8

/-- The bytes of an ASCII literal. -/
def ofString (s : String) : Bytes := s.toList.map fun c => UInt8.ofNat c.toNat

/-- A byte string as a memory; outside the string it reads as zero. -/
def memory (b : Bytes) : Memory := fun i => b.getD i 0

/-- The `n` bytes of a memory from the offset `i` on. -/
def slice (m : Memory) (i n : ℕ) : Bytes := (List.range n).map fun j => m (i + j)

/-- Big-endian 16-bit read. -/
def be16 (m : Memory) (i : ℕ) : ℕ := (m i).toNat * 256 + (m (i + 1)).toNat

/-- Big-endian 24-bit read. -/
def be24 (m : Memory) (i : ℕ) : ℕ := (m i).toNat * 65536 + be16 m (i + 1)

/-- Big-endian 32-bit read. -/
def be32 (m : Memory) (i : ℕ) : ℕ := be16 m i * 65536 + be16 m (i + 2)

/-- Big-endian 16-bit write; higher bits are cut off. -/
def put16 (n : ℕ) : Bytes := [UInt8.ofNat (n / 256), UInt8.ofNat n]

/-- Big-endian 24-bit write; higher bits are cut off. -/
def put24 (n : ℕ) : Bytes := UInt8.ofNat (n / 65536) :: put16 n

/-- Big-endian 32-bit write; higher bits are cut off. -/
def put32 (n : ℕ) : Bytes := put16 (n / 65536) ++ put16 n

/-- Writes bytes over a part of a string. -/
def splice (b : Bytes) (i : ℕ) (v : Bytes) : Bytes := b.take i ++ v ++ b.drop (i + v.length)

/-- ASCII lower case; every other byte is left alone. -/
def lowerByte (c : UInt8) : UInt8 := if 65 ≤ c ∧ c ≤ 90 then c + 32 else c

/-- ASCII lower case of a string. -/
def lower (b : Bytes) : Bytes := b.map lowerByte

theorem lowerByte_idem (c : UInt8) : lowerByte (lowerByte c) = lowerByte c := by
  by_cases h : 65 ≤ c ∧ c ≤ 90
  · have hup : ¬ (65 ≤ c + 32 ∧ c + 32 ≤ 90) := by
      simp only [UInt8.le_iff_toNat_le, UInt8.toNat_add] at h ⊢
      simp at h ⊢
      omega
    rw [lowerByte, lowerByte, if_pos h, if_neg hup]
  · rw [lowerByte, lowerByte, if_neg h, if_neg h]

theorem be16_lt (m : Memory) (i : ℕ) : be16 m i < 65536 := by
  have h₀ := (m i).toNat_lt
  have h₁ := (m (i + 1)).toNat_lt
  simp only [be16]
  omega

@[simp] theorem length_slice (m : Memory) (i n : ℕ) : (slice m i n).length = n := by
  simp [slice]

theorem slice_add (m : Memory) (i n k : ℕ) :
    slice m i (n + k) = slice m i n ++ slice m (i + n) k := by
  simp [slice, List.range_add, Nat.add_assoc]

theorem memory_append_left {a : Bytes} (b : Bytes) {i : ℕ} (h : i < a.length) :
    memory (a ++ b) i = memory a i := by
  simp [memory, List.getElem?_append_left h]

theorem memory_take (a : Bytes) {n i : ℕ} (h : i < n) : memory (a.take n) i = memory a i := by
  simp [memory, h]

theorem memory_append_right (a b : Bytes) (i : ℕ) :
    memory (a ++ b) (a.length + i) = memory b i := by
  simp [memory, List.getElem?_append_right]

theorem slice_congr {m m' : Memory} {i j n : ℕ}
    (h : ∀ k < n, m (i + k) = m' (j + k)) : slice m i n = slice m' j n := by
  apply List.map_congr_left
  intro k hk
  exact h k (List.mem_range.1 hk)

/-- Reading a stretch of a byte string is cutting it out. -/
theorem slice_memory (b : Bytes) (i n : ℕ) (h : i + n ≤ b.length) :
    slice (memory b) i n = (b.drop i).take n := by
  apply List.ext_getElem
  · simp
    omega
  · intro k h₁ h₂
    have hk : k < n := by simpa using h₁
    have hik : i + k < b.length := by omega
    simp [slice, memory, List.getD_eq_getElem?_getD, hik]

/-- The two memories hold the same bytes below an offset. -/
def Agree (n : ℕ) (m m' : Memory) : Prop := ∀ i < n, m i = m' i

theorem Agree.be16 {m m' : Memory} {n i : ℕ} (h : Agree n m m') (hi : i + 2 ≤ n) :
    be16 m i = be16 m' i := by
  rw [ByteString.be16, ByteString.be16, h i (by omega), h (i + 1) (by omega)]

theorem Agree.be24 {m m' : Memory} {n i : ℕ} (h : Agree n m m') (hi : i + 3 ≤ n) :
    be24 m i = be24 m' i := by
  rw [ByteString.be24, ByteString.be24, h i (by omega), h.be16 (by omega)]

theorem Agree.slice {m m' : Memory} {n i k : ℕ} (h : Agree n m m') (hi : i + k ≤ n) :
    slice m i k = slice m' i k :=
  slice_congr fun j hj => h (i + j) (by omega)

/-- A string and what it begins with. -/
theorem agree_of_isPrefix {a b : Bytes} (h : a <+: b) : Agree a.length (memory a) (memory b) := by
  obtain ⟨rest, rfl⟩ := h
  exact fun i hi => (memory_append_left rest hi).symm

theorem length_splice {b v : Bytes} {i : ℕ} (h : i + v.length ≤ b.length) :
    (splice b i v).length = b.length := by
  simp [splice]
  omega

/-- Outside the part that was written the bytes are the old ones. -/
theorem memory_splice_of_notMem {b v : Bytes} {i k : ℕ} (h : i + v.length ≤ b.length)
    (hk : k < i ∨ i + v.length ≤ k) : memory (splice b i v) k = memory b k := by
  have htake : (b.take i).length = i := by
    simp
    omega
  rcases hk with hk | hk
  · rw [splice, List.append_assoc, memory_append_left _ (by omega), memory_take b hk]
  · obtain ⟨j, rfl⟩ : ∃ j, k = (b.take i ++ v).length + j :=
      ⟨k - (i + v.length), by rw [List.length_append, htake]; omega⟩
    rw [splice, memory_append_right]
    simp [memory, List.getElem?_drop, htake, List.length_append]

/-- Inside it they are the new ones. -/
theorem memory_splice_of_mem {b v : Bytes} {i k : ℕ} (h : i + v.length ≤ b.length)
    (hk : k < v.length) : memory (splice b i v) (i + k) = memory v k := by
  have htake : (b.take i).length = i := by
    simp
    omega
  have hread := memory_append_right (b.take i) (v ++ b.drop (i + v.length)) k
  rw [htake] at hread
  rw [splice, List.append_assoc, hread, memory_append_left _ hk]

@[simp] theorem length_put16 (n : ℕ) : (put16 n).length = 2 := rfl

@[simp] theorem length_put32 (n : ℕ) : (put32 n).length = 4 := rfl

/-- Reading back a number that was written. -/
theorem be16_splice_put16 {b : Bytes} {i n : ℕ} (hn : n < 65536) (h : i + 2 ≤ b.length) :
    be16 (memory (splice b i (put16 n))) i = n := by
  have h₀ := memory_splice_of_mem (v := put16 n) (k := 0) (by simpa using h) (by simp)
  have h₁ := memory_splice_of_mem (v := put16 n) (k := 1) (by simpa using h) (by simp)
  rw [Nat.add_zero] at h₀
  rw [be16, h₀, h₁]
  simp [memory, put16]
  omega

theorem be16_splice_of_notMem {b v : Bytes} {i k : ℕ} (h : i + v.length ≤ b.length)
    (hk : k + 1 < i ∨ i + v.length ≤ k) :
    be16 (memory (splice b i v)) k = be16 (memory b) k := by
  rw [be16, be16, memory_splice_of_notMem h (by omega), memory_splice_of_notMem h (by omega)]

theorem be32_lt (m : Memory) (i : ℕ) : be32 m i < 2 ^ 32 := by
  have h₀ := be16_lt m i
  have h₁ := be16_lt m (i + 2)
  rw [be32]
  omega

theorem be32_splice_put32 {b : Bytes} {i n : ℕ} (hn : n < 2 ^ 32) (h : i + 4 ≤ b.length) :
    be32 (memory (splice b i (put32 n))) i = n := by
  have hread (k : ℕ) (hk : k < 4) :=
    memory_splice_of_mem (b := b) (v := put32 n) (i := i) (k := k) (by simpa using h) (by simpa)
  have h₀ := hread 0 (by omega)
  have h₁ := hread 1 (by omega)
  have h₂ := hread 2 (by omega)
  have h₃ := hread 3 (by omega)
  rw [Nat.add_zero] at h₀
  rw [be32, be16, be16, h₀, h₁, h₂, h₃]
  simp [memory, put32, put16]
  omega

theorem be32_congr {m m' : Memory} {i : ℕ} (h : ∀ k < 4, m (i + k) = m' (i + k)) :
    be32 m i = be32 m' i := by
  have h₀ := h 0 (by omega)
  have h₁ := h 1 (by omega)
  have h₂ := h 2 (by omega)
  have h₃ := h 3 (by omega)
  rw [Nat.add_zero] at h₀
  rw [be32, be32, be16, be16, be16, be16, h₀, h₁, h₂, h₃]

theorem be16_shift (front rest : Bytes) (i : ℕ) :
    be16 (memory (front ++ rest)) (front.length + i) = be16 (memory rest) i := by
  rw [be16, be16, memory_append_right, Nat.add_assoc, memory_append_right]

theorem be32_shift (front rest : Bytes) (i : ℕ) :
    be32 (memory (front ++ rest)) (front.length + i) = be32 (memory rest) i := by
  rw [be32, be32, be16_shift, Nat.add_assoc, be16_shift]

theorem put16_be16 (m : Memory) (i : ℕ) : put16 (be16 m i) = slice m i 2 := by
  have h₀ := (m i).toNat_lt
  have h₁ := (m (i + 1)).toNat_lt
  have hhi : be16 m i / 256 = (m i).toNat := by
    simp only [be16]
    omega
  have hlo : UInt8.ofNat (be16 m i) = m (i + 1) := by
    apply UInt8.toNat_inj.1
    simp only [UInt8.toNat_ofNat', be16]
    omega
  rw [put16, hhi, hlo, UInt8.ofNat_toNat]
  rfl

theorem put32_be32 (m : Memory) (i : ℕ) : put32 (be32 m i) = slice m i 4 := by
  have hlow := be16_lt m (i + 2)
  have hhigh : be32 m i / 65536 = be16 m i := by
    rw [be32]
    omega
  have hcut : put16 (be32 m i) = put16 (be16 m (i + 2)) := by
    rw [put16, put16, List.cons.injEq, List.cons.injEq, ← UInt8.toNat_inj, ← UInt8.toNat_inj,
      be32]
    simp only [UInt8.toNat_ofNat', and_true]
    omega
  rw [put32, hhigh, hcut, put16_be16, put16_be16, slice_add m i 2 2]

/-- A number that is read from two places has the same bytes there. -/
theorem memory_eq_of_be32_eq {m m' : Memory} {i : ℕ} (h : be32 m i = be32 m' i) {k : ℕ}
    (hk : k < 4) : m (i + k) = m' (i + k) := by
  have hslice : slice m i 4 = slice m' i 4 := by rw [← put32_be32, ← put32_be32, h]
  exact List.map_inj_left.1 hslice k (List.mem_range.2 hk)

theorem eq_of_memory_eq {a b : Bytes} (hlength : a.length = b.length)
    (h : ∀ i, memory a i = memory b i) : a = b := by
  refine List.ext_getElem hlength fun i hi hi' => ?_
  simpa [memory, hi, hi'] using h i

/-! ## Strings at an offset -/

/-- The bytes of the string stand in the memory from the offset on. -/
def At (m : Memory) (i : ℕ) (b : Bytes) : Prop := ∀ k < b.length, m (i + k) = memory b k

theorem at_nil (m : Memory) (i : ℕ) : At m i [] := fun _ hk => absurd hk (Nat.not_lt_zero _)

theorem at_append {m : Memory} {i : ℕ} {a b : Bytes} :
    At m i (a ++ b) ↔ At m i a ∧ At m (i + a.length) b := by
  constructor
  · intro h
    constructor
    · intro k hk
      rw [h k (by rw [List.length_append]; omega), memory_append_left b hk]
    · intro k hk
      rw [Nat.add_assoc, h (a.length + k) (by rw [List.length_append]; omega),
        memory_append_right]
  · rintro ⟨ha, hb⟩ k hk
    rw [List.length_append] at hk
    by_cases hlt : k < a.length
    · rw [ha k hlt, memory_append_left b hlt]
    · obtain ⟨j, rfl⟩ : ∃ j, k = a.length + j := ⟨k - a.length, by omega⟩
      rw [← Nat.add_assoc, hb j (by omega), memory_append_right]

theorem at_cons {m : Memory} {i : ℕ} {c : UInt8} {b : Bytes} :
    At m i (c :: b) ↔ m i = c ∧ At m (i + 1) b := by
  have hhead : At m i [c] ↔ m i = c := by
    constructor
    · intro h
      exact h 0 (by simp)
    · intro h k hk
      have hzero : k = 0 := by simpa using hk
      rw [hzero]
      exact h
  rw [← hhead]
  exact at_append (a := [c])

theorem At.slice {m : Memory} {i : ℕ} {b : Bytes} (h : At m i b) : slice m i b.length = b := by
  have hsame : ByteString.slice m i b.length = ByteString.slice (memory b) 0 b.length :=
    slice_congr fun k hk => by rw [h k hk, Nat.zero_add]
  rw [hsame, slice_memory b 0 b.length (by omega), List.drop_zero, List.take_length]

theorem At.be16 {m : Memory} {i n : ℕ} (h : At m i (put16 n)) (hn : n < 65536) :
    be16 m i = n := by
  obtain ⟨h₀, h₁⟩ := at_cons.1 h
  obtain ⟨h₁, -⟩ := at_cons.1 h₁
  rw [ByteString.be16, h₀, h₁]
  simp
  omega

theorem At.be24 {m : Memory} {i n : ℕ} (h : At m i (put24 n)) (hn : n < 2 ^ 24) :
    be24 m i = n := by
  obtain ⟨h₀, h₁⟩ := at_cons.1 h
  obtain ⟨h₁, h₂⟩ := at_cons.1 h₁
  obtain ⟨h₂, -⟩ := at_cons.1 h₂
  rw [ByteString.be24, ByteString.be16, h₀, h₁, h₂]
  simp
  omega

theorem at_memory_append (b rest : Bytes) : At (memory (b ++ rest)) 0 b :=
  fun k hk => by rw [Nat.zero_add, memory_append_left rest hk]

@[simp] theorem length_put24 (n : ℕ) : (put24 n).length = 3 := rfl

/-- What stands behind the last separator of a text and what stands before it. -/
theorem eq_of_append_cons {c : UInt8} {a a' x x' : Bytes} (ha : c ∉ a) (ha' : c ∉ a')
    (h : x ++ c :: a = x' ++ c :: a') : x = x' ∧ a = a' := by
  have hfront : ∀ b y : Bytes, c ∉ b →
      ((y ++ c :: b).reverse).takeWhile (fun d => d ≠ c) = b.reverse := by
    intro b y hb
    have hb : ∀ d ∈ b.reverse, decide (d ≠ c) = true := by
      intro d hd
      exact decide_eq_true fun heq => hb (List.mem_reverse.1 (heq ▸ hd))
    have htext : (y ++ c :: b).reverse = b.reverse ++ c :: y.reverse := by simp
    rw [htext, List.takeWhile_append_of_pos hb]
    simp
  have heq : a = a' := by
    have hreverse := hfront a x ha
    rw [h, hfront a' x' ha'] at hreverse
    exact (List.reverse_injective hreverse).symm
  subst heq
  exact ⟨List.append_cancel_right h, rfl⟩

/-- Of two writes to one place the second counts. -/
theorem splice_splice {b v w : Bytes} {i : ℕ} (h : i + v.length ≤ b.length)
    (hw : w.length = v.length) : splice (splice b i v) i w = splice b i w := by
  have htake : (b.take i).length = i := by
    simp
    omega
  have hfront : (splice b i v).take i = b.take i := by
    rw [splice, List.append_assoc]
    exact List.take_left' htake
  have hback : (splice b i v).drop (i + v.length) = b.drop (i + v.length) := by
    rw [splice]
    refine List.drop_left' ?_
    rw [List.length_append, htake]
  rw [splice, hfront, hw, hback, splice, hw]

/-! ## Strings that differ in places -/

/-- Two strings of one length that agree outside the places `P`. -/
structure SameExcept (P : ℕ → Prop) (a b : Bytes) : Prop where
  length_eq : a.length = b.length
  memory_eq : ∀ k, ¬ P k → memory a k = memory b k

namespace SameExcept

variable {P Q : ℕ → Prop} {a b c : Bytes}

theorem of_splice {i : ℕ} {v : Bytes} (h : i + v.length ≤ b.length) :
    SameExcept (fun k => i ≤ k ∧ k < i + v.length) (splice b i v) b where
  length_eq := length_splice h
  memory_eq k hk := memory_splice_of_notMem h (by omega)

theorem of_splice_put16 {i n : ℕ} (h : i + 2 ≤ b.length) :
    SameExcept (fun k => i ≤ k ∧ k < i + 2) (splice b i (put16 n)) b :=
  of_splice (v := put16 n) h

theorem trans (hab : SameExcept P a b) (hbc : SameExcept P b c) : SameExcept P a c where
  length_eq := hab.length_eq.trans hbc.length_eq
  memory_eq k hk := (hab.memory_eq k hk).trans (hbc.memory_eq k hk)

theorem mono (h : SameExcept P a b) (hPQ : ∀ k, P k → Q k) : SameExcept Q a b where
  length_eq := h.length_eq
  memory_eq k hk := h.memory_eq k fun hP => hk (hPQ k hP)

theorem be16_eq (h : SameExcept P a b) {i : ℕ} (h₀ : ¬ P i) (h₁ : ¬ P (i + 1)) :
    be16 (memory a) i = be16 (memory b) i := by
  rw [be16, be16, h.memory_eq i h₀, h.memory_eq (i + 1) h₁]

theorem be32_eq (h : SameExcept P a b) {i : ℕ} (hP : ∀ k < 4, ¬ P (i + k)) :
    be32 (memory a) i = be32 (memory b) i :=
  be32_congr fun k hk => h.memory_eq (i + k) (hP k hk)

/-- Behind the last of the places the strings are the same. -/
theorem drop_eq (h : SameExcept P a b) {n : ℕ} (hP : ∀ k, P k → k < n) : a.drop n = b.drop n := by
  refine List.ext_getElem ?_ fun k hka hkb => ?_
  · rw [List.length_drop, List.length_drop, h.length_eq]
  · have hk := h.memory_eq (n + k) fun hPk => absurd (hP _ hPk) (by omega)
    rw [List.length_drop] at hka hkb
    have hin : n + k < a.length := by omega
    have hin' : n + k < b.length := by omega
    simpa [memory, hin, hin'] using hk

end SameExcept

end ByteString
