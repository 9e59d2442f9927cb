import SplitHello.Library.ByteString

/-!
# Sums with an end-around carry

The checksum of the Internet protocols: 16-bit words are added up, the carries are added
back in, and the complement is stored. A block that holds its own checksum sums to the
word of ones.
-/

namespace InternetChecksum

open ByteString

/-- `while (sum >> 16) sum = (sum & 0xFFFF) + (sum >> 16)`, at most as often as given. -/
def foldTimes : ℕ → ℕ → ℕ
  | 0, sum => sum
  | n + 1, sum => if sum < 65536 then sum else foldTimes n (sum % 65536 + sum / 65536)

/-- The loop shrinks the sum each time, so it ends within as many rounds. -/
def foldCarries (sum : ℕ) : ℕ := foldTimes sum sum

theorem foldTimes_spec {n sum : ℕ} (h : sum ≤ n) :
    foldTimes n sum < 65536 ∧ foldTimes n sum % 65535 = sum % 65535 ∧
      (foldTimes n sum = 0 ↔ sum = 0) := by
  induction n generalizing sum with
  | zero =>
      rw [foldTimes]
      omega
  | succ n ih =>
      rw [foldTimes]
      split
      · omega
      · have hsum : sum % 65536 + sum / 65536 ≤ n := by omega
        obtain ⟨hlt, hmod, hzero⟩ := ih hsum
        refine ⟨hlt, ?_, ?_⟩
        · rw [hmod]
          omega
        · rw [hzero]
          omega

theorem foldCarries_spec (sum : ℕ) :
    foldCarries sum < 65536 ∧ foldCarries sum % 65535 = sum % 65535 ∧
      (foldCarries sum = 0 ↔ sum = 0) :=
  foldTimes_spec (Nat.le_refl sum)

/-- The sum of `n` words from an address on. -/
def wordSum (m : Memory) : ℕ → ℕ → ℕ
  | _, 0 => 0
  | i, n + 1 => be16 m i + wordSum m (i + 2) n

/-- The complement that makes a sum come out right. -/
def complement (sum : ℕ) : ℕ := 65535 - foldCarries sum

/-- A block with its checksum in place. -/
theorem foldCarries_add_complement (sum : ℕ) :
    foldCarries (sum + complement sum) = 65535 := by
  obtain ⟨hlt, hmod, hzero⟩ := foldCarries_spec sum
  obtain ⟨hlt', hmod', hzero'⟩ := foldCarries_spec (sum + complement sum)
  rw [complement] at hlt' hmod' hzero' ⊢
  omega

theorem wordSum_congr {m m' : Memory} {i n : ℕ}
    (h : ∀ j < n, be16 m' (i + 2 * j) = be16 m (i + 2 * j)) : wordSum m' i n = wordSum m i n := by
  induction n generalizing i with
  | zero => rfl
  | succ n ih =>
      have hrest : wordSum m' (i + 2) n = wordSum m (i + 2) n := by
        refine ih fun j hj => ?_
        have hword := h (j + 1) (Nat.succ_lt_succ hj)
        rwa [Nat.mul_succ, Nat.add_comm (2 * j), ← Nat.add_assoc] at hword
      rw [wordSum, wordSum, hrest]
      exact congrArg (· + wordSum m (i + 2) n) (h 0 (Nat.succ_pos n))

/-- Two blocks that differ in one word, which is zero in the first, differ by that word. -/
theorem wordSum_of_word {m m' : Memory} {i n k : ℕ} (hk : k < n)
    (hzero : be16 m (i + 2 * k) = 0)
    (h : ∀ j < n, j ≠ k → be16 m' (i + 2 * j) = be16 m (i + 2 * j)) :
    wordSum m' i n = wordSum m i n + be16 m' (i + 2 * k) := by
  induction n generalizing i k with
  | zero => exact absurd hk (Nat.not_lt_zero k)
  | succ n ih =>
      have hshift (j : ℕ) : i + 2 * (j + 1) = i + 2 + 2 * j := by omega
      rw [wordSum, wordSum]
      cases k with
      | zero =>
          have hrest : wordSum m' (i + 2) n = wordSum m (i + 2) n := by
            refine wordSum_congr fun j hj => ?_
            rw [← hshift]
            exact h (j + 1) (Nat.succ_lt_succ hj) (Nat.succ_ne_zero j)
          have hfirst : be16 m i = 0 := hzero
          rw [hrest, hfirst, Nat.zero_add, Nat.add_comm]
          rfl
      | succ k =>
          have hfirst : be16 m' i = be16 m i := h 0 (Nat.succ_pos n) (Nat.succ_ne_zero k).symm
          rw [hshift] at hzero ⊢
          have hrest := ih (Nat.lt_of_succ_lt_succ hk) hzero fun j hj hne => by
            rw [← hshift]
            exact h (j + 1) (Nat.succ_lt_succ hj) (fun heq => hne (Nat.succ.inj heq))
          rw [hfirst, hrest]
          omega

end InternetChecksum
