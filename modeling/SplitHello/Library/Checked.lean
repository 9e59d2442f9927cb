import SplitHello.Library.ByteString

/-!
# Reads that are checked

Code that is handed a pointer and a length may touch the bytes below the length and no
others. With these reads a byte outside the buffer is no value at all, and a program that is
written with them either stays inside its buffer or has no result. That it has a result for
every buffer is then the statement that it is memory-safe, whether or not what it reads
makes a difference.
-/

namespace ByteString

/-- The byte at an offset of a buffer of `len` bytes. -/
def loadByte (m : Memory) (len i : ℕ) : Option UInt8 := if i < len then some (m i) else none

def load16 (m : Memory) (len i : ℕ) : Option ℕ :=
  (loadByte m len i).bind fun high =>
    (loadByte m len (i + 1)).map fun low => high.toNat * 256 + low.toNat

def load24 (m : Memory) (len i : ℕ) : Option ℕ :=
  (loadByte m len i).bind fun high =>
    (load16 m len (i + 1)).map fun low => high.toNat * 65536 + low

def load32 (m : Memory) (len i : ℕ) : Option ℕ :=
  (load16 m len i).bind fun high =>
    (load16 m len (i + 2)).map fun low => high * 65536 + low

/-- The `n` bytes from an offset on, read one after the other. -/
def loadSlice (m : Memory) (len i : ℕ) : ℕ → Option Bytes
  | 0 => some []
  | n + 1 => (loadSlice m len i n).bind fun b => (loadByte m len (i + n)).map fun c => b ++ [c]

variable {m : Memory} {len i : ℕ}

theorem loadByte_of_lt (h : i < len) : loadByte m len i = some (m i) := if_pos h

theorem load16_of_le (h : i + 2 ≤ len) : load16 m len i = some (be16 m i) := by
  rw [load16, loadByte_of_lt (by omega), loadByte_of_lt (by omega)]
  rfl

theorem load24_of_le (h : i + 3 ≤ len) : load24 m len i = some (be24 m i) := by
  rw [load24, loadByte_of_lt (by omega), load16_of_le (by omega)]
  rfl

theorem load32_of_le (h : i + 4 ≤ len) : load32 m len i = some (be32 m i) := by
  rw [load32, load16_of_le (by omega), load16_of_le (by omega)]
  rfl

theorem loadSlice_of_le {n : ℕ} (h : i + n ≤ len) : loadSlice m len i n = some (slice m i n) := by
  induction n with
  | zero => rfl
  | succ n ih =>
      have hlast : slice m (i + n) 1 = [m (i + n)] := rfl
      rw [loadSlice, ih (by omega), loadByte_of_lt (by omega), slice_add, hlast]
      rfl

/-- Two memories that agree on the buffer cannot be told apart by such reads. -/
theorem loadByte_congr {m' : Memory} (h : Agree len m m') : loadByte m len = loadByte m' len := by
  funext i
  rw [loadByte, loadByte]
  split
  · rw [h i ‹_›]
  · rfl

theorem load16_congr {m' : Memory} (h : Agree len m m') : load16 m len = load16 m' len := by
  funext i
  rw [load16, load16, loadByte_congr h]

end ByteString
