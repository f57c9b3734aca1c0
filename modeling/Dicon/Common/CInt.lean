import Mathlib.Data.Int.Basic
import Mathlib.Tactic.Common

/-!
# C integer conversions

`body_size` is a `uint32_t`, lengths are passed as `int`, and the receive loop
counts in `size_t`. The conversions below are the implementation-defined ones of
a two's complement machine with a 32-bit `int` and a 64-bit `size_t`; they are
the identity exactly below `2^31`.
-/

namespace Dicon

def intMax : ℕ := 2147483647

/-- Conversion to a 32-bit `int`. -/
def toCInt (n : ℤ) : ℤ := n.bmod 4294967296

/-- Conversion to a 64-bit `size_t`. -/
def toSizeT (n : ℤ) : ℕ := (n % 18446744073709551616).toNat

/-- Conversion to a `uint32_t`. -/
def toU32 (n : ℤ) : UInt32 := UInt32.ofNat (n % 4294967296).toNat

/-- Signed addition; an overflow is undefined. -/
def addInt (a b : ℤ) : Option ℤ :=
  if -(intMax + 1 : ℤ) ≤ a + b ∧ a + b ≤ intMax then some (a + b) else none

theorem addInt_eq {a b : ℤ} (h0 : 0 ≤ a + b) (h : a + b ≤ intMax) : addInt a b = some (a + b) :=
  if_pos ⟨by omega, h⟩

/-- The count with which a received `body_size` reaches `tcp_recv_n`: a
`uint32_t` passed as `int` and used as `size_t`. -/
def recvCount (bodySize : UInt32) : ℕ := toSizeT (toCInt bodySize.toNat)

theorem toCInt_of_le {n : ℕ} (h : n ≤ intMax) : toCInt n = n := by
  unfold toCInt intMax at *
  rw [Int.bmod_def]
  split <;> omega

theorem toSizeT_of_lt {n : ℕ} (h : n < 18446744073709551616) : toSizeT n = n := by
  unfold toSizeT
  omega

theorem recvCount_of_le {n : UInt32} (h : n.toNat ≤ intMax) :
    recvCount n = n.toNat := by
  rw [recvCount, toCInt_of_le h, toSizeT_of_lt]
  unfold intMax at h
  omega

theorem toU32_toNat {n : ℕ} (h : n < 4294967296) : (toU32 n).toNat = n := by
  unfold toU32
  rw [UInt32.toNat_ofNat']
  omega

theorem recvCount_toU32 {n : ℕ} (h : n ≤ intMax) : recvCount (toU32 n) = n := by
  have hn : (toU32 n).toNat = n := toU32_toNat (by unfold intMax at h; omega)
  rw [recvCount_of_le (by rw [hn]; exact h), hn]

/-- Every `int` is below `2^31`. -/
theorem toCInt_le (n : ℤ) : toCInt n ≤ intMax := by
  unfold toCInt intMax
  rw [Int.bmod_def]
  split <;> omega

/-- From `2^31` on, the count of a body size is far above it. -/
theorem lt_recvCount {n : UInt32} (h : intMax < n.toNat) : n.toNat < recvCount n := by
  have hlt : n.toNat < 4294967296 := n.toNat_lt
  unfold recvCount toCInt toSizeT intMax at *
  rw [Int.bmod_def]
  split <;> omega

theorem le_recvCount (n : UInt32) : n.toNat ≤ recvCount n := by
  by_cases h : n.toNat ≤ intMax
  · exact Nat.le_of_eq (recvCount_of_le h).symm
  · exact Nat.le_of_lt (lt_recvCount (Nat.lt_of_not_le h))

theorem recvCount_le_iff {n : UInt32} {size : ℕ} (hsize : size ≤ intMax) :
    recvCount n ≤ size ↔ n.toNat ≤ size := by
  constructor
  · intro h
    exact Nat.le_trans (le_recvCount n) h
  · intro h
    rw [recvCount_of_le (Nat.le_trans h hsize)]
    exact h

end Dicon
