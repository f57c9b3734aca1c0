import Mathlib.Data.List.Basic
import Mathlib.Tactic.Ring

/-!
# Little-endian integers as byte lists

A packed C struct puts its integer fields on the wire in host byte order. The
two sides of a protocol agree on a field exactly when reading undoes writing,
which is `leNat_leBytes`.
-/

namespace Dicon.Framework

/-- The `w` low-order bytes of `n`, least significant first. -/
def leBytes : ℕ → ℕ → List UInt8
  | 0, _ => []
  | w + 1, n => UInt8.ofNat n :: leBytes w (n / 256)

/-- The number a byte list spells, least significant byte first. -/
def leNat : List UInt8 → ℕ
  | [] => 0
  | b :: bs => b.toNat + 256 * leNat bs

@[simp] theorem length_leBytes (w n : ℕ) : (leBytes w n).length = w := by
  induction w generalizing n with
  | zero => rfl
  | succ w ih => simp [leBytes, ih]

theorem leNat_leBytes (w n : ℕ) : leNat (leBytes w n) = n % 256 ^ w := by
  induction w generalizing n with
  | zero => simp [leBytes, leNat, Nat.mod_one]
  | succ w ih =>
      have hlow : (UInt8.ofNat n).toNat = n % 256 := UInt8.toNat_ofNat'
      rw [leBytes, leNat, ih, hlow]
      rw [Nat.pow_succ (n := 256), Nat.mul_comm (256 ^ w) 256, Nat.mod_mul]

theorem leNat_eq_zero_iff (bs : List UInt8) : leNat bs = 0 ↔ ∀ b ∈ bs, b = 0 := by
  induction bs with
  | nil => simp [leNat]
  | cons b bs ih =>
      rw [leNat, List.forall_mem_cons, ← ih, ← UInt8.toNat_inj]
      change _ ↔ b.toNat = 0 ∧ _
      omega

theorem leNat_lt (bs : List UInt8) : leNat bs < 256 ^ bs.length := by
  induction bs with
  | nil => simp [leNat]
  | cons b bs ih =>
      have hb : b.toNat < 256 := b.toNat_lt
      rw [leNat, List.length_cons, Nat.pow_succ]
      omega

/-! ## Fixed-width fields -/

def le16 (x : UInt16) : List UInt8 := leBytes 2 x.toNat
def le32 (x : UInt32) : List UInt8 := leBytes 4 x.toNat
def le64 (x : UInt64) : List UInt8 := leBytes 8 x.toNat

def rd16 (bs : List UInt8) : UInt16 := UInt16.ofNat (leNat bs)
def rd32 (bs : List UInt8) : UInt32 := UInt32.ofNat (leNat bs)
def rd64 (bs : List UInt8) : UInt64 := UInt64.ofNat (leNat bs)

@[simp] theorem length_le16 (x : UInt16) : (le16 x).length = 2 := length_leBytes 2 _
@[simp] theorem length_le32 (x : UInt32) : (le32 x).length = 4 := length_leBytes 4 _
@[simp] theorem length_le64 (x : UInt64) : (le64 x).length = 8 := length_leBytes 8 _

@[simp] theorem rd16_le16 (x : UInt16) : rd16 (le16 x) = x := by
  have hx : x.toNat < 65536 := x.toNat_lt
  apply UInt16.toNat_inj.mp
  rw [rd16, le16, leNat_leBytes, UInt16.toNat_ofNat']
  omega

@[simp] theorem rd32_le32 (x : UInt32) : rd32 (le32 x) = x := by
  have hx : x.toNat < 4294967296 := x.toNat_lt
  apply UInt32.toNat_inj.mp
  rw [rd32, le32, leNat_leBytes, UInt32.toNat_ofNat']
  omega

@[simp] theorem rd64_le64 (x : UInt64) : rd64 (le64 x) = x := by
  have hx : x.toNat < 18446744073709551616 := x.toNat_lt
  apply UInt64.toNat_inj.mp
  rw [rd64, le64, leNat_leBytes, UInt64.toNat_ofNat']
  omega

/-- A field of four bytes is zero if they all are. -/
theorem rd32_eq_zero_iff {bs : List UInt8} (h : bs.length = 4) :
    rd32 bs = 0 ↔ ∀ b ∈ bs, b = 0 := by
  have hlt := leNat_lt bs
  rw [h] at hlt
  rw [← leNat_eq_zero_iff, ← UInt32.toNat_inj, rd32, UInt32.toNat_ofNat']
  change _ = 0 ↔ _
  omega

/-! ## Fields of a packed struct -/

def rd32At (bs : List UInt8) (off : ℕ) : UInt32 := rd32 ((bs.drop off).take 4)
def rd64At (bs : List UInt8) (off : ℕ) : UInt64 := rd64 ((bs.drop off).take 8)

theorem rd32At_append (pre : List UInt8) {off : ℕ} (h : pre.length = off) (x : UInt32)
    (rest : List UInt8) : rd32At (pre ++ (le32 x ++ rest)) off = x := by
  rw [rd32At, List.drop_left' h, List.take_left' (length_le32 x), rd32_le32]

theorem rd64At_append (pre : List UInt8) {off : ℕ} (h : pre.length = off) (x : UInt64)
    (rest : List UInt8) : rd64At (pre ++ (le64 x ++ rest)) off = x := by
  rw [rd64At, List.drop_left' h, List.take_left' (length_le64 x), rd64_le64]

@[simp] theorem rd32At_zero (x : UInt32) (rest : List UInt8) : rd32At (le32 x ++ rest) 0 = x :=
  rd32At_append [] rfl x rest

@[simp] theorem rd64At_zero (x : UInt64) (rest : List UInt8) : rd64At (le64 x ++ rest) 0 = x :=
  rd64At_append [] rfl x rest

/-- A variable of four bytes that held `old`, after `got` was stored over it. -/
def rd32Over (got : List UInt8) (old : UInt32) : UInt32 := rd32 (got ++ (le32 old).drop got.length)

/-- Of a variable that was stored over whole nothing old is left. -/
theorem rd32Over_of_length {got : List UInt8} (h : got.length = 4) (old : UInt32) :
    rd32Over got old = rd32 got := by
  have hrest : (le32 old).drop got.length = [] :=
    List.drop_eq_nil_of_le (by rw [length_le32, h])
  rw [rd32Over, hrest, List.append_nil]

/-! ## Arrays of records -/

section Records

variable {α : Type} {enc : α → List UInt8} {w : ℕ}

theorem length_records (h : ∀ x, (enc x).length = w) (xs : List α) :
    (xs.flatMap enc).length = w * xs.length := by
  induction xs with
  | nil => rfl
  | cons x xs ih =>
      rw [List.flatMap_cons, List.length_append, h, ih, List.length_cons]
      ring

/-- Where the records from the `i`-th on begin. -/
theorem drop_records (h : ∀ x, (enc x).length = w) (xs : List α) (i : ℕ) :
    (xs.flatMap enc).drop (w * i) = (xs.drop i).flatMap enc := by
  induction xs generalizing i with
  | nil => simp
  | cons x xs ih =>
      cases i with
      | zero => rfl
      | succ i =>
          have hw : w * (i + 1) = (enc x).length + w * i := by
            rw [h]
            ring
          rw [List.flatMap_cons, hw, ← List.drop_drop, List.drop_left, ih, List.drop_succ_cons]

end Records

/-- A record of two 16-bit fields and a 32-bit one. -/
theorem rd_record (x y : UInt16) (z : UInt32) :
    rd16 ((le16 x ++ le16 y ++ le32 z).take 2) = x ∧
      rd16 (((le16 x ++ le16 y ++ le32 z).drop 2).take 2) = y ∧
      rd32 (((le16 x ++ le16 y ++ le32 z).drop 4).take 4) = z := by
  refine ⟨?_, ?_, ?_⟩
  · rw [List.append_assoc, List.take_left' (length_le16 _), rd16_le16]
  · rw [List.append_assoc, List.drop_left' (length_le16 _), List.take_left' (length_le16 _),
      rd16_le16]
  · rw [List.drop_left' (by simp), List.take_of_length_le (by simp), rd32_le32]

end Dicon.Framework
