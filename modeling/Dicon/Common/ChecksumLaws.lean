import Dicon.Framework.RotateXor
import Dicon.Common.Checksum

/-!
# What the checksum sees

One byte of `dic_checksum` is a step of the rotate-and-add fold on 64-bit words
(`toBitVec_checksumByte`), and its laws are those of the fold: a closed form, a
law for files one behind the other, and the changes that never go unnoticed.
-/

namespace Dicon

open Framework

/-- `x` rotated left by `k` bits. -/
def rotl64 (x : UInt64) (k : ℕ) : UInt64 := ⟨x.toBitVec.rotateLeft k⟩

/-- The exclusive or of all the words. -/
def xorSum (words : List UInt64) : UInt64 := words.foldr (· ^^^ ·) 0

/-- The byte at `i` of a file of `n` bytes, as a word, rotated once for each byte
behind it. -/
def checksumTerm (n i : ℕ) (b : UInt8) : UInt64 := rotl64 b.toUInt64 ((n - 1 - i) % 64)

/-- The words that the bytes of a file are. -/
def byteWords (contents : List UInt8) : List (BitVec 64) :=
  contents.map fun b => b.toUInt64.toBitVec

@[simp] theorem length_byteWords (contents : List UInt8) :
    (byteWords contents).length = contents.length :=
  List.length_map _

/-- Every split of a file is some `fread`'s. -/
theorem exists_fread {blocks : List (List UInt8)}
    (h : ∀ block ∈ blocks, block ≠ [] ∧ block.length ≤ checksumBufSize) :
    ∃ fread : Fread, fread.blocks blocks.flatten = blocks := by
  refine ⟨⟨fun contents => if contents = blocks.flatten then blocks
    else Fread.bytewise.blocks contents, ?_, ?_⟩, if_pos rfl⟩
  · intro contents
    split
    · next heq => exact heq.symm
    · exact Fread.bytewise.flatten_blocks contents
  · intro contents
    split
    · exact h
    · exact Fread.bytewise.size_blocks contents

/-! ## The closed form -/

/-- The two shifts are a rotation. -/
theorem toBitVec_checksumByte (sum : UInt64) (b : UInt8) :
    (checksumByte sum b).toBitVec = RotateXor.step sum.toBitVec b.toUInt64.toBitVec := by
  rw [checksumByte, RotateXor.step, BitVec.rotateLeft_def]
  rfl

theorem toBitVec_foldl (sum : UInt64) (contents : List UInt8) :
    (contents.foldl checksumByte sum).toBitVec =
      RotateXor.fold sum.toBitVec (byteWords contents) := by
  induction contents generalizing sum with
  | nil => rfl
  | cons b contents ih =>
      rw [List.foldl_cons, ih, toBitVec_checksumByte]
      rfl

theorem toBitVec_dicChecksum (fread : Fread) (contents : List UInt8) :
    (dicChecksum fread (some contents)).toBitVec = RotateXor.fold 0#64 (byteWords contents) := by
  rw [dicChecksum_some]
  exact toBitVec_foldl 0 contents

theorem toBitVec_xorSum (words : List UInt64) :
    (xorSum words).toBitVec = RotateXor.xorAll (words.map UInt64.toBitVec) := by
  induction words with
  | nil => rfl
  | cons v words ih =>
      rw [xorSum, List.foldr_cons, UInt64.toBitVec_xor]
      exact congrArg (v.toBitVec ^^^ ·) ih

/-- The terms of a file are its words, rotated. -/
theorem map_toBitVec_terms (n : ℕ) (contents : List UInt8) :
    (contents.mapIdx (checksumTerm n)).map UInt64.toBitVec =
      (byteWords contents).mapIdx fun i v => v.rotateLeft ((n - 1 - i) % 64) := by
  apply List.ext_getElem
  · rw [List.length_map, List.length_mapIdx, List.length_mapIdx, length_byteWords]
  · intro i _ _
    rw [List.getElem_map, List.getElem_mapIdx, List.getElem_mapIdx]
    simp only [byteWords, List.getElem_map]
    rfl

/-- What `dic_checksum` returns depends on the bytes of the file alone: each of
them counts once, rotated by its distance from the end. -/
theorem checksum_closed_form :
    (∀ (fread : Fread) (contents : List UInt8),
      dicChecksum fread (some contents) =
        xorSum (contents.mapIdx (checksumTerm contents.length))) ∧
    ∀ (fread freadX freadY : Fread) (x y : List UInt8),
      dicChecksum fread (some (x ++ y)) =
        rotl64 (dicChecksum freadX (some x)) (y.length % 64) ^^^ dicChecksum freadY (some y) := by
  constructor
  · intro fread contents
    apply UInt64.toBitVec_inj.mp
    rw [toBitVec_dicChecksum, toBitVec_xorSum, map_toBitVec_terms, RotateXor.fold_eq_xorAll,
      length_byteWords]
  · intro fread freadX freadY x y
    have happend : byteWords (x ++ y) = byteWords x ++ byteWords y := List.map_append
    apply UInt64.toBitVec_inj.mp
    rw [UInt64.toBitVec_xor, toBitVec_dicChecksum, toBitVec_dicChecksum, happend,
      RotateXor.fold_append, length_byteWords, rotl64, toBitVec_dicChecksum,
      BitVec.rotateLeft_mod_eq_rotateLeft]

/-! ## Changes that are seen -/

/-- The files differ at position `i`. -/
def DifferAt (x y : List UInt8) (i : ℕ) : Prop := x[i]? ≠ y[i]?

/-- How far apart two positions are on a circle of 64. -/
def cyclicDistance (i j : ℕ) : ℕ :=
  min (((i : ℤ) - j) % 64).toNat (((j : ℤ) - i) % 64).toNat

/-- The positions where the files differ are pairwise at a distance of 8 at least. -/
def SpreadOut (x y : List UInt8) : Prop :=
  ∀ i j, i ≠ j → DifferAt x y i → DifferAt x y j → 8 ≤ cyclicDistance i j

instance (x y : List UInt8) (i : ℕ) : Decidable (DifferAt x y i) :=
  inferInstanceAs (Decidable (x[i]? ≠ y[i]?))

theorem DifferAt.lt {x y : List UInt8} {i : ℕ} (h : DifferAt x y i) :
    i < max x.length y.length := by
  by_contra hle
  apply h
  rw [List.getElem?_eq_none (by omega), List.getElem?_eq_none (by omega)]

theorem spreadOut_iff {x y : List UInt8} :
    SpreadOut x y ↔ ∀ i < max x.length y.length, ∀ j < max x.length y.length,
      i ≠ j → DifferAt x y i → DifferAt x y j → 8 ≤ cyclicDistance i j := by
  constructor
  · intro h i _ j _ hij hi hj
    exact h i j hij hi hj
  · intro h i j hij hi hj
    exact h i hi.lt j hj.lt hij hi hj

instance (x y : List UInt8) : Decidable (SpreadOut x y) :=
  decidable_of_iff _ spreadOut_iff.symm

theorem apart_of_cyclicDistance {i j : ℕ} (h : 8 ≤ cyclicDistance i j) :
    RotateXor.Apart 64 8 i j := by
  intro p hp q hq hmod
  unfold Nat.ModEq at hmod
  unfold cyclicDistance at h
  omega

/-- A byte does not reach beyond its eight bits. -/
theorem byteWords_narrow (contents : List UInt8) :
    ∀ v ∈ byteWords contents, RotateXor.Narrow 8 v := by
  intro v hv
  obtain ⟨b, _, rfl⟩ := List.mem_map.mp hv
  intro p hp
  rw [UInt8.toBitVec_toUInt64, BitVec.getLsbD_setWidth, BitVec.getLsbD_of_ge _ _ hp, Bool.and_false]

theorem byte_word_injective {b b' : UInt8} (h : b.toUInt64.toBitVec = b'.toUInt64.toBitVec) :
    b = b' :=
  UInt8.toUInt64_inj.mp (UInt64.toBitVec_inj.mp h)

theorem byteWords_injective : Function.Injective byteWords :=
  List.map_injective_iff.mpr fun _ _ h => byte_word_injective h

/-- Bytes differ where their words do. -/
theorem differAt_of_byteWords {x y : List UInt8} {i : ℕ}
    (h : (byteWords x)[i]? ≠ (byteWords y)[i]?) : DifferAt x y i := by
  intro hsame
  apply h
  rw [byteWords, byteWords, List.getElem?_map, List.getElem?_map, hsame]

theorem dicChecksum_ne {x y : List UInt8} (hlen : x.length = y.length) (hne : x ≠ y)
    (hspread : SpreadOut x y) (fread fread' : Fread) :
    dicChecksum fread (some x) ≠ dicChecksum fread' (some y) := by
  intro heq
  have hfold := congrArg UInt64.toBitVec heq
  rw [toBitVec_dicChecksum, toBitVec_dicChecksum] at hfold
  refine RotateXor.fold_ne ?_ (byteWords_narrow x) (byteWords_narrow y) ?_ ?_ hfold
  · rw [length_byteWords, length_byteWords, hlen]
  · exact fun hwords => hne (byteWords_injective hwords)
  · intro i j hij hi hj
    exact apart_of_cyclicDistance
      (hspread i j hij (differAt_of_byteWords hi) (differAt_of_byteWords hj))

/-- Files that differ in one place only. -/
theorem spreadOut_single (before after : List UInt8) (b b' : UInt8) :
    SpreadOut (before ++ b :: after) (before ++ b' :: after) := by
  have hplace : ∀ i, DifferAt (before ++ b :: after) (before ++ b' :: after) i →
      i = before.length := by
    intro i hi
    by_contra hne
    apply hi
    rcases Nat.lt_or_gt_of_ne hne with hlt | hgt
    · rw [List.getElem?_append_left hlt, List.getElem?_append_left hlt]
    · obtain ⟨k, hk⟩ : ∃ k, i - before.length = k + 1 := ⟨i - before.length - 1, by omega⟩
      rw [List.getElem?_append_right (Nat.le_of_lt hgt), hk, List.getElem?_cons_succ,
        List.getElem?_append_right (Nat.le_of_lt hgt), hk, List.getElem?_cons_succ]
  intro i j hij hi hj
  exact absurd ((hplace i hi).trans (hplace j hj).symm) hij

/-- Changes at places that are apart on the circle of 64 show in the checksum, and
with them every change of a single byte. -/
theorem spread_changes_detected (fread fread' : Fread) :
    (∀ x y : List UInt8, x.length = y.length → x ≠ y → SpreadOut x y →
      dicChecksum fread (some x) ≠ dicChecksum fread' (some y)) ∧
    ∀ (before after : List UInt8) (b b' : UInt8), b ≠ b' →
      dicChecksum fread (some (before ++ b :: after)) ≠
        dicChecksum fread' (some (before ++ b' :: after)) := by
  constructor
  · intro x y hlen hne hspread
    exact dicChecksum_ne hlen hne hspread fread fread'
  · intro before after b b' hb
    apply dicChecksum_ne _ _ (spreadOut_single before after b b') fread fread'
    · rw [List.length_append, List.length_append, List.length_cons, List.length_cons]
    · intro heq
      exact hb (List.cons.inj (List.append_cancel_left heq)).1

/-- Two changed bytes, eight places apart. -/
theorem spread_changes_detected_run :
    dicChecksum .bytewise (some [255, 1, 2, 3, 4, 5, 6, 7, 254]) ≠
      dicChecksum .bytewise (some [0, 1, 2, 3, 4, 5, 6, 7, 1]) :=
  (spread_changes_detected .bytewise .bytewise).1 _ _ rfl (by decide) (by decide)

/-- Changes next to each other may go unnoticed. -/
example : dicChecksum .bytewise (some [1, 0]) = dicChecksum .bytewise (some [0, 2]) := by decide

end Dicon
