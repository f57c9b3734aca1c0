import Mathlib.Data.Nat.ModEq
import Mathlib.Data.List.Basic

/-!
# Rotate and add

A word is rotated by one bit before each word that is added to it. What a list of
words comes to is the sum of its words, each rotated by the number of words
behind it (`fold_eq_xorAll`), and it is linear in the words (`fold_xor_fold`).

The bits of a word are taken modulo its width, so that a rotation shifts them
(`bit_rotateLeft`). Words of few bits that are apart from each other on the circle
do not meet, and then no sum cancels (`fold_ne`).
-/

namespace Dicon.Framework.RotateXor

variable {w : ℕ}

/-! ## Bits on a circle -/

/-- The bit at `p`, counted round the word. -/
def bit (x : BitVec w) (p : ℕ) : Bool := x.getLsbD (p % w)

theorem bit_congr (x : BitVec w) {p q : ℕ} (h : p ≡ q [MOD w]) : bit x p = bit x q := by
  rw [bit, bit, show p % w = q % w from h]

@[simp] theorem bit_zero (p : ℕ) : bit 0#w p = false := BitVec.getLsbD_zero

@[simp] theorem bit_xor (x y : BitVec w) (p : ℕ) : bit (x ^^^ y) p = (bit x p ^^ bit y p) :=
  BitVec.getLsbD_xor

/-- Every place of the circle is `k` places on from some other. -/
theorem exists_place (hw : 0 < w) (k p : ℕ) : ∃ q, q + k ≡ p [MOD w] := by
  refine ⟨p + (w - 1) * k, ?_⟩
  have hround : p + (w - 1) * k + k = p + w * k := by
    obtain ⟨v, rfl⟩ : ∃ v, w = v + 1 := ⟨w - 1, by omega⟩
    rw [Nat.add_sub_cancel, Nat.succ_mul, Nat.add_assoc]
  rw [hround]
  exact Nat.add_mul_mod_self_left p w k

theorem bit_rotateLeft (x : BitVec w) (k p : ℕ) : bit (x.rotateLeft k) (p + k) = bit x p := by
  rcases Nat.eq_zero_or_pos w with rfl | hw
  · rw [bit, bit, BitVec.getLsbD_of_ge _ _ (Nat.zero_le _),
      BitVec.getLsbD_of_ge _ _ (Nat.zero_le _)]
  have hp : p % w < w := Nat.mod_lt _ hw
  have hk : k % w < w := Nat.mod_lt _ hw
  have hsum : (p + k) % w = (p % w + k % w) % w := Nat.add_mod p k w
  rw [bit, bit, BitVec.getLsbD_rotateLeft, hsum]
  -- either the bit stays in the word, or it comes in again at the bottom
  by_cases hin : p % w + k % w < w
  · rw [Nat.mod_eq_of_lt hin, decide_eq_false (by omega : ¬ p % w + k % w < k % w),
      Bool.cond_false, Nat.add_sub_cancel, decide_eq_true hin, Bool.true_and]
  · have hwrap : (p % w + k % w) % w = p % w + k % w - w := by
      rw [Nat.mod_eq_sub_mod (by omega), Nat.mod_eq_of_lt (by omega)]
    rw [hwrap, decide_eq_true (by omega : p % w + k % w - w < k % w), Bool.cond_true]
    congr 1
    omega

/-- Words are equal if their bits are, wherever one starts to count. -/
theorem eq_of_bit {x y : BitVec w} (k : ℕ) (h : ∀ p, bit x (p + k) = bit y (p + k)) : x = y := by
  apply BitVec.eq_of_getLsbD_eq
  intro p hp
  obtain ⟨q, hq⟩ := exists_place (Nat.zero_lt_of_lt hp) k p
  have hbit := h q
  rw [bit_congr x hq, bit_congr y hq] at hbit
  rwa [bit, bit, Nat.mod_eq_of_lt hp] at hbit

theorem rotateLeft_zero (x : BitVec w) : x.rotateLeft 0 = x :=
  eq_of_bit 0 (bit_rotateLeft x 0)

theorem rotateLeft_add (x : BitVec w) (j k : ℕ) :
    (x.rotateLeft j).rotateLeft k = x.rotateLeft (j + k) := by
  apply eq_of_bit (j + k)
  intro p
  rw [bit_rotateLeft, ← Nat.add_assoc, bit_rotateLeft, bit_rotateLeft]

theorem rotateLeft_xor (x y : BitVec w) (k : ℕ) :
    (x ^^^ y).rotateLeft k = x.rotateLeft k ^^^ y.rotateLeft k := by
  apply eq_of_bit k
  intro p
  rw [bit_xor, bit_rotateLeft, bit_rotateLeft, bit_rotateLeft, bit_xor]

theorem zero_rotateLeft (k : ℕ) : (0#w).rotateLeft k = 0#w := by
  apply eq_of_bit k
  intro p
  rw [bit_rotateLeft, bit_zero, bit_zero]

/-! ## The fold -/

/-- One word more. -/
def step (sum v : BitVec w) : BitVec w := sum.rotateLeft 1 ^^^ v

/-- The words one after the other. -/
def fold (sum : BitVec w) (vs : List (BitVec w)) : BitVec w := vs.foldl step sum

@[simp] theorem fold_nil (sum : BitVec w) : fold sum [] = sum := rfl

@[simp] theorem fold_cons (sum v : BitVec w) (vs : List (BitVec w)) :
    fold sum (v :: vs) = fold (step sum v) vs := rfl

/-- What was there before is rotated once for each word. -/
theorem fold_xor (s t : BitVec w) (vs : List (BitVec w)) :
    fold (s ^^^ t) vs = s.rotateLeft vs.length ^^^ fold t vs := by
  induction vs generalizing s t with
  | nil => rw [fold_nil, fold_nil, List.length_nil, rotateLeft_zero]
  | cons v vs ih =>
      have hstep : step (s ^^^ t) v = s.rotateLeft 1 ^^^ step t v := by
        rw [step, step, rotateLeft_xor, BitVec.xor_assoc]
      rw [fold_cons, hstep, ih, rotateLeft_add, fold_cons, List.length_cons, Nat.add_comm]

theorem fold_eq (s : BitVec w) (vs : List (BitVec w)) :
    fold s vs = s.rotateLeft vs.length ^^^ fold 0#w vs := by
  rw [← fold_xor, BitVec.xor_zero]

theorem fold_append (us vs : List (BitVec w)) :
    fold 0#w (us ++ vs) = (fold 0#w us).rotateLeft vs.length ^^^ fold 0#w vs := by
  rw [← fold_eq, fold, fold, fold, List.foldl_append]

/-- The first word is rotated once for each word behind it. -/
theorem fold_zero_cons (v : BitVec w) (vs : List (BitVec w)) :
    fold 0#w (v :: vs) = v.rotateLeft vs.length ^^^ fold 0#w vs := by
  rw [fold_cons, step, zero_rotateLeft, BitVec.zero_xor, fold_eq]

/-- One word in front changes nothing about what is behind the others. -/
theorem behind_cons (v : BitVec w) (vs : List (BitVec w)) (i : ℕ) :
    (v :: vs).length - 1 - (i + 1) = vs.length - 1 - i := by
  rw [List.length_cons]
  omega

/-- The sum of the words. -/
def xorAll (vs : List (BitVec w)) : BitVec w := vs.foldr (· ^^^ ·) 0#w

/-- The closed form. -/
theorem fold_eq_xorAll (vs : List (BitVec w)) :
    fold 0#w vs = xorAll (vs.mapIdx fun i v => v.rotateLeft ((vs.length - 1 - i) % w)) := by
  induction vs with
  | nil => rfl
  | cons v vs ih =>
      have hhead : (v :: vs).length - 1 - 0 = vs.length := by simp
      rw [fold_zero_cons, ih, List.mapIdx_cons, xorAll, xorAll, List.foldr_cons, hhead,
        BitVec.rotateLeft_mod_eq_rotateLeft]
      simp only [behind_cons]

/-- Two lists of one length differ in their folds by the fold of their differences. -/
theorem fold_xor_fold {us vs : List (BitVec w)} (hlen : us.length = vs.length) :
    fold 0#w us ^^^ fold 0#w vs = fold 0#w (List.zipWith (· ^^^ ·) us vs) := by
  induction us generalizing vs with
  | nil =>
      obtain rfl : vs = [] := List.length_eq_zero_iff.mp hlen.symm
      exact BitVec.xor_self
  | cons u us ih =>
      cases vs with
      | nil => cases hlen
      | cons v vs =>
          have hlen' : us.length = vs.length := Nat.succ.inj hlen
          rw [List.zipWith_cons_cons, fold_zero_cons, fold_zero_cons, fold_zero_cons, ← ih hlen',
            List.length_zipWith, ← hlen', Nat.min_self, rotateLeft_xor]
          ac_rfl

/-! ## Words that do not meet -/

theorem bit_fold_of_silent {vs : List (BitVec w)} {p : ℕ}
    (h : ∀ i (hi : i < vs.length), bit (vs[i].rotateLeft (vs.length - 1 - i)) p = false) :
    bit (fold 0#w vs) p = false := by
  induction vs with
  | nil => exact bit_zero p
  | cons v vs ih =>
      have hhead := h 0 (Nat.succ_pos _)
      have htail : bit (fold 0#w vs) p = false := by
        apply ih
        intro i hi
        have hi' := h (i + 1) (Nat.succ_lt_succ hi)
        rwa [List.getElem_cons_succ, behind_cons] at hi'
      rw [fold_zero_cons, bit_xor, htail, Bool.xor_false]
      exact hhead

/-- A bit that only one of the words reaches is that word's. -/
theorem bit_fold_of_unique {vs : List (BitVec w)} {p k : ℕ} (hk : k < vs.length)
    (h : ∀ i (hi : i < vs.length), i ≠ k →
      bit (vs[i].rotateLeft (vs.length - 1 - i)) p = false) :
    bit (fold 0#w vs) p = bit (vs[k].rotateLeft (vs.length - 1 - k)) p := by
  induction vs generalizing k with
  | nil => exact absurd hk (Nat.not_lt_zero _)
  | cons v vs ih =>
      rw [fold_zero_cons, bit_xor]
      cases k with
      | zero =>
          have hsilent : bit (fold 0#w vs) p = false := by
            apply bit_fold_of_silent
            intro i hi
            have hi' := h (i + 1) (Nat.succ_lt_succ hi) (Nat.succ_ne_zero i)
            rwa [List.getElem_cons_succ, behind_cons] at hi'
          rw [hsilent, Bool.xor_false]
          rfl
      | succ k =>
          have hhead : bit (v.rotateLeft vs.length) p = false :=
            h 0 (Nat.succ_pos _) (Nat.succ_ne_zero k).symm
          have hrest := ih (Nat.lt_of_succ_lt_succ hk) (fun i hi hne => by
            have hi' := h (i + 1) (Nat.succ_lt_succ hi) (fun e => hne (Nat.succ.inj e))
            rwa [List.getElem_cons_succ, behind_cons] at hi')
          rw [hhead, Bool.false_xor, hrest, List.getElem_cons_succ, behind_cons]

/-- No bit of the word stands at `m` or above. -/
def Narrow (m : ℕ) (x : BitVec w) : Prop := ∀ p, m ≤ p → x.getLsbD p = false

theorem Narrow.xor {m : ℕ} {x y : BitVec w} (hx : Narrow m x) (hy : Narrow m y) :
    Narrow m (x ^^^ y) := by
  intro p hp
  rw [BitVec.getLsbD_xor, hx p hp, hy p hp]
  rfl

/-- Windows of `m` places that start at `i` and `j` have no place in common. -/
def Apart (w m i j : ℕ) : Prop := ∀ p < m, ∀ q < m, ¬ p + i ≡ q + j [MOD w]

/-- Counted from the other end, they are as far apart. -/
theorem Apart.reflect {m i j n : ℕ} (h : Apart w m i j) (hi : i ≤ n) (hj : j ≤ n) :
    Apart w m (n - i) (n - j) := by
  intro p hp q hq hmod
  apply h q hq p hp
  have hsum : p + (n - i) + (i + j) ≡ q + (n - j) + (i + j) [MOD w] := hmod.add_right _
  rw [show p + (n - i) + (i + j) = p + j + n by omega,
    show q + (n - j) + (i + j) = q + i + n by omega] at hsum
  exact (hsum.add_right_cancel' n).symm

/-- A narrow word does not reach a bit of a word that is apart from it. -/
theorem bit_of_apart (hw : 0 < w) {m j k p : ℕ} {x : BitVec w} (hx : Narrow m x) (hp : p < m)
    (h : Apart w m j k) : bit (x.rotateLeft k) (p + j) = false := by
  obtain ⟨q, hq⟩ := exists_place hw k (p + j)
  rw [← bit_congr _ hq, bit_rotateLeft]
  apply hx
  by_contra hlt
  apply h p hp (q % w) (Nat.lt_of_not_le hlt)
  exact hq.symm.trans ((Nat.mod_modEq q w).symm.add_right k)

/-- A sum of narrow words does not cancel a word that is apart from all the others. -/
theorem fold_ne_zero {m k : ℕ} {ds : List (BitVec w)} (hnarrow : ∀ d ∈ ds, Narrow m d)
    (hk : k < ds.length) (hne : ds[k] ≠ 0#w)
    (hapart : ∀ i (hi : i < ds.length), i ≠ k → ds[i] = 0#w ∨ Apart w m k i) :
    fold 0#w ds ≠ 0#w := by
  obtain ⟨p, hset⟩ : ∃ p, ds[k].getLsbD p = true := by
    by_contra hall
    apply hne
    apply BitVec.eq_of_getLsbD_eq
    intro p _
    rw [BitVec.getLsbD_zero]
    exact Bool.eq_false_iff.mpr fun hset => hall ⟨p, hset⟩
  have hpw : p < w := BitVec.lt_of_getLsbD hset
  have hpm : p < m := by
    by_contra hlt
    rw [hnarrow _ (List.getElem_mem hk) p (Nat.le_of_not_lt hlt)] at hset
    cases hset
  -- the place where that bit ends up
  have hown : bit (ds[k].rotateLeft (ds.length - 1 - k)) (p + (ds.length - 1 - k)) = true := by
    rw [bit_rotateLeft, bit, Nat.mod_eq_of_lt hpw, hset]
  have hothers : ∀ i (hi : i < ds.length), i ≠ k →
      bit (ds[i].rotateLeft (ds.length - 1 - i)) (p + (ds.length - 1 - k)) = false := by
    intro i hi hik
    rcases hapart i hi hik with hzero | hfar
    · rw [hzero, zero_rotateLeft, bit_zero]
    · have hfar' := hfar.reflect (n := ds.length - 1) (by omega) (by omega)
      exact bit_of_apart (Nat.zero_lt_of_lt hpw) (hnarrow _ (List.getElem_mem hi)) hpm hfar'
  intro hzero
  have hbit := bit_fold_of_unique hk hothers
  rw [hown, hzero, bit_zero] at hbit
  cases hbit

/-- Lists of one length that are not equal differ in some place. -/
theorem exists_differ {us vs : List (BitVec w)} (hlen : us.length = vs.length) (hne : us ≠ vs) :
    ∃ k, ∃ (hk : k < us.length) (hk' : k < vs.length), us[k] ≠ vs[k] := by
  by_contra hall
  apply hne
  apply List.ext_getElem hlen
  intro i hi hi'
  by_contra hdiff
  exact hall ⟨i, hi, hi', hdiff⟩

theorem narrow_differences {m : ℕ} {us vs : List (BitVec w)} (hus : ∀ u ∈ us, Narrow m u)
    (hvs : ∀ v ∈ vs, Narrow m v) : ∀ d ∈ List.zipWith (· ^^^ ·) us vs, Narrow m d := by
  intro d hd
  obtain ⟨i, hi, rfl⟩ := List.getElem_of_mem hd
  rw [List.getElem_zipWith]
  exact (hus _ (List.getElem_mem _)).xor (hvs _ (List.getElem_mem _))

/-- Differences that are narrow and apart from each other are seen in the fold. -/
theorem fold_ne {m : ℕ} {us vs : List (BitVec w)} (hlen : us.length = vs.length)
    (hus : ∀ u ∈ us, Narrow m u) (hvs : ∀ v ∈ vs, Narrow m v) (hne : us ≠ vs)
    (hapart : ∀ i j, i ≠ j → us[i]? ≠ vs[i]? → us[j]? ≠ vs[j]? → Apart w m i j) :
    fold 0#w us ≠ fold 0#w vs := by
  obtain ⟨k, hk, hk', hdiff⟩ := exists_differ hlen hne
  have hlen' : (List.zipWith (· ^^^ ·) us vs).length = us.length := by
    rw [List.length_zipWith, ← hlen, Nat.min_self]
  intro heq
  have hzero : fold 0#w (List.zipWith (· ^^^ ·) us vs) = 0#w := by
    rw [← fold_xor_fold hlen, heq, BitVec.xor_self]
  refine fold_ne_zero (narrow_differences hus hvs) (k := k) (hlen'.symm ▸ hk) ?_ ?_ hzero
  · rw [List.getElem_zipWith]
    exact fun hxor => hdiff (BitVec.xor_eq_zero_iff.mp hxor)
  · intro i hi hik
    rw [List.getElem_zipWith]
    -- a place where the lists agree adds nothing, the others are apart
    by_cases hsame : us[i]? = vs[i]?
    · left
      rw [List.getElem?_eq_getElem (by omega), List.getElem?_eq_getElem (by omega)] at hsame
      rw [Option.some.inj hsame, BitVec.xor_self]
    · right
      apply hapart k i (Ne.symm hik) _ hsame
      rw [List.getElem?_eq_getElem hk, List.getElem?_eq_getElem hk']
      exact fun hsome => hdiff (Option.some.inj hsome)

end Dicon.Framework.RotateXor
