import Mathlib.Analysis.Real.Sqrt
import Mathlib.NumberTheory.PrimeCounting
import Dicon.Common.CInt
import Dicon.Framework.Cells

/-!
# The remote function of the prime demo (`demo/find-primes/main.c`)

`find_primes` runs in a thread of a node. It collects the primes of a range in an array
that it lets grow, and returns the array with the number of them in front. Nothing is
stored outside of the array, and what comes back are the primes of the range
(`findPrimes_ok`). A range that ends with the last `unsigned int` is never searched to
its end (`findPrimes_returns_iff`).

An allocation that fails is left out: the function would write through `NULL`.
-/

namespace Dicon.Demo

open Framework

/-! ## `is_prime` -/

/-- The loop of `is_prime`. The `double` that it compares `i` with is the square root of
an `int`, so `i * i <= n` is the same comparison (`le_sqrt_iff`). -/
def isPrimeLoop (n : ℕ) : ℕ → ℕ → Option Bool
  | 0, _ => none
  | fuel + 1, i =>
      if i * i ≤ n then
        if n % i = 0 then some false else isPrimeLoop n fuel (i + 2)
      else some true

/-- `is_prime`; it has a result in every case (`isPrime_eq`). -/
def isPrime (n : ℤ) : Option Bool :=
  if n < 2 then some false
  else if n = 2 then some true
  else if n % 2 = 0 then some false
  else isPrimeLoop n.toNat n.toNat 3

/-- Rounding of real numbers to `double`, as far as it matters here. -/
structure IsRounding (rnd : ℝ → ℝ) : Prop where
  mono : Monotone rnd
  exact : ∀ k : ℕ, k ≤ 2 ^ 53 → rnd k = k
  close : ∀ x, 0 ≤ x → rnd x ≤ x + x / 2 ^ 53

theorem le_sqrt_iff {rnd : ℝ → ℝ} (h : IsRounding rnd) {i n : ℕ} (hn : n ≤ intMax) :
    (i : ℝ) ≤ rnd (√(n : ℝ)) ↔ i * i ≤ n := by
  have hroot : 0 ≤ √(n : ℝ) := Real.sqrt_nonneg _
  have hsq : √(n : ℝ) * √(n : ℝ) = n := Real.mul_self_sqrt (Nat.cast_nonneg n)
  constructor
  · intro hle
    by_contra hlt
    have hnext : ((n + 1 : ℕ) : ℝ) ≤ (i * i : ℕ) := by
      exact_mod_cast Nat.lt_of_not_le hlt
    have hbelow : (i : ℝ) ≤ √(n : ℝ) * (1 + 1 / 2 ^ 53) := by
      calc (i : ℝ) ≤ rnd (√(n : ℝ)) := hle
        _ ≤ √(n : ℝ) + √(n : ℝ) / 2 ^ 53 := h.close _ hroot
        _ = √(n : ℝ) * (1 + 1 / 2 ^ 53) := by ring
    have hprod : (i : ℝ) * i ≤ n * (1 + 1 / 2 ^ 53) * (1 + 1 / 2 ^ 53) := by
      calc (i : ℝ) * i
          ≤ (√(n : ℝ) * (1 + 1 / 2 ^ 53)) * (√(n : ℝ) * (1 + 1 / 2 ^ 53)) := by gcongr
        _ = √(n : ℝ) * √(n : ℝ) * (1 + 1 / 2 ^ 53) * (1 + 1 / 2 ^ 53) := by ring
        _ = n * (1 + 1 / 2 ^ 53) * (1 + 1 / 2 ^ 53) := by rw [hsq]
    have hsmall : (n : ℝ) ≤ 2147483647 := by
      exact_mod_cast hn
    push_cast at hnext
    norm_num at hprod
    linarith
  · intro hle
    have hi : i ≤ 2 ^ 53 := by
      have : i ≤ i * i := Nat.le_mul_self i
      unfold intMax at hn
      omega
    rw [← h.exact i hi]
    apply h.mono
    apply Real.le_sqrt_of_sq_le
    rw [sq]
    exact_mod_cast hle

/-- A number without divisors below `i` is a prime if `i` is above its root. -/
theorem prime_of_no_divisor {n i : ℕ} (hn : 2 ≤ n)
    (hnone : ∀ d, 2 ≤ d → d < i → ¬ d ∣ n) (hi : n < i * i) : n.Prime := by
  refine Nat.prime_def_le_sqrt.mpr ⟨hn, fun d h2 hd => hnone d h2 ?_⟩
  have hsq : d * d ≤ n := Nat.le_sqrt.mp hd
  exact Nat.mul_self_lt_mul_self_iff.mp (by omega)

/-- The invariant of the loop: `i` is odd, and nothing below it divides `n`. -/
theorem isPrimeLoop_eq {n fuel i : ℕ} (hn : n % 2 = 1) (hi : i % 2 = 1) (h3 : 3 ≤ i)
    (hnone : ∀ d, 2 ≤ d → d < i → ¬ d ∣ n) (hle : i ≤ n) (hfuel : n < i + fuel) :
    isPrimeLoop n fuel i = some (decide n.Prime) := by
  induction fuel generalizing i with
  | zero => omega
  | succ fuel ih =>
      rw [isPrimeLoop]
      by_cases hroot : i * i ≤ n
      · have hbelow : i + 2 ≤ n := by nlinarith
        rw [if_pos hroot]
        by_cases hdvd : n % i = 0
        · have hcomposite : ¬ n.Prime := by
            intro hp
            rcases (Nat.dvd_prime hp).mp (Nat.dvd_of_mod_eq_zero hdvd) with h | h <;> omega
          rw [if_pos hdvd, decide_eq_false hcomposite]
        · rw [if_neg hdvd]
          refine ih (by omega) (by omega) (fun d h2 hd => ?_) hbelow (by omega)
          rcases Nat.lt_trichotomy d i with hlt | rfl | hgt
          · exact hnone d h2 hlt
          · exact fun h => hdvd (Nat.mod_eq_zero_of_dvd h)
          · -- the number that is skipped is even, and `n` is odd
            have heven : 2 ∣ d := by omega
            exact fun h => by have := Nat.dvd_trans heven h; omega
      · have hp : n.Prime := prime_of_no_divisor (by omega) hnone (by omega)
        rw [if_neg hroot, decide_eq_true hp]

theorem isPrime_eq (n : ℤ) : isPrime n = some (decide n.toNat.Prime) := by
  unfold isPrime
  by_cases hsmall : n < 2
  · have hnot : ¬ n.toNat.Prime := fun hp => by
      have := hp.two_le
      omega
    rw [if_pos hsmall, decide_eq_false hnot]
  rw [if_neg hsmall]
  by_cases htwo : n = 2
  · subst htwo
    rw [if_pos rfl, decide_eq_true (by exact Nat.prime_two)]
  rw [if_neg htwo]
  by_cases heven : n % 2 = 0
  · have hnot : ¬ n.toNat.Prime := fun hp => by
      have := hp.eq_two_or_odd
      omega
    rw [if_pos heven, decide_eq_false hnot]
  rw [if_neg heven]
  refine isPrimeLoop_eq (by omega) rfl (Nat.le_refl 3) (fun d h2 hd => ?_) (by omega) (by omega)
  obtain rfl : d = 2 := by omega
  omega

/-! ## The array -/

/-- The variables of `find_primes`: `allocated` counts elements, `count` is the first of
them and `found_primes` points at the second. -/
structure FoundPrimes where
  allocatedLen : ℤ
  allocated : Cells UInt64

/-- `realloc` to `allocated_len + 1` elements. -/
def FoundPrimes.realloc (f : FoundPrimes) (allocatedLen : ℤ) : Option FoundPrimes := do
  let elements ← addInt allocatedLen 1
  some ⟨allocatedLen, f.allocated.resized elements.toNat⟩

/-- The `if(*count >= allocated_len)`. -/
def FoundPrimes.grow (f : FoundPrimes) (count : UInt64) : Option FoundPrimes :=
  if toSizeT f.allocatedLen ≤ count.toNat then (addInt f.allocatedLen 16).bind f.realloc
  else some f

/-- The body of the `if (is_prime(i))`. -/
def FoundPrimes.found (f : FoundPrimes) (i : UInt32) : Option FoundPrimes := do
  let count := (← f.allocated.load 0) + 1
  let allocated ← f.allocated.store 0 count
  let f ← { f with allocated := allocated }.grow count
  let allocated ← f.allocated.store (1 + (count - 1).toNat) i.toUInt64
  some { f with allocated := allocated }

/-- Why there is no result. -/
inductive Stop
  | undefined
  | running
deriving DecidableEq

/-- The body of the `for`. -/
def FoundPrimes.look (f : FoundPrimes) (i : UInt32) : Except Stop FoundPrimes :=
  (isPrime (toCInt i.toNat)).elim (.error .running) fun prime =>
    if prime then (f.found i).elim (.error .undefined) .ok else .ok f

/-- The loop of `find_primes`, for as many rounds as `fuel` says. -/
def findPrimesLoop (last : UInt32) : ℕ → UInt32 → FoundPrimes → Except Stop FoundPrimes
  | 0, _, _ => .error .running
  | fuel + 1, i, f =>
      if i ≤ last then (f.look i).bind (findPrimesLoop last fuel (i + 1)) else .ok f

/-- `struct find_primes_args` -/
structure FindPrimesArgs where
  rangeStart : UInt64
  rangeEnd : UInt64

/-- The array with room for 16 primes, and none in it. -/
def FoundPrimes.empty : FoundPrimes := ⟨16, some 0 :: List.replicate 16 none⟩

/-- The last `realloc`, to the numbers that there are. -/
def FoundPrimes.finish (f : FoundPrimes) : Option FoundPrimes := do
  let count ← f.allocated.load 0
  f.realloc (toCInt count.toNat)

/-- `find_primes`, with the array that it returns. -/
def findPrimes (fuel : ℕ) (args : FindPrimesArgs) : Except Stop (Cells UInt64) :=
  (findPrimesLoop args.rangeEnd.toUInt32 fuel args.rangeStart.toUInt32 .empty).bind fun f =>
    f.finish.elim (.error .undefined) fun f => .ok f.allocated

/-! ## What it finds -/

/-- Those of the `n` numbers from `a` on that are a prime and an `int`. -/
def intPrimes (a n : ℕ) : List ℕ := (List.range' a n).filter fun p => p ≤ intMax ∧ p.Prime

/-- The array that `find_primes` returns when it has found `ps`. -/
def counted (ps : List ℕ) : List UInt64 := .ofNat ps.length :: ps.map .ofNat

theorem intPrimes_succ (a n : ℕ) :
    intPrimes a (n + 1) =
      intPrimes a n ++ if a + n ≤ intMax ∧ (a + n).Prime then [a + n] else [] := by
  rw [intPrimes, intPrimes, List.range'_1_concat, List.filter_append]
  congr 1
  split <;> simp_all

/-- Of two numbers above 2 that follow each other one is even. -/
theorem length_intPrimes_le (a n : ℕ) : (intPrimes a n).length + 20 ≤ intMax := by
  have hcount : (intPrimes a n).length ≤ Nat.primeCounting' (intMax + 1) := by
    have hnodup : (intPrimes a n).Nodup := List.Nodup.filter _ List.nodup_range'
    rw [Nat.primeCounting', Nat.count_eq_card_filter_range, ← List.toFinset_card_of_nodup hnodup]
    refine Finset.card_le_card fun p hp => ?_
    simp only [intPrimes, List.mem_toFinset, List.mem_filter, decide_eq_true_eq] at hp
    simp only [Finset.mem_filter, Finset.mem_range]
    exact ⟨by omega, hp.2.2⟩
  have hhalf : Nat.primeCounting' (3 + intMax) ≤
      Nat.primeCounting' 3 + Nat.totient 2 * (intMax / 2 + 1) :=
    Nat.primeCounting'_add_le two_ne_zero (by decide) intMax
  have hmono : Nat.primeCounting' (intMax + 1) ≤ Nat.primeCounting' (3 + intMax) :=
    Nat.monotone_primeCounting' (by omega)
  rw [Nat.totient_two, show Nat.primeCounting' 3 = 1 by decide] at hhalf
  unfold intMax at *
  omega

/-- The primes found so far are in the array, and there is room for one more. -/
structure FoundPrimes.Holds (f : FoundPrimes) (ps : List ℕ) : Prop where
  length : (f.allocated.length : ℤ) = f.allocatedLen + 1
  room : (ps.length : ℤ) < f.allocatedLen
  small : f.allocatedLen ≤ ps.length + 16
  contents : f.allocated.take (ps.length + 1) = Cells.stored (counted ps)

theorem holds_empty : FoundPrimes.empty.Holds [] := ⟨rfl, by decide, by decide, rfl⟩

section Array

variable {f : FoundPrimes} {ps : List ℕ}

theorem FoundPrimes.Holds.load (h : f.Holds ps) :
    f.allocated.load 0 = some (.ofNat ps.length) :=
  Cells.load_of_take h.contents rfl

/-- A larger block has the same numbers in it. -/
theorem FoundPrimes.realloc_eq {len : ℤ} {k : ℕ} (h0 : k ≤ len + 1) (hint : len + 1 ≤ intMax)
    (hk : k ≤ f.allocated.length) :
    ∃ g, f.realloc len = some g ∧ g.allocatedLen = len ∧
      (g.allocated.length : ℤ) = len + 1 ∧ g.allocated.take k = f.allocated.take k := by
  refine ⟨⟨len, f.allocated.resized (len + 1).toNat⟩, ?_, rfl, ?_, ?_⟩
  · rw [realloc, addInt_eq (by omega) hint]
    rfl
  · rw [Cells.length_resized]
    omega
  · exact Cells.take_resized (by omega) hk

theorem toNat_ofNat_of_le {n : ℕ} (h : n ≤ intMax) : (UInt64.ofNat n).toNat = n := by
  unfold intMax at h
  rw [UInt64.toNat_ofNat']
  omega

/-- Afterwards there is a cell for the `n`-th number, and what was in the block is there. -/
theorem FoundPrimes.grow_eq {n : ℕ} {count : UInt64} (hcount : count.toNat = n)
    (hlength : (f.allocated.length : ℤ) = f.allocatedLen + 1) (hroom : n ≤ f.allocatedLen)
    (hfew : f.allocatedLen ≤ n + 15) (hsmall : n + 17 ≤ intMax) :
    ∃ g, f.grow count = some g ∧ (g.allocated.length : ℤ) = g.allocatedLen + 1 ∧
      n < g.allocatedLen ∧ g.allocatedLen ≤ n + 16 ∧ g.allocated.take n = f.allocated.take n := by
  have hsize : toSizeT f.allocatedLen = f.allocatedLen.toNat := by
    unfold toSizeT intMax at *
    omega
  unfold grow
  by_cases hfull : toSizeT f.allocatedLen ≤ count.toNat
  · rw [if_pos hfull, addInt_eq (by omega) (by omega), Option.bind_some]
    obtain ⟨g, hg, hlen, helems, htake⟩ : ∃ g, f.realloc (f.allocatedLen + 16) = some g ∧
        g.allocatedLen = f.allocatedLen + 16 ∧ _ ∧ g.allocated.take n = f.allocated.take n :=
      realloc_eq (by omega) (by omega) (by omega)
    exact ⟨g, hg, by rw [hlen, helems], by omega, by omega, htake⟩
  · rw [if_neg hfull]
    exact ⟨f, rfl, hlength, by omega, by omega, rfl⟩

/-- One more prime. -/
theorem FoundPrimes.Holds.found (h : f.Holds ps) {i : UInt32}
    (hsmall : (ps ++ [i.toNat]).length + 17 ≤ intMax) :
    ∃ g, f.found i = some g ∧ g.Holds (ps ++ [i.toNat]) := by
  have hlength := h.length
  have hroom := h.room
  have hfew := h.small
  have hps : (ps ++ [i.toNat]).length = ps.length + 1 := List.length_append
  rw [hps] at hsmall
  let count : UInt64 := .ofNat (ps.length + 1)
  have hcount : count.toNat = ps.length + 1 := toNat_ofNat_of_le (by omega)
  have hnext : UInt64.ofNat ps.length + 1 = count := (UInt64.ofNat_add ps.length 1).symm
  -- the count is stored
  let counting : FoundPrimes := { f with allocated := f.allocated.set 0 (some count) }
  have hstored : f.allocated.store 0 count = some counting.allocated :=
    Cells.store_eq _ (by omega)
  have hset : counting.allocated.take (ps.length + 1) =
      Cells.stored (count :: ps.map UInt64.ofNat) := by
    rw [List.take_set, h.contents]
    rfl
  -- then there is room, and the number is stored
  obtain ⟨g, hg, hlen, hmore, hless, htake⟩ : ∃ g, counting.grow count = some g ∧ _ :=
    grow_eq hcount (by rw [List.length_set]; exact hlength) (by push_cast; exact hroom)
      (show f.allocatedLen ≤ _ by push_cast; omega) hsmall
  have hknown : (count :: ps.map UInt64.ofNat).length = ps.length + 1 := by
    simp
  have hplace : 1 + (count - 1).toNat = ps.length + 1 := by
    rw [← hnext, UInt64.add_sub_cancel, toNat_ofNat_of_le (by omega), Nat.add_comm]
  have hsnoc := Cells.take_set_next (by rw [hknown, htake, hset]) (by rw [hknown]; omega)
    i.toUInt64
  rw [hknown] at hsnoc
  refine ⟨{ g with allocated := g.allocated.set (ps.length + 1) (some i.toUInt64) }, ?_, ?_, ?_,
    ?_, ?_⟩
  · simp only [FoundPrimes.found, h.load, Option.bind_eq_bind, Option.bind_some, hnext, hstored,
      hplace]
    rw [hg, Option.bind_some, Cells.store_eq _ (by omega), Option.bind_some]
  · rw [List.length_set]
    exact hlen
  · rw [hps]
    exact hmore
  · rw [hps]
    exact hless
  · rw [hps, hsnoc]
    simp [counted, count]

/-! ## The loop -/

theorem isPrime_toCInt (i : UInt32) :
    isPrime (toCInt i.toNat) = some (decide (i.toNat ≤ intMax ∧ i.toNat.Prime)) := by
  rw [isPrime_eq]
  by_cases hint : i.toNat ≤ intMax
  · rw [toCInt_of_le hint, Int.toNat_natCast]
    simp [hint]
  · -- as an `int` it is negative
    have hneg : (toCInt i.toNat).toNat = 0 := by
      have hlt := i.toNat_lt
      unfold toCInt intMax at *
      rw [Int.bmod_def]
      split <;> omega
    rw [hneg]
    simp [hint, Nat.not_prime_zero]

/-- One number. -/
theorem FoundPrimes.Holds.look {first n : ℕ} {i : UInt32} (h : f.Holds (intPrimes first n))
    (hi : i.toNat = first + n) :
    ∃ g, f.look i = .ok g ∧ g.Holds (intPrimes first (n + 1)) := by
  have hsmall := length_intPrimes_le first (n + 1)
  rw [intPrimes_succ, ← hi] at hsmall ⊢
  rw [FoundPrimes.look, isPrime_toCInt, Option.elim_some]
  by_cases hp : i.toNat ≤ intMax ∧ i.toNat.Prime
  · rw [if_pos hp] at hsmall ⊢
    obtain ⟨g, hg, hholds⟩ := h.found (i := i) (by omega)
    rw [if_pos (decide_eq_true hp), hg, Option.elim_some]
    exact ⟨g, rfl, hholds⟩
  · rw [if_neg hp, List.append_nil, if_neg (by rw [decide_eq_false hp]; exact Bool.false_ne_true)]
    exact ⟨f, rfl, h⟩

/-- Every number up to the last one is looked at once. -/
theorem findPrimesLoop_eq {first last i : UInt32} {n fuel : ℕ} (hlast : last.toNat < 4294967295)
    (hi : i.toNat = first.toNat + n) (hle : n ≤ last.toNat + 1 - first.toNat)
    (hfuel : last.toNat + 1 - first.toNat < n + fuel) (h : f.Holds (intPrimes first.toNat n)) :
    ∃ g, findPrimesLoop last fuel i f = .ok g ∧
      g.Holds (intPrimes first.toNat (last.toNat + 1 - first.toNat)) := by
  induction fuel generalizing i n f with
  | zero => omega
  | succ fuel ih =>
      rw [findPrimesLoop]
      by_cases hmore : i ≤ last
      · have hmore' : i.toNat ≤ last.toNat := UInt32.le_iff_toNat_le.mp hmore
        have hnext : (i + 1).toNat = i.toNat + 1 := by
          rw [UInt32.toNat_add, UInt32.toNat_one]
          omega
        obtain ⟨g, hg, hholds⟩ := h.look hi
        rw [if_pos hmore, hg]
        exact ih (by omega) (by omega) (by omega) hholds
      · have hend : last.toNat + 1 - first.toNat = n := by
          have : ¬ i.toNat ≤ last.toNat := fun h => hmore (UInt32.le_iff_toNat_le.mpr h)
          omega
        rw [if_neg hmore, hend]
        exact ⟨f, rfl, h⟩

/-- More rounds change no result. -/
theorem findPrimesLoop_more {last i : UInt32} {fuel : ℕ} {r : Except Stop FoundPrimes}
    (hr : r ≠ .error .running) (h : findPrimesLoop last fuel i f = r) (more : ℕ) :
    findPrimesLoop last (fuel + more) i f = r := by
  induction fuel generalizing i f with
  | zero => exact absurd h.symm hr
  | succ fuel ih =>
      rw [Nat.add_right_comm]
      rw [findPrimesLoop] at h ⊢
      by_cases hmore : i ≤ last
      · rw [if_pos hmore] at h ⊢
        cases hlook : f.look i with
        | error e =>
            rw [hlook] at h
            exact h
        | ok g =>
            rw [hlook] at h
            exact ih h
      · rw [if_neg hmore] at h ⊢
        exact h

/-- Behind the last `unsigned int` comes 0 again. -/
theorem findPrimesLoop_last {last : UInt32} (hlast : last.toNat = 4294967295) (fuel : ℕ)
    (i : UInt32) (f g : FoundPrimes) : findPrimesLoop last fuel i f ≠ .ok g := by
  induction fuel generalizing i f with
  | zero => exact fun h => nomatch h
  | succ fuel ih =>
      have hlt := i.toNat_lt
      have hle : i ≤ last := UInt32.le_iff_toNat_le.mpr (by omega)
      rw [findPrimesLoop, if_pos hle]
      cases f.look i with
      | error e => exact fun h => nomatch h
      | ok f => exact ih (i + 1) f

end Array

/-! ## The function -/

/-- The first number that is looked at, and the last one. -/
def FindPrimesArgs.first (args : FindPrimesArgs) : ℕ := args.rangeStart.toUInt32.toNat

def FindPrimesArgs.last (args : FindPrimesArgs) : ℕ := args.rangeEnd.toUInt32.toNat

/-- How many numbers there are in the range. -/
def FindPrimesArgs.size (args : FindPrimesArgs) : ℕ := args.last + 1 - args.first

/-- What is behind the last prime is given back. -/
theorem FoundPrimes.Holds.finish {f : FoundPrimes} {first n : ℕ} (h : f.Holds (intPrimes first n)) :
    ∃ g, f.finish = some g ∧ g.allocated = Cells.stored (counted (intPrimes first n)) := by
  have hsmall := length_intPrimes_le first n
  have hroom := h.room
  have hlength := h.length
  have hcount : toCInt (UInt64.ofNat (intPrimes first n).length).toNat =
      (intPrimes first n).length := by
    rw [toNat_ofNat_of_le (by omega), toCInt_of_le (by omega)]
  obtain ⟨g, hg, _, helems, htake⟩ : ∃ g, f.realloc (intPrimes first n).length = some g ∧
      g.allocatedLen = _ ∧ (g.allocated.length : ℤ) = (intPrimes first n).length + 1 ∧
      g.allocated.take ((intPrimes first n).length + 1) =
        f.allocated.take ((intPrimes first n).length + 1) :=
    realloc_eq (by omega) (by omega) (by omega)
  refine ⟨g, ?_, ?_⟩
  · rw [FoundPrimes.finish, h.load, Option.bind_eq_bind, Option.bind_some, hcount, hg]
  · rw [← h.contents, ← htake, List.take_of_length_le (by omega)]

theorem findPrimes_eq {args : FindPrimesArgs} {fuel : ℕ} (hlast : args.last < 4294967295)
    (hfuel : args.size < fuel) :
    findPrimes fuel args = .ok (Cells.stored (counted (intPrimes args.first args.size))) := by
  obtain ⟨f, hf, h⟩ : ∃ f, findPrimesLoop args.rangeEnd.toUInt32 fuel args.rangeStart.toUInt32
      .empty = .ok f ∧ f.Holds (intPrimes args.first args.size) :=
    findPrimesLoop_eq (n := 0) hlast rfl (Nat.zero_le _) (by rw [Nat.zero_add]; exact hfuel)
      holds_empty
  obtain ⟨g, hg, hall⟩ := h.finish
  rw [findPrimes, hf, ← hall]
  exact congrArg (Option.elim · _ _) hg

theorem findPrimes_more {args : FindPrimesArgs} {fuel : ℕ} {r : Except Stop (Cells UInt64)}
    (hr : r ≠ .error .running) (h : findPrimes fuel args = r) (more : ℕ) :
    findPrimes (fuel + more) args = r := by
  rw [findPrimes] at h ⊢
  have hloop : findPrimesLoop args.rangeEnd.toUInt32 fuel args.rangeStart.toUInt32 .empty ≠
      .error .running := by
    intro heq
    rw [heq] at h
    exact hr h.symm
  rw [findPrimesLoop_more hloop rfl]
  exact h

/-- There is one result, after however many rounds it is looked at. -/
theorem findPrimes_unique {args : FindPrimesArgs} {fuel : ℕ} {r : Except Stop (Cells UInt64)}
    (hlast : args.last < 4294967295) (hr : r ≠ .error .running) (h : findPrimes fuel args = r) :
    r = .ok (Cells.stored (counted (intPrimes args.first args.size))) := by
  rw [← findPrimes_more hr h (args.size + 1)]
  exact findPrimes_eq hlast (by omega)

/-- Nothing undefined happens, however far the search has come. -/
theorem findPrimes_safe {args : FindPrimesArgs} (hlast : args.last < 4294967295) (fuel : ℕ) :
    findPrimes fuel args ≠ .error .undefined := by
  intro hfault
  cases findPrimes_unique hlast (fun h => by cases h) hfault

/-- `find_primes` returns unless the range ends with the last `unsigned int`. It stores
nothing outside of its array, and the array that it returns has the number of primes in
its first element and the primes of the range behind it, in order; numbers above the
last `int` are not taken for primes. -/
theorem find_primes_exact (args : FindPrimesArgs) :
    ((∃ fuel r, findPrimes fuel args = .ok r) ↔ args.last ≠ 4294967295) ∧
      (args.last ≠ 4294967295 → ∀ fuel, findPrimes fuel args ≠ .error .undefined ∧
        (args.size < fuel → findPrimes fuel args =
          .ok (Cells.stored (counted (intPrimes args.first args.size))))) := by
  have hlt : args.last < 4294967296 := args.rangeEnd.toUInt32.toNat_lt
  refine ⟨⟨?_, fun h => ⟨args.size + 1, _, findPrimes_eq (by omega) (Nat.lt_succ_self _)⟩⟩,
    fun h fuel => ⟨findPrimes_safe (by omega) fuel, fun hfuel => findPrimes_eq (by omega) hfuel⟩⟩
  rintro ⟨fuel, r, hr⟩ hlast
  rw [findPrimes] at hr
  cases hloop : findPrimesLoop args.rangeEnd.toUInt32 fuel args.rangeStart.toUInt32 .empty with
  | error e =>
      rw [hloop] at hr
      cases hr
  | ok f => exact findPrimesLoop_last hlast fuel _ _ f hloop

/-- The primes from 10 to 20. -/
theorem find_primes_exact_tens :
    findPrimes 12 ⟨10, 20⟩ = .ok (Cells.stored [4, 11, 13, 17, 19]) := by
  have hprimes : intPrimes 10 11 = [11, 13, 17, 19] := by decide
  have hlast : FindPrimesArgs.last ⟨10, 20⟩ ≠ 4294967295 := by decide
  have hrun := ((find_primes_exact ⟨10, 20⟩).2 hlast 12).2 (by decide)
  rw [hrun]
  exact congrArg (fun ps => Except.ok (Cells.stored (counted ps))) hprimes

end Dicon.Demo
