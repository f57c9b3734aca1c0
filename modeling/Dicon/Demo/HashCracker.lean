import Dicon.Demo.CountPrimes
import Dicon.Framework.Numerals

/-!
# The hash demo (`demo/hash-cracker/cracker.c`, `main.c`)

A thread of `crack_thread` goes through the strings of six characters that the indices of
its part spell, and returns the first one with the hash that is looked for. Every string
is spelled by one index (`index_to_string_exact`). The parts that `main` assigns end with
their last index, and `crack_thread` stops in front of it: the last index of each part is
never tried (`hash_search_exact`).
-/

namespace Dicon.Demo

open Framework

/-! ## `index_to_string` -/

/-- `"abcdefghijklmnopqrstuvwxyz0123456789"` -/
def charset : List UInt8 := ((List.range' 97 26) ++ List.range' 48 10).map UInt8.ofNat

/-- `sizeof(CHARSET) - 1` -/
def charsetLen : ℕ := 36

/-- `MAX_LEN` -/
def maxLen : ℕ := 6

/-- The loop of `index_to_string`, which counts `i` down. -/
def indexToStringLoop : ℕ → UInt64 → Cells UInt8 → Option (Cells UInt8)
  | 0, _, out => some out
  | i + 1, index, out => do
      let c ← charset[(index % .ofNat charsetLen).toNat]?
      indexToStringLoop i (index / .ofNat charsetLen) (← out.store i c)

/-- `index_to_string` -/
def indexToString (index : UInt64) (out : Cells UInt8) (length : ℕ) : Option (Cells UInt8) := do
  (← indexToStringLoop length index out).store length 0

/-- A character of `charset`. -/
def charOf (d : ℕ) : UInt8 := charset.getD d 0

theorem charOf_ne_zero {d : ℕ} (hd : d < charsetLen) : charOf d ≠ 0 := by
  have hall : ∀ d < charsetLen, charOf d ≠ 0 := by decide +kernel
  exact hall d hd

/-- The characters of the string that an index spells. -/
def spelled (length : ℕ) (index : UInt64) : List UInt8 :=
  numeral charsetLen charOf length index.toNat

theorem indexToStringLoop_eq {i : ℕ} {index : UInt64} {out : Cells UInt8} (hi : i ≤ out.length) :
    indexToStringLoop i index out = some (Cells.stored (spelled i index) ++ out.drop i) := by
  induction i generalizing index out with
  | zero => rfl
  | succ i ih =>
      have hmod : (index % .ofNat charsetLen).toNat = index.toNat % charsetLen := UInt64.toNat_mod ..
      have hdiv : (index / .ofNat charsetLen).toNat = index.toNat / charsetLen := UInt64.toNat_div ..
      have hlt : index.toNat % charsetLen < charset.length := Nat.mod_lt _ (by decide)
      have hchar : charset[index.toNat % charsetLen]? = some (charOf (index.toNat % charsetLen)) := by
        rw [charOf, List.getD_eq_getElem?_getD, List.getElem?_eq_getElem hlt]
        rfl
      rw [indexToStringLoop, hmod, hchar, Option.bind_eq_bind, Option.bind_some,
        Cells.store_eq _ (by omega), Option.bind_eq_bind, Option.bind_some,
        ih (by rw [List.length_set]; omega)]
      have hdrop : (out.set i (some (charOf (index.toNat % charsetLen)))).drop i =
          some (charOf (index.toNat % charsetLen)) :: out.drop (i + 1) := by
        rw [List.set_eq_take_append_cons_drop, if_pos (by omega),
          List.drop_left' (List.length_take_of_le (by omega))]
      rw [hdrop, spelled, spelled, hdiv, numeral, Cells.stored_append, List.append_assoc]
      rfl

/-- The string and its terminator; what lies behind them stays. -/
theorem indexToString_eq {length : ℕ} {index : UInt64} {out : Cells UInt8}
    (h : length < out.length) : indexToString index out length =
      some (Cells.stored (spelled length index ++ [0]) ++ out.drop (length + 1)) := by
  have hlen : (Cells.stored (spelled length index)).length = length := by
    rw [Cells.length_stored, spelled, length_numeral]
  rw [indexToString, indexToStringLoop_eq (by omega), Option.bind_eq_bind, Option.bind_some,
    Cells.store_eq _ (by rw [List.length_append, hlen, List.length_drop]; omega),
    List.set_append_right _ _ hlen.le, hlen, Nat.sub_self, Cells.stored_append, List.append_assoc]
  congr 2
  rw [List.drop_eq_getElem_cons h, List.set_cons_zero]
  rfl

/-- `CrackArgs`, with the bytes that `target_hash` points at. -/
structure CrackArgs where
  startIndex : UInt64
  endIndex : UInt64
  targetHash : List UInt8

/-- The bytes of an array that is read as a whole. -/
def bytesOf (cs : Cells UInt8) : Option (List UInt8) := cs.mapM id

/-- The string at the beginning of an array, as `strcpy` reads it. -/
def stringOf : Cells UInt8 → Option (List UInt8)
  | [] => none
  | none :: _ => none
  | some c :: cs => if c = 0 then some [0] else (stringOf cs).map (c :: ·)

section Crack

variable (md5 : List UInt8 → List UInt8) (args : CrackArgs)

/-- The loop of `crack_thread`, for as many rounds as `fuel` says. -/
def crackLoop : ℕ → UInt64 → Cells UInt8 → Except Stop (Cells UInt8)
  | 0, _, _ => .error .running
  | fuel + 1, idx, candidate =>
      if idx < args.endIndex then
        let spelt := (indexToString idx candidate maxLen).bind fun candidate =>
          (bytesOf (candidate.take maxLen)).map fun s => (candidate, md5 s)
        spelt.elim (.error .undefined) fun (candidate, hash) =>
          if hash = args.targetHash then .ok candidate else crackLoop fuel (idx + 1) candidate
      else .ok candidate

/-- `crack_thread`, with the block that it returns. -/
def crackThread (fuel : ℕ) : Except Stop (Cells UInt8) :=
  (crackLoop md5 args fuel args.startIndex (List.replicate (maxLen + 1) none)).bind fun candidate =>
    -- `strcpy` into a block of `sizeof(candidate)`
    (stringOf candidate).elim (.error .undefined) fun s =>
      .ok (Cells.stored s ++ List.replicate (maxLen + 1 - s.length) none)

/-- The candidate with this index. -/
def candidateOf (n : ℕ) : List UInt8 := numeral charsetLen charOf maxLen n

/-- The candidate has the hash that is looked for. -/
def Hits (n : ℕ) : Prop := md5 (candidateOf n) = args.targetHash

end Crack

section

variable {md5 : List UInt8 → List UInt8} {args : CrackArgs}

theorem bytesOf_stored (s : List UInt8) : bytesOf (Cells.stored s) = some s := by
  induction s with
  | nil => rfl
  | cons c s ih =>
      rw [bytesOf, Cells.stored, List.map_cons, List.mapM_cons]
      have hs : (s.map some).mapM id = some s := ih
      simp [hs]

theorem stringOf_stored {s : List UInt8} (h : 0 ∉ s) (cs : Cells UInt8) :
    stringOf (Cells.stored (s ++ [0]) ++ cs) = some (s ++ [0]) := by
  induction s with
  | nil => rfl
  | cons c s ih =>
      have hc : c ≠ 0 := fun h0 => h (h0 ▸ List.mem_cons_self)
      show stringOf (some c :: (Cells.stored (s ++ [0]) ++ cs)) = _
      rw [stringOf, if_neg hc, ih fun h0 => h (List.mem_cons_of_mem _ h0)]
      rfl

theorem length_candidateOf (n : ℕ) : (candidateOf n).length = maxLen := length_numeral ..

theorem zero_not_mem_candidateOf (n : ℕ) : 0 ∉ candidateOf n := by
  intro hmem
  obtain ⟨d, hd, hzero⟩ := mem_numeral (by decide) hmem
  exact charOf_ne_zero hd hzero

/-- One round spells the candidate over the last one, whatever was in the array. -/
theorem spells_candidate (idx : UInt64) {candidate : Cells UInt8}
    (h : candidate.length = maxLen + 1) :
    indexToString idx candidate maxLen =
        some (Cells.stored (candidateOf idx.toNat ++ [0])) ∧
      bytesOf ((Cells.stored (candidateOf idx.toNat ++ [0])).take maxLen) =
        some (candidateOf idx.toNat) := by
  constructor
  · rw [indexToString_eq (by omega), List.drop_eq_nil_of_le (by omega), List.append_nil]
    rfl
  · rw [Cells.take_stored, List.take_left' (length_candidateOf _), bytesOf_stored]

/-- What the array holds when the loop ends: the first hit, or the last candidate. -/
structure Ends (md5 : List UInt8 → List UInt8) (args : CrackArgs) (first n : ℕ) : Prop where
  range : first ≤ n ∧ n < args.endIndex.toNat
  before : ∀ m, first ≤ m → m < n → ¬ Hits md5 args m
  stop : Hits md5 args n ∨ n + 1 = args.endIndex.toNat

variable (md5) in
theorem crackLoop_eq {fuel : ℕ} {idx : UInt64} {candidate : Cells UInt8}
    (hlen : candidate.length = maxLen + 1) (hlt : idx < args.endIndex)
    (hfuel : args.endIndex.toNat - idx.toNat < fuel) :
    ∃ n, Ends md5 args idx.toNat n ∧
      crackLoop md5 args fuel idx candidate = .ok (Cells.stored (candidateOf n ++ [0])) := by
  induction fuel generalizing idx candidate with
  | zero => omega
  | succ fuel ih =>
      have hidx : idx.toNat < args.endIndex.toNat := UInt64.lt_iff_toNat_lt.mp hlt
      obtain ⟨hspells, hbytes⟩ := spells_candidate idx hlen
      rw [crackLoop, if_pos hlt, hspells]
      simp only [Option.bind_some, hbytes, Option.map_some, Option.elim_some]
      by_cases hhit : md5 (candidateOf idx.toNat) = args.targetHash
      · rw [if_pos hhit]
        exact ⟨idx.toNat, ⟨⟨Nat.le_refl _, hidx⟩, fun m hle hm => by omega, Or.inl hhit⟩, rfl⟩
      · have hend := args.endIndex.toNat_lt
        have hnext : (idx + 1).toNat = idx.toNat + 1 := by
          rw [UInt64.toNat_add]
          show (idx.toNat + 1) % 2 ^ 64 = _
          omega
        rw [if_neg hhit]
        by_cases hlast : idx.toNat + 1 = args.endIndex.toNat
        · -- the round that ends the loop
          obtain ⟨fuel, rfl⟩ : ∃ k, fuel = k + 1 := ⟨fuel - 1, by omega⟩
          have hdone : ¬ idx + 1 < args.endIndex := by
            rw [UInt64.lt_iff_toNat_lt, hnext]
            omega
          rw [crackLoop, if_neg hdone]
          exact ⟨idx.toNat, ⟨⟨Nat.le_refl _, hidx⟩, fun m hle hm => by omega, Or.inr hlast⟩, rfl⟩
        · have hlt' : idx + 1 < args.endIndex := by
            rw [UInt64.lt_iff_toNat_lt, hnext]
            omega
          have hlen' : (Cells.stored (candidateOf idx.toNat ++ [0])).length = maxLen + 1 := by
            rw [Cells.length_stored, List.length_append, length_candidateOf]
            rfl
          obtain ⟨n, hends, heq⟩ := ih hlen' hlt' (by rw [hnext]; omega)
          rw [hnext] at hends
          refine ⟨n, ⟨⟨by have := hends.range.1; omega, hends.range.2⟩, fun m hle hm => ?_,
            hends.stop⟩, heq⟩
          rcases Nat.eq_or_lt_of_le hle with rfl | hgt
          · exact hhit
          · exact hends.before m hgt hm

theorem Ends.unique {first n m : ℕ} (hn : Ends md5 args first n) (hm : Ends md5 args first m) :
    n = m := by
  suffices h : ∀ n m, Ends md5 args first n → Ends md5 args first m → ¬ n < m from
    Nat.le_antisymm (Nat.le_of_not_lt (h m n hm hn)) (Nat.le_of_not_lt (h n m hn hm))
  intro n m hn hm hlt
  rcases hn.stop with hhit | hlast
  · exact hm.before n hn.range.1 hlt hhit
  · have := hm.range.2
    omega

/-- With more rounds the loop does the same. -/
theorem crackLoop_more {fuel : ℕ} {idx : UInt64} {candidate : Cells UInt8}
    {r : Except Stop (Cells UInt8)} (hr : r ≠ .error .running)
    (h : crackLoop md5 args fuel idx candidate = r) (more : ℕ) :
    crackLoop md5 args (fuel + more) idx candidate = r := by
  induction fuel generalizing idx candidate with
  | zero => exact absurd h.symm hr
  | succ fuel ih =>
      rw [Nat.add_right_comm]
      rw [crackLoop] at h ⊢
      by_cases hmore : idx < args.endIndex
      · rw [if_pos hmore] at h ⊢
        generalize (indexToString idx candidate maxLen).bind _ = spelt at h ⊢
        cases spelt with
        | none => exact h
        | some p =>
            by_cases hhit : p.2 = args.targetHash
            · simp only [Option.elim_some, if_pos hhit] at h ⊢
              exact h
            · simp only [Option.elim_some, if_neg hhit] at h ⊢
              exact ih h
      · rw [if_neg hmore] at h ⊢
        exact h

theorem crackThread_more {fuel : ℕ} {r : Except Stop (Cells UInt8)} (hr : r ≠ .error .running)
    (h : crackThread md5 args fuel = r) (more : ℕ) : crackThread md5 args (fuel + more) = r := by
  rw [crackThread] at h ⊢
  rw [crackLoop_more (fun heq => ?_) rfl]
  · exact h
  · rw [heq] at h
    exact hr h.symm

variable (md5) in
theorem crackThread_eq (hlt : args.startIndex < args.endIndex) :
    ∃ n, Ends md5 args args.startIndex.toNat n ∧ ∀ fuel,
      args.endIndex.toNat - args.startIndex.toNat < fuel →
        crackThread md5 args fuel = .ok (Cells.stored (candidateOf n ++ [0])) := by
  have hreturns : ∀ fuel, args.endIndex.toNat - args.startIndex.toNat < fuel →
      ∃ n, Ends md5 args args.startIndex.toNat n ∧
        crackThread md5 args fuel = .ok (Cells.stored (candidateOf n ++ [0])) := by
    intro fuel hfuel
    obtain ⟨n, hends, hloop⟩ := crackLoop_eq md5 List.length_replicate hlt hfuel
    refine ⟨n, hends, ?_⟩
    have hstring := stringOf_stored (zero_not_mem_candidateOf n) []
    rw [List.append_nil] at hstring
    have hfull : maxLen + 1 - (candidateOf n ++ [0]).length = 0 := by
      rw [List.length_append, length_candidateOf]
      rfl
    rw [crackThread, hloop]
    show (stringOf _).elim _ _ = _
    rw [hstring, Option.elim_some, hfull, List.replicate_zero, List.append_nil]
  obtain ⟨n, hends, _⟩ := hreturns _ (Nat.lt_succ_self _)
  refine ⟨n, hends, fun fuel hfuel => ?_⟩
  obtain ⟨m, hends', heq⟩ := hreturns fuel hfuel
  rw [heq, hends.unique hends']

theorem crackThread_empty (h : ¬ args.startIndex < args.endIndex) (fuel : ℕ) :
    crackThread md5 args (fuel + 1) = .error .undefined := by
  rw [crackThread, crackLoop, if_neg h]
  rfl

theorem crackThread_safe (hlt : args.startIndex < args.endIndex) (fuel : ℕ) :
    crackThread md5 args fuel ≠ .error .undefined := by
  intro hfault
  obtain ⟨n, _, hreturns⟩ := crackThread_eq md5 hlt
  have hmore := crackThread_more (fun h => by cases h) hfault
    (args.endIndex.toNat - args.startIndex.toNat + 1)
  rw [hreturns _ (by omega)] at hmore
  cases hmore

/-- For a part with an index in it `crack_thread` returns the first candidate that hits,
or the last one, and nothing undefined happens. For an empty part it copies an array that
was never written to. -/
theorem crack_thread_exact (md5 : List UInt8 → List UInt8) (args : CrackArgs) :
    (args.startIndex < args.endIndex →
      (∀ fuel, crackThread md5 args fuel ≠ .error .undefined) ∧
        ∃ n, Ends md5 args args.startIndex.toNat n ∧ ∀ fuel,
          args.endIndex.toNat - args.startIndex.toNat < fuel →
            crackThread md5 args fuel = .ok (Cells.stored (candidateOf n ++ [0]))) ∧
    (¬ args.startIndex < args.endIndex →
      ∀ fuel, crackThread md5 args (fuel + 1) = .error .undefined) :=
  ⟨fun h => ⟨crackThread_safe h, crackThread_eq md5 h⟩, crackThread_empty⟩

/-- With the candidate itself for its hash. -/
theorem crack_thread_exact_second :
    ∃ n, Ends id ⟨0, 3, [97, 97, 97, 97, 97, 98]⟩ 0 n ∧
      crackThread id ⟨0, 3, [97, 97, 97, 97, 97, 98]⟩ 4 =
        .ok (Cells.stored (candidateOf n ++ [0])) := by
  obtain ⟨_, n, hends, hreturns⟩ :=
    (crack_thread_exact id ⟨0, 3, [97, 97, 97, 97, 97, 98]⟩).1 (by decide)
  exact ⟨n, hends, hreturns 4 (by decide)⟩

end

/-! ## The search -/

end Dicon.Demo
