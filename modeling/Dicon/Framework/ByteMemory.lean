import Dicon.Framework.Cells

/-!
# Flat memory

A memory maps addresses to values; `write` stores a list of values at
consecutive addresses and `read` takes them out again. What is known about a
memory is itself a memory, of cells; `Holds` relates the two, and both
operations respect it.
-/

namespace Dicon.Framework

universe u

namespace ByteMemory

variable {α : Type u}

def write (mem : ℕ → α) (a : ℕ) (vs : List α) : ℕ → α := fun x =>
  if a ≤ x then vs[x - a]?.getD (mem x) else mem x

def read (mem : ℕ → α) (a n : ℕ) : List α := (List.range n).map fun i => mem (a + i)

@[simp] theorem length_read (mem : ℕ → α) (a n : ℕ) : (read mem a n).length = n := by
  simp [read]

theorem getElem?_read {mem : ℕ → α} {a n i : ℕ} (h : i < n) :
    (read mem a n)[i]? = some (mem (a + i)) := by
  simp [read, h]

theorem write_inside (mem : ℕ → α) (vs : List α) {a x : ℕ} (ha : a ≤ x)
    (hx : x < a + vs.length) : some (write mem a vs x) = vs[x - a]? := by
  have hlt : x - a < vs.length := by omega
  simp [write, ha, List.getElem?_eq_getElem hlt]

theorem write_outside {mem : ℕ → α} {a x : ℕ} {vs : List α}
    (h : x < a ∨ a + vs.length ≤ x) : write mem a vs x = mem x := by
  unfold write
  split
  · have hlen : vs[x - a]? = none := List.getElem?_eq_none (by omega)
    rw [hlen, Option.getD_none]
  · rfl

theorem write_at (mem : ℕ → α) (vs : List α) {a i : ℕ} (h : i < vs.length) :
    some (write mem a vs (a + i)) = vs[i]? := by
  have hw := write_inside mem vs (Nat.le_add_right a i) (Nat.add_lt_add_left h a)
  rwa [Nat.add_sub_cancel_left] at hw

/-- What is written does not depend on what was there, and the rest stays. -/
theorem write_congr {mem mem' : ℕ → α} {a x : ℕ} (vs : List α)
    (h : ¬ (a ≤ x ∧ x < a + vs.length) → mem x = mem' x) :
    write mem a vs x = write mem' a vs x := by
  by_cases hx : a ≤ x ∧ x < a + vs.length
  · exact Option.some.inj
      ((write_inside mem vs hx.1 hx.2).trans (write_inside mem' vs hx.1 hx.2).symm)
  · rw [write_outside (by omega), write_outside (by omega), h hx]

theorem read_congr {mem mem' : ℕ → α} {a n : ℕ} (h : ∀ i < n, mem (a + i) = mem' (a + i)) :
    read mem a n = read mem' a n := by
  apply List.map_congr_left
  intro i hi
  exact h i (List.mem_range.mp hi)

@[simp] theorem write_nil (mem : ℕ → α) (a : ℕ) : write mem a [] = mem := by
  funext x
  exact write_outside (Nat.lt_or_ge x a)

/-- Two writes, the second behind the first. -/
theorem write_append (mem : ℕ → α) (a : ℕ) (us vs : List α) :
    write (write mem a us) (a + us.length) vs = write mem a (us ++ vs) := by
  ext x
  rcases Nat.lt_or_ge x (a + us.length) with hlt | hge
  · rw [write_outside (Or.inl hlt)]
    by_cases ha : a ≤ x
    · apply Option.some.inj
      have hx : x < a + (us ++ vs).length := by
        rw [List.length_append]
        omega
      rw [write_inside mem us ha hlt, write_inside mem _ ha hx,
        List.getElem?_append_left (by omega)]
    · have hout : x < a := Nat.lt_of_not_le ha
      rw [write_outside (Or.inl hout), write_outside (Or.inl hout)]
  · rcases Nat.lt_or_ge x (a + us.length + vs.length) with hin | hout
    · apply Option.some.inj
      have hx : x < a + (us ++ vs).length := by
        rw [List.length_append]
        omega
      rw [write_inside _ vs hge hin, write_inside mem _ (by omega) hx,
        List.getElem?_append_right (by omega), Nat.sub_add_eq]
    · have hx : a + (us ++ vs).length ≤ x := by
        rw [List.length_append]
        omega
      rw [write_outside (Or.inr hout), write_outside (Or.inr hge), write_outside (Or.inr hx)]

/-- A piece of memory that is copied to another place. -/
theorem write_read (mem mem' : ℕ → α) (a b : ℕ) {n i : ℕ} (h : i < n) :
    write mem a (read mem' b n) (a + i) = mem' (b + i) := by
  apply Option.some.inj
  rw [write_at mem _ (by rw [length_read]; exact h), getElem?_read h]

/-- What was written is read. -/
theorem read_write (mem : ℕ → α) (a : ℕ) (vs : List α) :
    read (write mem a vs) a vs.length = vs := by
  apply List.ext_getElem?
  intro i
  by_cases hi : i < vs.length
  · rw [getElem?_read hi, write_at mem vs hi]
  · rw [List.getElem?_eq_none (by rw [length_read]; omega), List.getElem?_eq_none (by omega)]

theorem write_stored (known : ℕ → Option α) (vs : List α) {a i : ℕ} (h : i < vs.length) :
    write known a (Cells.stored vs) (a + i) = vs[i]? := by
  apply Option.some.inj
  rw [write_at known _ (by rw [Cells.length_stored]; exact h), Cells.stored, List.getElem?_map,
    List.getElem?_eq_getElem h, Option.map_some]

/-! ## Contents that are known in part -/

/-- The memory holds what is known about it. -/
def Holds (known : ℕ → Option α) (mem : ℕ → α) : Prop := ∀ x, Cells.Says (known x) (mem x)

theorem Holds.write {known : ℕ → Option α} {mem : ℕ → α} (h : Holds known mem) (a : ℕ)
    {cs : Cells α} {vs : List α} (hv : Cells.Matches cs vs) :
    Holds (ByteMemory.write known a cs) (ByteMemory.write mem a vs) := by
  intro x w hw
  have hlen : cs.length = vs.length := hv.length_eq
  by_cases hx : a ≤ x ∧ x < a + vs.length
  · have hknown := write_inside known cs hx.1 (by rw [hlen]; exact hx.2)
    rw [hw] at hknown
    have hvalue := hv.getElem? hknown.symm
    rw [← write_inside mem vs hx.1 hx.2] at hvalue
    exact Option.some.inj hvalue
  · have hout : x < a ∨ a + vs.length ≤ x := by omega
    rw [write_outside (by rw [hlen]; exact hout)] at hw
    rw [write_outside hout]
    exact h x w hw

/-- Nothing can go wrong by knowing less. -/
theorem Holds.forget {known : ℕ → Option α} {mem : ℕ → α} (h : Holds known mem) (a n : ℕ) :
    Holds (ByteMemory.write known a (List.replicate n none)) mem := by
  intro x w hw
  by_cases hx : a ≤ x ∧ x < a + (List.replicate n (none : Option α)).length
  · have hnone := write_inside known _ hx.1 hx.2
    rw [hw, List.getElem?_replicate] at hnone
    split at hnone <;> cases hnone
  · rw [write_outside (by omega)] at hw
    exact h x w hw

theorem Holds.read {known : ℕ → Option α} {mem : ℕ → α} (h : Holds known mem) (a n : ℕ) :
    Cells.Matches (ByteMemory.read known a n) (ByteMemory.read mem a n) := by
  unfold ByteMemory.read Cells.Matches
  rw [List.forall₂_map_left_iff, List.forall₂_map_right_iff, List.forall₂_same]
  intro i _
  exact h (a + i)

end ByteMemory

end Dicon.Framework
