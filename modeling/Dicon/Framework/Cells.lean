import Mathlib.Data.List.Forall2
import Mathlib.Tactic.Common

/-!
# Memory that may be unwritten

A block that a program has just allocated holds nothing that the program
determines. `Cells` marks which of its cells were stored to; `fill` is what
somebody who reads the whole block gets, where `junk` stands in for the cells
that were not.
-/

namespace Dicon.Framework

universe u

abbrev Cells (α : Type u) := List (Option α)

namespace Cells

variable {α : Type u}

def stored (vs : List α) : Cells α := vs.map some

def fill (junk : ℕ → α) : Cells α → List α
  | [] => []
  | c :: cs => c.getD (junk 0) :: fill (fun i => junk (i + 1)) cs

@[simp] theorem length_stored (vs : List α) : (stored vs).length = vs.length := List.length_map _

@[simp] theorem length_fill (junk : ℕ → α) (cs : Cells α) : (fill junk cs).length = cs.length := by
  induction cs generalizing junk with
  | nil => rfl
  | cons c cs ih => simp [fill, ih]

@[simp] theorem fill_stored (junk : ℕ → α) (vs : List α) : fill junk (stored vs) = vs := by
  induction vs generalizing junk with
  | nil => rfl
  | cons v vs ih =>
      show v :: fill _ (stored vs) = v :: vs
      rw [ih]

theorem stored_append (vs ws : List α) : stored (vs ++ ws) = stored vs ++ stored ws :=
  List.map_append

theorem take_stored (vs : List α) (n : ℕ) : (stored vs).take n = stored (vs.take n) := by
  simp only [stored, List.map_take]

theorem drop_stored (vs : List α) (n : ℕ) : (stored vs).drop n = stored (vs.drop n) := by
  simp only [stored, List.map_drop]

theorem fill_append (junk : ℕ → α) (cs ds : Cells α) :
    fill junk (cs ++ ds) = fill junk cs ++ fill (fun i => junk (i + cs.length)) ds := by
  induction cs generalizing junk with
  | nil => rfl
  | cons c cs ih =>
      simp only [List.cons_append, fill, ih, List.length_cons]
      congr 4

theorem fill_take (junk : ℕ → α) (cs : Cells α) (n : ℕ) :
    (fill junk cs).take n = fill junk (cs.take n) := by
  induction n generalizing junk cs with
  | zero => rfl
  | succ n ih =>
      cases cs with
      | nil => rfl
      | cons c cs => simp only [fill, List.take_succ_cons, ih]

/-- Of cells that were never stored to, one reads what was there. -/
theorem fill_unwritten (junk : ℕ → α) (n : ℕ) :
    fill junk (List.replicate n none) = (List.range n).map junk := by
  induction n generalizing junk with
  | zero => rfl
  | succ n ih =>
      rw [List.replicate_succ, fill, ih, List.range_succ_eq_map, List.map_cons, List.map_map]
      rfl

/-- The `len` cells from `off` on. -/
def region (cs : Cells α) (off len : ℕ) : Cells α := (cs.drop off).take len

theorem region_stored (vs : List α) (off len : ℕ) :
    (stored vs).region off len = stored ((vs.drop off).take len) := by
  rw [region, drop_stored, take_stored]

/-! ## Cell by cell -/

/-- A cell that was stored to. -/
def load (cs : Cells α) (i : ℕ) : Option α := cs[i]?.join

/-- A store into a cell of the block; there is none outside of it. -/
def store (cs : Cells α) (i : ℕ) (v : α) : Option (Cells α) :=
  if i < cs.length then some (cs.set i (some v)) else none

/-- `realloc`, counted in cells. -/
def resized (cs : Cells α) (n : ℕ) : Cells α := cs.take n ++ List.replicate (n - cs.length) none

@[simp] theorem length_resized (cs : Cells α) (n : ℕ) : (cs.resized n).length = n := by
  rw [resized, List.length_append, List.length_take, List.length_replicate]
  omega

/-- What fits into the new block is kept. -/
theorem take_resized {cs : Cells α} {k n : ℕ} (hk : k ≤ n) (hlen : k ≤ cs.length) :
    (cs.resized n).take k = cs.take k := by
  rw [resized, List.take_append_of_le_length (by rw [List.length_take]; omega), List.take_take,
    Nat.min_eq_left hk]

theorem load_of_take {cs : Cells α} {vs : List α} {k i : ℕ} {v : α}
    (h : cs.take k = stored vs) (hv : vs[i]? = some v) : cs.load i = some v := by
  have hi : i < (cs.take k).length := by
    rw [h, length_stored]
    exact (List.getElem?_eq_some_iff.mp hv).1
  rw [List.length_take] at hi
  have hget : cs[i]? = (cs.take k)[i]? := (List.getElem?_take_of_lt (by omega)).symm
  rw [load, hget, h, stored, List.getElem?_map, hv]
  rfl

/-- A store behind the cells that are known. -/
theorem take_set_next {cs : Cells α} {vs : List α} (h : cs.take vs.length = stored vs)
    (hroom : vs.length < cs.length) (v : α) :
    (cs.set vs.length (some v)).take (vs.length + 1) = stored (vs ++ [v]) := by
  have hlen : (cs.take vs.length).length = vs.length := by
    rw [h, length_stored]
  rw [List.set_eq_take_append_cons_drop, if_pos hroom, List.take_append, hlen, List.take_take,
    Nat.min_eq_right (Nat.le_succ _), h, stored_append]
  simp [stored]

theorem store_eq {cs : Cells α} {i : ℕ} (v : α) (h : i < cs.length) :
    cs.store i v = some (cs.set i (some v)) := if_pos h

/-! ## Contents that are known in part -/

/-- A cell that was stored to holds that value. -/
def Says (c : Option α) (v : α) : Prop := ∀ w, c = some w → v = w

/-- Where `cs` was stored to, `vs` are the values. -/
def Matches (cs : Cells α) (vs : List α) : Prop := List.Forall₂ Says cs vs

theorem matches_stored (vs : List α) : Matches (stored vs) vs := by
  induction vs with
  | nil => exact .nil
  | cons v vs ih => exact .cons (fun _ h => Option.some.inj h) ih

theorem matches_unwritten {n : ℕ} {vs : List α} (h : vs.length = n) :
    Matches (List.replicate n none) vs := by
  subst h
  induction vs with
  | nil => exact .nil
  | cons v vs ih => exact .cons (fun _ h => nomatch h) ih

theorem eq_of_matches_stored {vs ws : List α} (h : Matches (stored vs) ws) : ws = vs := by
  rw [Matches, stored, List.forall₂_map_left_iff] at h
  induction h with
  | nil => rfl
  | cons hv _ ih => rw [ih, hv _ rfl]

theorem Matches.getElem? {cs : Cells α} {vs : List α} (h : Matches cs vs) {i : ℕ} {w : α}
    (hi : cs[i]? = some (some w)) : vs[i]? = some w := by
  induction h generalizing i with
  | nil => cases hi
  | cons hv _ ih =>
      cases i with
      | zero => exact congrArg some (hv w (Option.some.inj hi))
      | succ i => exact ih hi

end Cells

end Dicon.Framework
