import Dicon.Framework.LinkedChain
import Mathlib.Logic.Relation

/-!
# Heaps of doubly linked cells

What a heap of doubly linked cells should be like at every cell, whether or not
some list head reaches it: no pointer dangles, the two directions agree, and
nothing goes round in a circle (`WellLinked`). A heap whose cells all stand in
chains is like that (`Chained.wellLinked`): what follows a cell stands behind it
in its chain.
-/

namespace Dicon.Framework

universe u v

variable {κ : Type u} {α : Type v}

/-- The cell at `x` points on to `y`. -/
def PointsOn (cell : Store κ α) (x y : κ) : Prop := ∃ n, cell x = some n ∧ n.next = some y

/-- The cell at `y` points back to `x`. -/
def PointsBack (cell : Store κ α) (y x : κ) : Prop := ∃ n, cell y = some n ∧ n.prev = some x

theorem PointsOn.live {cell : Store κ α} {x y : κ} (h : PointsOn cell x y) : (cell x).isSome := by
  obtain ⟨n, hn, _⟩ := h
  rw [hn]
  rfl

theorem PointsBack.live {cell : Store κ α} {x y : κ} (h : PointsBack cell x y) :
    (cell x).isSome := by
  obtain ⟨n, hn, _⟩ := h
  rw [hn]
  rfl

/-- No pointer dangles, `next` and `prev` agree, and no cell follows itself. -/
structure WellLinked (cell : Store κ α) : Prop where
  next_live : ∀ x y, PointsOn cell x y → (cell y).isSome
  prev_live : ∀ x y, PointsBack cell x y → (cell y).isSome
  next_iff_prev : ∀ x y, PointsOn cell x y ↔ PointsBack cell y x
  acyclic : ∀ x, ¬ Relation.TransGen (PointsOn cell) x x

/-- The cells of a heap stand in chains. -/
structure Chained (cell : Store κ α) (chains : List (List κ)) : Prop where
  seg : ∀ c ∈ chains, Seg cell none c none
  nodup : ∀ c ∈ chains, c.Nodup
  mem_of_live : ∀ x, (cell x).isSome → ∃ c ∈ chains, x ∈ c

namespace Seg

variable {cell : Store κ α} {l r : List κ} {x y : κ}

theorem pointsOn_iff (h : Seg cell none (l ++ x :: r) none) :
    PointsOn cell x y ↔ r.head? = some y := by
  obtain ⟨n, hn, _, hnext⟩ := h.cell_of_split
  constructor
  · rintro ⟨m, hm, hy⟩
    rw [hn] at hm
    cases hm
    rw [← hnext, hy]
  · intro hy
    exact ⟨n, hn, hnext.trans hy⟩

theorem pointsBack_iff (h : Seg cell none (l ++ x :: r) none) :
    PointsBack cell x y ↔ l.getLast? = some y := by
  obtain ⟨n, hn, hprev, _⟩ := h.cell_of_split
  constructor
  · rintro ⟨m, hm, hy⟩
    rw [hn] at hm
    cases hm
    rw [← hprev, hy]
  · intro hy
    exact ⟨n, hn, hprev.trans hy⟩

/-- All that follows a cell stands behind it. -/
theorem mem_of_transGen {z : κ} (h : Seg cell none (l ++ x :: r) none)
    (hz : Relation.TransGen (PointsOn cell) x z) : z ∈ r := by
  induction hz using Relation.TransGen.head_induction_on generalizing l r with
  | single hxz => exact List.mem_of_head? (h.pointsOn_iff.mp hxz)
  | head hxy _ ih =>
      obtain ⟨r, rfl⟩ := List.head?_eq_some_iff.mp (h.pointsOn_iff.mp hxy)
      rw [List.append_cons] at h
      exact List.mem_cons_of_mem _ (ih h)

end Seg

namespace Chained

variable {cell : Store κ α} {chains : List (List κ)}

/-- Where a live cell stands. -/
theorem split (h : Chained cell chains) {x : κ} (hx : (cell x).isSome) :
    ∃ l r, (l ++ x :: r).Nodup ∧ Seg cell none (l ++ x :: r) none := by
  obtain ⟨c, hc, hxc⟩ := h.mem_of_live x hx
  obtain ⟨l, r, rfl⟩ := List.append_of_mem hxc
  exact ⟨l, r, h.nodup _ hc, h.seg _ hc⟩

theorem wellLinked (h : Chained cell chains) : WellLinked cell where
  next_live x y hxy := by
    obtain ⟨l, r, _, hseg⟩ := h.split hxy.live
    have hy : y ∈ r := List.mem_of_head? (hseg.pointsOn_iff.mp hxy)
    exact hseg.isSome_of_mem (List.mem_append_right _ (List.mem_cons_of_mem _ hy))
  prev_live x y hxy := by
    obtain ⟨l, r, _, hseg⟩ := h.split hxy.live
    have hy : y ∈ l := List.mem_of_getLast? (hseg.pointsBack_iff.mp hxy)
    exact hseg.isSome_of_mem (List.mem_append_left _ hy)
  next_iff_prev x y := by
    constructor
    · intro hxy
      obtain ⟨l, r, _, hseg⟩ := h.split hxy.live
      obtain ⟨r, rfl⟩ := List.head?_eq_some_iff.mp (hseg.pointsOn_iff.mp hxy)
      rw [List.append_cons] at hseg
      rw [hseg.pointsBack_iff, List.getLast?_concat]
    · intro hyx
      obtain ⟨l, r, _, hseg⟩ := h.split hyx.live
      obtain ⟨l, rfl⟩ := List.getLast?_eq_some_iff.mp (hseg.pointsBack_iff.mp hyx)
      rw [← List.append_cons] at hseg
      rw [hseg.pointsOn_iff, List.head?_cons]
  acyclic x hx := by
    obtain ⟨y, hxy, _⟩ := Relation.TransGen.head'_iff.mp hx
    obtain ⟨l, r, hnd, hseg⟩ := h.split hxy.live
    have hxr : x ∈ r := hseg.mem_of_transGen hx
    exact (List.nodup_cons.mp (List.nodup_append.mp hnd).2.1).1 hxr

end Chained

end Dicon.Framework
