import Mathlib.Data.List.Basic
import Mathlib.Data.List.Nodup
import Mathlib.Logic.Function.Basic
import Mathlib.Tactic.Common

/-!
# Doubly linked chains in a heap

A heap maps addresses to cells with a `prev` and a `next` pointer. `Seg cell p
xs q` says that the cells at `xs`, in this order, form a segment whose first
cell points back to `p` and whose last cell points on to `q`. The two pointer
operations of a doubly linked list are then list operations: linking a cell
after the last one appends it (`Seg.link`), unlinking a cell erases it wherever
it stands (`Seg.unlink`). Cells outside a segment do not matter to it
(`Seg.congr`), which is the frame property that several chains in one heap rely
on.
-/

namespace Dicon.Framework

universe u v w

/-- A cell of a doubly linked list; a null pointer is `none`. -/
structure Link (κ : Type u) (α : Type v) where
  info : α
  prev : Option κ
  next : Option κ
deriving DecidableEq

variable {κ : Type u} {α : Type v}

abbrev Store (κ : Type u) (α : Type v) := κ → Option (Link κ α)

def Seg (cell : Store κ α) : Option κ → List κ → Option κ → Prop
  | _, [], _ => True
  | p, x :: xs, q =>
      ∃ n, cell x = some n ∧ n.prev = p ∧ n.next = xs.head?.or q ∧
        Seg cell (some x) xs q

/-- What the cells at `xs` carry. -/
def infos (cell : Store κ α) (xs : List κ) : List α :=
  xs.filterMap fun x => (cell x).map Link.info

theorem infos_append (cell : Store κ α) (xs ys : List κ) :
    infos cell (xs ++ ys) = infos cell xs ++ infos cell ys :=
  List.filterMap_append

theorem infos_congr {cell cell' : Store κ α} {xs : List κ}
    (h : ∀ x ∈ xs, (cell' x).map Link.info = (cell x).map Link.info) :
    infos cell' xs = infos cell xs :=
  List.filterMap_congr h

theorem infos_singleton {cell : Store κ α} {x : κ} {n : Link κ α} (h : cell x = some n) :
    infos cell [x] = [n.info] := by
  simp [infos, h]

theorem mem_infos {cell : Store κ α} {xs : List κ} {i : α} :
    i ∈ infos cell xs ↔ ∃ x ∈ xs, ∃ n, cell x = some n ∧ n.info = i := by
  simp [infos, List.mem_filterMap]

namespace Seg

theorem append_iff {cell : Store κ α} {p q : Option κ} {l r : List κ} :
    Seg cell p (l ++ r) q ↔
      Seg cell p l (r.head?.or q) ∧ Seg cell (l.getLast?.or p) r q := by
  induction l generalizing p with
  | nil => simp [Seg]
  | cons x l ih =>
      have hlast : (x :: l).getLast?.or p = l.getLast?.or (some x) := by
        rw [List.getLast?_cons]
        cases l.getLast? <;> rfl
      have hhead : (l ++ r).head?.or q = l.head?.or (r.head?.or q) := by
        rw [List.head?_append, Option.or_assoc]
      rw [hlast, List.cons_append]
      simp only [Seg, hhead, ih]
      constructor
      · rintro ⟨n, hn, hp, hq, hl, hr⟩
        exact ⟨⟨n, hn, hp, hq, hl⟩, hr⟩
      · rintro ⟨⟨n, hn, hp, hq, hl⟩, hr⟩
        exact ⟨n, hn, hp, hq, hl, hr⟩

theorem congr {cell cell' : Store κ α} {p q : Option κ} {xs : List κ}
    (h : Seg cell p xs q) (heq : ∀ x ∈ xs, cell' x = cell x) :
    Seg cell' p xs q := by
  induction xs generalizing p with
  | nil => trivial
  | cons x xs ih =>
      obtain ⟨n, hn, hp, hq, hxs⟩ := h
      refine ⟨n, (heq x List.mem_cons_self).trans hn, hp, hq, ?_⟩
      exact ih hxs fun y hy => heq y (List.mem_cons_of_mem _ hy)

theorem isSome_of_mem {cell : Store κ α} {p q : Option κ} {xs : List κ}
    (h : Seg cell p xs q) {x : κ} (hx : x ∈ xs) : (cell x).isSome := by
  induction xs generalizing p with
  | nil => cases hx
  | cons y xs ih =>
      obtain ⟨n, hn, _, _, hxs⟩ := h
      rcases List.mem_cons.mp hx with rfl | hx
      · simp [hn]
      · exact ih hxs hx

theorem length_infos {cell : Store κ α} {p q : Option κ} {xs : List κ}
    (h : Seg cell p xs q) : (infos cell xs).length = xs.length := by
  induction xs generalizing p with
  | nil => rfl
  | cons x xs ih =>
      obtain ⟨n, hn, _, _, hxs⟩ := h
      simp only [infos, List.filterMap_cons, hn, Option.map_some, List.length_cons] at ih ⊢
      rw [ih hxs]

/-- What a segment carries, in its order. -/
theorem getElem?_infos {cell : Store κ α} {p q : Option κ} {xs : List κ}
    (h : Seg cell p xs q) {i : ℕ} {x : κ} (hx : xs[i]? = some x) :
    ∃ n, cell x = some n ∧ (infos cell xs)[i]? = some n.info := by
  induction xs generalizing p i with
  | nil => cases hx
  | cons y xs ih =>
      obtain ⟨n, hn, _, _, hxs⟩ := h
      have hcons : infos cell (y :: xs) = n.info :: infos cell xs := by
        simp [infos, hn]
      rw [hcons]
      cases i with
      | zero =>
          cases hx
          exact ⟨n, hn, rfl⟩
      | succ i => exact ih hxs hx

/-- A cell in the middle points to its two neighbours. -/
theorem cell_of_split {cell : Store κ α} {l r : List κ} {x : κ}
    (h : Seg cell none (l ++ x :: r) none) :
    ∃ n, cell x = some n ∧ n.prev = l.getLast? ∧ n.next = r.head? := by
  obtain ⟨_, n, hn, hp, hq, _⟩ := append_iff.mp h
  exact ⟨n, hn, by simpa using hp, by simpa using hq⟩

end Seg

/-! ## Pointer updates -/

section Updates

variable [DecidableEq κ]

/-- `x->prev = p`, where a null `x` is left alone. -/
def setPrev (cell : Store κ α) (x p : Option κ) : Store κ α :=
  match x with
  | none => cell
  | some x => Function.update cell x ((cell x).map fun n => { n with prev := p })

/-- `x->next = q`, where a null `x` is left alone. -/
def setNext (cell : Store κ α) (x q : Option κ) : Store κ α :=
  match x with
  | none => cell
  | some x => Function.update cell x ((cell x).map fun n => { n with next := q })

def erase (cell : Store κ α) (x : κ) : Store κ α := Function.update cell x none

theorem setPrev_of_ne {cell : Store κ α} {x p : Option κ} {y : κ}
    (h : x ≠ some y) : setPrev cell x p y = cell y := by
  cases x with
  | none => rfl
  | some x => exact Function.update_of_ne (fun e => h (congrArg some e.symm)) _ _

theorem setNext_of_ne {cell : Store κ α} {x q : Option κ} {y : κ}
    (h : x ≠ some y) : setNext cell x q y = cell y := by
  cases x with
  | none => rfl
  | some x => exact Function.update_of_ne (fun e => h (congrArg some e.symm)) _ _

theorem erase_of_ne {cell : Store κ α} {x y : κ} (h : y ≠ x) :
    erase cell x y = cell y :=
  Function.update_of_ne h _ _

@[simp] theorem erase_self (cell : Store κ α) (x : κ) : erase cell x x = none :=
  Function.update_self _ _ _

/-- Pointer updates leave what a cell carries alone. -/
@[simp] theorem setPrev_info (cell : Store κ α) (x p : Option κ) (y : κ) :
    (setPrev cell x p y).map Link.info = (cell y).map Link.info := by
  by_cases h : x = some y
  · subst h
    cases hc : cell y <;> simp [setPrev, hc]
  · rw [setPrev_of_ne h]

@[simp] theorem setNext_info (cell : Store κ α) (x q : Option κ) (y : κ) :
    (setNext cell x q y).map Link.info = (cell y).map Link.info := by
  by_cases h : x = some y
  · subst h
    cases hc : cell y <;> simp [setNext, hc]
  · rw [setNext_of_ne h]

@[simp] theorem setPrev_isSome (cell : Store κ α) (x p : Option κ) (y : κ) :
    (setPrev cell x p y).isSome = (cell y).isSome := by
  rw [← Option.isSome_map (f := Link.info), setPrev_info, Option.isSome_map]

@[simp] theorem setNext_isSome (cell : Store κ α) (x q : Option κ) (y : κ) :
    (setNext cell x q y).isSome = (cell y).isSome := by
  rw [← Option.isSome_map (f := Link.info), setNext_info, Option.isSome_map]

/-! ## Other contents -/

/-- The same cells, carrying something else. -/
def mapInfo {β : Type w} (f : α → β) (cell : Store κ α) : Store κ β := fun x =>
  (cell x).map fun n => ⟨f n.info, n.prev, n.next⟩

/-- No pointer operation depends on what the cells carry. -/
theorem setPrev_mapInfo {β : Type w} (f : α → β) (cell : Store κ α) (x p : Option κ) :
    setPrev (mapInfo f cell) x p = mapInfo f (setPrev cell x p) := by
  cases x with
  | none => rfl
  | some x =>
      funext y
      by_cases hy : y = x
      · subst hy
        simp [setPrev, mapInfo, Function.comp_def]
      · simp [setPrev, mapInfo, Function.update_of_ne hy]

theorem setNext_mapInfo {β : Type w} (f : α → β) (cell : Store κ α) (x q : Option κ) :
    setNext (mapInfo f cell) x q = mapInfo f (setNext cell x q) := by
  cases x with
  | none => rfl
  | some x =>
      funext y
      by_cases hy : y = x
      · subst hy
        simp [setNext, mapInfo, Function.comp_def]
      · simp [setNext, mapInfo, Function.update_of_ne hy]

theorem erase_mapInfo {β : Type w} (f : α → β) (cell : Store κ α) (x : κ) :
    erase (mapInfo f cell) x = mapInfo f (erase cell x) := by
  funext y
  by_cases hy : y = x
  · subst hy
    simp [mapInfo]
  · simp [mapInfo, erase_of_ne hy]

theorem update_mapInfo {β : Type w} (f : α → β) (cell : Store κ α) (x : κ) (n : Link κ α) :
    Function.update (mapInfo f cell) x (some ⟨f n.info, n.prev, n.next⟩) =
      mapInfo f (Function.update cell x (some n)) := by
  funext y
  by_cases hy : y = x
  · subst hy
    simp [mapInfo]
  · simp [mapInfo, Function.update_of_ne hy]

namespace Seg

theorem setPrev_head {cell : Store κ α} {p p' q : Option κ} {xs : List κ}
    (h : Seg cell p xs q) (hnd : xs.Nodup) :
    Seg (setPrev cell xs.head? p') p' xs q := by
  cases xs with
  | nil => trivial
  | cons x xs =>
      obtain ⟨n, hn, _, hq, hxs⟩ := h
      refine ⟨{ n with prev := p' }, by simp [setPrev, hn], rfl, hq, ?_⟩
      apply hxs.congr
      intro y hy
      have hxy : x ≠ y := fun e => (List.nodup_cons.mp hnd).1 (e ▸ hy)
      exact setPrev_of_ne (by simpa using hxy)

theorem setNext_last {cell : Store κ α} {p q q' : Option κ} {xs : List κ}
    (h : Seg cell p xs q) (hnd : xs.Nodup) :
    Seg (setNext cell xs.getLast? q') p xs q' := by
  rcases List.eq_nil_or_concat xs with rfl | ⟨l, x, rfl⟩
  · trivial
  · rw [List.concat_eq_append] at *
    obtain ⟨hl, n, hn, hp, _, _⟩ := append_iff.mp h
    rw [List.getLast?_append, List.getLast?_singleton]
    refine append_iff.mpr ⟨?_, { n with next := q' }, by simp [setNext, hn], hp, rfl, trivial⟩
    apply hl.congr
    intro y hy
    have hxy : x ≠ y := by
      rintro rfl
      exact (List.nodup_append.mp hnd).2.2 x hy x (by simp) rfl
    exact setNext_of_ne (by simpa using hxy)

/-- Linking a fresh cell after the last one. -/
theorem link {cell : Store κ α} {xs : List κ} {a : κ} {n : Link κ α}
    (h : Seg cell none xs none) (hnd : xs.Nodup) (ha : a ∉ xs)
    (hcell : cell a = some n) (hp : n.prev = xs.getLast?) (hn : n.next = none) :
    Seg (setNext cell xs.getLast? (some a)) none (xs ++ [a]) none := by
  refine append_iff.mpr ⟨setNext_last h hnd, n, ?_, by simpa using hp, by simpa using hn, trivial⟩
  rw [setNext_of_ne, hcell]
  intro hlast
  exact ha (List.mem_of_getLast? hlast)

/-- The heap after `x` is taken out between `l` and `r`. -/
def unlinked (cell : Store κ α) (l : List κ) (x : κ) (r : List κ) : Store κ α :=
  erase (setNext (setPrev cell r.head? l.getLast?) l.getLast? r.head?) x

/-- Unlinking a cell, wherever it stands in its chain. -/
theorem unlink {cell : Store κ α} {l r : List κ} {x : κ}
    (h : Seg cell none (l ++ x :: r) none) (hnd : (l ++ x :: r).Nodup) :
    Seg (unlinked cell l x r) none (l ++ r) none := by
  obtain ⟨hndl, hndxr, hdisj⟩ := List.nodup_append.mp hnd
  obtain ⟨hxr, hndr⟩ := List.nodup_cons.mp hndxr
  have hxl : x ∉ l := fun hx => hdisj x hx x List.mem_cons_self rfl
  obtain ⟨hl, n, hn, hp, hq, hr⟩ := append_iff.mp h
  -- the right part: its first cell now points back to the last of `l`
  have hr' : Seg (setPrev cell r.head? l.getLast?) l.getLast? r none :=
    setPrev_head hr hndr
  have hl' : Seg (setPrev cell r.head? l.getLast?) none l (some x) := by
    apply congr (by simpa using hl)
    intro y hy
    apply setPrev_of_ne
    intro hhead
    exact hdisj y hy y (List.mem_cons_of_mem _ (List.mem_of_head? hhead)) rfl
  -- the left part: its last cell now points on to the first of `r`
  have hl'' : Seg (setNext (setPrev cell r.head? l.getLast?) l.getLast? r.head?)
      none l r.head? := setNext_last hl' hndl
  have hr'' : Seg (setNext (setPrev cell r.head? l.getLast?) l.getLast? r.head?)
      l.getLast? r none := by
    apply hr'.congr
    intro y hy
    apply setNext_of_ne
    intro hlast
    exact hdisj y (List.mem_of_getLast? hlast) y (List.mem_cons_of_mem _ hy) rfl
  have hboth : Seg (setNext (setPrev cell r.head? l.getLast?) l.getLast? r.head?)
      none (l ++ r) none :=
    append_iff.mpr ⟨by simpa using hl'', by simpa using hr''⟩
  apply hboth.congr
  intro y hy
  apply erase_of_ne
  rintro rfl
  rcases List.mem_append.mp hy with hy | hy
  · exact hxl hy
  · exact hxr hy

end Seg

end Updates

end Dicon.Framework
