import Dicon.Framework.LinkedChain

/-!
# The main server's registry (`main-server/src/main.c`)

`NODES_INFO` is the head of a doubly linked list of malloc'd nodes. The three
functions below walk and edit it pointer by pointer, as the source does; a null
or dangling dereference, or a walk that never ends, is `none`.

`Shape` describes a heap in full: the chain that `NODES_INFO` reaches, and the
chains that it does not reach although their nodes are still allocated.
`remove_info` on the first node of a chain clears `NODES_INFO`
(`removeInfo_eq`), so the second kind is not always empty.
-/

namespace Dicon.MainServer

open Dicon.Framework

/-- Non-null addresses. -/
abbrev Addr := ℕ

/-- `linked_list_node_info`; `α` is what `info` holds. -/
abbrev LinkedListNodeInfo (α : Type) := Link Addr α

/-- The nodes malloc'd by `append_info` and not yet freed, their number, and
`NODES_INFO`. -/
structure Registry (α : Type) where
  cell : Store Addr α
  live : ℕ
  nodesInfo : Option Addr

namespace Registry

variable {α : Type}

def empty : Registry α := ⟨fun _ => none, 0, none⟩

/-- `while(curr_node->next != NULL) curr_node = curr_node->next;`. A walk along
more nodes than are allocated has come round to one it left. -/
def lastNode (cell : Store Addr α) : ℕ → Addr → Option Addr
  | 0, _ => none
  | fuel + 1, currNode => do
      let n ← cell currNode
      match n.next with
      | none => some currNode
      | some next => lastNode cell fuel next

/-- `append_info`; `newNode` is the block that malloc returned. -/
def appendInfo (r : Registry α) (info : α) (newNode : Addr) :
    Option (Registry α × Addr) :=
  let cell := Function.update r.cell newNode (some ⟨info, none, none⟩)
  match r.nodesInfo with
  | some first => do
      let currNode ← lastNode cell (r.live + 1) first
      let cell := setNext cell (some currNode) (some newNode)
      let cell := setPrev cell (some newNode) (some currNode)
      some (⟨cell, r.live + 1, r.nodesInfo⟩, newNode)
  | none =>
      let cell := setPrev cell (some newNode) none
      some (⟨cell, r.live + 1, some newNode⟩, newNode)

/-- `if(to_remove->next != NULL) to_remove->next->prev = to_remove->prev;`. -/
def relinkNext (cell : Store Addr α) (toRemove : LinkedListNodeInfo α) :
    Option (Store Addr α) :=
  match toRemove.next with
  | none => some cell
  | some next => do
      let _ ← cell next
      some (setPrev cell (some next) toRemove.prev)

/-- `remove_info`: the node is unlinked on both sides and freed. Where it has no
predecessor, the source stores `NULL` into `*first`. -/
def removeInfo (r : Registry α) (toRemove : Addr) : Option (Registry α) := do
  let n ← r.cell toRemove
  let cell ← relinkNext r.cell n
  let n ← cell toRemove
  match n.prev with
  | some prev => do
      let _ ← cell prev
      some ⟨erase (setNext cell (some prev) n.next) toRemove, r.live - 1, r.nodesInfo⟩
  -- `*first = NULL`, whether or not there is a next node
  | none => some ⟨erase cell toRemove, r.live - 1, none⟩

/-- `for(;curr_node->next != NULL; len++) curr_node = curr_node->next;`. -/
def countNodes (cell : Store Addr α) : ℕ → Addr → ℕ → Option ℕ
  | 0, _, _ => none
  | fuel + 1, currNode, len => do
      let n ← cell currNode
      match n.next with
      | none => some len
      | some next => countNodes cell fuel next (len + 1)

/-- The copy loop of `handle_get_info`, with `len - i` iterations to go. -/
def copyNodes (cell : Store Addr α) : ℕ → Option Addr → Option (List α)
  | 0, _ => some []
  -- the list ends before `len` nodes
  | _ + 1, none => none
  | k + 1, some currNode => do
      let n ← cell currNode
      let rest ← copyNodes cell k n.next
      some (n.info :: rest)

/-- Both loops of `handle_get_info`: the entries it puts into the reply. -/
def collectInfo (r : Registry α) : Option (List α) := do
  let len ← match r.nodesInfo with
    | none => some 0
    | some first => countNodes r.cell r.live first 1
  copyNodes r.cell len r.nodesInfo

/-! ## The shape of the heap -/

/-- `vis` is the chain that `NODES_INFO` reaches, `orph` are the chains of
allocated nodes that it does not reach. -/
structure Shape (r : Registry α) (vis : List Addr) (orph : List (List Addr)) : Prop where
  first : r.nodesInfo = vis.head?
  visible : Seg r.cell none vis none
  hidden : ∀ c ∈ orph, Seg r.cell none c none
  nodup : (vis ++ orph.flatten).Nodup
  live : ∀ a, (r.cell a).isSome ↔ a ∈ vis ++ orph.flatten
  count : r.live = (vis ++ orph.flatten).length

theorem shape_empty : Shape (empty : Registry α) [] [] where
  first := rfl
  visible := trivial
  hidden := by simp
  nodup := by simp
  live := by simp [empty]
  count := rfl

/-! ## The walks -/

theorem lastNode_eq {cell : Store Addr α} {p : Option Addr} {x : Addr} {xs : List Addr}
    {fuel : ℕ} (h : Seg cell p (x :: xs) none) (hf : xs.length < fuel) :
    lastNode cell fuel x = (x :: xs).getLast? := by
  induction xs generalizing p x fuel with
  | nil =>
      obtain ⟨n, hn, _, hnext, _⟩ := h
      obtain ⟨fuel, rfl⟩ : ∃ k, fuel = k + 1 := ⟨fuel - 1, by simp at hf; omega⟩
      simp only [List.head?_nil, Option.none_or] at hnext
      simp [lastNode, hn, hnext]
  | cons y xs ih =>
      obtain ⟨n, hn, _, hnext, hxs⟩ := h
      obtain ⟨fuel, rfl⟩ : ∃ k, fuel = k + 1 := ⟨fuel - 1, by simp at hf; omega⟩
      simp only [List.head?_cons, Option.some_or] at hnext
      have hrec : lastNode cell fuel y = (y :: xs).getLast? := ih hxs (by simpa using hf)
      simp only [lastNode, hn, hnext, Option.bind_eq_bind, Option.bind_some, hrec]
      rw [List.getLast?_cons_cons]

theorem countNodes_eq {cell : Store Addr α} {p : Option Addr} {x : Addr} {xs : List Addr}
    {fuel len : ℕ} (h : Seg cell p (x :: xs) none) (hf : xs.length < fuel) :
    countNodes cell fuel x len = some (len + xs.length) := by
  induction xs generalizing p x fuel len with
  | nil =>
      obtain ⟨n, hn, _, hnext, _⟩ := h
      obtain ⟨fuel, rfl⟩ : ∃ k, fuel = k + 1 := ⟨fuel - 1, by simp at hf; omega⟩
      simp only [List.head?_nil, Option.none_or] at hnext
      simp [countNodes, hn, hnext]
  | cons y xs ih =>
      obtain ⟨n, hn, _, hnext, hxs⟩ := h
      obtain ⟨fuel, rfl⟩ : ∃ k, fuel = k + 1 := ⟨fuel - 1, by simp at hf; omega⟩
      simp only [List.head?_cons, Option.some_or] at hnext
      have hrec : countNodes cell fuel y (len + 1) = some (len + 1 + xs.length) :=
        ih hxs (by simpa using hf)
      simp only [countNodes, hn, hnext, Option.bind_eq_bind, Option.bind_some, hrec]
      simp only [List.length_cons]
      congr 1
      omega

theorem copyNodes_eq {cell : Store Addr α} {p : Option Addr} {xs : List Addr}
    (h : Seg cell p xs none) :
    copyNodes cell xs.length xs.head? = some (infos cell xs) := by
  induction xs generalizing p with
  | nil => rfl
  | cons x xs ih =>
      obtain ⟨n, hn, _, hnext, hxs⟩ := h
      rw [Option.or_none] at hnext
      have hrec := ih hxs
      simp only [List.length_cons, List.head?_cons, copyNodes, hn, hnext,
        Option.bind_eq_bind, Option.bind_some, hrec]
      simp [infos, hn]

namespace Shape

variable {r : Registry α} {vis : List Addr} {orph : List (List Addr)}

theorem vis_nodup (h : Shape r vis orph) : vis.Nodup := (List.nodup_append.mp h.nodup).1

theorem vis_length_le (h : Shape r vis orph) : vis.length ≤ r.live := by
  rw [h.count, List.length_append]
  omega

/-- The reply of `handle_get_info` lists the chain that `NODES_INFO` reaches. -/
theorem collectInfo_eq (h : Shape r vis orph) :
    r.collectInfo = some (infos r.cell vis) := by
  have hlen := h.vis_length_le
  unfold collectInfo
  rw [h.first]
  cases vis with
  | nil => rfl
  | cons x xs =>
      rw [List.length_cons] at hlen
      have hcount : countNodes r.cell r.live x 1 = some (1 + xs.length) :=
        countNodes_eq h.visible (Nat.lt_of_succ_le hlen)
      have hlist : 1 + xs.length = (x :: xs).length := by
        rw [List.length_cons, Nat.add_comm]
      simp only [List.head?_cons, hcount, hlist, Option.bind_eq_bind, Option.bind_some]
      exact copyNodes_eq h.visible

/-! ## `append_info` -/

/-- The heap after `append_info` put `a` behind the last visible node. -/
def appended (r : Registry α) (vis : List Addr) (info : α) (a : Addr) : Store Addr α :=
  setNext (Function.update r.cell a (some ⟨info, vis.getLast?, none⟩)) vis.getLast? (some a)

theorem appended_self {info : α} {a : Addr} (ha : a ∉ vis) :
    appended r vis info a a = some ⟨info, vis.getLast?, none⟩ := by
  rw [appended, setNext_of_ne, Function.update_self]
  intro hlast
  exact ha (List.mem_of_getLast? hlast)

theorem appended_info {info : α} {a y : Addr} (hy : y ≠ a) :
    (appended r vis info a y).map Link.info = (r.cell y).map Link.info := by
  rw [appended, setNext_info, Function.update_of_ne hy]

theorem appended_isSome {info : α} {a : Addr} (ha : a ∉ vis) (y : Addr) :
    (appended r vis info a y).isSome ↔ y = a ∨ (r.cell y).isSome := by
  by_cases hy : y = a
  · subst hy
    simp [appended_self ha]
  · rw [appended, setNext_isSome, Function.update_of_ne hy]
    simp [hy]

theorem not_mem_of_none (h : Shape r vis orph) {a : Addr} (ha : r.cell a = none) :
    a ∉ vis ++ orph.flatten := by
  rw [← h.live a, ha]
  simp

theorem appendInfo_eq (h : Shape r vis orph) {info : α} {a : Addr}
    (ha : r.cell a = none) :
    r.appendInfo info a =
      some (⟨appended r vis info a, r.live + 1, (vis ++ [a]).head?⟩, a) := by
  have hnot := h.not_mem_of_none ha
  have hlen := h.vis_length_le
  unfold appendInfo
  rw [h.first]
  cases vis with
  | nil =>
      have hcell : setPrev (Function.update r.cell a (some ⟨info, none, none⟩)) (some a) none =
          appended r [] info a := by
        simp [appended, setPrev, setNext]
      simp [hcell]
  | cons x xs =>
      have hseg : Seg (Function.update r.cell a (some ⟨info, none, none⟩)) none (x :: xs) none := by
        apply h.visible.congr
        intro y hy
        apply Function.update_of_ne
        rintro rfl
        exact hnot (List.mem_append_left _ hy)
      have hfuel : xs.length < r.live + 1 := by
        rw [List.length_cons] at hlen
        omega
      have hlast := lastNode_eq hseg hfuel
      obtain ⟨z, hz⟩ : ∃ z, (x :: xs).getLast? = some z := ⟨_, List.getLast?_cons⟩
      have hza : z ≠ a := by
        rintro rfl
        exact hnot (List.mem_append_left _ (List.mem_of_getLast? hz))
      -- the two stores hit different nodes, so their order does not matter
      have hcell : setPrev (setNext (Function.update r.cell a (some ⟨info, none, none⟩))
          (some z) (some a)) (some a) (some z) = appended r (x :: xs) info a := by
        funext y
        rw [appended, hz]
        by_cases hya : y = a
        · subst hya
          simp [setPrev, setNext, hza.symm]
        · rw [setPrev_of_ne (by simpa using Ne.symm hya)]
          by_cases hyz : y = z
          · subst hyz
            simp [setNext, hya]
          · rw [setNext_of_ne (by simpa using Ne.symm hyz), Function.update_of_ne hya,
              setNext_of_ne (by simpa using Ne.symm hyz), Function.update_of_ne hya]
      simp only [List.head?_cons, hlast, hz, Option.bind_eq_bind, Option.bind_some, hcell,
        List.cons_append]

/-- `append_info` adds its node at the end of the visible chain and leaves the
others alone. -/
theorem append (h : Shape r vis orph) {info : α} {a : Addr} (ha : r.cell a = none) :
    Shape ⟨appended r vis info a, r.live + 1, (vis ++ [a]).head?⟩ (vis ++ [a]) orph := by
  have hnot := h.not_mem_of_none ha
  have havis : a ∉ vis := fun hm => hnot (List.mem_append_left _ hm)
  have haorph : a ∉ orph.flatten := fun hm => hnot (List.mem_append_right _ hm)
  have hperm : (vis ++ [a] ++ orph.flatten).Perm (a :: (vis ++ orph.flatten)) := by
    rw [List.append_assoc, List.singleton_append]
    exact List.perm_middle
  refine ⟨rfl, ?_, ?_, ?_, ?_, ?_⟩
  · have hseg : Seg (Function.update r.cell a (some ⟨info, vis.getLast?, none⟩)) none vis none := by
      apply h.visible.congr
      intro y hy
      apply Function.update_of_ne
      rintro rfl
      exact havis hy
    exact hseg.link h.vis_nodup havis (Function.update_self _ _ _) rfl rfl
  · intro c hc
    apply (h.hidden c hc).congr
    intro y hy
    have hyorph : y ∈ orph.flatten := List.mem_flatten.mpr ⟨c, hc, hy⟩
    have hya : y ≠ a := fun e => haorph (e ▸ hyorph)
    -- the last visible node, whose `next` is set, is in no hidden chain
    have hyvis : y ∉ vis := fun hv =>
      (List.nodup_append.mp h.nodup).2.2 y hv y hyorph rfl
    show appended r vis info a y = r.cell y
    rw [appended, setNext_of_ne, Function.update_of_ne hya]
    intro hlast
    exact hyvis (List.mem_of_getLast? hlast)
  · exact hperm.nodup_iff.mpr (List.nodup_cons.mpr ⟨hnot, h.nodup⟩)
  · intro y
    rw [hperm.mem_iff, List.mem_cons, ← h.live y]
    exact appended_isSome havis y
  · have hlen := hperm.length_eq
    rw [hlen, List.length_cons, ← h.count]

end Shape

/-! ## `remove_info` -/

/-- What `remove_info` does to any chain: the node goes, its neighbours close
up, and `NODES_INFO` is cleared when the node had no predecessor. -/
theorem removeInfo_eq {r : Registry α} {l c : List Addr} {x : Addr}
    (h : Seg r.cell none (l ++ x :: c) none) (hnd : (l ++ x :: c).Nodup) :
    r.removeInfo x =
      some ⟨Seg.unlinked r.cell l x c, r.live - 1,
        if l = [] then none else r.nodesInfo⟩ := by
  obtain ⟨_, hxc, hdisj⟩ := List.nodup_append.mp hnd
  have hx : x ∉ c := (List.nodup_cons.mp hxc).1
  have hnext : c.head? ≠ some x := fun e => hx (List.mem_of_head? e)
  obtain ⟨n, hn, hp, hq⟩ := h.cell_of_split
  -- both branches of the first `if` leave the node itself as it was
  have hfirst : relinkNext r.cell n = some (setPrev r.cell c.head? l.getLast?) := by
    unfold relinkNext
    rw [hq, hp]
    cases c with
    | nil => rfl
    | cons y c =>
        have hy : (r.cell y).isSome := h.isSome_of_mem (by simp)
        obtain ⟨m, hm⟩ := Option.isSome_iff_exists.mp hy
        simp [hm]
  have hself : setPrev r.cell c.head? l.getLast? x = some n := by
    rw [setPrev_of_ne hnext, hn]
  unfold removeInfo
  simp only [hn, hfirst, hself, hp, hq, Option.bind_eq_bind, Option.bind_some]
  rcases List.eq_nil_or_concat l with rfl | ⟨l, z, rfl⟩
  · rfl
  · have hz : (setPrev r.cell c.head? (l.concat z).getLast? z).isSome := by
      rw [setPrev_isSome]
      exact h.isSome_of_mem (by simp)
    obtain ⟨m, hm⟩ := Option.isSome_iff_exists.mp hz
    rw [List.concat_eq_append, List.getLast?_concat] at *
    simp [hm, Seg.unlinked]

theorem unlinked_info {r : Registry α} {l c : List Addr} {x y : Addr} (hy : y ≠ x) :
    (Seg.unlinked r.cell l x c y).map Link.info = (r.cell y).map Link.info := by
  rw [Seg.unlinked, erase_of_ne hy, setNext_info, setPrev_info]

theorem unlinked_isSome {r : Registry α} {l c : List Addr} {x : Addr} (y : Addr) :
    (Seg.unlinked r.cell l x c y).isSome ↔ y ≠ x ∧ (r.cell y).isSome := by
  by_cases hy : y = x
  · subst hy
    simp [Seg.unlinked]
  · rw [Seg.unlinked, erase_of_ne hy, setNext_isSome, setPrev_isSome]
    simp [hy]

/-- A chain apart from the one that lost a node stays as it is. -/
theorem unlinked_frame {r : Registry α} {l c d : List Addr} {x : Addr}
    (h : Seg r.cell none d none) (hdisj : ∀ y ∈ d, y ∉ l ++ x :: c) :
    Seg (Seg.unlinked r.cell l x c) none d none := by
  apply h.congr
  intro y hy
  have hnot := hdisj y hy
  have hyx : y ≠ x := by
    rintro rfl
    exact hnot (by simp)
  rw [Seg.unlinked, erase_of_ne hyx, setNext_of_ne, setPrev_of_ne]
  · intro hhead
    exact hnot (List.mem_append_right _ (List.mem_cons_of_mem _ (List.mem_of_head? hhead)))
  · intro hlast
    exact hnot (List.mem_append_left _ (List.mem_of_getLast? hlast))

/-- Bookkeeping of a removal: the allocated nodes are the old ones without `x`. -/
theorem remove_of_perm {r : Registry α} (r' : Registry α) {old new l c : List Addr} {x : Addr}
    (hold : old.Nodup) (hlive : ∀ a, (r.cell a).isSome ↔ a ∈ old) (hcount : r.live = old.length)
    (hperm : old.Perm (x :: new)) (hcell : r'.cell = Seg.unlinked r.cell l x c)
    (hlive' : r'.live = r.live - 1) :
    new.Nodup ∧ (∀ a, (r'.cell a).isSome ↔ a ∈ new) ∧ r'.live = new.length := by
  have hnd := hperm.nodup_iff.mp hold
  obtain ⟨hx, hnew⟩ := List.nodup_cons.mp hnd
  refine ⟨hnew, ?_, ?_⟩
  · intro a
    rw [hcell, unlinked_isSome, hlive a, hperm.mem_iff, List.mem_cons]
    constructor
    · rintro ⟨hne, rfl | ha⟩
      · exact absurd rfl hne
      · exact ha
    · intro ha
      refine ⟨?_, Or.inr ha⟩
      rintro rfl
      exact hx ha
  · rw [hlive', hcount, hperm.length_eq, List.length_cons]
    rfl

namespace Shape

variable {r : Registry α} {orph : List (List Addr)}

/-- Removing a visible node that has a predecessor. -/
theorem remove_inner {l c : List Addr} {x : Addr} (h : Shape r (l ++ x :: c) orph)
    (hl : l ≠ []) :
    ∃ r', r.removeInfo x = some r' ∧ r'.cell = Seg.unlinked r.cell l x c ∧
      Shape r' (l ++ c) orph := by
  have hnd := h.vis_nodup
  refine ⟨_, removeInfo_eq h.visible hnd, rfl, ?_⟩
  have hperm : (l ++ x :: c ++ orph.flatten).Perm (x :: (l ++ c ++ orph.flatten)) := by
    rw [List.append_assoc, List.cons_append, List.append_assoc]
    exact List.perm_middle
  obtain ⟨hnd', hlive, hcount⟩ := remove_of_perm ⟨_, _, _⟩ h.nodup h.live h.count
    hperm rfl rfl
  refine ⟨?_, h.visible.unlink hnd, ?_, hnd', hlive, hcount⟩
  · rw [if_neg hl, h.first]
    cases l with
    | nil => exact absurd rfl hl
    | cons y l => rfl
  · intro d hd
    apply unlinked_frame (h.hidden d hd)
    intro y hy hmem
    exact (List.nodup_append.mp h.nodup).2.2 y hmem y (List.mem_flatten.mpr ⟨d, hd, hy⟩) rfl

/-- Removing the first visible node hides every node behind it. -/
theorem remove_first {c : List Addr} {x : Addr} (h : Shape r (x :: c) orph) :
    ∃ r', r.removeInfo x = some r' ∧ r'.cell = Seg.unlinked r.cell [] x c ∧
      Shape r' [] (c :: orph) := by
  have hnd := h.vis_nodup
  refine ⟨_, removeInfo_eq (l := []) h.visible hnd, rfl, ?_⟩
  have hperm : (x :: c ++ orph.flatten).Perm (x :: ([] ++ (c :: orph).flatten)) := by
    simp
  obtain ⟨hnd', hlive, hcount⟩ := remove_of_perm ⟨_, _, _⟩ h.nodup h.live h.count
    hperm rfl rfl
  refine ⟨rfl, trivial, ?_, hnd', hlive, hcount⟩
  intro d hd
  rcases List.mem_cons.mp hd with rfl | hd
  · exact h.visible.unlink (l := []) hnd
  · apply unlinked_frame (l := []) (h.hidden d hd)
    intro y hy hmem
    exact (List.nodup_append.mp h.nodup).2.2 y hmem y (List.mem_flatten.mpr ⟨d, hd, hy⟩) rfl

/-- A hidden chain shares no node with the others. -/
theorem hidden_apart {vis chain : List Addr} {o o' : List (List Addr)}
    (h : Shape r vis (o ++ chain :: o')) {d : List Addr} (hd : d = vis ∨ d ∈ o ∨ d ∈ o') :
    ∀ y ∈ d, y ∉ chain := by
  have hall : (vis ++ (o.flatten ++ (chain ++ o'.flatten))).Nodup := by
    simpa using h.nodup
  obtain ⟨_, hrest, hvis⟩ := List.nodup_append.mp hall
  obtain ⟨_, hrest', ho⟩ := List.nodup_append.mp hrest
  obtain ⟨_, _, ho'⟩ := List.nodup_append.mp hrest'
  intro y hy hyc
  rcases hd with rfl | hd | hd
  · exact hvis y hy y (List.mem_append_right _ (List.mem_append_left _ hyc)) rfl
  · exact ho y (List.mem_flatten.mpr ⟨d, hd, hy⟩) y (List.mem_append_left _ hyc) rfl
  · exact ho' y hyc y (List.mem_flatten.mpr ⟨d, hd, hy⟩) rfl

theorem hidden_perm (vis l c : List Addr) (x : Addr) (o o' : List (List Addr)) :
    (vis ++ (o ++ (l ++ x :: c) :: o').flatten).Perm
      (x :: (vis ++ (o ++ (l ++ c) :: o').flatten)) := by
  have hmid : vis ++ (o ++ (l ++ x :: c) :: o').flatten =
      (vis ++ o.flatten ++ l) ++ x :: (c ++ o'.flatten) := by
    simp
  have hmid' : vis ++ (o ++ (l ++ c) :: o').flatten =
      (vis ++ o.flatten ++ l) ++ (c ++ o'.flatten) := by
    simp
  rw [hmid, hmid']
  exact List.perm_middle

/-- Removing a node that `NODES_INFO` does not reach: the first one of its chain
takes the visible chain out of reach too. -/
theorem remove_hidden {vis l c : List Addr} {x : Addr} {o o' : List (List Addr)}
    (h : Shape r vis (o ++ (l ++ x :: c) :: o')) :
    ∃ r', r.removeInfo x = some r' ∧ r'.cell = Seg.unlinked r.cell l x c ∧
      if l = [] then Shape r' [] (vis :: o ++ c :: o')
      else Shape r' vis (o ++ (l ++ c) :: o') := by
  have hmem : l ++ x :: c ∈ o ++ (l ++ x :: c) :: o' := by simp
  have hseg := h.hidden _ hmem
  have hflat := (List.nodup_append.mp h.nodup).2.1
  have hnd : (l ++ x :: c).Nodup := (List.nodup_flatten.mp hflat).1 _ hmem
  have hvis' : Seg (Seg.unlinked r.cell l x c) none vis none :=
    unlinked_frame h.visible (h.hidden_apart (Or.inl rfl))
  have hothers : ∀ d ∈ o ++ (l ++ c) :: o', Seg (Seg.unlinked r.cell l x c) none d none := by
    intro d hd
    rcases List.mem_append.mp hd with hd | hd
    · exact unlinked_frame (h.hidden d (List.mem_append_left _ hd))
        (h.hidden_apart (Or.inr (Or.inl hd)))
    · rcases List.mem_cons.mp hd with rfl | hd
      · exact hseg.unlink hnd
      · exact unlinked_frame (h.hidden d (by simp [hd])) (h.hidden_apart (Or.inr (Or.inr hd)))
  refine ⟨_, removeInfo_eq hseg hnd, rfl, ?_⟩
  have hperm := hidden_perm vis l c x o o'
  by_cases hl : l = []
  · subst hl
    rw [if_pos rfl]
    have hsame : (vis ++ (o ++ ([] ++ c) :: o').flatten) =
        ([] ++ (vis :: o ++ c :: o').flatten) := by
      simp
    rw [hsame] at hperm
    obtain ⟨hnd', hlive, hcount⟩ := remove_of_perm ⟨_, _, _⟩ h.nodup h.live h.count
      hperm rfl rfl
    refine ⟨rfl, trivial, ?_, hnd', hlive, hcount⟩
    intro d hd
    rcases List.mem_cons.mp hd with rfl | hd
    · exact hvis'
    · exact hothers d hd
  · rw [if_neg hl]
    obtain ⟨hnd', hlive, hcount⟩ := remove_of_perm ⟨_, _, _⟩ h.nodup h.live h.count
      hperm rfl rfl
    refine ⟨?_, hvis', hothers, hnd', hlive, hcount⟩
    rw [if_neg hl, h.first]

/-- Any allocated node can be removed, and the heap keeps a shape. -/
theorem remove {vis : List Addr} {x : Addr} (h : Shape r vis orph)
    (hx : (r.cell x).isSome) :
    ∃ r' vis' orph', r.removeInfo x = some r' ∧ Shape r' vis' orph' ∧ r'.cell x = none ∧
      ∀ y, y ≠ x → (r'.cell y).map Link.info = (r.cell y).map Link.info := by
  rcases List.mem_append.mp ((h.live x).mp hx) with hvis | horph
  · obtain ⟨l, c, rfl⟩ := List.append_of_mem hvis
    by_cases hl : l = []
    · subst hl
      obtain ⟨r', hrem, hcell, hshape⟩ := h.remove_first
      exact ⟨r', _, _, hrem, hshape, by simp [hcell, Seg.unlinked],
        fun y hy => by rw [hcell, unlinked_info hy]⟩
    · obtain ⟨r', hrem, hcell, hshape⟩ := h.remove_inner hl
      exact ⟨r', _, _, hrem, hshape, by simp [hcell, Seg.unlinked],
        fun y hy => by rw [hcell, unlinked_info hy]⟩
  · obtain ⟨d, hd, hxd⟩ := List.mem_flatten.mp horph
    obtain ⟨o, o', rfl⟩ := List.append_of_mem hd
    obtain ⟨l, c, rfl⟩ := List.append_of_mem hxd
    obtain ⟨r', hrem, hcell, hshape⟩ := h.remove_hidden
    have hself : r'.cell x = none := by simp [hcell, Seg.unlinked]
    have hinfo : ∀ y, y ≠ x → (r'.cell y).map Link.info = (r.cell y).map Link.info :=
      fun y hy => by rw [hcell, unlinked_info hy]
    split at hshape
    · exact ⟨r', _, _, hrem, hshape, hself, hinfo⟩
    · exact ⟨r', _, _, hrem, hshape, hself, hinfo⟩

end Shape

end Registry

end Dicon.MainServer
