import Dicon.Framework.Transition
import Dicon.Framework.WellLinked
import Dicon.MainServer.Invariant
import Mathlib.Data.Finset.Erase
import Mathlib.Data.Finset.Insert

/-!
# The pointers of the registry

A handler keeps the pointer that `append_info` gave it and removes that node when
its connection ends, whatever has become of the list head by then. `listCalls`
are all sequences of such calls. A node that somebody still holds stands in some
chain (`Registry.Shape`), and so the pointers of every node that is allocated are
sound, not only of those that `*first` reaches (`list_calls_well_linked`). The
registry of the main server is such a list (`registry_well_linked`).
-/

namespace Dicon.MainServer

open Dicon.Framework Registry

/-- A call on the list; `newNode` is the block that malloc returned. -/
inductive ListCall (α : Type)
  | append (info : α) (newNode : Addr)
  | remove (toRemove : Addr)

/-- A list head, and the nodes that `append_info` has returned and `remove_info`
has not been called with since. -/
structure ListHead (α : Type) where
  registry : Registry α
  held : Finset Addr

namespace ListHead

variable {α : Type}

/-- One call; `none` where it reads or writes a node that is not allocated, or
where its loop does not end. -/
def call (s : ListHead α) : ListCall α → Option (ListHead α)
  | .append info newNode => do
      let (registry, node) ← s.registry.appendInfo info newNode
      some ⟨registry, insert node s.held⟩
  | .remove toRemove => do
      let registry ← s.registry.removeInfo toRemove
      some ⟨registry, s.held.erase toRemove⟩

/-- malloc returns a block that is not in use, and a node is removed by who got it
from `append_info`, once. -/
def Allowed (s : ListHead α) : ListCall α → Prop
  | .append _ newNode => s.registry.cell newNode = none
  | .remove toRemove => toRemove ∈ s.held

def allowed (s : ListHead α) : ListCall α → Bool
  | .append _ newNode => (s.registry.cell newNode).isNone
  | .remove toRemove => toRemove ∈ s.held

theorem allowed_iff (s : ListHead α) (c : ListCall α) : s.allowed c = true ↔ s.Allowed c := by
  cases c with
  | append info newNode => exact Option.isNone_iff_eq_none
  | remove toRemove => exact decide_eq_true_iff

end ListHead

/-- The calls on one list head, which is `NULL` before the first. -/
def listCalls (α : Type) : Lts (ListHead α) (ListCall α) where
  init s := s = ⟨.empty, ∅⟩
  step s c t := s.call c = some t

section Calls

variable {α : Type} {s t : ListHead α} {c : ListCall α}

/-- The heap has a shape, and its nodes are those that somebody holds. -/
structure ListHead.Inv (s : ListHead α) : Prop where
  shape : ∃ vis orph, s.registry.Shape vis orph
  held : ∀ a, (s.registry.cell a).isSome ↔ a ∈ s.held

theorem ListHead.inv_start : ListHead.Inv (⟨.empty, ∅⟩ : ListHead α) where
  shape := ⟨[], [], shape_empty⟩
  held a := by simp [Registry.empty]

/-- What one call does: it is defined, and keeps the invariant. -/
theorem ListHead.Inv.call (hi : s.Inv) (hc : s.Allowed c) : ∃ t, s.call c = some t ∧ t.Inv := by
  obtain ⟨vis, orph, hshape⟩ := hi.shape
  cases c with
  | append info newNode =>
      have hvis : newNode ∉ vis :=
        fun hm => hshape.not_mem_of_none hc (List.mem_append_left _ hm)
      refine ⟨⟨⟨Shape.appended s.registry vis info newNode, s.registry.live + 1,
        (vis ++ [newNode]).head?⟩, insert newNode s.held⟩, ?_, ⟨_, _, hshape.append hc⟩, ?_⟩
      · simp only [ListHead.call, hshape.appendInfo_eq hc, Option.bind_eq_bind, Option.bind_some]
      · intro a
        rw [Finset.mem_insert, ← hi.held a]
        exact Shape.appended_isSome hvis a
  | remove toRemove =>
      obtain ⟨r, vis', orph', hrem, hshape', hgone, hinfo⟩ :=
        hshape.remove ((hi.held toRemove).mpr hc)
      refine ⟨⟨r, s.held.erase toRemove⟩, ?_, ⟨vis', orph', hshape'⟩, ?_⟩
      · simp only [ListHead.call, hrem, Option.bind_eq_bind, Option.bind_some]
      · intro a
        rw [Finset.mem_erase, ← hi.held a]
        by_cases ha : a = toRemove
        · subst ha
          simp [hgone]
        · rw [← Option.isSome_map, hinfo a ha, Option.isSome_map]
          exact (and_iff_right ha).symm

theorem ListHead.inv_of_reachable (hs : ((listCalls α).restrict ListHead.Allowed).Reachable s) :
    s.Inv := by
  apply hs.invariant (I := fun s => s.Inv)
  · rintro s rfl
    exact ListHead.inv_start
  · rintro s c t hi ⟨hc, hstep⟩
    obtain ⟨t', ht', hinv⟩ := hi.call hc
    have hcall : s.call c = some t := hstep
    rw [ht'] at hcall
    cases hcall
    exact hinv

end Calls

/-! ## Shapes are well linked -/

namespace Registry.Shape

variable {α : Type} {r : Registry α} {vis : List Addr} {orph : List (List Addr)}

theorem chained (h : r.Shape vis orph) : Chained r.cell (vis :: orph) where
  seg c hc := by
    rcases List.mem_cons.mp hc with rfl | hc
    · exact h.visible
    · exact h.hidden c hc
  nodup c hc := by
    rcases List.mem_cons.mp hc with rfl | hc
    · exact h.vis_nodup
    · exact (List.nodup_flatten.mp (List.nodup_append.mp h.nodup).2.1).1 c hc
  mem_of_live x hx := by
    rcases List.mem_append.mp ((h.live x).mp hx) with hx | hx
    · exact ⟨vis, List.mem_cons_self, hx⟩
    · obtain ⟨c, hc, hxc⟩ := List.mem_flatten.mp hx
      exact ⟨c, List.mem_cons_of_mem _ hc, hxc⟩

/-- The list head is `NULL` or points to a node without a predecessor. -/
theorem first_prev (h : r.Shape vis orph) :
    r.nodesInfo = none ∨
      ∃ x n, r.nodesInfo = some x ∧ r.cell x = some n ∧ n.prev = none := by
  rw [h.first]
  cases vis with
  | nil => exact Or.inl rfl
  | cons x xs =>
      obtain ⟨n, hn, hprev, _⟩ := h.visible
      exact Or.inr ⟨x, n, rfl, hn, hprev⟩

end Registry.Shape

/-- After every sequence of calls in which each node is removed once and by who got
it, the pointers of all nodes that are not freed are sound, and the next call and
the loops of `handle_get_info` stay within them. -/
theorem list_calls_well_linked {α : Type} {s : ListHead α}
    (hs : ((listCalls α).restrict ListHead.Allowed).Reachable s) :
    (∀ a, (s.registry.cell a).isSome ↔ a ∈ s.held) ∧
      WellLinked s.registry.cell ∧
      (s.registry.nodesInfo = none ∨
        ∃ x n, s.registry.nodesInfo = some x ∧ s.registry.cell x = some n ∧ n.prev = none) ∧
      (∀ c, s.Allowed c → (s.call c).isSome) ∧ s.registry.collectInfo.isSome := by
  have hi := ListHead.inv_of_reachable hs
  obtain ⟨vis, orph, hshape⟩ := hi.shape
  refine ⟨hi.held, hshape.chained.wellLinked, hshape.first_prev, ?_, ?_⟩
  · intro c hc
    obtain ⟨t, ht, _⟩ := hi.call hc
    rw [ht]
    rfl
  · rw [hshape.collectInfo_eq]
    rfl

/-- Removals out of order: the first node goes, which hides the other two, its block
comes back for another node, and the first hidden node goes, which hides that one. -/
def hiddenRemoved : List (ListCall ℕ) :=
  [.append 10 1, .append 20 2, .append 30 3, .remove 1, .append 40 1, .remove 2]

theorem list_calls_well_linked_run :
    ∃ s, ((listCalls ℕ).restrict ListHead.Allowed).Reachable s ∧
      s.registry.collectInfo = some [] ∧ s.held = {1, 3} ∧
      WellLinked s.registry.cell := by
  have hrun : (Lts.exec ListHead.call ListHead.allowed ⟨.empty, ∅⟩ hiddenRemoved).any
      (fun s => decide (s.registry.collectInfo = some [] ∧ s.held = {1, 3})) = true := by
    decide
  obtain ⟨s, hs, htest⟩ := (Option.any_eq_true _ _).mp hrun
  obtain ⟨hcollect, hheld⟩ := of_decide_eq_true htest
  have hreach : ((listCalls ℕ).restrict ListHead.Allowed).Reachable s :=
    .of_exec (fun _ _ _ hstep => hstep) (fun s c => (s.allowed_iff c).mp) (.init rfl) hs
  exact ⟨s, hreach, hcollect, hheld, (list_calls_well_linked hreach).2.1⟩

/-- The registry of the main server, whatever its threads do. -/
theorem registry_well_linked {s : Server} (hs : mainServer.Reachable s) :
    WellLinked s.shared.registry.cell ∧
      (s.shared.registry.nodesInfo = none ∨ ∃ x n, s.shared.registry.nodesInfo = some x ∧
        s.shared.registry.cell x = some n ∧ n.prev = none) := by
  obtain ⟨vis, orph, hshape⟩ := (inv_of_reachable hs).shape
  exact ⟨hshape.chained.wellLinked, hshape.first_prev⟩

end Dicon.MainServer
