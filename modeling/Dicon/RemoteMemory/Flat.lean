import Dicon.Client.InStep

/-!
# What remote memory is for

`FlatMemory` is the memory that a client thinks it has: live blocks, and for each
address the byte that was last written there, if the block that it lies in has
been written to at all. It is computed from the calls and their results alone.

`Legal` says which calls a client may make, `Lawful` what the C standard promises
about an allocation that succeeds.
-/

namespace Dicon.RemoteMemory

open Framework Node Client

structure FlatMemory where
  blocks : List Block
  bytes : ℕ → Option UInt8

namespace FlatMemory

def empty : FlatMemory := ⟨[], fun _ => none⟩

def blockAt (m : FlatMemory) (ptr : ℕ) : Option Block := m.blocks.find? (·.ptr = ptr)

/-- A new block holds nothing yet. -/
def allocate (m : FlatMemory) (b : Block) : FlatMemory where
  blocks := m.blocks ++ [b]
  bytes := ByteMemory.write m.bytes b.ptr (List.replicate b.size none)

def release (m : FlatMemory) (b : Block) : FlatMemory where
  blocks := m.blocks.erase b
  bytes := ByteMemory.write m.bytes b.ptr (List.replicate b.size none)

/-- The contents of `b` move to `b'` as far as both reach. -/
def resize (m : FlatMemory) (b b' : Block) : FlatMemory where
  blocks := ((m.release b).allocate b').blocks
  bytes := ByteMemory.write ((m.release b).allocate b').bytes b'.ptr
    (ByteMemory.read m.bytes b.ptr (min b.size b'.size))

def store (m : FlatMemory) (a : ℕ) (vs : List UInt8) : FlatMemory :=
  { m with bytes := ByteMemory.write m.bytes a (Cells.stored vs) }

/-- The memory after a call with its result. -/
def step (m : FlatMemory) : Call → Result → FlatMemory
  | .rmalloc size, .ptr p => m.allocate ⟨p.toNat, size.toNat⟩
  | .rrealloc rvoid size, .ptr p =>
      match m.blockAt rvoid.toNat with
      | none => m.allocate ⟨p.toNat, size.toNat⟩
      | some b => m.resize b ⟨p.toNat, size.toNat⟩
  | .rfree rvoid, .status _ =>
      match m.blockAt rvoid.toNat with
      | none => m
      | some b => m.release b
  | .memcpy loc remote size .local2Remote, .copied _ _ => m.store remote.toNat (loc.take size.toNat)
  | _, _ => m

/-- The calls of the memory functions that make sense: sizes are positive, a
pointer that is resized or freed is null or a live block, and a copy lies inside
a live block, possibly behind its start, and inside the local buffer. -/
def Legal (m : FlatMemory) : Call → Prop
  | .rmalloc size => 0 < size ∧ size ≤ intMax
  | .rrealloc rvoid size =>
      (0 < size ∧ size ≤ intMax) ∧ (rvoid = 0 ∨ ∃ b ∈ m.blocks, b.ptr = rvoid.toNat)
  | .rfree rvoid => rvoid = 0 ∨ ∃ b ∈ m.blocks, b.ptr = rvoid.toNat
  | .memcpy loc remote size _ =>
      (0 ≤ size ∧ 20 + size ≤ intMax) ∧ size.toNat ≤ loc.length ∧
        ∃ b ∈ m.blocks, b.Has remote.toNat size.toNat
  | _ => False

end FlatMemory

/-- `malloc` succeeds: the block is apart from all that are allocated. -/
def Allocates (sys : Sys) (blocks : List Block) (size : ℕ) : Prop :=
  sys.block ≠ 0 ∧ ∀ b ∈ blocks, b.ptr ≠ sys.block.toNat ∧ b.Disjoint ⟨sys.block.toNat, size⟩

/-- What `malloc` and `realloc` promise about the block that they return;
`realloc` may keep the old one in its place. -/
def Lawful (sys : Sys) (node : Node) : Call → Prop
  | .rmalloc size => Allocates sys node.blocks size.toNat
  | .rrealloc rvoid size =>
      if rvoid = 0 then Allocates sys node.blocks size.toNat
      else ∀ b, node.blockAt rvoid.toNat = some b →
        Allocates sys (node.blocks.erase b) size.toNat
  | _ => True

/-! ## Blocks -/

section Blocks

variable {blocks : List Block} {b c : Block} {ptr : ℕ}

theorem mem_of_find (h : blocks.find? (·.ptr = ptr) = some b) : b ∈ blocks ∧ b.ptr = ptr := by
  refine ⟨List.mem_of_find?_eq_some h, ?_⟩
  simpa using List.find?_some h

/-- Taking another block out does not change which block is found. -/
theorem find_erase (h : b.ptr ≠ ptr) :
    (blocks.erase b).find? (·.ptr = ptr) = blocks.find? (·.ptr = ptr) := by
  induction blocks with
  | nil => rfl
  | cons d ds ih =>
      by_cases hd : d = b
      · subst hd
        simp [h]
      · rw [List.erase_cons_tail (by simpa using hd)]
        simp only [List.find?_cons, ih]

theorem find_append_of_some (h : blocks.find? (·.ptr = ptr) = some b) :
    (blocks ++ [c]).find? (·.ptr = ptr) = some b := by
  rw [List.find?_append, h]
  rfl

theorem find_append_new (h : ∀ d ∈ blocks, d.ptr ≠ b.ptr) :
    (blocks ++ [b]).find? (·.ptr = b.ptr) = some b := by
  have hnone : blocks.find? (·.ptr = b.ptr) = none := by
    simpa using h
  rw [List.find?_append, hnone]
  simp

end Blocks

end Dicon.RemoteMemory
