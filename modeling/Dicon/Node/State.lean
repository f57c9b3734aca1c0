import Dicon.Framework.LittleEndian
import Dicon.Framework.Cells
import Dicon.Framework.ByteMemory

/-!
# The state of a node process

What the handlers of `node/src/node_client_communication.c` touch: the memory of
the process with the blocks that clients had it allocate, its files, and the
calls it makes into the dynamic loader and the thread library. `Sys` is what the
system and the C library contribute while the node serves one request.
-/

namespace Dicon

open Framework

namespace Node

/-- A block that a client had the node allocate. -/
structure Block where
  ptr : ℕ
  size : ℕ
deriving DecidableEq

/-- The `n` bytes at `a` lie inside the block. -/
def Block.Has (b : Block) (a n : ℕ) : Prop := b.ptr ≤ a ∧ a + n ≤ b.ptr + b.size

instance (b : Block) (a n : ℕ) : Decidable (b.Has a n) :=
  inferInstanceAs (Decidable (_ ∧ _))

/-- The addresses of the two blocks are different ones. -/
def Block.Disjoint (b c : Block) : Prop := b.ptr + b.size ≤ c.ptr ∨ c.ptr + c.size ≤ b.ptr

/-- Calls whose effect lies outside the modelled state. -/
inductive SysCall
  | dlopen (path : List UInt8)
  | dlclose (handle : UInt64)
  | dlsym (handle : UInt64) (symbol : List UInt8)
  | pthreadCreate (func args : UInt64)
  | pthreadJoin (tid : UInt64)
deriving DecidableEq

/-- The system while one request is served. -/
structure Sys where
  /-- what lies behind the request body in memory -/
  beyond : List UInt8
  /-- what the response block holds before anything is stored into it -/
  junk : ℕ → UInt8
  /-- what an uninitialised local variable holds -/
  uninit : UInt64
  /-- the result of `malloc` or `realloc` for the client -/
  block : UInt64
  /-- what a block holds when it is allocated -/
  garbage : ℕ → UInt8
  /-- memory that can be accessed besides the clients' blocks -/
  mapped : ℕ → ℕ → Bool
  /-- the results of `dlopen` and `dlsym` -/
  handle : UInt64
  symbol : UInt64
  /-- whether `fopen` succeeds, and how many bytes `fwrite` then writes -/
  fopened : Bool
  fwritten : ℕ
  /-- the new thread, or none when `pthread_create` fails -/
  created : Option UInt64
  /-- what the joined thread returns, none when `pthread_join` fails; and none
  of both when it does not return -/
  joined : Option (Option UInt64)

end Node

/-- A node process. -/
structure Node where
  mem : ℕ → UInt8
  blocks : List Node.Block
  files : List UInt8 → Option (List UInt8)
  calls : List Node.SysCall
  /-- how many bytes were stored behind the end of a block of the node's own -/
  past : ℕ

namespace Node

/-- A node that has served nothing. -/
def new : Node := ⟨fun _ => 0, [], fun _ => none, [], 0⟩

/-- A system on which every call succeeds. -/
def Sys.calm : Sys where
  beyond := []
  junk _ := 0
  uninit := 0
  block := 4096
  garbage _ := 0
  mapped _ _ := false
  handle := 1
  symbol := 1
  fopened := true
  fwritten := 4096
  created := some 1
  joined := some (some 0)

/-- All `n` bytes at `a` can be read and written. -/
def Accessible (node : Node) (sys : Sys) (a n : ℕ) : Prop :=
  n = 0 ∨ (∃ b ∈ node.blocks, b.Has a n) ∨ sys.mapped a n = true

instance (node : Node) (sys : Sys) (a n : ℕ) : Decidable (node.Accessible sys a n) :=
  inferInstanceAs (Decidable (_ ∨ _ ∨ _))

def call (node : Node) (c : SysCall) : Node := { node with calls := node.calls ++ [c] }

/-- `malloc(size)` for a client. -/
def malloc (node : Node) (sys : Sys) (size : ℕ) : Node :=
  if sys.block = 0 then node
  else { node with
    mem := ByteMemory.write node.mem sys.block.toNat ((List.range size).map sys.garbage)
    blocks := node.blocks ++ [⟨sys.block.toNat, size⟩] }

/-- The client's block at `ptr`; freeing anything else is undefined. -/
def blockAt (node : Node) (ptr : ℕ) : Option Block := node.blocks.find? (·.ptr = ptr)

/-- `free(ptr)` -/
def free (node : Node) (ptr : UInt64) : Option Node :=
  if ptr = 0 then some node
  else (node.blockAt ptr.toNat).map fun b => { node with blocks := node.blocks.erase b }

/-- `realloc(ptr, size)`, with the pointer it returns. Size 0 frees the block. -/
def realloc (node : Node) (sys : Sys) (ptr : UInt64) (size : ℕ) : Option (Node × UInt64) :=
  if ptr = 0 then some (node.malloc sys size, sys.block)
  else (node.blockAt ptr.toNat).map fun b =>
    if size = 0 then ({ node with blocks := node.blocks.erase b }, 0)
    else if sys.block = 0 then (node, 0)
    else
      let kept := ByteMemory.read node.mem b.ptr (min b.size size)
      let fresh := { node with blocks := node.blocks.erase b }.malloc sys size
      ({ fresh with mem := ByteMemory.write fresh.mem sys.block.toNat kept }, sys.block)

/-- `memcpy` into the node's memory. -/
def memcpyTo (node : Node) (sys : Sys) (dest : ℕ) (bytes : List UInt8) : Option Node :=
  if node.Accessible sys dest bytes.length then
    some { node with mem := ByteMemory.write node.mem dest bytes }
  else none

/-- `memcpy` out of the node's memory. -/
def memcpyFrom (node : Node) (sys : Sys) (src n : ℕ) : Option (List UInt8) :=
  if node.Accessible sys src n then some (ByteMemory.read node.mem src n) else none

/-- A file opened with mode `"wb"` and written to. -/
def writeFile (node : Node) (path contents : List UInt8) : Node :=
  { node with files := Function.update node.files path (some contents) }

end Node

end Dicon
