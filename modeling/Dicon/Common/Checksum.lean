import Mathlib.Data.List.Basic

/-!
# The checksum of a file (`common/src/so_operations.c`)

`dic_checksum` reads a file block by block and rotates a 64-bit word by one bit
before each byte that it adds. How `fread` cuts the file does not show in the
result (`dicChecksum_some`).
-/

namespace Dicon

/-- `sizeof(buf)` -/
def checksumBufSize : ℕ := 4096

/-- What `fread` delivers of a file, one block for each call that reads
something. -/
structure Fread where
  blocks : List UInt8 → List (List UInt8)
  flatten_blocks : ∀ contents, (blocks contents).flatten = contents
  size_blocks : ∀ contents, ∀ block ∈ blocks contents, block ≠ [] ∧ block.length ≤ checksumBufSize

/-- `sum = (sum << 1) | (sum >> 63); sum ^= buf[i];` -/
def checksumByte (sum : UInt64) (b : UInt8) : UInt64 := (sum <<< 1 ||| sum >>> 63) ^^^ b.toUInt64

/-- `while ((len = fread(buf, 1, sizeof(buf), file)) > 0)` -/
def checksumLoop (sum : UInt64) : List (List UInt8) → UInt64
  | [] => sum
  | block :: rest => checksumLoop (block.foldl checksumByte sum) rest

/-- `dic_checksum`, of a file that opens or of none. -/
def dicChecksum (fread : Fread) : Option (List UInt8) → UInt64
  | none => 0
  | some contents => checksumLoop 0 (fread.blocks contents)

theorem checksumLoop_eq (sum : UInt64) (blocks : List (List UInt8)) :
    checksumLoop sum blocks = blocks.flatten.foldl checksumByte sum := by
  induction blocks generalizing sum with
  | nil => rfl
  | cons block rest ih => rw [checksumLoop, ih, List.flatten_cons, List.foldl_append]

theorem dicChecksum_some (fread : Fread) (contents : List UInt8) :
    dicChecksum fread (some contents) = contents.foldl checksumByte 0 := by
  rw [dicChecksum, checksumLoop_eq, fread.flatten_blocks]

/-- Two runs on one file agree. -/
theorem dicChecksum_fread (fread fread' : Fread) (file : Option (List UInt8)) :
    dicChecksum fread file = dicChecksum fread' file := by
  cases file with
  | none => rfl
  | some contents => rw [dicChecksum_some, dicChecksum_some]

/-- A file that arrives byte by byte. -/
def Fread.bytewise : Fread where
  blocks contents := contents.map fun b => [b]
  flatten_blocks contents := by
    induction contents with
    | nil => rfl
    | cons b bs ih => rw [List.map_cons, List.flatten_cons, ih, List.singleton_append]
  size_blocks contents block hblock := by
    obtain ⟨b, _, rfl⟩ := List.mem_map.mp hblock
    exact ⟨List.cons_ne_nil _ _, by simp [checksumBufSize]⟩

end Dicon
