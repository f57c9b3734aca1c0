import Dicon.RemoteObjects.Loader
import Dicon.RemoteObjects.Upload

/-!
# Verifying a shared object

`handle_so_verify` computes the checksum of the node's file, but no request
reaches it: `dic_so_verify` sends the request of `dic_so_load`, and takes the
handle that comes back for a checksum. `build_so_verify`, which nobody calls,
says `DIC_SO_LOAD` too, and the switch has no case for `DIC_SO_VERIFY`.
-/

namespace Dicon.RemoteObjects

open Framework Node Client

/-- `dic_checksum` of the node's file of that name. -/
def nodeChecksum (fread : Fread) (node : Node) (name : CStr) : UInt64 :=
  dicChecksum fread (node.files (soPath name.chars))

/-- The body of a request that names a library. -/
def nameBody (name : CStr) : List UInt8 := le32 (toU32 (name.strlen + 1)) ++ name.bytes

/-- The handler would do what the client function promises. -/
theorem handleSoVerify_nameBody (fread : Fread) (node : Node) (name : CStr) (rest : List UInt8) :
    handleSoVerify node (nameBody name ++ rest) fread =
      some (node, respBuilder (Cells.stored (le64 (nodeChecksum fread node name)))) := by
  have hname : cString (nameBody name ++ rest) 4 = name.chars :=
    cString_bytes _ (length_le32 _) name rest
  rw [handleSoVerify, hname]
  rfl

section

variable {env : Env} {s : Session} {name : CStr}

end

end Dicon.RemoteObjects
