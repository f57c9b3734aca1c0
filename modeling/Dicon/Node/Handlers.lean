import Dicon.Common.Checksum
import Dicon.Common.Messages
import Dicon.Common.Sockets
import Dicon.Node.State

/-!
# The request handlers (`node/src/node_client_communication.c`)

A handler casts the request body to the struct of its operation and reads its
fields where they lie, so it is given the body together with what lies behind
it. It builds its response in a block of which only the fields that it assigns
are determined (`Cells`). A handler without an outcome crashes, or never
returns.
-/

namespace Dicon.Node

open Framework

/-- `RESP_BUILDER_INIT_DYNAMIC` and `RESP_SET_HEAD` around a body. -/
def respBuilder (body : Cells UInt8) : Msg :=
  let msgLen := toCInt (respHeadSize + body.length : ℕ)
  ⟨Cells.stored (le32 (toU32 (msgLen - respHeadSize))) ++ body, msgLen⟩

/-- The NUL-terminated string at an offset. -/
def cString (b : List UInt8) (off : ℕ) : List UInt8 := (b.drop off).takeWhile (· ≠ 0)

/-- `"user_objects/"` -/
def userObjects : List UInt8 := [117, 115, 101, 114, 95, 111, 98, 106, 101, 99, 116, 115, 47]

/-- `".so"` -/
def dotSo : List UInt8 := [46, 115, 111]

/-- `user_objects/<name>.so` -/
def soPath (name : List UInt8) : List UInt8 := userObjects ++ name ++ dotSo

section Handlers

variable (sys : Sys) (node : Node) (b : List UInt8)

def handleMalloc : Option (Node × Msg) :=
  let size := rd32At b 0
  if size ≤ 0 then some (node, respBuilder (Cells.stored (le64 0)))
  else some (node.malloc sys size.toNat, respBuilder (Cells.stored (le64 sys.block)))

def handleRealloc : Option (Node × Msg) := do
  let (node, newPtr) ← node.realloc sys (rd64At b 0) (rd32At b 8).toNat
  some (node, respBuilder (Cells.stored (le64 newPtr)))

def handleFree : Option (Node × Msg) := do
  let node ← node.free (rd64At b 0)
  some (node, respBuilder (Cells.stored [0]))

def handleMemcpyC2n : Option (Node × Msg) := do
  let data := (b.drop 12).take (rd32At b 8).toNat
  let node ← node.memcpyTo sys (rd64At b 0).toNat data
  some (node, respBuilder (Cells.stored (le32 0)))

/-- The length of the response comes from the request: where `msg_len` wraps,
the block is not there or too small. -/
def handleMemcpyN2c : Option (Node × Msg) := do
  let size := rd32At b 8
  if respHeadSize + 4 + size.toNat ≤ intMax then
    let data ← node.memcpyFrom sys (rd64At b 0).toNat size.toNat
    some (node, respBuilder (Cells.stored (le32 size ++ data)))
  else none

/-- `so_path` is allocated for the prefix with its terminator and `so_len`
characters; `sprintf` also appends the suffix and a terminator. -/
def handleSoLoad : Option (Node × Msg) :=
  let soPathSize := userObjects.length + 1 + (rd32At b 0).toNat
  let path := soPath (cString b 4)
  let node := { node with past := node.past + (path.length + 1 - soPathSize) }
  some (node.call (.dlopen path), respBuilder (Cells.stored (le64 sys.handle)))

def handleSoUnload : Option (Node × Msg) :=
  some (node.call (.dlclose (rd64At b 0)), respBuilder (Cells.stored (le32 0)))

/-- `success` is not assigned. A failed `fopen` ends in `fileno(NULL)`. -/
def handleSoUpload : Option (Node × Msg) :=
  let fileSize := (rd64At b 0).toNat
  let nameLen := (rd32At b 8).toNat
  let fileBytes := (b.drop (12 + nameLen + 1)).take fileSize
  if sys.fopened then
    some (node.writeFile (soPath (cString b 12)) (fileBytes.take sys.fwritten),
      respBuilder (List.replicate 4 none))
  else none

/-- No case of the switch calls it. -/
def handleSoVerify (fread : Fread) : Option (Node × Msg) :=
  let checksum := dicChecksum fread (node.files (soPath (cString b 4)))
  some (node, respBuilder (Cells.stored (le64 checksum)))

def handleFuncLoad : Option (Node × Msg) :=
  some (node.call (.dlsym (rd64At b 0) (cString b 12)),
    respBuilder (Cells.stored (le64 sys.symbol)))

/-- `t_id` keeps its indeterminate value when `pthread_create` fails. -/
def handleRun : Option (Node × Msg) :=
  let tId := sys.created.getD sys.uninit
  some (node.call (.pthreadCreate (rd64At b 0) (rd64At b 8)),
    respBuilder (Cells.stored (le64 tId)))

/-- `ret_ptr` keeps its indeterminate value when `pthread_join` fails. -/
def handleJoin : Option (Node × Msg) := do
  let retPtr ← sys.joined
  some (node.call (.pthreadJoin (rd64At b 0)),
    respBuilder (Cells.stored (le64 (retPtr.getD sys.uninit))))

/-- `ccase` -/
def ccase (r : Option (Node × Msg)) : Option (Node × Option Msg) :=
  r.map fun (node, msg) => (node, some msg)

/-- `switch(head.operation)`. There is no case for `DIC_SO_VERIFY`: like every
unknown operation it sets `msg` to `NULL`. -/
def dispatch (operation : UInt16) : Option (Node × Option Msg) :=
  if operation = DicOperation.malloc.code then ccase (handleMalloc sys node b)
  else if operation = DicOperation.realloc.code then ccase (handleRealloc sys node b)
  else if operation = DicOperation.free.code then ccase (handleFree node b)
  else if operation = DicOperation.memcpyC2n.code then ccase (handleMemcpyC2n sys node b)
  else if operation = DicOperation.memcpyN2c.code then ccase (handleMemcpyN2c sys node b)
  else if operation = DicOperation.soLoad.code then ccase (handleSoLoad sys node b)
  else if operation = DicOperation.soUnload.code then ccase (handleSoUnload node b)
  else if operation = DicOperation.soUpload.code then ccase (handleSoUpload sys node b)
  else if operation = DicOperation.funcLoad.code then ccase (handleFuncLoad sys node b)
  else if operation = DicOperation.run.code then ccase (handleRun sys node b)
  else if operation = DicOperation.join.code then ccase (handleJoin sys node b)
  else some (node, none)

end Handlers

/-! ## Responses -/

theorem respBuilder_isResponse {body : Cells UInt8}
    (h : respHeadSize + body.length ≤ intMax) : (respBuilder body).IsResponse body := by
  have hlen : toCInt (respHeadSize + body.length : ℕ) = (respHeadSize + body.length : ℕ) :=
    toCInt_of_le h
  have hbody : ((respHeadSize + body.length : ℕ) : ℤ) - respHeadSize = body.length := by
    omega
  refine ⟨?_, ?_, h⟩
  · simp only [respBuilder, hlen, hbody]
  · simp only [respBuilder, hlen]

section

variable {sys : Sys} {node node' : Node} {b : List UInt8} {msg : Msg}

theorem isResponse_of_short {body : Cells UInt8} (h : body.length ≤ 8) :
    (respBuilder body).IsResponse body :=
  respBuilder_isResponse (by unfold respHeadSize intMax; omega)

/-- What the handler of an operation builds behind the head. -/
def RespShape : DicOperation → Cells UInt8 → Prop
  | .malloc, body | .realloc, body | .soLoad, body | .funcLoad, body | .run, body
  | .join, body => ∃ p : UInt64, body = Cells.stored (le64 p)
  | .free, body => body = Cells.stored [0]
  | .memcpyC2n, body | .soUnload, body => body = Cells.stored (le32 0)
  | .memcpyN2c, body =>
      ∃ (size : UInt32) (data : List UInt8), data.length = size.toNat ∧
        body = Cells.stored (le32 size ++ data)
  | .soUpload, body => body = List.replicate 4 none
  | .soVerify, _ => False

theorem handleMemcpyN2c_resp (h : handleMemcpyN2c sys node b = some (node', msg)) :
    ∃ body, msg.IsResponse body ∧ RespShape .memcpyN2c body := by
  simp only [handleMemcpyN2c] at h
  split at h
  · next hfits =>
      obtain ⟨data, hdata, hmsg⟩ := Option.bind_eq_some_iff.mp h
      cases hmsg
      unfold memcpyFrom at hdata
      split at hdata <;> cases hdata
      refine ⟨_, respBuilder_isResponse ?_, _, _, ByteMemory.length_read _ _ _, rfl⟩
      simp only [Cells.length_stored, List.length_append, length_le32,
        ByteMemory.length_read]
      omega
  · cases h

theorem ccase_eq_some {r : Option (Node × Msg)} {m : Option Msg}
    (h : ccase r = some (node', m)) : ∃ msg, m = some msg ∧ r = some (node', msg) := by
  obtain ⟨⟨n, msg⟩, hr, heq⟩ := Option.map_eq_some_iff.mp h
  cases heq
  exact ⟨msg, rfl, hr⟩

/-- The cases of the switch, one for each operation but `DIC_SO_VERIFY`. -/
theorem dispatch_code (op : DicOperation) :
    dispatch sys node b op.code = match op with
      | .malloc => ccase (handleMalloc sys node b)
      | .realloc => ccase (handleRealloc sys node b)
      | .free => ccase (handleFree node b)
      | .memcpyC2n => ccase (handleMemcpyC2n sys node b)
      | .memcpyN2c => ccase (handleMemcpyN2c sys node b)
      | .soVerify => some (node, none)
      | .soLoad => ccase (handleSoLoad sys node b)
      | .soUnload => ccase (handleSoUnload node b)
      | .soUpload => ccase (handleSoUpload sys node b)
      | .funcLoad => ccase (handleFuncLoad sys node b)
      | .run => ccase (handleRun sys node b)
      | .join => ccase (handleJoin sys node b) := by
  cases op <;> rfl

/-- Every operation but `DIC_SO_VERIFY` is answered, with a response of its own
shape. -/
theorem dispatch_resp {op : DicOperation} {m : Option Msg}
    (h : dispatch sys node b op.code = some (node', m)) :
    (op = .soVerify ∧ m = none ∧ node' = node) ∨
      ∃ msg body, m = some msg ∧ msg.IsResponse body ∧ RespShape op body := by
  rw [dispatch_code] at h
  cases op with
  | soVerify =>
      cases h
      exact Or.inl ⟨rfl, rfl, rfl⟩
  | memcpyN2c =>
      obtain ⟨msg, rfl, hr⟩ := ccase_eq_some h
      obtain ⟨body, hbody, hshape⟩ := handleMemcpyN2c_resp hr
      exact Or.inr ⟨msg, body, rfl, hbody, hshape⟩
  | malloc =>
      obtain ⟨msg, rfl, hr⟩ := ccase_eq_some h
      simp only [handleMalloc] at hr
      split at hr <;> cases hr <;>
        exact Or.inr ⟨_, _, rfl, isResponse_of_short (by simp), _, rfl⟩
  | realloc | join =>
      obtain ⟨msg, rfl, hr⟩ := ccase_eq_some h
      obtain ⟨_, _, hmsg⟩ := Option.bind_eq_some_iff.mp hr
      cases hmsg
      exact Or.inr ⟨_, _, rfl, isResponse_of_short (by simp), _, rfl⟩
  | free | memcpyC2n =>
      obtain ⟨msg, rfl, hr⟩ := ccase_eq_some h
      obtain ⟨_, _, hmsg⟩ := Option.bind_eq_some_iff.mp hr
      cases hmsg
      exact Or.inr ⟨_, _, rfl, isResponse_of_short (by simp), rfl⟩
  | soLoad | funcLoad | run =>
      obtain ⟨msg, rfl, hr⟩ := ccase_eq_some h
      cases hr
      exact Or.inr ⟨_, _, rfl, isResponse_of_short (by simp), _, rfl⟩
  | soUnload =>
      obtain ⟨msg, rfl, hr⟩ := ccase_eq_some h
      cases hr
      exact Or.inr ⟨_, _, rfl, isResponse_of_short (by simp), rfl⟩
  | soUpload =>
      obtain ⟨msg, rfl, hr⟩ := ccase_eq_some h
      simp only [handleSoUpload] at hr
      split at hr <;> cases hr
      exact Or.inr ⟨_, _, rfl, isResponse_of_short (by simp), rfl⟩

/-- Whatever the operation code: what is sent is a response. -/
theorem dispatch_isResponse {operation : UInt16}
    (h : dispatch sys node b operation = some (node', some msg)) :
    ∃ body, msg.IsResponse body := by
  by_cases hop : ∃ op : DicOperation, operation = op.code
  · obtain ⟨op, rfl⟩ := hop
    rcases dispatch_resp h with ⟨_, hnone, _⟩ | ⟨_, body, hmsg, hbody, _⟩
    · cases hnone
    · cases hmsg
      exact ⟨body, hbody⟩
  · rw [not_exists] at hop
    simp only [dispatch, hop, if_false] at h
    cases h

end

end Dicon.Node
