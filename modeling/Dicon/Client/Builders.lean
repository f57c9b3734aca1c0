import Dicon.Common.Messages
import Dicon.Common.Sockets
import Mathlib.Tactic.Ring

/-!
# The request builders (`diconlib/src/client_node_communication.c`)

Each builder allocates `msg_len` bytes, sets the head and stores the fields of
its body in the order in which they lie. A builder without an outcome reads past
the end of its argument. All requests of a client go to one device, so a remote
pointer is its address.
-/

namespace Dicon.Client

open Framework

/-- A NUL-terminated string. -/
structure CStr where
  chars : List UInt8
  noNul : 0 ∉ chars

def CStr.strlen (s : CStr) : ℕ := s.chars.length

/-- What `strcpy` stores. -/
def CStr.bytes (s : CStr) : List UInt8 := s.chars ++ [0]

@[simp] theorem CStr.length_bytes (s : CStr) : s.bytes.length = s.strlen + 1 := by
  simp [bytes, strlen]

/-- An opened file: what `ftell` says at its end, and the bytes that `fread`
delivers. -/
structure SoFile where
  fileSize : ℤ
  contents : List UInt8
  ftell : -1 ≤ fileSize

/-- `REQ_BUILDER_INIT_DYNAMIC`, `REQ_BUILDER_SET_HEAD` and what is stored from the
start of the body on. -/
def reqBuilder (operation : DicOperation) (sizeofBody : ℕ) (dynamicSize : ℤ)
    (body : Cells UInt8) : Msg :=
  let msgLen := toCInt (reqHeadSize + sizeofBody + dynamicSize)
  ⟨Cells.stored (ReqHead.bytes ⟨operation.code, 0, toU32 (msgLen - reqHeadSize)⟩) ++ body, msgLen⟩

def buildRmallocReq (size : ℤ) : Msg :=
  reqBuilder .malloc 4 0 (Cells.stored (le32 (toU32 size)))

def buildRreallocReq (rvoid : UInt64) (size : ℤ) : Msg :=
  reqBuilder .realloc 12 0 (Cells.stored (le64 rvoid ++ le32 (toU32 size)))

def buildRfreeReq (rvoid : UInt64) : Msg :=
  reqBuilder .free 8 0 (Cells.stored (le64 rvoid))

/-- `loc` is the local buffer, of which `memcpy` takes the first `size` bytes. As
a `size_t` a negative `size` is more than any buffer holds. -/
def buildMemcpyC2nReq (loc : List UInt8) (remote : UInt64) (size : ℤ) : Option Msg :=
  if 0 ≤ size ∧ size.toNat ≤ loc.length then
    some (reqBuilder .memcpyC2n 12 size
      (Cells.stored (le64 remote ++ le32 (toU32 size) ++ loc.take size.toNat)))
  else none

def buildMemcpyN2cReq (remote : UInt64) (size : ℤ) : Msg :=
  reqBuilder .memcpyN2c 12 0 (Cells.stored (le64 remote ++ le32 (toU32 size)))

def buildSoLoad (name : CStr) : Msg :=
  let nameLen := toCInt (name.strlen + 1)
  reqBuilder .soLoad 4 nameLen (Cells.stored (le32 (toU32 nameLen) ++ name.bytes))

def buildSoUnload (handle : UInt64) : Msg :=
  reqBuilder .soUnload 8 0 (Cells.stored (le64 handle))

/-- `soPath` is the file at that path; without one `fseek` is handed `NULL`. What
`fread` does not deliver of the file stays unwritten. -/
def buildSoUpload (soPath : Option SoFile) (remoteName : CStr) : Option Msg :=
  soPath.map fun soFile =>
    let nameLen := toCInt remoteName.strlen
    let fileBytes := soFile.contents.take (toSizeT soFile.fileSize)
    reqBuilder .soUpload 12 (nameLen + 1 + soFile.fileSize)
      (Cells.stored (le64 (UInt64.ofInt soFile.fileSize) ++ le32 (toU32 nameLen) ++
          remoteName.bytes ++ fileBytes) ++
        List.replicate (soFile.fileSize.toNat - fileBytes.length) none)

/-- The head says `DIC_SO_LOAD`. -/
def buildSoVerify (name : CStr) : Msg :=
  let nameLen := toCInt (name.strlen + 1)
  reqBuilder .soLoad 4 nameLen (Cells.stored (le32 (toU32 nameLen) ++ name.bytes))

/-- The terminator that `strcpy` stores lies behind the block. -/
def buildFuncLoad (handle : UInt64) (symbol : CStr) : Msg :=
  let symLen := toCInt symbol.strlen
  reqBuilder .funcLoad 12 symLen
    (Cells.stored (le64 handle ++ le32 (toU32 symLen) ++ symbol.bytes))

def buildRthreadRun (funcPtr argsPtr : UInt64) : Msg :=
  reqBuilder .run 16 0 (Cells.stored (le64 funcPtr ++ le64 argsPtr))

def buildRthreadJoin (tid : UInt64) : Msg :=
  reqBuilder .join 8 0 (Cells.stored (le64 tid))

/-! ## Requests -/

/-- A builder whose message length fits an `int` builds a request: `n` bytes of
what it stores are the body, and what is behind them is not sent. -/
theorem reqBuilder_isRequest {operation : DicOperation} {sizeofBody n : ℕ} {dynamicSize : ℤ}
    {body : Cells UInt8} (hn : sizeofBody + dynamicSize = n) (hle : n ≤ body.length)
    (hfits : reqHeadSize + n ≤ intMax) :
    (reqBuilder operation sizeofBody dynamicSize body).IsRequest operation.code
      (body.take n) := by
  have hlen : (body.take n).length = n := by simpa using hle
  have hmsg : toCInt (reqHeadSize + sizeofBody + dynamicSize) = (reqHeadSize + n : ℕ) := by
    rw [show (reqHeadSize + sizeofBody + dynamicSize : ℤ) = (reqHeadSize + n : ℕ) by omega]
    exact toCInt_of_le hfits
  have hbody : ((reqHeadSize + n : ℕ) : ℤ) - reqHeadSize = n := by omega
  refine ⟨?_, ?_, ?_⟩
  · simp only [reqBuilder, hmsg, hbody, hlen]
    rw [List.take_append, Cells.length_stored, ReqHead.length_bytes,
      List.take_of_length_le (by simp), Nat.add_sub_cancel_left]
  · simp only [reqBuilder, hmsg, hlen]
  · rw [hlen]
    exact hfits

/-- A request whose body is stored whole. -/
theorem reqBuilder_stored {operation : DicOperation} {sizeofBody : ℕ} {dynamicSize : ℤ}
    {bs : List UInt8} (hn : sizeofBody + dynamicSize = bs.length)
    (hfits : reqHeadSize + bs.length ≤ intMax) :
    (reqBuilder operation sizeofBody dynamicSize (Cells.stored bs)).IsRequest operation.code
      (Cells.stored bs) := by
  have hreq : (reqBuilder operation sizeofBody dynamicSize (Cells.stored bs)).IsRequest
      operation.code ((Cells.stored bs).take bs.length) :=
    reqBuilder_isRequest hn (by simp) hfits
  rwa [List.take_of_length_le (by simp)] at hreq

section

variable (size : ℤ) (loc : List UInt8) (rvoid handle tid funcPtr argsPtr : UInt64)

theorem buildRmallocReq_isRequest : (buildRmallocReq size).IsRequest DicOperation.malloc.code
    (Cells.stored (le32 (toU32 size))) :=
  reqBuilder_stored (by simp) (by simp [reqHeadSize, intMax])

theorem buildRreallocReq_isRequest :
    (buildRreallocReq rvoid size).IsRequest DicOperation.realloc.code
      (Cells.stored (le64 rvoid ++ le32 (toU32 size))) :=
  reqBuilder_stored (by simp) (by simp [reqHeadSize, intMax])

theorem buildRfreeReq_isRequest : (buildRfreeReq rvoid).IsRequest DicOperation.free.code
    (Cells.stored (le64 rvoid)) :=
  reqBuilder_stored (by simp) (by simp [reqHeadSize, intMax])

theorem buildMemcpyC2nReq_isRequest {size : ℤ} {loc : List UInt8} {rvoid : UInt64} {msg : Msg}
    (hfits : reqHeadSize + 12 + size ≤ intMax)
    (h : buildMemcpyC2nReq loc rvoid size = some msg) :
    0 ≤ size ∧ size.toNat ≤ loc.length ∧ msg.IsRequest DicOperation.memcpyC2n.code
      (Cells.stored (le64 rvoid ++ le32 (toU32 size) ++ loc.take size.toNat)) := by
  unfold buildMemcpyC2nReq at h
  split at h
  · next hsize =>
      cases h
      have hlen : (le64 rvoid ++ le32 (toU32 size) ++ loc.take size.toNat).length =
          12 + size.toNat := by
        simp [hsize.2]
        omega
      refine ⟨hsize.1, hsize.2, reqBuilder_stored ?_ ?_⟩
      · rw [hlen]
        omega
      · rw [hlen]
        omega
  · cases h

theorem buildMemcpyN2cReq_isRequest :
    (buildMemcpyN2cReq rvoid size).IsRequest DicOperation.memcpyN2c.code
      (Cells.stored (le64 rvoid ++ le32 (toU32 size))) :=
  reqBuilder_stored (by simp) (by simp [reqHeadSize, intMax])

theorem buildSoLoad_isRequest {name : CStr}
    (hfits : (reqHeadSize + 4 + (name.strlen + 1) : ℤ) ≤ intMax) :
    (buildSoLoad name).IsRequest DicOperation.soLoad.code
      (Cells.stored (le32 (toU32 (name.strlen + 1)) ++ name.bytes)) := by
  have hlen : toCInt (name.strlen + 1) = (name.strlen + 1 : ℕ) :=
    toCInt_of_le (n := name.strlen + 1) (by omega)
  have hbytes : (le32 (toU32 (name.strlen + 1)) ++ name.bytes).length =
      4 + (name.strlen + 1) := by
    simp
  simp only [buildSoLoad, hlen, Nat.cast_add, Nat.cast_one]
  apply reqBuilder_stored
  · rw [hbytes]
    push_cast
    ring
  · rw [hbytes]
    omega

theorem buildSoUnload_isRequest :
    (buildSoUnload handle).IsRequest DicOperation.soUnload.code (Cells.stored (le64 handle)) :=
  reqBuilder_stored (by simp) (by simp [reqHeadSize, intMax])

/-- What `fread` delivers and what it does not fill the block behind the name. -/
theorem buildSoUpload_isRequest {soPath : Option SoFile} {remoteName : CStr} {msg : Msg}
    (hfits : ∀ soFile, soPath = some soFile →
      reqHeadSize + 12 + (remoteName.strlen + 1 + soFile.fileSize) ≤ intMax)
    (h : buildSoUpload soPath remoteName = some msg) :
    ∃ body, msg.IsRequest DicOperation.soUpload.code body := by
  obtain ⟨soFile, rfl, rfl⟩ := Option.map_eq_some_iff.mp h
  have hfile := hfits soFile rfl
  have htell := soFile.ftell
  have hname : toCInt remoteName.strlen = remoteName.strlen :=
    toCInt_of_le (by omega)
  have hn : ((12 : ℕ) : ℤ) + (toCInt remoteName.strlen + 1 + soFile.fileSize) =
      (12 + (remoteName.strlen + 1 + soFile.fileSize).toNat : ℕ) := by
    rw [hname]
    omega
  refine ⟨_, reqBuilder_isRequest hn ?_ ?_⟩
  · simp only [List.length_append, Cells.length_stored, length_le64, length_le32,
      CStr.length_bytes, List.length_replicate]
    omega
  · omega

/-- The request for a file whose size `ftell` gives: its cells end with the
message. -/
theorem buildSoUpload_sized {soFile : SoFile} {remoteName : CStr} (h0 : 0 ≤ soFile.fileSize)
    (hfits : (reqHeadSize + 12 + (remoteName.strlen + 1 + soFile.fileSize) : ℤ) ≤ intMax) :
    ∃ msg, buildSoUpload (some soFile) remoteName = some msg ∧
      (msg.cells.length : ℤ) = msg.msgLen ∧
      msg.IsRequest DicOperation.soUpload.code
        (Cells.stored (le64 (UInt64.ofInt soFile.fileSize) ++ le32 (toU32 remoteName.strlen) ++
            remoteName.bytes ++ soFile.contents.take soFile.fileSize.toNat) ++
          List.replicate (soFile.fileSize.toNat - soFile.contents.length) none) := by
  have hname : toCInt remoteName.strlen = remoteName.strlen :=
    toCInt_of_le (by omega)
  have hsize : toSizeT soFile.fileSize = soFile.fileSize.toNat := by
    unfold toSizeT
    unfold intMax at hfits
    omega
  have hrest : soFile.fileSize.toNat - min soFile.fileSize.toNat soFile.contents.length =
      soFile.fileSize.toNat - soFile.contents.length := by
    omega
  let body : Cells UInt8 :=
    Cells.stored (le64 (UInt64.ofInt soFile.fileSize) ++ le32 (toU32 remoteName.strlen) ++
      remoteName.bytes ++ soFile.contents.take soFile.fileSize.toNat) ++
    List.replicate (soFile.fileSize.toNat - soFile.contents.length) none
  have hlen : body.length = 12 + (remoteName.strlen + 1 + soFile.fileSize.toNat) := by
    simp only [body, List.length_append, Cells.length_stored, length_le64, length_le32,
      CStr.length_bytes, List.length_take, List.length_replicate]
    omega
  -- the body fills the block exactly, so none of it is cut off
  have hreq : (reqBuilder .soUpload 12 (remoteName.strlen + 1 + soFile.fileSize) body).IsRequest
      DicOperation.soUpload.code body := by
    have hn : ((12 : ℕ) : ℤ) + (remoteName.strlen + 1 + soFile.fileSize) = (body.length : ℕ) := by
      rw [hlen]
      omega
    have hbody : (reqBuilder .soUpload 12 (remoteName.strlen + 1 + soFile.fileSize)
        body).IsRequest DicOperation.soUpload.code (body.take body.length) :=
      reqBuilder_isRequest hn le_rfl (by rw [hlen]; omega)
    rwa [List.take_length] at hbody
  refine ⟨reqBuilder .soUpload 12 (remoteName.strlen + 1 + soFile.fileSize) body, ?_, ?_, hreq⟩
  · simp only [buildSoUpload, Option.map_some, hname, hsize, List.length_take, hrest, body]
  · rw [hreq.len]
    simp [reqBuilder]

/-- The terminator of the symbol is not sent. -/
theorem buildFuncLoad_isRequest {symbol : CStr}
    (hfits : (reqHeadSize + 12 + symbol.strlen : ℤ) ≤ intMax) :
    (buildFuncLoad handle symbol).IsRequest DicOperation.funcLoad.code
      (Cells.stored (le64 handle ++ le32 (toU32 symbol.strlen) ++ symbol.chars)) := by
  have hlen : toCInt symbol.strlen = symbol.strlen := toCInt_of_le (by omega)
  have hbytes : (le64 handle ++ le32 (toU32 symbol.strlen) ++ symbol.bytes).take
      (12 + symbol.strlen) = le64 handle ++ le32 (toU32 symbol.strlen) ++ symbol.chars := by
    rw [CStr.bytes, ← List.append_assoc]
    exact List.take_left' (by simp [CStr.strlen]; omega)
  simp only [buildFuncLoad, hlen]
  rw [← hbytes, ← Cells.take_stored]
  apply reqBuilder_isRequest
  · push_cast
    ring
  · simp only [Cells.length_stored, List.length_append, length_le64, length_le32,
      CStr.length_bytes]
    omega
  · omega

theorem buildRthreadRun_isRequest :
    (buildRthreadRun funcPtr argsPtr).IsRequest DicOperation.run.code
      (Cells.stored (le64 funcPtr ++ le64 argsPtr)) :=
  reqBuilder_stored (by simp) (by simp [reqHeadSize, intMax])

theorem buildRthreadJoin_isRequest :
    (buildRthreadJoin tid).IsRequest DicOperation.join.code (Cells.stored (le64 tid)) :=
  reqBuilder_stored (by simp) (by simp [reqHeadSize, intMax])

end

end Dicon.Client
