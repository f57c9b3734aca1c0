import Dicon.Client.InStep
import Dicon.Client.Strings

/-!
# Uploading a shared object

`dic_so_upload` sends a file behind its name in one variable-length field, and the
node takes the field apart again: the name with string functions, the file by the
two lengths in front. Builder, frame and handler together store the file as it is.
-/

namespace Dicon.RemoteObjects

open Framework Node Client

/-- A file that is opened and read to its end. -/
def wholeFile (bytes : List UInt8) : SoFile := ⟨bytes.length, bytes, by omega⟩

/-- The body of the request for a whole file. -/
def uploadBody (name : CStr) (bytes : List UInt8) : List UInt8 :=
  le64 (UInt64.ofInt bytes.length) ++ le32 (toU32 name.strlen) ++ name.bytes ++ bytes

section

variable {name : CStr} {bytes : List UInt8}

/-- The message lengths of an upload. -/
def UploadFits (name : CStr) (bytes : List UInt8) : Prop :=
  (reqHeadSize + 12 + name.strlen + 1 + bytes.length : ℕ) ≤ intMax

/-- The builder stores every byte of its message. -/
theorem buildSoUpload_whole (hfits : UploadFits name bytes) :
    ∃ msg, buildSoUpload (some (wholeFile bytes)) name = some msg ∧
      (msg.cells.length : ℤ) = msg.msgLen ∧
      msg.IsRequest DicOperation.soUpload.code (Cells.stored (uploadBody name bytes)) := by
  have h0 : 0 ≤ (wholeFile bytes).fileSize := by simp [wholeFile]
  have hbound : (reqHeadSize + 12 + (name.strlen + 1 + (wholeFile bytes).fileSize) : ℤ) ≤
      intMax := by
    simp only [wholeFile]
    unfold UploadFits at hfits
    omega
  obtain ⟨msg, hmsg, hcells, hreq⟩ := buildSoUpload_sized h0 hbound
  refine ⟨msg, hmsg, hcells, ?_⟩
  simpa [wholeFile, uploadBody] using hreq

/-! ## What the node reads -/

theorem uploadBody_append (rest : List UInt8) : uploadBody name bytes ++ rest =
    le64 (UInt64.ofInt bytes.length) ++
      (le32 (toU32 name.strlen) ++ (name.bytes ++ (bytes ++ rest))) := by
  simp [uploadBody]

theorem fileSize_uploadBody (hfits : UploadFits name bytes) (rest : List UInt8) :
    (rd64At (uploadBody name bytes ++ rest) 0).toNat = bytes.length := by
  rw [uploadBody_append, rd64At_zero]
  unfold UploadFits intMax at hfits
  simp [UInt64.ofInt]
  omega

theorem nameLen_uploadBody (hfits : UploadFits name bytes) (rest : List UInt8) :
    (rd32At (uploadBody name bytes ++ rest) 8).toNat = name.strlen := by
  rw [uploadBody_append, rd32At_append _ (length_le64 _)]
  unfold UploadFits intMax at hfits
  exact toU32_toNat (by omega)

theorem name_uploadBody (rest : List UInt8) :
    cString (uploadBody name bytes ++ rest) 12 = name.chars := by
  rw [uploadBody, List.append_assoc _ bytes]
  exact cString_bytes _ (by simp) name _

/-- The file starts where the client put it: behind the name and its NUL. -/
theorem file_uploadBody (rest : List UInt8) :
    ((uploadBody name bytes ++ rest).drop (12 + name.strlen + 1)).take bytes.length =
      bytes := by
  have hfront : (le64 (UInt64.ofInt bytes.length) ++ le32 (toU32 name.strlen) ++
      name.bytes).length = 12 + name.strlen + 1 := by
    simp
    omega
  rw [uploadBody, List.append_assoc _ bytes, List.drop_left' hfront, List.take_left]

/-- The handler writes the file under the name, as far as `fwrite` gets. -/
theorem handleSoUpload_uploadBody {sys : Sys} (node : Node) (hfits : UploadFits name bytes)
    (hopen : sys.fopened = true) (rest : List UInt8) :
    handleSoUpload sys node (uploadBody name bytes ++ rest) =
      some (node.writeFile (soPath name.chars) (bytes.take sys.fwritten),
        respBuilder (List.replicate 4 none)) := by
  simp only [handleSoUpload, hopen, if_true, fileSize_uploadBody hfits,
    nameLen_uploadBody hfits, name_uploadBody, file_uploadBody]

theorem handleSoUpload_whole {sys : Sys} (node : Node) (hfits : UploadFits name bytes)
    (hopen : sys.fopened = true) (hwrite : bytes.length ≤ sys.fwritten) (rest : List UInt8) :
    handleSoUpload sys node (uploadBody name bytes ++ rest) =
      some (node.writeFile (soPath name.chars) bytes, respBuilder (List.replicate 4 none)) := by
  rw [handleSoUpload_uploadBody node hfits hopen, List.take_of_length_le hwrite]

theorem dicSoUpload_ok (env : Env) {s : Session} (hs : s.Synced) (hfits : UploadFits name bytes)
    (hopen : env.sys.fopened = true) (hwrite : bytes.length ≤ env.sys.fwritten) :
    ∃ t success, dicSoUpload env s (some (wholeFile bytes)) name = .ok (t, success) ∧
      t.Synced ∧ t.serving.node = s.serving.node.writeFile (soPath name.chars) bytes := by
  obtain ⟨msg, hmsg, _, hreq⟩ := buildSoUpload_whole hfits
  have hrequest : env.request (Cells.stored (uploadBody name bytes)) =
      uploadBody name bytes ++ env.sys.beyond := by
    rw [Env.request, Env.sent, Cells.fill_stored]
  have hdisp : dispatch env.sys s.serving.node
      (env.request (Cells.stored (uploadBody name bytes))) DicOperation.soUpload.code =
        some (s.serving.node.writeFile (soPath name.chars) bytes,
          some (respBuilder (List.replicate 4 none))) := by
    rw [hrequest, dispatch_code]
    simp only [handleSoUpload_whole s.serving.node hfits hopen hwrite]
    rfl
  obtain ⟨t, hcall, ht, hnode, _⟩ :=
    hs.remoteCall hreq hdisp (isResponse_of_short (by simp)) (readInt 0)
  refine ⟨t, (readInt 0).value (env.answered (List.replicate 4 none) ++ env.beyond), ?_, ht, hnode⟩
  rw [dicSoUpload, hmsg, hcall]

/-- Where the node cannot open its file, it crashes. -/
theorem dicSoUpload_crashed (env : Env) {s : Session} (hs : s.Synced)
    (hfits : UploadFits name bytes) (hclosed : env.sys.fopened = false) :
    dicSoUpload env s (some (wholeFile bytes)) name = .error .crashed := by
  obtain ⟨msg, hmsg, _, hreq⟩ := buildSoUpload_whole hfits
  have hdisp : dispatch env.sys s.serving.node
      (env.request (Cells.stored (uploadBody name bytes))) DicOperation.soUpload.code = none := by
    rw [dispatch_code]
    simp [handleSoUpload, hclosed, ccase]
  rw [dicSoUpload, hmsg]
  exact hs.remoteCall_crashed hreq hdisp (readInt 0)

/-! ## The frame -/

/-- Where `handle_so_upload` takes the file from. -/
def fileOffset (b : List UInt8) : ℕ := 12 + (rd32At b 8).toNat + 1

/-- The frame of an upload: the builder stores each of its bytes, the file at
`name_len + 1` behind the start of the name, where the node looks for it. -/
structure WrittenWhole (msg : Msg) (name : CStr) (bytes : List UInt8) : Prop where
  written : ∀ i : ℕ, (i : ℤ) < msg.msgLen → ∃ v, msg.cells[i]? = some (some v)
  split : ∀ junk rest, fileOffset (received msg junk ++ rest) = 12 + name.strlen + 1
  file : msg.cells.region (reqHeadSize + (12 + name.strlen + 1)) bytes.length =
    Cells.stored bytes

theorem cells_of_request {msg : Msg} {operation : UInt16} {body : Cells UInt8}
    (h : msg.IsRequest operation body) (hlen : (msg.cells.length : ℤ) = msg.msgLen) :
    msg.cells = Cells.stored (ReqHead.bytes ⟨operation, 0, toU32 body.length⟩) ++ body := by
  rw [h.len] at hlen
  rw [← h.cells, List.take_of_length_le (by omega)]

theorem buildSoUpload_written {msg : Msg} (hfits : UploadFits name bytes)
    (hcells : (msg.cells.length : ℤ) = msg.msgLen)
    (hreq : msg.IsRequest DicOperation.soUpload.code (Cells.stored (uploadBody name bytes))) :
    WrittenWhole msg name bytes where
  written i hi := by
    have hall := cells_of_request hreq hcells
    rw [← Cells.stored_append] at hall
    rw [hall, Cells.stored, List.getElem?_map]
    rw [hall, Cells.length_stored] at hcells
    rw [List.getElem?_eq_getElem (by omega)]
    exact ⟨_, rfl⟩
  split junk rest := by
    rw [received_eq hreq, Cells.fill_stored, fileOffset, nameLen_uploadBody hfits]
  file := by
    have hhead : (Cells.stored (ReqHead.bytes ⟨DicOperation.soUpload.code, 0,
        toU32 (Cells.stored (uploadBody name bytes)).length⟩)).length = reqHeadSize := by
      simp
    have hfile : ((uploadBody name bytes).drop (12 + name.strlen + 1)).take bytes.length =
        bytes := by
      rw [← List.append_nil (uploadBody name bytes)]
      exact file_uploadBody []
    rw [cells_of_request hreq hcells, Cells.region, ← List.drop_drop, List.drop_left' hhead,
      Cells.drop_stored, Cells.take_stored, hfile]

end

/-- For every name, every content of the local file and every state of the
session: where the client opens and reads the file and the node opens and writes
its own, `dic_so_upload` returns and the node's file of that name holds exactly
the bytes of the local one; no other file changes. The builder stores every byte
of the frame, and the node splits name and file where the client did. -/
theorem so_upload_stores (env : Env) (s : Session) (name : CStr) (bytes : List UInt8)
    (hs : s.Synced) (hfits : UploadFits name bytes) (hopen : env.sys.fopened = true)
    (hwrite : bytes.length ≤ env.sys.fwritten) :
    (∃ t success, dicSoUpload env s (some (wholeFile bytes)) name = .ok (t, success) ∧
      t.serving.node.files (soPath name.chars) = some bytes ∧
      ∀ path, path ≠ soPath name.chars → t.serving.node.files path = s.serving.node.files path) ∧
    ∃ msg, buildSoUpload (some (wholeFile bytes)) name = some msg ∧
      WrittenWhole msg name bytes := by
  constructor
  · obtain ⟨t, success, hcall, _, hnode⟩ := dicSoUpload_ok env hs hfits hopen hwrite
    refine ⟨t, success, hcall, ?_, ?_⟩
    · rw [hnode]
      exact Function.update_self ..
    · intro path hpath
      rw [hnode]
      exact Function.update_of_ne hpath ..
  · obtain ⟨msg, hmsg, hcells, hreq⟩ := buildSoUpload_whole hfits
    exact ⟨msg, hmsg, buildSoUpload_written hfits hcells hreq⟩

/-- A NUL, a letter and a NUL under the name `a`. -/
theorem so_upload_stores_run :
    ∃ t success, dicSoUpload .calm (.start .new) (some (wholeFile [0, 97, 0])) letterA =
        .ok (t, success) ∧
      t.serving.node.files (soPath letterA.chars) = some [0, 97, 0] := by
  obtain ⟨⟨t, success, hcall, hfile, _⟩, _⟩ := so_upload_stores .calm (.start .new) letterA
    [0, 97, 0] (Session.synced_start _) (by unfold UploadFits; decide) rfl (by decide)
  exact ⟨t, success, hcall, hfile⟩

end Dicon.RemoteObjects
