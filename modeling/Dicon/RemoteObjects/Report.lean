import Dicon.Bounds.MessageLengths
import Dicon.RemoteObjects.Upload

/-!
# What an upload reports

`dic_so_upload` returns the `success` of the response, which `handle_so_upload`
never assigns: it is what the response block held before. Neither program looks at
the results of its file operations, so what the node's file holds afterwards depends
on how much `fread` and `fwrite` did, and the result on neither.
-/

namespace Dicon.RemoteObjects

open Framework Node Client Bounds

/-- An upload is reported truthfully: the client opens its file and builds a message
that lies inside its block, the node opens its own, and the result is zero exactly if
that file is the whole local one. -/
def Truthful (env : Env) (s : Session) (opened : Option SoFile) (name : CStr)
    (localFile : List UInt8) : Prop :=
  ∃ soFile, opened = some soFile ∧
    (∃ msg, buildSoUpload opened name = some msg ∧
      LengthExact .node (reqHeadSize + 12 + (name.strlen + 1 + soFile.fileSize)) msg) ∧
    ∃ t success, dicSoUpload env s opened name = .ok (t, success) ∧
      (success = 0 ↔ t.serving.node.files (soPath name.chars) = some localFile)

/-- What the message carries of the file: what `fread` delivered, and behind it what
the client's block held before. -/
def carried (env : Env) (soFile : SoFile) (name : CStr) : List UInt8 :=
  let delivered := soFile.contents.take soFile.fileSize.toNat
  delivered ++ (List.range (soFile.fileSize.toNat - soFile.contents.length)).map
    fun i => env.junk (reqHeadSize + (12 + (name.strlen + 1) + delivered.length) + i)

/-- What the node's file holds afterwards. -/
def transferred (env : Env) (soFile : SoFile) (name : CStr) : List UInt8 :=
  (carried env soFile name).take env.sys.fwritten

/-- The response block held zeros where `success` lies. -/
def ZeroResult (env : Env) : Prop := ∀ i < 4, env.sys.junk (respHeadSize + i) = 0

/-- The outcomes after which the report is the truth: both files open, the size is
one that the message has room for, and the old bytes of the response agree with what
became of the file. -/
def ReportsTruth (env : Env) (opened : Option SoFile) (name : CStr)
    (localFile : List UInt8) : Prop :=
  ∃ soFile, opened = some soFile ∧ 0 ≤ soFile.fileSize ∧
    (reqHeadSize + 12 + (name.strlen + 1 + soFile.fileSize) : ℤ) ≤ intMax ∧
    env.sys.fopened = true ∧ (ZeroResult env ↔ transferred env soFile name = localFile)

/-! ## What arrives -/

section

variable {env : Env} {soFile : SoFile} {name : CStr}

theorem length_carried (h0 : 0 ≤ soFile.fileSize) :
    ((carried env soFile name).length : ℤ) = soFile.fileSize := by
  simp only [carried, List.length_append, List.length_take, List.length_map, List.length_range]
  omega

/-- The request is the one for the bytes that the message carries. -/
theorem upload_request (env : Env) (h0 : 0 ≤ soFile.fileSize)
    (hfits : (reqHeadSize + 12 + (name.strlen + 1 + soFile.fileSize) : ℤ) ≤ intMax) :
    ∃ msg body, buildSoUpload (some soFile) name = some msg ∧
      msg.IsRequest DicOperation.soUpload.code body ∧
      env.sent body = uploadBody name (carried env soFile name) := by
  obtain ⟨msg, hmsg, _, hreq⟩ := buildSoUpload_sized h0 hfits
  refine ⟨msg, _, hmsg, hreq, ?_⟩
  rw [Env.sent, Cells.fill_append, Cells.fill_stored, Cells.fill_unwritten, uploadBody,
    length_carried h0, carried, List.append_assoc _ (soFile.contents.take _)]
  congr 2
  refine List.map_congr_left fun i _ => congrArg env.junk ?_
  simp only [Cells.length_stored, List.length_append, length_le64, length_le32,
    CStr.length_bytes]
  omega

/-- The message of such an upload has the lengths of one for the bytes that it
carries. -/
theorem uploadFits_carried (h0 : 0 ≤ soFile.fileSize)
    (hfits : (reqHeadSize + 12 + (name.strlen + 1 + soFile.fileSize) : ℤ) ≤ intMax) :
    UploadFits name (carried env soFile name) := by
  have hlen : ((carried env soFile name).length : ℤ) = soFile.fileSize := length_carried h0
  unfold UploadFits
  omega

/-- What the client reads as the result. -/
def staleResult (env : Env) : ℤ :=
  (readInt 0).value (env.answered (List.replicate 4 none) ++ env.beyond)

/-- The bytes that the client takes for the result. -/
theorem answered_unwritten (env : Env) : env.answered (List.replicate 4 none) =
    (List.range 4).map fun i => env.sys.junk (i + respHeadSize) := by
  rw [Env.answered, Cells.fill_unwritten]

theorem staleResult_eq_zero_iff : staleResult env = 0 ↔ ZeroResult env := by
  have hlen : (env.answered (List.replicate 4 none)).length = 4 := by
    simp [Env.answered]
  have hread : rd32At (env.answered (List.replicate 4 none) ++ env.beyond) 0 =
      rd32 (env.answered (List.replicate 4 none)) := by
    rw [rd32At, List.drop_zero, List.take_left' hlen]
  have hint : ∀ n : UInt32, toCInt n.toNat = 0 ↔ n = 0 := by
    intro n
    have hlt : n.toNat < 4294967296 := n.toNat_lt
    rw [← UInt32.toNat_inj, toCInt, Int.bmod_def]
    change _ ↔ n.toNat = 0
    split <;> omega
  rw [staleResult, readInt, FieldReader.value_bind, FieldReader.value_pure, FieldReader.value_u32,
    hint, hread, rd32_eq_zero_iff hlen, answered_unwritten, List.forall_mem_map]
  simp only [List.mem_range, ZeroResult, Nat.add_comm]

theorem dicSoUpload_reports (env : Env) {s : Session} (hs : s.Synced) (h0 : 0 ≤ soFile.fileSize)
    (hfits : (reqHeadSize + 12 + (name.strlen + 1 + soFile.fileSize) : ℤ) ≤ intMax)
    (hopen : env.sys.fopened = true) :
    ∃ t, dicSoUpload env s (some soFile) name = .ok (t, staleResult env) ∧
      t.serving.node.files (soPath name.chars) = some (transferred env soFile name) := by
  obtain ⟨msg, body, hmsg, hreq, hsent⟩ := upload_request env h0 hfits
  have hdisp : dispatch env.sys s.serving.node (env.request body) DicOperation.soUpload.code =
      some (s.serving.node.writeFile (soPath name.chars) (transferred env soFile name),
        some (respBuilder (List.replicate 4 none))) := by
    rw [Env.request, hsent, dispatch_code]
    simp only [handleSoUpload_uploadBody s.serving.node (uploadFits_carried h0 hfits) hopen]
    rfl
  obtain ⟨t, hcall, _, hnode, _⟩ :=
    hs.remoteCall hreq hdisp (isResponse_of_short (by simp)) (readInt 0)
  refine ⟨t, ?_, ?_⟩
  · rw [dicSoUpload, hmsg, hcall]
    rfl
  · rw [hnode]
    exact Function.update_self ..

/-- Where the node cannot open its file, it hands a null pointer to `fileno`. -/
theorem dicSoUpload_null {s : Session} (hs : s.Synced) (h0 : 0 ≤ soFile.fileSize)
    (hfits : (reqHeadSize + 12 + (name.strlen + 1 + soFile.fileSize) : ℤ) ≤ intMax)
    (hclosed : env.sys.fopened = false) :
    dicSoUpload env s (some soFile) name = .error .crashed := by
  obtain ⟨msg, body, hmsg, hreq, _⟩ := upload_request env h0 hfits
  have hdisp : dispatch env.sys s.serving.node (env.request body) DicOperation.soUpload.code =
      none := by
    rw [dispatch_code]
    simp [handleSoUpload, hclosed, ccase]
  rw [dicSoUpload, hmsg]
  exact hs.remoteCall_crashed hreq hdisp (readInt 0)

end

/-- For every name, every local file, and every outcome of the file operations on
either side: the upload is reported truthfully, if and only if both files open, the
size is known and its message fits, and the four bytes that the response block held
are zero exactly if the file got over whole. -/
theorem upload_truthful_iff (env : Env) (s : Session) (opened : Option SoFile) (name : CStr)
    (localFile : List UInt8) (hs : s.Synced) :
    Truthful env s opened name localFile ↔ ReportsTruth env opened name localFile := by
  constructor
  · rintro ⟨soFile, rfl, hbuilt, t, success, hcall, hreport⟩
    obtain ⟨h0, hfits⟩ := soUpload_exact_iff.mp hbuilt
    cases hopen : env.sys.fopened with
    | false =>
        rw [dicSoUpload_null hs h0 hfits hopen] at hcall
        cases hcall
    | true =>
        obtain ⟨t', hcall', hfile⟩ := dicSoUpload_reports env hs h0 hfits hopen
        rw [hcall'] at hcall
        cases hcall
        rw [staleResult_eq_zero_iff, hfile, Option.some.injEq] at hreport
        exact ⟨soFile, rfl, h0, hfits, hopen, hreport⟩
  · rintro ⟨soFile, rfl, h0, hfits, hopen, hreport⟩
    obtain ⟨t, hcall, hfile⟩ := dicSoUpload_reports env hs h0 hfits hopen
    refine ⟨soFile, rfl, soUpload_exact_iff.mpr ⟨h0, hfits⟩, t, _, hcall, ?_⟩
    rw [staleResult_eq_zero_iff, hfile, Option.some.injEq]
    exact hreport

/-- An upload of three bytes, with zeros in the response block. -/
theorem upload_truthful_run :
    Truthful .calm (.start .new) (some (wholeFile [1, 2, 3])) letterA [1, 2, 3] := by
  refine (upload_truthful_iff .calm (.start .new) _ letterA [1, 2, 3]
    (Session.synced_start _)).mpr ⟨_, rfl, by decide, by decide, rfl, ?_⟩
  exact iff_of_true (by unfold ZeroResult; decide) (by decide)

/-- A node whose `fwrite` stops after one byte. -/
def fullDisk : Env := { Env.calm with sys.fwritten := 1 }

/-- One byte of three gets into the node's file, and the result is zero. -/
theorem truncated_upload_unreported : ¬ ∀ (env : Env) (s : Session) (opened : Option SoFile)
    (name : CStr) (localFile : List UInt8), s.Synced →
      Truthful env s opened name localFile := by
  intro hall
  have h0 : 0 ≤ (wholeFile [1, 2, 3]).fileSize := by decide
  have hfits : (reqHeadSize + 12 + (letterA.strlen + 1 + (wholeFile [1, 2, 3]).fileSize) : ℤ) ≤
      intMax := by decide
  have hs := Session.synced_start .new
  obtain ⟨_, _, _, t, success, hcall, hreport⟩ :=
    hall fullDisk (.start .new) (some (wholeFile [1, 2, 3])) letterA [1, 2, 3] hs
  obtain ⟨t', hcall', hfile⟩ := dicSoUpload_reports fullDisk hs h0 hfits rfl
  rw [hcall'] at hcall
  cases hcall
  rw [staleResult_eq_zero_iff, hfile, Option.some.injEq] at hreport
  exact absurd (hreport.mp (by unfold ZeroResult; decide)) (by decide)

end Dicon.RemoteObjects
