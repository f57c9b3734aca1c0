import Dicon.RemoteObjects.Upload
import Dicon.RemoteObjects.Verify

/-!
# The path of a library that is loaded

`handle_so_load` formats `user_objects/<name>.so` into a block of its own, whose size
it computes from the prefix and from the `so_len` of the request. Both count a
terminator; the suffix counts three characters more, and nobody counts them.
`handle_so_upload` formats the same path with `asprintf`.
-/

namespace Dicon.RemoteObjects

open Framework Node Client

/-- `sizeof(so_path_prefix) + req_body->so_len` -/
def soPathAllocated (b : List UInt8) : ℕ := userObjects.length + 1 + (rd32At b 0).toNat

/-- The path that `handle_so_load` hands to `dlopen`. -/
def loadPath (b : List UInt8) : List UInt8 := soPath (cString b 4)

/-- What its `sprintf` writes, terminator included. -/
def soPathWritten (b : List UInt8) : ℕ := (loadPath b).length + 1

/-- The path that `handle_so_upload` opens for writing. -/
def uploadPath (b : List UInt8) : List UInt8 := soPath (cString b 12)

/-- The load of a name stays inside its block, and opens what an upload under the
same name wrote. -/
structure LoadPathFits (name : CStr) : Prop where
  fits : ∀ rest, soPathWritten (nameBody name ++ rest) ≤ soPathAllocated (nameBody name ++ rest)
  names : ∀ bytes rest rest',
    loadPath (nameBody name ++ rest) = uploadPath (uploadBody name bytes ++ rest')

section

variable {sys : Sys} {node node' : Node} {b : List UInt8} {msg : Msg}

theorem handleSoLoad_eq : handleSoLoad sys node b =
    some ({ node with
        past := node.past + (soPathWritten b - soPathAllocated b)
        calls := node.calls ++ [.dlopen (loadPath b)] },
      respBuilder (Cells.stored (le64 sys.handle))) :=
  rfl

theorem handleSoUpload_path (h : handleSoUpload sys node b = some (node', msg)) :
    ∃ bytes, node'.files = Function.update node.files (uploadPath b) (some bytes) := by
  simp only [handleSoUpload] at h
  split at h <;> cases h
  exact ⟨_, rfl⟩

/-- The prefix and a terminator, and what `so_len` says. -/
theorem soPathAllocated_eq (b : List UInt8) : soPathAllocated b = 14 + (rd32At b 0).toNat := rfl

/-- The prefix, the name, the suffix and a terminator. -/
theorem soPathWritten_eq (b : List UInt8) : soPathWritten b = 17 + (cString b 4).length := by
  have hprefix : userObjects.length = 13 := rfl
  have hsuffix : dotSo.length = 3 := rfl
  simp only [soPathWritten, loadPath, soPath, List.length_append, hprefix, hsuffix]
  omega

end

section

variable (name : CStr)

theorem cString_nameBody (rest : List UInt8) : cString (nameBody name ++ rest) 4 = name.chars := by
  rw [nameBody, cString_bytes _ (length_le32 _) name rest]

theorem loadPath_nameBody (rest : List UInt8) :
    loadPath (nameBody name ++ rest) = soPath name.chars := by
  rw [loadPath, cString_nameBody]

theorem uploadPath_uploadBody (bytes rest : List UInt8) :
    uploadPath (uploadBody name bytes ++ rest) = soPath name.chars := by
  rw [uploadPath, name_uploadBody]

theorem soLen_nameBody (rest : List UInt8) :
    rd32At (nameBody name ++ rest) 0 = toU32 (name.strlen + 1) := by
  rw [nameBody, List.append_assoc]
  exact rd32At_zero _ _

/-- `so_len` is the length of the name and one. -/
theorem not_fits (rest : List UInt8) :
    soPathAllocated (nameBody name ++ rest) + 2 ≤ soPathWritten (nameBody name ++ rest) := by
  have hlen : (toU32 (name.strlen + 1)).toNat ≤ name.strlen + 1 := by
    unfold toU32
    rw [UInt32.toNat_ofNat']
    omega
  have hchars : name.strlen = name.chars.length := rfl
  rw [soPathAllocated_eq, soPathWritten_eq, soLen_nameBody, cString_nameBody]
  omega

/-- What a load leaves behind the end of its block. -/
theorem dicSoLoad_past (env : Env) {s : Session} (hs : s.Synced)
    (hfits : (reqHeadSize + 4 + (name.strlen + 1) : ℤ) ≤ intMax) :
    ∃ t, dicSoLoad env s name = .ok (t, env.sys.handle) ∧
      t.serving.node.past = s.serving.node.past + 2 ∧
      t.serving.node.calls = s.serving.node.calls ++ [.dlopen (soPath name.chars)] := by
  have hover : soPathWritten (nameBody name ++ env.sys.beyond) -
      soPathAllocated (nameBody name ++ env.sys.beyond) = 2 := by
    have hlen : (toU32 (name.strlen + 1)).toNat = name.strlen + 1 :=
      toU32_toNat (n := name.strlen + 1) (by unfold intMax at hfits; omega)
    have hchars : name.strlen = name.chars.length := rfl
    rw [soPathAllocated_eq, soPathWritten_eq, soLen_nameBody, cString_nameBody, hlen]
    omega
  obtain ⟨t, msg, hcall, _, hhandled⟩ := dicSoLoad_handled env hs hfits
  rw [← nameBody, handleSoLoad_eq, hover, loadPath_nameBody] at hhandled
  obtain ⟨hnode, _⟩ := Prod.mk.inj (Option.some.inj hhandled)
  exact ⟨t, hcall, by rw [← hnode], by rw [← hnode]⟩

end

/-- For every name the path is two bytes longer than its block or more, although
both handlers form the same path. A load of a name that can be sent opens that path,
and leaves two bytes behind the end of the block. -/
theorem load_path_overruns (name : CStr) :
    ¬ LoadPathFits name ∧
    (∀ bytes rest rest',
      loadPath (nameBody name ++ rest) = uploadPath (uploadBody name bytes ++ rest')) ∧
    ∀ (env : Env) (s : Session), s.Synced →
      (reqHeadSize + 4 + (name.strlen + 1) : ℤ) ≤ intMax →
      ∃ t, dicSoLoad env s name = .ok (t, env.sys.handle) ∧
        t.serving.node.past = s.serving.node.past + 2 ∧
        t.serving.node.calls = s.serving.node.calls ++ [.dlopen (soPath name.chars)] := by
  refine ⟨fun h => ?_, fun bytes rest rest' => ?_, fun env s hs hfits => ?_⟩
  · have hle := h.fits []
    have hover := not_fits name []
    omega
  · rw [loadPath_nameBody, uploadPath_uploadBody]
  · exact dicSoLoad_past name env hs hfits

/-- The load of a library `a` writes 18 bytes into a block of 16. -/
theorem load_path_overrun_run : ¬ ∀ name, LoadPathFits name := by
  intro hall
  have hfits := (hall letterA).fits []
  exact absurd hfits (by decide)

end Dicon.RemoteObjects
