import Dicon.Client.Memory
import Dicon.Client.Strings
import Mathlib.Data.List.Nodup

/-!
# The dynamic loader of a node process

What `dlopen` and `dlclose` keep: the loaded libraries, each under its file and
its handle, with a count of the references to it. To open a file that is loaded
returns the library that is there; a library goes with its last reference. The
loader is outside the node's own state: `Loader.after` reads off what one request
made of it in the calls that the node made.
-/

namespace Dicon.RemoteObjects

open Framework Node Client

/-- A loaded library. -/
structure Library where
  path : List UInt8
  handle : UInt64
  refs : ℕ
  /-- the bytes that it was built from -/
  image : List UInt8
deriving DecidableEq

namespace Library

/-- One reference more, where the library is the one of that file. -/
def opened (path : List UInt8) (lib : Library) : Library :=
  if lib.path = path then { lib with refs := lib.refs + 1 } else lib

/-- One reference less, where the library is the one behind that handle. -/
def closed (handle : UInt64) (lib : Library) : Library :=
  if lib.handle = handle then { lib with refs := lib.refs - 1 } else lib

section

variable (path : List UInt8) (h : UInt64) (lib : Library)

@[simp] theorem opened_path : (lib.opened path).path = lib.path := by
  unfold opened
  split <;> rfl

@[simp] theorem opened_handle : (lib.opened path).handle = lib.handle := by
  unfold opened
  split <;> rfl

@[simp] theorem opened_image : (lib.opened path).image = lib.image := by
  unfold opened
  split <;> rfl

@[simp] theorem closed_path : (lib.closed h).path = lib.path := by
  unfold closed
  split <;> rfl

@[simp] theorem closed_handle : (lib.closed h).handle = lib.handle := by
  unfold closed
  split <;> rfl

@[simp] theorem closed_image : (lib.closed h).image = lib.image := by
  unfold closed
  split <;> rfl

end

end Library

abbrev Loader := List Library

namespace Loader

def loaded (l : Loader) : List (List UInt8) := l.map Library.path

/-- `dlopen(path)` with the handle that it returns. -/
def dlopen (l : Loader) (path : List UInt8) (handle : UInt64) (image : List UInt8) : Loader :=
  if handle = 0 then l
  else if path ∈ l.loaded then l.map (Library.opened path)
  else l ++ [⟨path, handle, 1, image⟩]

/-- `dlclose(handle)` -/
def dlclose (l : Loader) (handle : UInt64) : Loader :=
  (l.map (Library.closed handle)).filter fun lib => 0 < lib.refs

/-- The library behind a handle. -/
def image (l : Loader) (handle : UInt64) : Option (List UInt8) :=
  (l.find? fun lib => lib.handle = handle).map Library.image

/-- One call of the node; an image is built from the file as it is then. -/
def serve (sys : Sys) (files : List UInt8 → Option (List UInt8)) (l : Loader) : SysCall → Loader
  | .dlopen path => l.dlopen path sys.handle ((files path).getD [])
  | .dlclose handle => l.dlclose handle
  | .dlsym _ _ | .pthreadCreate _ _ | .pthreadJoin _ => l

/-- The loader after a request that took the node from `node` to `node'`. -/
def after (sys : Sys) (l : Loader) (node node' : Node) : Loader :=
  (node'.calls.drop node.calls.length).foldl (serve sys node.files) l

section

variable {l : Loader} {path image : List UInt8} {handle : UInt64}

theorem map_handle_of {f : Library → Library} (hf : ∀ lib, (f lib).handle = lib.handle) :
    (l.map f).map Library.handle = l.map Library.handle := by
  rw [List.map_map]
  exact List.map_congr_left fun lib _ => hf lib

theorem loaded_map_of {f : Library → Library} (hf : ∀ lib, (f lib).path = lib.path) :
    loaded (l.map f) = l.loaded := by
  rw [loaded, List.map_map]
  exact List.map_congr_left fun lib _ => hf lib

theorem dlopen_failed : l.dlopen path 0 image = l := if_pos rfl

theorem dlopen_loaded (h0 : handle ≠ 0) (h : path ∈ l.loaded) :
    l.dlopen path handle image = l.map (Library.opened path) := by
  rw [dlopen, if_neg h0, if_pos h]

theorem dlopen_new (h0 : handle ≠ 0) (h : path ∉ l.loaded) :
    l.dlopen path handle image = l ++ [⟨path, handle, 1, image⟩] := by
  rw [dlopen, if_neg h0, if_neg h]

end

/-! ## The library behind a handle -/

/-- Handles are addresses; each is the handle of one library, and each file is
loaded once. -/
structure Distinct (l : Loader) : Prop where
  ne_zero : ∀ lib ∈ l, lib.handle ≠ 0
  handles : (l.map Library.handle).Nodup
  paths : l.loaded.Nodup

section

variable {l : Loader} {path image : List UInt8} {h : UInt64}

theorem image_of_mem (hl : l.Distinct) {lib : Library} (hmem : lib ∈ l) :
    l.image lib.handle = some lib.image := by
  have hfound : (l.find? fun lib' => lib'.handle = lib.handle).isSome := by
    rw [List.find?_isSome]
    exact ⟨lib, hmem, by simp⟩
  obtain ⟨lib', hlib'⟩ := Option.isSome_iff_exists.mp hfound
  have hsame : lib' = lib := by
    have heq := List.find?_some hlib'
    exact List.inj_on_of_nodup_map hl.handles (List.mem_of_find?_eq_some hlib') hmem
      (of_decide_eq_true heq)
  rw [image, hlib', hsame]
  rfl

theorem distinct_opened (hl : l.Distinct) : Distinct (l.map (Library.opened path)) where
  ne_zero lib hmem := by
    obtain ⟨lib', hlib', rfl⟩ := List.mem_map.mp hmem
    rw [Library.opened_handle]
    exact hl.ne_zero lib' hlib'
  handles := by
    rw [map_handle_of (Library.opened_handle path)]
    exact hl.handles
  paths := by
    rw [loaded_map_of (Library.opened_path path)]
    exact hl.paths

theorem distinct_new (hl : l.Distinct) {lib : Library} (h0 : lib.handle ≠ 0)
    (hfresh : ∀ lib' ∈ l, lib'.handle ≠ lib.handle) (hpath : lib.path ∉ l.loaded) :
    Distinct (l ++ [lib]) where
  ne_zero lib' hmem := by
    rcases List.mem_append.mp hmem with hold | hnew
    · exact hl.ne_zero lib' hold
    · rw [List.mem_singleton.mp hnew]
      exact h0
  handles := by
    rw [List.map_append, List.map_singleton]
    refine List.nodup_append'.mpr ⟨hl.handles, List.nodup_singleton _, ?_⟩
    intro x hx hx'
    obtain ⟨lib', hlib', rfl⟩ := List.mem_map.mp hx
    exact hfresh lib' hlib' (List.mem_singleton.mp hx')
  paths := by
    rw [loaded, List.map_append, List.map_singleton]
    refine List.nodup_append'.mpr ⟨hl.paths, List.nodup_singleton _, ?_⟩
    intro x hx hx'
    rw [List.mem_singleton.mp hx'] at hx
    exact hpath hx

/-- What is left of the libraries when a reference is given back. -/
theorem mem_dlclose {lib : Library} (hmem : lib ∈ l.dlclose h) :
    ∃ lib' ∈ l, lib = lib'.closed h := by
  obtain ⟨lib', hlib', heq⟩ := List.mem_map.mp (List.mem_of_mem_filter hmem)
  exact ⟨lib', hlib', heq.symm⟩

theorem distinct_dlclose (hl : l.Distinct) : Distinct (l.dlclose h) where
  ne_zero lib hmem := by
    obtain ⟨lib', hlib', rfl⟩ := mem_dlclose hmem
    rw [Library.closed_handle]
    exact hl.ne_zero lib' hlib'
  handles := by
    have hsub : List.Sublist ((l.dlclose h).map Library.handle)
        ((l.map (Library.closed h)).map Library.handle) :=
      List.filter_sublist.map _
    rw [map_handle_of (Library.closed_handle h)] at hsub
    exact hsub.nodup hl.handles
  paths := by
    have hsub : List.Sublist (l.dlclose h).loaded (loaded (l.map (Library.closed h))) :=
      List.filter_sublist.map _
    rw [loaded_map_of (Library.closed_path h)] at hsub
    exact hsub.nodup hl.paths

end

/-- What is assumed of `dlopen`: a file that is loaded gives the library that is
there; otherwise it fails, or the file is there and the handle is a new one. -/
def Opens (l : Loader) (file : Option (List UInt8)) (path : List UInt8) (h : UInt64) : Prop :=
  (∀ lib ∈ l, lib.path = path → h = lib.handle) ∧
    (path ∉ l.loaded → h ≠ 0 → file.isSome ∧ ∀ lib ∈ l, lib.handle ≠ h)

instance (l : Loader) (file : Option (List UInt8)) (path : List UInt8) (h : UInt64) :
    Decidable (l.Opens file path h) :=
  inferInstanceAs (Decidable (_ ∧ _))

section

variable {l : Loader} {path image : List UInt8} {h : UInt64} {file : Option (List UInt8)}

theorem distinct_dlopen (hl : l.Distinct) (hopens : l.Opens file path h) :
    (l.dlopen path h image).Distinct := by
  by_cases h0 : h = 0
  · subst h0
    rw [dlopen_failed]
    exact hl
  · by_cases hmem : path ∈ l.loaded
    · rw [dlopen_loaded h0 hmem]
      exact distinct_opened hl
    · rw [dlopen_new h0 hmem]
      exact distinct_new hl h0 (hopens.2 hmem h0).2 hmem

/-- The libraries after `dlopen`: those from before, and the new one. -/
theorem mem_dlopen {lib : Library} (hmem : lib ∈ l.dlopen path h image) :
    (∃ old ∈ l, lib.path = old.path ∧ lib.image = old.image) ∨
      lib = ⟨path, h, 1, image⟩ := by
  unfold dlopen at hmem
  split at hmem
  · exact Or.inl ⟨lib, hmem, rfl, rfl⟩
  · split at hmem
    · obtain ⟨old, hold, rfl⟩ := List.mem_map.mp hmem
      exact Or.inl ⟨old, hold, Library.opened_path path old, Library.opened_image path old⟩
    · rcases List.mem_append.mp hmem with hold | hnew
      · exact Or.inl ⟨lib, hold, rfl, rfl⟩
      · exact Or.inr (List.mem_singleton.mp hnew)

/-- The library behind the handle that `dlopen` returns. -/
theorem exists_dlopen (h0 : h ≠ 0) (hopens : l.Opens file path h) :
    ∃ lib ∈ l.dlopen path h image, lib.path = path ∧ lib.handle = h := by
  by_cases hmem : path ∈ l.loaded
  · rw [dlopen_loaded h0 hmem]
    obtain ⟨lib, hlib, hpath⟩ := List.mem_map.mp hmem
    refine ⟨_, List.mem_map_of_mem hlib, ?_, ?_⟩
    · rw [Library.opened_path, hpath]
    · rw [Library.opened_handle, hopens.1 lib hlib hpath]
  · rw [dlopen_new h0 hmem]
    exact ⟨_, List.mem_append_right _ (List.mem_singleton_self _), rfl, rfl⟩

end

/-! ## The loader during a request -/

/-- One call of the node. -/
theorem after_call (sys : Sys) (l : Loader) {node node' : Node} {c : SysCall}
    (h : node'.calls = node.calls ++ [c]) : l.after sys node node' = serve sys node.files l c := by
  rw [after, h, List.drop_left]
  rfl

/-- No call of the node. -/
theorem after_same (sys : Sys) (l : Loader) {node node' : Node} (h : node'.calls = node.calls) :
    l.after sys node node' = l := by
  rw [after, h, List.drop_length]
  rfl

end Loader

/-! ## The client functions -/

section

variable (env : Env) {s : Session}

/-- `dic_so_load` returns what `dlopen` gives, and leaves the node as the handler does. -/
theorem dicSoLoad_handled (hs : s.Synced) {name : CStr}
    (hfits : (reqHeadSize + 4 + (name.strlen + 1) : ℤ) ≤ intMax) :
    ∃ t msg, dicSoLoad env s name = .ok (t, env.sys.handle) ∧ t.Synced ∧
      handleSoLoad env.sys s.serving.node
        (le32 (toU32 (name.strlen + 1)) ++ name.bytes ++ env.sys.beyond) =
          some (t.serving.node, msg) := by
  obtain ⟨node, hhandled⟩ : ∃ node, handleSoLoad env.sys s.serving.node
      (le32 (toU32 (name.strlen + 1)) ++ name.bytes ++ env.sys.beyond) =
        some (node, respBuilder (Cells.stored (le64 env.sys.handle))) := ⟨_, rfl⟩
  have hdisp : dispatch env.sys s.serving.node
      (le32 (toU32 (name.strlen + 1)) ++ name.bytes ++ env.sys.beyond) DicOperation.soLoad.code =
        some (node, some (respBuilder (Cells.stored (le64 env.sys.handle)))) := by
    rw [dispatch_code]
    simp only [hhandled]
    rfl
  obtain ⟨t, hcall, ht, hnode⟩ := hs.callU64 env (buildSoLoad_isRequest hfits) hdisp
  exact ⟨t, _, hcall, ht, by rw [hnode, hhandled]⟩

/-- It is what `dlopen` gives for the file of that name. -/
theorem dicSoLoad_ok (hs : s.Synced) {name : CStr}
    (hfits : (reqHeadSize + 4 + (name.strlen + 1) : ℤ) ≤ intMax) :
    ∃ t, dicSoLoad env s name = .ok (t, env.sys.handle) ∧ t.Synced ∧
      t.serving.node.calls = s.serving.node.calls ++ [.dlopen (soPath name.chars)] ∧
      t.serving.node.files = s.serving.node.files := by
  have hpath : cString (le32 (toU32 (name.strlen + 1)) ++ name.bytes ++ env.sys.beyond) 4 =
      name.chars := cString_bytes _ (length_le32 _) name _
  obtain ⟨t, msg, hcall, ht, hhandled⟩ := dicSoLoad_handled env hs hfits
  simp only [handleSoLoad, hpath] at hhandled
  obtain ⟨hnode, _⟩ := Prod.mk.inj (Option.some.inj hhandled)
  refine ⟨t, hcall, ht, ?_, ?_⟩
  · rw [← hnode]
    rfl
  · rw [← hnode]
    rfl

theorem dicSoUnload_ok (hs : s.Synced) (handle : UInt64) :
    ∃ t, dicSoUnload env s handle = .ok (t, 0) ∧ t.Synced ∧
      t.serving.node = s.serving.node.call (.dlclose handle) := by
  have hread : rd64At (le64 handle ++ env.sys.beyond) 0 = handle := rd64At_zero _ _
  have hdisp : dispatch env.sys s.serving.node (le64 handle ++ env.sys.beyond)
      DicOperation.soUnload.code = some (s.serving.node.call (.dlclose handle),
        some (respBuilder (Cells.stored (le32 0)))) := by
    rw [dispatch_code]
    simp only [handleSoUnload, hread]
    rfl
  obtain ⟨t, hcall, ht, hnode⟩ :=
    hs.call env (buildSoUnload_isRequest handle) hdisp (by simp [respHeadSize, intMax]) (readInt 0)
  refine ⟨t, ?_, ht, hnode⟩
  have hzero : toCInt (0 : UInt32).toNat = 0 := by decide
  rw [dicSoUnload, hcall, readInt, FieldReader.value_bind, FieldReader.value_pure,
    FieldReader.value_u32, rd32At_zero, hzero]

end

end Dicon.RemoteObjects
