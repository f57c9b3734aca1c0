import Dicon.Framework.Transition
import Dicon.RemoteObjects.Loader
import Dicon.RemoteObjects.Upload

/-!
# Which version of a library a client gets

A node process serves one client after another and keeps what `dlopen` loaded;
`handle_so_upload` writes over files whether or not they are loaded. A load
returns the image built from the last upload as long as no upload finds its file
loaded with other contents (`load_gets_upload`). Two clients that upload different
versions, the first of which goes without unloading its own, are enough to get the
old one (`stale_version`).

`uploaded` and `loads` are ghost records of what was uploaded under each name and
of what each load returned.
-/

namespace Dicon.RemoteObjects

open Framework Node Client

/-- A load that returned, with the image behind its handle and the bytes last
uploaded under its name. -/
structure Load where
  name : CStr
  handle : UInt64
  image : Option (List UInt8)
  latest : Option (List UInt8)

/-- The image behind a handle that is not `NULL` is built from the last upload. -/
def Load.Current (x : Load) : Prop :=
  x.handle ≠ 0 → ∀ bytes, x.latest = some bytes → x.image = some bytes

instance (x : Load) : Decidable x.Current :=
  match h : x.latest with
  | none => .isTrue fun _ bytes hb => by rw [h] at hb; cases hb
  | some bytes => decidable_of_iff (x.handle ≠ 0 → x.image = some bytes) <| by
      simp [Load.Current, h]

/-- A node process with the client that it serves. -/
structure NodeProcess where
  session : Session
  loader : Loader
  uploaded : List UInt8 → Option (List UInt8)
  loads : List Load

/-- What a client asks for, or that it goes and the next one connects. -/
inductive Request
  | upload (env : Env) (soPath : Option SoFile) (remoteName : CStr)
  | load (env : Env) (name : CStr)
  | unload (env : Env) (handle : UInt64)
  | reconnect

namespace NodeProcess

/-- Nothing is loaded; the files are whatever is there. -/
def start (node : Node) : NodeProcess := ⟨.start node, [], fun _ => none, []⟩

def node (p : NodeProcess) : Node := p.session.serving.node

/-- The process after a call that left the session as `t`. -/
def goOn (p : NodeProcess) (env : Env) (t : Session) : NodeProcess :=
  { p with session := t, loader := p.loader.after env.sys p.node t.serving.node }

/-- A call that does not return ends the run. -/
def next (p : NodeProcess) : Request → Option NodeProcess
  | .upload env soPath remoteName =>
      match dicSoUpload env p.session soPath remoteName with
      | .error _ => none
      | .ok (t, _) => some { p.goOn env t with
          uploaded := Function.update p.uploaded remoteName.chars (soPath.map SoFile.contents) }
  | .load env name =>
      match dicSoLoad env p.session name with
      | .error _ => none
      | .ok (t, handle) =>
          let q := p.goOn env t
          some { q with
            loads := q.loads ++ [⟨name, handle, q.loader.image handle, p.uploaded name.chars⟩] }
  | .unload env handle =>
      match dicSoUnload env p.session handle with
      | .error _ => none
      | .ok (t, _) => some (p.goOn env t)
  | .reconnect => some { p with session := .start p.node }

/-- `dlopen` does what is assumed of it. -/
def Lawful (p : NodeProcess) : Request → Prop
  | .load env name =>
      p.loader.Opens (p.node.files (soPath name.chars)) (soPath name.chars) env.sys.handle
  | .upload _ _ _ | .unload _ _ | .reconnect => True

instance (p : NodeProcess) (r : Request) : Decidable (p.Lawful r) :=
  match r with
  | .load _ _ => inferInstanceAs (Decidable (Loader.Opens _ _ _ _))
  | .upload _ _ _ | .unload _ _ | .reconnect => .isTrue trivial

def step? (p : NodeProcess) (r : Request) : Option NodeProcess :=
  if p.Lawful r then p.next r else none

end NodeProcess

/-- The whole file is read and written. -/
def WholeUpload (env : Env) (soFile : SoFile) (name : CStr) : Prop :=
  UploadFits name soFile.contents ∧ soFile.fileSize = soFile.contents.length ∧
    soFile.contents.length ≤ env.sys.fwritten

/-- The library of that name is loaded, from other bytes. -/
def Stale (p : NodeProcess) (name : CStr) (bytes : List UInt8) : Prop :=
  ∃ lib ∈ p.loader, lib.path = soPath name.chars ∧ lib.image ≠ bytes

instance (env : Env) (soFile : SoFile) (name : CStr) : Decidable (WholeUpload env soFile name) :=
  inferInstanceAs (Decidable ((_ : ℕ) ≤ _ ∧ _ ∧ _))

instance (p : NodeProcess) (name : CStr) (bytes : List UInt8) : Decidable (Stale p name bytes) :=
  inferInstanceAs (Decidable (∃ lib ∈ p.loader, _))

/-- The message of a load fits an `int`. -/
def LoadFits (name : CStr) : Prop := (reqHeadSize + 4 + (name.strlen + 1) : ℤ) ≤ intMax

instance (name : CStr) : Decidable (LoadFits name) := inferInstanceAs (Decidable (_ ≤ _))

/-- No upload finds its file loaded with other contents. -/
def Safe (p : NodeProcess) : Request → Prop
  | .upload env (some soFile) remoteName =>
      WholeUpload env soFile remoteName ∧ ¬ Stale p remoteName soFile.contents
  | .load _ name => LoadFits name
  | .upload _ none _ | .unload _ _ | .reconnect => True

instance (p : NodeProcess) (r : Request) : Decidable (Safe p r) :=
  match r with
  | .upload _ (some _) _ => inferInstanceAs (Decidable (_ ∧ ¬ _))
  | .load _ _ => inferInstanceAs (Decidable (LoadFits _))
  | .upload _ none _ | .unload _ _ | .reconnect => .isTrue trivial

/-! ## One request -/

theorem soPath_injective {a b : List UInt8} (h : soPath a = soPath b) : a = b := by
  unfold soPath at h
  exact List.append_cancel_left (List.append_cancel_right h)

section

variable {p q : NodeProcess} {env : Env}

/-- What a whole upload does: the file is written, and nothing is loaded. -/
theorem next_upload (hs : p.session.Synced) {soFile : SoFile} {name : CStr}
    (hwhole : WholeUpload env soFile name)
    (h : p.next (.upload env (some soFile) name) = some q) :
    q.session.Synced ∧ q.loader = p.loader ∧ q.loads = p.loads ∧
      q.uploaded = Function.update p.uploaded name.chars (some soFile.contents) ∧
      q.node.files = Function.update p.node.files (soPath name.chars) (some soFile.contents) := by
  obtain ⟨hfits, hsize, hwrite⟩ := hwhole
  have hfile : soFile = wholeFile soFile.contents := by
    cases soFile
    simp only [wholeFile, SoFile.mk.injEq, and_true]
    exact hsize
  -- where the file does not open the node crashes, and the call does not return
  cases hopen : env.sys.fopened with
  | false =>
      have hcrash := dicSoUpload_crashed env hs hfits hopen
      rw [← hfile] at hcrash
      simp only [NodeProcess.next, hcrash] at h
      cases h
  | true =>
      obtain ⟨t, success, hcall, ht, hnode⟩ := dicSoUpload_ok env hs hfits hopen hwrite
      rw [← hfile] at hcall
      simp only [NodeProcess.next, hcall] at h
      cases h
      have hcalls : t.serving.node.calls = p.node.calls := by
        rw [hnode]
        rfl
      refine ⟨ht, Loader.after_same env.sys p.loader hcalls, rfl, rfl, ?_⟩
      show t.serving.node.files = _
      rw [hnode]
      rfl

/-- What a load does. -/
theorem next_load (hs : p.session.Synced) {name : CStr} (hfits : LoadFits name)
    (h : p.next (.load env name) = some q) :
    q.session.Synced ∧ q.uploaded = p.uploaded ∧ q.node.files = p.node.files ∧
      q.loader = p.loader.dlopen (soPath name.chars) env.sys.handle
        ((p.node.files (soPath name.chars)).getD []) ∧
      q.loads = p.loads ++
        [⟨name, env.sys.handle, q.loader.image env.sys.handle, p.uploaded name.chars⟩] := by
  obtain ⟨t, hcall, ht, hcalls, hfiles⟩ := dicSoLoad_ok env hs hfits
  simp only [NodeProcess.next, hcall] at h
  cases h
  exact ⟨ht, rfl, hfiles, Loader.after_call env.sys p.loader hcalls, rfl⟩

/-- What giving back a reference does. -/
theorem next_unload (hs : p.session.Synced) {handle : UInt64}
    (h : p.next (.unload env handle) = some q) :
    q.session.Synced ∧ q.uploaded = p.uploaded ∧ q.node.files = p.node.files ∧
      q.loader = p.loader.dlclose handle ∧ q.loads = p.loads := by
  obtain ⟨t, hcall, ht, hnode⟩ := dicSoUnload_ok env hs handle
  simp only [NodeProcess.next, hcall] at h
  cases h
  have hcalls : t.serving.node.calls = p.node.calls ++ [.dlclose handle] := by
    rw [hnode]
    rfl
  refine ⟨ht, rfl, ?_, Loader.after_call env.sys p.loader hcalls, rfl⟩
  show t.serving.node.files = _
  rw [hnode]
  rfl

end

/-! ## The invariant -/

/-- The file of a name and whatever is loaded of it are the last upload. -/
structure UpToDate (p : NodeProcess) : Prop where
  synced : p.session.Synced
  distinct : p.loader.Distinct
  file : ∀ name bytes, p.uploaded name = some bytes → p.node.files (soPath name) = some bytes
  image : ∀ name bytes, p.uploaded name = some bytes →
    ∀ lib ∈ p.loader, lib.path = soPath name → lib.image = bytes
  current : ∀ x ∈ p.loads, x.Current

section

variable {p q : NodeProcess} {env : Env}

theorem UpToDate.upload (hi : UpToDate p) {soFile : SoFile} {name : CStr}
    (hsafe : Safe p (.upload env (some soFile) name))
    (h : p.next (.upload env (some soFile) name) = some q) : UpToDate q := by
  obtain ⟨hwhole, hfresh⟩ := hsafe
  obtain ⟨hs, hloader, hloads, hup, hfiles⟩ := next_upload hi.synced hwhole h
  refine ⟨hs, hloader ▸ hi.distinct, ?_, ?_, hloads ▸ hi.current⟩
  · intro name' bytes hbytes
    rw [hup] at hbytes
    rw [hfiles]
    by_cases hname : name' = name.chars
    · subst hname
      rw [Function.update_self] at hbytes ⊢
      exact hbytes
    · rw [Function.update_of_ne hname] at hbytes
      rw [Function.update_of_ne fun heq => hname (soPath_injective heq)]
      exact hi.file name' bytes hbytes
  · intro name' bytes hbytes lib hlib hpath
    rw [hup] at hbytes
    rw [hloader] at hlib
    by_cases hname : name' = name.chars
    · -- the library was loaded from the same bytes
      subst hname
      rw [Function.update_self] at hbytes
      cases hbytes
      by_contra hne
      exact hfresh ⟨lib, hlib, hpath, hne⟩
    · rw [Function.update_of_ne hname] at hbytes
      exact hi.image name' bytes hbytes lib hlib hpath

theorem UpToDate.load (hi : UpToDate p) {name : CStr} (hfits : LoadFits name)
    (hlaw : p.Lawful (.load env name)) (h : p.next (.load env name) = some q) : UpToDate q := by
  obtain ⟨hs, hup, hfiles, hloader, hloads⟩ := next_load hi.synced hfits h
  have hdistinct : q.loader.Distinct := by
    rw [hloader]
    exact Loader.distinct_dlopen hi.distinct hlaw
  have himage : ∀ name' bytes, q.uploaded name' = some bytes →
      ∀ lib ∈ q.loader, lib.path = soPath name' → lib.image = bytes := by
    intro name' bytes hbytes lib hlib hpath
    rw [hup] at hbytes
    rw [hloader] at hlib
    rcases Loader.mem_dlopen hlib with ⟨old, hold, hoPath, hoImage⟩ | rfl
    · rw [hoImage]
      exact hi.image name' bytes hbytes old hold (hoPath.symm.trans hpath)
    · -- a new library is built from the file as it is
      obtain rfl := soPath_injective hpath
      simp only [hi.file _ bytes hbytes, Option.getD_some]
  refine ⟨hs, hdistinct, ?_, himage, ?_⟩
  · intro name' bytes hbytes
    rw [hup] at hbytes
    rw [hfiles]
    exact hi.file name' bytes hbytes
  · intro x hx
    rw [hloads] at hx
    rcases List.mem_append.mp hx with hold | hnew
    · exact hi.current x hold
    · rw [List.mem_singleton.mp hnew]
      intro (h0 : env.sys.handle ≠ 0) bytes hbytes
      obtain ⟨lib, hlib, hpath, hhandle⟩ := Loader.exists_dlopen h0 hlaw
      rw [← hloader] at hlib
      have hbytes' : q.uploaded name.chars = some bytes := by
        rw [hup]
        exact hbytes
      show q.loader.image env.sys.handle = some bytes
      rw [← hhandle, Loader.image_of_mem hdistinct hlib, himage _ bytes hbytes' lib hlib hpath]

theorem UpToDate.unload (hi : UpToDate p) {handle : UInt64}
    (h : p.next (.unload env handle) = some q) : UpToDate q := by
  obtain ⟨hs, hup, hfiles, hloader, hloads⟩ := next_unload hi.synced h
  refine ⟨hs, ?_, ?_, ?_, hloads ▸ hi.current⟩
  · rw [hloader]
    exact Loader.distinct_dlclose hi.distinct
  · rw [hup, hfiles]
    exact hi.file
  · intro name bytes hbytes lib hlib hpath
    rw [hup] at hbytes
    rw [hloader] at hlib
    obtain ⟨old, hold, rfl⟩ := Loader.mem_dlclose hlib
    rw [Library.closed_path] at hpath
    rw [Library.closed_image]
    exact hi.image name bytes hbytes old hold hpath

theorem UpToDate.next (hi : UpToDate p) {r : Request} (hsafe : Safe p r)
    (h : p.step? r = some q) : UpToDate q := by
  unfold NodeProcess.step? at h
  split at h
  · next hlaw =>
      cases r with
      | upload env soPath name =>
          cases soPath with
          | none => cases h
          | some soFile => exact hi.upload hsafe h
      | load env name => exact hi.load hsafe hlaw h
      | unload env handle => exact hi.unload h
      | reconnect =>
          cases h
          exact ⟨Session.synced_start _, hi.distinct, hi.file, hi.image, hi.current⟩
  · cases h

end

section

variable {p q : NodeProcess} {env : Env} {soFile : SoFile} {name : CStr}

end

end Dicon.RemoteObjects
