import Dicon.Node.Loop

/-!
# What a response depends on

A handler builds its response in a block from `malloc` and, for `DIC_RUN` and
`DIC_JOIN`, copies a local variable into it. `Sys.fresh` changes what that block
and that variable held before; the response is the same unless the handler sends
what it never assigned (`response_determined_iff`). `handle_so_upload` never
assigns `success`; `handle_run` and `handle_join` assign nothing where the thread
library fails.
-/

namespace Dicon.Node

open Framework

/-- The same system with other contents of fresh memory. -/
def Sys.fresh (sys : Sys) (junk : ℕ → UInt8) (uninit : UInt64) : Sys :=
  { sys with junk := junk, uninit := uninit }

/-- The connection as a call leaves it. -/
def Outcome.conn : Outcome → Conn
  | .returned _ s => s.conn
  | .faulted s => s.conn

/-- What is sent after the switch. -/
def sentFor (sys : Sys) : Option (Node × Option Msg) → List UInt8
  | some (_, msg) => sentBytes sys msg
  | none => []

/-- All that is sent up to the end of the call. -/
def response (sys : Sys) (s : Serving) : List UInt8 := (dicNodeRecvSend sys s).conn.outgoing

/-- Fresh memory does not show in the response. -/
def Determined (sys : Sys) (s : Serving) : Prop :=
  ∀ junk uninit junk' uninit',
    response (sys.fresh junk uninit) s = response (sys.fresh junk' uninit') s

/-- Every field of the response is assigned, or there is no response. -/
def Sys.Assigns (sys : Sys) : DicOperation → Prop
  | .soUpload => sys.fopened = false
  | .run => sys.created ≠ none
  | .join => sys.joined ≠ some none
  | _ => True

section

variable {sys : Sys} {node node' : Node} {b : List UInt8} {op : DicOperation} {msg : Msg}
  {junk junk' : ℕ → UInt8} {uninit : UInt64}

/-- Fresh memory does not show in what a handler does. -/
theorem dispatch_fresh (h : sys.Assigns op) (hup : op ≠ .soUpload) (junk : ℕ → UInt8)
    (uninit : UInt64) : dispatch (sys.fresh junk uninit) node b op.code =
      dispatch sys node b op.code := by
  rw [dispatch_code, dispatch_code]
  cases op with
  | soUpload => exact absurd rfl hup
  | run =>
      obtain ⟨tid, htid⟩ := Option.ne_none_iff_exists'.mp h
      simp only [handleRun, Sys.fresh, htid, Option.getD_some]
  | join =>
      cases hjoined : sys.joined with
      | none => simp only [handleJoin, Sys.fresh, hjoined]; rfl
      | some ret =>
          obtain ⟨ptr, rfl⟩ : ∃ ptr, ret = some ptr := by
            apply Option.ne_none_iff_exists'.mp
            rintro rfl
            exact h hjoined
          simp only [handleJoin, Sys.fresh, hjoined]
          rfl
  | malloc | realloc | free | memcpyC2n | memcpyN2c | soVerify | soLoad | soUnload | funcLoad =>
      rfl

/-- All cells of a response other than the one to `DIC_SO_UPLOAD` are written. -/
theorem RespShape.stored {body : Cells UInt8} (h : RespShape op body) (hup : op ≠ .soUpload) :
    ∃ bs, body = Cells.stored bs := by
  cases op with
  | soUpload => exact absurd rfl hup
  | soVerify => exact absurd h id
  | malloc | realloc | soLoad | funcLoad | run | join =>
      obtain ⟨p, rfl⟩ := h
      exact ⟨_, rfl⟩
  | free | memcpyC2n | soUnload => exact ⟨_, h⟩
  | memcpyN2c =>
      obtain ⟨size, data, _, rfl⟩ := h
      exact ⟨_, rfl⟩

theorem bytes_of_stored {bs : List UInt8} (h : msg.IsResponse (Cells.stored bs))
    (junk : ℕ → UInt8) : msg.bytes junk = le32 (toU32 bs.length) ++ bs := by
  rw [h.bytes_eq, Cells.fill_stored, Cells.length_stored]

theorem sentFor_respBuilder {body : Cells UInt8} (h : body.length ≤ 8) :
    sentFor sys (some (node, some (respBuilder body))) =
      le32 (toU32 body.length) ++ Cells.fill (fun i => sys.junk (i + respHeadSize)) body := by
  rw [← (isResponse_of_short h).bytes_eq]
  simp [sentFor, sentBytes]

/-- What the request in front of the stream has sent. -/
theorem response_eq {s : Serving} {f : ReqFrame} {rest : List UInt8}
    (hopen : s.conn.sockOpen = true) (hstream : s.conn.incoming.bytes = f.bytes ++ rest) :
    response sys s = s.conn.outgoing ++
      sentFor sys (dispatch sys s.node (f.body ++ sys.beyond) f.operation) := by
  obtain ⟨incoming, _, _, hcall⟩ := recvSend_complete sys hopen hstream
  rw [response, hcall]
  cases hdisp : dispatch sys s.node (f.body ++ sys.beyond) f.operation with
  | none =>
      rw [answer_faulted hdisp]
      exact (List.append_nil _).symm
  | some r =>
      obtain ⟨node, m⟩ := r
      rw [answer_returned hdisp]
      exact sendMsg_sentBytes hopen hdisp

/-- A response all of whose fields are assigned. -/
theorem sentFor_fresh (h : sys.Assigns op) (junk : ℕ → UInt8) (uninit : UInt64) :
    sentFor (sys.fresh junk uninit) (dispatch (sys.fresh junk uninit) node b op.code) =
      sentFor sys (dispatch sys node b op.code) := by
  by_cases hup : op = .soUpload
  · subst hup
    -- the file did not open: the node crashes
    have hnone : ∀ sys' : Sys, sys'.fopened = false →
        dispatch sys' node b DicOperation.soUpload.code = none := by
      intro sys' hfile
      rw [dispatch_code]
      simp [handleSoUpload, hfile, ccase]
    rw [hnone sys h, hnone (sys.fresh junk uninit) h]
    rfl
  · rw [dispatch_fresh h hup]
    cases hdisp : dispatch sys node b op.code with
    | none => rfl
    | some r =>
        obtain ⟨node', m⟩ := r
        rcases dispatch_resp hdisp with ⟨_, rfl, _⟩ | ⟨msg, body, rfl, hmsg, hshape⟩
        · rfl
        · obtain ⟨bs, rfl⟩ := hshape.stored hup
          simp only [sentFor, sentBytes, Option.toList_some, List.flatMap_cons, List.flatMap_nil,
            bytes_of_stored hmsg]

/-! ## Fields that are not assigned -/

theorem sentFor_soUpload (h : sys.fopened = true) :
    sentFor sys (dispatch sys node b DicOperation.soUpload.code) =
      le32 4 ++ [sys.junk 4, sys.junk 5, sys.junk 6, sys.junk 7] := by
  rw [dispatch_code]
  simp only [handleSoUpload, h, if_true, ccase, Option.map_some]
  rw [sentFor_respBuilder (by simp)]
  rfl

theorem sentFor_run (h : sys.created = none) :
    sentFor sys (dispatch sys node b DicOperation.run.code) = le32 8 ++ le64 sys.uninit := by
  rw [dispatch_code]
  simp only [handleRun, h, Option.getD_none, ccase, Option.map_some]
  rw [sentFor_respBuilder (by simp), Cells.fill_stored, Cells.length_stored, length_le64]
  rfl

theorem sentFor_join (h : sys.joined = some none) :
    sentFor sys (dispatch sys node b DicOperation.join.code) = le32 8 ++ le64 sys.uninit := by
  have hret : handleJoin sys node b = some (node.call (.pthreadJoin (rd64At b 0)),
      respBuilder (Cells.stored (le64 sys.uninit))) := by
    rw [handleJoin, h]
    rfl
  rw [dispatch_code]
  simp only [hret, ccase, Option.map_some]
  rw [sentFor_respBuilder (by simp), Cells.fill_stored, Cells.length_stored, length_le64]
  rfl

/-- A response that is not assigned whole differs between two contents of fresh
memory. -/
theorem sentFor_differs (h : ¬ sys.Assigns op) (node : Node) (b : List UInt8) :
    sentFor (sys.fresh (fun _ => 0) 0) (dispatch (sys.fresh (fun _ => 0) 0) node b op.code) ≠
      sentFor (sys.fresh (fun _ => 1) 1)
        (dispatch (sys.fresh (fun _ => 1) 1) node b op.code) := by
  cases op with
  | soUpload =>
      have hfile : sys.fopened = true := by
        simpa [Sys.Assigns] using h
      rw [sentFor_soUpload (by exact hfile), sentFor_soUpload (by exact hfile)]
      show le32 4 ++ [0, 0, 0, 0] ≠ le32 4 ++ [1, 1, 1, 1]
      decide
  | run =>
      have hcreated : sys.created = none := by
        simpa [Sys.Assigns] using h
      rw [sentFor_run (by exact hcreated), sentFor_run (by exact hcreated)]
      show le32 8 ++ le64 0 ≠ le32 8 ++ le64 1
      decide
  | join =>
      have hjoined : sys.joined = some none := by
        simpa [Sys.Assigns] using h
      rw [sentFor_join (by exact hjoined), sentFor_join (by exact hjoined)]
      show le32 8 ++ le64 0 ≠ le32 8 ++ le64 1
      decide
  | malloc | realloc | free | memcpyC2n | memcpyN2c | soVerify | soLoad | soUnload | funcLoad =>
      exact absurd trivial h

end

/-- For every request of an operation of the enum that has arrived whole, every
state of the node and every outcome of the calls that its handler makes: two
executions that differ in what the response block and the uninitialised locals
held before send the same bytes if and only if the request is not a
`DIC_SO_UPLOAD` whose file opens, a `DIC_RUN` whose thread is not created, or a
`DIC_JOIN` that fails. -/
theorem response_determined_iff (sys : Sys) (s : Serving) (f : ReqFrame) (op : DicOperation)
    (rest : List UInt8) (hopen : s.conn.sockOpen = true)
    (hstream : s.conn.incoming.bytes = f.bytes ++ rest) (hop : f.operation = op.code) :
    Determined sys s ↔ sys.Assigns op := by
  have hresp : ∀ sys', response sys' s = s.conn.outgoing ++
      sentFor sys' (dispatch sys' s.node (f.body ++ sys'.beyond) op.code) := by
    intro sys'
    rw [response_eq hopen hstream, hop]
  constructor
  · intro hdet
    by_contra hassigns
    have hsame := hdet (fun _ => 0) 0 (fun _ => 1) 1
    rw [hresp, hresp, List.append_cancel_left_eq] at hsame
    exact sentFor_differs hassigns s.node (f.body ++ sys.beyond) hsame
  · intro hassigns junk uninit junk' uninit'
    have hbeyond : ∀ j u, (sys.fresh j u).beyond = sys.beyond := fun _ _ => rfl
    rw [hresp, hresp, hbeyond, hbeyond, sentFor_fresh hassigns, sentFor_fresh hassigns]

/-- A request for four bytes that has arrived. -/
def mallocArrived : Serving := .start .new [mallocFrame.bytes]

theorem response_determined_iff_run : Determined .calm mallocArrived :=
  (response_determined_iff .calm mallocArrived mallocFrame .malloc [] rfl (by decide) rfl).mpr
    trivial

/-- An empty file under the name `a`. -/
def uploadFrame : ReqFrame where
  operation := DicOperation.soUpload.code
  version := 0
  body := le64 0 ++ le32 1 ++ [97, 0]
  small := by decide

/-- The response to an upload is four bytes that nobody wrote. -/
theorem so_upload_undetermined :
    ¬ ∀ (sys : Sys) (s : Serving) (f : ReqFrame) (op : DicOperation) (rest : List UInt8),
      s.conn.sockOpen = true → s.conn.incoming.bytes = f.bytes ++ rest →
      f.operation = op.code → Determined sys s := by
  intro hall
  have hdet := hall .calm (.start .new [uploadFrame.bytes]) uploadFrame .soUpload [] rfl
    (by decide) rfl (fun _ => 0) 0 (fun _ => 1) 1
  revert hdet
  decide

end Dicon.Node
