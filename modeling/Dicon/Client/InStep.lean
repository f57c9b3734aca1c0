import Dicon.Client.Calls

/-!
# Client and node over whole sessions

A client casts the raw response to the struct that belongs to the function it
was called by; the node picks the struct by the operation code of the request.
The two agree about lengths and places whatever is called (`Framed`), so nothing
of one call is ever left for the next one. `session_in_step` says when they also
agree about the values: the handler of `DIC_SO_UPLOAD` leaves the one field
unwritten that `dic_so_upload` reads (`so_upload_unwritten`), and no other
handler does so.
-/

namespace Dicon.Client

open Framework Node

/-- A call of a client function. -/
inductive Call
  | rmalloc (size : ℤ)
  | rrealloc (rvoid : UInt64) (size : ℤ)
  | rfree (rvoid : UInt64)
  | memcpy (loc : List UInt8) (remote : UInt64) (size : ℤ) (mode : MemcpyMode)
  | soLoad (name : CStr)
  | soUnload (handle : UInt64)
  | soUpload (soPath : Option SoFile) (remoteName : CStr)
  | funcLoad (soHandle : UInt64) (symbol : CStr)
  | rthreadRun (funcPtr argsPtr : UInt64)
  | rthreadJoin (threadId : UInt64)

/-- What a call returns. -/
inductive Result
  | ptr (p : UInt64)
  | status (err : ℤ)
  | copied (err : ℤ) (loc : List UInt8)
deriving DecidableEq

namespace Call

/-- The operation that a client function asks for. -/
def operation : Call → DicOperation
  | .rmalloc _ => .malloc
  | .rrealloc _ _ => .realloc
  | .rfree _ => .free
  | .memcpy _ _ _ .local2Remote => .memcpyC2n
  | .memcpy _ _ _ .remote2Local => .memcpyN2c
  | .soLoad _ => .soLoad
  | .soUnload _ => .soUnload
  | .soUpload _ _ => .soUpload
  | .funcLoad _ _ => .funcLoad
  | .rthreadRun _ _ => .run
  | .rthreadJoin _ => .join

/-- The length of the request, before it is put into an `int`. -/
def messageLength : Call → ℤ
  | .rmalloc _ => reqHeadSize + 4
  | .rrealloc _ _ | .memcpy _ _ _ .remote2Local => reqHeadSize + 12
  | .rfree _ | .soUnload _ | .rthreadJoin _ => reqHeadSize + 8
  | .memcpy _ _ size .local2Remote => reqHeadSize + 12 + size
  | .soLoad name => reqHeadSize + 4 + (name.strlen + 1)
  | .soUpload none remoteName => reqHeadSize + 12 + (remoteName.strlen + 1)
  | .soUpload (some soFile) remoteName =>
      reqHeadSize + 12 + (remoteName.strlen + 1 + soFile.fileSize)
  | .funcLoad _ symbol => reqHeadSize + 12 + symbol.strlen
  | .rthreadRun _ _ => reqHeadSize + 16

/-- The request fits an `int`. -/
def Fits (c : Call) : Prop := c.messageLength ≤ intMax

instance (c : Call) : Decidable c.Fits := inferInstanceAs (Decidable (_ ≤ _))

def perform (env : Env) (s : Session) : Call → Except Fault (Session × Result)
  | .rmalloc size => (dicRmalloc env s size).map fun (s, p) => (s, .ptr p)
  | .rrealloc rvoid size => (dicRrealloc env s rvoid size).map fun (s, p) => (s, .ptr p)
  | .rfree rvoid => (dicRfree env s rvoid).map fun (s, err) => (s, .status err)
  | .memcpy loc remote size mode =>
      (dicMemcpy env s loc remote size mode).map fun (s, err, loc) => (s, .copied err loc)
  | .soLoad name => (dicSoLoad env s name).map fun (s, handle) => (s, .ptr handle)
  | .soUnload handle => (dicSoUnload env s handle).map fun (s, succ) => (s, .status succ)
  | .soUpload soPath remoteName =>
      (dicSoUpload env s soPath remoteName).map fun (s, succ) => (s, .status succ)
  | .funcLoad soHandle symbol =>
      (dicFuncLoad env s soHandle symbol).map fun (s, p) => (s, .ptr p)
  | .rthreadRun funcPtr argsPtr =>
      (dicRthreadRun env s funcPtr argsPtr).map fun (s, tid) => (s, .ptr tid)
  | .rthreadJoin threadId =>
      (dicRthreadJoin env s threadId).map fun (s, p) => (s, .ptr p)

end Call

/-- Calls of one client, one after another. -/
def runCalls (s : Session) : List (Env × Call) → Except Fault Session
  | [] => .ok s
  | (env, c) :: cs =>
      match c.perform env s with
      | .error f => .error f
      | .ok (s, _) => runCalls s cs

/-- After a call no byte is unread, the node handled one request, with the
operation of that call, the body size is the number of bytes behind the head, and
the client read inside them. -/
structure Framed (op : DicOperation) (x : Exchange) : Prop where
  unreadRequest : x.unreadRequest = []
  unreadResponse : x.unreadResponse = []
  handled : ∃ head body, x.handled = [(head, body)] ∧ head.operation = op.code
  bodySize : x.response.length = respHeadSize + x.bodySize.toNat
  inside : ∀ p ∈ x.reads, p.1 + p.2 ≤ x.bodySize.toNat

/-- And wherever the client read, it got what the handler stored there. -/
structure InStep (op : DicOperation) (x : Exchange) : Prop extends Framed op x where
  stored : ∃ msg, x.answered = [msg] ∧ ∀ p ∈ x.reads,
    Cells.region (msg.cells.drop respHeadSize) p.1 p.2 = Cells.stored ((x.body.drop p.1).take p.2)

/-! ## Readers and handlers -/

/-- The reader stays inside the responses to an operation, and the cells that it
looks at were all written, unless the operation is `DIC_SO_UPLOAD`. -/
def Suits {α : Type} (reader : FieldReader α) (op : DicOperation) : Prop :=
  ∀ (body : Cells UInt8) (junk : ℕ → UInt8) (beyond : List UInt8), RespShape op body →
    (∀ p ∈ reader.reads (Cells.fill junk body ++ beyond), p.1 + p.2 ≤ body.length) ∧
    ((∀ p ∈ reader.reads (Cells.fill junk body ++ beyond),
        body.region p.1 p.2 = Cells.stored (((Cells.fill junk body).drop p.1).take p.2)) ↔
      op ≠ .soUpload)

/-- A response that is written whole. -/
theorem suits_of_stored {α : Type} {reader : FieldReader α} {op : DicOperation}
    (hop : op ≠ .soUpload)
    (h : ∀ body, RespShape op body → ∃ vs, body = Cells.stored vs ∧
      ∀ beyond, ∀ p ∈ reader.reads (vs ++ beyond), p.1 + p.2 ≤ vs.length) :
    Suits reader op := by
  intro body junk beyond hshape
  obtain ⟨vs, rfl, hinside⟩ := h body hshape
  rw [Cells.fill_stored, Cells.length_stored]
  exact ⟨hinside beyond, fun _ => hop, fun _ p _ => Cells.region_stored vs p.1 p.2⟩

theorem suits_u64 {op : DicOperation} (hop : op ≠ .soUpload)
    (h : ∀ body, RespShape op body → ∃ p : UInt64, body = Cells.stored (le64 p)) :
    Suits (.u64 0) op := by
  apply suits_of_stored hop
  intro body hshape
  obtain ⟨p, hp⟩ := h body hshape
  exact ⟨le64 p, hp, by simp⟩

theorem suits_readInt {op : DicOperation} (hop : op ≠ .soUpload)
    (h : ∀ body, RespShape op body → body = Cells.stored (le32 0)) : Suits (readInt 0) op :=
  suits_of_stored hop fun body hshape => ⟨le32 0, h body hshape, by simp [readInt]⟩

theorem suits_i8 : Suits (.i8 0) .free :=
  suits_of_stored (by decide) fun _ hshape => ⟨[0], hshape, by simp⟩

/-- The second field is as long as the first one says, and so is the data. -/
theorem suits_readData : Suits readData .memcpyN2c := by
  apply suits_of_stored (by decide)
  rintro body ⟨size, data, hlen, rfl⟩
  refine ⟨le32 size ++ data, rfl, ?_⟩
  intro beyond p hp
  have hsize : rd32At (le32 size ++ data ++ beyond) 0 = size := by
    rw [List.append_assoc]
    exact rd32At_zero size _
  simp only [readData, FieldReader.reads_bind, FieldReader.reads_u32, FieldReader.value_u32,
    FieldReader.reads_bytes, hsize] at hp
  rw [List.length_append, length_le32, hlen]
  rcases List.mem_append.mp hp with hp | hp
  · rw [List.mem_singleton.mp hp]
    omega
  · rw [List.mem_singleton.mp hp]

/-- `success` lies in the response, and nobody wrote it. -/
theorem suits_soUpload : Suits (readInt 0) .soUpload := by
  rintro body junk beyond rfl
  constructor
  · simp [readInt]
  · simp only [ne_eq, not_true, iff_false]
    intro hstored
    have hregion := hstored (0, 4) (by simp [readInt])
    have hfirst := congrArg List.head? hregion
    simp [Cells.region, Cells.stored, Cells.fill] at hfirst

/-! ## One call -/

/-- The call does not wait for ever; and when it returns, the two sides are as
far as they agree about it. -/
def StepsTo {α : Type} (op : DicOperation) (s : Session) (o : Except Fault (Session × α)) :
    Prop :=
  o = .error .crashed ∨ ∃ s' a x, o = .ok (s', a) ∧ s'.Synced ∧
    s'.exchanges = s.exchanges ++ [x] ∧ Framed op x ∧ (InStep op x ↔ op ≠ .soUpload)

section OneCall

variable {α β : Type} {op : DicOperation} {env : Env} {s : Session}

theorem StepsTo.map {o : Except Fault (Session × α)} (h : StepsTo op s o) (f : α → β) :
    StepsTo op s (o.map fun (s, a) => (s, f a)) := by
  rcases h with rfl | ⟨s', a, x, rfl, hrest⟩
  · exact Or.inl rfl
  · exact Or.inr ⟨s', f a, x, rfl, hrest⟩

/-- What the log says of a request that was answered with a response of the shape
that belongs to its operation. -/
theorem framed_exchangeOf {msg : Msg} {body : Cells UInt8} (h : msg.IsRequest op.code body)
    {resp : Msg} {respBody : Cells UInt8} (hresp : resp.IsResponse respBody)
    (hshape : RespShape op respBody) {reader : FieldReader α} (hsuits : Suits reader op) :
    Framed op (exchangeOf env h resp respBody reader) ∧
      (InStep op (exchangeOf env h resp respBody reader) ↔ op ≠ .soUpload) := by
  have hsize : (toU32 respBody.length).toNat = respBody.length :=
    toU32_toNat (by have := hresp.fits; unfold intMax at this; omega)
  have hcells : resp.cells.drop respHeadSize = respBody := by
    rw [hresp.cells, List.drop_left' (by simp [respHeadSize])]
  obtain ⟨hinside, hstored⟩ := hsuits respBody _ env.beyond hshape
  have hframed : Framed op (exchangeOf env h resp respBody reader) :=
    { unreadRequest := rfl
      unreadResponse := rfl
      handled := ⟨_, _, rfl, rfl⟩
      bodySize := by
        simp only [exchangeOf, hsize]
        exact hresp.length _
      inside := by
        simp only [exchangeOf, hsize]
        exact hinside }
  refine ⟨hframed, ?_⟩
  rw [← hstored]
  constructor
  · rintro ⟨_, msg, hmsg, hread⟩ p hp
    cases hmsg
    have hregion := hread p hp
    rwa [hcells] at hregion
  · intro hread
    refine ⟨hframed, resp, rfl, ?_⟩
    rw [hcells]
    exact hread

/-- A call whose request was built. -/
theorem stepsTo_request (hs : s.Synced) (hop : op ≠ .soVerify) {msg : Msg}
    {body : Cells UInt8} (h : msg.IsRequest op.code body) {reader : FieldReader α}
    (hsuits : Suits reader op) : StepsTo op s (remoteCall env s (some msg) reader) := by
  cases hdisp : dispatch env.sys s.serving.node (env.request body) op.code with
  | none => exact Or.inl (hs.remoteCall_crashed h hdisp reader)
  | some r =>
      obtain ⟨node, answer⟩ := r
      rcases dispatch_resp hdisp with ⟨hv, _, _⟩ | ⟨resp, respBody, rfl, hresp, hshape⟩
      · -- The switch has no case for `DIC_SO_VERIFY`, and no client function asks for it.
        exact absurd hv hop
      · obtain ⟨s', hcall, hsync, _, hlog⟩ := hs.remoteCall h hdisp hresp reader
        obtain ⟨hframed, hin⟩ := framed_exchangeOf h hresp hshape hsuits
        exact Or.inr ⟨s', _, _, hcall, hsync, hlog, hframed, hin⟩

/-- A call whose builder may crash. -/
theorem stepsTo_remoteCall (hs : s.Synced) (hop : op ≠ .soVerify) {msg : Option Msg}
    (hreq : ∀ m, msg = some m → ∃ body, m.IsRequest op.code body)
    {reader : FieldReader α} (hsuits : Suits reader op) :
    StepsTo op s (remoteCall env s msg reader) := by
  cases msg with
  | none => exact Or.inl rfl
  | some m =>
      obtain ⟨body, h⟩ := hreq m rfl
      exact stepsTo_request hs hop h hsuits

theorem stepsTo_memcpyN2c (hs : s.Synced) (loc : List UInt8) (remote : UInt64) (size : ℤ) :
    StepsTo .memcpyN2c s (dicMemcpyN2c env s loc remote size) := by
  have hcall : StepsTo .memcpyN2c s
      (remoteCall env s (buildMemcpyN2cReq remote size) readData) :=
    stepsTo_request hs (by decide) (buildMemcpyN2cReq_isRequest size remote) suits_readData
  unfold dicMemcpyN2c
  rcases hcall with h | ⟨s', data, x, h, hrest⟩
  · rw [h]
    exact Or.inl rfl
  · rw [h]
    dsimp only
    split
    · exact Or.inr ⟨s', _, x, rfl, hrest⟩
    · exact Or.inl rfl

/-- One case for each function of the client library. -/
theorem perform_stepsTo {c : Call} (hs : s.Synced) (hfits : c.Fits) :
    StepsTo c.operation s (c.perform env s) := by
  cases c with
  | rmalloc size =>
      have hcall : StepsTo .malloc s (dicRmalloc env s size) :=
        stepsTo_request hs (by decide) (buildRmallocReq_isRequest size)
          (suits_u64 (by decide) fun _ h => h)
      exact hcall.map _
  | rrealloc rvoid size =>
      have hcall : StepsTo .realloc s (dicRrealloc env s rvoid size) :=
        stepsTo_request hs (by decide) (buildRreallocReq_isRequest size rvoid)
          (suits_u64 (by decide) fun _ h => h)
      exact hcall.map _
  | rfree rvoid =>
      have hcall : StepsTo .free s (dicRfree env s rvoid) :=
        stepsTo_request hs (by decide) (buildRfreeReq_isRequest rvoid) suits_i8
      exact hcall.map _
  | memcpy loc remote size mode =>
      cases mode with
      | local2Remote =>
          have hcall : StepsTo .memcpyC2n s (dicMemcpyC2n env s loc remote size) := by
            refine stepsTo_remoteCall hs (by decide) ?_ (suits_readInt (by decide) fun _ h => h)
            intro m hm
            exact ⟨_, (buildMemcpyC2nReq_isRequest hfits hm).2.2⟩
          exact (hcall.map fun err => (err, loc)).map fun (err, loc) => Result.copied err loc
      | remote2Local =>
          exact (stepsTo_memcpyN2c hs loc remote size).map fun (err, loc) => Result.copied err loc
  | soLoad name =>
      have hcall : StepsTo .soLoad s (dicSoLoad env s name) :=
        stepsTo_request hs (by decide) (buildSoLoad_isRequest hfits)
          (suits_u64 (by decide) fun _ h => h)
      exact hcall.map _
  | soUnload handle =>
      have hcall : StepsTo .soUnload s (dicSoUnload env s handle) :=
        stepsTo_request hs (by decide) (buildSoUnload_isRequest handle)
          (suits_readInt (by decide) fun _ h => h)
      exact hcall.map _
  | soUpload soPath remoteName =>
      have hcall : StepsTo .soUpload s (dicSoUpload env s soPath remoteName) := by
        refine stepsTo_remoteCall hs (by decide) ?_ suits_soUpload
        intro m hm
        refine buildSoUpload_isRequest ?_ hm
        rintro soFile rfl
        exact hfits
      exact hcall.map _
  | funcLoad soHandle symbol =>
      have hcall : StepsTo .funcLoad s (dicFuncLoad env s soHandle symbol) :=
        stepsTo_request hs (by decide) (buildFuncLoad_isRequest soHandle hfits)
          (suits_u64 (by decide) fun _ h => h)
      exact hcall.map _
  | rthreadRun funcPtr argsPtr =>
      have hcall : StepsTo .run s (dicRthreadRun env s funcPtr argsPtr) :=
        stepsTo_request hs (by decide) (buildRthreadRun_isRequest funcPtr argsPtr)
          (suits_u64 (by decide) fun _ h => h)
      exact hcall.map _
  | rthreadJoin threadId =>
      have hcall : StepsTo .join s (dicRthreadJoin env s threadId) :=
        stepsTo_request hs (by decide) (buildRthreadJoin_isRequest threadId)
          (suits_u64 (by decide) fun _ h => h)
      exact hcall.map _

end OneCall

/-! ## A whole session -/

theorem runCalls_inStep {s : Session} (hs : s.Synced) {calls : List (Env × Call)}
    (hfits : ∀ c ∈ calls, c.2.Fits) :
    runCalls s calls = .error .crashed ∨ ∃ t xs, runCalls s calls = .ok t ∧
      t.exchanges = s.exchanges ++ xs ∧ List.Forall₂ (fun c x => Framed c.2.operation x) calls xs ∧
      (List.Forall₂ (fun c x => InStep c.2.operation x) calls xs ↔
        ∀ c ∈ calls, c.2.operation ≠ .soUpload) := by
  induction calls generalizing s with
  | nil => exact Or.inr ⟨s, [], rfl, (List.append_nil _).symm, .nil, by simp⟩
  | cons c cs ih =>
      obtain ⟨env, c⟩ := c
      rw [List.forall_mem_cons] at hfits
      have hcall : StepsTo c.operation s (c.perform env s) := perform_stepsTo hs hfits.1
      rcases hcall with h | ⟨s', r, x, h, hs', hx, hframed, hin⟩
      · refine Or.inl ?_
        rw [runCalls, h]
      · rcases ih hs' hfits.2 with hrun | ⟨t, xs, hrun, hlog, hall, hiff⟩
        · refine Or.inl ?_
          rw [runCalls, h]
          exact hrun
        · refine Or.inr ⟨t, x :: xs, ?_, ?_, .cons hframed hall, ?_⟩
          · rw [runCalls, h]
            exact hrun
          · rw [hlog, hx, List.append_assoc]
            rfl
          · rw [List.forall₂_cons, List.forall_mem_cons, hin, hiff]

/-- For every session of one client with a node (any calls whose requests fit an
`int`, any cutting of the messages, whatever the system and fresh memory hold):
no call waits for ever; in a session that returns, every call is framed; and all
calls are in step if and only if none of them is a `dic_so_upload`. -/
theorem session_in_step (node : Node) (calls : List (Env × Call))
    (hfits : ∀ c ∈ calls, c.2.Fits) :
    runCalls (.start node) calls ≠ .error .waiting ∧
      ∀ s, runCalls (.start node) calls = .ok s →
        List.Forall₂ (fun c x => Framed c.2.operation x) calls s.exchanges ∧
        (List.Forall₂ (fun c x => InStep c.2.operation x) calls s.exchanges ↔
          ∀ c ∈ calls, c.2.operation ≠ .soUpload) := by
  rcases runCalls_inStep (Session.synced_start node) hfits with h | ⟨t, xs, h, hlog, hall, hiff⟩
  · rw [h]
    exact ⟨by simp, fun s hs => by cases hs⟩
  · rw [h]
    refine ⟨by simp, ?_⟩
    intro s hs
    cases hs
    rw [hlog]
    exact ⟨hall, hiff⟩

/-- A network that keeps each message in one block. -/
def Cut.whole : Cut where
  blocks m := if m = [] then [] else [m]
  bytes_blocks m := by
    cases m <;> simp [Incoming.bytes]
  flowing_blocks m := by
    intro block hblock
    split at hblock
    · cases hblock
    · next hm =>
        rw [List.mem_singleton.mp hblock]
        exact hm

def Env.calm : Env := ⟨.calm, fun _ => 0, [], .whole, .whole⟩

/-- Four bytes are allocated and freed. -/
def mallocFree : List (Env × Call) := [(.calm, .rmalloc 4), (.calm, .rfree 4096)]

theorem session_in_step_run :
    ∃ s, runCalls (.start .new) mallocFree = .ok s ∧
      List.Forall₂ (fun c x => InStep c.2.operation x) mallocFree s.exchanges := by
  obtain ⟨_, hrun⟩ := session_in_step .new mallocFree (by decide)
  have hok : (runCalls (.start .new) mallocFree).isOk = true := by decide
  cases h : runCalls (.start .new) mallocFree with
  | error f =>
      rw [h] at hok
      cases hok
  | ok s => exact ⟨s, rfl, (hrun s h).2.mpr (by decide)⟩

/-- An empty file under the name `a`. -/
def uploadEmpty : Call := .soUpload (some ⟨0, [], by decide⟩) ⟨[97], by decide⟩

/-- `dic_so_upload` returns four bytes that nobody wrote. -/
theorem so_upload_unwritten :
    ¬ ∀ (node : Node) (calls : List (Env × Call)), (∀ c ∈ calls, c.2.Fits) →
      ∀ s, runCalls (.start node) calls = .ok s →
        List.Forall₂ (fun c x => InStep c.2.operation x) calls s.exchanges := by
  intro hall
  have hfits : ∀ c ∈ [(Env.calm, uploadEmpty)], c.2.Fits := by decide
  have hok : (runCalls (.start .new) [(Env.calm, uploadEmpty)]).isOk = true := by decide
  cases h : runCalls (.start .new) [(Env.calm, uploadEmpty)] with
  | error f =>
      rw [h] at hok
      cases hok
  | ok s =>
      have hstep := hall .new _ hfits s h
      rcases runCalls_inStep (Session.synced_start .new) hfits with
        hcrash | ⟨t, xs, hrun, hlog, _, hiff⟩
      · rw [h] at hcrash
        cases hcrash
      · rw [h] at hrun
        cases hrun
        rw [hlog] at hstep
        exact hiff.mp hstep (Env.calm, uploadEmpty) List.mem_cons_self rfl

end Dicon.Client
