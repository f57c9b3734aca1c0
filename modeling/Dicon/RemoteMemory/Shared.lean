import Dicon.RemoteMemory.Refinement
import Dicon.SharedConn.Linearizable

/-!
# Threads that share the memory of a node

The threads of a client call the memory functions on one connection, and the node at
the other end is the one of `Node.dispatch`. Every history of such calls is one of a
flat memory that serves them one at a time (`shared_memory_linearizable`).

A call that is not legal when it takes effect is undefined behaviour: from then on the
flat memory promises nothing (`flatObject`).
-/

namespace Dicon.RemoteMemory

open Framework Node Client SharedConn

/-! ## The functions of the library -/

/-- The message that the builder of a call makes. -/
def callMsg : Call → Option Msg
  | .rmalloc size => some (buildRmallocReq size)
  | .rrealloc rvoid size => some (buildRreallocReq rvoid size)
  | .rfree rvoid => some (buildRfreeReq rvoid)
  | .memcpy loc remote size .local2Remote => buildMemcpyC2nReq loc remote size
  | .memcpy _ remote size .remote2Local => some (buildMemcpyN2cReq remote size)
  | .soLoad name => some (buildSoLoad name)
  | .soUnload handle => some (buildSoUnload handle)
  | .soUpload soPath remoteName => buildSoUpload soPath remoteName
  | .funcLoad soHandle symbol => some (buildFuncLoad soHandle symbol)
  | .rthreadRun funcPtr argsPtr => some (buildRthreadRun funcPtr argsPtr)
  | .rthreadJoin threadId => some (buildRthreadJoin threadId)

/-- What a call makes of the body of its response, with what lies behind it; none
where the data is copied past the end of the local buffer. -/
def receive (b : List UInt8) : Call → Option Result
  | .rmalloc _ | .rrealloc _ _ | .soLoad _ | .funcLoad _ _ | .rthreadRun _ _ | .rthreadJoin _ =>
      some (.ptr ((FieldReader.u64 0).value b))
  | .rfree _ => some (.status ((FieldReader.i8 0).value b))
  | .soUnload _ | .soUpload _ _ => some (.status ((readInt 0).value b))
  | .memcpy loc _ _ .local2Remote => some (.copied ((readInt 0).value b) loc)
  | .memcpy loc _ _ .remote2Local =>
      let data := readData.value b
      if data.length ≤ loc.length then some (.copied 0 (data ++ loc.drop data.length)) else none

/-- A call, the request that its builder makes of it, and what lies behind the response
in the memory of the client. -/
structure Invocation where
  call : Call
  request : Request
  beyond : List UInt8
  built : ∃ (msg : Msg) (body : Cells UInt8) (junk : ℕ → UInt8), callMsg call = some msg ∧
    msg.IsRequest call.operation.code body ∧ request.operation = call.operation.code ∧
    request.body = Cells.fill (fun i => junk (i + reqHeadSize)) body

/-- `client_node_communication.h` -/
def library : Interface Invocation (Option Result) where
  request a := a.request
  result a got := receive (got.2 ++ a.beyond) a.call

/-! ## The node -/

/-- What `dic_conn_send` makes of a message that fits an `int`. -/
def response? (sys : Sys) (msg : Msg) : Option Response :=
  if h : respHeadSize + ((msg.bytes sys.junk).drop respHeadSize).length ≤ intMax then
    some ⟨_, h⟩
  else none

/-- The handlers of the node. A request without a handler is not answered; the functions
of the library make no such requests. -/
def realNode : NodeSpec Node Sys where
  start := .new
  handle sys node head body :=
    (dispatch sys node (body ++ sys.beyond) head.operation).bind fun (node, msg) =>
      msg.bind fun msg => (response? sys msg).map fun resp => (node, resp)
  env _ _ := none

section Handle

variable {sys : Sys} {node node' : Node} {resp : Response}

theorem response?_isResponse (sys : Sys) {msg : Msg} {body : Cells UInt8}
    (h : msg.IsResponse body) :
    ∃ resp, response? sys msg = some resp ∧
      resp.body = Cells.fill (fun i => sys.junk (i + respHeadSize)) body ∧
      resp.bytes = msg.bytes sys.junk := by
  have hbody : (msg.bytes sys.junk).drop respHeadSize =
      Cells.fill (fun i => sys.junk (i + respHeadSize)) body := by
    have hhead : (le32 (toU32 body.length)).length = respHeadSize := length_le32 _
    rw [h.bytes_eq, List.drop_left' hhead]
  have hfits : respHeadSize + ((msg.bytes sys.junk).drop respHeadSize).length ≤ intMax := by
    rw [hbody, Cells.length_fill]
    exact h.fits
  refine ⟨⟨_, hfits⟩, dif_pos hfits, hbody, ?_⟩
  simp only [Response.bytes, hbody, Cells.length_fill]
  rw [h.bytes_eq]

/-- An outcome of the handlers is what the loop of the node does with the request: it
goes on with the node and sends the bytes of the response. -/
theorem realNode_sends {head : ReqHead} {body : List UInt8}
    (h : realNode.handle sys node head body = some (node', resp)) {s : Serving}
    (hnode : s.node = node) (hopen : s.conn.sockOpen = true) :
    ∃ t, s.answer sys head body = .returned 0 t ∧ t.node = node' ∧
      t.conn.outgoing = s.conn.outgoing ++ resp.bytes := by
  obtain ⟨⟨n, m⟩, hdisp, hmsg⟩ := Option.bind_eq_some_iff.mp h
  obtain ⟨msg, rfl, hresp⟩ := Option.bind_eq_some_iff.mp hmsg
  obtain ⟨r, hr, heq⟩ := Option.map_eq_some_iff.mp hresp
  cases heq
  rw [← hnode] at hdisp
  obtain ⟨cells, hcells⟩ := dispatch_isResponse hdisp
  obtain ⟨r', hr', _, hbytes⟩ := response?_isResponse sys hcells
  rw [hr] at hr'
  cases hr'
  exact ⟨_, answer_returned hdisp, rfl, by rw [hbytes]; exact sendMsg_outgoing sys hopen hcells⟩

end Handle

/-! ## One call -/

section OneCall

variable {env : Env} {s : Session}

/-- A function returns what it makes of the body that it received. -/
theorem perform_eq {c : Call} {msg : Msg} {body respBody : Cells UInt8} {resp : Msg} {node : Node}
    (hs : s.Synced) (hmsg : callMsg c = some msg) (hreq : msg.IsRequest c.operation.code body)
    (hdisp : dispatch env.sys s.serving.node (env.request body) c.operation.code =
      some (node, some resp)) (hresp : resp.IsResponse respBody) :
    ∃ t, t.serving.node = node ∧ c.perform env s =
      (receive (env.answered respBody ++ env.beyond) c).elim (.error .crashed)
        fun r => .ok (t, r) := by
  have hcall : ∀ {α : Type} (reader : FieldReader α), ∃ t, t.serving.node = node ∧
      remoteCall env s (some msg) reader =
        .ok (t, reader.value (env.answered respBody ++ env.beyond)) := by
    intro α reader
    obtain ⟨t, hok, _, hnode, _⟩ := hs.remoteCall hreq hdisp hresp reader
    exact ⟨t, hnode, hok⟩
  cases c with
  | rmalloc size =>
      cases hmsg
      obtain ⟨t, hnode, hok⟩ := hcall (.u64 0)
      exact ⟨t, hnode, by rw [Call.perform, dicRmalloc, hok]; rfl⟩
  | rrealloc rvoid size =>
      cases hmsg
      obtain ⟨t, hnode, hok⟩ := hcall (.u64 0)
      exact ⟨t, hnode, by rw [Call.perform, dicRrealloc, hok]; rfl⟩
  | rfree rvoid =>
      cases hmsg
      obtain ⟨t, hnode, hok⟩ := hcall (.i8 0)
      exact ⟨t, hnode, by rw [Call.perform, dicRfree, hok]; rfl⟩
  | memcpy loc remote size mode =>
      cases mode with
      | local2Remote =>
          obtain ⟨t, hnode, hok⟩ := hcall (readInt 0)
          refine ⟨t, hnode, ?_⟩
          rw [Call.perform, dicMemcpy, dicMemcpyC2n, show buildMemcpyC2nReq loc remote size = _
            from hmsg, hok]
          rfl
      | remote2Local =>
          cases hmsg
          obtain ⟨t, hnode, hok⟩ := hcall readData
          refine ⟨t, hnode, ?_⟩
          rw [Call.perform, dicMemcpy, dicMemcpyN2c, hok]
          dsimp only [receive]
          split <;> rfl
  | soLoad name =>
      cases hmsg
      obtain ⟨t, hnode, hok⟩ := hcall (.u64 0)
      exact ⟨t, hnode, by rw [Call.perform, dicSoLoad, hok]; rfl⟩
  | soUnload handle =>
      cases hmsg
      obtain ⟨t, hnode, hok⟩ := hcall (readInt 0)
      exact ⟨t, hnode, by rw [Call.perform, dicSoUnload, hok]; rfl⟩
  | soUpload soPath remoteName =>
      obtain ⟨t, hnode, hok⟩ := hcall (readInt 0)
      refine ⟨t, hnode, ?_⟩
      rw [Call.perform, dicSoUpload, show buildSoUpload soPath remoteName = _ from hmsg, hok]
      rfl
  | funcLoad soHandle symbol =>
      cases hmsg
      obtain ⟨t, hnode, hok⟩ := hcall (.u64 0)
      exact ⟨t, hnode, by rw [Call.perform, dicFuncLoad, hok]; rfl⟩
  | rthreadRun funcPtr argsPtr =>
      cases hmsg
      obtain ⟨t, hnode, hok⟩ := hcall (.u64 0)
      exact ⟨t, hnode, by rw [Call.perform, dicRthreadRun, hok]; rfl⟩
  | rthreadJoin threadId =>
      cases hmsg
      obtain ⟨t, hnode, hok⟩ := hcall (.u64 0)
      exact ⟨t, hnode, by rw [Call.perform, dicRthreadJoin, hok]; rfl⟩

theorem perform_error {c : Call} {msg : Msg} {f : Fault} (hmsg : callMsg c = some msg)
    (hcall : ∀ {α : Type} (reader : FieldReader α),
      remoteCall env s (some msg) reader = .error f) : c.perform env s = .error f := by
  cases c with
  | memcpy loc remote size mode =>
      cases mode with
      | local2Remote =>
          rw [Call.perform, dicMemcpy, dicMemcpyC2n, show buildMemcpyC2nReq loc remote size = _
            from hmsg, hcall]
          rfl
      | remote2Local =>
          cases hmsg
          rw [Call.perform, dicMemcpy, dicMemcpyN2c, hcall]
          rfl
  | soUpload soPath remoteName =>
      rw [Call.perform, dicSoUpload, show buildSoUpload soPath remoteName = _ from hmsg, hcall]
      rfl
  | _ =>
      cases hmsg
      simp only [Call.perform, dicRmalloc, dicRrealloc, dicRfree, dicSoLoad, dicSoUnload,
        dicFuncLoad, dicRthreadRun, dicRthreadJoin, hcall, Except.map]

theorem operation_ne_soVerify (c : Call) : c.operation ≠ .soVerify := by
  cases c with
  | memcpy _ _ _ mode => cases mode <;> simp [Call.operation]
  | _ => simp [Call.operation]

/-- A function that returns was answered, with what it returns in the body. -/
theorem perform_ok {c : Call} {msg : Msg} {body : Cells UInt8} {t : Session} {r : Result}
    (hs : s.Synced) (hmsg : callMsg c = some msg) (hreq : msg.IsRequest c.operation.code body)
    (hok : c.perform env s = .ok (t, r)) :
    ∃ resp respBody, dispatch env.sys s.serving.node (env.request body) c.operation.code =
        some (t.serving.node, some resp) ∧ resp.IsResponse respBody ∧
      receive (env.answered respBody ++ env.beyond) c = some r := by
  cases hdisp : dispatch env.sys s.serving.node (env.request body) c.operation.code with
  | none =>
      rw [perform_error hmsg fun reader => hs.remoteCall_crashed hreq hdisp reader] at hok
      cases hok
  | some outcome =>
      obtain ⟨node, _ | resp⟩ := outcome
      · rcases dispatch_resp hdisp with ⟨hop, _⟩ | ⟨_, _, hmsg', _⟩
        · exact absurd hop (operation_ne_soVerify c)
        · cases hmsg'
      · obtain ⟨respBody, hresp⟩ := dispatch_isResponse hdisp
        obtain ⟨t', hnode, heq⟩ := perform_eq hs hmsg hreq hdisp hresp
        rw [heq] at hok
        cases hreceive : receive (env.answered respBody ++ env.beyond) c with
        | none =>
            rw [hreceive] at hok
            cases hok
        | some r' =>
            rw [hreceive] at hok
            cases hok
            exact ⟨resp, respBody, by rw [hnode], hresp, hreceive⟩

end OneCall

/-! ## The flat memory as an object -/

/-- What a flat memory may answer to a legal call. -/
def FlatMemory.Answers (m : FlatMemory) : Call → Result → Prop
  | .rmalloc size, r => ∃ p, r = .ptr p ∧ p ≠ 0 ∧
      ∀ b ∈ m.blocks, b.ptr ≠ p.toNat ∧ b.Disjoint ⟨p.toNat, size.toNat⟩
  | .rrealloc rvoid size, r => ∃ p, r = .ptr p ∧ p ≠ 0 ∧ ∀ b ∈ m.blocks,
      b.ptr ≠ rvoid.toNat → b.ptr ≠ p.toNat ∧ b.Disjoint ⟨p.toNat, size.toNat⟩
  | .rfree _, r => r = .status 0
  | .memcpy loc _ _ .local2Remote, r => r = .copied 0 loc
  | .memcpy loc remote size .remote2Local, r => ∃ data, r = .copied 0 (data ++ loc.drop size.toNat) ∧
      data.length = size.toNat ∧ ∀ i < size.toNat, ∀ v,
        m.bytes (remote.toNat + i) = some v → data[i]? = some v
  | _, _ => False

/-- A memory that serves one call after another. After a call that was not legal it may
do anything. -/
def flatObject (τ : Type*) : SeqObject (Option FlatMemory) τ Invocation (Option Result) where
  start := some .empty
  call _ a o m m' := ∀ fm, m = some fm → fm.Legal a.call →
    ∃ r, o = some r ∧ fm.Answers a.call r ∧ m' = some (fm.step a.call r)
  drift _ _ := False

section Serves

variable {m m' : FlatMemory} {node node' : Node} {sys : Sys}

/-- The last block of a memory is apart from the others. -/
theorem last_apart (h : Refines m node) {bs : List Block} {b : Block}
    (hbs : m.blocks = bs ++ [b]) : ∀ c ∈ bs, c.ptr ≠ b.ptr ∧ c.Disjoint b := by
  intro c hc
  have hcm : c ∈ m.blocks := by
    rw [hbs]
    exact List.mem_append_left _ hc
  have hbm : b ∈ m.blocks := by
    rw [hbs]
    exact List.mem_append_right _ (List.mem_singleton.mpr rfl)
  have hne : c ≠ b := by
    have hnodup := h.nodup
    rw [hbs] at hnodup
    exact (List.nodup_append.mp hnodup).2.2 c hc b (List.mem_singleton.mpr rfl)
  exact ⟨fun hptr => hne (h.eq_of_ptr hcm hbm hptr), h.apart c hcm b hbm hne⟩

/-- What is correct for the node is an answer of the flat memory. -/
theorem answers_of_correct {c : Call} {r : Result} (h' : Refines (m.step c r) node')
    (hc : Correct m (m.step c r) node node' r c) : m.Answers c r := by
  cases c with
  | rmalloc size =>
      obtain ⟨p, rfl, hp, _⟩ := hc
      exact ⟨p, rfl, hp, last_apart h' rfl⟩
  | rrealloc rvoid size =>
      obtain ⟨p, rfl, hp, _⟩ := hc
      refine ⟨p, rfl, hp, fun b hb hptr => ?_⟩
      cases hfind : m.blockAt rvoid.toNat with
      | none =>
          simp only [FlatMemory.step, hfind] at h'
          exact last_apart h' rfl b hb
      | some d =>
          simp only [FlatMemory.step, hfind] at h'
          have hne : b ≠ d := fun heq => hptr (heq ▸ (mem_of_find hfind).2)
          exact last_apart h' rfl b ((List.mem_erase_of_ne hne).mpr hb)
  | rfree rvoid => exact hc.1
  | memcpy loc remote size mode =>
      cases mode with
      | local2Remote => exact hc.1
      | remote2Local =>
          obtain ⟨_, data, rfl, hlen, hdata⟩ := hc
          exact ⟨data, rfl, hlen, fun i hi => (hdata i hi).2⟩
  | _ => exact hc.elim

/-- The node's allocator does what the C standard promises, whatever sensible call made
the request. -/
def LawfulOutcome (sys : Sys) (node : Node) (frame : Frame) : Prop :=
  ∀ a : Invocation, a.request.frame = frame → (∃ m : FlatMemory, m.Legal a.call) →
    Lawful sys node a.call

/-- A legal call is answered, and the answer is one of the flat memory. -/
theorem realNode_serves (h : Refines m node) {a : Invocation} (hlegal : m.Legal a.call)
    (hlawful : Lawful sys node a.call) : ∃ node' resp r,
      realNode.handle sys node a.request.head a.request.body = some (node', resp) ∧
      library.result a resp.frame = some r ∧ m.Answers a.call r ∧
      Refines (m.step a.call r) node' ∧ Correct m (m.step a.call r) node node' r a.call := by
  obtain ⟨msg, body, junk, hmsg, hreq, hop, hbody⟩ := a.built
  let env : Env := ⟨sys, junk, a.beyond, .whole, .whole⟩
  have hserved : Served env (Session.start node) m a.call :=
    served (Session.synced_start node) h hlegal hlawful
  obtain ⟨t, r, hok, _, hrefines, hcorrect⟩ := hserved
  obtain ⟨resp, respBody, hdisp, hresp, hreceive⟩ :=
    perform_ok (Session.synced_start node) hmsg hreq hok
  obtain ⟨resp', hresp', hcells, _⟩ := response?_isResponse sys hresp
  refine ⟨t.serving.node, resp', r, ?_, ?_, answers_of_correct hrefines hcorrect, hrefines,
    hcorrect⟩
  · have hrequest : env.request body = a.request.body ++ sys.beyond := by
      rw [hbody]
      rfl
    rw [hrequest] at hdisp
    have hhead : a.request.head.operation = a.call.operation.code := hop
    simp only [realNode, hhead]
    rw [show dispatch sys node _ _ = _ from hdisp]
    simp [hresp']
  · show receive (resp'.body ++ a.beyond) a.call = some r
    rw [hcells]
    exact hreceive

end Serves

/-! ## Any number of threads -/

/-- The node holds what the flat memory says, unless that says nothing. -/
def Backs (node : Node) (m : Option FlatMemory) : Prop := ∀ fm, m = some fm → Refines fm node

theorem backs_call {τ : Type*} {t : τ} {a : Invocation} {o : Option Result} {node node' : Node}
    {m : Option FlatMemory} (h : Backs node m)
    (hcall : (realNode.object τ library LawfulOutcome).call t a o node node') :
    ∃ m', (flatObject τ).call t a o m m' ∧ Backs node' m' := by
  obtain ⟨sys, resp, hlawful, hhandle, rfl⟩ := hcall
  by_cases hlegal : ∃ fm, m = some fm ∧ fm.Legal a.call
  · obtain ⟨fm, rfl, hlegal⟩ := hlegal
    obtain ⟨_, _, r, hhandle', hresult, hanswers, hrefines, _⟩ :=
      realNode_serves (h fm rfl) hlegal (hlawful a rfl ⟨fm, hlegal⟩)
    cases hhandle'.symm.trans hhandle
    refine ⟨some (fm.step a.call r), ?_, ?_⟩
    · rintro _ hfm _
      cases hfm
      exact ⟨r, hresult, hanswers, rfl⟩
    · rintro _ hfm
      cases hfm
      exact hrefines
  · refine ⟨none, ?_, fun _ h => by cases h⟩
    rintro fm hfm hl
    exact absurd ⟨fm, hfm, hl⟩ hlegal

variable {τ : Type*} [DecidableEq τ]

/-- The threads of a client that share one connection share one flat memory: for any
number of threads, any interleaving, any cut of the messages and any lawful allocator,
the calls of the memory functions and what they return are linearizable, and the heap
of the node is what the order of the calls leaves. -/
theorem shared_memory_linearizable {caps : Caps} {s : Callers τ Node Invocation}
    {h : List (HistoryEvent τ Invocation (Option Result))}
    (hr : (histories τ realNode caps library LawfulOutcome).Reachable (s, h)) :
    ∃ es m, Linearization (flatObject τ) h es m ∧ Backs s.conn.remote m := by
  obtain ⟨_, phase, es, _, ha⟩ := explained hr
  have h0 : Backs realNode.start (some .empty) := by
    rintro _ hfm
    cases hfm
    exact refines_empty _
  obtain ⟨m, hm, ha'⟩ : ∃ m, Backs s.conn.remote m ∧ Atomic (flatObject τ) phase m es h :=
    ha.refine h0 backs_call fun _ hdrift => by cases hdrift.choose_spec
  exact ⟨es, m, ha'.linearization, hm⟩

/-- `dic_rmalloc(device, 4)` -/
def rmallocFour : Invocation where
  call := .rmalloc 4
  request := ⟨DicOperation.malloc.code, le32 4, by decide⟩
  beyond := []
  built := ⟨_, _, fun _ => 0, rfl, buildRmallocReq_isRequest 4, rfl, by simp [toU32]⟩

/-- `dic_rfree(RNULL(device))` -/
def rfreeNull : Invocation where
  call := .rfree 0
  request := ⟨DicOperation.free.code, le64 0, by decide⟩
  beyond := []
  built := ⟨_, _, fun _ => 0, rfl, buildRfreeReq_isRequest 0, rfl, by simp⟩

/-- The first thread sends while the second one still waits for its response. -/
def rmallocOverRfree : List (CallerAct Bool Sys Invocation) :=
  [.enter true rmallocFour, .enter false rfreeNull] ++
    [.client false .lockSend, .client false (.send 16), .client false .lockRecv,
      .client false .unlockSend, .client true .lockSend, .client true (.send 4),
      .node (.recv 8), .node .headDone, .node (.recv 8), .node .dispatch, .node (.respond .calm),
      .node (.send 5), .node .sendDone, .client true (.send 8), .client false (.recv 4),
      .client false .headDone, .client false (.recv 1), .client false .unlockRecv,
      .client true .lockRecv, .client true .unlockSend, .node (.recv 8), .node .headDone,
      .node (.recv 4), .node .dispatch, .node (.respond .calm), .node (.send 12),
      .node .sendDone, .client true (.recv 4), .client true .headDone, .client true (.recv 8),
      .client true .unlockRecv].map .step

/-- Any block will do while the node has none. -/
def firstBlock (s : Callers Bool Node Invocation) : CallerAct Bool Sys Invocation → Bool
  | .step (.node (.respond sys)) => decide (s.conn.remote.blocks = [] ∧ sys.block ≠ 0)
  | _ => true

theorem firstBlock_admits {s : Callers Bool Node Invocation} {l : CallerAct Bool Sys Invocation}
    (h : firstBlock s l = true) : Admits LawfulOutcome s l := by
  unfold firstBlock at h
  unfold Admits
  split at h
  · next sys =>
      obtain ⟨hblocks, hsys⟩ := of_decide_eq_true h
      rintro head body - a - -
      have hall : ∀ size, Allocates sys s.conn.remote.blocks size := by
        intro size
        refine ⟨hsys, fun b hb => ?_⟩
        rw [hblocks] at hb
        cases hb
      cases hcall : a.call with
      | rmalloc size => exact hall _
      | rrealloc rvoid size =>
          by_cases hnull : rvoid = 0
          · rw [Lawful, if_pos hnull]
            exact hall _
          · rw [Lawful, if_neg hnull]
            intro b hb
            rw [Node.blockAt, hblocks] at hb
            cases hb
      | _ => trivial
  · split
    · next hne => exact absurd rfl (hne _)
    · trivial

theorem overlap_reachable :
    ∃ s h, (histories Bool realNode ⟨32, 32⟩ library LawfulOutcome).Reachable (s, h) ∧
      s.conn.returned.length = 2 := by
  have hrun : (Lts.exec (Callers.step? realNode ⟨32, 32⟩ library) firstBlock
      (.start realNode) rmallocOverRfree).any
        (fun s => decide (s.conn.returned.length = 2)) = true := by
    decide +kernel
  obtain ⟨s, hs, htest⟩ := (Option.any_eq_true _ _).mp hrun
  have hstart : ((callers Bool realNode ⟨32, 32⟩ library).restrict
      (Admits LawfulOutcome)).Reachable (.start realNode) := .init rfl
  obtain ⟨h, hreach⟩ : ∃ h, (histories Bool realNode ⟨32, 32⟩ library
      LawfulOutcome).Reachable (s, h) :=
    (Lts.Reachable.of_exec (fun _ _ _ h => h) (fun _ _ => firstBlock_admits) hstart hs).exists_log
  exact ⟨s, h, hreach, of_decide_eq_true htest⟩

theorem shared_memory_linearizable_run :
    ∃ s h, (histories Bool realNode ⟨32, 32⟩ library LawfulOutcome).Reachable (s, h) ∧
      s.conn.returned.length = 2 ∧
      ∃ es m, Linearization (flatObject Bool) h es m ∧ Backs s.conn.remote m := by
  obtain ⟨s, h, hreach, hreturned⟩ := overlap_reachable
  exact ⟨s, h, hreach, hreturned, shared_memory_linearizable hreach⟩

end Dicon.RemoteMemory
