import Dicon.Node.Handlers

/-!
# The request loop of the node

`dic_node_recv_send` reads one request with two exact receives, hands it to the
switch and sends what the handler built; `client_handling_loop` calls it until it
fails. However the client's stream is cut into blocks, and wherever it ends, the
loop hands out exactly the requests that arrived whole, in order, and then ends
with a non-zero code (`client_handling_loop_exact`).

`dispatched` and `responses` are ghost logs of a `Serving`.
-/

namespace Dicon.Node

open Framework

/-- A client connection that a node is serving. -/
structure Serving where
  conn : Conn
  node : Node
  dispatched : List (ReqHead × List UInt8)
  responses : List Msg

/-- A connection as it was accepted. -/
def Serving.start (node : Node) (incoming : Incoming) : Serving :=
  ⟨⟨true, incoming, []⟩, node, [], []⟩

/-- How one call of `dic_node_recv_send` ends: it returns, or the handler
crashes or does not return. -/
inductive Outcome
  | returned (res : ℤ) (s : Serving)
  | faulted (s : Serving)

/-- `if(msg.msg != NULL) dic_conn_send(conn, msg.msg, msg.msg_len);` -/
def sendMsg (sys : Sys) (conn : Conn) : Option Msg → Conn
  | none => conn
  | some msg => dicConnSend conn (msg.bytes sys.junk) msg.msgLen

/-- `dic_node_recv_send` after the request was received. -/
def Serving.answer (sys : Sys) (s : Serving) (head : ReqHead) (body : List UInt8) : Outcome :=
  let dispatched := s.dispatched ++ [(head, body)]
  match dispatch sys s.node (body ++ sys.beyond) head.operation with
  | none => .faulted { s with dispatched := dispatched }
  | some (node, msg) =>
      .returned 0 ⟨sendMsg sys s.conn msg, node, dispatched, s.responses ++ msg.toList⟩

def dicNodeRecvSend (sys : Sys) (s : Serving) : Outcome :=
  let head := dicConnRecv s.conn reqHeadSize
  if head.res ≠ 0 then .returned head.res { s with conn := head.conn }
  else
    let reqHead := ReqHead.ofBytes head.buffer
    -- an `unsigned` body size becomes the `int` of `dic_conn_recv`
    let body := dicConnRecv head.conn (toCInt reqHead.bodySize.toNat)
    if body.res ≠ 0 then .returned body.res { s with conn := body.conn }
    else { s with conn := body.conn }.answer sys reqHead body.buffer

/-- `client_handling_loop`, for as many rounds as `fuel` says; `env` is the
system during each request. -/
def clientHandlingLoop (env : ℕ → Sys) : ℕ → Serving → Option Outcome
  | 0, _ => none
  | fuel + 1, s =>
      match dicNodeRecvSend (env s.dispatched.length) s with
      | .returned 0 s' => clientHandlingLoop env fuel s'
      | o => some o

/-! ## Requests on the wire -/

/-- A complete request frame. -/
structure ReqFrame where
  operation : UInt16
  version : UInt16
  body : List UInt8
  small : body.length ≤ intMax

namespace ReqFrame

def head (f : ReqFrame) : ReqHead := ⟨f.operation, f.version, toU32 f.body.length⟩

def bytes (f : ReqFrame) : List UInt8 := f.head.bytes ++ f.body

theorem length_bytes (f : ReqFrame) : f.bytes.length = reqHeadSize + f.body.length := by
  simp [bytes]

/-- The body size that the header declares reaches `tcp_recv_n` unchanged. -/
theorem declared (f : ReqFrame) : toSizeT (toCInt f.head.bodySize.toNat) = f.body.length :=
  recvCount_toU32 f.small

end ReqFrame

def wire (fs : List ReqFrame) : List UInt8 := fs.flatMap ReqFrame.bytes

/-- The frames that lie wholly in the first `cut` bytes. -/
def completeFrames : List ReqFrame → ℕ → List ReqFrame
  | [], _ => []
  | f :: fs, cut =>
      if f.bytes.length ≤ cut then f :: completeFrames fs (cut - f.bytes.length) else []

/-- What is sent for a message. -/
def sentBytes (sys : Sys) (msg : Option Msg) : List UInt8 :=
  msg.toList.flatMap fun m => m.bytes sys.junk

/-- What handling requests leaves: the node, the messages that it built, and
the bytes that it sent. -/
structure Handled where
  node : Node
  msgs : List Msg
  sent : List UInt8

/-- The requests handled one after another; the first one is the `k`-th of the
connection. -/
def handleAll (env : ℕ → Sys) : ℕ → Node → List ReqFrame → Option Handled
  | _, node, [] => some ⟨node, [], []⟩
  | k, node, f :: fs =>
      (dispatch (env k) node (f.body ++ (env k).beyond) f.operation).bind fun (node, msg) =>
        (handleAll env (k + 1) node fs).map fun r =>
          ⟨r.node, msg.toList ++ r.msgs, sentBytes (env k) msg ++ r.sent⟩

/-! ## One call of `dic_node_recv_send` -/

section OneCall

variable {s : Serving}

/-- A request that has arrived whole is received whole, and nothing behind it. -/
theorem recvSend_complete (sys : Sys) {f : ReqFrame} {rest : List UInt8}
    (hopen : s.conn.sockOpen = true) (h : s.conn.incoming.bytes = f.bytes ++ rest) :
    ∃ incoming : Incoming, incoming.bytes = rest ∧
      (s.conn.incoming.Flowing → incoming.Flowing) ∧
      dicNodeRecvSend sys s =
        { s with conn := { s.conn with incoming := incoming } }.answer sys f.head f.body := by
  have hsize : toSizeT reqHeadSize = reqHeadSize := by decide
  have hstream : s.conn.incoming.bytes = f.head.bytes ++ (f.body ++ rest) := by
    rw [h, ReqFrame.bytes, List.append_assoc]
  obtain ⟨inc₁, hinc₁, hflow₁, hrecv₁⟩ := dicConnRecv_ok s.conn reqHeadSize hopen (by
    rw [hsize, hstream, List.length_append, ReqHead.length_bytes]
    omega)
  rw [hsize, hstream, List.drop_left' f.head.length_bytes] at hinc₁
  rw [hsize, hstream, List.take_left' f.head.length_bytes] at hrecv₁
  obtain ⟨inc₂, hinc₂, hflow₂, hrecv₂⟩ :=
    dicConnRecv_ok { s.conn with incoming := inc₁ } (toCInt f.head.bodySize.toNat) hopen (by
      rw [f.declared]
      simp [hinc₁])
  simp only at hinc₂ hrecv₂
  rw [f.declared, hinc₁, List.drop_left] at hinc₂
  rw [f.declared, hinc₁, List.take_left] at hrecv₂
  refine ⟨inc₂, hinc₂, hflow₂ ∘ hflow₁, ?_⟩
  simp [dicNodeRecvSend, hrecv₁, ReqHead.ofBytes_bytes, hrecv₂]

/-- Where the stream ends inside a request, nothing is handled. -/
theorem recvSend_cut (sys : Sys) {f : ReqFrame} {cut : ℕ} (hcut : cut < f.bytes.length)
    (hopen : s.conn.sockOpen = true) (h : s.conn.incoming.bytes = f.bytes.take cut) :
    ∃ conn, dicNodeRecvSend sys s = .returned 1 { s with conn := conn } ∧
      conn.sockOpen = false ∧ conn.outgoing = s.conn.outgoing := by
  have hsize : toSizeT reqHeadSize = reqHeadSize := by decide
  have hlen : s.conn.incoming.bytes.length = cut := by
    rw [h, List.length_take]
    omega
  by_cases hhead : cut < reqHeadSize
  · obtain ⟨hres, hsock, hout⟩ := dicConnRecv_fail s.conn reqHeadSize
      (by rw [hlen, hsize]; exact hhead)
    refine ⟨_, ?_, hsock, hout⟩
    simp [dicNodeRecvSend, hres]
  · -- the header arrived, and declares more than what is left
    have hstream : s.conn.incoming.bytes = f.head.bytes ++ f.body.take (cut - reqHeadSize) := by
      rw [h, ReqFrame.bytes, List.take_append, ReqHead.length_bytes,
        List.take_of_length_le (by rw [ReqHead.length_bytes]; omega)]
    obtain ⟨inc₁, hinc₁, _, hrecv₁⟩ := dicConnRecv_ok s.conn reqHeadSize hopen (by
      rw [hlen, hsize]
      omega)
    rw [hsize, hstream, List.drop_left' f.head.length_bytes] at hinc₁
    rw [hsize, hstream, List.take_left' f.head.length_bytes] at hrecv₁
    have hshort : inc₁.bytes.length < toSizeT (toCInt f.head.bodySize.toNat) := by
      rw [f.length_bytes] at hcut
      rw [f.declared, hinc₁, List.length_take]
      omega
    obtain ⟨hres, hsock, hout⟩ :=
      dicConnRecv_fail { s.conn with incoming := inc₁ } _ hshort
    refine ⟨_, ?_, hsock, hout⟩
    simp [dicNodeRecvSend, hrecv₁, ReqHead.ofBytes_bytes, hres]

/-- Nothing arrived: the loop ends. -/
theorem recvSend_end (sys : Sys) (hopen : s.conn.sockOpen = true) (h : s.conn.incoming.bytes = []) :
    ∃ conn, dicNodeRecvSend sys s = .returned 1 { s with conn := conn } ∧
      conn.sockOpen = false ∧ conn.outgoing = s.conn.outgoing := by
  have hcut : 0 < (ReqFrame.mk 0 0 [] (Nat.zero_le _)).bytes.length := by decide
  exact recvSend_cut sys hcut hopen (by rw [h, List.take_zero])

/-- Sending leaves the receiving side of the connection alone. -/
@[simp] theorem sendMsg_sockOpen (sys : Sys) (conn : Conn) (msg : Option Msg) :
    (sendMsg sys conn msg).sockOpen = conn.sockOpen := by
  cases msg <;> simp [sendMsg]

@[simp] theorem sendMsg_incoming (sys : Sys) (conn : Conn) (msg : Option Msg) :
    (sendMsg sys conn msg).incoming = conn.incoming := by
  cases msg <;> simp [sendMsg]

/-- A response goes out whole. -/
theorem sendMsg_outgoing (sys : Sys) {conn : Conn} {msg : Msg} {body : Cells UInt8}
    (hopen : conn.sockOpen = true) (h : msg.IsResponse body) :
    (sendMsg sys conn (some msg)).outgoing = conn.outgoing ++ msg.bytes sys.junk := by
  have hlen : msg.msgLen = ((msg.bytes sys.junk).length : ℕ) := by
    rw [h.len, h.length]
  rw [sendMsg, hlen, dicConnSend_whole hopen]

/-- Whatever the handler of a request returns is sent. -/
theorem sendMsg_sentBytes {sys : Sys} {conn : Conn} {node node' : Node} {b : List UInt8}
    {operation : UInt16} {msg : Option Msg} (hopen : conn.sockOpen = true)
    (h : dispatch sys node b operation = some (node', msg)) :
    (sendMsg sys conn msg).outgoing = conn.outgoing ++ sentBytes sys msg := by
  cases msg with
  | none => simp [sendMsg, sentBytes]
  | some m =>
      obtain ⟨body, hbody⟩ := dispatch_isResponse h
      rw [sendMsg_outgoing sys hopen hbody]
      simp [sentBytes]

theorem answer_returned {sys : Sys} {head : ReqHead} {body : List UInt8} {node : Node}
    {msg : Option Msg}
    (h : dispatch sys s.node (body ++ sys.beyond) head.operation = some (node, msg)) :
    s.answer sys head body = .returned 0
      ⟨sendMsg sys s.conn msg, node, s.dispatched ++ [(head, body)],
        s.responses ++ msg.toList⟩ := by
  simp [Serving.answer, h]

theorem answer_faulted {sys : Sys} {head : ReqHead} {body : List UInt8}
    (h : dispatch sys s.node (body ++ sys.beyond) head.operation = none) :
    s.answer sys head body = .faulted { s with dispatched := s.dispatched ++ [(head, body)] } := by
  simp [Serving.answer, h]

end OneCall

/-! ## The loop -/

section Loop

variable {env : ℕ → Sys} {s : Serving}

theorem loop_step {fuel : ℕ} {s' : Serving}
    (h : dicNodeRecvSend (env s.dispatched.length) s = .returned 0 s') :
    clientHandlingLoop env (fuel + 1) s = clientHandlingLoop env fuel s' := by
  rw [clientHandlingLoop, h]
  rfl

theorem loop_end {fuel : ℕ} {s' : Serving}
    (h : dicNodeRecvSend (env s.dispatched.length) s = .returned 1 s') :
    clientHandlingLoop env (fuel + 1) s = some (.returned 1 s') := by
  rw [clientHandlingLoop, h]
  rfl

theorem loop_fault {fuel : ℕ} {s' : Serving}
    (h : dicNodeRecvSend (env s.dispatched.length) s = .faulted s') :
    clientHandlingLoop env (fuel + 1) s = some (.faulted s') := by
  rw [clientHandlingLoop, h]

/-- What the log says about a request. -/
def ReqFrame.logged (f : ReqFrame) : ReqHead × List UInt8 := (f.head, f.body)

/-- `t` is `s` after the frames `fs` were handed out and answered as `r` says. -/
structure After (s : Serving) (fs : List ReqFrame) (r : Handled) (t : Serving) : Prop where
  dispatched : t.dispatched = s.dispatched ++ fs.map ReqFrame.logged
  node : t.node = r.node
  responses : t.responses = s.responses ++ r.msgs
  outgoing : t.conn.outgoing = s.conn.outgoing ++ r.sent

/-- The loop handed out the frames `fs` one by one and then ended; or the handler
of one of them did not return. -/
def ServedAll (env : ℕ → Sys) (s : Serving) (fs : List ReqFrame) (o : Option Outcome) : Prop :=
  match handleAll env s.dispatched.length s.node fs with
  | some r => ∃ t, o = some (.returned 1 t) ∧ After s fs r t ∧ t.conn.sockOpen = false
  | none => ∃ t k r f, o = some (.faulted { t with dispatched := t.dispatched ++ [f.logged] }) ∧
      fs[k]? = some f ∧ handleAll env s.dispatched.length s.node (fs.take k) = some r ∧
      handleAll env s.dispatched.length s.node (fs.take (k + 1)) = none ∧
      After s (fs.take k) r t

theorem servedAll_nil {o : Option Outcome} {conn : Conn} (hclosed : conn.sockOpen = false)
    (hout : conn.outgoing = s.conn.outgoing)
    (ho : o = some (.returned 1 { s with conn := conn })) : ServedAll env s [] o :=
  ⟨_, ho, ⟨by simp, rfl, by simp, by simpa using hout⟩, hclosed⟩

theorem handleAll_cons {k : ℕ} {node node' : Node} {f : ReqFrame} {msg : Option Msg}
    (h : dispatch (env k) node (f.body ++ (env k).beyond) f.operation = some (node', msg))
    (fs : List ReqFrame) :
    handleAll env k node (f :: fs) = (handleAll env (k + 1) node' fs).map fun r =>
      ⟨r.node, msg.toList ++ r.msgs, sentBytes (env k) msg ++ r.sent⟩ := by
  rw [handleAll, h]
  rfl

theorem handleAll_cons_none {k : ℕ} {node : Node} {f : ReqFrame}
    (h : dispatch (env k) node (f.body ++ (env k).beyond) f.operation = none)
    (fs : List ReqFrame) : handleAll env k node (f :: fs) = none := by
  rw [handleAll, h]
  rfl

/-- `t` is `s` after the answer to `f`. -/
structure Answered (env : ℕ → Sys) (s : Serving) (f : ReqFrame) (node : Node)
    (msg : Option Msg) (t : Serving) : Prop where
  returned : dispatch (env s.dispatched.length) s.node
    (f.body ++ (env s.dispatched.length).beyond) f.operation = some (node, msg)
  dispatched : t.dispatched = s.dispatched ++ [f.logged]
  node : t.node = node
  responses : t.responses = s.responses ++ msg.toList
  outgoing : t.conn.outgoing = s.conn.outgoing ++ sentBytes (env s.dispatched.length) msg

section Cons

variable {f : ReqFrame} {fs : List ReqFrame} {node : Node} {msg : Option Msg} {t : Serving}

theorem Answered.length (h : Answered env s f node msg t) :
    t.dispatched.length = s.dispatched.length + 1 := by
  rw [h.dispatched, List.length_append, List.length_singleton]

theorem Answered.after (h : Answered env s f node msg t) {r : Handled} {u : Serving}
    (hu : After t fs r u) :
    After s (f :: fs) ⟨r.node, msg.toList ++ r.msgs,
      sentBytes (env s.dispatched.length) msg ++ r.sent⟩ u where
  dispatched := by
    rw [hu.dispatched, h.dispatched, List.append_assoc]
    rfl
  node := hu.node
  responses := by rw [hu.responses, h.responses, List.append_assoc]
  outgoing := by rw [hu.outgoing, h.outgoing, List.append_assoc]

/-- One request answered, and then the others. -/
theorem servedAll_cons {o : Option Outcome} (h : Answered env s f node msg t)
    (hrest : ServedAll env t fs o) : ServedAll env s (f :: fs) o := by
  unfold ServedAll at hrest ⊢
  rw [h.length, h.node] at hrest
  rw [handleAll_cons h.returned]
  cases hall : handleAll env (s.dispatched.length + 1) node fs with
  | some r =>
      rw [hall] at hrest
      obtain ⟨u, ho, hu, hclosed⟩ := hrest
      exact ⟨u, ho, h.after hu, hclosed⟩
  | none =>
      rw [hall] at hrest
      obtain ⟨u, k, r, g, ho, hg, hbefore, hat, hu⟩ := hrest
      refine ⟨u, k + 1, _, g, ho, hg, ?_, ?_, h.after hu⟩
      · rw [List.take_succ_cons, handleAll_cons h.returned, hbefore]
        rfl
      · rw [List.take_succ_cons, handleAll_cons h.returned, hat]
        rfl

theorem servedAll_fault {t : Serving}
    (h : dispatch (env s.dispatched.length) s.node
      (f.body ++ (env s.dispatched.length).beyond) f.operation = none)
    (ht : After s [] ⟨s.node, [], []⟩ t) :
    ServedAll env s (f :: fs)
      (some (.faulted { t with dispatched := t.dispatched ++ [f.logged] })) := by
  unfold ServedAll
  rw [handleAll_cons_none h]
  exact ⟨t, 0, _, f, rfl, rfl, rfl, handleAll_cons_none h _, ht⟩

end Cons

/-- Induction on the frames that the client sends: the first one arrived whole
and is answered, or the stream ends inside it. -/
theorem loop_serves {all : List ReqFrame} {cut fuel : ℕ} (hopen : s.conn.sockOpen = true)
    (h : s.conn.incoming.bytes = (wire all).take cut) (hfuel : all.length < fuel) :
    ServedAll env s (completeFrames all cut) (clientHandlingLoop env fuel s) := by
  induction all generalizing s cut fuel with
  | nil =>
      obtain ⟨fuel, rfl⟩ : ∃ k, fuel = k + 1 := ⟨fuel - 1, by simp at hfuel; omega⟩
      obtain ⟨conn, hend, hclosed, hout⟩ :=
        recvSend_end (env s.dispatched.length) hopen (by simpa [wire] using h)
      exact servedAll_nil hclosed hout (loop_end hend)
  | cons f fs ih =>
      obtain ⟨fuel, rfl⟩ : ∃ k, fuel = k + 1 := ⟨fuel - 1, by simp at hfuel; omega⟩
      have hwire : wire (f :: fs) = f.bytes ++ wire fs := rfl
      rw [completeFrames]
      split
      · next hle =>
          -- the next request has arrived whole: it is handled, and the rest goes by induction
          rw [hwire, List.take_append, List.take_of_length_le hle] at h
          obtain ⟨incoming, hrest, _, hcall⟩ :=
            recvSend_complete (env s.dispatched.length) hopen h
          cases hdisp : dispatch (env s.dispatched.length) s.node
              (f.body ++ (env s.dispatched.length).beyond) f.operation with
          | none =>
              rw [answer_faulted hdisp] at hcall
              rw [loop_fault hcall]
              exact servedAll_fault hdisp ⟨by simp, rfl, by simp, by simp⟩
          | some r =>
              obtain ⟨node, msg⟩ := r
              rw [answer_returned hdisp] at hcall
              rw [loop_step hcall]
              refine servedAll_cons ⟨hdisp, rfl, rfl, rfl, ?_⟩ (ih ?_ ?_ ?_)
              · exact sendMsg_sentBytes hopen hdisp
              · simpa using hopen
              · simpa using hrest
              · simpa using hfuel
      · next hlt =>
          -- the stream ends inside the next request, and so does the loop
          have hcut : cut < f.bytes.length := by omega
          rw [hwire, List.take_append_of_le_length (by omega)] at h
          obtain ⟨conn, hend, hclosed, hout⟩ :=
            recvSend_cut (env s.dispatched.length) hcut hopen h
          exact servedAll_nil hclosed hout (loop_end hend)

end Loop

/-- For every stream of frames (any operation codes, versions and bodies) that
is cut off at any byte and delivered in any blocks: the loop hands out exactly
the complete frames at its start, in order, each with its header and its body;
the node, the responses and the bytes sent are what handling these frames one
after another gives; and then it ends with code 1. Or a handler does not return:
then this holds of the frames before that one, which is the last handed out. -/
theorem client_handling_loop_exact (env : ℕ → Sys) (node : Node) (all : List ReqFrame)
    (cut fuel : ℕ) (incoming : Incoming) (h : incoming.bytes = (wire all).take cut)
    (hfuel : all.length < fuel) :
    (∀ r, handleAll env 0 node (completeFrames all cut) = some r →
      ∃ t, clientHandlingLoop env fuel (.start node incoming) = some (.returned 1 t) ∧
        t.dispatched = (completeFrames all cut).map ReqFrame.logged ∧
        t.node = r.node ∧ t.responses = r.msgs ∧ t.conn.outgoing = r.sent) ∧
    (handleAll env 0 node (completeFrames all cut) = none →
      ∃ t k r, clientHandlingLoop env fuel (.start node incoming) = some (.faulted t) ∧
        k < (completeFrames all cut).length ∧
        handleAll env 0 node ((completeFrames all cut).take k) = some r ∧
        t.dispatched = ((completeFrames all cut).take (k + 1)).map ReqFrame.logged ∧
        t.node = r.node ∧ t.responses = r.msgs ∧ t.conn.outgoing = r.sent) := by
  have hserved : ServedAll env (.start node incoming) (completeFrames all cut)
      (clientHandlingLoop env fuel (.start node incoming)) := loop_serves rfl h hfuel
  unfold ServedAll at hserved
  constructor
  · intro r hall
    simp only [Serving.start, List.length_nil, hall] at hserved
    obtain ⟨t, ho, ht, _⟩ := hserved
    exact ⟨t, ho, ht.dispatched, ht.node, ht.responses, ht.outgoing⟩
  · intro hall
    simp only [Serving.start, List.length_nil, hall] at hserved
    obtain ⟨t, k, r, f, ho, hf, hbefore, _, ht⟩ := hserved
    obtain ⟨hk, hget⟩ := List.getElem?_eq_some_iff.mp hf
    refine ⟨_, k, r, ho, hk, hbefore, ?_, ht.node, ht.responses, ht.outgoing⟩
    rw [List.take_succ_eq_append_getElem hk, hget, List.map_append]
    exact congrArg (· ++ [f.logged]) ht.dispatched

/-- A request for four bytes. -/
def mallocFrame : ReqFrame where
  operation := DicOperation.malloc.code
  version := 0
  body := le32 4
  small := by decide

/-- The request and the first seven bytes of another one, in three blocks. -/
def cutStream : Incoming :=
  [mallocFrame.bytes.take 5, mallocFrame.bytes.drop 5 ++ mallocFrame.bytes.take 3,
    (mallocFrame.bytes.drop 3).take 4]

theorem client_handling_loop_exact_run :
    ∃ t, clientHandlingLoop (fun _ => .calm) 3 (.start .new cutStream) =
        some (.returned 1 t) ∧ t.dispatched = [mallocFrame.logged] := by
  have hall : (handleAll (fun _ => .calm) 0 .new
      (completeFrames [mallocFrame, mallocFrame] 19)).isSome := by
    decide
  obtain ⟨r, hsome⟩ := Option.isSome_iff_exists.mp hall
  obtain ⟨t, ho, hdisp, _⟩ := (client_handling_loop_exact (fun _ => .calm) .new
    [mallocFrame, mallocFrame] 19 3 cutStream (by decide) (by decide)).1 r hsome
  exact ⟨t, ho, hdisp.trans (by decide)⟩

end Dicon.Node
