import Dicon.Client.Builders
import Dicon.Framework.FieldReader
import Dicon.Node.Loop

/-!
# The client functions over one connection

Every function of the client library builds a request, hands it to
`dic_atomic_send_recv`, reads its result out of the response body and frees both.
`Session` is the client's and the node's end of one connection; a call runs the
client up to its receive, the node for one request, and the client to its end.
The bytes travel in any blocks (`Cut`).

`exchanges` is a ghost log of what happened in each call.
-/

namespace Dicon.Client

open Framework

/-- How the bytes of one message are cut into blocks on their way. -/
structure Cut where
  blocks : List UInt8 → Incoming
  bytes_blocks : ∀ m, (blocks m).bytes = m
  flowing_blocks : ∀ m, (blocks m).Flowing

/-- What is not determined by the two programs during one call. -/
structure Env where
  sys : Node.Sys
  /-- what the request block holds before anything is stored into it -/
  junk : ℕ → UInt8
  /-- what lies behind the response body in the client's memory -/
  beyond : List UInt8
  toNode : Cut
  toClient : Cut

/-- One call, from the client's side and from the node's. -/
structure Exchange where
  /-- the requests that the node handled, and the responses that it built -/
  handled : List (ReqHead × List UInt8)
  answered : List Msg
  /-- the bytes that it sent -/
  response : List UInt8
  /-- what the client received -/
  bodySize : UInt32
  body : List UInt8
  /-- where in the body the client read -/
  reads : List (ℕ × ℕ)
  /-- the bytes in either direction that nobody has read after the call -/
  unreadRequest : List UInt8
  unreadResponse : List UInt8

/-- The two ends of a connection. -/
structure Session where
  client : Conn
  serving : Node.Serving
  exchanges : List Exchange

def Session.start (node : Node) : Session := ⟨⟨true, [], []⟩, .start node [], []⟩

/-- Why a call does not return: one of the two programs crashed or runs forever,
or one of them waits for bytes that nobody sends. -/
inductive Fault
  | crashed
  | waiting
deriving DecidableEq

/-- `atomic_send_recv_ret`, with what the node did. -/
structure AtomicSendRecvRet where
  body : List UInt8
  bodySize : UInt32
  handled : List (ReqHead × List UInt8)
  answered : List Msg
  response : List UInt8

/-- Blocks that arrive at the node. -/
def arrives (serving : Node.Serving) (blocks : Incoming) : Node.Serving :=
  { serving with conn.incoming := serving.conn.incoming ++ blocks }

/-- `dic_atomic_send_recv` by the only thread of a client. -/
def dicAtomicSendRecv (env : Env) (s : Session) (msg : Msg) :
    Except Fault (Session × AtomicSendRecvRet) :=
  let client := dicConnSend s.client (msg.bytes env.junk) msg.msgLen
  match Node.dicNodeRecvSend env.sys (arrives s.serving (env.toNode.blocks client.outgoing)) with
  | .faulted _ => .error .crashed
  | .returned res serving =>
      if res ≠ 0 then .error .waiting
      else
        let response := serving.conn.outgoing
        let incoming := client.incoming ++ env.toClient.blocks response
        let head := dicConnRecv { client with incoming := incoming, outgoing := [] } respHeadSize
        if head.res ≠ 0 then .error .waiting
        else
          let bodySize := rd32 head.buffer
          let body := dicConnRecv head.conn (toCInt bodySize.toNat)
          if body.res ≠ 0 then .error .waiting
          else .ok (⟨body.conn, { serving with conn.outgoing := [] }, s.exchanges⟩,
            { body := body.buffer
              bodySize := bodySize
              handled := serving.dispatched.drop s.serving.dispatched.length
              answered := serving.responses.drop s.serving.responses.length
              response := response })

/-- A client function: the request that it builds, and how it reads the body of
the response, which it casts to the struct of its operation. -/
def remoteCall {α : Type} (env : Env) (s : Session) (msg : Option Msg) (reader : FieldReader α) :
    Except Fault (Session × α) :=
  match msg with
  | none => .error .crashed
  | some msg =>
      match dicAtomicSendRecv env s msg with
      | .error f => .error f
      | .ok (s, rcv) =>
          let b := rcv.body ++ env.beyond
          let exchange : Exchange :=
            { handled := rcv.handled
              answered := rcv.answered
              response := rcv.response
              bodySize := rcv.bodySize
              body := rcv.body
              reads := reader.reads b
              unreadRequest := s.serving.conn.incoming.bytes
              unreadResponse := s.client.incoming.bytes }
          .ok ({ s with exchanges := s.exchanges ++ [exchange] }, reader.value b)

/-- `enum DIC_MEMCPY_MODE` -/
inductive MemcpyMode
  | local2Remote
  | remote2Local
deriving DecidableEq

section Functions

variable (env : Env) (s : Session)

def dicRmalloc (size : ℤ) : Except Fault (Session × UInt64) :=
  remoteCall env s (buildRmallocReq size) (.u64 0)

def dicRrealloc (rvoid : UInt64) (size : ℤ) : Except Fault (Session × UInt64) :=
  remoteCall env s (buildRreallocReq rvoid size) (.u64 0)

def dicRfree (rvoid : UInt64) : Except Fault (Session × ℤ) :=
  remoteCall env s (buildRfreeReq rvoid) (.i8 0)

/-- An `int` that is read from four bytes. -/
def readInt (off : ℕ) : FieldReader ℤ := do
  let x ← .u32 off
  pure (toCInt x.toNat)

def dicMemcpyC2n (loc : List UInt8) (remote : UInt64) (size : ℤ) : Except Fault (Session × ℤ) :=
  remoteCall env s (buildMemcpyC2nReq loc remote size) (readInt 0)

/-- The data of a `dic_resp_memcpy_n2c`, as long as it says. -/
def readData : FieldReader (List UInt8) := do
  let dataSize ← .u32 0
  .bytes 4 dataSize.toNat

/-- With the local buffer as it is afterwards; it must have room for the data. -/
def dicMemcpyN2c (loc : List UInt8) (remote : UInt64) (size : ℤ) :
    Except Fault (Session × ℤ × List UInt8) :=
  match remoteCall env s (buildMemcpyN2cReq remote size) readData with
  | .error f => .error f
  | .ok (s, data) =>
      if data.length ≤ loc.length then .ok (s, 0, data ++ loc.drop data.length)
      else .error .crashed

def dicMemcpy (loc : List UInt8) (remote : UInt64) (size : ℤ) (mode : MemcpyMode) :
    Except Fault (Session × ℤ × List UInt8) :=
  match mode with
  | .local2Remote => (dicMemcpyC2n env s loc remote size).map fun (s, err) => (s, err, loc)
  | .remote2Local => dicMemcpyN2c env s loc remote size

def dicSoLoad (name : CStr) : Except Fault (Session × UInt64) :=
  remoteCall env s (buildSoLoad name) (.u64 0)

def dicSoUnload (handle : UInt64) : Except Fault (Session × ℤ) :=
  remoteCall env s (buildSoUnload handle) (readInt 0)

def dicSoUpload (soPath : Option SoFile) (remoteName : CStr) : Except Fault (Session × ℤ) :=
  remoteCall env s (buildSoUpload soPath remoteName) (readInt 0)

def dicFuncLoad (soHandle : UInt64) (symbol : CStr) : Except Fault (Session × UInt64) :=
  remoteCall env s (buildFuncLoad soHandle symbol) (.u64 0)

def dicRthreadRun (funcPtr argsPtr : UInt64) : Except Fault (Session × UInt64) :=
  remoteCall env s (buildRthreadRun funcPtr argsPtr) (.u64 0)

def dicRthreadJoin (threadId : UInt64) : Except Fault (Session × UInt64) :=
  remoteCall env s (buildRthreadJoin threadId) (.u64 0)

end Functions

/-! ## One exchange -/

/-- Between calls nothing is on its way. -/
structure Session.Synced (s : Session) : Prop where
  clientOpen : s.client.sockOpen = true
  nodeOpen : s.serving.conn.sockOpen = true
  clientIncoming : s.client.incoming = []
  nodeIncoming : s.serving.conn.incoming = []
  clientOutgoing : s.client.outgoing = []
  nodeOutgoing : s.serving.conn.outgoing = []

theorem Session.synced_start (node : Node) : (Session.start node).Synced :=
  ⟨rfl, rfl, rfl, rfl, rfl, rfl⟩

/-- The body of a request as it arrives. -/
def Env.sent (env : Env) (body : Cells UInt8) : List UInt8 :=
  Cells.fill (fun i => env.junk (i + reqHeadSize)) body

/-- The body of a response as it arrives. -/
def Env.answered (env : Env) (body : Cells UInt8) : List UInt8 :=
  Cells.fill (fun i => env.sys.junk (i + respHeadSize)) body

/-- What the handler of a request is given. -/
def Env.request (env : Env) (body : Cells UInt8) : List UInt8 := env.sent body ++ env.sys.beyond

section Exchange

variable {env : Env} {s : Session} {msg : Msg} {operation : UInt16} {body : Cells UInt8}

/-- The request frame that a client sends. -/
def frameOf (env : Env) (h : msg.IsRequest operation body) : Node.ReqFrame where
  operation := operation
  version := 0
  body := env.sent body
  small := by
    have hfits := h.fits
    rw [Env.sent, Cells.length_fill]
    omega

/-- The node reads exactly the request, and nothing is left of it. -/
theorem Session.Synced.served (env : Env) (hs : s.Synced) (h : msg.IsRequest operation body) :
    dicConnSend s.client (msg.bytes env.junk) msg.msgLen =
        { s.client with outgoing := (frameOf env h).bytes } ∧
      Node.dicNodeRecvSend env.sys
          (arrives s.serving (env.toNode.blocks (frameOf env h).bytes)) =
        s.serving.answer env.sys (frameOf env h).head (env.sent body) := by
  have hbytes : (msg.bytes env.junk).take msg.msgLen.toNat = (frameOf env h).bytes := by
    rw [h.bytes_eq, Node.ReqFrame.bytes, Node.ReqFrame.head]
    simp [frameOf, Env.sent]
  constructor
  · have hlen : msg.msgLen ≠ sendStr := by
      rw [h.len, sendStr]
      omega
    simp only [dicConnSend, if_neg hlen, hs.clientOpen, if_true, hs.clientOutgoing,
      List.nil_append, hbytes]
  · let arrived := arrives s.serving (env.toNode.blocks (frameOf env h).bytes)
    have hstream : arrived.conn.incoming.bytes = (frameOf env h).bytes ++ [] := by
      simp [arrived, arrives, hs.nodeIncoming, env.toNode.bytes_blocks]
    obtain ⟨incoming, hrest, hflow, hcall⟩ :=
      Node.recvSend_complete env.sys (s := arrived) hs.nodeOpen hstream
    have hflowing : arrived.conn.incoming.Flowing := by
      simpa [arrived, arrives, hs.nodeIncoming] using env.toNode.flowing_blocks _
    rw [(hflow hflowing).eq_nil hrest] at hcall
    rw [hcall]
    congr 1
    simp [arrived, arrives, ← hs.nodeIncoming]

/-- A client for which a response has arrived receives its body, and nothing is
left of it. -/
theorem recvResponse (conn : Conn) {b : List UInt8} (hopen : conn.sockOpen = true)
    (hflow : conn.incoming.Flowing) (hbytes : conn.incoming.bytes = le32 (toU32 b.length) ++ b)
    (hfits : b.length ≤ intMax) :
    ∃ incoming, dicConnRecv conn respHeadSize =
        ⟨0, le32 (toU32 b.length), { conn with incoming := incoming }⟩ ∧
      dicConnRecv { conn with incoming := incoming } (toCInt (toU32 b.length).toNat) =
        ⟨0, b, { conn with incoming := [] }⟩ := by
  have hsize : toSizeT respHeadSize = respHeadSize := by decide
  have hhead : (le32 (toU32 b.length)).length = respHeadSize := length_le32 _
  have hcount : toSizeT (toCInt (toU32 b.length).toNat) = b.length := recvCount_toU32 hfits
  obtain ⟨inc₁, hinc₁, hflow₁, hrecv₁⟩ := dicConnRecv_ok conn respHeadSize hopen (by
    rw [hsize, hbytes, List.length_append, hhead]
    omega)
  rw [hsize, hbytes, List.drop_left' hhead] at hinc₁
  rw [hsize, hbytes, List.take_left' hhead] at hrecv₁
  obtain ⟨inc₂, hinc₂, hflow₂, hrecv₂⟩ :=
    dicConnRecv_ok { conn with incoming := inc₁ } (toCInt (toU32 b.length).toNat) hopen (by
      rw [hcount, hinc₁])
  simp only [hcount, hinc₁, List.drop_length, List.take_length] at hinc₂ hrecv₂
  refine ⟨inc₁, hrecv₁, ?_⟩
  rw [hrecv₂, (hflow₂ (hflow₁ hflow)).eq_nil hinc₂]

/-- A request that its handler answers: the client gets the body of that answer. -/
theorem Session.Synced.atomicSendRecv (hs : s.Synced) (h : msg.IsRequest operation body)
    {node : Node} {resp : Msg} {respBody : Cells UInt8}
    (hdisp : Node.dispatch env.sys s.serving.node (env.request body) operation =
      some (node, some resp))
    (hresp : resp.IsResponse respBody) :
    ∃ s', dicAtomicSendRecv env s msg = .ok (s',
        { body := env.answered respBody
          bodySize := toU32 respBody.length
          handled := [((frameOf env h).head, env.sent body)]
          answered := [resp]
          response := resp.bytes env.sys.junk }) ∧
      s'.Synced ∧ s'.serving.node = node ∧ s'.exchanges = s.exchanges := by
  obtain ⟨hsend, hcall⟩ := hs.served env h
  have hlen : (env.answered respBody).length = respBody.length := Cells.length_fill _ _
  have hout : (Node.sendMsg env.sys s.serving.conn (some resp)).outgoing =
      resp.bytes env.sys.junk := by
    rw [Node.sendMsg_outgoing env.sys hs.nodeOpen hresp, hs.nodeOutgoing, List.nil_append]
  have hbytes : (env.toClient.blocks (resp.bytes env.sys.junk)).bytes =
      le32 (toU32 (env.answered respBody).length) ++ env.answered respBody := by
    rw [env.toClient.bytes_blocks, hresp.bytes_eq, hlen]
    rfl
  -- however the response is cut into blocks, its head and its body are received whole
  obtain ⟨incoming, hhead, hbody⟩ := recvResponse
    ⟨true, env.toClient.blocks (resp.bytes env.sys.junk), []⟩ rfl
    (env.toClient.flowing_blocks _) hbytes
    (by rw [hlen]; have := hresp.fits; omega)
  rw [hlen] at hhead hbody
  rw [Node.answer_returned hdisp] at hcall
  refine ⟨⟨⟨true, [], []⟩, ⟨{ s.serving.conn with outgoing := [] }, node,
      s.serving.dispatched ++ [((frameOf env h).head, env.sent body)],
      s.serving.responses ++ [resp]⟩, s.exchanges⟩, ?_,
    ⟨rfl, hs.nodeOpen, rfl, hs.nodeIncoming, rfl, rfl⟩, rfl, rfl⟩
  simp only [dicAtomicSendRecv, hsend, hcall, hs.clientOpen, hs.clientIncoming,
    List.nil_append, hout, ne_eq, not_true, if_false]
  rw [hhead]
  simp only [rd32_le32, not_true, if_false]
  rw [hbody]
  simp

/-- A request whose handler does not return. -/
theorem Session.Synced.atomicSendRecv_crashed (hs : s.Synced) (h : msg.IsRequest operation body)
    (hdisp : Node.dispatch env.sys s.serving.node (env.request body) operation = none) :
    dicAtomicSendRecv env s msg = .error .crashed := by
  obtain ⟨hsend, hcall⟩ := hs.served env h
  rw [Node.answer_faulted hdisp] at hcall
  simp only [dicAtomicSendRecv, hsend, hcall]

/-- What the log says about a request that its handler answered. -/
def exchangeOf {α : Type} (env : Env) (h : msg.IsRequest operation body) (resp : Msg)
    (respBody : Cells UInt8) (reader : FieldReader α) : Exchange where
  handled := [((frameOf env h).head, env.sent body)]
  answered := [resp]
  response := resp.bytes env.sys.junk
  bodySize := toU32 respBody.length
  body := env.answered respBody
  reads := reader.reads (env.answered respBody ++ env.beyond)
  unreadRequest := []
  unreadResponse := []

theorem Session.Synced.remoteCall {α : Type} (hs : s.Synced) (h : msg.IsRequest operation body)
    {node : Node} {resp : Msg} {respBody : Cells UInt8}
    (hdisp : Node.dispatch env.sys s.serving.node (env.request body) operation =
      some (node, some resp))
    (hresp : resp.IsResponse respBody) (reader : FieldReader α) :
    ∃ s', Client.remoteCall env s (some msg) reader =
        .ok (s', reader.value (env.answered respBody ++ env.beyond)) ∧
      s'.Synced ∧ s'.serving.node = node ∧
      s'.exchanges = s.exchanges ++ [exchangeOf env h resp respBody reader] := by
  obtain ⟨t, hcall, ht, hnode, hlog⟩ := hs.atomicSendRecv h hdisp hresp
  refine ⟨{ t with exchanges := t.exchanges ++ [exchangeOf env h resp respBody reader] }, ?_,
    ⟨ht.clientOpen, ht.nodeOpen, ht.clientIncoming, ht.nodeIncoming, ht.clientOutgoing,
      ht.nodeOutgoing⟩, hnode, ?_⟩
  · simp only [Client.remoteCall, hcall, exchangeOf, ht.nodeIncoming, ht.clientIncoming]
    rfl
  · rw [hlog]

theorem Session.Synced.remoteCall_crashed {α : Type} (hs : s.Synced)
    (h : msg.IsRequest operation body)
    (hdisp : Node.dispatch env.sys s.serving.node (env.request body) operation = none)
    (reader : FieldReader α) :
    Client.remoteCall env s (some msg) reader = .error .crashed := by
  simp only [Client.remoteCall, hs.atomicSendRecv_crashed h hdisp]

end Exchange

end Dicon.Client
