import Dicon.Client.Calls

/-!
# Blocks of a declared size

The node and the client receive a body into a block of `malloc(body_size)` bytes.
The block has the size that the head declares as a `uint32_t`; the receive gets the
same number as an `int` and counts in `size_t`. The two are the same below `2^31`,
and from there on the count is larger than any block.
-/

namespace Dicon.Bounds

open Framework Client Node

/-- The receive of a body into `malloc(body_size)`, where `allocated` says whether
there is a block. `recv` fails on a null pointer. -/
def recvBody (allocated : Bool) (conn : Conn) (bodySize : UInt32) : ConnRecv :=
  if allocated then dicConnRecv conn (toCInt bodySize.toNat)
  else if recvCount bodySize = 0 then ⟨0, [], conn⟩
  else ⟨1, [], { conn with sockOpen := false }⟩

section

variable {conn : Conn} {bodySize : UInt32}

theorem recvBody_true : recvBody true conn bodySize = dicConnRecv conn (toCInt bodySize.toNat) :=
  if_pos rfl

end

/-! ## The two receivers -/

/-- Who receives a body: the node that of a request, the client that of a response. -/
inductive Receiver
  | node
  | client
deriving DecidableEq

namespace Receiver

/-- The size of the head that is received first. -/
def headSize : Receiver → ℕ
  | .node => reqHeadSize
  | .client => respHeadSize

/-- `head.body_size` -/
def bodySize : Receiver → List UInt8 → UInt32
  | .node, head => (ReqHead.ofBytes head).bodySize
  | .client, head => rd32 head

end Receiver

/-- `dic_node_recv_send` receives its body so. -/
theorem dicNodeRecvSend_recv (sys : Sys) (s : Serving) : dicNodeRecvSend sys s =
    let head := dicConnRecv s.conn reqHeadSize
    if head.res ≠ 0 then .returned head.res { s with conn := head.conn }
    else
      let body := recvBody true head.conn (Receiver.node.bodySize head.buffer)
      if body.res ≠ 0 then .returned body.res { s with conn := body.conn }
      else { s with conn := body.conn }.answer sys (ReqHead.ofBytes head.buffer) body.buffer := by
  simp only [recvBody_true]
  rfl

/-- And so does `dic_atomic_send_recv`. -/
theorem dicAtomicSendRecv_recv {env : Env} {s t : Session} {msg : Msg} {ret : AtomicSendRecvRet}
    (h : dicAtomicSendRecv env s msg = .ok (t, ret)) : ∃ conn : Conn,
      let head := dicConnRecv conn respHeadSize
      let body := recvBody true head.conn (Receiver.client.bodySize head.buffer)
      ret.bodySize = Receiver.client.bodySize head.buffer ∧ ret.body = body.buffer ∧
        t.client = body.conn := by
  simp only [recvBody_true, Receiver.bodySize]
  simp only [dicAtomicSendRecv] at h
  split at h
  · cases h
  · next res serving _ =>
      -- only the connection matters on which the response is received
      generalize (⟨(dicConnSend s.client (msg.bytes env.junk) msg.msgLen).sockOpen,
        (dicConnSend s.client (msg.bytes env.junk) msg.msgLen).incoming ++
          env.toClient.blocks serving.conn.outgoing, []⟩ : Conn) = conn at h
      refine ⟨conn, ?_⟩
      split at h
      · cases h
      · split at h
        · cases h
        · split at h
          · cases h
          · obtain ⟨rfl, rfl⟩ := Prod.mk.inj (Except.ok.inj h)
            simp only [and_self]

end Dicon.Bounds
