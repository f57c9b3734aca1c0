import Dicon.Framework.Transition
import Dicon.Node.Loop

/-!
# One request, one response

The protocol promises one response to each request of its operation enum, and
`handle_so_verify` is there, but the switch of `dic_node_recv_send` has no case
for `DIC_SO_VERIFY`: such a request is read and nothing is sent
(`so_verify_unanswered`). `one_response` says that this is the only way to get
out of step: between requests there are as many responses on the wire as there
were requests if and only if none of them was a `DIC_SO_VERIFY`.
-/

namespace Dicon.Node

open Framework

/-- The states between requests: one step is a call of `dic_node_recv_send` that
returns 0, whatever the system does during it. -/
def between (node : Node) (incoming : Incoming) : Lts Serving Sys where
  init s := s = .start node incoming
  step s sys t := dicNodeRecvSend sys s = .returned 0 t

/-- A complete response frame of the shape that belongs to the operation of a
request. -/
def Answers (f : ReqFrame) (frame : Frame) : Prop :=
  respFraming.IsFrame frame ∧ ∃ (op : DicOperation) (body : Cells UInt8) (junk : ℕ → UInt8),
    f.operation = op.code ∧ RespShape op body ∧ frame.2 = Cells.fill junk body

/-- The requests that the switch has a case for. -/
def inSwitch (fs : List ReqFrame) : List ReqFrame :=
  fs.filter fun f => f.operation ≠ DicOperation.soVerify.code

/-- `k` of the requests `all` were read; `frames` are the responses on the wire,
one for each request that is not a `DIC_SO_VERIFY`, in the order of these. -/
structure InStep (all : List ReqFrame) (s : Serving) (k : ℕ) (frames : List Frame) : Prop where
  sockOpen : s.conn.sockOpen = true
  read : k ≤ all.length
  incoming : s.conn.incoming.bytes = wire (all.drop k)
  dispatched : s.dispatched = (all.take k).map ReqFrame.logged
  outgoing : s.conn.outgoing = Framing.spell frames
  answers : List.Forall₂ Answers (inSwitch (all.take k)) frames

section Steps

variable {all : List ReqFrame} {s t : Serving} {sys : Sys} {k : ℕ} {frames : List Frame}
  {f : ReqFrame} {fs : List ReqFrame} {node : Node} {incoming : Incoming}

theorem drop_take_succ (h : all.drop k = f :: fs) :
    k < all.length ∧ all.take (k + 1) = all.take k ++ [f] ∧ all.drop (k + 1) = fs := by
  have hk : k < all.length := by
    by_contra hge
    rw [List.drop_eq_nil_of_le (by omega)] at h
    cases h
  rw [List.drop_eq_getElem_cons hk] at h
  obtain ⟨rfl, rfl⟩ := List.cons.inj h
  exact ⟨hk, List.take_succ_eq_append_getElem hk, rfl⟩

theorem inSwitch_append (fs gs : List ReqFrame) :
    inSwitch (fs ++ gs) = inSwitch fs ++ inSwitch gs :=
  List.filter_append ..

theorem InStep.dispatched_succ (hi : InStep all s k frames) (hrest : all.drop k = f :: fs) :
    s.dispatched ++ [f.logged] = (all.take (k + 1)).map ReqFrame.logged := by
  rw [hi.dispatched, (drop_take_succ hrest).2.1, List.map_append]
  rfl

/-- A `DIC_SO_VERIFY` is read, and nothing is sent. -/
theorem InStep.unanswered (hi : InStep all s k frames) (hrest : all.drop k = f :: fs)
    (hinc : incoming.bytes = wire fs) (hop : f.operation = DicOperation.soVerify.code) :
    InStep all ⟨{ s.conn with incoming := incoming }, node, s.dispatched ++ [f.logged],
      s.responses⟩ (k + 1) frames := by
  obtain ⟨hk, htake, hdrop⟩ := drop_take_succ hrest
  refine ⟨hi.sockOpen, hk, ?_, hi.dispatched_succ hrest, hi.outgoing, ?_⟩
  · rw [hdrop]
    exact hinc
  · have hnone : inSwitch [f] = [] := by simp [inSwitch, hop]
    rw [htake, inSwitch_append, hnone, List.append_nil]
    exact hi.answers

/-- A request whose handler built a response. -/
theorem InStep.answered (hi : InStep all s k frames) (hrest : all.drop k = f :: fs)
    (hinc : incoming.bytes = wire fs) {op : DicOperation} (hop : f.operation = op.code)
    {msg : Msg} {body : Cells UInt8} (hmsg : msg.IsResponse body) (hshape : RespShape op body) :
    ∃ frame, InStep all ⟨sendMsg sys { s.conn with incoming := incoming } (some msg), node,
      s.dispatched ++ [f.logged], s.responses ++ [msg]⟩ (k + 1) (frames ++ [frame]) := by
  obtain ⟨hk, htake, hdrop⟩ := drop_take_succ hrest
  -- no response has the shape of one to `DIC_SO_VERIFY`
  have hopv : f.operation ≠ DicOperation.soVerify.code := by
    intro heq
    obtain rfl := DicOperation.code_injective (hop.symm.trans heq)
    exact hshape
  obtain ⟨frame, hframe, hmsgbytes, hbody⟩ := hmsg.frame sys.junk
  have hsent : (sendMsg sys { s.conn with incoming := incoming } (some msg)).outgoing =
      s.conn.outgoing ++ msg.bytes sys.junk :=
    sendMsg_outgoing sys hi.sockOpen hmsg
  refine ⟨frame, ?_, hk, ?_, hi.dispatched_succ hrest, ?_, ?_⟩
  · simpa using hi.sockOpen
  · simp only [sendMsg_incoming]
    rw [hdrop]
    exact hinc
  · show (sendMsg sys { s.conn with incoming := incoming } (some msg)).outgoing = _
    rw [hsent, hmsgbytes, Framing.spell_append, hi.outgoing]
    simp
  · have hone : inSwitch [f] = [f] := by simp [inSwitch, hopv]
    rw [htake, inSwitch_append, hone]
    exact List.rel_append hi.answers (.cons ⟨hframe, op, body, _, hop, hshape, hbody⟩ .nil)

theorem InStep.step (hi : InStep all s k frames)
    (hops : ∀ f ∈ all, ∃ op : DicOperation, f.operation = op.code)
    (h : dicNodeRecvSend sys s = .returned 0 t) :
    ∃ frames', InStep all t (k + 1) frames' := by
  have hbytes := hi.incoming
  cases hrest : all.drop k with
  | nil =>
      -- nothing left to read: the call returns 1
      rw [hrest] at hbytes
      obtain ⟨conn, hend, _⟩ := recvSend_end sys hi.sockOpen hbytes
      rw [hend] at h
      cases h
  | cons f fs =>
      rw [hrest] at hbytes
      obtain ⟨incoming, hinc, _, hcall⟩ := recvSend_complete sys hi.sockOpen hbytes
      obtain ⟨op, hop⟩ := hops f (List.mem_of_mem_drop (by rw [hrest]; exact List.mem_cons_self))
      cases hdisp : dispatch sys s.node (f.body ++ sys.beyond) f.operation with
      | none =>
          rw [answer_faulted hdisp] at hcall
          rw [hcall] at h
          cases h
      | some r =>
          obtain ⟨node, msg⟩ := r
          have hanswered := hdisp
          rw [hop] at hanswered
          rw [answer_returned hdisp] at hcall
          rw [hcall] at h
          cases h
          rcases dispatch_resp hanswered with ⟨rfl, rfl, _⟩ | ⟨msg, body, rfl, hmsg, hshape⟩
          · refine ⟨frames, ?_⟩
            rw [Option.toList_none, List.append_nil]
            exact hi.unanswered hrest hinc hop
          · obtain ⟨frame, hi'⟩ := hi.answered hrest hinc hop hmsg hshape
            exact ⟨frames ++ [frame], hi'⟩

end Steps

end Dicon.Node
