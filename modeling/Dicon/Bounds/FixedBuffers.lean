import Dicon.MainServer.Steps
import Dicon.Node.Announce

/-!
# Bodies that are received into a variable

Both ends of an announcement receive a body into a variable of four bytes, and
both take the number of bytes from the head that the peer sent. `tcp_recv_n` knows
neither the variable nor its size: it stores what arrives, up to the count.
-/

namespace Dicon.Bounds

open Framework MainServer

/-- What a receive of a declared size stores. -/
def declaredRecv (conn : Conn) (bodySize : UInt32) : List UInt8 :=
  (dicConnRecv conn (toCInt bodySize.toNat)).buffer

/-- What `handle_push_info` stores into its `dic_req_announce_info`. -/
def pushInfoStored (conn : Conn) (head : MainServer.ReqHead) : List UInt8 :=
  declaredRecv conn head.bodySize

/-- `handle_push_info` stays inside its variable. -/
def PushInfoInside (conn : Conn) (head : MainServer.ReqHead) : Prop :=
  (pushInfoStored conn head).length ≤ reqAnnounceInfoSize

/-- `notify_main_server` stays inside its `dic_resp_announce_info`. -/
def NotifyInside (junk : Node.AnswerJunk) (o : Outlet) (cores : ℤ) : Prop :=
  ∀ stored, (Node.notifyMainServer junk o cores).resBody = some stored →
    stored.length ≤ respAnnounceInfoSize

/-- The body size in the first head of a stream. -/
def declared (stream : List UInt8) : UInt32 := rd32 (stream.take MainServer.respHeadSize)

/-! ## The two receives -/

theorem length_declaredRecv (conn : Conn) (bodySize : UInt32) :
    (declaredRecv conn bodySize).length = min (recvCount bodySize) conn.stream.length := by
  rw [declaredRecv, dicConnRecv_buffer, List.length_take, recvCount]

/-- A variable of `size` bytes is overrun exactly if more is declared and more is
there. -/
theorem declaredRecv_le_iff {size : ℕ} (hsize : size ≤ intMax) (conn : Conn)
    (bodySize : UInt32) : (declaredRecv conn bodySize).length ≤ size ↔
      bodySize.toNat ≤ size ∨ conn.stream.length ≤ size := by
  have hcount := recvCount_le_iff (n := bodySize) hsize
  rw [length_declaredRecv]
  omega

theorem pushInfoInside_iff (conn : Conn) (head : MainServer.ReqHead) :
    PushInfoInside conn head ↔ head.bodySize.toNat ≤ reqAnnounceInfoSize ∨
      conn.stream.length ≤ reqAnnounceInfoSize :=
  declaredRecv_le_iff (by decide) conn head.bodySize

/-- What is stored of an answer is a receive of the size that its head declares;
behind a head that is not whole nothing is stored. -/
theorem recvAnswer_stored (junk : Node.AnswerJunk) (conn : Conn) : ∃ stored,
    (Node.recvAnswer junk conn).resBody = some stored ∧
      stored.length = min (recvCount (declared conn.stream))
        (conn.stream.length - MainServer.respHeadSize) := by
  refine ⟨_, rfl, ?_⟩
  by_cases hhead : MainServer.respHeadSize ≤ conn.stream.length
  · obtain ⟨hbuffer, hrest⟩ := dicConnRecv_arrived (by decide) hhead
    have hlen : (conn.stream.take MainServer.respHeadSize).length = 4 := by
      rw [List.length_take]
      exact Nat.min_eq_left hhead
    have hbody := length_declaredRecv (dicConnRecv conn MainServer.respHeadSize).conn
      (declared conn.stream)
    rw [hrest, List.length_drop] at hbody
    rw [hbuffer, rd32Over_of_length hlen]
    exact hbody
  · -- the second receive finds the descriptor closed
    have hsize : toSizeT MainServer.respHeadSize = MainServer.respHeadSize := by decide
    have hstream : (dicConnRecv conn MainServer.respHeadSize).conn.stream = [] :=
      dicConnRecv_stream_fail (by rw [hsize]; omega)
    rw [dicConnRecv_buffer, hstream, List.take_nil, List.length_nil]
    omega

theorem notifyInside_iff (junk : Node.AnswerJunk) (o : Outlet) (cores : ℤ) :
    NotifyInside junk o cores ↔ (declared o.conn.stream).toNat ≤ respAnnounceInfoSize ∨
      o.conn.stream.length ≤ MainServer.respHeadSize + respAnnounceInfoSize := by
  have hcount : recvCount (declared o.conn.stream) ≤ respAnnounceInfoSize ↔
      (declared o.conn.stream).toNat ≤ respAnnounceInfoSize := recvCount_le_iff (by decide)
  rw [NotifyInside, Node.notifyMainServer_eq]
  obtain ⟨stored, hstored, hlen⟩ := recvAnswer_stored junk
    (dicConnSendVia (dicConnSendVia o Node.headMessage.bytes Node.headMessage.len).outlet
      (Node.bodyMessage cores).bytes (Node.bodyMessage cores).len).outlet.conn
  simp only [dicConnSendVia_stream] at hlen
  rw [hstored]
  constructor
  · intro h
    have hinside := h stored rfl
    omega
  · rintro h _ ⟨⟩
    omega

/-- The receive of `handle_push_info` step by step: a call of `recv` gets past the
variable exactly if more than the variable is declared and has arrived. -/
theorem overruns_iff {h : Handler} {head : MainServer.ReqHead} {got : List UInt8}
    (hpc : h.pc = .recvBody head got) (hopen : h.sockOpen = true)
    (hgot : got.length ≤ reqAnnounceInfoSize) :
    (∃ k, h.CanRecv k ∧ reqAnnounceInfoSize < got.length + k) ↔
      ¬ PushInfoInside ⟨true, [got ++ h.input], []⟩ head := by
  have hneed : h.need = recvCount head.bodySize - got.length := by
    simp only [Handler.need, hpc]
  have hstream : (Conn.stream ⟨true, [got ++ h.input], []⟩).length =
      got.length + h.input.length := by
    rw [Conn.stream_block, List.length_append]
  have hcount : recvCount head.bodySize ≤ reqAnnounceInfoSize ↔
      head.bodySize.toNat ≤ reqAnnounceInfoSize := recvCount_le_iff (by decide)
  rw [pushInfoInside_iff, hstream, ← hcount]
  constructor
  · rintro ⟨k, ⟨_, _, hk, harrived⟩, hover⟩
    omega
  · intro hover
    exact ⟨reqAnnounceInfoSize + 1 - got.length, ⟨hopen, by omega, by omega, by omega⟩, by omega⟩

/-- For every connection, every head and whatever follows on the stream: what
`handle_push_info` stores fits its variable, if and only if at most its size is
declared or arrives; and the same of the answer that `notify_main_server`
receives. -/
theorem fixed_buffers_iff (conn : Conn) (head : MainServer.ReqHead) (junk : Node.AnswerJunk)
    (o : Outlet) (cores : ℤ) :
    (PushInfoInside conn head ↔ head.bodySize.toNat ≤ reqAnnounceInfoSize ∨
      conn.stream.length ≤ reqAnnounceInfoSize) ∧
    (NotifyInside junk o cores ↔ (declared o.conn.stream).toNat ≤ respAnnounceInfoSize ∨
      o.conn.stream.length ≤ MainServer.respHeadSize + respAnnounceInfoSize) :=
  ⟨pushInfoInside_iff conn head, notifyInside_iff junk o cores⟩

/-- Five bytes are declared and arrive. -/
theorem push_info_overrun : ¬ ∀ conn head, PushInfoInside conn head := by
  intro hall
  have hinside := hall ⟨true, [[1, 2, 3, 4, 5]], []⟩ ⟨DicMainOperation.announceInfo.code, 1, 5⟩
  exact absurd hinside (by unfold PushInfoInside; decide)

end Dicon.Bounds
