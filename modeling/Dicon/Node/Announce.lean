import Dicon.Common.Sending
import Dicon.MainServer.Server

/-!
# A node announces itself (`node/src/node_main_communication.c`)

`notify_main_server` sends the head and the body of an announcement and then
receives the head and the body of the answer. It returns early where a send
reports a failure; the results of the two receives are not looked at, so the
answer may be what its variables held before.
-/

namespace Dicon.Node

open Framework MainServer

/-- The two variables of the answer before anything is received into them. -/
structure AnswerJunk where
  bodySize : UInt32
  error : UInt32

/-- What `notify_main_server` leaves: its result, the connection, and the bytes
that were stored into `res_body`, none where it returned before. -/
structure Notified where
  res : ℤ
  conn : Conn
  resBody : Option (List UInt8)

/-- The request head of an announcement. -/
def announceHead : MainServer.ReqHead :=
  ⟨DicMainOperation.announceInfo.code, 1, toU32 reqAnnounceInfoSize⟩

/-- The two receives of `notify_main_server`. -/
def recvAnswer (junk : AnswerJunk) (conn : Conn) : Notified :=
  let resHead := dicConnRecv conn MainServer.respHeadSize
  let bodySize := rd32Over resHead.buffer junk.bodySize
  let resBody := dicConnRecv resHead.conn (toCInt bodySize.toNat)
  ⟨toCInt (rd32Over resBody.buffer junk.error).toNat, resBody.conn, some resBody.buffer⟩

/-- `cores` is what `sysconf` says. -/
def notifyMainServer (junk : AnswerJunk) (o : Outlet) (cores : ℤ) : Notified :=
  let head := dicConnSendVia o announceHead.bytes MainServer.reqHeadSize
  if head.res ≠ 0 then ⟨head.res, head.outlet.conn, none⟩
  else
    let body := dicConnSendVia head.outlet (le32 (toU32 cores)) reqAnnounceInfoSize
    if body.res ≠ 0 then ⟨body.res, body.outlet.conn, none⟩
    else recvAnswer junk body.outlet.conn

/-! ## Its checks -/

/-- The two messages of an announcement. -/
def announcement (cores : ℤ) : List UInt8 := announceHead.bytes ++ le32 (toU32 cores)

/-- `notify_main_server` goes on to receive the answer only after the whole
announcement was handed to the transport. -/
def NotifyReported (junk : AnswerJunk) (o : Outlet) (cores : ℤ) : Prop :=
  (notifyMainServer junk o cores).resBody.isSome →
    (notifyMainServer junk o cores).conn.outgoing = o.conn.outgoing ++ announcement cores

section

variable (junk : AnswerJunk) (o : Outlet) (cores : ℤ)

def headMessage : Message := ⟨announceHead.bytes, by decide⟩

def bodyMessage : Message := ⟨le32 (toU32 cores), by simp [intMax]⟩

theorem notifyMainServer_eq : notifyMainServer junk o cores =
    recvAnswer junk (dicConnSendVia (dicConnSendVia o headMessage.bytes headMessage.len).outlet
      (bodyMessage cores).bytes (bodyMessage cores).len).outlet.conn := by
  rfl

theorem recvAnswer_outgoing (conn : Conn) :
    (recvAnswer junk conn).conn.outgoing = conn.outgoing := by
  simp only [recvAnswer, dicConnRecv_outgoing]

/-- What leaves is what the two calls of `send` take. -/
theorem notifyMainServer_outgoing : (notifyMainServer junk o cores).conn.outgoing =
    o.conn.outgoing ++
      (o.handed headMessage ++ (o.next o.conn).handed (bodyMessage cores)) := by
  rw [notifyMainServer_eq, recvAnswer_outgoing, dicConnSendVia_outgoing, dicConnSendVia_outgoing,
    List.append_assoc]
  rfl

end

/-- The checks of `notify_main_server` see nothing: it goes on after a lost
announcement as after a whole one. -/
theorem notify_reported_iff (junk : AnswerJunk) (o : Outlet) (cores : ℤ) :
    NotifyReported junk o cores ↔ o.TakesAll MainServer.reqHeadSize ∧
      (o.next o.conn).TakesAll reqAnnounceInfoSize := by
  have hhead : headMessage.bytes.length = MainServer.reqHeadSize :=
    MainServer.ReqHead.length_bytes _
  have hbody : (bodyMessage cores).bytes.length = reqAnnounceInfoSize := length_le32 _
  have hfirst := handed_eq_iff (o := o) (m := headMessage)
  have hsecond := handed_eq_iff (o := o.next o.conn) (m := bodyMessage cores)
  have hne : headMessage.bytes ≠ [] := by decide
  have hne' : (bodyMessage cores).bytes ≠ [] := by
    rw [← List.length_pos_iff, hbody]
    decide
  rw [or_iff_right hne, hhead] at hfirst
  rw [or_iff_right hne', hbody] at hsecond
  rw [← hfirst, ← hsecond, NotifyReported, notifyMainServer_outgoing,
    List.append_cancel_left_eq]
  constructor
  · intro h
    -- a part is never longer than its message, so both are whole
    have hlen := o.handed_length_le headMessage
    have hlen' := (o.next o.conn).handed_length_le (bodyMessage cores)
    have hall := h rfl
    have hsum := congrArg List.length hall
    simp only [announcement, List.length_append] at hsum
    exact List.append_inj hall (by simp only [headMessage, bodyMessage] at *; omega)
  · rintro ⟨hh, hb⟩ _
    rw [hh, hb]
    rfl

/-- For every connection and every sequence of results of `send`: `dic_conn_send`
returns zero only for messages that were handed over whole, if and only if the
message is empty or its call of `send` takes all of it; and `notify_main_server`
gets past its checks only with a whole announcement, if and only if both of its
calls do. -/
theorem sends_reported_iff (o : Outlet) :
    (∀ m : Message, SendReported o m ↔ m.bytes = [] ∨ o.TakesAll m.bytes.length) ∧
    ∀ junk cores, NotifyReported junk o cores ↔ o.TakesAll MainServer.reqHeadSize ∧
      (o.next o.conn).TakesAll reqAnnounceInfoSize :=
  ⟨fun m => send_reported_iff o m, fun junk cores => notify_reported_iff junk o cores⟩

theorem twoBytes_fits : ([1, 2] : List UInt8).length ≤ intMax := by decide

/-- The transport takes the first of two bytes, and `dic_conn_send` returns 0. -/
theorem short_send_unreported : ¬ ∀ (o : Outlet) (m : Message), SendReported o m := by
  intro hall
  have hlost := hall ⟨⟨true, [], []⟩, fun _ => .takes 0⟩ ⟨[1, 2], twoBytes_fits⟩ rfl
  exact absurd hlost (by decide)

end Dicon.Node
