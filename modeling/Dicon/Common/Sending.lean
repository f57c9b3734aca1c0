import Dicon.Common.Sockets
import Mathlib.Data.List.TakeDrop

/-!
# What a call of `send` may do

`Sockets` has `send` take every message whole. A transport may also take a part
of a message, or fail. `dic_conn_send` calls `send` once and does not look at its
result, so the two agree exactly where that one call takes everything
(`dicConnSendVia_whole`), and otherwise the caller is told nothing
(`send_reported_iff`).
-/

namespace Dicon

/-- What one call of `send` does: it fails, or it takes at least one byte of what
it is offered, and `more` others as far as there are any. -/
inductive SendResult
  | error
  | takes (more : ℕ)
deriving DecidableEq

/-- How many of `len` bytes are taken. -/
def SendResult.count (len : ℕ) : SendResult → ℕ
  | .error => 0
  | .takes more => min (more + 1) len

/-- A connection with the results of the calls of `send` to come. -/
structure Outlet where
  conn : Conn
  results : ℕ → SendResult

namespace Outlet

/-- The calls that are left after one. -/
def next (o : Outlet) (conn : Conn) : Outlet := ⟨conn, fun i => o.results (i + 1)⟩

/-- `send(sockfd, message, len, 0)`. On a closed descriptor it fails. -/
def send (o : Outlet) (message : List UInt8) (len : ℕ) : Outlet :=
  let result := if o.conn.sockOpen then o.results 0 else .error
  o.next { o.conn with
    outgoing := o.conn.outgoing ++ (message.take len).take (result.count len) }

/-- The next call of `send` takes `len` bytes at once. -/
def TakesAll (o : Outlet) (len : ℕ) : Prop :=
  o.conn.sockOpen = true ∧ ∃ more, o.results 0 = .takes more ∧ len ≤ more + 1

end Outlet

/-- What `dic_conn_send` leaves: its result, and the connection. -/
structure ConnSend where
  res : ℤ
  outlet : Outlet

/-- `dic_conn_send`, which returns 0 whatever `send` returned. -/
def dicConnSendVia (o : Outlet) (message : List UInt8) (len : ℤ) : ConnSend :=
  let len := if len = sendStr then ((message.takeWhile (· ≠ 0)).length : ℤ) else len
  ⟨0, o.send message (toSizeT len)⟩

/-- A message whose length is an `int`. -/
structure Message where
  bytes : List UInt8
  fits : bytes.length ≤ intMax

def Message.len (m : Message) : ℤ := m.bytes.length

/-- What the transport is handed of a message by one call of `send`. -/
def Outlet.handed (o : Outlet) (m : Message) : List UInt8 :=
  m.bytes.take ((if o.conn.sockOpen then o.results 0 else .error).count m.bytes.length)

/-- A zero from `dic_conn_send` means that the transport was handed every byte of
the message once and in order. -/
def SendReported (o : Outlet) (m : Message) : Prop :=
  (dicConnSendVia o m.bytes m.len).res = 0 →
    (dicConnSendVia o m.bytes m.len).outlet.conn.outgoing = o.conn.outgoing ++ m.bytes

section

variable {o : Outlet} {m : Message}

@[simp] theorem SendResult.count_error (len : ℕ) : SendResult.error.count len = 0 := rfl

@[simp] theorem SendResult.count_takes (more len : ℕ) :
    (SendResult.takes more).count len = min (more + 1) len := rfl

theorem dicConnSendVia_outgoing (o : Outlet) (m : Message) :
    (dicConnSendVia o m.bytes m.len).outlet.conn.outgoing = o.conn.outgoing ++ o.handed m := by
  have hlen : m.len ≠ sendStr := by
    unfold Message.len sendStr
    omega
  have hsize : toSizeT m.len = m.bytes.length :=
    toSizeT_of_lt (by have := m.fits; unfold intMax at this; omega)
  simp [dicConnSendVia, hlen, hsize, Outlet.send, Outlet.next, Outlet.handed]

/-- Sending leaves what there is to receive. -/
@[simp] theorem dicConnSendVia_stream (o : Outlet) (message : List UInt8) (len : ℤ) :
    (dicConnSendVia o message len).outlet.conn.stream = o.conn.stream := rfl

theorem Outlet.handed_length_le (o : Outlet) (m : Message) :
    (o.handed m).length ≤ m.bytes.length := by
  rw [handed, List.length_take]
  exact Nat.min_le_right ..

/-- That is the whole message exactly if there is nothing to take or the transport
takes everything. -/
theorem handed_eq_iff : o.handed m = m.bytes ↔ m.bytes = [] ∨ o.TakesAll m.bytes.length := by
  rw [Outlet.handed, List.take_eq_self_iff, Outlet.TakesAll]
  cases hopen : o.conn.sockOpen with
  | false => simp [← List.length_eq_zero_iff]
  | true =>
      cases o.results 0 with
      | error => simp [← List.length_eq_zero_iff]
      | takes more =>
          simp [← List.length_eq_zero_iff]
          omega

/-- Such a call does what `Sockets` has every call do. -/
theorem dicConnSendVia_whole (h : o.TakesAll m.bytes.length) :
    (dicConnSendVia o m.bytes m.len).outlet =
      o.next (dicConnSend o.conn m.bytes m.len) := by
  have hout := dicConnSendVia_outgoing o m
  rw [handed_eq_iff.mpr (Or.inr h)] at hout
  have hsent : (dicConnSendVia o m.bytes m.len).outlet.conn =
      { o.conn with outgoing := o.conn.outgoing ++ m.bytes } := by
    rw [← hout]
    rfl
  rw [Message.len, dicConnSend_whole h.1, ← hsent]
  rfl

end

/-- For every message and every sequence of results of `send`: `dic_conn_send`
returns zero only for a message that was handed over whole, if and only if the
message is empty or its one call of `send` takes all of it. -/
theorem send_reported_iff (o : Outlet) (m : Message) :
    SendReported o m ↔ m.bytes = [] ∨ o.TakesAll m.bytes.length := by
  rw [← handed_eq_iff, SendReported, dicConnSendVia_outgoing, List.append_cancel_left_eq]
  exact ⟨fun h => h rfl, fun h _ => h⟩

end Dicon
