import Dicon.Common.CInt
import Mathlib.Data.List.Basic

/-!
# Connections (`common/src/dicon_sockets.c`)

`Incoming` is what the transport will hand out, one block for each call of
`recv`: at most what is asked for of the first block, and an end of stream or an
error where a block is empty or there is none. `Incoming.bytes` forgets how the
stream is cut; `tcp_recv_n` depends on nothing else (`tcpRecvN_ok`,
`tcpRecvN_fail`).

`send` takes the whole message.
-/

namespace Dicon

abbrev Incoming := List (List UInt8)

namespace Incoming

/-- The bytes that arrive before the stream ends. -/
def bytes : Incoming → List UInt8
  | [] => []
  | [] :: _ => []
  | (b :: block) :: rest => b :: block ++ bytes rest

/-- The stream does not end between two blocks. -/
def Flowing (inp : Incoming) : Prop := ∀ block ∈ inp, block ≠ []

theorem bytes_cons {block : List UInt8} (h : block ≠ []) (rest : Incoming) :
    bytes (block :: rest) = block ++ bytes rest := by
  cases block with
  | nil => exact absurd rfl h
  | cons b block => rfl

theorem Flowing.eq_nil {inp : Incoming} (h : Flowing inp) (hb : bytes inp = []) : inp = [] := by
  cases inp with
  | nil => rfl
  | cons block rest =>
      have hne : block ≠ [] := h block List.mem_cons_self
      rw [bytes_cons hne, List.append_eq_nil_iff] at hb
      exact absurd hb.1 hne

end Incoming

/-- What `tcp_recv_n` leaves: its result, the bytes it stored, and what comes
next. -/
structure TcpRecv where
  err : ℤ
  buffer : List UInt8
  rest : Incoming

/-- The bytes of one call of `recv` in front of what the others stored. -/
def TcpRecv.after (block : List UInt8) (r : TcpRecv) : TcpRecv :=
  { r with buffer := block ++ r.buffer }

/-- `tcp_recv_n`, one call of `recv` for each block that it takes. -/
def tcpRecvN : ℕ → Incoming → TcpRecv
  | 0, inp => ⟨0, [], inp⟩
  | _ + 1, [] => ⟨-1, [], []⟩
  | _ + 1, [] :: rest => ⟨-1, [], [] :: rest⟩
  | n + 1, (b :: block) :: rest =>
      if block.length ≤ n then (tcpRecvN (n - block.length) rest).after (b :: block)
      -- more has arrived than is asked for; the rest stays in the socket
      else ⟨0, b :: block.take n, block.drop n :: rest⟩

theorem tcpRecvN_ok {n : ℕ} {inp : Incoming} (h : n ≤ inp.bytes.length) :
    (tcpRecvN n inp).err = 0 ∧ (tcpRecvN n inp).buffer = inp.bytes.take n ∧
      (tcpRecvN n inp).rest.bytes = inp.bytes.drop n ∧
      (inp.Flowing → (tcpRecvN n inp).rest.Flowing) := by
  induction inp generalizing n with
  | nil =>
      cases n with
      | zero => exact ⟨rfl, rfl, rfl, id⟩
      | succ n => simp [Incoming.bytes] at h
  | cons block rest ih =>
      cases n with
      | zero => simp [tcpRecvN]
      | succ n =>
          cases block with
          | nil => simp [Incoming.bytes] at h
          | cons b block =>
              have hflow : Incoming.Flowing ((b :: block) :: rest) → Incoming.Flowing rest :=
                fun hf c hc => hf c (List.mem_cons_of_mem _ hc)
              -- either the whole block is taken and more is needed, or a part of it is enough
              simp only [Incoming.bytes, List.length_append, List.length_cons] at h
              rw [tcpRecvN, Incoming.bytes]
              split
              · next hle =>
                  have hn : n - block.length ≤ (Incoming.bytes rest).length := by omega
                  obtain ⟨herr, hbuf, hrest, hf⟩ := ih hn
                  refine ⟨herr, ?_, ?_, hf ∘ hflow⟩
                  · simp [TcpRecv.after, hbuf, List.take_append, List.take_of_length_le hle]
                  · simp [TcpRecv.after, hrest, List.drop_append, List.drop_of_length_le hle]
              · next hlt =>
                  have hne : block.drop n ≠ [] := by
                    simp only [ne_eq, List.drop_eq_nil_iff]
                    omega
                  have hsub : n - block.length = 0 := by omega
                  refine ⟨rfl, ?_, ?_, ?_⟩
                  · simp [List.take_append, hsub]
                  · rw [Incoming.bytes_cons hne]
                    simp [List.drop_append, hsub]
                  · intro hf c hc
                    rcases List.mem_cons.mp hc with rfl | hc
                    · exact hne
                    · exact hflow hf c hc

theorem tcpRecvN_fail {n : ℕ} {inp : Incoming} (h : inp.bytes.length < n) :
    (tcpRecvN n inp).err = -1 := by
  induction inp generalizing n with
  | nil =>
      cases n with
      | zero => exact absurd h (Nat.not_lt_zero _)
      | succ n => rfl
  | cons block rest ih =>
      cases n with
      | zero => exact absurd h (Nat.not_lt_zero _)
      | succ n =>
          cases block with
          | nil => rfl
          | cons b block =>
              simp only [Incoming.bytes, List.length_append, List.length_cons] at h
              rw [tcpRecvN, if_pos (by omega)]
              have hn : (Incoming.bytes rest).length < n - block.length := by omega
              exact ih hn

/-- Failing or not, what is stored is what arrived, up to the count. -/
theorem tcpRecvN_buffer (n : ℕ) (inp : Incoming) :
    (tcpRecvN n inp).buffer = inp.bytes.take n := by
  induction inp generalizing n with
  | nil =>
      cases n with
      | zero => rfl
      | succ n => rfl
  | cons block rest ih =>
      cases n with
      | zero => simp [tcpRecvN]
      | succ n =>
          cases block with
          | nil => rfl
          | cons b block =>
              rw [tcpRecvN, Incoming.bytes, List.cons_append, List.take_succ_cons,
                List.take_append]
              split
              · next hle => simp [TcpRecv.after, ih, List.take_of_length_le hle]
              · next hlt =>
                  have hsub : n - block.length = 0 := by omega
                  simp [hsub]

/-- `dic_conn_t`, as far as one thread uses it: whether `sockfd` is open, and
the two directions of the socket. -/
structure Conn where
  sockOpen : Bool
  incoming : Incoming
  outgoing : List UInt8

/-- What `dic_conn_recv` leaves: its result, the bytes it stored, and the
connection. -/
structure ConnRecv where
  res : ℤ
  buffer : List UInt8
  conn : Conn

/-- `dic_conn_recv` without null termination. On a closed descriptor `recv`
fails. -/
def dicConnRecv (conn : Conn) (n : ℤ) : ConnRecv :=
  let r := tcpRecvN (toSizeT n) (if conn.sockOpen then conn.incoming else [])
  if r.err = -1 then
    ⟨1, r.buffer, { conn with sockOpen := false, incoming := r.rest }⟩
  else ⟨0, r.buffer, { conn with incoming := r.rest }⟩

/-- `SEND_STR` -/
def sendStr : ℤ := -1

/-- `dic_conn_send` -/
def dicConnSend (conn : Conn) (message : List UInt8) (len : ℤ) : Conn :=
  let len := if len = sendStr then ((message.takeWhile (· ≠ 0)).length : ℤ) else len
  if conn.sockOpen then { conn with outgoing := conn.outgoing ++ message.take len.toNat }
  else conn

theorem dicConnRecv_ok (conn : Conn) (n : ℤ) (hopen : conn.sockOpen = true)
    (h : toSizeT n ≤ conn.incoming.bytes.length) :
    ∃ rest : Incoming, rest.bytes = conn.incoming.bytes.drop (toSizeT n) ∧
      (conn.incoming.Flowing → rest.Flowing) ∧
      dicConnRecv conn n =
        ⟨0, conn.incoming.bytes.take (toSizeT n), { conn with incoming := rest }⟩ := by
  obtain ⟨herr, hbuf, hrest, hflow⟩ := tcpRecvN_ok h
  refine ⟨_, hrest, hflow, ?_⟩
  simp [dicConnRecv, hopen, herr, hbuf]

theorem dicConnRecv_fail (conn : Conn) (n : ℤ)
    (h : conn.incoming.bytes.length < toSizeT n) :
    (dicConnRecv conn n).res = 1 ∧ (dicConnRecv conn n).conn.sockOpen = false ∧
      (dicConnRecv conn n).conn.outgoing = conn.outgoing := by
  have herr : (tcpRecvN (toSizeT n) (if conn.sockOpen then conn.incoming else [])).err = -1 := by
    apply tcpRecvN_fail
    split
    · exact h
    · exact Nat.lt_of_le_of_lt (Nat.zero_le _) h
  simp [dicConnRecv, herr]

/-- The bytes that `recv` has for a connection. -/
def Conn.stream (conn : Conn) : List UInt8 := if conn.sockOpen then conn.incoming.bytes else []

theorem Conn.stream_open {conn : Conn} (h : conn.sockOpen = true) :
    conn.stream = conn.incoming.bytes := if_pos h

/-- A stream that has arrived in one block. -/
theorem Conn.stream_block (block out : List UInt8) : Conn.stream ⟨true, [block], out⟩ = block := by
  rw [stream_open rfl]
  cases block <;> simp [Incoming.bytes]

/-- The stream of a connection as the blocks that `recv` takes. -/
theorem Conn.bytes_blocks (conn : Conn) :
    Incoming.bytes (if conn.sockOpen then conn.incoming else []) = conn.stream := by
  rw [stream]
  split <;> rfl

/-- `dic_conn_recv` stores what there is, up to the count that it passes on. -/
theorem dicConnRecv_buffer (conn : Conn) (n : ℤ) :
    (dicConnRecv conn n).buffer = conn.stream.take (toSizeT n) := by
  simp only [dicConnRecv, apply_ite ConnRecv.buffer, ite_self]
  rw [tcpRecvN_buffer, Conn.bytes_blocks]

/-- What is left in the socket after a receive that did not fail. -/
theorem dicConnRecv_stream {conn : Conn} {n : ℤ} (h : toSizeT n ≤ conn.stream.length) :
    (dicConnRecv conn n).conn.stream = conn.stream.drop (toSizeT n) := by
  by_cases hopen : conn.sockOpen = true
  · rw [Conn.stream_open hopen] at h ⊢
    obtain ⟨rest, hrest, _, hrecv⟩ := dicConnRecv_ok conn n hopen h
    simp only [hrecv, Conn.stream, hopen, if_true, hrest]
  · -- nothing was asked for, and nothing is there
    have hfalse : conn.sockOpen = false := Bool.eq_false_iff.mpr hopen
    have hclosed : (dicConnRecv conn n).conn.sockOpen = false := by
      simp only [dicConnRecv, hfalse, Bool.false_eq_true, if_false]
      split <;> rfl
    simp [Conn.stream, hclosed, hfalse]

/-- A receive of bytes that have arrived, in terms of the stream alone. -/
theorem dicConnRecv_arrived {conn : Conn} {n : ℕ} (hn : n ≤ intMax)
    (h : n ≤ conn.stream.length) :
    (dicConnRecv conn n).buffer = conn.stream.take n ∧
      (dicConnRecv conn n).conn.stream = conn.stream.drop n := by
  have hsize : toSizeT n = n := toSizeT_of_lt (by unfold intMax at hn; omega)
  constructor
  · rw [dicConnRecv_buffer, hsize]
  · rw [dicConnRecv_stream (by rw [hsize]; exact h), hsize]

theorem dicConnRecv_stream_fail {conn : Conn} {n : ℤ} (h : conn.stream.length < toSizeT n) :
    (dicConnRecv conn n).conn.stream = [] := by
  rw [← conn.bytes_blocks] at h
  simp [dicConnRecv, tcpRecvN_fail h, Conn.stream]

@[simp] theorem dicConnRecv_outgoing (conn : Conn) (n : ℤ) :
    (dicConnRecv conn n).conn.outgoing = conn.outgoing := by
  simp only [dicConnRecv]
  generalize tcpRecvN (toSizeT n) (if conn.sockOpen then conn.incoming else []) = r
  split <;> rfl

@[simp] theorem dicConnSend_sockOpen (conn : Conn) (message : List UInt8) (len : ℤ) :
    (dicConnSend conn message len).sockOpen = conn.sockOpen := by
  simp only [dicConnSend]
  split <;> rfl

@[simp] theorem dicConnSend_incoming (conn : Conn) (message : List UInt8) (len : ℤ) :
    (dicConnSend conn message len).incoming = conn.incoming := by
  simp only [dicConnSend]
  split <;> rfl

/-- A message whose length fits an `int` goes out whole. -/
theorem dicConnSend_whole {conn : Conn} {message : List UInt8} (hopen : conn.sockOpen = true) :
    dicConnSend conn message message.length =
      { conn with outgoing := conn.outgoing ++ message } := by
  have hlen : ((message.length : ℕ) : ℤ) ≠ sendStr := by
    unfold sendStr
    omega
  simp [dicConnSend, hopen, hlen]

end Dicon
