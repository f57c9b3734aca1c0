import Dicon.Framework.ByteMemory
import Dicon.Framework.Transport
import Dicon.Common.Sockets

/-!
# The receive loop (`common/src/dicon_sockets.c`)

`tcp_recv_n` as it runs: a count of what has been received, a buffer in memory,
and one call of `recv` after the other. The transport decides how much each call
returns. The invariant is that the buffer holds the start of the stream
(`Receiving`), and after at most `n` calls the loop ends.

`Incoming` is one such transport, and on it the loop computes `tcpRecvN`
(`tcpRecvLoop_incoming`).
-/

namespace Dicon

open Framework

section Loop

variable {σ : Type}

/-- The variables of the loop: what has been received, the memory that the buffer
is in, and the socket. -/
structure RecvLoop (σ : Type) where
  received : ℕ
  mem : ℕ → UInt8
  socket : σ

/-- What `tcp_recv_n` leaves: its result, the memory, and the socket. -/
structure TcpRecvInto (σ : Type) where
  err : ℤ
  mem : ℕ → UInt8
  socket : σ

/-- `while (received < n)`, for `fuel` iterations at most. -/
def tcpRecvLoop (T : Transport σ UInt8) (buf n : ℕ) : ℕ → RecvLoop σ → Option (TcpRecvInto σ)
  | 0, _ => none
  | fuel + 1, st =>
      if st.received < n then
        match T.recv st.socket (n - st.received) with
        | .data bytes socket =>
            tcpRecvLoop T buf n fuel
              { received := st.received + bytes.length
                mem := ByteMemory.write st.mem (buf + st.received) bytes
                socket := socket }
        -- `bytes <= 0`
        | .ended | .failed => some ⟨-1, st.mem, st.socket⟩
      else some ⟨0, st.mem, st.socket⟩

/-- `tcp_recv_n` -/
def tcpRecvNInto (T : Transport σ UInt8) (fuel : ℕ) (socket : σ) (mem : ℕ → UInt8)
    (buffer n : ℕ) : Option (TcpRecvInto σ) :=
  tcpRecvLoop T buffer n fuel ⟨0, mem, socket⟩

/-- `dic_conn_t`, with what `recv` has for its descriptor; for `-1` that fails. -/
structure SocketConn (σ : Type) where
  sockfd : ℤ
  socket : σ

/-- What `dic_conn_recv` leaves: its result, the memory, and the connection. -/
structure ConnRecvInto (σ : Type) where
  res : ℤ
  mem : ℕ → UInt8
  conn : SocketConn σ

/-- `dic_conn_recv` -/
def dicConnRecvInto (T : Transport σ UInt8) (fuel : ℕ) (conn : SocketConn σ) (mem : ℕ → UInt8)
    (buffer : ℕ) (n : ℤ) (nullTerminate : Bool) : Option (ConnRecvInto σ) := do
  let r ← tcpRecvNInto T fuel conn.socket mem buffer (toSizeT n)
  if r.err = -1 then some ⟨1, r.mem, ⟨-1, r.socket⟩⟩
  else
    let mem := if nullTerminate then ByteMemory.write r.mem (buffer + n).toNat [0] else r.mem
    some ⟨0, mem, ⟨conn.sockfd, r.socket⟩⟩

/-! ## One call of `recv` -/

section OneCall

variable {T : Transport σ UInt8} {buf n : ℕ} {st : RecvLoop σ}

theorem tcpRecvLoop_done (h : ¬ st.received < n) (fuel : ℕ) :
    tcpRecvLoop T buf n (fuel + 1) st = some ⟨0, st.mem, st.socket⟩ := by
  rw [tcpRecvLoop, if_neg h]

theorem tcpRecvLoop_data (h : st.received < n) {bytes : List UInt8} {socket : σ}
    (hrecv : T.recv st.socket (n - st.received) = .data bytes socket) (fuel : ℕ) :
    tcpRecvLoop T buf n (fuel + 1) st =
      tcpRecvLoop T buf n fuel
        { received := st.received + bytes.length
          mem := ByteMemory.write st.mem (buf + st.received) bytes
          socket := socket } := by
  rw [tcpRecvLoop, if_pos h, hrecv]

theorem tcpRecvLoop_fails (h : st.received < n)
    (hrecv : T.recv st.socket (n - st.received) = .ended ∨
      T.recv st.socket (n - st.received) = .failed) (fuel : ℕ) :
    tcpRecvLoop T buf n (fuel + 1) st = some ⟨-1, st.mem, st.socket⟩ := by
  rcases hrecv with hrecv | hrecv <;> rw [tcpRecvLoop, if_pos h, hrecv]

end OneCall

/-! ## The invariant -/

/-- The buffer holds the start of the stream, as much of it as has been received. -/
def Receiving (T : Transport σ UInt8) (s : σ) (mem : ℕ → UInt8) (buf n : ℕ)
    (st : RecvLoop σ) : Prop :=
  ∃ bytes : List UInt8, bytes.length = st.received ∧ bytes.length ≤ n ∧
    T.Took s bytes st.socket ∧ st.mem = ByteMemory.write mem buf bytes

variable {T : Transport σ UInt8} {s : σ} {mem : ℕ → UInt8} {buf n : ℕ} {st : RecvLoop σ}

theorem receiving_start (T : Transport σ UInt8) (s : σ) (mem : ℕ → UInt8) (buf n : ℕ) :
    Receiving T s mem buf n ⟨0, mem, s⟩ :=
  ⟨[], rfl, Nat.zero_le _, .nil s, (ByteMemory.write_nil mem buf).symm⟩

/-- One call of `recv` that returns something. -/
theorem Receiving.step (h : Receiving T s mem buf n st) (hlt : st.received < n)
    {bytes : List UInt8} {socket : σ}
    (hrecv : T.recv st.socket (n - st.received) = .data bytes socket) :
    Receiving T s mem buf n
      ⟨st.received + bytes.length, ByteMemory.write st.mem (buf + st.received) bytes, socket⟩ := by
  obtain ⟨got, hlen, _, htook, hmem⟩ := h
  have hcount := (T.length_data (Nat.sub_pos_of_lt hlt) hrecv).2
  refine ⟨got ++ bytes, ?_, ?_, htook.append (.recv hrecv), ?_⟩
  · rw [List.length_append, hlen]
  · rw [List.length_append, hlen]
    omega
  · rw [hmem, ← hlen, ByteMemory.write_append]

/-- What the loop leaves: either all is there, or the stream ended before. -/
def RecvOutcome (T : Transport σ UInt8) (s : σ) (mem : ℕ → UInt8) (buf n : ℕ)
    (r : TcpRecvInto σ) : Prop :=
  (r.err = 0 ∧ ∃ bytes : List UInt8, bytes.length = n ∧ T.Took s bytes r.socket ∧
    r.mem = ByteMemory.write mem buf bytes) ∨
  (r.err = -1 ∧ ¬ T.Arrive s n)

/-- However many iterations more than the bytes still to come are allowed, the loop
ends with `r`. -/
def RecvEnds (T : Transport σ UInt8) (buf n : ℕ) (st : RecvLoop σ) (r : TcpRecvInto σ) : Prop :=
  ∀ fuel, n - st.received ≤ fuel → tcpRecvLoop T buf n (fuel + 1) st = some r

/-- What is still to be received bounds the calls that are left. -/
theorem Receiving.run (h : Receiving T s mem buf n st) :
    ∃ r, RecvOutcome T s mem buf n r ∧ RecvEnds T buf n st r := by
  induction hk : n - st.received using Nat.strong_induction_on generalizing st with
  | _ k ih =>
      obtain ⟨got, hlen, hn, htook, hmem⟩ := id h
      by_cases hlt : st.received < n
      · have hpos : 0 < n - st.received := Nat.sub_pos_of_lt hlt
        have hshort : got.length < n := by
          rw [hlen]
          exact hlt
        cases hrecv : T.recv st.socket (n - st.received) with
        | data bytes socket =>
            -- at least one byte less is missing
            have hsome := (T.length_data hpos hrecv).1
            have hless : n - (st.received + bytes.length) < k := by omega
            obtain ⟨r, hr, hrun⟩ := ih _ hless (h.step hlt hrecv) rfl
            refine ⟨r, hr, ?_⟩
            intro fuel hfuel
            rw [tcpRecvLoop_data hlt hrecv]
            obtain ⟨fuel, rfl⟩ : ∃ m, fuel = m + 1 := ⟨fuel - 1, by omega⟩
            apply hrun fuel
            show n - (st.received + bytes.length) ≤ fuel
            omega
        | ended =>
            refine ⟨⟨-1, st.mem, st.socket⟩, Or.inr ⟨rfl, ?_⟩, ?_⟩
            · exact htook.not_arrive (T.stream_ended hpos hrecv) hshort
            · intro fuel _
              exact tcpRecvLoop_fails hlt (Or.inl hrecv) fuel
        | failed =>
            refine ⟨⟨-1, st.mem, st.socket⟩, Or.inr ⟨rfl, ?_⟩, ?_⟩
            · exact htook.not_arrive (T.stream_failed hpos hrecv) hshort
            · intro fuel _
              exact tcpRecvLoop_fails hlt (Or.inr hrecv) fuel
      · refine ⟨⟨0, st.mem, st.socket⟩, Or.inl ⟨rfl, got, by omega, htook, hmem⟩, ?_⟩
        intro fuel _
        exact tcpRecvLoop_done hlt fuel

/-- `tcp_recv_n` after `n + 1` tests of its condition at most. -/
theorem tcpRecvNInto_outcome (T : Transport σ UInt8) (s : σ) (mem : ℕ → UInt8) (buf n : ℕ) :
    ∃ r, RecvOutcome T s mem buf n r ∧
      ∀ fuel, n < fuel → tcpRecvNInto T fuel s mem buf n = some r := by
  obtain ⟨r, hr, hrun⟩ := (receiving_start T s mem buf n).run
  refine ⟨r, hr, ?_⟩
  intro fuel hfuel
  obtain ⟨fuel, rfl⟩ : ∃ m, fuel = m + 1 := ⟨fuel - 1, by omega⟩
  exact hrun fuel (Nat.le_of_lt_succ hfuel)

/-- On a stream that ends too early, `tcp_recv_n` fails. -/
theorem RecvOutcome.failed {r : TcpRecvInto σ} (h : RecvOutcome T s mem buf n r)
    (hend : ¬ T.Arrive s n) : r.err = -1 := by
  rcases h with ⟨_, bytes, hlen, htook, _⟩ | ⟨herr, _⟩
  · exact absurd (hlen ▸ htook.arrive) hend
  · exact herr

/-- Whatever the transport does, `tcp_recv_n` ends: with exactly the first `n` bytes
of the stream if as many arrive, and else with an error, which closes the
connection in `dic_conn_recv`. -/
theorem exact_reads (T : Transport σ UInt8) (s : σ) (mem : ℕ → UInt8) (buf n : ℕ) :
    ∃ r : TcpRecvInto σ, (∀ fuel, n < fuel → tcpRecvNInto T fuel s mem buf n = some r) ∧
      (T.Arrive s n →
        r.err = 0 ∧ (∀ i < n, some (r.mem (buf + i)) = T.stream s i) ∧
        (∀ a, a < buf ∨ buf + n ≤ a → r.mem a = mem a) ∧
        ∀ i, T.stream r.socket i = T.stream s (n + i)) ∧
      (¬ T.Arrive s n →
        r.err = -1 ∧
        ∀ (sockfd m : ℤ) (nullTerminate : Bool), toSizeT m = n →
          ∃ c : ConnRecvInto σ,
            (∀ fuel, n < fuel →
              dicConnRecvInto T fuel ⟨sockfd, s⟩ mem buf m nullTerminate = some c) ∧
            c.res = 1 ∧ c.conn.sockfd = -1) := by
  obtain ⟨r, hr, hrun⟩ := tcpRecvNInto_outcome T s mem buf n
  refine ⟨r, hrun, ?_, ?_⟩
  · intro harrive
    rcases hr with ⟨herr, bytes, rfl, htook, hmem⟩ | ⟨_, hend⟩
    · refine ⟨herr, ?_, ?_, fun i => (htook.rest i).symm⟩
      · intro i hi
        rw [hmem, ByteMemory.write_at mem bytes hi, htook.taken i hi]
      · intro a ha
        rw [hmem, ByteMemory.write_outside ha]
    · exact absurd harrive hend
  · intro hend
    have herr := hr.failed hend
    refine ⟨herr, ?_⟩
    intro sockfd m nullTerminate hm
    refine ⟨⟨1, r.mem, ⟨-1, r.socket⟩⟩, ?_, rfl, rfl⟩
    intro fuel hfuel
    rw [dicConnRecvInto, hm, hrun fuel hfuel]
    simp [herr]

end Loop

/-! ## Blocks -/

namespace Incoming

/-- `recv` on a list of blocks. -/
def recv : Incoming → ℕ → Received Incoming UInt8
  | [], _ => .failed
  | [] :: _, _ => .ended
  | (b :: block) :: rest, count =>
      if (b :: block).length ≤ count then .data (b :: block) rest
      else .data ((b :: block).take count) ((b :: block).drop count :: rest)

theorem recv_data {inp next : Incoming} {count : ℕ} {values : List UInt8}
    (h : recv inp count = .data values next) :
    values.length ≤ count ∧ (0 < count → 0 < values.length) ∧
      bytes inp = values ++ bytes next := by
  unfold recv at h
  split at h
  · cases h
  · cases h
  · next b block rest =>
      split at h
      · next hle =>
          cases h
          exact ⟨hle, fun _ => Nat.succ_pos _, rfl⟩
      · next hlt =>
          cases h
          have hne : (b :: block).drop count ≠ [] := by
            rw [ne_eq, List.drop_eq_nil_iff]
            exact hlt
          refine ⟨List.length_take_le _ _, ?_, ?_⟩
          · intro hpos
            rw [List.length_take]
            omega
          · rw [bytes_cons hne, ← List.append_assoc, List.take_append_drop]
            rfl

theorem bytes_of_ended {inp : Incoming} {count : ℕ}
    (h : recv inp count = .ended ∨ recv inp count = .failed) : bytes inp = [] := by
  unfold recv at h
  split at h
  · rfl
  · rfl
  · split at h <;> rcases h with h | h <;> cases h

/-- Blocks are a transport. -/
def transport : Transport Incoming UInt8 where
  recv := recv
  stream inp i := inp.bytes[i]?
  length_data hpos h := ⟨(recv_data h).2.1 hpos, (recv_data h).1⟩
  stream_data h := by
    rw [(recv_data h).2.2]
    constructor
    · intro i hi
      exact List.getElem?_append_left hi
    · intro i
      rw [List.getElem?_append_right (Nat.le_add_right _ _), Nat.add_sub_cancel_left]
  stream_ended _ h := by
    rw [bytes_of_ended (Or.inl h)]
    rfl
  stream_failed _ h := by
    rw [bytes_of_ended (Or.inr h)]
    rfl

@[simp] theorem transport_recv (inp : Incoming) (count : ℕ) :
    transport.recv inp count = recv inp count := rfl

theorem recv_whole {b : UInt8} {block : List UInt8} {rest : Incoming} {n : ℕ}
    (h : block.length ≤ n) : recv ((b :: block) :: rest) (n + 1) = .data (b :: block) rest :=
  if_pos (Nat.succ_le_succ h)

theorem recv_part {b : UInt8} {block : List UInt8} {rest : Incoming} {n : ℕ}
    (h : n < block.length) :
    recv ((b :: block) :: rest) (n + 1) =
      .data (b :: block.take n) (block.drop n :: rest) :=
  if_neg fun hle => absurd (Nat.le_of_succ_le_succ hle) (Nat.not_le_of_lt h)

end Incoming

/-- On blocks the loop computes `tcpRecvN` of what it has still to receive. -/
theorem tcpRecvLoop_incoming (buf : ℕ) {k m fuel : ℕ} (mem : ℕ → UInt8) (inp : Incoming)
    (hfuel : m < fuel) :
    tcpRecvLoop Incoming.transport buf (k + m) fuel ⟨k, mem, inp⟩ =
      some ⟨(tcpRecvN m inp).err, ByteMemory.write mem (buf + k) (tcpRecvN m inp).buffer,
        (tcpRecvN m inp).rest⟩ := by
  obtain ⟨fuel, rfl⟩ : ∃ f, fuel = f + 1 := ⟨fuel - 1, by omega⟩
  induction inp generalizing k m fuel mem with
  | nil =>
      cases m with
      | zero => simp [tcpRecvLoop, tcpRecvN]
      | succ m =>
          rw [tcpRecvLoop_fails (by simp) (Or.inr rfl), tcpRecvN, ByteMemory.write_nil]
  | cons block rest ih =>
      cases m with
      | zero => simp [tcpRecvLoop, tcpRecvN]
      | succ m =>
          have hlt : k < k + (m + 1) := by omega
          have hcount : k + (m + 1) - k = m + 1 := Nat.add_sub_cancel_left k (m + 1)
          cases block with
          | nil => rw [tcpRecvLoop_fails hlt (Or.inl rfl), tcpRecvN, ByteMemory.write_nil]
          | cons b block =>
              obtain ⟨fuel, rfl⟩ : ∃ f, fuel = f + 1 := ⟨fuel - 1, by omega⟩
              rw [tcpRecvN]
              by_cases hle : block.length ≤ m
              · -- the whole block is taken, and the loop goes on with the next one
                have hrest : k + (m + 1) = k + (b :: block).length + (m - block.length) := by
                  rw [List.length_cons]
                  omega
                have hrecv : Incoming.transport.recv ((b :: block) :: rest) (k + (m + 1) - k) =
                    .data (b :: block) rest := by
                  rw [hcount, Incoming.transport_recv, Incoming.recv_whole hle]
                rw [tcpRecvLoop_data hlt hrecv, if_pos hle, hrest]
                rw [ih _ fuel (by omega), TcpRecv.after, ← Nat.add_assoc, ByteMemory.write_append]
              · -- a part of it is enough, and the loop ends
                have hlen : k + (b :: block.take m).length = k + (m + 1) := by
                  rw [List.length_cons, List.length_take]
                  omega
                have hrecv : Incoming.transport.recv ((b :: block) :: rest) (k + (m + 1) - k) =
                    .data (b :: block.take m) (block.drop m :: rest) := by
                  rw [hcount, Incoming.transport_recv, Incoming.recv_part (Nat.lt_of_not_le hle)]
                rw [tcpRecvLoop_data hlt hrecv, if_neg hle, hlen]
                exact tcpRecvLoop_done (Nat.lt_irrefl _) fuel

/-- `dic_conn_recv` on the blocks of a connection is `dicConnRecv`. -/
theorem dicConnRecvInto_incoming (conn : Conn) (sockfd : ℤ) (mem : ℕ → UInt8) (buf : ℕ) (n : ℤ)
    {fuel : ℕ} (hfuel : toSizeT n < fuel) :
    dicConnRecvInto Incoming.transport fuel
        ⟨sockfd, if conn.sockOpen then conn.incoming else []⟩ mem buf n false =
      some ⟨(dicConnRecv conn n).res, ByteMemory.write mem buf (dicConnRecv conn n).buffer,
        if (dicConnRecv conn n).res = 0 then sockfd else -1,
        (dicConnRecv conn n).conn.incoming⟩ := by
  have hloop := tcpRecvLoop_incoming buf (k := 0) mem
    (if conn.sockOpen then conn.incoming else []) hfuel
  rw [Nat.zero_add, Nat.add_zero] at hloop
  rw [dicConnRecvInto, tcpRecvNInto, hloop, dicConnRecv]
  by_cases herr :
      (tcpRecvN (toSizeT n) (if conn.sockOpen then conn.incoming else [])).err = -1
  · simp [herr]
  · simp [herr]

/-- Three bytes out of two blocks. -/
example : (tcpRecvNInto Incoming.transport 4 [[1, 2], [3, 4]] (fun _ => 0) 8 3).map
    (fun r => (r.err, r.mem 10, r.mem 11, r.socket)) = some (0, 3, 0, [[4]]) := by decide

end Dicon
