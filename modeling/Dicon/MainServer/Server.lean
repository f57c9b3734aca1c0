import Dicon.Framework.LittleEndian
import Dicon.Framework.Transition
import Dicon.Common.CInt
import Dicon.MainServer.Registry

/-!
# The main server (`main-server/src/main.c`)

One handler thread per accepted connection; all of them share `NODES_INFO`
under `NODES_INFO_MUT`. A label is one step of one connection: of its handler
thread (one `recv` call, one lock, one send, the list operation of its critical
section), or of the peer at the other end (sending bytes, closing, receiving).
`recv` may deliver any part of what has arrived, so the steps cover every
fragmentation and every cut of the peer's stream.

The traversal of `handle_get_info` and the edits of `append_info` and
`remove_info` are one step each: they run inside the critical section and touch
nothing but the list. The two sends of each reply, the receipt of the announced
body and the acknowledgement before `append_info` are steps of their own.

Ghost data: `Announced` carries the connection and the number of an
announcement next to the list entry, and `Shared.history` logs what happened.
No guard and no stored value of the program depends on either.
-/

namespace Dicon.MainServer

open Dicon.Framework

/-! ## The protocol (`dicon_main_server_protocol.h`, `ip_addr_t`) -/

/-- `ip_addr_t`; the union holds an IPv4 address and twelve more bytes. -/
structure IpAddr where
  family : UInt32
  ipv4 : UInt32
  rest : Vector UInt8 12
deriving DecidableEq

/-- `dic_node_info_t` -/
structure DicNodeInfo where
  address : IpAddr
  coreCount : UInt32
deriving DecidableEq

inductive DicMainOperation
  | announceInfo
  | getInfo
deriving DecidableEq

def DicMainOperation.code : DicMainOperation → UInt16
  | .announceInfo => 0
  | .getInfo => 1

/-- `dic_main_server_req_head_generic` -/
structure ReqHead where
  operation : UInt16
  version : UInt16
  bodySize : UInt32
deriving DecidableEq

/-- `sizeof(dic_main_server_req_head_generic)` -/
def reqHeadSize : ℕ := 8

def ReqHead.bytes (h : ReqHead) : List UInt8 :=
  le16 h.operation ++ le16 h.version ++ le32 h.bodySize

def ReqHead.ofBytes (bs : List UInt8) : ReqHead where
  operation := rd16 (bs.take 2)
  version := rd16 ((bs.drop 2).take 2)
  bodySize := rd32 ((bs.drop 4).take 4)

@[simp] theorem ReqHead.length_bytes (h : ReqHead) : h.bytes.length = reqHeadSize := by
  simp [bytes, reqHeadSize]

@[simp] theorem ReqHead.ofBytes_bytes (h : ReqHead) : ofBytes h.bytes = h := by
  obtain ⟨hop, hversion, hsize⟩ := rd_record h.operation h.version h.bodySize
  unfold ofBytes bytes
  rw [hop, hversion, hsize]

/-- `sizeof(dic_main_server_resp_head_generic)` -/
def respHeadSize : ℕ := 4

/-- `sizeof(dic_req_announce_info)` -/
def reqAnnounceInfoSize : ℕ := 4

/-- `sizeof(dic_resp_announce_info)` -/
def respAnnounceInfoSize : ℕ := 4

/-- `core_count` of the handler's `dic_req_announce_info` variable: the bytes
received into it over whatever it held before. -/
def announcedCores (got : List UInt8) (junk : UInt32) : UInt32 :=
  rd32 (got ++ (le32 junk).drop got.length)

/-- Of a body that was received in full nothing of the old value is left. -/
theorem announcedCores_full {got : List UInt8} (h : got.length = reqAnnounceInfoSize)
    (junk : UInt32) : announcedCores got junk = rd32 got := by
  have hrest : (le32 junk).drop got.length = [] := by
    rw [h]
    exact List.drop_eq_nil_of_le (by simp [reqAnnounceInfoSize])
  rw [announcedCores, hrest, List.append_nil]

/-- `sizeof(dic_resp_get_info) + sizeof(dic_node_info_t) * len` -/
def respGetInfoSize (len : ℕ) : ℕ := 4 + 24 * len

/-! ## State -/

abbrev ConnId := ℕ

/-- A list entry with the announcement it came from: the `nth` one on `conn`,
for which the bytes `body` were received. -/
structure Announced where
  conn : ConnId
  nth : ℕ
  body : List UInt8
  info : DicNodeInfo
deriving DecidableEq

/-- One `dic_conn_send` of the server, in flight or received. -/
inductive Segment
  | ackHead
  | ackBody
  | infoHead (bodySize : UInt32)
  | infoBody (nodes : List DicNodeInfo)
deriving DecidableEq

/-- Where a handler thread is in `connection_handler_thread`. -/
inductive Pc
  | recvHead (got : List UInt8)
  | lockAnnounce (head : ReqHead)
  | recvBody (head : ReqHead) (got : List UInt8)
  | sendAckHead (e : Announced)
  | sendAckBody (e : Announced)
  | append (e : Announced)
  | lockGetInfo
  | collect
  | sendInfoHead (es : List Announced)
  | sendInfoBody (es : List Announced)
  | unlock
  | lockRemove
  | remove
  | unlockRemove
  | destroy
  | finished
deriving DecidableEq

/-- A connection: the handler's locals, the two directions of its socket, and
whether the peer closed its side. -/
structure Handler where
  ip : IpAddr
  pc : Pc
  connInfo : Option Addr
  isComputeNode : Bool
  sockOpen : Bool
  input : List UInt8
  peerClosed : Bool
  output : List Segment
  announces : ℕ
deriving DecidableEq

/-- A connection as `dic_conn_accept` hands it to its thread. -/
def Handler.new (ip : IpAddr) : Handler where
  ip := ip
  pc := .recvHead []
  connInfo := none
  isComputeNode := false
  sockOpen := true
  input := []
  peerClosed := false
  output := []
  announces := 0

inductive Event
  | requestSent (c : ConnId) (bytes : List UInt8)
  | ackReceived (c : ConnId)
  | announced (e : Announced)
  | replied (c : ConnId) (es : List Announced)
  | removed (c : ConnId)
  | finished (c : ConnId)
deriving DecidableEq

/-- What the threads share: `NODES_INFO`, the owner of `NODES_INFO_MUT`, and
whether the process has done something undefined. -/
structure Shared where
  registry : Registry Announced
  nodesInfoMut : Option ConnId
  undefined : Bool
  history : List Event

structure Server where
  conns : ConnId → Option Handler
  shared : Shared

def Server.start : Server where
  conns _ := none
  shared := ⟨.empty, none, false, []⟩

/-! ## Steps -/

inductive Action
  | accept (ip : IpAddr)
  | peerSend (bytes : List UInt8)
  | peerClose
  | peerRecv
  | recv (k : ℕ)
  | recvFail (junk : UInt32)
  | recvDone (junk : UInt32)
  | lock
  | send
  | append (newNode : Addr)
  | collect
  | remove
  | unlock
  | destroy
deriving DecidableEq

/-- The thread is between `lock` and `unlock` of `NODES_INFO_MUT`. -/
def Pc.holds : Pc → Bool
  | .recvBody .. | .sendAckHead _ | .sendAckBody _ | .append _ => true
  | .collect | .sendInfoHead _ | .sendInfoBody _ | .unlock => true
  | .remove | .unlockRemove => true
  | _ => false

/-- `pthread_mutex_lock(&NODES_INFO_MUT)` leads on to the critical section. -/
def Pc.afterLock : Pc → Option Pc
  | .lockAnnounce head => some (.recvBody head [])
  | .lockGetInfo => some .collect
  | .lockRemove => some .remove
  | _ => none

def Pc.afterUnlock : Pc → Option Pc
  | .unlock => some (.recvHead [])
  | .unlockRemove => some .destroy
  | _ => none

/-- The four `dic_conn_send` calls. A length past `INT_MAX` reaches `send` as an
impossible `size_t` and nothing is sent. -/
def Pc.afterSend : Pc → Option (List Segment × Pc)
  | .sendAckHead e => some ([.ackHead], .sendAckBody e)
  | .sendAckBody e => some ([.ackBody], .append e)
  | .sendInfoHead es =>
      some ([.infoHead (toU32 (respGetInfoSize es.length))], .sendInfoBody es)
  | .sendInfoBody es =>
      some (if respGetInfoSize es.length ≤ intMax
        then [.infoBody (es.map Announced.info)] else [], .unlock)
  | _ => none

/-- `switch(head.operation)`. An operation without a case goes back to the next
header. -/
def switchOperation (head : ReqHead) : Pc :=
  if head.operation = DicMainOperation.announceInfo.code then .lockAnnounce head
  else if head.operation = DicMainOperation.getInfo.code then .lockGetInfo
  else .recvHead []

namespace Handler

/-- How many bytes the `dic_conn_recv` that the thread is in still waits for. -/
def need (h : Handler) : ℕ :=
  match h.pc with
  | .recvHead got => reqHeadSize - got.length
  | .recvBody head got => recvCount head.bodySize - got.length
  | _ => 0

/-- `recv` can deliver `k` bytes to the thread. -/
def CanRecv (h : Handler) (k : ℕ) : Prop :=
  h.sockOpen ∧ 0 < k ∧ k ≤ h.need ∧ k ≤ h.input.length

instance (h : Handler) (k : ℕ) : Decidable (h.CanRecv k) :=
  inferInstanceAs (Decidable (_ ∧ _ ∧ _ ∧ _))

/-- `recv` reports the end of the stream, or an error on a closed descriptor. -/
def RecvFails (h : Handler) : Prop :=
  0 < h.need ∧ (h.sockOpen = false ∨ h.input = [] ∧ h.peerClosed = true)

instance (h : Handler) : Decidable h.RecvFails :=
  inferInstanceAs (Decidable (_ ∧ (_ ∨ _ ∧ _)))

/-- The announcement that the thread has received `got` for. -/
def announcement (h : Handler) (c : ConnId) (got : List UInt8) (junk : UInt32) :
    Announced where
  conn := c
  nth := h.announces
  body := got
  info := ⟨h.ip, announcedCores got junk⟩

/-- One call of `recv`. Bytes past the four of the handler's
`dic_req_announce_info` variable overwrite its stack. -/
def recv (h : Handler) (sh : Shared) (k : ℕ) : Option (Handler × Shared) :=
  match h.pc with
  | .recvHead got =>
      if h.CanRecv k then
        some ({ h with pc := .recvHead (got ++ h.input.take k), input := h.input.drop k }, sh)
      else none
  | .recvBody head got =>
      if h.CanRecv k then
        if got.length + k ≤ reqAnnounceInfoSize then
          some ({ h with
            pc := .recvBody head (got ++ h.input.take k)
            input := h.input.drop k }, sh)
        -- `body_size` was larger than the variable
        else some (h, { sh with undefined := true })
      else none
  | _ => none

/-- `dic_conn_recv` returns 1. The header loop breaks; `handle_push_info` goes
on with what it has. -/
def recvFail (h : Handler) (c : ConnId) (sh : Shared) (junk : UInt32) :
    Option (Handler × Shared) :=
  if h.RecvFails then
    match h.pc with
    | .recvHead _ =>
        let pc := if h.isComputeNode then .lockRemove else .destroy
        some ({ h with pc := pc, sockOpen := false }, sh)
    | .recvBody _ got =>
        -- `res` is not looked at, and the descriptor is closed
        some ({ h with pc := .sendAckHead (h.announcement c got junk), sockOpen := false }, sh)
    | _ => none
  else none

/-- `dic_conn_recv` returns 0. -/
def recvDone (h : Handler) (c : ConnId) (sh : Shared) (junk : UInt32) :
    Option (Handler × Shared) :=
  if h.need = 0 then
    match h.pc with
    | .recvHead got => some ({ h with pc := switchOperation (.ofBytes got) }, sh)
    | .recvBody _ got => some ({ h with pc := .sendAckHead (h.announcement c got junk) }, sh)
    | _ => none
  else none

def lock (h : Handler) (c : ConnId) (sh : Shared) : Option (Handler × Shared) := do
  let pc ← h.pc.afterLock
  if sh.nodesInfoMut = none then
    some ({ h with pc := pc }, { sh with nodesInfoMut := some c })
  else none

def unlock (h : Handler) (sh : Shared) : Option (Handler × Shared) := do
  let pc ← h.pc.afterUnlock
  some ({ h with pc := pc }, { sh with nodesInfoMut := none })

/-- `dic_conn_send`; on a closed descriptor nothing leaves. -/
def send (h : Handler) (sh : Shared) : Option (Handler × Shared) := do
  let (segments, pc) ← h.pc.afterSend
  let sent := if h.sockOpen then segments else []
  some ({ h with pc := pc, output := h.output ++ sent }, sh)

/-- `conn_info = append_info(&NODES_INFO, info); is_compute_node = true;`, where
malloc may return any block that is free. -/
def append (h : Handler) (sh : Shared) (newNode : Addr) : Option (Handler × Shared) :=
  match h.pc with
  | .append e =>
      if sh.registry.cell newNode = none then
        match sh.registry.appendInfo e newNode with
        | some (registry, connInfo) =>
            some ({ h with
              pc := .unlock
              connInfo := some connInfo
              isComputeNode := true
              announces := h.announces + 1 },
              { sh with registry := registry, history := sh.history ++ [.announced e] })
        | none => some (h, { sh with undefined := true })
      else none
  | _ => none

/-- `handle_get_info` up to its first send. -/
def collect (h : Handler) (c : ConnId) (sh : Shared) : Option (Handler × Shared) :=
  match h.pc with
  | .collect =>
      match sh.registry.collectInfo with
      | some es =>
          some ({ h with pc := .sendInfoHead es },
            { sh with history := sh.history ++ [.replied c es] })
      | none => some (h, { sh with undefined := true })
  | _ => none

/-- `remove_info(&NODES_INFO, conn_info);`. -/
def remove (h : Handler) (c : ConnId) (sh : Shared) : Option (Handler × Shared) :=
  match h.pc with
  | .remove =>
      match h.connInfo.bind sh.registry.removeInfo with
      | some registry =>
          some ({ h with pc := .unlockRemove },
            { sh with registry := registry, history := sh.history ++ [.removed c] })
      | none => some (h, { sh with undefined := true })
  | _ => none

/-- `dic_conn_destroy(client_conn);` -/
def destroy (h : Handler) (c : ConnId) (sh : Shared) : Option (Handler × Shared) :=
  match h.pc with
  | .destroy =>
      some ({ h with pc := .finished, sockOpen := false },
        { sh with history := sh.history ++ [.finished c] })
  | _ => none

/-- The peer takes the next message off the wire. -/
def peerRecv (h : Handler) (c : ConnId) (sh : Shared) : Option (Handler × Shared) :=
  match h.output with
  | [] => none
  | .ackBody :: rest =>
      some ({ h with output := rest }, { sh with history := sh.history ++ [.ackReceived c] })
  | _ :: rest => some ({ h with output := rest }, sh)

def act (h : Handler) (c : ConnId) (sh : Shared) : Action → Option (Handler × Shared)
  | .accept _ => none
  | .peerSend bytes =>
      if h.peerClosed then none
      else some ({ h with input := h.input ++ bytes },
        { sh with history := sh.history ++ [.requestSent c bytes] })
  | .peerClose => some ({ h with peerClosed := true }, sh)
  | .peerRecv => h.peerRecv c sh
  | .recv k => h.recv sh k
  | .recvFail junk => h.recvFail c sh junk
  | .recvDone junk => h.recvDone c sh junk
  | .lock => h.lock c sh
  | .send => h.send sh
  | .append newNode => h.append sh newNode
  | .collect => h.collect c sh
  | .remove => h.remove c sh
  | .unlock => h.unlock sh
  | .destroy => h.destroy c sh

end Handler

/-- A step of connection `l.1`; after undefined behaviour there is none. -/
def Server.step? (s : Server) (l : ConnId × Action) : Option Server :=
  if s.shared.undefined then none
  else match s.conns l.1, l.2 with
  | none, .accept ip =>
      some { s with conns := Function.update s.conns l.1 (some (.new ip)) }
  -- there is no thread yet, and nothing to send to
  | none, _ => none
  | some h, a => do
      let (h', sh') ← h.act l.1 s.shared a
      some ⟨Function.update s.conns l.1 (some h'), sh'⟩

def mainServer : Lts Server (ConnId × Action) where
  init s := s = .start
  step s l t := s.step? l = some t

/-- Steps of the server on concrete inputs, each of which passes the test `ok`. -/
def Server.exec (ok : Server → ConnId × Action → Bool) :
    Server → List (ConnId × Action) → Option Server :=
  Lts.exec Server.step? ok

/-- The test of an unrestricted run. -/
def anyStep (_ : Server) (_ : ConnId × Action) : Bool := true

/-- The peer of `c` sends an ANNOUNCE_INFO request with the core count `cores`. -/
def announceRequest (cores : UInt32) : List UInt8 :=
  ReqHead.bytes ⟨DicMainOperation.announceInfo.code, 1, 4⟩ ++ le32 cores

/-- One announcement on an open connection, served in one go. -/
def announceSteps (c : ConnId) (newNode : Addr) (cores : UInt32) : List (ConnId × Action) :=
  [(c, .peerSend (announceRequest cores)), (c, .recv 8), (c, .recvDone 0), (c, .lock),
    (c, .recv 4), (c, .recvDone 0), (c, .send), (c, .send), (c, .append newNode), (c, .unlock)]

/-- A node connects and announces itself. -/
def announceRun (c : ConnId) (newNode : Addr) (cores : UInt32) : List (ConnId × Action) :=
  (c, .accept ⟨2, 16777343, Vector.replicate 12 0⟩) :: announceSteps c newNode cores

/-- A node disconnects and its handler thread ends. -/
def leaveRun (c : ConnId) : List (ConnId × Action) :=
  [(c, .peerClose), (c, .recvFail 0), (c, .lock), (c, .remove), (c, .unlock), (c, .destroy)]

theorem reachable_of_exec {ok : Server → ConnId × Action → Bool}
    {C : Server → ConnId × Action → Prop} (hok : ∀ s l, ok s l = true → C s l)
    {t : Server} {ls : List (ConnId × Action)} (h : Server.start.exec ok ls = some t) :
    (mainServer.restrict C).Reachable t :=
  .of_exec (fun _ _ _ hs => hs) hok (.init rfl) h

theorem reachable_of_run {t : Server} {ls : List (ConnId × Action)}
    (h : Server.start.exec anyStep ls = some t) : mainServer.Reachable t :=
  (reachable_of_exec (C := fun _ _ => True) (fun _ _ _ => trivial) h).of_restrict

end Dicon.MainServer
