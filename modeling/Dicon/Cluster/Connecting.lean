import Dicon.Client.NodesInfo
import Dicon.Connections.Descriptors

/-!
# Connections that a program opens

`tcp_connect` and what is built on it: the connections of a client to the main server and
to the nodes, and a node that tries the main server again until it is there. What the
kernel answers is different at each call.
-/

namespace Dicon.Cluster

open Connections MainServer

/-- `DIC_MAIN_SERVER_PORT` -/
def dicMainServerPort : ℤ := 4225

/-- `DIC_NODE_PORT` -/
def dicNodePort : ℤ := 4224

/-- `htons`, where an `int` is stored with its low byte first. -/
def htons (port : ℤ) : UInt16 :=
  let p := UInt16.ofNat (toSizeT port)
  p <<< 8 ||| p >>> 8

/-- What the kernel has for one call of `tcp_connect`: the descriptor of `socket`, and the
addresses to which `connect` succeeds. -/
structure Kernel where
  socket : Option ℕ
  connects : SockaddrIn → Bool

/-- The `server_addr` of `tcp_connect`. -/
def serverAddr (ip : IpAddr) (port : ℤ) : SockaddrIn :=
  ⟨ip.family.toUInt16, htons port, ip.ipv4⟩

/-- `tcp_connect`; `none` is `-1`. -/
def tcpConnect (kernel : Kernel) (ip : IpAddr) (port : ℤ) : Option ℕ := do
  let sockfd ← kernel.socket
  if ip.family = afInet ∧ ip.ipv4 = 0 then none
  else if kernel.connects (serverAddr ip port) then some sockfd else none

/-- What the kernel tells a thread inside of `tcp_connect`. -/
def Kernel.event (kernel : Kernel) (ip : IpAddr) (port : ℤ) : TcpConnect → Connections.Event
  | .socket => .socket kernel.socket
  | .connect _ => .connect (kernel.connects (serverAddr ip port))
  | _ => .go

/-- Some steps of `tcp_connect`, or all if it returns before. -/
def tcpConnectSteps (kernel : Kernel) (ip : IpAddr) (port : ℤ) : ℕ → TcpConnect → TcpConnect
  | 0, pc => pc
  | n + 1, pc =>
      match pc.next ip (kernel.event ip port pc) with
      | some (_, pc') => tcpConnectSteps kernel ip port n pc'
      | none => pc

/-- The steps of a thread end with the result. -/
theorem tcpConnectSteps_returns (kernel : Kernel) (ip : IpAddr) (port : ℤ) :
    tcpConnectSteps kernel ip port 4 .socket = .returns (tcpConnect kernel ip port) := by
  unfold tcpConnect
  cases hsocket : kernel.socket with
  | none => simp [tcpConnectSteps, Kernel.event, TcpConnect.next, hsocket]
  | some fd =>
      by_cases hzero : ip.family = afInet ∧ ip.ipv4 = 0
      · simp [tcpConnectSteps, Kernel.event, TcpConnect.next, hsocket, hzero]
      · cases hconnects : kernel.connects (serverAddr ip port) <;>
          simp [tcpConnectSteps, Kernel.event, TcpConnect.next, hsocket, hzero, hconnects]

/-- A descriptor is there if `socket` had one, the address is not zero, and the other end
took the connection. -/
theorem tcpConnect_isSome {kernel : Kernel} {ip : IpAddr} {port : ℤ} :
    (tcpConnect kernel ip port).isSome ↔ kernel.socket.isSome ∧
      ¬ (ip.family = afInet ∧ ip.ipv4 = 0) ∧ kernel.connects (serverAddr ip port) = true := by
  unfold tcpConnect
  cases hsocket : kernel.socket with
  | none => simp
  | some fd =>
      by_cases hzero : ip.family = afInet ∧ ip.ipv4 = 0
      · simp [hzero]
      · simp [hzero]

/-- A call of `dic_conn_new`: the block that `malloc` returns, and the kernel. -/
structure Opening where
  block : Block
  kernel : Kernel

/-- `dic_conn_new` -/
def connNew (o : Opening) (ip : IpAddr) (port : ℤ) : DicConn :=
  dicConnNew o.block (tcpConnect o.kernel ip port) ip port

/-- `dic_main_connect` -/
def dicMainConnect (o : Opening) (ip : IpAddr) : DicConn := connNew o ip dicMainServerPort

/-- `dic_node_connect` -/
def dicNodeConnect (o : Opening) (ip : IpAddr) : DicConn := connNew o ip dicNodePort

/-- `dic_nodes_connect_all`, with the calls of `dic_conn_new` that it makes. -/
def dicNodesConnectAll (opening : ℕ → Opening) (info : Client.NodesInfo) : List DicConn :=
  (List.range info.count.toNat).map fun i => dicNodeConnect (opening i) (info.node i).address

/-- `dic_conn_tryconnect` -/
def dicConnTryconnect (kernel : Kernel) (conn : DicConn) : ℤ × DicConn :=
  match conn.sockfd with
  | some _ => (0, conn)
  | none =>
      match tcpConnect kernel conn.ip conn.port with
      | none => (1, conn)
      | some sockfd => (0, { conn with sockfd := some sockfd })

/-- `while(main_server_conn->sockfd == -1)` in the `main` of a node. -/
def retryConnect (kernel : ℕ → Kernel) : ℕ → ℕ → DicConn → Option DicConn
  | _, 0, _ => none
  | i, fuel + 1, conn =>
      if conn.sockfd = none then
        retryConnect kernel (i + 1) fuel (dicConnTryconnect (kernel i) conn).2
      else some conn

/-- The connection to the main server that a node holds: `dic_conn_new` with the first
kernel, and the loop with those that follow. -/
def mainServerConn (fuel : ℕ) (block : Block) (kernel : ℕ → Kernel) (ip : IpAddr) :
    Option DicConn :=
  retryConnect kernel 1 fuel (dicMainConnect ⟨block, kernel 0⟩ ip)

/-! ## Trying again -/

/-- The connection with what `tcp_connect` returned at last. -/
def connVia (block : Block) (kernel : Kernel) (ip : IpAddr) : DicConn :=
  connNew ⟨block, kernel⟩ ip dicMainServerPort

theorem connVia_sockfd (block : Block) (kernel : Kernel) (ip : IpAddr) :
    (connVia block kernel ip).sockfd = tcpConnect kernel ip dicMainServerPort := rfl

section Trying

variable {block : Block} {kernel : ℕ → Kernel} {ip : IpAddr}

theorem dicConnTryconnect_eq {i : ℕ}
    (hfailed : tcpConnect (kernel i) ip dicMainServerPort = none) (next : Kernel) :
    (dicConnTryconnect next (connVia block (kernel i) ip)).2 = connVia block next ip := by
  rw [dicConnTryconnect, connVia_sockfd, hfailed]
  show (match tcpConnect next ip dicMainServerPort with
    | none => ((1 : ℤ), connVia block (kernel i) ip)
    | some sockfd => (0, { connVia block (kernel i) ip with sockfd := some sockfd })).2 = _
  cases htry : tcpConnect next ip dicMainServerPort with
  | none =>
      show dicConnNew block (tcpConnect (kernel i) ip dicMainServerPort) ip dicMainServerPort =
        dicConnNew block (tcpConnect next ip dicMainServerPort) ip dicMainServerPort
      rw [hfailed, htry]
  | some sockfd =>
      show _ = dicConnNew block (tcpConnect next ip dicMainServerPort) ip dicMainServerPort
      rw [htry]
      rfl

/-- The loop, after some attempts that failed. -/
theorem retryConnect_eq {i j fuel : ℕ}
    (hfailed : ∀ l, i ≤ l → l < j → tcpConnect (kernel l) ip dicMainServerPort = none)
    (hij : i ≤ j) (hj : (tcpConnect (kernel j) ip dicMainServerPort).isSome)
    (hfuel : j - i < fuel) :
    retryConnect kernel (i + 1) fuel (connVia block (kernel i) ip) =
      some (connVia block (kernel j) ip) := by
  induction fuel generalizing i with
  | zero => omega
  | succ fuel ih =>
      rw [retryConnect, connVia_sockfd]
      rcases Nat.lt_or_eq_of_le hij with hlt | rfl
      · have hnone := hfailed i le_rfl hlt
        rw [if_pos hnone, dicConnTryconnect_eq hnone]
        exact ih (fun l hl => hfailed l (by omega)) hlt (by omega)
      · rw [if_neg (Option.isSome_iff_ne_none.mp hj)]

theorem retryConnect_never {i fuel : ℕ}
    (hfailed : ∀ l, i ≤ l → tcpConnect (kernel l) ip dicMainServerPort = none) :
    retryConnect kernel (i + 1) fuel (connVia block (kernel i) ip) = none := by
  induction fuel generalizing i with
  | zero => rfl
  | succ fuel ih =>
      have hnone := hfailed i le_rfl
      rw [retryConnect, connVia_sockfd, if_pos hnone, dicConnTryconnect_eq hnone]
      exact ih fun l hl => hfailed l (by omega)

/-- The loop of a node ends with the connection of the first attempt that succeeds. -/
theorem mainServerConn_eq {j fuel : ℕ}
    (hfailed : ∀ l < j, tcpConnect (kernel l) ip dicMainServerPort = none)
    (hj : (tcpConnect (kernel j) ip dicMainServerPort).isSome) (hfuel : j < fuel) :
    mainServerConn fuel block kernel ip = some (connVia block (kernel j) ip) :=
  retryConnect_eq (fun l _ => hfailed l) (Nat.zero_le j) hj (by omega)

theorem mainServerConn_never
    (hfailed : ∀ l, tcpConnect (kernel l) ip dicMainServerPort = none) (fuel : ℕ) :
    mainServerConn fuel block kernel ip = none :=
  retryConnect_never fun l _ => hfailed l

end Trying

end Dicon.Cluster
