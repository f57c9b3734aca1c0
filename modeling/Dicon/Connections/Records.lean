import Dicon.MainServer.Server

/-!
# Connection records (`common/src/dicon_sockets.c`)

A `dic_conn_t` lives in a block of the heap that is not cleared. Three constructors
assign its fields and initialise its synchronisation objects; one destructor closes
the socket and destroys them. `dic_conn_new` initialises all that the destructor
destroys, and the two constructors of the servers do not.

A descriptor of `-1` is `none`.
-/

namespace Dicon.Connections

open MainServer

/-- The condition variable and the mutexes of a `dic_conn_t`. -/
inductive SyncObject
  | queueCond
  | queueMut
  | recvMut
  | sendMut
deriving DecidableEq

/-- What the memory of such an object holds: what `pthread_mutex_init` or
`pthread_cond_init` stored, or what was in the block before. -/
inductive Contents
  | old (bytes : List UInt8)
  | initialised
deriving DecidableEq

/-- `dic_conn_t` -/
structure DicConn where
  sockfd : Option ℕ
  queueLen : ℤ
  object : SyncObject → Contents
  port : ℤ
  ip : IpAddr

/-- A block that `malloc` returns, in those fields that some constructor does not
assign. -/
structure Block where
  queueLen : ℤ
  object : SyncObject → List UInt8
  ip : IpAddr

/-- `pthread_mutex_init` or `pthread_cond_init` -/
def DicConn.init (conn : DicConn) (o : SyncObject) : DicConn :=
  { conn with object := Function.update conn.object o .initialised }

/-- `dic_conn_new`, with the descriptor that `tcp_connect` returned. -/
def dicConnNew (block : Block) (sockfd : Option ℕ) (ip : IpAddr) (port : ℤ) : DicConn :=
  let conn : DicConn :=
    { sockfd := sockfd, ip := ip, port := port, queueLen := 0,
      object := fun o => .old (block.object o) }
  (((conn.init .queueCond).init .queueMut).init .sendMut).init .recvMut

/-- `NONE_IP_ADDR` -/
def noneIpAddr : IpAddr := ⟨toU32 (-1), 0, Vector.replicate 12 0⟩

/-- `dic_conn_new_listening`, with the descriptor that it listens on; where `socket`,
`bind` or `listen` fails, the process exits. -/
def dicConnNewListening (block : Block) (port : ℤ) (serverFd : Option ℕ) : Option DicConn :=
  serverFd.map fun fd =>
    let conn : DicConn :=
      { port := port, sockfd := some fd, ip := noneIpAddr, queueLen := block.queueLen,
        object := fun o => .old (block.object o) }
    (conn.init .recvMut).init .sendMut

/-- `sockaddr_in` -/
structure SockaddrIn where
  sinFamily : UInt16
  sinPort : UInt16
  sinAddr : UInt32

inductive AcceptOutcome
  | failed
  | accepted (clientFd : ℕ) (clientAddr : SockaddrIn)

/-- `dic_conn_accept`; `none` is `NULL`. -/
def dicConnAccept (block : Block) : AcceptOutcome → Option DicConn
  | .failed => none
  | .accepted clientFd clientAddr =>
      let conn : DicConn :=
        { sockfd := some clientFd, port := clientAddr.sinPort.toNat,
          ip := { block.ip with
            family := clientAddr.sinFamily.toUInt32, ipv4 := clientAddr.sinAddr },
          queueLen := block.queueLen, object := fun o => .old (block.object o) }
      some ((conn.init .recvMut).init .sendMut)

/-- The objects that `dic_conn_destroy` destroys, in its order. -/
def destroyedObjects : List SyncObject := [.queueCond, .queueMut, .sendMut, .recvMut]

/-- `dic_conn_destroy` finds everything that it destroys initialised. -/
def DicConn.Built (conn : DicConn) : Prop := ∀ o ∈ destroyedObjects, conn.object o = .initialised

instance (conn : DicConn) : Decidable conn.Built :=
  inferInstanceAs (Decidable (∀ o ∈ destroyedObjects, _))

/-! ## What the constructors build -/

@[simp] theorem DicConn.init_self (conn : DicConn) (o : SyncObject) :
    (conn.init o).object o = .initialised :=
  Function.update_self ..

theorem DicConn.init_of_ne (conn : DicConn) {o o' : SyncObject} (h : o' ≠ o) :
    (conn.init o).object o' = conn.object o' :=
  Function.update_of_ne h ..

theorem dicConnNew_built (block : Block) (sockfd : Option ℕ) (ip : IpAddr) (port : ℤ) :
    (dicConnNew block sockfd ip port).Built := by
  intro o _
  cases o <;> simp [dicConnNew, DicConn.init_of_ne]

/-- The queue's condition variable is what the block held. -/
theorem dicConnAccept_queueCond {block : Block} {o : AcceptOutcome} {conn : DicConn}
    (h : dicConnAccept block o = some conn) :
    conn.object .queueCond = .old (block.object .queueCond) := by
  cases o with
  | failed => cases h
  | accepted clientFd clientAddr =>
      cases h
      simp [DicConn.init_of_ne]

theorem dicConnAccept_not_built {block : Block} {o : AcceptOutcome} {conn : DicConn}
    (h : dicConnAccept block o = some conn) : ¬ conn.Built := by
  intro hbuilt
  have hinit := hbuilt .queueCond (by decide)
  rw [dicConnAccept_queueCond h] at hinit
  cases hinit

theorem dicConnAccept_eq_none {block : Block} {o : AcceptOutcome} :
    dicConnAccept block o = none ↔ o = .failed := by
  cases o with
  | failed => simp [dicConnAccept]
  | accepted clientFd clientAddr => simp [dicConnAccept]

/-- The connection that a server listens on lacks the same two. -/
theorem dicConnNewListening_not_built {block : Block} {port : ℤ} {serverFd : Option ℕ}
    {conn : DicConn} (h : dicConnNewListening block port serverFd = some conn) :
    ¬ conn.Built := by
  obtain ⟨fd, _, rfl⟩ := Option.map_eq_some_iff.mp h
  intro hbuilt
  have hinit := hbuilt .queueCond (by decide)
  simp [DicConn.init_of_ne] at hinit

end Dicon.Connections
