import Dicon.Connections.Records
import Dicon.Framework.Ownership
import Dicon.Framework.Transition

/-!
# Who owns a descriptor

The functions of `dicon_sockets.c` that open and close descriptors, one system call at a
time, for any number of connections with a thread each. A descriptor that `socket` or
`accept` returns is one that is not open, so a number comes back after its `close`; other
parts of the process open and close descriptors of their own.

A phase says where the thread of a connection is, and `Phase.next` what it does next. The
table of descriptors records for each which connection obtained it.
-/

namespace Dicon.Connections

open Framework MainServer

/-! ## The functions -/

/-- Inside of `tcp_connect`. -/
inductive TcpConnect
  | socket
  | address (sockfd : ℕ)
  | connect (sockfd : ℕ)
  | failed (sockfd : ℕ)
  | returns (res : Option ℕ)

/-- A connection without a descriptor. -/
abbrev ClosedConn := { conn : DicConn // conn.sockfd = none }

/-- Where the thread of a connection is. -/
inductive Phase
  /-- before its constructor, and after its destructor -/
  | absent
  | idle (conn : DicConn)
  | new (ip : IpAddr) (port : ℤ) (pc : TcpConnect)
  | accepting
  | accepted (clientFd : ℕ) (clientAddr : SockaddrIn)
  | recv (conn : DicConn) (left : ℕ)
  | recvFailed (conn : DicConn)
  | recvClosed (conn : DicConn)
  | tryconnect (conn : ClosedConn) (pc : TcpConnect)
  | disconnect (conn : DicConn) (freed : Bool)
  | disconnected (conn : DicConn) (freed : Bool)
  | destroy (conn : DicConn)

/-- What comes from outside of the functions: the calls, and the results of the system
calls. `go` is a step that needs neither. -/
inductive Event
  | callNew (ip : IpAddr) (port : ℤ)
  | callAccept
  | callRecv (n : ℤ)
  | callTryconnect
  | callDisconnect
  | callDestroy
  | socket (res : Option ℕ)
  | connect (ok : Bool)
  | accept (o : AcceptOutcome)
  | recv (bytes : Option ℕ)
  | malloc (block : Block)
  | go

/-- What a step does to the descriptors of the process. -/
inductive Syscall
  | nothing
  | opens (fd : ℕ)
  | closes (fd : Option ℕ)

/-- `AF_INET` -/
def afInet : UInt32 := 2

def TcpConnect.next (ip : IpAddr) : TcpConnect → Event → Option (Syscall × TcpConnect)
  | .socket, .socket none => some (.nothing, .returns none)
  | .socket, .socket (some fd) => some (.opens fd, .address fd)
  | .address fd, .go =>
      some (.nothing, if ip.family = afInet ∧ ip.ipv4 = 0 then .failed fd else .connect fd)
  | .connect fd, .connect ok => some (.nothing, if ok then .returns (some fd) else .failed fd)
  | .failed fd, .go => some (.closes (some fd), .returns none)
  | _, _ => none

/-- A step that waits for nothing. -/
def Event.onGo {α : Type} (e : Event) (x : α) : Option α :=
  match e with
  | .go => some x
  | _ => none

theorem onGo_eq_some {α : Type} {e : Event} {x y : α} :
    e.onGo x = some y ↔ e = .go ∧ x = y := by
  cases e <;> simp [Event.onGo]

namespace Phase

/-- A call on a connection that exists. -/
def call (conn : DicConn) : Event → Option Phase
  | .callRecv n => some (.recv conn (toSizeT n))
  | .callTryconnect =>
      some (if h : conn.sockfd = none then .tryconnect ⟨conn, h⟩ .socket else .idle conn)
  | .callDisconnect => some (.disconnect conn false)
  | .callDestroy => some (.disconnect conn true)
  | _ => none

/-- The end of `dic_conn_new`. -/
def nextNew (ip : IpAddr) (port : ℤ) (pc : TcpConnect) : Event → Option (Syscall × Phase)
  | .malloc block =>
      match pc with
      | .returns sockfd => some (.nothing, .idle (dicConnNew block sockfd ip port))
      | _ => none
  | e => (pc.next ip e).map fun r => (r.1, .new ip port r.2)

/-- `dic_conn_tryconnect`, which assigns the descriptor only if there is one. -/
def nextTryconnect (conn : ClosedConn) (pc : TcpConnect) (e : Event) :
    Option (Syscall × Phase) :=
  match pc with
  | .returns none => e.onGo (.nothing, .idle conn)
  | .returns (some fd) =>
      e.onGo (.nothing, .idle { conn.val with sockfd := some fd })
  | pc => (pc.next conn.val.ip e).map fun r => (r.1, .tryconnect conn r.2)

/-- `recv` in `tcp_recv_n`, with `left` bytes to go; on a closed descriptor it fails. -/
def nextRecv (conn : DicConn) (left : ℕ) : Event → Option (Syscall × Phase)
  | .recv (some k) =>
      if 0 < k ∧ k ≤ left ∧ conn.sockfd ≠ none then some (.nothing, .recv conn (left - k)) else none
  | .recv none => if 0 < left then some (.nothing, .recvFailed conn) else none
  | .go => if left = 0 then some (.nothing, .idle conn) else none
  | _ => none

/-- The next step of the thread. -/
def next (p : Phase) (e : Event) : Option (Syscall × Phase) :=
  match p with
  | .absent =>
      match e with
      | .callNew ip port => some (.nothing, .new ip port .socket)
      | .callAccept => some (.nothing, .accepting)
      | _ => none
  | .idle conn => (call conn e).map (.nothing, ·)
  | .new ip port pc => nextNew ip port pc e
  | .accepting =>
      match e with
      -- `NULL` is returned
      | .accept .failed => some (.nothing, .absent)
      | .accept (.accepted clientFd clientAddr) =>
          some (.opens clientFd, .accepted clientFd clientAddr)
      | _ => none
  | .accepted clientFd clientAddr =>
      match e with
      | .malloc block =>
          some (.nothing, (dicConnAccept block (.accepted clientFd clientAddr)).elim .absent .idle)
      | _ => none
  | .recv conn left => nextRecv conn left e
  | .recvFailed conn => e.onGo (.closes conn.sockfd, .recvClosed conn)
  | .recvClosed conn =>
      e.onGo (.nothing, .idle { conn with sockfd := none })
  | .tryconnect conn pc => nextTryconnect conn pc e
  | .disconnect conn freed => e.onGo (.closes conn.sockfd, .disconnected conn freed)
  | .disconnected conn freed =>
      let conn := { conn with sockfd := none }
      e.onGo (.nothing, if freed then .destroy conn else .idle conn)
  -- `free(conn);`
  | .destroy _ => e.onGo (.nothing, .absent)

end Phase

/-! ## The process -/

/-- The descriptors of the process, and the connections. -/
structure Sockets where
  table : ℕ → Slot ConnId
  phase : ConnId → Phase

def Sockets.start : Sockets := ⟨fun _ => .free, fun _ => .absent⟩

/-- The kernel returns descriptors that are not open. -/
def Syscall.Possible (table : ℕ → Slot ConnId) : Syscall → Prop
  | .opens fd => table fd = .free
  | _ => True

instance (table : ℕ → Slot ConnId) : (c : Syscall) → Decidable (c.Possible table)
  | .nothing | .closes _ => isTrue trivial
  | .opens fd => inferInstanceAs (Decidable (table fd = .free))

/-- What a system call of the connection `k` does to the table. -/
def Syscall.apply (table : ℕ → Slot ConnId) (k : ConnId) : Syscall → ℕ → Slot ConnId
  | .nothing | .closes none => table
  | .opens fd => Function.update table fd (.held k)
  | .closes (some fd) => Function.update table fd .free

inductive SocketStep
  | conn (k : ConnId) (e : Event)
  /-- another part of the process opens or closes a descriptor of its own -/
  | openElsewhere (fd : ℕ)
  | closeElsewhere (fd : ℕ)

def Sockets.step? (s : Sockets) : SocketStep → Option Sockets
  | .conn k e => do
      let (c, p) ← (s.phase k).next e
      if c.Possible s.table then
        some ⟨c.apply s.table k, Function.update s.phase k p⟩
      else none
  | .openElsewhere fd =>
      if s.table fd = .free then some { s with table := Function.update s.table fd .elsewhere }
      else none
  | .closeElsewhere fd =>
      if s.table fd = .elsewhere then some { s with table := Function.update s.table fd .free }
      else none

def sockets : Lts Sockets SocketStep where
  init s := s = .start
  step s l t := s.step? l = some t

/-! ## Ownership -/

/-- The descriptor that a call of `tcp_connect` has. -/
def TcpConnect.owns : TcpConnect → Option ℕ
  | .socket => none
  | .address fd | .connect fd | .failed fd => some fd
  | .returns res => res

/-- The descriptor that a connection owns: its `sockfd`, or the local variable of a
constructor, until it is closed. -/
def Phase.owns : Phase → Option ℕ
  | .absent | .accepting => none
  | .new _ _ pc | .tryconnect _ pc => pc.owns
  | .accepted clientFd _ => some clientFd
  | .idle conn | .recv conn _ | .recvFailed conn | .disconnect conn _ => conn.sockfd
  | .recvClosed _ | .disconnected _ _ | .destroy _ => none

/-- What a step does to the descriptor that its connection owns: nothing, or it opens the
first one, or it closes the one that there is. -/
inductive Passes : Option ℕ → Syscall → Option ℕ → Prop
  | keeps {v} : Passes v .nothing v
  | opens {fd} : Passes none (.opens fd) (some fd)
  | closes {v} : Passes v (.closes v) none

theorem Passes.closes_owned {u v w : Option ℕ} (h : Passes u (.closes v) w) : u = v := by
  cases h
  rfl

/-- A step that waits for nothing does one thing. -/
theorem Event.onGo_passes {e : Event} {v : Option ℕ} {x : Syscall × Phase} {c : Syscall}
    {p : Phase} (h : e.onGo x = some (c, p)) (hx : Passes v x.1 x.2.owns) :
    Passes v c p.owns := by
  obtain ⟨_, rfl⟩ := onGo_eq_some.mp h
  exact hx

theorem TcpConnect.next_passes {ip : IpAddr} {pc pc' : TcpConnect} {e : Event} {c : Syscall}
    (h : pc.next ip e = some (c, pc')) : Passes pc.owns c pc'.owns := by
  unfold TcpConnect.next at h
  split at h <;> cases h
  · exact .keeps
  · exact .opens
  · split <;> exact .keeps
  · split <;> exact .keeps
  · exact .closes

namespace Phase

theorem nextNew_passes {ip : IpAddr} {port : ℤ} {pc : TcpConnect} {e : Event} {c : Syscall}
    {p : Phase} (h : nextNew ip port pc e = some (c, p)) : Passes pc.owns c p.owns := by
  unfold nextNew at h
  split at h
  · split at h <;> cases h
    exact .keeps
  · obtain ⟨r, hr, heq⟩ := Option.map_eq_some_iff.mp h
    cases heq
    exact TcpConnect.next_passes hr

theorem nextTryconnect_passes {conn : ClosedConn} {pc : TcpConnect} {e : Event} {c : Syscall}
    {p : Phase} (h : nextTryconnect conn pc e = some (c, p)) : Passes pc.owns c p.owns := by
  unfold nextTryconnect at h
  split at h
  · apply Event.onGo_passes h
    -- the connection had no descriptor when it was called
    show Passes none .nothing conn.val.sockfd
    rw [conn.property]
    exact .keeps
  · exact Event.onGo_passes h .keeps
  · obtain ⟨r, hr, heq⟩ := Option.map_eq_some_iff.mp h
    cases heq
    exact TcpConnect.next_passes hr

theorem nextRecv_passes {conn : DicConn} {left : ℕ} {e : Event} {c : Syscall} {p : Phase}
    (h : nextRecv conn left e = some (c, p)) : Passes conn.sockfd c p.owns := by
  unfold nextRecv at h
  split at h
  · split at h <;> cases h
    exact .keeps
  · split at h <;> cases h
    exact .keeps
  · split at h <;> cases h
    exact .keeps
  · cases h

theorem call_passes {conn : DicConn} {e : Event} {p : Phase} (h : call conn e = some p) :
    Passes conn.sockfd .nothing p.owns := by
  unfold call at h
  split at h <;> cases h
  · exact .keeps
  · split
    · next hclosed =>
        rw [hclosed]
        exact .keeps
    · exact .keeps
  · exact .keeps
  · exact .keeps

/-- Every step of every function. -/
theorem next_passes {p p' : Phase} {e : Event} {c : Syscall} (h : p.next e = some (c, p')) :
    Passes p.owns c p'.owns := by
  cases p with
  | absent =>
      unfold next at h
      dsimp only at h
      split at h <;> cases h <;> exact .keeps
  | idle conn =>
      obtain ⟨q, hq, heq⟩ := Option.map_eq_some_iff.mp h
      cases heq
      exact call_passes hq
  | new ip port pc => exact nextNew_passes h
  | accepting =>
      unfold next at h
      dsimp only at h
      split at h <;> cases h
      · exact .keeps
      · exact .opens
  | accepted clientFd clientAddr =>
      unfold next at h
      dsimp only at h
      split at h <;> cases h
      exact .keeps
  | recv conn left => exact nextRecv_passes h
  | recvFailed conn => exact Event.onGo_passes h .closes
  | recvClosed conn => exact Event.onGo_passes h .keeps
  | tryconnect conn pc => exact nextTryconnect_passes h
  | disconnect conn freed => exact Event.onGo_passes h .closes
  | disconnected conn freed =>
      apply Event.onGo_passes h
      cases freed <;> exact .keeps
  | destroy conn => exact Event.onGo_passes h .keeps

end Phase

/-! ## In every reachable state -/

theorem socketStep_cases {s t : Sockets} {l : SocketStep} (h : s.step? l = some t) :
    (∃ k e c p, l = .conn k e ∧ (s.phase k).next e = some (c, p) ∧ c.Possible s.table ∧
        t = ⟨c.apply s.table k, Function.update s.phase k p⟩) ∨
      ∃ fd slot, (∀ k, s.table fd ≠ .held k) ∧ (∀ k, slot ≠ .held k) ∧
        t = { s with table := Function.update s.table fd slot } := by
  cases l with
  | conn k e =>
      simp only [Sockets.step?, Option.bind_eq_bind, Option.bind_eq_some_iff] at h
      obtain ⟨⟨c, p⟩, hnext, h⟩ := h
      split at h
      · next hpossible =>
          cases h
          exact Or.inl ⟨k, e, c, p, rfl, hnext, hpossible, rfl⟩
      · cases h
  | openElsewhere fd =>
      simp only [Sockets.step?] at h
      split at h
      · next hfree =>
          cases h
          exact Or.inr ⟨fd, .elsewhere, fun k => by simp [hfree], fun k => by simp, rfl⟩
      · cases h
  | closeElsewhere fd =>
      simp only [Sockets.step?] at h
      split at h
      · next helse =>
          cases h
          exact Or.inr ⟨fd, .free, fun k => by simp [helse], fun k => by simp, rfl⟩
      · cases h

/-- What each connection owns. -/
def Sockets.own (s : Sockets) : ConnId → Option ℕ := Phase.owns ∘ s.phase

theorem own_update (s : Sockets) (table : ℕ → Slot ConnId) (k : ConnId) (p : Phase) :
    Sockets.own ⟨table, Function.update s.phase k p⟩ = Function.update s.own k p.owns :=
  Function.comp_update ..

/-- One system call keeps the table and the connections in agreement. -/
theorem exact_apply {s : Sockets} (hs : Exact s.table s.own) {k : ConnId} {c : Syscall}
    {v : Option ℕ} (hpossible : c.Possible s.table) (hpass : Passes (s.own k) c v) :
    Exact (c.apply s.table k) (Function.update s.own k v) := by
  generalize hk : s.own k = u at hpass
  cases hpass with
  | keeps => exact hs.keep hk
  | opens => exact hs.acquire hpossible hk
  | closes =>
      cases u with
      | none => exact hs.keep hk
      | some fd => exact hs.release hk

theorem exact_step {s t : Sockets} {l : SocketStep} (hs : Exact s.table s.own)
    (h : s.step? l = some t) : Exact t.table t.own := by
  rcases socketStep_cases h with
    ⟨k, e, c, p, _, hnext, hpossible, rfl⟩ | ⟨fd, slot, hold, hnew, rfl⟩
  · rw [own_update]
    exact exact_apply hs hpossible (Phase.next_passes hnext)
  · exact hs.elsewhere hold hnew

theorem exact_of_reachable {s : Sockets} (h : sockets.Reachable s) : Exact s.table s.own := by
  refine h.invariant (I := fun s => Exact s.table s.own) ?_
    fun s l t hs hstep => exact_step hs hstep
  rintro _ rfl
  exact Exact.empty

/-- No function is being called. -/
def Sockets.Quiet (s : Sockets) : Prop :=
  ∀ k, s.phase k = .absent ∨ ∃ conn, s.phase k = .idle conn

/-- The open descriptors that the functions obtained. -/
def Sockets.Obtained (s : Sockets) (fd : ℕ) : Prop := ∃ k, s.table fd = .held k

structure OwnedOnce (s : Sockets) : Prop where
  /-- between the calls, the descriptors are those of the connections -/
  sockfds : s.Quiet → ∀ fd, s.Obtained fd ↔ ∃ k conn, s.phase k = .idle conn ∧
    conn.sockfd = some fd
  /-- and during them too, with the local variables of the calls -/
  held : ∀ fd k, s.table fd = .held k ↔ (s.phase k).owns = some fd
  unshared : ∀ k k' conn conn' fd, s.phase k = .idle conn → s.phase k' = .idle conn' →
    conn.sockfd = some fd → conn'.sockfd = some fd → k = k'
  /-- `close` is called with `-1`, or with a descriptor that the connection obtained -/
  closes : ∀ k e fd p, (s.phase k).next e = some (.closes (some fd), p) → s.table fd = .held k
  none_left : (∀ k, s.phase k = .absent) → ∀ fd, ¬ s.Obtained fd

/-- Socket descriptors are owned exactly once, in every run of any number of
connections. -/
theorem descriptors_owned_once {s : Sockets} (h : sockets.Reachable s) : OwnedOnce s := by
  have hexact := exact_of_reachable h
  refine ⟨fun hquiet fd => ?_, hexact, ?_, ?_, ?_⟩
  · constructor
    · rintro ⟨k, hk⟩
      -- between the calls only an idle connection owns anything
      have hown : (s.phase k).owns = some fd := (hexact fd k).mp hk
      rcases hquiet k with habsent | ⟨conn, hidle⟩
      · rw [habsent] at hown
        cases hown
      · rw [hidle] at hown
        exact ⟨k, conn, hidle, hown⟩
    · rintro ⟨k, conn, hidle, hfd⟩
      refine ⟨k, (hexact fd k).mpr ?_⟩
      show (s.phase k).owns = some fd
      rw [hidle]
      exact hfd
  · intro k k' conn conn' fd hk hk' hfd hfd'
    have hown : s.own k = some fd := by
      rw [← hfd, Sockets.own, Function.comp_apply, hk, Phase.owns]
    have hown' : s.own k' = some fd := by
      rw [← hfd', Sockets.own, Function.comp_apply, hk', Phase.owns]
    exact hexact.injective hown hown'
  · intro k e fd p hnext
    exact (hexact fd k).mpr (Phase.next_passes hnext).closes_owned
  · rintro habsent fd ⟨k, hk⟩
    refine hexact.none_held (fun k => ?_) fd k hk
    rw [Sockets.own, Function.comp_apply, habsent k, Phase.owns]

/-- The steps of `dic_conn_new` on the connection `k`, which gets the descriptor `fd`. -/
def connects (k : ConnId) (fd : ℕ) : List SocketStep :=
  [.conn k (.callNew ⟨afInet, 16777343, Vector.replicate 12 0⟩ 4224), .conn k (.socket (some fd)),
    .conn k .go, .conn k (.connect true),
    .conn k (.malloc ⟨0, fun _ => [], noneIpAddr⟩)]

/-- The steps of a `dic_conn_recv` that fails. -/
def loses (k : ConnId) : List SocketStep :=
  [.conn k (.callRecv 4), .conn k (.recv none), .conn k .go, .conn k .go]

/-- A connection is lost and another one gets its number, and then the first one is
disconnected. -/
def numberReused : List SocketStep :=
  connects 0 3 ++ loses 0 ++ connects 1 3 ++ [.conn 0 .callDisconnect, .conn 0 .go, .conn 0 .go]

/-- The second connection keeps its descriptor. -/
theorem descriptors_owned_once_run :
    ∃ s, sockets.Reachable s ∧ s.table 3 = .held 1 ∧ OwnedOnce s := by
  have hrun : (Lts.exec Sockets.step? (fun _ _ => true) .start numberReused).any
      (fun s => decide (s.table 3 = .held 1)) = true := by
    decide +kernel
  obtain ⟨s, hs, htest⟩ := (Option.any_eq_true _ _).mp hrun
  have hreach : sockets.Reachable s :=
    (Lts.Reachable.of_exec (C := fun _ _ => True) (L := sockets) (fun _ _ _ h => h)
      (fun _ _ _ => trivial) (.init rfl) hs).of_restrict
  exact ⟨s, hreach, of_decide_eq_true htest, descriptors_owned_once hreach⟩

end Dicon.Connections
