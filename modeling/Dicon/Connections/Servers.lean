import Dicon.Connections.Records
import Dicon.Framework.Transition

/-!
# The listen loops (`node/src/main.c`, `main-server/src/main.c`)

Both servers accept in an endless loop and hand what `dic_conn_accept` returns to a
handler, which works on it until its peer is gone and then destroys it. The node
handles one connection at a time, in the loop itself; the main server starts a thread
for each. Neither looks at the pointer.

`destroyed` logs the connections to which `dic_conn_destroy` was applied. The
`dic_conn_destroy(listen_conn)` behind the loop is not reached.
-/

namespace Dicon.Connections

open Framework

/-- A server in its `listen_loop`, with the `client_conn` of each handler that has not
ended. -/
structure Listening where
  listenConn : DicConn
  clientConns : List (Option DicConn)
  /-- a null pointer was dereferenced -/
  nullUsed : Bool
  destroyed : List DicConn

def Listening.start (listenConn : DicConn) : Listening := ⟨listenConn, [], false, []⟩

inductive Step
  /-- `dic_conn_accept`, into the block that `malloc` returns -/
  | accept (block : Block) (o : AcceptOutcome)
  /-- one round of the handler: a request -/
  | serve (i : ℕ)
  /-- the peer is gone: `dic_conn_destroy(client_conn);` -/
  | finish (i : ℕ)

/-- How many connections a server handles at a time. -/
inductive Handling
  | one
  | many
deriving DecidableEq

/-- The loop is at its `dic_conn_accept`. -/
def Listening.AtAccept (s : Listening) : Handling → Prop
  | .one => s.clientConns = []
  | .many => True

instance (s : Listening) (m : Handling) : Decidable (s.AtAccept m) :=
  match m with
  | .one => decidable_of_iff (s.clientConns.isEmpty = true) List.isEmpty_iff
  | .many => isTrue trivial

namespace Listening

def accept (s : Listening) (block : Block) (o : AcceptOutcome) : Listening :=
  { s with clientConns := s.clientConns ++ [dicConnAccept block o] }

/-- `dic_node_recv_send(conn)`, or the round of `connection_handler_thread`: each begins
with a receive from the connection. -/
def serve (s : Listening) : Option DicConn → Listening
  | none => { s with nullUsed := true }
  | some _ => s

/-- The receive that fails, and `dic_conn_destroy`. -/
def finish (s : Listening) (i : ℕ) : Option DicConn → Listening
  | none => { s with nullUsed := true }
  | some conn =>
      { s with clientConns := s.clientConns.eraseIdx i, destroyed := s.destroyed ++ [conn] }

/-- A step of the server; a null pointer ends it. -/
def step? (m : Handling) (s : Listening) (l : Step) : Option Listening :=
  if s.nullUsed then none
  else match l with
  | .accept block o => if s.AtAccept m then some (s.accept block o) else none
  | .serve i => (s.clientConns[i]?).map s.serve
  | .finish i => (s.clientConns[i]?).map (s.finish i)

end Listening

/-- `start_server`, from the moment when it listens. -/
def listenLoop (m : Handling) : Lts Listening Step where
  init s := ∃ block port serverFd conn, dicConnNewListening block port serverFd = some conn ∧
    s = .start conn
  step s l t := s.step? m l = some t

/-- `listen_loop` of the node -/
def nodeListenLoop : Lts Listening Step := listenLoop .one

/-- `listen_loop` of the main server -/
def mainServerListenLoop : Lts Listening Step := listenLoop .many

/-! ## What one step can do -/

theorem step_cases {m : Handling} {s t : Listening} {l : Step} (h : s.step? m l = some t) :
    s.nullUsed = false ∧
      ((∃ block o, l = .accept block o ∧ s.AtAccept m ∧ t = s.accept block o) ∨
        (∃ i p, l = .serve i ∧ s.clientConns[i]? = some p ∧ t = s.serve p) ∨
        (∃ i p, l = .finish i ∧ s.clientConns[i]? = some p ∧ t = s.finish i p)) := by
  unfold Listening.step? at h
  split at h
  · cases h
  · next hnull =>
      refine ⟨Bool.eq_false_iff.mpr hnull, ?_⟩
      cases l with
      | accept block o =>
          dsimp only at h
          split at h
          · next hat =>
              cases h
              exact Or.inl ⟨block, o, rfl, hat, rfl⟩
          · cases h
      | serve i =>
          obtain ⟨p, hp, rfl⟩ := Option.map_eq_some_iff.mp h
          exact Or.inr (Or.inl ⟨i, p, rfl, hp, rfl⟩)
      | finish i =>
          obtain ⟨p, hp, rfl⟩ := Option.map_eq_some_iff.mp h
          exact Or.inr (Or.inr ⟨i, p, rfl, hp, rfl⟩)

/-! ## Fully built connections -/

/-- No null connection was used, and `dic_conn_destroy` found everything initialised. -/
structure HandlesBuilt (s : Listening) : Prop where
  notNull : s.nullUsed = false
  built : ∀ conn ∈ s.destroyed, conn.Built

/-- `accept` does not fail, and no peer goes. -/
def Undisturbed : Step → Prop
  | .accept _ o => o ≠ .failed
  | .serve _ => True
  | .finish _ => False

/-- Nothing was destroyed yet, and every handler has a connection. -/
structure Serving (s : Listening) : Prop extends HandlesBuilt s where
  conns : ∀ p ∈ s.clientConns, p ≠ none

theorem Serving.step {m : Handling} {s t : Listening} {l : Step} (hs : Serving s)
    (hl : Undisturbed l) (h : s.step? m l = some t) : Serving t := by
  obtain ⟨_, ⟨block, o, rfl, _, rfl⟩ | ⟨i, p, rfl, hp, rfl⟩ | ⟨i, p, rfl, hp, rfl⟩⟩ := step_cases h
  · refine ⟨⟨hs.notNull, hs.built⟩, fun p hp => ?_⟩
    rcases List.mem_append.mp hp with hp | hp
    · exact hs.conns p hp
    · rw [List.mem_singleton.mp hp]
      exact fun hnull => hl (dicConnAccept_eq_none.mp hnull)
  · cases p with
    | none => exact absurd rfl (hs.conns none (List.mem_of_getElem? hp))
    | some conn => exact hs
  · exact hl.elim

/-- What a handler was given was made by `dic_conn_accept`. -/
def FromAccept (s : Listening) : Prop := ∀ conn, some conn ∈ s.clientConns → ¬ conn.Built

theorem FromAccept.step {m : Handling} {s t : Listening} {l : Step} (hs : FromAccept s)
    (h : s.step? m l = some t) : FromAccept t := by
  obtain ⟨_, ⟨block, o, rfl, _, rfl⟩ | ⟨i, p, rfl, _, rfl⟩ | ⟨i, p, rfl, _, rfl⟩⟩ := step_cases h
  · intro conn hconn
    rcases List.mem_append.mp hconn with hconn | hconn
    · exact hs conn hconn
    · exact dicConnAccept_not_built (List.mem_singleton.mp hconn).symm
  · cases p <;> exact hs
  · cases p with
    | none => exact hs
    | some _ => exact fun conn hconn => hs conn (List.mem_of_mem_eraseIdx hconn)

theorem fromAccept {m : Handling} {s : Listening} (h : (listenLoop m).Reachable s) :
    FromAccept s := by
  refine h.invariant ?_ fun s l t hs hstep => hs.step hstep
  rintro _ ⟨_, _, _, _, _, rfl⟩ conn hconn
  cases hconn

/-- A handler that was given `NULL` dereferences it. -/
theorem null_is_used {m : Handling} {s : Listening} (hnull : s.nullUsed = false) {i : ℕ}
    (hi : s.clientConns[i]? = some none) :
    ∃ t, (listenLoop m).Steps s t ∧ ¬ HandlesBuilt t := by
  refine ⟨s.serve none, .single ⟨.serve i, ?_⟩, fun h => ?_⟩
  · simp [listenLoop, Listening.step?, hnull, hi]
  · cases h.notNull

/-- Any other step leads the server there. -/
theorem disturbed {m : Handling} {s t : Listening} {l : Step} (hs : (listenLoop m).Reachable s)
    (hl : ¬ Undisturbed l) (h : (listenLoop m).step s l t) :
    ∃ u, (listenLoop m).Steps t u ∧ ¬ HandlesBuilt u := by
  obtain ⟨hnull, ⟨block, o, rfl, _, rfl⟩ | ⟨i, p, rfl, _, rfl⟩ | ⟨i, p, rfl, hp, rfl⟩⟩ :=
    step_cases h
  · have hfailed : o = .failed := Classical.not_not.mp hl
    subst hfailed
    exact null_is_used (i := s.clientConns.length) hnull (by simp [Listening.accept, dicConnAccept])
  · exact absurd trivial hl
  · refine ⟨_, .refl, fun hbuilt => ?_⟩
    cases p with
    | none => cases hbuilt.notNull
    | some conn =>
        have hconn := hbuilt.built conn (List.mem_append_right _ List.mem_cons_self)
        exact fromAccept hs conn (List.mem_of_getElem? hp) hconn

/-- In the runs in which `accept` does not fail and no peer goes, a server handles built
connections only; any other step of a run leads to a null connection that is used, or to
an object that is destroyed and was never initialised. -/
theorem servers_handle_built (m : Handling) :
    (∀ s, ((listenLoop m).restrict fun _ l => Undisturbed l).Reachable s → HandlesBuilt s) ∧
      ∀ s l t, (listenLoop m).Reachable s → (listenLoop m).step s l t → ¬ Undisturbed l →
        ∃ u, (listenLoop m).Steps t u ∧ ¬ HandlesBuilt u := by
  refine ⟨fun s hs => ?_, fun s l t hs hstep hl => disturbed hs hl hstep⟩
  have hserving : Serving s := by
    refine hs.invariant ?_ fun s l t hserving hstep => hserving.step hstep.1 hstep.2
    rintro _ ⟨_, _, _, _, _, rfl⟩
    exact ⟨⟨rfl, fun conn hconn => by cases hconn⟩, fun p hp => by cases hp⟩
  exact hserving.toHandlesBuilt

/-- A block of zeros. -/
def zeros : Block := ⟨0, fun _ => List.replicate 40 0, noneIpAddr⟩

/-- A server that has just been started. -/
def started : Listening :=
  .start ((dicConnNewListening zeros 4224 (some 3)).get rfl)

/-- A client connects. -/
def clientConnects : Step := .accept zeros (.accepted 4 ⟨2, 40000, 16777343⟩)

theorem started_init (m : Handling) : (listenLoop m).init started :=
  ⟨zeros, 4224, some 3, _, rfl, rfl⟩

/-- A client of the node connects and is served. -/
theorem servers_handle_built_run :
    ∃ s, (nodeListenLoop.restrict fun _ l => Undisturbed l).Reachable s ∧
      s.clientConns ≠ [] ∧ HandlesBuilt s := by
  have haccepts : Undisturbed clientConnects := by
    intro h
    cases h
  have hrun : ((started.step? .one clientConnects).bind fun s => s.step? .one (.serve 0)).any
      (fun s => decide (s.clientConns ≠ [])) = true := by
    decide
  obtain ⟨s, hs, htest⟩ := (Option.any_eq_true _ _).mp hrun
  obtain ⟨u, hu, hserve⟩ := Option.bind_eq_some_iff.mp hs
  have hstart : (nodeListenLoop.restrict fun _ l => Undisturbed l).Reachable started :=
    .init (started_init .one)
  have hserves : Undisturbed (.serve 0) := trivial
  have hreach := (hstart.step ⟨haccepts, hu⟩).step ⟨hserves, hserve⟩
  exact ⟨s, hreach, of_decide_eq_true htest, (servers_handle_built .one).1 s hreach⟩

/-- A client of the node connects and goes, and an `accept` of the main server fails:
the one destroys a condition variable that nobody initialised, the other uses `NULL`. -/
theorem unbuilt_destroyed :
    (¬ ∀ s, nodeListenLoop.Reachable s → HandlesBuilt s) ∧
      ¬ ∀ s, mainServerListenLoop.Reachable s → HandlesBuilt s := by
  constructor
  · intro hall
    have hrun : ((started.step? .one clientConnects).bind fun s => s.step? .one (.finish 0)).any
        (fun s => decide (¬ ∀ conn ∈ s.destroyed, conn.Built)) = true := by
      decide
    obtain ⟨s, hs, htest⟩ := (Option.any_eq_true _ _).mp hrun
    obtain ⟨u, hu, hgone⟩ := Option.bind_eq_some_iff.mp hs
    have hreach : nodeListenLoop.Reachable s :=
      ((Lts.Reachable.init (started_init .one)).step hu).step hgone
    exact of_decide_eq_true htest (hall s hreach).built
  · intro hall
    have hrun : ((started.step? .many (.accept zeros .failed)).bind fun s =>
        s.step? .many (.serve 0)).any (fun s => s.nullUsed) = true := by
      decide
    obtain ⟨s, hs, htest⟩ := (Option.any_eq_true _ _).mp hrun
    obtain ⟨u, hu, hused⟩ := Option.bind_eq_some_iff.mp hs
    have hreach : mainServerListenLoop.Reachable s :=
      ((Lts.Reachable.init (started_init .many)).step hu).step hused
    exact Bool.false_ne_true ((hall s hreach).notNull.symm.trans htest)

end Dicon.Connections
