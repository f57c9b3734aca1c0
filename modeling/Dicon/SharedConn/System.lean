import Dicon.Framework.Transition
import Dicon.Common.Protocol

/-!
# A node connection shared by client threads

Any number of client threads call `dic_atomic_send_recv` on one `dic_node_t`; the
node at the other end runs `dic_node_recv_send` in a loop. A label is one step
of one of them: a lock or an unlock, a `send` of some of the bytes left to send
(as many as the socket buffer takes), a `recv` of some of the bytes that have
arrived. The buffers have a finite capacity in each direction.

What the node's handlers do is a parameter (`NodeSpec`): a handler that has an
outcome answers its request with one response, and one without waits. The
environment of the node (threads it runs) has steps of its own.

`sent`, `answered` and `returned` are ghost logs: the calls in the order in
which they took `send_mut`, the requests as the node read them with the
responses it produced, and the calls that returned with what they returned.
-/

namespace Dicon.SharedConn

open Framework

universe u v w

/-- What the handlers of a node with state `N` do. `ω` resolves what the request
and the state leave open. -/
structure NodeSpec (N : Type v) (ω : Type w) where
  start : N
  handle : ω → N → ReqHead → List UInt8 → Option (N × Response)
  env : ω → N → Option N

/-- The free space of the two socket buffers when they are empty. -/
structure Caps where
  toNode : ℕ
  toClient : ℕ

/-! ## State -/

/-- Where a thread is in `dic_atomic_send_recv`. -/
inductive ClientPc
  | idle
  | lockSend (req : Request)
  | sending (req : Request) (rest : List UInt8)
  | handOver (req : Request)
  | receiving (req : Request) (reader : Reader UInt8)

/-- Where the node is in `dic_node_recv_send`. -/
inductive NodePc
  | reading (reader : Reader UInt8)
  | handling (head body : List UInt8)
  | sending (rest : List UInt8)

/-- A call that returned, with the head and the body it received. -/
structure Return (τ : Type u) where
  call : τ × Request
  got : Frame

structure State (τ : Type u) (N : Type v) where
  sendMut : Option τ
  recvMut : Option τ
  pc : τ → ClientPc
  toNode : List UInt8
  toClient : List UInt8
  node : NodePc
  remote : N
  sent : List (τ × Request)
  answered : List (Frame × Response)
  returned : List (Return τ)

variable {τ : Type u} [DecidableEq τ] {N : Type v} {ω : Type w}

def State.start (S : NodeSpec N ω) : State τ N where
  sendMut := none
  recvMut := none
  pc _ := .idle
  toNode := []
  toClient := []
  node := .reading (.head [])
  remote := S.start
  sent := []
  answered := []
  returned := []

def State.setPc (s : State τ N) (t : τ) (pc : ClientPc) : State τ N :=
  { s with pc := Function.update s.pc t pc }

/-! ## Steps -/

inductive ClientAct
  | call (req : Request)
  | lockSend
  | send (k : ℕ)
  | lockRecv
  | unlockSend
  | recv (k : ℕ)
  | headDone
  | unlockRecv

inductive NodeAct (ω : Type w)
  | recv (k : ℕ)
  | headDone
  | dispatch
  | respond (o : ω)
  | send (k : ℕ)
  | sendDone

inductive Label (τ : Type u) (ω : Type w)
  | client (t : τ) (a : ClientAct)
  | node (a : NodeAct ω)
  | env (o : ω)

/-- A step of a thread inside a call, or of the node. -/
def Label.serves : Label τ ω → Prop
  | .client _ (.call _) => False
  | .client _ _ | .node _ => True
  | .env _ => False

/-- `dic_atomic_send_recv`, one step of thread `t`. -/
def State.client? (caps : Caps) (s : State τ N) (t : τ) (a : ClientAct) : Option (State τ N) :=
  match a, s.pc t with
  | .call req, .idle => some (s.setPc t (.lockSend req))
  | .lockSend, .lockSend req =>
      if s.sendMut = none then
        some { s.setPc t (.sending req req.bytes) with
          sendMut := some t, sent := s.sent ++ [(t, req)] }
      else none
  | .send k, .sending req rest =>
      if 0 < k ∧ k ≤ rest.length ∧ s.toNode.length + k ≤ caps.toNode then
        some { s.setPc t (.sending req (rest.drop k)) with toNode := s.toNode ++ rest.take k }
      else none
  -- `recv_mut` is taken while `send_mut` is still held
  | .lockRecv, .sending req [] =>
      if s.recvMut = none then
        some { s.setPc t (.handOver req) with recvMut := some t }
      else none
  | .unlockSend, .handOver req =>
      some { s.setPc t (.receiving req (.head [])) with sendMut := none }
  | .recv k, .receiving req reader =>
      if 0 < k ∧ k ≤ reader.need respFraming ∧ k ≤ s.toClient.length then
        some { s.setPc t (.receiving req (reader.feed (s.toClient.take k))) with
          toClient := s.toClient.drop k }
      else none
  | .headDone, .receiving req (.head got) =>
      if (Reader.head got).need respFraming = 0 then
        some (s.setPc t (.receiving req (.body got [])))
      else none
  | .unlockRecv, .receiving req (.body head got) =>
      if (Reader.body head got).need respFraming = 0 then
        some { s.setPc t .idle with
          recvMut := none, returned := s.returned ++ [⟨(t, req), (head, got)⟩] }
      else none
  | _, _ => none

/-- `dic_node_recv_send`, one step. -/
def State.node? (S : NodeSpec N ω) (caps : Caps) (s : State τ N) (a : NodeAct ω) :
    Option (State τ N) :=
  match a, s.node with
  | .recv k, .reading reader =>
      if 0 < k ∧ k ≤ reader.need reqFraming ∧ k ≤ s.toNode.length then
        some { s with
          node := .reading (reader.feed (s.toNode.take k)), toNode := s.toNode.drop k }
      else none
  | .headDone, .reading (.head got) =>
      if (Reader.head got).need reqFraming = 0 then
        some { s with node := .reading (.body got []) }
      else none
  | .dispatch, .reading (.body head got) =>
      if (Reader.body head got).need reqFraming = 0 then
        some { s with node := .handling head got }
      else none
  -- a handler without an outcome waits here, and the node reads nothing meanwhile
  | .respond o, .handling head body =>
      (S.handle o s.remote (.ofBytes head) body).map fun (remote, resp) =>
        { s with
          node := .sending resp.bytes
          remote := remote
          answered := s.answered ++ [((head, body), resp)] }
  | .send k, .sending rest =>
      if 0 < k ∧ k ≤ rest.length ∧ s.toClient.length + k ≤ caps.toClient then
        some { s with node := .sending (rest.drop k), toClient := s.toClient ++ rest.take k }
      else none
  | .sendDone, .sending [] => some { s with node := .reading (.head []) }
  | _, _ => none

def State.step? (S : NodeSpec N ω) (caps : Caps) (s : State τ N) :
    Label τ ω → Option (State τ N)
  | .client t a => s.client? caps t a
  | .node a => s.node? S caps a
  | .env o => (S.env o s.remote).map fun remote => { s with remote := remote }

def sharedConn (τ : Type u) [DecidableEq τ] (S : NodeSpec N ω) (caps : Caps) :
    Lts (State τ N) (Label τ ω) where
  init s := s = .start S
  step s l t := s.step? S caps l = some t

/-- Steps on concrete inputs from the start, each of which passes the test `ok`. -/
def exec (S : NodeSpec N ω) (caps : Caps) (ok : State τ N → Label τ ω → Bool) :
    List (Label τ ω) → Option (State τ N) :=
  Lts.exec (State.step? S caps) ok (State.start S)

theorem reachable_of_exec {S : NodeSpec N ω} {caps : Caps} {ok : State τ N → Label τ ω → Bool}
    {C : State τ N → Label τ ω → Prop} (hok : ∀ s l, ok s l = true → C s l)
    {s : State τ N} {ls : List (Label τ ω)} (h : exec S caps ok ls = some s) :
    ((sharedConn τ S caps).restrict C).Reachable s :=
  .of_exec (s := State.start S) (fun _ _ _ hs => hs) hok (.init rfl) h

/-! ## What one step can do -/

section Effects

inductive ClientEffect (caps : Caps) (s : State τ N) (t : τ) : ClientAct → State τ N → Prop
  | call {req} : s.pc t = .idle → ClientEffect caps s t (.call req) (s.setPc t (.lockSend req))
  | lockSend {req} : s.pc t = .lockSend req → s.sendMut = none →
      ClientEffect caps s t .lockSend
        { s.setPc t (.sending req req.bytes) with
          sendMut := some t, sent := s.sent ++ [(t, req)] }
  | send {k req rest} : s.pc t = .sending req rest → 0 < k → k ≤ rest.length →
      s.toNode.length + k ≤ caps.toNode →
      ClientEffect caps s t (.send k)
        { s.setPc t (.sending req (rest.drop k)) with toNode := s.toNode ++ rest.take k }
  | lockRecv {req} : s.pc t = .sending req [] → s.recvMut = none →
      ClientEffect caps s t .lockRecv { s.setPc t (.handOver req) with recvMut := some t }
  | unlockSend {req} : s.pc t = .handOver req →
      ClientEffect caps s t .unlockSend
        { s.setPc t (.receiving req (.head [])) with sendMut := none }
  | recv {k req reader} : s.pc t = .receiving req reader → 0 < k →
      k ≤ reader.need respFraming → k ≤ s.toClient.length →
      ClientEffect caps s t (.recv k)
        { s.setPc t (.receiving req (reader.feed (s.toClient.take k))) with
          toClient := s.toClient.drop k }
  | headDone {req got} : s.pc t = .receiving req (.head got) →
      (Reader.head got).need respFraming = 0 →
      ClientEffect caps s t .headDone (s.setPc t (.receiving req (.body got [])))
  | unlockRecv {req head got} : s.pc t = .receiving req (.body head got) →
      (Reader.body head got).need respFraming = 0 →
      ClientEffect caps s t .unlockRecv
        { s.setPc t .idle with
          recvMut := none, returned := s.returned ++ [⟨(t, req), (head, got)⟩] }

inductive NodeEffect (S : NodeSpec N ω) (caps : Caps) (s : State τ N) :
    NodeAct ω → State τ N → Prop
  | recv {k reader} : s.node = .reading reader → 0 < k → k ≤ reader.need reqFraming →
      k ≤ s.toNode.length →
      NodeEffect S caps s (.recv k)
        { s with node := .reading (reader.feed (s.toNode.take k)), toNode := s.toNode.drop k }
  | headDone {got} : s.node = .reading (.head got) → (Reader.head got).need reqFraming = 0 →
      NodeEffect S caps s .headDone { s with node := .reading (.body got []) }
  | dispatch {head got} : s.node = .reading (.body head got) →
      (Reader.body head got).need reqFraming = 0 →
      NodeEffect S caps s .dispatch { s with node := .handling head got }
  | respond {o head body remote resp} : s.node = .handling head body →
      S.handle o s.remote (.ofBytes head) body = some (remote, resp) →
      NodeEffect S caps s (.respond o)
        { s with
          node := .sending resp.bytes
          remote := remote
          answered := s.answered ++ [((head, body), resp)] }
  | send {k rest} : s.node = .sending rest → 0 < k → k ≤ rest.length →
      s.toClient.length + k ≤ caps.toClient →
      NodeEffect S caps s (.send k)
        { s with node := .sending (rest.drop k), toClient := s.toClient ++ rest.take k }
  | sendDone : s.node = .sending [] →
      NodeEffect S caps s .sendDone { s with node := .reading (.head []) }

variable {S : NodeSpec N ω} {caps : Caps} {s s' : State τ N} {t : τ}

theorem client_effect {a : ClientAct} (h : s.client? caps t a = some s') :
    ClientEffect caps s t a s' := by
  unfold State.client? at h
  split at h
  · cases h
    exact .call ‹_›
  · split at h <;> cases h
    exact .lockSend ‹_› ‹_›
  · split at h
    · next hk =>
        cases h
        exact .send ‹_› hk.1 hk.2.1 hk.2.2
    · cases h
  · split at h <;> cases h
    exact .lockRecv ‹_› ‹_›
  · cases h
    exact .unlockSend ‹_›
  · split at h
    · next hk =>
        cases h
        exact .recv ‹_› hk.1 hk.2.1 hk.2.2
    · cases h
  · split at h <;> cases h
    exact .headDone ‹_› ‹_›
  · split at h <;> cases h
    exact .unlockRecv ‹_› ‹_›
  · cases h

omit [DecidableEq τ] in
theorem node_effect {a : NodeAct ω} (h : s.node? S caps a = some s') :
    NodeEffect S caps s a s' := by
  unfold State.node? at h
  split at h
  · split at h
    · next hk =>
        cases h
        exact .recv ‹_› hk.1 hk.2.1 hk.2.2
    · cases h
  · split at h <;> cases h
    exact .headDone ‹_› ‹_›
  · split at h <;> cases h
    exact .dispatch ‹_› ‹_›
  · obtain ⟨⟨remote, resp⟩, hr, rfl⟩ := Option.map_eq_some_iff.mp h
    exact .respond ‹_› hr
  · split at h
    · next hk =>
        cases h
        exact .send ‹_› hk.1 hk.2.1 hk.2.2
    · cases h
  · cases h
    exact .sendDone ‹_›
  · cases h

/-- Every step is one of a client thread, of the node, or of its environment. -/
theorem step_cases {l : Label τ ω} (h : (sharedConn τ S caps).step s l s') :
    (∃ t a, l = .client t a ∧ ClientEffect caps s t a s') ∨
    (∃ a, l = .node a ∧ NodeEffect S caps s a s') ∨
    (∃ o remote, l = .env o ∧ S.env o s.remote = some remote ∧
      s' = { s with remote := remote }) := by
  cases l with
  | client t a => exact Or.inl ⟨t, a, rfl, client_effect h⟩
  | node a => exact Or.inr (Or.inl ⟨a, rfl, node_effect h⟩)
  | env o =>
      obtain ⟨remote, hr, rfl⟩ := Option.map_eq_some_iff.mp h
      exact Or.inr (Or.inr ⟨o, remote, rfl, hr, rfl⟩)

end Effects

end Dicon.SharedConn
