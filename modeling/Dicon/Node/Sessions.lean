import Dicon.Node.Loop

/-!
# One client after another (`listen_loop` in `node/src/main.c`)

A node accepts a connection, serves it to its end, destroys it and accepts the next
one; what the clients leave in its memory stays. Whatever the clients send and wherever
their streams end, the node handles the complete requests of the first client, then
those of the second one, and so on, as if they had come on one connection, and each
client gets the responses to its own requests (`listen_loop_exact`).

`env` is the system during each request that the process handles, from its start on.
-/

namespace Dicon.Node

open Framework

/-! ## The loop -/

/-- A node after some connections: it waits in `accept`, or it crashed, or does not
return from a handler. -/
inductive Listened
  | accepting (node : Node) (served : List Serving)
  | stopped (served : List Serving) (last : Option Serving)

/-- `s` was served before all that. -/
def Listened.after (s : Serving) : Listened → Listened
  | .accepting node served => .accepting node (s :: served)
  | .stopped served last => .stopped (s :: served) last

/-- `listen_loop` for the connections that `accept` returns, each for as many rounds of
`client_handling_loop` as `fuel` says. Where `accept` fails, the handler is given `NULL`. -/
def nodeListen (env : ℕ → Sys) (fuel : ℕ) : ℕ → Node → List (Option Incoming) → Option Listened
  | _, node, [] => some (.accepting node [])
  | _, _, none :: _ => some (.stopped [] none)
  | k, node, some incoming :: rest =>
      (clientHandlingLoop (fun j => env (k + j)) fuel (.start node incoming)).bind fun
        | .faulted s => some (.stopped [] (some s))
        | .returned _ s =>
            (nodeListen env fuel (k + s.dispatched.length) s.node rest).map (.after s)

/-- A client that connects: the frames that it sends up to some byte, in some blocks. -/
structure Visit where
  frames : List ReqFrame
  cut : ℕ
  incoming : Incoming
  arrives : incoming.bytes = (wire frames).take cut

/-- The requests that arrive whole. -/
def Visit.requests (v : Visit) : List ReqFrame := completeFrames v.frames v.cut

/-! ## What it should do -/

/-- Requests of one client after another, with what is left after each client; the first
request is the `k`-th of the process. -/
def handleVisits (env : ℕ → Sys) : ℕ → Node → List (List ReqFrame) → Option (List Handled)
  | _, _, [] => some []
  | k, node, fs :: rest =>
      (handleAll env k node fs).bind fun r =>
        (handleVisits env (k + fs.length) r.node rest).map (r :: ·)

/-- The node that the last one of some clients leaves. -/
def lastNode (node : Node) (rs : List Handled) : Node := rs.foldl (fun _ r => r.node) node

/-- The client was served as `r` says, and its connection is closed. -/
structure ServedAs (v : Visit) (r : Handled) (t : Serving) : Prop where
  dispatched : t.dispatched = v.requests.map ReqFrame.logged
  node : t.node = r.node
  responses : t.responses = r.msgs
  outgoing : t.conn.outgoing = r.sent
  closed : t.conn.sockOpen = false

/-- Each of the clients was served. -/
def EachServed (visits : List Visit) (rs : List Handled) (ts : List Serving) : Prop :=
  rs.length = visits.length ∧ ts.length = visits.length ∧
    ∀ (i : ℕ) (v : Visit) (r : Handled) (t : Serving), visits[i]? = some v → rs[i]? = some r →
      ts[i]? = some t → ServedAs v r t

/-- The clients were served one by one; or a handler did not return, after the clients
before that one were served, and the requests before that one. -/
def ListenedAll (env : ℕ → Sys) (k : ℕ) (node : Node) (visits : List Visit)
    (o : Option Listened) : Prop :=
  match handleVisits env k node (visits.map Visit.requests) with
  | some rs => ∃ ts, o = some (.accepting (lastNode node rs) ts) ∧ EachServed visits rs ts
  | none => ∃ i v rs ts t, o = some (.stopped ts (some t)) ∧ visits[i]? = some v ∧
      handleVisits env k node ((visits.take i).map Visit.requests) = some rs ∧
      EachServed (visits.take i) rs ts ∧
      ∃ j, j < v.requests.length ∧
        ∃ r, handleAll env (k + ((visits.take i).flatMap Visit.requests).length)
            (lastNode node rs) (v.requests.take j) = some r ∧
          t.dispatched = (v.requests.take (j + 1)).map ReqFrame.logged ∧
          t.node = r.node ∧ t.responses = r.msgs ∧ t.conn.outgoing = r.sent

section Handling

variable {env : ℕ → Sys}

theorem handleAll_shift (k i : ℕ) (node : Node) (fs : List ReqFrame) :
    handleAll (fun j => env (k + j)) i node fs = handleAll env (k + i) node fs := by
  induction fs generalizing i node with
  | nil => rfl
  | cons f fs ih =>
      simp only [handleAll, ih]
      rfl

/-- Requests in two parts. -/
theorem handleAll_append (k : ℕ) (node : Node) (fs gs : List ReqFrame) :
    handleAll env k node (fs ++ gs) = (handleAll env k node fs).bind fun r =>
      (handleAll env (k + fs.length) r.node gs).map fun r' =>
        ⟨r'.node, r.msgs ++ r'.msgs, r.sent ++ r'.sent⟩ := by
  induction fs generalizing k node with
  | nil => simp [handleAll]
  | cons f fs ih =>
      cases hdisp : dispatch (env k) node (f.body ++ (env k).beyond) f.operation with
      | none => rw [List.cons_append, handleAll_cons_none hdisp, handleAll_cons_none hdisp]; rfl
      | some p =>
          obtain ⟨node', msg⟩ := p
          rw [List.cons_append, handleAll_cons hdisp, handleAll_cons hdisp, ih]
          cases handleAll env (k + 1) node' fs with
          | none => rfl
          | some r =>
              simp only [Option.bind_some, Option.map_some, Option.map_map, List.length_cons]
              rw [show k + 1 + fs.length = k + (fs.length + 1) by omega]
              cases handleAll env (k + (fs.length + 1)) r.node gs <;> simp

end Handling

/-! ## The loop does it -/

section Listening

variable {env : ℕ → Sys} {fuel k : ℕ} {node : Node}

theorem EachServed.cons {v : Visit} {visits : List Visit} {r : Handled} {rs : List Handled}
    {t : Serving} {ts : List Serving} (ht : ServedAs v r t) (h : EachServed visits rs ts) :
    EachServed (v :: visits) (r :: rs) (t :: ts) := by
  obtain ⟨hrs, hts, hserved⟩ := h
  refine ⟨by simp [hrs], by simp [hts], ?_⟩
  rintro (_ | i) w q u hw hq hu
  · cases hw
    cases hq
    cases hu
    exact ht
  · exact hserved i w q u hw hq hu

theorem eachServed_nil : EachServed [] [] [] := ⟨rfl, rfl, fun _ _ _ _ h => by simp at h⟩

/-- One client that was served to its end, and then the others. -/
theorem listenedAll_cons {v : Visit} {visits : List Visit} {r : Handled} {t : Serving}
    {o : Option Listened} (hall : handleAll env k node v.requests = some r) (ht : ServedAs v r t)
    (hrest : ListenedAll env (k + v.requests.length) r.node visits o) :
    ListenedAll env k node (v :: visits) (o.map (.after t)) := by
  unfold ListenedAll at hrest ⊢
  rw [List.map_cons, handleVisits, hall, Option.bind_some]
  cases hvs : handleVisits env (k + v.requests.length) r.node (visits.map Visit.requests) with
  | some rs =>
      rw [hvs] at hrest
      obtain ⟨ts, rfl, hserved⟩ := hrest
      exact ⟨t :: ts, rfl, hserved.cons ht⟩
  | none =>
      rw [hvs] at hrest
      obtain ⟨i, w, rs, ts, u, rfl, hw, hbefore, hserved, j, hj, q, hq, hu⟩ := hrest
      refine ⟨i + 1, w, r :: rs, t :: ts, u, rfl, hw, ?_, hserved.cons ht, j, hj, q, ?_, hu⟩
      · rw [List.take_succ_cons, List.map_cons, handleVisits, hall, Option.bind_some, hbefore]
        rfl
      · rw [List.take_succ_cons, List.flatMap_cons, List.length_append, ← Nat.add_assoc]
        exact hq

/-- A client whose request is the last one of the process. -/
theorem listenedAll_stopped {v : Visit} {visits : List Visit} {t : Serving} {j : ℕ} {r : Handled}
    (hall : handleAll env k node v.requests = none) (hj : j < v.requests.length)
    (hbefore : handleAll env k node (v.requests.take j) = some r)
    (ht : t.dispatched = (v.requests.take (j + 1)).map ReqFrame.logged ∧ t.node = r.node ∧
      t.responses = r.msgs ∧ t.conn.outgoing = r.sent) :
    ListenedAll env k node (v :: visits) (some (.stopped [] (some t))) := by
  unfold ListenedAll
  rw [List.map_cons, handleVisits, hall, Option.bind_none]
  exact ⟨0, v, [], [], t, rfl, rfl, rfl, eachServed_nil, j, hj, r, hbefore, ht⟩

/-- Induction on the clients, with `loop_serves` for each. -/
theorem nodeListen_serves {visits : List Visit}
    (hfuel : ∀ v ∈ visits, v.frames.length < fuel) :
    ListenedAll env k node visits
      (nodeListen env fuel k node (visits.map fun v => some v.incoming)) := by
  induction visits generalizing k node with
  | nil => exact ⟨[], rfl, eachServed_nil⟩
  | cons v visits ih =>
      obtain ⟨hv, hrest⟩ := List.forall_mem_cons.mp hfuel
      have hserved : ServedAll (fun j => env (k + j)) (.start node v.incoming) v.requests
          (clientHandlingLoop (fun j => env (k + j)) fuel (.start node v.incoming)) :=
        loop_serves rfl v.arrives hv
      have hshift : ∀ fs, handleAll (fun j => env (k + j)) (Serving.start node
          v.incoming).dispatched.length (Serving.start node v.incoming).node fs =
            handleAll env k node fs := fun fs => handleAll_shift k 0 node fs
      unfold ServedAll at hserved
      simp only [hshift] at hserved
      rw [List.map_cons, nodeListen]
      cases hall : handleAll env k node v.requests with
      | some r =>
          rw [hall] at hserved
          obtain ⟨t, ho, ht, hclosed⟩ := hserved
          have hdisp : t.dispatched = v.requests.map ReqFrame.logged := ht.dispatched
          have hlen : t.dispatched.length = v.requests.length := by
            rw [hdisp, List.length_map]
          rw [ho, Option.bind_some]
          dsimp only
          rw [hlen, ht.node]
          exact listenedAll_cons hall ⟨hdisp, ht.node, ht.responses, ht.outgoing, hclosed⟩
            (ih hrest)
      | none =>
          rw [hall] at hserved
          obtain ⟨t, j, r, f, ho, hf, hbefore, _, ht⟩ := hserved
          obtain ⟨hj, hget⟩ := List.getElem?_eq_some_iff.mp hf
          rw [ho, Option.bind_some]
          refine listenedAll_stopped hall hj hbefore
            ⟨?_, ht.node, ht.responses, ht.outgoing⟩
          rw [List.take_succ_eq_append_getElem hj, hget, List.map_append]
          exact congrArg (· ++ [f.logged]) ht.dispatched

end Listening

end Dicon.Node
