import Dicon.Framework.Linearization
import Dicon.SharedConn.Pairing

/-!
# Calls on a shared connection are linearizable

"All the operations should be thread safe": the functions of the library build a
request, hand it to `dic_atomic_send_recv` and make their result of the response
(`Interface`). However the calls of the threads overlap, what they return is what the
node would return to one thread that made them one after another, and a call that
begins after another one returned comes after it (`shared_conn_linearizable`).

A call takes effect when the node answers its request. By then its thread is between
the send and the end of the receive: the requests are answered in the order in which
they were sent, so the one that is answered is the first of those in flight that were
not (`Placed`).
-/

namespace Dicon.SharedConn

open Framework

universe u v w x y

/-! ## Threads in library functions -/

/-- What the functions of the library are around `dic_atomic_send_recv`. -/
structure Interface (α : Type x) (ρ : Type y) where
  request : α → Request
  result : α → Frame → ρ

/-- The connection, and the function that each thread entered last. -/
structure Callers (τ : Type u) (N : Type v) (α : Type x) where
  conn : State τ N
  inside : τ → Option α

inductive CallerAct (τ : Type u) (ω : Type w) (α : Type x)
  | enter (t : τ) (a : α)
  | step (l : Label τ ω)

variable {τ : Type u} [DecidableEq τ] {N : Type v} {ω : Type w} {α : Type x} {ρ : Type y}

/-- Calls of `dic_atomic_send_recv` come from the functions. -/
def Label.calls : Label τ ω → Bool
  | .client _ (.call _) => true
  | _ => false

def Callers.step? (S : NodeSpec N ω) (caps : Caps) (I : Interface α ρ) (s : Callers τ N α) :
    CallerAct τ ω α → Option (Callers τ N α)
  | .enter t a =>
      (s.conn.client? caps t (.call (I.request a))).map fun conn =>
        ⟨conn, Function.update s.inside t (some a)⟩
  | .step l =>
      if l.calls then none else (s.conn.step? S caps l).map fun conn => { s with conn := conn }

def Callers.start (S : NodeSpec N ω) : Callers τ N α := ⟨.start S, fun _ => none⟩

def callers (τ : Type u) [DecidableEq τ] (S : NodeSpec N ω) (caps : Caps) (I : Interface α ρ) :
    Lts (Callers τ N α) (CallerAct τ ω α) where
  init s := s = .start S
  step s l t := s.step? S caps I l = some t

/-- The calls and returns of the functions. -/
def Callers.seen (I : Interface α ρ) (s : Callers τ N α) :
    CallerAct τ ω α → List (HistoryEvent τ α ρ)
  | .enter t a => [.invoke t a]
  | .step (.client t .unlockRecv) =>
      match s.conn.pc t, s.inside t with
      | .receiving _ (.body head got), some a => [.respond t (I.result a (head, got))]
      | _, _ => []
  | .step _ => []

/-- The node answers only with outcomes that `A` admits. -/
def Admits (A : ω → N → Frame → Prop) (s : Callers τ N α) : CallerAct τ ω α → Prop
  | .step (.node (.respond o)) =>
      ∀ head body, s.conn.node = .handling head body → A o s.conn.remote (head, body)
  | _ => True

/-- The runs in which the outcomes are admitted, with their histories. -/
def histories (τ : Type u) [DecidableEq τ] (S : NodeSpec N ω) (caps : Caps) (I : Interface α ρ)
    (A : ω → N → Frame → Prop) :
    Lts (Callers τ N α × List (HistoryEvent τ α ρ)) (CallerAct τ ω α) :=
  ((callers τ S caps I).restrict (Admits A)).logged (Callers.seen I)

/-- The node by itself, called one function after another. -/
def NodeSpec.object (S : NodeSpec N ω) (τ : Type u) (I : Interface α ρ)
    (A : ω → N → Frame → Prop) : SeqObject N τ α ρ where
  start := S.start
  call _ a o n n' := ∃ w resp, A w n (I.request a).frame ∧
    S.handle w n (I.request a).head (I.request a).body = some (n', resp) ∧
    o = I.result a resp.frame
  drift n n' := ∃ w, S.env w n = some n'

/-! ## Requests in flight -/

section Flights

variable {s : State τ N} {t : τ} {req : Request}

omit [DecidableEq τ] in
theorem mem_recvCalls (h : (t, req) ∈ s.recvCalls) :
    s.recvMut = some t ∧ (s.pc t).recvReq = some req := by
  unfold State.recvCalls at h
  cases hm : s.recvMut with
  | none => simp [hm] at h
  | some u =>
      simp only [hm, Option.elim_some, List.mem_map, Option.mem_toList, Prod.mk.injEq] at h
      obtain ⟨_, hreq, rfl, rfl⟩ := h
      exact ⟨rfl, hreq⟩

omit [DecidableEq τ] in
theorem mem_sendCalls (h : (t, req) ∈ s.sendCalls) :
    s.sendMut = some t ∧ (s.pc t).sendReq = some req := by
  unfold State.sendCalls at h
  cases hm : s.sendMut with
  | none => simp [hm] at h
  | some u =>
      simp only [hm, Option.elim_some, List.mem_map, Option.mem_toList, Prod.mk.injEq] at h
      obtain ⟨_, hreq, rfl, rfl⟩ := h
      exact ⟨rfl, hreq⟩

omit [DecidableEq τ] in
/-- The calls behind those that returned are the two that are in flight. -/
theorem Paired.flight_get (hp : Paired s) {i : ℕ} (hi : s.returned.length ≤ i) :
    s.sent[i]? = (s.recvCalls ++ s.sendCalls)[i - s.returned.length]? := by
  rw [hp.order, List.append_assoc, List.getElem?_append_right (by simpa using hi),
    List.length_map]

omit [DecidableEq τ] in
theorem Paired.flight_pc (hp : Paired s) {i : ℕ} (hi : s.returned.length ≤ i)
    (hsent : s.sent[i]? = some (t, req)) :
    (s.pc t).recvReq = some req ∨ (s.pc t).sendReq = some req := by
  rw [hp.flight_get hi] at hsent
  rcases List.mem_append.mp (List.mem_of_getElem? hsent) with hmem | hmem
  · exact Or.inl (mem_recvCalls hmem).2
  · exact Or.inr (mem_sendCalls hmem).2

omit [DecidableEq τ] in
/-- A thread is in one call at a time. -/
theorem flight_nodup (s : State τ N) : ((s.recvCalls ++ s.sendCalls).map Prod.fst).Nodup := by
  have hone : ∀ (m : Option τ) (f : τ → Option Request),
      ((m.elim [] fun t => (f t).toList.map (t, ·)).map Prod.fst).Nodup := by
    intro m f
    cases m with
    | none => exact List.nodup_nil
    | some t => cases hf : f t <;> simp [hf]
  rw [List.map_append]
  refine List.nodup_append.mpr ⟨hone _ _, hone _ _, ?_⟩
  rintro t ht _ hu rfl
  obtain ⟨⟨_, r⟩, hr, rfl⟩ := List.mem_map.mp ht
  obtain ⟨⟨u, q⟩, hq, rfl⟩ := List.mem_map.mp hu
  have hrecv := (mem_recvCalls hr).2
  have hsend := (mem_sendCalls hq).2
  -- a thread that hands over or receives is not one that sends
  cases hpc : s.pc u <;> simp [hpc, ClientPc.recvReq, ClientPc.sendReq] at hrecv hsend

omit [DecidableEq τ] in
theorem Paired.flight_unique (hp : Paired s) {i j : ℕ} {req' : Request}
    (hi : s.returned.length ≤ i) (hj : s.returned.length ≤ j)
    (hsi : s.sent[i]? = some (t, req)) (hsj : s.sent[j]? = some (t, req')) : i = j := by
  rw [hp.flight_get hi] at hsi
  rw [hp.flight_get hj] at hsj
  have hfi : ((s.recvCalls ++ s.sendCalls).map Prod.fst)[i - s.returned.length]? = some t := by
    rw [List.getElem?_map, hsi]
    rfl
  have hfj : ((s.recvCalls ++ s.sendCalls).map Prod.fst)[j - s.returned.length]? = some t := by
    rw [List.getElem?_map, hsj]
    rfl
  have hlt := (List.getElem?_eq_some_iff.mp hfi).1
  have := (List.getElem?_inj hlt (flight_nodup s)).mp (hfi.trans hfj.symm)
  omega

omit [DecidableEq τ] in
theorem Paired.answered_le (hp : Paired s) : s.answered.length ≤ s.sent.length := by
  obtain ⟨todo, htodo, _⟩ := hp.requests
  have hlen := congrArg List.length htodo
  simp only [List.length_map, List.length_append] at hlen
  omega

omit [DecidableEq τ] in
theorem Paired.returned_le (hp : Paired s) : s.returned.length ≤ s.answered.length := by
  obtain ⟨due, hdue, _⟩ := hp.responses
  have hlen := congrArg List.length hdue
  simp only [List.length_map, List.length_append] at hlen
  omega

omit [DecidableEq τ] in
/-- The request that the node handles is the first one that it has not answered. -/
theorem Paired.handled_get (hp : Paired s) {head body : List UInt8}
    (hnode : s.node = .handling head body) :
    ∃ t req, s.sent[s.answered.length]? = some (t, req) ∧ req.frame = (head, body) := by
  obtain ⟨todo, htodo, _⟩ := hp.requests
  have hget : (s.sent.map (·.2.frame))[s.answered.length]? = some (head, body) := by
    rw [htodo, hnode, List.append_assoc, List.getElem?_append_right (by simp), List.length_map,
      Nat.sub_self]
    rfl
  rw [List.getElem?_map, Option.map_eq_some_iff] at hget
  obtain ⟨⟨t, req⟩, hsent, hframe⟩ := hget
  exact ⟨t, req, hsent, hframe⟩

omit [DecidableEq τ] in
/-- The call that returns next is the first one that did not return yet. -/
theorem Paired.receiver_get (hp : Paired s) {reader : Reader UInt8}
    (hpc : s.pc t = .receiving req reader) : s.sent[s.returned.length]? = some (t, req) := by
  have hr : s.recvMut = some t := (hp.recvOwner t).mp (by rw [hpc]; rfl)
  have hrc : s.recvCalls = [(t, req)] := by simp [State.recvCalls, hr, hpc, ClientPc.recvReq]
  rw [hp.flight_get le_rfl, hrc, Nat.sub_self]
  rfl

end Flights

/-! ## Where the calls are -/

/-- A call in flight is done if it was answered, and its result is what the function
makes of that answer. -/
structure Placed (I : Interface α ρ) (s : Callers τ N α) (phase : τ → Phase α ρ) : Prop where
  idle : ∀ t, s.conn.pc t = .idle → phase t = .idle
  waiting : ∀ t req, s.conn.pc t = .lockSend req →
    ∃ a, s.inside t = some a ∧ I.request a = req ∧ phase t = .called a
  flying : ∀ i t req, s.conn.returned.length ≤ i → s.conn.sent[i]? = some (t, req) →
    ∃ a, s.inside t = some a ∧ I.request a = req ∧
      phase t = (s.conn.answered[i]?).elim (.called a) fun x => .done a (I.result a x.2.frame)

section Steps

variable {S : NodeSpec N ω} {caps : Caps} {I : Interface α ρ} {A : ω → N → Frame → Prop}
variable {s : Callers τ N α} {conn : State τ N} {phase : τ → Phase α ρ} {t : τ}

omit [DecidableEq τ] in
theorem placed_start : Placed I (.start S : Callers τ N α) fun _ => .idle where
  idle _ _ := rfl
  waiting _ _ h := by cases h
  flying _ _ _ _ h := by cases h

/-- A thread moves inside of a call. -/
theorem Placed.move (hs : Placed I s phase) {pc : ClientPc}
    (hpc : conn.pc = Function.update s.conn.pc t pc) (hidle : pc ≠ .idle)
    (hwait : ∀ req, pc ≠ .lockSend req) (hsent : conn.sent = s.conn.sent)
    (hans : conn.answered = s.conn.answered) (hret : conn.returned = s.conn.returned) :
    Placed I { s with conn := conn } phase where
  idle u hu := by
    by_cases hut : u = t
    · subst hut
      exact absurd (by simpa [hpc] using hu) hidle
    · exact hs.idle u (by simpa [hpc, hut] using hu)
  waiting u req hu := by
    by_cases hut : u = t
    · subst hut
      exact absurd (by simpa [hpc] using hu) (hwait req)
    · exact hs.waiting u req (by simpa [hpc, hut] using hu)
  flying i u req := by
    show conn.returned.length ≤ i → conn.sent[i]? = _ → _
    rw [hret, hsent]
    show _ → _ → ∃ a, _ ∧ _ ∧ phase u = (conn.answered[i]?).elim _ _
    rw [hans]
    exact hs.flying i u req

omit [DecidableEq τ] in
/-- Nothing that the placement looks at changes. -/
theorem Placed.congr (hs : Placed I s phase) (hpc : conn.pc = s.conn.pc)
    (hsent : conn.sent = s.conn.sent) (hans : conn.answered = s.conn.answered)
    (hret : conn.returned = s.conn.returned) : Placed I { s with conn := conn } phase where
  idle u hu := hs.idle u (hpc ▸ hu)
  waiting u req hu := hs.waiting u req (hpc ▸ hu)
  flying i u req := by
    show conn.returned.length ≤ i → conn.sent[i]? = _ → _
    rw [hret, hsent]
    show _ → _ → ∃ a, _ ∧ _ ∧ phase u = (conn.answered[i]?).elim _ _
    rw [hans]
    exact hs.flying i u req

theorem Placed.enter (hs : Placed I s phase) (hp : Paired s.conn) {a : α}
    (hidle : s.conn.pc t = .idle) :
    Placed I ⟨s.conn.setPc t (.lockSend (I.request a)), Function.update s.inside t (some a)⟩
      (Function.update phase t (.called a)) where
  idle u hu := by
    by_cases hut : u = t
    · subst hut
      simp at hu
    · rw [Function.update_of_ne hut]
      exact hs.idle u (by simpa [setPc_pc_of_ne _ hut] using hu)
  waiting u req hu := by
    by_cases hut : u = t
    · subst hut
      simp only [setPc_pc_self, ClientPc.lockSend.injEq] at hu
      exact ⟨a, by simp, hu, by simp⟩
    · simp only [Function.update_of_ne hut]
      exact hs.waiting u req (by simpa [setPc_pc_of_ne _ hut] using hu)
  flying i u req hi hsent := by
    -- a thread whose request is in flight is not idle
    have hut : u ≠ t := by
      rintro rfl
      rcases hp.flight_pc hi hsent with h | h <;> rw [hidle] at h <;> cases h
    simp only [Function.update_of_ne hut]
    exact hs.flying i u req hi hsent

/-- The request joins those in flight, unanswered. -/
theorem Placed.lockSend (hs : Placed I s phase) (hp : Paired s.conn) {req : Request}
    (hpc : s.conn.pc t = .lockSend req) :
    Placed I { s with conn := { s.conn.setPc t (.sending req req.bytes) with
      sendMut := some t, sent := s.conn.sent ++ [(t, req)] } } phase where
  idle u hu := by
    by_cases hut : u = t
    · subst hut
      simp [State.setPc] at hu
    · exact hs.idle u (by simpa [State.setPc, hut] using hu)
  waiting u req' hu := by
    by_cases hut : u = t
    · subst hut
      simp [State.setPc] at hu
    · exact hs.waiting u req' (by simpa [State.setPc, hut] using hu)
  flying i u req' hi hsent := by
    have hle := hp.answered_le
    rcases Nat.lt_or_ge i s.conn.sent.length with hlt | hge
    · have hold : s.conn.sent[i]? = some (u, req') := by
        rw [← hsent]
        exact (List.getElem?_append_left hlt).symm
      exact hs.flying i u req' hi hold
    · have hnew : (u, req') = (t, req) := by
        have hmem := hsent
        rw [show _ = (s.conn.sent ++ [(t, req)])[i]? from rfl, List.getElem?_append_right hge]
          at hmem
        exact List.mem_singleton.mp (List.mem_of_getElem? hmem)
      cases hnew
      obtain ⟨a, hin, hreq, hphase⟩ := hs.waiting t req hpc
      have hnone : s.conn.answered[i]? = none := List.getElem?_eq_none (by omega)
      exact ⟨a, hin, hreq, by rw [hphase]; show _ = (s.conn.answered[i]?).elim _ _; rw [hnone]; rfl⟩

/-- The call of `t` is over. -/
theorem Placed.unlockRecv (hs : Placed I s phase) (hp : Paired s.conn) {req : Request}
    {head got : List UInt8} (hpc : s.conn.pc t = .receiving req (.body head got)) :
    Placed I { s with conn := { s.conn.setPc t .idle with
      recvMut := none, returned := s.conn.returned ++ [⟨(t, req), (head, got)⟩] } }
      (Function.update phase t .idle) where
  idle u hu := by
    by_cases hut : u = t
    · subst hut
      simp
    · rw [Function.update_of_ne hut]
      exact hs.idle u (by simpa [State.setPc, hut] using hu)
  waiting u req' hu := by
    by_cases hut : u = t
    · subst hut
      simp [State.setPc] at hu
    · simp only [Function.update_of_ne hut]
      exact hs.waiting u req' (by simpa [State.setPc, hut] using hu)
  flying i u req' hi hsent := by
    have hi' : s.conn.returned.length + 1 ≤ i := by simpa using hi
    have hut : u ≠ t := by
      rintro rfl
      have := hp.flight_unique (by omega) le_rfl hsent (hp.receiver_get hpc)
      omega
    simp only [Function.update_of_ne hut]
    exact hs.flying i u req' (by omega) hsent

/-- The node answers the request of `t`. -/
theorem Placed.respond (hs : Placed I s phase) (hp : Paired s.conn) {a : α} {req : Request}
    {remote : N} {frame : Frame} {resp : Response} {node : NodePc}
    (hsent : s.conn.sent[s.conn.answered.length]? = some (t, req)) (hin : s.inside t = some a) :
    Placed I { s with conn := { s.conn with
      node := node, remote := remote, answered := s.conn.answered ++ [(frame, resp)] } }
      (Function.update phase t (.done a (I.result a resp.frame))) where
  idle u hu := by
    have hut : u ≠ t := by
      rintro rfl
      rcases hp.flight_pc hp.returned_le hsent with h | h <;>
        rw [show s.conn.pc u = .idle from hu] at h <;> cases h
    rw [Function.update_of_ne hut]
    exact hs.idle u hu
  waiting u req' hu := by
    have hut : u ≠ t := by
      rintro rfl
      rcases hp.flight_pc hp.returned_le hsent with h | h <;>
        rw [show s.conn.pc u = .lockSend req' from hu] at h <;> cases h
    simp only [Function.update_of_ne hut]
    exact hs.waiting u req' hu
  flying i u req' hi hsent' := by
    obtain ⟨b, hinb, hreq, hphase⟩ := hs.flying i u req' hi hsent'
    by_cases hut : u = t
    · subst hut
      obtain rfl := hp.flight_unique hi hp.returned_le hsent' hsent
      rw [hin] at hinb
      cases hinb
      exact ⟨a, hin, hreq, by simp⟩
    · refine ⟨b, hinb, hreq, ?_⟩
      rw [Function.update_of_ne hut, hphase]
      have hne : i ≠ s.conn.answered.length := by
        rintro rfl
        exact hut (congrArg Prod.fst (Option.some.inj (hsent'.symm.trans hsent)))
      rcases Nat.lt_or_ge i s.conn.answered.length with hlt | hge
      · rw [List.getElem?_append_left hlt]
      · rw [List.getElem?_eq_none hge, List.getElem?_eq_none (by simp; omega)]

/-! ## The simulation -/

/-- The object can have left the history, and the calls are where they should be. -/
def Explained (S : NodeSpec N ω) (I : Interface α ρ) (A : ω → N → Frame → Prop)
    (s : Callers τ N α) (h : List (HistoryEvent τ α ρ)) : Prop :=
  ∃ phase es, Placed I s phase ∧ Atomic (S.object τ I A) phase s.conn.remote es h

variable {s' : Callers τ N α} {h : List (HistoryEvent τ α ρ)}

theorem explained_enter (hp : Paired s.conn) (hx : Explained S I A s h) {a : α}
    (hstep : s.step? S caps I (.enter t a) = some s') :
    Explained S I A s' (h ++ [.invoke t a]) := by
  obtain ⟨phase, es, hs, ha⟩ := hx
  obtain ⟨conn, hconn, rfl⟩ := Option.map_eq_some_iff.mp hstep
  cases client_effect hconn with
  | call hidle => exact ⟨_, es, hs.enter hp hidle, ha.invoke a (hs.idle t hidle)⟩

/-- A thread inside of a call: only its return is seen. -/
theorem explained_client (hp : Paired s.conn) (hp' : Paired conn) (hx : Explained S I A s h)
    {act : ClientAct} (hact : ∀ req, act ≠ .call req)
    (he : ClientEffect caps s.conn t act conn) :
    Explained S I A { s with conn := conn }
      (h ++ s.seen I (.step (.client t act : Label τ ω))) := by
  obtain ⟨phase, es, hs, ha⟩ := hx
  have hquiet : act ≠ .unlockRecv → s.seen I (.step (.client t act : Label τ ω)) = [] := by
    intro hne
    cases act <;> first | rfl | exact absurd rfl hne
  cases he with
  | call => exact absurd rfl (hact _)
  | lockSend hpc =>
      rw [hquiet (by simp), List.append_nil]
      exact ⟨phase, es, hs.lockSend hp hpc, ha⟩
  | send | lockRecv | unlockSend | recv | headDone =>
      rw [hquiet (by simp), List.append_nil]
      exact ⟨phase, es, hs.move (t := t) rfl (by simp) (by simp) rfl rfl rfl, ha⟩
  | @unlockRecv req head got hpc =>
      have hsent := hp.receiver_get hpc
      obtain ⟨a, hin, _, hphase⟩ := hs.flying _ t req le_rfl hsent
      -- what was received is the answer to this call
      have hlast : (s.conn.returned ++ [(⟨(t, req), (head, got)⟩ : Return τ)])[
          s.conn.returned.length]? = some ⟨(t, req), (head, got)⟩ := by
        simp
      obtain ⟨resp, _, hans, hgot⟩ := hp'.returned_get hlast
      rw [show s.conn.answered[s.conn.returned.length]? = _ from hans] at hphase
      have hseen : s.seen I (.step (.client t .unlockRecv : Label τ ω)) =
          [.respond t (I.result a resp.frame)] := by
        rw [← show (head, got) = resp.frame from hgot]
        simp [Callers.seen, hpc, hin]
      rw [hseen]
      exact ⟨_, es, hs.unlockRecv hp hpc, ha.respond hphase⟩

/-- The node: a call takes effect where its request is answered. -/
theorem explained_node (hp : Paired s.conn) (hx : Explained S I A s h) {act : NodeAct ω}
    (hadm : Admits A s (.step (.node act))) (he : NodeEffect S caps s.conn act conn) :
    Explained S I A { s with conn := conn } h := by
  obtain ⟨phase, es, hs, ha⟩ := hx
  cases he with
  | recv | headDone | dispatch | send | sendDone =>
      exact ⟨phase, es, hs.congr rfl rfl rfl rfl, ha⟩
  | @respond w head body remote resp hnode hhandle =>
      obtain ⟨t, req, hsent, hframe⟩ := hp.handled_get hnode
      obtain ⟨a, hin, hreq, hphase⟩ := hs.flying _ t req hp.returned_le hsent
      rw [List.getElem?_eq_none le_rfl] at hphase
      have hhead : ReqHead.ofBytes head = (I.request a).head := by
        have hbytes : req.head.bytes = head := congrArg Prod.fst hframe
        rw [hreq, ← hbytes, ReqHead.ofBytes_bytes]
      have hbody : body = (I.request a).body := by
        rw [hreq]
        exact (congrArg Prod.snd hframe).symm
      have hcall : (S.object τ I A).call t a (I.result a resp.frame) s.conn.remote remote := by
        refine ⟨w, resp, ?_, ?_, rfl⟩
        · rw [hreq, hframe]
          exact hadm head body hnode
        · rw [← hhead, ← hbody]
          exact hhandle
      exact ⟨_, _, hs.respond hp hsent hin, ha.effect hphase hcall⟩

theorem explained_step (hp : Paired s.conn) (hx : Explained S I A s h) {l : CallerAct τ ω α}
    (hadm : Admits A s l) (hstep : (callers τ S caps I).step s l s') :
    Paired s'.conn ∧ Explained S I A s' (h ++ s.seen I l) := by
  cases l with
  | enter t a =>
      obtain ⟨conn, hconn, rfl⟩ := Option.map_eq_some_iff.mp hstep
      exact ⟨hp.client (client_effect hconn), explained_enter hp hx hstep⟩
  | step l =>
      have hcalls : l.calls = false := by
        cases hl : l.calls with
        | false => rfl
        | true => simp [callers, Callers.step?, hl] at hstep
      simp only [callers, Callers.step?, hcalls, Bool.false_eq_true, if_false] at hstep
      obtain ⟨conn, hconn, rfl⟩ := Option.map_eq_some_iff.mp hstep
      have hp' : Paired conn := hp.step hconn
      refine ⟨hp', ?_⟩
      rcases step_cases hconn with ⟨t, act, rfl, he⟩ | ⟨act, rfl, he⟩ | ⟨o, remote, rfl, henv, rfl⟩
      · refine explained_client hp hp' hx (fun req hreq => ?_) he
        subst hreq
        cases hcalls
      · simpa [Callers.seen] using explained_node hp hx hadm he
      · obtain ⟨phase, es, hs, ha⟩ := hx
        have hdrift : (S.object τ I A).drift s.conn.remote remote := ⟨o, henv⟩
        simp only [Callers.seen, List.append_nil]
        exact ⟨phase, es, hs.congr rfl rfl rfl rfl, ha.drift hdrift⟩

/-- Every history of the threads is one of the node by itself. -/
theorem explained {p : Callers τ N α × List (HistoryEvent τ α ρ)}
    (hr : (histories τ S caps I A).Reachable p) : Paired p.1.conn ∧ Explained S I A p.1 p.2 := by
  apply hr.invariant
  · rintro ⟨s, h⟩ ⟨rfl, rfl⟩
    exact ⟨paired_start, _, [], placed_start, .start⟩
  · rintro ⟨s, h⟩ l ⟨s', h'⟩ ⟨hp, hx⟩ ⟨⟨hadm, hstep⟩, rfl⟩
    exact explained_step hp hx hadm hstep

end Steps

/-- For any number of threads, any interleaving, any cut of the messages and any node:
the calls of library functions on one connection, and what they return, are
linearizable. The node in its present state is the one that the order of the calls
leads to, and where a call returned before another one was made, it comes first. -/
theorem shared_conn_linearizable {S : NodeSpec N ω} {caps : Caps} {I : Interface α ρ}
    {A : ω → N → Frame → Prop} {s : Callers τ N α} {h : List (HistoryEvent τ α ρ)}
    (hr : (histories τ S caps I A).Reachable (s, h)) :
    ∃ es, Linearization (S.object τ I A) h es s.conn.remote := by
  obtain ⟨_, phase, es, _, ha⟩ := explained hr
  exact ⟨es, ha.linearization⟩

/-- Threads that send requests as they are and return the whole response. -/
def plain : Interface Request Frame := ⟨id, fun _ got => got⟩

/-- The two overlapping calls, with their entries into functions. -/
def overlappingFunctions : List (CallerAct Bool Unit Request) :=
  [.enter true mallocZeros, .enter false freeZeros] ++ (overlappingCalls.drop 2).map .step

theorem shared_conn_linearizable_run :
    ∃ s h, (histories Bool zeroNode ⟨16, 16⟩ plain fun _ _ _ => True).Reachable (s, h) ∧
      s.conn.returned.length = 1 ∧
      ∃ es, Linearization (zeroNode.object Bool plain fun _ _ _ => True) h es s.conn.remote := by
  have hrun : (Lts.exec (Callers.step? zeroNode ⟨16, 16⟩ plain) (fun _ _ => true)
      (.start zeroNode) overlappingFunctions).any
        (fun s => decide (s.conn.returned.length = 1)) = true := by
    decide +kernel
  obtain ⟨s, hs, htest⟩ := (Option.any_eq_true _ _).mp hrun
  have hstart : ((callers Bool zeroNode ⟨16, 16⟩ plain).restrict
      (Admits fun _ _ _ => True)).Reachable (.start zeroNode) := .init rfl
  have hadm : ∀ (s : Callers Bool Unit Request) (l : CallerAct Bool Unit Request),
      true = true → Admits (fun _ _ _ => True) s l := by
    intro s l _
    unfold Admits
    split <;> simp
  obtain ⟨h, hreach⟩ : ∃ h, (histories Bool zeroNode ⟨16, 16⟩ plain
      fun _ _ _ => True).Reachable (s, h) :=
    (Lts.Reachable.of_exec (fun _ _ _ h => h) hadm hstart hs).exists_log
  exact ⟨s, h, hreach, of_decide_eq_true htest, shared_conn_linearizable hreach⟩

end Dicon.SharedConn
