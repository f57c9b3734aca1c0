import Dicon.SharedConn.Pairing

/-!
# The shared connection does not deadlock

A sender blocked on `recv_mut` waits for a receiver, a receiver waits for the
node, and the node waits for a sender or, with its own send buffer full, for a
receiver. `serves_or_handling` excludes the circle: what is on the wire tells
who is to move (`Paired`), so as long as a call is going on, a thread or the
node can move unless the node is inside a handler. What the handlers do then
decides: with requests that are always answered there is no deadlock
(`ordinary_requests_progress`).
-/

namespace Dicon.SharedConn

open Framework

universe u v w

variable {τ : Type u} [DecidableEq τ] {N : Type v} {ω : Type w}
variable {S : NodeSpec N ω} {caps : Caps} {s : State τ N}

/-! ## Who can move -/

theorem can_of_client (t : τ) (a : ClientAct) (ha : ∀ req, a ≠ .call req)
    (h : (s.client? caps t a).isSome) : (sharedConn τ S caps).Can Label.serves s := by
  obtain ⟨s', hs'⟩ := Option.isSome_iff_exists.mp h
  refine ⟨.client t a, s', ?_, hs'⟩
  cases a with
  | call req => exact absurd rfl (ha req)
  | _ => trivial

theorem can_of_node (a : NodeAct ω) (h : (s.node? S caps a).isSome) :
    (sharedConn τ S caps).Can Label.serves s := by
  obtain ⟨s', hs'⟩ := Option.isSome_iff_exists.mp h
  exact ⟨.node a, s', trivial, hs'⟩

section Moves

variable (S : NodeSpec N ω) (caps : Caps)

/-- The owner of `recv_mut` moves, or waits for bytes that are not there. -/
theorem receiver_moves (hp : Paired s) {t : τ} (hr : s.recvMut = some t) :
    (sharedConn τ S caps).Can Label.serves s ∨
      ∃ req reader, s.pc t = .receiving req reader ∧ 0 < reader.need respFraming ∧
        s.toClient = [] := by
  have hholds := (hp.recvOwner t).mpr hr
  cases hpc : s.pc t with
  | handOver req =>
      exact Or.inl (can_of_client t .unlockSend (by simp) (by simp [State.client?, hpc]))
  | receiving req reader =>
      by_cases hneed : reader.need respFraming = 0
      · cases reader with
        | head got =>
            exact Or.inl (can_of_client t .headDone (by simp)
              (by simp [State.client?, hpc, hneed]))
        | body head got =>
            exact Or.inl (can_of_client t .unlockRecv (by simp)
              (by simp [State.client?, hpc, hneed]))
      · by_cases hempty : s.toClient = []
        · exact Or.inr ⟨req, reader, rfl, by omega, hempty⟩
        · have hlen := List.length_pos_iff.mpr hempty
          have hk : 0 < 1 ∧ 1 ≤ reader.need respFraming ∧ 1 ≤ s.toClient.length := by omega
          exact Or.inl (can_of_client t (.recv 1) (by simp)
            (by simp [State.client?, hpc, hk]))
  | _ =>
      rw [hpc] at hholds
      cases hholds

/-- The owner of `send_mut` moves, or waits for `recv_mut`, or for room. -/
theorem sender_moves (hp : Paired s) {t : τ} (hs : s.sendMut = some t) :
    (sharedConn τ S caps).Can Label.serves s ∨
      ∃ req rest, s.pc t = .sending req rest ∧
        (rest = [] ∧ s.recvMut ≠ none ∨ rest ≠ [] ∧ caps.toNode ≤ s.toNode.length) := by
  have hholds := (hp.sendOwner t).mpr hs
  cases hpc : s.pc t with
  | handOver req =>
      exact Or.inl (can_of_client t .unlockSend (by simp) (by simp [State.client?, hpc]))
  | sending req rest =>
      by_cases hrest : rest = []
      · subst hrest
        by_cases hr : s.recvMut = none
        · exact Or.inl (can_of_client t .lockRecv (by simp)
            (by simp [State.client?, hpc, hr]))
        · exact Or.inr ⟨req, [], rfl, Or.inl ⟨rfl, hr⟩⟩
      · by_cases hroom : caps.toNode ≤ s.toNode.length
        · exact Or.inr ⟨req, rest, rfl, Or.inr ⟨hrest, hroom⟩⟩
        · have hlen := List.length_pos_iff.mpr hrest
          have hk : 0 < 1 ∧ 1 ≤ rest.length ∧ s.toNode.length + 1 ≤ caps.toNode := by omega
          exact Or.inl (can_of_client t (.send 1) (by simp)
            (by simp [State.client?, hpc, hk]))
  | _ =>
      rw [hpc] at hholds
      cases hholds

omit [DecidableEq τ] in
/-- The node in its two receives moves, or waits for bytes that are not there. -/
theorem node_reads {reader : Reader UInt8} (hnode : s.node = .reading reader) :
    (∃ a, (s.node? S caps a).isSome) ∨ 0 < reader.need reqFraming ∧ s.toNode = [] := by
  by_cases hneed : reader.need reqFraming = 0
  · cases reader with
    | head got => exact Or.inl ⟨.headDone, by simp [State.node?, hnode, hneed]⟩
    | body head got => exact Or.inl ⟨.dispatch, by simp [State.node?, hnode, hneed]⟩
  · by_cases hempty : s.toNode = []
    · exact Or.inr ⟨by omega, hempty⟩
    · have hlen := List.length_pos_iff.mpr hempty
      have hk : 0 < 1 ∧ 1 ≤ reader.need reqFraming ∧ 1 ≤ s.toNode.length := by omega
      exact Or.inl ⟨.recv 1, by simp [State.node?, hnode, hk]⟩

omit [DecidableEq τ] in
/-- The node in its send moves, or waits for room. -/
theorem node_sends {rest : List UInt8} (hnode : s.node = .sending rest) :
    (∃ a, (s.node? S caps a).isSome) ∨ caps.toClient ≤ s.toClient.length := by
  by_cases hrest : rest = []
  · subst hrest
    exact Or.inl ⟨.sendDone, by simp [State.node?, hnode]⟩
  · by_cases hroom : caps.toClient ≤ s.toClient.length
    · exact Or.inr hroom
    · have hlen := List.length_pos_iff.mpr hrest
      have hk : 0 < 1 ∧ 1 ≤ rest.length ∧ s.toClient.length + 1 ≤ caps.toClient := by omega
      exact Or.inl ⟨.send 1, by simp [State.node?, hnode, hk]⟩

end Moves

/-! ## What the logs say about who is waited for -/

section Counts

omit [DecidableEq τ]

/-- Everything that is not returned was sent by one of the two owners. -/
theorem Paired.length_sent (hp : Paired s) :
    s.sent.length = s.returned.length + s.recvCalls.length + s.sendCalls.length := by
  have h := congrArg List.length hp.order
  simpa only [List.length_append, List.length_map] using h

theorem recvCalls_length_of_receiving {t : τ} {req : Request} {reader : Reader UInt8}
    (hr : s.recvMut = some t) (hpc : s.pc t = .receiving req reader) :
    s.recvCalls.length = 1 := by
  simp [State.recvCalls, hr, hpc, ClientPc.recvReq]

/-- While `recv_mut` is free, no response waits on the wire, unless the sender
has sent its request. -/
theorem sender_done (hp : Paired s) (hr : s.recvMut = none) (hwire : s.toClient ≠ []) :
    ∃ t req, s.sendMut = some t ∧ s.pc t = .sending req [] := by
  obtain ⟨todo, htodo, hout⟩ := hp.requests
  obtain ⟨due, hdue, hback⟩ := hp.responses
  have hreqs := congrArg List.length htodo
  have hresps := congrArg List.length hdue
  have hsent := hp.length_sent
  simp only [List.length_map, List.length_append] at hreqs hresps
  have hrc : s.recvCalls.length = 0 := by simp [State.recvCalls, hr]
  have hdue0 : due.length ≠ 0 := by
    intro h0
    rw [List.eq_nil_of_length_eq_zero h0, Framing.spell_nil] at hback
    exact hwire (List.append_eq_nil_iff.mp (List.append_eq_nil_iff.mp hback.symm).1).2
  cases hs : s.sendMut with
  | none =>
      have hsc : s.sendCalls.length = 0 := by simp [State.sendCalls, hs]
      omega
  | some t =>
      have hholds := (hp.sendOwner t).mpr hs
      cases hpc : s.pc t with
      | sending req rest =>
          have hsc : s.sendCalls.length = 1 := by
            simp [State.sendCalls, hs, hpc, ClientPc.sendReq]
          have htodo0 : todo = [] := List.eq_nil_of_length_eq_zero (by omega)
          rw [htodo0, Framing.spell_nil] at hout
          have hunsent : s.unsent = [] := (List.append_eq_nil_iff.mp hout.symm).2
          have hrest : rest = [] := by
            simpa [State.unsent, hs, hpc, ClientPc.unsent] using hunsent
          subst hrest
          exact ⟨t, req, rfl, hpc⟩
      | handOver req =>
          have hrecv := (hp.recvOwner t).mp (by rw [hpc]; rfl)
          rw [hr] at hrecv
          cases hrecv
      | _ =>
          rw [hpc] at hholds
          cases hholds

/-- The node waits for a request and the receiver for a response: then nothing
was sent that is not returned. -/
theorem none_waiting (hp : Paired s) {reader : Reader UInt8} (hnode : s.node = .reading reader)
    (hneed : 0 < reader.need reqFraming) (hwire : s.toNode = []) (hunsent : s.unsent = [])
    {t : τ} {req : Request} {reader' : Reader UInt8} (hr : s.recvMut = some t)
    (hpc : s.pc t = .receiving req reader') (hneed' : 0 < reader'.need respFraming)
    (hback : s.toClient = []) : False := by
  obtain ⟨todo, hreq⟩ := hp.requests
  obtain ⟨due, hresp⟩ := hp.responses
  have htodo : todo = [] := by
    refine frames_nil (fun f hf => isFrame_of_requested hreq hf) (hp.nodeReader _ hnode) hneed ?_
    rw [hreq.2, hwire, hunsent, hnode]
    simp [NodePc.readBytes]
  have hdue : due = [] := by
    refine frames_nil (fun f hf => isFrame_of_responded hresp hf)
      (hp.clientReader _ _ _ hpc) hneed' ?_
    rw [hresp.2, hback, hnode]
    simp [State.readBytes, hr, hpc, ClientPc.readBytes, NodePc.unsent]
  -- all was answered and returned, but the receiver has not returned: the counts differ
  have hreqs := congrArg List.length hreq.1
  have hresps := congrArg List.length hresp.1
  have hsent := hp.length_sent
  have hrc := recvCalls_length_of_receiving hr hpc
  simp only [List.length_map, List.length_append, htodo, hdue, hnode, NodePc.handled,
    List.length_nil] at hreqs hresps
  omega

end Counts

/-! ## Progress -/

/-- With both mutexes free, a thread inside a call is about to take `send_mut`. -/
theorem free_moves (hp : Paired s) (hs : s.sendMut = none) (hr : s.recvMut = none)
    (hbusy : ∃ t, s.pc t ≠ .idle) : (sharedConn τ S caps).Can Label.serves s := by
  obtain ⟨t, ht⟩ := hbusy
  have hsend := hp.sendOwner t
  have hrecv := hp.recvOwner t
  rw [hs] at hsend
  rw [hr] at hrecv
  cases hpc : s.pc t with
  | idle => exact absurd hpc ht
  | lockSend req => exact can_of_client t .lockSend (by simp) (by simp [State.client?, hpc, hs])
  | sending req rest => simp [hpc, ClientPc.holdsSend] at hsend
  | handOver req => simp [hpc, ClientPc.holdsSend] at hsend
  | receiving req reader => simp [hpc, ClientPc.holdsRecv] at hrecv

/-- A node that is sending moves, or its buffer is full of a response: then the
thread that is to receive it moves. -/
theorem sending_moves (hp : Paired s) (hcap : 1 ≤ caps.toClient) {rest : List UInt8}
    (hnode : s.node = .sending rest) : (sharedConn τ S caps).Can Label.serves s := by
  rcases node_sends S caps hnode with ⟨a, hstep⟩ | hfull
  · exact can_of_node a hstep
  · have hne : s.toClient ≠ [] := List.length_pos_iff.mp (by omega)
    cases hr : s.recvMut with
    | some t =>
        rcases receiver_moves S caps hp hr with hcan | ⟨_, _, _, _, hempty⟩
        · exact hcan
        · exact absurd hempty hne
    | none =>
        obtain ⟨t, req, hs, hpc⟩ := sender_done hp hr hne
        rcases sender_moves S caps hp hs with hcan | ⟨_, _, hpc', ⟨_, hrecv⟩ | ⟨hrest, _⟩⟩
        · exact hcan
        · exact absurd hr hrecv
        · rw [hpc] at hpc'
          cases hpc'
          exact absurd rfl hrest

/-- While nothing waits for the node, the sender moves, or it has sent everything
and waits for `recv_mut`. -/
theorem sender_waits (hp : Paired s) (hcap : 1 ≤ caps.toNode) (hempty : s.toNode = []) :
    (sharedConn τ S caps).Can Label.serves s ∨
      s.unsent = [] ∧ (s.sendMut ≠ none → s.recvMut ≠ none) := by
  cases hs : s.sendMut with
  | none => exact Or.inr ⟨by simp [State.unsent, hs], fun h => absurd rfl h⟩
  | some t =>
      rcases sender_moves S caps hp hs with hcan | ⟨req, rest, hpc, ⟨rfl, hrecv⟩ | ⟨_, hroom⟩⟩
      · exact Or.inl hcan
      · exact Or.inr ⟨by simp [State.unsent, hs, hpc, ClientPc.unsent], fun _ => hrecv⟩
      · rw [hempty, List.length_nil] at hroom
        omega

/-- A node that waits for a request, and a thread inside a call. -/
theorem reading_moves (hp : Paired s) (hcap : 1 ≤ caps.toNode) (hbusy : ∃ t, s.pc t ≠ .idle)
    {reader : Reader UInt8} (hnode : s.node = .reading reader) :
    (sharedConn τ S caps).Can Label.serves s := by
  rcases node_reads S caps hnode with ⟨a, hstep⟩ | ⟨hneed, hempty⟩
  · exact can_of_node a hstep
  · rcases sender_waits (S := S) hp hcap hempty with hcan | ⟨hunsent, hqueue⟩
    · exact hcan
    · cases hr : s.recvMut with
      | some t =>
          rcases receiver_moves S caps hp hr with hcan | ⟨req, reader', hpc, hneed', hback⟩
          · exact hcan
          · exact absurd (none_waiting hp hnode hneed hempty hunsent hr hpc hneed' hback) id
      | none =>
          have hs : s.sendMut = none := by
            by_contra hne
            exact hqueue hne hr
          exact free_moves hp hs hr hbusy

/-- While a call is going on, a thread or the node can move, unless the node is
inside a handler. -/
theorem serves_or_handling (hp : Paired s) (hcap : 1 ≤ caps.toNode) (hcap' : 1 ≤ caps.toClient)
    (hbusy : ∃ t, s.pc t ≠ .idle) :
    (sharedConn τ S caps).Can Label.serves s ∨ ∃ head body, s.node = .handling head body := by
  cases hnode : s.node with
  | handling head body => exact Or.inr ⟨head, body, rfl⟩
  | sending rest => exact Or.inl (sending_moves hp hcap' hnode)
  | reading reader => exact Or.inl (reading_moves hp hcap hbusy hnode)

/-- The calls of a run are of requests that `p` admits. -/
def Calls (p : Request → Prop) (_ : State τ N) (l : Label τ ω) : Prop :=
  ∀ t req, l = .client t (.call req) → p req

/-- Every request on its way is one of a call. -/
structure Admitted (p : Request → Prop) (s : State τ N) : Prop where
  sent : ∀ call ∈ s.sent, p call.2
  waiting : ∀ t req, s.pc t = .lockSend req → p req

theorem Admitted.client {p : Request → Prop} {s' : State τ N} {t : τ} {a : ClientAct}
    (ha : Admitted p s) (hp : ∀ req, a = .call req → p req)
    (he : ClientEffect caps s t a s') : Admitted p s' := by
  have hmove : ∀ {pc : ClientPc}, (∀ req, pc = .lockSend req → p req) →
      ∀ u req, (s.setPc t pc).pc u = .lockSend req → p req := by
    intro pc hpc u req hu
    by_cases hut : u = t
    · subst hut
      rw [setPc_pc_self] at hu
      exact hpc req hu
    · rw [setPc_pc_of_ne s hut] at hu
      exact ha.waiting u req hu
  cases he with
  | call =>
      refine ⟨ha.sent, hmove fun req h => ?_⟩
      cases h
      exact hp _ rfl
  | @lockSend req hpc =>
      refine ⟨fun call hmem => ?_, hmove fun _ h => by cases h⟩
      rcases List.mem_append.mp hmem with hmem | hmem
      · exact ha.sent call hmem
      · rw [List.mem_singleton.mp hmem]
        exact ha.waiting t req hpc
  | send | lockRecv | unlockSend | recv | headDone | unlockRecv =>
      exact ⟨ha.sent, hmove fun _ h => by cases h⟩

theorem admitted {p : Request → Prop}
    (h : ((sharedConn τ S caps).restrict (Calls p)).Reachable s) : Admitted p s := by
  apply h.invariant
  · rintro _ rfl
    exact ⟨by simp [State.start], by simp [State.start]⟩
  · intro s l s' ha hstep
    rcases step_cases hstep.2 with ⟨t, a, rfl, he⟩ | ⟨_, _, he⟩ | ⟨_, _, _, _, rfl⟩
    · exact ha.client (fun req hreq => hstep.1 t req (by rw [hreq])) he
    · cases he <;> exact ⟨ha.sent, ha.waiting⟩
    · exact ⟨ha.sent, ha.waiting⟩

omit [DecidableEq τ] in
/-- What the node handles is the frame of a request that was sent. -/
theorem Paired.handling_sent (hp : Paired s) {head body : List UInt8}
    (hnode : s.node = .handling head body) :
    ∃ call ∈ s.sent, call.2.frame = (head, body) := by
  obtain ⟨todo, htodo, _⟩ := hp.requests
  have hmem : (head, body) ∈ s.sent.map (·.2.frame) := by
    rw [htodo, hnode]
    simp [NodePc.handled]
  exact List.mem_map.mp hmem

/-- For any number of threads that call with any requests other than DIC_JOIN,
and any positive capacities of the socket buffers: while some call has not
returned, a thread inside a call or the node can move, if the handlers answer
every such request. -/
theorem ordinary_requests_progress (hcap : 1 ≤ caps.toNode) (hcap' : 1 ≤ caps.toClient)
    (hanswer : ∀ n head body, head.operation ≠ DicOperation.join.code →
      ∃ o r, S.handle o n head body = some r)
    (h : ((sharedConn τ S caps).restrict
      (Calls fun req => req.operation ≠ DicOperation.join.code)).Reachable s)
    (hbusy : ∃ t, s.pc t ≠ .idle) : (sharedConn τ S caps).Can Label.serves s := by
  have hp := paired h.of_restrict
  rcases serves_or_handling (S := S) hp hcap hcap' hbusy with hcan | ⟨head, body, hnode⟩
  · exact hcan
  · obtain ⟨call, hcall, hframe⟩ := hp.handling_sent hnode
    have hhead : ReqHead.ofBytes head = call.2.head := by
      have := congrArg Prod.fst hframe
      simp only [Request.frame] at this
      rw [← this, ReqHead.ofBytes_bytes]
    obtain ⟨o, r, hr⟩ := hanswer s.remote (.ofBytes head) body
      (by rw [hhead]; exact (admitted h).sent call hcall)
    exact can_of_node (.respond o) (by simp [State.node?, hnode, hr])

/-- The step is not the beginning of a join. -/
def callsNoJoin (_ : State τ N) (l : Label τ ω) : Bool :=
  match l with
  | .client _ (.call req) => decide (req.operation ≠ DicOperation.join.code)
  | _ => true

omit [DecidableEq τ] in
theorem calls_of_callsNoJoin (s : State τ N) (l : Label τ ω) (hok : callsNoJoin s l = true) :
    Calls (fun req => req.operation ≠ DicOperation.join.code) s l := by
  rintro t req rfl
  simpa [callsNoJoin] using hok

/-- One thread waits for a response that the node is still sending, the other
for room in the buffer. -/
def blockedCalls : List (Label Bool Unit) :=
  [.client true (.call mallocZeros), .client false (.call freeZeros),
    .client true .lockSend, .client true (.send 12), .client true .lockRecv,
    .client true .unlockSend, .client false .lockSend, .client false (.send 4)]

theorem ordinary_requests_progress_run :
    ∃ s : State Bool Unit, (sharedConn Bool zeroNode ⟨16, 16⟩).Reachable s ∧
      (∃ t, s.pc t ≠ .idle) ∧ (sharedConn Bool zeroNode ⟨16, 16⟩).Can Label.serves s := by
  have hrun : (exec zeroNode ⟨16, 16⟩ callsNoJoin blockedCalls).any
      (fun s => (s.pc false).holdsSend) = true := by
    decide +kernel
  obtain ⟨s, hs, htest⟩ := (Option.any_eq_true _ _).mp hrun
  have hreach := reachable_of_exec calls_of_callsNoJoin hs
  have hbusy : ∃ t, s.pc t ≠ .idle := by
    refine ⟨false, fun hidle => ?_⟩
    rw [hidle] at htest
    cases htest
  exact ⟨s, hreach.of_restrict, hbusy, ordinary_requests_progress (by decide) (by decide)
    (fun _ _ _ _ => ⟨(), _, rfl⟩) hreach hbusy⟩

end Dicon.SharedConn
