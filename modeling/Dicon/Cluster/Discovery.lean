import Dicon.Cluster.Connecting
import Dicon.MainServer.Answers
import Dicon.MainServer.Authentic
import Dicon.MainServer.Losses
import Dicon.Node.Announce

/-!
# How nodes and clients find each other

Nodes announce themselves to the main server, and client programs ask it for them and
connect to all that it lists. Both read the bytes that the main server puts on their
connection. Whatever else goes on there, a node that was served is told so and has its
entry (`node_starts`), and a client connects to the nodes of the registry at the moment of
its reply (`client_finds_nodes`).
-/

namespace Dicon.Cluster

open Framework Connections MainServer Client

/-! ## The peers -/

/-- Who is behind a connection of the main server: a node, with what `sysconf` says there,
or a client program. -/
inductive Peer
  | node (cores : ℤ)
  | client

theorem announcement_fits (cores : ℤ) : (le32 (toU32 cores)).length ≤ intMax := by
  simp [intMax]

/-- The one request that such a peer makes. -/
def Peer.request : Peer → MainServer.ReqFrame
  | .node cores => ⟨DicMainOperation.announceInfo.code, 1, le32 (toU32 cores), announcement_fits cores⟩
  | .client => ⟨DicMainOperation.getInfo.code, 0, [], Nat.zero_le _⟩

theorem Peer.bytes_node (cores : ℤ) :
    (Peer.node cores).request.bytes = Node.announcement cores := by
  have hlen : toU32 ((le32 (toU32 cores)).length : ℤ) = toU32 reqAnnounceInfoSize := by
    rw [length_le32]
    rfl
  simp only [Peer.request, MainServer.ReqFrame.bytes, MainServer.ReqFrame.head, hlen]
  rfl

theorem Peer.bytes_client : Peer.client.request.bytes = getInfoHead.bytes := List.append_nil _

def requests (peers : ConnId → Peer) (c : ConnId) : List MainServer.ReqFrame :=
  [(peers c).request]

theorem aligned_requests (peers : ConnId → Peer) (c : ConnId) : Aligned (requests peers c) := by
  rw [requests]
  cases peers c with
  | node cores =>
      unfold Aligned
      have hop : (Peer.node cores).request.operation = DicMainOperation.announceInfo.code := rfl
      rw [if_pos hop]
      exact ⟨(length_le32 _).le, trivial⟩
  | client =>
      unfold Aligned
      exact Or.inl ⟨rfl, trivial⟩

/-- The peers send their requests, and the body of every announcement is received. -/
def Orderly (peers : ConnId → Peer) (s : Server) (l : ConnId × Action) : Prop :=
  SendsFrames (requests peers) s l ∧ FullBody s l

/-- Runs of the main server with such peers. The log is what is put on the wire. -/
def mainServerWith (peers : ConnId → Peer) :
    Lts ((Server × List HeadRead) × List (ConnId × Segment)) (ConnId × Action) :=
  ((mainServer.restrict (Orderly peers)).logged headRead).logged fun p l => segmentPut p.1 l

section Runs

variable {peers : ConnId → Peer} {p : (Server × List HeadRead) × List (ConnId × Segment)}

theorem answersFrames_of (h : (mainServerWith peers).Reachable p) :
    (answersFrames (requests peers)).Reachable p := by
  have hinit : ∀ q, (mainServerWith peers).init q → (answersFrames (requests peers)).init q :=
    fun _ hq => hq
  refine h.mono hinit ?_
  rintro s l t ⟨⟨⟨hok, hstep⟩, hread⟩, hput⟩
  exact ⟨⟨⟨hok.1, hstep⟩, hread⟩, hput⟩

theorem authentic_of (h : (mainServerWith peers).Reachable p) : Authentic p.1.1 := by
  have hinit : ∀ s, (mainServer.restrict (Orderly peers)).init s →
      (mainServer.restrict FullBody).init s := fun _ hs => hs
  refine authentic (h.of_logged.of_logged.mono hinit ?_)
  rintro s l t ⟨hok, hstep⟩
  exact ⟨hok.2, hstep⟩

theorem reachable_of (h : (mainServerWith peers).Reachable p) : mainServer.Reachable p.1.1 :=
  h.of_logged.of_logged.of_restrict

end Runs

/-! ## Addresses -/

section Effects

variable {c : ConnId} {h h' : Handler} {sh sh' : Shared} {a : Action}

/-- What is about to be appended was so before, or was just received. -/
theorem effect_pending_new (he : Effect c h sh a h' sh') {e : Announced}
    (hp : h'.pc.pending = some e) :
    h.pc.pending = some e ∨ ∃ got junk, e = h.announcement c got junk := by
  cases he with
  | peerSend | peerClose | peerAck | peerOther => exact Or.inl hp
  | overrun | appendFault | collectFault | removeFault => exact Or.inl hp
  | recvHead | recvBody | append | collect | remove | destroy => cases hp
  | bodyFail | bodyDone =>
      cases hp
      exact Or.inr ⟨_, _, rfl⟩
  | headFail => cases hcn : h.isComputeNode <;> simp [hcn, Pc.pending] at hp
  | @headDone _ got =>
      rcases switchOperation_cases (.ofBytes got) with hq | hq | hq <;>
        (rw [hq] at hp; cases hp)
  | lock hpc =>
      rcases afterLock_cases hpc with ⟨_, _, rfl⟩ | ⟨_, rfl⟩ | ⟨_, rfl⟩ <;> cases hp
  | send hpc =>
      rcases afterSend_cases hpc with
        ⟨_, hq, rfl, _⟩ | ⟨_, hq, rfl, _⟩ | ⟨_, _, rfl, _⟩ | ⟨_, _, rfl, _⟩
      · exact Or.inl (by rw [hq]; exact hp)
      · exact Or.inl (by rw [hq]; exact hp)
      · cases hp
      · cases hp
  | unlock hpc =>
      rcases afterUnlock_cases hpc with ⟨_, rfl⟩ | ⟨_, rfl⟩ <;> cases hp

end Effects

/-- The address of an entry is that of its connection. -/
structure Addressed (s : Server) : Prop where
  pending : ∀ c h, s.conns c = some h → ∀ e, h.pc.pending = some e → e.info.address = h.ip
  announced : ∀ e ∈ announcements s.shared.history,
    ∃ h, s.conns e.conn = some h ∧ e.info.address = h.ip

theorem addressed {s : Server} (h : mainServer.Reachable s) : Addressed s := by
  refine h.invariant_of ?_ ?_
  · rintro _ rfl
    exact ⟨fun _ _ hc => (nomatch hc), fun _ he => (nomatch he)⟩
  · rintro s ⟨c, a⟩ t hr hi hstep
    rcases step_cases hstep with ⟨ip, hc, rfl⟩ | ⟨hd, hd', sh', hc, he, rfl⟩
    · refine ⟨forall_update hi.pending (fun _ hp => nomatch hp), fun e hmem => ?_⟩
      obtain ⟨x, hx, hip⟩ := hi.announced e hmem
      have hne : e.conn ≠ c := by
        intro heq
        rw [heq, hc] at hx
        cases hx
      exact ⟨x, (Function.update_of_ne hne ..).trans hx, hip⟩
    · have hip := effect_ip he
      refine ⟨forall_update hi.pending fun e hp => ?_, ?_⟩
      · rw [hip]
        rcases effect_pending_new he hp with hp | ⟨got, junk, rfl⟩
        · exact hi.pending c hd hc e hp
        · rfl
      · refine forall_announcements he (fun e hmem => ?_) fun e hpc => ?_
        · obtain ⟨x, hx, haddress⟩ := hi.announced e hmem
          show ∃ h, Function.update s.conns c (some hd') e.conn = some h ∧ _
          by_cases heq : e.conn = c
          · rw [heq, hc] at hx
            cases hx
            rw [heq, Function.update_self]
            exact ⟨hd', rfl, haddress.trans hip.symm⟩
          · exact ⟨x, (Function.update_of_ne heq ..).trans hx, haddress⟩
        · have hp : hd.pc.pending = some e := by
            rw [hpc]
            rfl
          have hconn := ((inv_of_reachable hr).pending c hd hc e hp).1
          show ∃ h, Function.update s.conns c (some hd') e.conn = some h ∧ _
          rw [hconn, Function.update_self]
          exact ⟨hd', rfl, (hi.pending c hd hc e hp).trans hip.symm⟩

/-! ## What an entry says -/

section Entries

variable {peers : ConnId → Peer} {p : (Server × List HeadRead) × List (ConnId × Segment)}

/-- Behind an entry there is a node, and it said what its `sysconf` says. -/
theorem entry_of_request {peer : Peer} {sent : List UInt8} {e : Announced}
    (he : e.Authentic sent) (hsent : sent <+: peer.request.bytes) :
    ∃ cores, peer = .node cores ∧ e.info.coreCount = toU32 cores := by
  obtain ⟨⟨⟨before, bytes, head, after, hstream, hhead⟩, _⟩, hlen, hcores⟩ := he
  rw [hstream] at hsent
  have hroom := hsent.length_le
  simp only [List.length_append, hhead.length, hlen, MainServer.ReqFrame.length_bytes] at hroom
  cases peer with
  | client =>
      have hempty : Peer.client.request.body.length = 0 := rfl
      rw [hempty, reqAnnounceInfoSize] at hroom
      omega
  | node cores =>
      have hfour : (Peer.node cores).request.body.length = 4 := length_le32 _
      rw [hfour, reqAnnounceInfoSize] at hroom
      refine ⟨cores, rfl, ?_⟩
      obtain ⟨rfl, rfl⟩ : before = [] ∧ after = [] := by
        constructor <;> exact List.eq_nil_of_length_eq_zero (by omega)
      rw [List.append_nil, List.nil_append] at hsent
      have hsplit : bytes ++ e.body = (Peer.node cores).request.head.bytes ++
          le32 (toU32 cores) := by
        refine hsent.eq_of_length ?_
        rw [List.length_append, hhead.length, hlen, MainServer.ReqFrame.length_bytes, hfour]
        rfl
      have hbody := (List.append_inj hsplit (by rw [hhead.length]; simp)).2
      rw [hcores, hbody, rd32_le32]

/-- What was sent on a connection is the beginning of its request. -/
theorem sent_begins (h : (mainServerWith peers).Reachable p) (c : ConnId) :
    sentOn c p.1.1.shared.history <+: (peers c).request.bytes := by
  have hfollows := (follows (aligned_requests peers) (answersFrames_of h).of_logged).conns c
  have hwire : wire (requests peers c) = (peers c).request.bytes := List.append_nil _
  rw [← hwire]
  cases hc : p.1.1.conns c with
  | none =>
      rw [hc] at hfollows
      rw [hfollows.1]
      exact List.nil_prefix
  | some hd =>
      rw [hc] at hfollows
      obtain ⟨_, _, unsent, _, _, hsent, _⟩ := hfollows
      exact ⟨unsent, hsent⟩

theorem entries_true (h : (mainServerWith peers).Reachable p) {e : Announced}
    (he : e ∈ announcements p.1.1.shared.history) :
    ∃ cores hd, peers e.conn = .node cores ∧ p.1.1.conns e.conn = some hd ∧
      e.info = ⟨hd.ip, toU32 cores⟩ := by
  obtain ⟨cores, hpeer, hcores⟩ :=
    entry_of_request ((authentic_of h).appended e he) (sent_begins h e.conn)
  obtain ⟨hd, hc, haddress⟩ := (addressed (reachable_of h)).announced e he
  refine ⟨cores, hd, hpeer, hc, ?_⟩
  rw [← haddress, ← hcores]

end Entries

/-! ## The answer -/

theorem answerOn_of_unserved {c : ConnId} {ev : MainServer.Event} (h : ev.servedOn c = none) :
    ev.answerOn c = [] := by
  cases ev with
  | announced e =>
      by_cases hc : e.conn = c
      · simp [MainServer.Event.servedOn, hc] at h
      · exact if_neg hc
  | replied d es =>
      by_cases hd : d = c
      · simp [MainServer.Event.servedOn, hd] at h
      · exact if_neg hd
  | _ => rfl

/-- Where one request was served, there is one event that tells of it, and the answers are
the answer to that. -/
theorem served_once {c : ConnId} {hist : List MainServer.Event} {op : DicMainOperation}
    (h : servedOn c hist = [op]) :
    ∃ pre ev post, hist = pre ++ ev :: post ∧ ev.servedOn c = some op ∧
      answersOn c hist = ev.answerOn c := by
  obtain ⟨pre, ev, post, rfl, hpre, hev, hpost⟩ := List.filterMap_eq_cons_iff.mp h
  refine ⟨pre, ev, post, rfl, hev, ?_⟩
  have hquiet : ∀ evs : List MainServer.Event, (∀ x ∈ evs, x.servedOn c = none) →
      evs.flatMap (MainServer.Event.answerOn c) = [] := fun evs hevs =>
    List.flatMap_eq_nil_iff.mpr fun x hx => answerOn_of_unserved (hevs x hx)
  rw [answersOn, List.flatMap_append, List.flatMap_cons, hquiet pre hpre,
    hquiet post (List.filterMap_eq_nil_iff.mp hpost), List.nil_append, List.append_nil]

theorem acked_of_idle {pc : Pc} (h : pc.serving = []) : pc.acked = [] := by
  cases pc with
  | sendAckHead | sendAckBody | append => cases h
  | _ => rfl

section Answers

variable {peers : ConnId → Peer} {p : (Server × List HeadRead) × List (ConnId × Segment)}
  {c : ConnId} {hd : Handler}

/-- What a peer gets whose request was served, if the connection lasts. -/
theorem answer_put (h : (mainServerWith peers).Reachable p) (hc : p.1.1.conns c = some hd)
    {op : DicMainOperation} (hserved : servedOn c p.1.1.shared.history = [op])
    (hopen : hd.sockOpen = true) (hdue : hd.pc.due = []) :
    putOn c p.2 = answersOn c p.1.1.shared.history := by
  have hframes := answersFrames_of h
  have ha := answered hframes
  have hanswering := ha.answering c
  have hacts := ha.served c
  rw [hc] at hanswering hacts
  obtain ⟨done, todo, hsplit, _, hknown, _⟩ :=
    (atBoundaries (aligned_requests peers) hframes.of_logged).heads c
  -- there is no other request, so none is being served
  have hidle : hd.pc.serving = [] := by
    have hone : (knownOperations done).length ≤ 1 := by
      calc (knownOperations done).length ≤ done.length := List.length_filterMap_le ..
        _ ≤ (requests peers c).length := by rw [hsplit, List.length_append]; omega
        _ = 1 := rfl
    rw [← hknown, hacts, hserved, Option.elim_some, List.length_append,
      List.length_singleton] at hone
    exact List.eq_nil_of_length_eq_zero (by omega)
  have hall := hanswering.2 hopen
  rw [hdue, List.append_nil, acked_of_idle hidle, List.append_nil] at hall
  exact hall

end Answers

/-- The bytes of a reply that fits. -/
theorem infoReply_bytes {es : List Announced} (hfits : respGetInfoSize es.length ≤ intMax) :
    (infoReply es).flatMap Segment.bytes =
      le32 (toU32 (respGetInfoSize es.length)) ++ getInfoBody es := by
  rw [infoReply, if_pos hfits, List.flatMap_cons, List.flatMap_singleton, bytes_infoBody]
  rfl

/-! ## A client -/

/-- A connection to the node of an entry. -/
structure GoesTo (o : Opening) (e : Announced) (conn : DicConn) : Prop where
  ip : conn.ip = e.info.address
  port : conn.port = 4224
  built : conn.Built
  connected : conn.sockfd.isSome ↔ o.kernel.socket.isSome ∧
    ¬ (e.info.address.family = afInet ∧ e.info.address.ipv4 = 0) ∧
      o.kernel.connects ⟨e.info.address.family.toUInt16, 32784, e.info.address.ipv4⟩ = true

theorem dicNodeConnect_goesTo (o : Opening) (e : Announced) :
    GoesTo o e (dicNodeConnect o e.info.address) where
  ip := rfl
  port := rfl
  built := dicConnNew_built _ _ _ _
  connected := tcpConnect_isSome

/-- What a client program has after `dic_get_nodes_info` and `dic_nodes_connect_all`. -/
structure Finds (es : List Announced) (unset : Unset) (conn : Conn) (opening : ℕ → Opening) :
    Prop where
  count : (dicGetNodesInfo unset conn).1.count.toNat = es.length
  entries : ∀ i e, es[i]? = some e → (dicGetNodesInfo unset conn).1.node i = e.info
  read : (dicGetNodesInfo unset conn).2.stream = []
  length : (dicNodesConnectAll opening (dicGetNodesInfo unset conn).1).length = es.length
  nodes : ∀ i e, es[i]? = some e →
    ∃ node, (dicNodesConnectAll opening (dicGetNodesInfo unset conn).1)[i]? = some node ∧
      GoesTo (opening i) e node

theorem finds {es : List Announced} (hfits : respGetInfoSize es.length ≤ intMax) {conn : Conn}
    (hstream : conn.stream = (infoReply es).flatMap Segment.bytes) (unset : Unset)
    (opening : ℕ → Opening) : Finds es unset conn opening := by
  have hsize : (toU32 (respGetInfoSize es.length)).toNat = respGetInfoSize es.length := by
    apply toU32_toNat
    unfold intMax at hfits
    omega
  rw [infoReply_bytes hfits, ← List.append_nil (_ ++ getInfoBody es)] at hstream
  obtain ⟨hinfo, hrest⟩ := dicGetNodesInfo_reads ((length_getInfoBody es).trans hsize.symm)
    (by rw [hsize]; exact hfits) hstream unset
  have hcount : (dicGetNodesInfo unset conn).1.count.toNat = es.length := by
    rw [hinfo]
    exact count_getInfoBody hfits
  have hentries : ∀ i e, es[i]? = some e → (dicGetNodesInfo unset conn).1.node i = e.info := by
    intro i e he
    rw [hinfo]
    exact node_getInfoBody he
  refine ⟨hcount, hentries, hrest, ?_, fun i e he => ?_⟩
  · rw [dicNodesConnectAll, List.length_map, List.length_range, hcount]
  · have hi : i < (dicGetNodesInfo unset conn).1.count.toNat := by
      rw [hcount]
      exact (List.getElem?_eq_some_iff.mp he).1
    refine ⟨dicNodeConnect (opening i) e.info.address, ?_, dicNodeConnect_goesTo (opening i) e⟩
    rw [dicNodesConnectAll, List.getElem?_map, List.getElem?_range hi, Option.map_some,
      hentries i e he]

section Answers

variable {peers : ConnId → Peer} {p : (Server × List HeadRead) × List (ConnId × Segment)}
  {c : ConnId} {hd : Handler}

/-- A client whose query was answered has the registry as it was at that moment: it opens
one connection for each entry, in their order, to port 4224 at the address that the main
server saw, and the core counts are what the nodes said. -/
theorem client_finds_nodes (h : (mainServerWith peers).Reachable p) (hc : p.1.1.conns c = some hd)
    (hserved : servedOn c p.1.1.shared.history = [.getInfo]) (hopen : hd.sockOpen = true)
    (hdue : hd.pc.due = [])
    (hfits : respGetInfoSize (announcements p.1.1.shared.history).length ≤ intMax) :
    ∃ pre es post, p.1.1.shared.history = pre ++ .replied c es :: post ∧
      es = (epochs pre).current ∧
      (∀ e ∈ es, ∃ cores node, peers e.conn = .node cores ∧ p.1.1.conns e.conn = some node ∧
        e.info = ⟨node.ip, toU32 cores⟩) ∧
      ∀ unset conn opening, conn.stream = (putOn c p.2).flatMap Segment.bytes →
        Finds es unset conn opening := by
  have hput := answer_put h hc hserved hopen hdue
  obtain ⟨pre, ev, post, hhist, hev, hanswers⟩ := served_once hserved
  -- a query is served by a reply to this connection
  obtain ⟨es, rfl⟩ : ∃ es, ev = .replied c es := by
    cases ev with
    | replied d es =>
        by_cases hd : d = c
        · exact ⟨es, by rw [hd]⟩
        · simp [MainServer.Event.servedOn, hd] at hev
    | announced e =>
        by_cases hconn : e.conn = c <;> simp [MainServer.Event.servedOn, hconn] at hev
    | _ => cases hev
  have hcurrent := registry_replies (reachable_of h) pre c es post hhist
  have hknown : es.Sublist (announcements p.1.1.shared.history) := by
    rw [hcurrent, hhist, announcements_append]
    exact (current_sublist pre).trans (List.sublist_append_left _ _)
  refine ⟨pre, es, post, hhist, hcurrent, fun e he => entries_true h (hknown.subset he), ?_⟩
  intro unset conn opening hstream
  refine finds ?_ ?_ unset opening
  · have hle := hknown.length_le
    unfold respGetInfoSize at hfits ⊢
    omega
  · rw [hstream, hput, hanswers, MainServer.Event.answerOn, if_pos rfl]

/-! ## A node -/

/-- The `main` of a node before `start_server`: the connection to the main server, and what
`notify_main_server` returns for it. -/
def nodeStart (fuel : ℕ) (block : Block) (kernel : ℕ → Kernel) (ip : IpAddr)
    (junk : Node.AnswerJunk) (outlet : DicConn → Outlet) (cores : ℤ) : Option (DicConn × ℤ) :=
  (mainServerConn fuel block kernel ip).map fun conn =>
    (conn, (Node.notifyMainServer junk (outlet conn) cores).res)

/-- The acknowledgement is read as such. -/
theorem notify_acked {junk : Node.AnswerJunk} {o : Outlet} (cores : ℤ)
    (hstream : o.conn.stream = ack.flatMap Segment.bytes) :
    (Node.notifyMainServer junk o cores).res = 0 ∧
      (Node.notifyMainServer junk o cores).conn.stream = [] := by
  have hack : ack.flatMap Segment.bytes = le32 (toU32 respAnnounceInfoSize) ++ le32 0 := rfl
  rw [Node.notifyMainServer_eq]
  -- the two sends leave what there is to receive
  generalize hconn : (dicConnSendVia (dicConnSendVia o _ _).outlet _ _).outlet.conn = conn
  have harrived : conn.stream = le32 (toU32 respAnnounceInfoSize) ++ le32 0 := by
    rw [← hconn, dicConnSendVia_stream, dicConnSendVia_stream, hstream, hack]
  obtain ⟨hhead, hbehind⟩ := dicConnRecv_arrived (n := MainServer.respHeadSize) (by decide)
    (by rw [harrived]; simp [MainServer.respHeadSize])
  rw [harrived, MainServer.respHeadSize] at hhead hbehind
  rw [List.take_left' (length_le32 _)] at hhead
  rw [List.drop_left' (length_le32 _)] at hbehind
  obtain ⟨hbody, hrest⟩ := dicConnRecv_arrived (n := respAnnounceInfoSize) (by decide)
    (by rw [hbehind]; simp [respAnnounceInfoSize])
  rw [hbehind] at hbody hrest
  have hsize : toCInt (rd32Over (dicConnRecv conn MainServer.respHeadSize).buffer
      junk.bodySize).toNat = respAnnounceInfoSize := by
    rw [MainServer.respHeadSize, hhead, rd32Over_of_length (length_le32 _), rd32_le32]
    decide
  have hwhole : (le32 0).take respAnnounceInfoSize = le32 0 := by decide
  simp only [Node.recvAnswer, hsize]
  rw [MainServer.respHeadSize, hbody, hrest, hwhole, rd32Over_of_length (length_le32 _), rd32_le32]
  exact ⟨by decide, by decide⟩

/-- A node goes on as soon as one of its attempts reaches the main server, and never if
none does, as with the address 0.0.0.0. Where its announcement was served, it reads that
nothing went wrong, whatever its variables held before, and its entry has been appended
with its address and its number of cores. -/
theorem node_starts (h : (mainServerWith peers).Reachable p) (hc : p.1.1.conns c = some hd)
    {cores : ℤ} (hpeer : peers c = .node cores)
    (hserved : servedOn c p.1.1.shared.history = [.announceInfo]) (hopen : hd.sockOpen = true)
    (hdue : hd.pc.due = []) (block : Block) (kernel : ℕ → Kernel) (ip : IpAddr)
    (junk : Node.AnswerJunk) (outlet : DicConn → Outlet) :
    (∀ j, (tcpConnect (kernel j) ip dicMainServerPort).isSome →
      (∀ l < j, tcpConnect (kernel l) ip dicMainServerPort = none) →
      (outlet (connVia block (kernel j) ip)).conn.stream = (putOn c p.2).flatMap Segment.bytes →
      ∀ fuel > j, nodeStart fuel block kernel ip junk outlet cores =
        some (connVia block (kernel j) ip, 0)) ∧
      ((∀ l, tcpConnect (kernel l) ip dicMainServerPort = none) →
        ∀ fuel, nodeStart fuel block kernel ip junk outlet cores = none) ∧
      (ip.family = afInet ∧ ip.ipv4 = 0 →
        ∀ l, tcpConnect (kernel l) ip dicMainServerPort = none) ∧
      ∃ e, .announced e ∈ p.1.1.shared.history ∧ e.conn = c ∧ e.info = ⟨hd.ip, toU32 cores⟩ := by
  have hput := answer_put h hc hserved hopen hdue
  obtain ⟨pre, ev, post, hhist, hev, hanswers⟩ := served_once hserved
  obtain ⟨e, rfl, hconn⟩ : ∃ e, ev = .announced e ∧ e.conn = c := by
    cases ev with
    | announced e =>
        by_cases hconn : e.conn = c
        · exact ⟨e, rfl, hconn⟩
        · simp [MainServer.Event.servedOn, hconn] at hev
    | replied d es =>
        by_cases hd : d = c <;> simp [MainServer.Event.servedOn, hd] at hev
    | _ => cases hev
  have hmem : .announced e ∈ p.1.1.shared.history := by
    rw [hhist]
    exact List.mem_append_right _ List.mem_cons_self
  refine ⟨fun j hj hfailed hstream fuel hfuel => ?_, fun hfailed fuel => ?_, fun hzero l => ?_,
    e, hmem, hconn, ?_⟩
  · rw [hput, hanswers, MainServer.Event.answerOn, if_pos hconn] at hstream
    rw [nodeStart, mainServerConn_eq hfailed hj hfuel, Option.map_some,
      (notify_acked cores hstream).1]
  · rw [nodeStart, mainServerConn_never hfailed]
    rfl
  · rw [← Option.not_isSome_iff_eq_none, tcpConnect_isSome]
    exact fun hsome => hsome.2.1 hzero
  · obtain ⟨cores', node, hpeer', hnode, hinfo⟩ :=
      entries_true h (e := e) (by
        rw [hhist, announcements_append]
        exact List.mem_append_right _ List.mem_cons_self)
    rw [hconn] at hpeer' hnode
    rw [hpeer] at hpeer'
    rw [hc] at hnode
    cases hpeer'
    cases hnode
    exact hinfo

end Answers

/-! ## A node and a client -/

/-- The first peer is a node with four cores, the others are clients. -/
def nodeAndClients (c : ConnId) : Peer := if c = 0 then .node 4 else .client

/-- The test of a run with such peers. -/
def orderly (s : Server) (l : ConnId × Action) : Bool :=
  fullBody s l && match l.2 with
    | .peerSend bytes =>
        (sentOn l.1 s.shared.history ++ bytes).isPrefixOf (wire (requests nodeAndClients l.1))
    | _ => true

theorem orderly_of_test (s : Server) (l : ConnId × Action) (hok : orderly s l = true) :
    Orderly nodeAndClients s l := by
  rw [orderly, Bool.and_eq_true] at hok
  refine ⟨fun bytes hl => ?_, fullBody_of_test s l hok.1⟩
  have hprefix := hok.2
  rw [hl] at hprefix
  exact List.isPrefixOf_iff_prefix.mp hprefix

/-- The node announces itself, and then a client asks. -/
def nodeThenClient : List (ConnId × Action) :=
  announceRun 0 100 4 ++ [(1, .accept ⟨2, 16777343, Vector.replicate 12 0⟩),
    (1, .peerSend getInfoHead.bytes), (1, .recv 8), (1, .recvDone 0), (1, .lock), (1, .collect),
    (1, .send), (1, .send), (1, .unlock)]

theorem nodeThenClient_reachable : ∃ p, (mainServerWith nodeAndClients).Reachable p ∧
    (∃ hd, p.1.1.conns 0 = some hd ∧ hd.sockOpen = true ∧ hd.pc = .recvHead []) ∧
    (∃ hd, p.1.1.conns 1 = some hd ∧ hd.sockOpen = true ∧ hd.pc = .recvHead []) ∧
    servedOn 0 p.1.1.shared.history = [.announceInfo] ∧
    servedOn 1 p.1.1.shared.history = [.getInfo] ∧
    (announcements p.1.1.shared.history).length = 1 := by
  have hrun : (Server.start.exec orderly nodeThenClient).any (fun s =>
      (s.conns 0).any (fun h => decide (h.sockOpen = true ∧ h.pc = .recvHead [])) &&
      (s.conns 1).any (fun h => decide (h.sockOpen = true ∧ h.pc = .recvHead [])) &&
      decide (servedOn 0 s.shared.history = [.announceInfo] ∧
        servedOn 1 s.shared.history = [.getInfo] ∧
          (announcements s.shared.history).length = 1)) = true := by
    decide +kernel
  obtain ⟨s, hs, htest⟩ := (Option.any_eq_true _ _).mp hrun
  rw [Bool.and_eq_true, Bool.and_eq_true] at htest
  obtain ⟨⟨hnode, hclient⟩, hserved⟩ := htest
  obtain ⟨hd₀, hc₀, htest₀⟩ := (Option.any_eq_true _ _).mp hnode
  obtain ⟨hd₁, hc₁, htest₁⟩ := (Option.any_eq_true _ _).mp hclient
  have hreach : (mainServer.restrict (Orderly nodeAndClients)).Reachable s :=
    reachable_of_exec orderly_of_test hs
  obtain ⟨heads, hheads⟩ : ∃ heads, ((mainServer.restrict (Orderly nodeAndClients)).logged
      headRead).Reachable (s, heads) := hreach.exists_log
  obtain ⟨log, hlog⟩ : ∃ log, (mainServerWith nodeAndClients).Reachable ((s, heads), log) :=
    hheads.exists_log
  exact ⟨_, hlog, ⟨hd₀, hc₀, of_decide_eq_true htest₀⟩, ⟨hd₁, hc₁, of_decide_eq_true htest₁⟩,
    of_decide_eq_true hserved⟩

/-- The client finds something. -/
theorem client_finds_nodes_run : ∃ p es, (mainServerWith nodeAndClients).Reachable p ∧
    ∀ unset conn opening, conn.stream = (putOn 1 p.2).flatMap Segment.bytes →
      Finds es unset conn opening := by
  obtain ⟨p, hp, _, ⟨hd, hc, hopen, hpc⟩, _, hserved, hlen⟩ := nodeThenClient_reachable
  obtain ⟨_, es, _, _, _, _, hfinds⟩ := client_finds_nodes hp hc hserved hopen (by rw [hpc]; rfl)
    (by rw [hlen]; decide)
  exact ⟨p, es, hp, hfinds⟩

/-- A kernel that connects at once. -/
def connected : Kernel := ⟨some 3, fun _ => true⟩

/-- The loopback address. -/
def localhost : IpAddr := ⟨2, 16777343, Vector.replicate 12 0⟩

/-- The node is told that its announcement was taken, whatever was in its variables. -/
theorem node_starts_run : ∃ p o, (mainServerWith nodeAndClients).Reachable p ∧
    (∃ e, .announced e ∈ p.1.1.shared.history ∧ e.conn = 0 ∧ e.info.coreCount = 4) ∧
      ∀ block junk, nodeStart 1 block (fun _ => connected) localhost junk (fun _ => o) 4 =
        some (connVia block connected localhost, 0) := by
  obtain ⟨p, hp, ⟨hd, hc, hopen, hpc⟩, _, hserved, _⟩ := nodeThenClient_reachable
  let o : Outlet := ⟨⟨true, [(putOn 0 p.2).flatMap Segment.bytes], []⟩, fun _ => .takes 100⟩
  have hstream : o.conn.stream = (putOn 0 p.2).flatMap Segment.bytes := Conn.stream_block _ _
  have hall := fun block junk => node_starts hp hc rfl hserved hopen (by rw [hpc]; rfl) block
    (fun _ => connected) localhost junk fun _ => o
  obtain ⟨_, _, _, e, he, hconn, hinfo⟩ := hall ⟨0, fun _ => [], noneIpAddr⟩ ⟨0, 0⟩
  refine ⟨p, o, hp, ⟨e, he, hconn, by rw [hinfo]; rfl⟩, fun block junk => ?_⟩
  exact (hall block junk).1 0 (by decide) (fun l hl => absurd hl (Nat.not_lt_zero l)) hstream 1
    Nat.one_pos

end Dicon.Cluster
