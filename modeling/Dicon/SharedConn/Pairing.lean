import Dicon.SharedConn.System

/-!
# Response pairing on a shared connection

`recv_mut` is taken while `send_mut` is still held, so the calls that sent their
request and did not return yet are at most two: the owner of `recv_mut`, and
behind it the owner of `send_mut`. `Paired` relates the three ghost logs to the
bytes on the wire: what the node has not answered is what is left of the
requests, in its own buffer, in the socket and with the sender; what was
answered and not returned is what is left of the responses, with the receiver,
in the socket and with the node. The receiver therefore reads exactly the first
response that is due, and that is the one to its own request.
-/

namespace Dicon.SharedConn

open Framework

universe u v w

/-! ## What a thread holds -/

namespace ClientPc

def holdsSend : ClientPc → Bool
  | .sending .. | .handOver _ => true
  | _ => false

def holdsRecv : ClientPc → Bool
  | .handOver _ | .receiving .. => true
  | _ => false

/-- The request of a call that still waits for `recv_mut`. -/
def sendReq : ClientPc → Option Request
  | .sending req _ => some req
  | _ => none

/-- The request of a call that receives its response next. -/
def recvReq : ClientPc → Option Request
  | .handOver req | .receiving req _ => some req
  | _ => none

def unsent : ClientPc → List UInt8
  | .sending _ rest => rest
  | _ => []

def readBytes : ClientPc → List UInt8
  | .receiving _ reader => reader.bytes
  | _ => []

end ClientPc

namespace NodePc

def handled : NodePc → List Frame
  | .handling head body => [(head, body)]
  | _ => []

def readBytes : NodePc → List UInt8
  | .reading reader => reader.bytes
  | _ => []

def unsent : NodePc → List UInt8
  | .sending rest => rest
  | _ => []

end NodePc

variable {τ : Type u} {N : Type v} {ω : Type w}

namespace State

def sendCalls (s : State τ N) : List (τ × Request) :=
  s.sendMut.elim [] fun t => (s.pc t).sendReq.toList.map (t, ·)

def recvCalls (s : State τ N) : List (τ × Request) :=
  s.recvMut.elim [] fun t => (s.pc t).recvReq.toList.map (t, ·)

def unsent (s : State τ N) : List UInt8 := s.sendMut.elim [] fun t => (s.pc t).unsent

def readBytes (s : State τ N) : List UInt8 := s.recvMut.elim [] fun t => (s.pc t).readBytes

end State

/-- `mutex` is owned by the thread that is where `holds` says it is. -/
def Owned (holds : ClientPc → Bool) (mutex : Option τ) (pc : τ → ClientPc) : Prop :=
  ∀ t, holds (pc t) = true ↔ mutex = some t

/-- The frames `todo` are what is left of the requests. -/
def Requested (s : State τ N) (todo : List Frame) : Prop :=
  s.sent.map (·.2.frame) = s.answered.map Prod.fst ++ s.node.handled ++ todo ∧
    Framing.spell todo = s.node.readBytes ++ s.toNode ++ s.unsent

/-- The frames `due` are what is left of the responses. -/
def Responded (s : State τ N) (due : List Frame) : Prop :=
  s.answered.map (·.2.frame) = s.returned.map Return.got ++ due ∧
    Framing.spell due = s.readBytes ++ s.toClient ++ s.node.unsent

structure Paired (s : State τ N) : Prop where
  sendOwner : Owned ClientPc.holdsSend s.sendMut s.pc
  recvOwner : Owned ClientPc.holdsRecv s.recvMut s.pc
  order : s.sent = s.returned.map Return.call ++ s.recvCalls ++ s.sendCalls
  requests : ∃ todo, Requested s todo
  responses : ∃ due, Responded s due
  nodeReader : ∀ reader, s.node = .reading reader → reader.Within reqFraming
  clientReader : ∀ t req reader, s.pc t = .receiving req reader → reader.Within respFraming

/-! ## The frames on the wire -/

section Frames

variable {s : State τ N}

theorem isFrame_of_requested {todo : List Frame} (h : Requested s todo) {f : Frame}
    (hf : f ∈ todo) : reqFraming.IsFrame f := by
  have hmem : f ∈ s.sent.map (·.2.frame) := by
    rw [h.1]
    exact List.mem_append_right _ hf
  obtain ⟨call, _, rfl⟩ := List.mem_map.mp hmem
  exact call.2.isFrame

theorem isFrame_of_responded {due : List Frame} (h : Responded s due) {f : Frame}
    (hf : f ∈ due) : respFraming.IsFrame f := by
  have hmem : f ∈ s.answered.map (·.2.frame) := by
    rw [h.1]
    exact List.mem_append_right _ hf
  obtain ⟨ans, _, rfl⟩ := List.mem_map.mp hmem
  exact ans.2.isFrame

/-- A receiver that read a whole frame read the first of the frames its stream
spells. -/
theorem frame_read {F : Framing UInt8} (hF : 0 < F.headLen) {fs : List Frame}
    (hfs : ∀ f ∈ fs, F.IsFrame f) {head got rest : List UInt8}
    (hw : (Reader.body head got).Within F) (hn : (Reader.body head got).need F = 0)
    (h : Framing.spell fs = head ++ got ++ rest) :
    ∃ gs, fs = (head, got) :: gs ∧ Framing.spell gs = rest := by
  cases fs with
  | nil =>
      have hlen := congrArg List.length h
      simp only [Framing.spell_nil, List.length_nil, List.length_append] at hlen
      have := hw.1
      omega
  | cons f gs =>
      rw [Framing.spell_cons] at h
      obtain ⟨rfl, rfl, hrest⟩ := Reader.complete (hfs f List.mem_cons_self) hw hn h.symm
      exact ⟨gs, rfl, hrest.symm⟩

/-- A receiver that waits in a stream with nothing more in it waits for a frame
that is not there. -/
theorem frames_nil {F : Framing UInt8} {fs : List Frame} (hfs : ∀ f ∈ fs, F.IsFrame f)
    {reader : Reader UInt8} (hw : reader.Within F) (hn : 0 < reader.need F)
    (h : Framing.spell fs = reader.bytes) : fs = [] := by
  cases fs with
  | nil => rfl
  | cons f gs =>
      rw [Framing.spell_cons] at h
      have hlt := Reader.bytes_lt_of_need (s := []) (hfs f List.mem_cons_self) hw hn
        (by rw [List.append_nil]; exact h.symm)
      have hlen := congrArg List.length h
      simp only [List.length_append] at hlen
      omega

end Frames

/-! ## Steps -/

section Steps

variable [DecidableEq τ] {S : NodeSpec N ω} {caps : Caps} {s s' : State τ N} {t : τ}

@[simp] theorem setPc_pc_self (s : State τ N) (t : τ) (pc : ClientPc) :
    (s.setPc t pc).pc t = pc := Function.update_self _ _ _

@[simp] theorem setPc_sendMut (s : State τ N) (t : τ) (pc : ClientPc) :
    (s.setPc t pc).sendMut = s.sendMut := rfl

@[simp] theorem setPc_recvMut (s : State τ N) (t : τ) (pc : ClientPc) :
    (s.setPc t pc).recvMut = s.recvMut := rfl

theorem setPc_pc_of_ne (s : State τ N) {t u : τ} (h : u ≠ t) (pc : ClientPc) :
    (s.setPc t pc).pc u = s.pc u := Function.update_of_ne h _ _

/-- Moving `t` keeps the ownership of a mutex if `t` alone may take or free it. -/
theorem Owned.setPc {holds : ClientPc → Bool} {mutex mutex' : Option τ} {pc : ClientPc}
    (h : Owned holds mutex s.pc) (hself : holds pc = true ↔ mutex' = some t)
    (hother : ∀ u, u ≠ t → (mutex' = some u ↔ mutex = some u)) :
    Owned holds mutex' (s.setPc t pc).pc := by
  intro u
  by_cases hu : u = t
  · subst hu
    rw [setPc_pc_self]
    exact hself
  · rw [setPc_pc_of_ne s hu]
    exact (h u).trans (hother u hu).symm

/-- What the owner of a mutex contributes does not change when another thread
moves. -/
theorem elim_setPc {α : Type*} {mutex : Option τ} (hm : mutex ≠ some t) (pc : ClientPc)
    (f : τ → ClientPc → List α) :
    (mutex.elim [] fun u => f u ((s.setPc t pc).pc u)) = mutex.elim [] fun u => f u (s.pc u) := by
  cases mutex with
  | none => rfl
  | some u =>
      have hu : u ≠ t := fun h => hm (by rw [h])
      simp only [Option.elim_some, setPc_pc_of_ne s hu]

omit [DecidableEq τ] in
theorem Paired.not_send (hp : Paired s) (h : (s.pc t).holdsSend = false) :
    s.sendMut ≠ some t := by
  intro hm
  rw [(hp.sendOwner t).mpr hm] at h
  cases h

omit [DecidableEq τ] in
theorem Paired.not_recv (hp : Paired s) (h : (s.pc t).holdsRecv = false) :
    s.recvMut ≠ some t := by
  intro hm
  rw [(hp.recvOwner t).mpr hm] at h
  cases h

/-- The readers of the other threads stand still, the new one is within its
frame. -/
theorem Paired.clientReader_setPc (hp : Paired s) {pc : ClientPc}
    (hpc : ∀ req reader, pc = .receiving req reader → reader.Within respFraming) :
    ∀ u req reader, (s.setPc t pc).pc u = .receiving req reader → reader.Within respFraming := by
  intro u req reader hu
  by_cases hut : u = t
  · subst hut
    rw [setPc_pc_self] at hu
    exact hpc req reader hu
  · rw [setPc_pc_of_ne s hut] at hu
    exact hp.clientReader u req reader hu

/-- The calls and bytes of the other threads, when `t` moves without a mutex. -/
theorem sendSide_setPc (hs : s.sendMut ≠ some t) (pc : ClientPc) :
    (s.setPc t pc).sendCalls = s.sendCalls ∧ (s.setPc t pc).unsent = s.unsent := by
  unfold State.sendCalls State.unsent
  exact ⟨elim_setPc hs pc fun u p => p.sendReq.toList.map (u, ·),
    elim_setPc hs pc fun _ p => p.unsent⟩

theorem recvSide_setPc (hr : s.recvMut ≠ some t) (pc : ClientPc) :
    (s.setPc t pc).recvCalls = s.recvCalls ∧ (s.setPc t pc).readBytes = s.readBytes := by
  unfold State.recvCalls State.readBytes
  exact ⟨elim_setPc hr pc fun u p => p.recvReq.toList.map (u, ·),
    elim_setPc hr pc fun _ p => p.readBytes⟩

theorem Paired.call (hp : Paired s) {req : Request} (hpc : s.pc t = .idle) :
    Paired (s.setPc t (.lockSend req)) := by
  have hs : s.sendMut ≠ some t := hp.not_send (by rw [hpc]; rfl)
  have hr : s.recvMut ≠ some t := hp.not_recv (by rw [hpc]; rfl)
  obtain ⟨hsc, hsu⟩ := sendSide_setPc hs (.lockSend req)
  obtain ⟨hrc, hrb⟩ := recvSide_setPc hr (.lockSend req)
  refine ⟨hp.sendOwner.setPc (by simpa [ClientPc.holdsSend] using hs) fun _ _ => Iff.rfl,
    hp.recvOwner.setPc (by simpa [ClientPc.holdsRecv] using hr) fun _ _ => Iff.rfl,
    ?_, ?_, ?_, hp.nodeReader, hp.clientReader_setPc fun _ _ h => by cases h⟩
  · rw [hsc, hrc]
    exact hp.order
  · obtain ⟨todo, htodo, hwire⟩ := hp.requests
    exact ⟨todo, htodo, by rw [hsu]; exact hwire⟩
  · obtain ⟨due, hdue, hback⟩ := hp.responses
    exact ⟨due, hdue, by rw [hrb]; exact hback⟩

theorem Paired.lockSend (hp : Paired s) {req : Request} (hpc : s.pc t = .lockSend req)
    (hfree : s.sendMut = none) :
    Paired { s.setPc t (.sending req req.bytes) with
      sendMut := some t, sent := s.sent ++ [(t, req)] } := by
  have hr : s.recvMut ≠ some t := hp.not_recv (by rw [hpc]; rfl)
  obtain ⟨hrc, hrb⟩ := recvSide_setPc hr (.sending req req.bytes)
  have hsc : s.sendCalls = [] := by rw [State.sendCalls, hfree]; rfl
  have hsu : s.unsent = [] := by rw [State.unsent, hfree]; rfl
  refine ⟨hp.sendOwner.setPc (by simp [ClientPc.holdsSend]) fun u hu => ?_,
    hp.recvOwner.setPc (by simpa [ClientPc.holdsRecv] using hr) fun _ _ => Iff.rfl,
    ?_, ?_, ?_, hp.nodeReader, hp.clientReader_setPc fun _ _ h => by cases h⟩
  · rw [hfree]
    simp [Ne.symm hu]
  · have horder := hp.order
    rw [hsc, List.append_nil] at horder
    show s.sent ++ [(t, req)] = s.returned.map Return.call ++
      (s.setPc t (.sending req req.bytes)).recvCalls ++ _
    rw [hrc, horder]
    simp [State.sendCalls, ClientPc.sendReq]
  · obtain ⟨todo, htodo, hwire⟩ := hp.requests
    refine ⟨todo ++ [req.frame], ?_, ?_⟩
    · show (s.sent ++ [(t, req)]).map (·.2.frame) = _
      rw [List.map_append, htodo, List.append_assoc]
      rfl
    · rw [Framing.spell_append, hwire, hsu]
      simp [State.unsent, ClientPc.unsent, Request.frame, Request.bytes, State.setPc]
  · obtain ⟨due, hdue, hback⟩ := hp.responses
    exact ⟨due, hdue, hback.trans (by rw [← hrb]; rfl)⟩

theorem Paired.send (hp : Paired s) {req : Request} {rest : List UInt8} (k : ℕ)
    (hpc : s.pc t = .sending req rest) :
    Paired { s.setPc t (.sending req (rest.drop k)) with
      toNode := s.toNode ++ rest.take k } := by
  have hs : s.sendMut = some t := (hp.sendOwner t).mp (by rw [hpc]; rfl)
  have hr : s.recvMut ≠ some t := hp.not_recv (by rw [hpc]; rfl)
  obtain ⟨hrc, hrb⟩ := recvSide_setPc hr (.sending req (rest.drop k))
  refine ⟨hp.sendOwner.setPc (by simp [ClientPc.holdsSend, hs]) fun _ _ => Iff.rfl,
    hp.recvOwner.setPc (by simpa [ClientPc.holdsRecv] using hr) fun _ _ => Iff.rfl,
    ?_, ?_, ?_, hp.nodeReader, hp.clientReader_setPc fun _ _ h => by cases h⟩
  · have horder := hp.order
    have hsc : s.sendCalls = [(t, req)] := by simp [State.sendCalls, hs, hpc, ClientPc.sendReq]
    have hsc' : (s.setPc t (.sending req (rest.drop k))).sendCalls = [(t, req)] := by
      simp [State.sendCalls, State.setPc, hs, ClientPc.sendReq]
    rw [hsc, ← hsc', ← hrc] at horder
    exact horder
  · obtain ⟨todo, htodo, hwire⟩ := hp.requests
    refine ⟨todo, htodo, ?_⟩
    have hsu : s.unsent = rest := by simp [State.unsent, hs, hpc, ClientPc.unsent]
    rw [hwire, hsu]
    simp [State.unsent, State.setPc, hs, ClientPc.unsent]
  · obtain ⟨due, hdue, hback⟩ := hp.responses
    exact ⟨due, hdue, hback.trans (by rw [← hrb]; rfl)⟩

/-- The hand-over: the call moves from the queue for `recv_mut` to its owner. -/
theorem Paired.lockRecv (hp : Paired s) {req : Request} (hpc : s.pc t = .sending req [])
    (hfree : s.recvMut = none) :
    Paired { s.setPc t (.handOver req) with recvMut := some t } := by
  have hs : s.sendMut = some t := (hp.sendOwner t).mp (by rw [hpc]; rfl)
  refine ⟨hp.sendOwner.setPc (by simp [ClientPc.holdsSend, hs]) fun _ _ => Iff.rfl,
    hp.recvOwner.setPc (by simp [ClientPc.holdsRecv]) fun u hu => ?_,
    ?_, ?_, ?_, hp.nodeReader, hp.clientReader_setPc fun _ _ h => by cases h⟩
  · rw [hfree]
    simp [Ne.symm hu]
  · have horder := hp.order
    simp only [State.sendCalls, State.recvCalls, hs, hfree, Option.elim_some, Option.elim_none,
      hpc, ClientPc.sendReq, Option.toList_some, List.map_cons, List.map_nil,
      List.append_nil] at horder
    simp [State.sendCalls, State.recvCalls, State.setPc, hs, horder, ClientPc.sendReq,
      ClientPc.recvReq]
  · obtain ⟨todo, htodo, hwire⟩ := hp.requests
    refine ⟨todo, htodo, hwire.trans ?_⟩
    simp [State.unsent, State.setPc, hs, hpc, ClientPc.unsent]
  · obtain ⟨due, hdue, hback⟩ := hp.responses
    refine ⟨due, hdue, hback.trans ?_⟩
    simp [State.readBytes, State.setPc, hfree, ClientPc.readBytes]

theorem Paired.unlockSend (hp : Paired s) {req : Request} (hpc : s.pc t = .handOver req) :
    Paired { s.setPc t (.receiving req (.head [])) with sendMut := none } := by
  have hs : s.sendMut = some t := (hp.sendOwner t).mp (by rw [hpc]; rfl)
  have hr : s.recvMut = some t := (hp.recvOwner t).mp (by rw [hpc]; rfl)
  refine ⟨hp.sendOwner.setPc (by simp [ClientPc.holdsSend]) fun u hu => ?_,
    hp.recvOwner.setPc (by simp [ClientPc.holdsRecv, hr]) fun _ _ => Iff.rfl,
    ?_, ?_, ?_, hp.nodeReader, hp.clientReader_setPc ?_⟩
  · rw [hs]
    simp [Ne.symm hu]
  · have horder := hp.order
    simp only [State.sendCalls, State.recvCalls, hs, hr, Option.elim_some, hpc, ClientPc.sendReq,
      ClientPc.recvReq, Option.toList_some, Option.toList_none, List.map_cons, List.map_nil,
      List.append_nil] at horder
    simp [State.sendCalls, State.recvCalls, State.setPc, hr, horder, ClientPc.recvReq]
  · obtain ⟨todo, htodo, hwire⟩ := hp.requests
    refine ⟨todo, htodo, hwire.trans ?_⟩
    simp [State.unsent, State.setPc, hs, hpc, ClientPc.unsent]
  · obtain ⟨due, hdue, hback⟩ := hp.responses
    refine ⟨due, hdue, hback.trans ?_⟩
    simp [State.readBytes, State.setPc, hr, hpc, ClientPc.readBytes, Reader.bytes]
  · intro _ _ h
    cases h
    exact Reader.within_start _

/-- The owner of `recv_mut` reads on. -/
theorem Paired.read (hp : Paired s) {req : Request} {reader reader' : Reader UInt8}
    {toClient : List UInt8} (hpc : s.pc t = .receiving req reader)
    (hw : reader'.Within respFraming)
    (hbytes : reader.bytes ++ s.toClient = reader'.bytes ++ toClient) :
    Paired { s.setPc t (.receiving req reader') with toClient := toClient } := by
  have hs : s.sendMut ≠ some t := hp.not_send (by rw [hpc]; rfl)
  have hr : s.recvMut = some t := (hp.recvOwner t).mp (by rw [hpc]; rfl)
  obtain ⟨hsc, hsu⟩ := sendSide_setPc hs (.receiving req reader')
  refine ⟨hp.sendOwner.setPc (by simpa [ClientPc.holdsSend] using hs) fun _ _ => Iff.rfl,
    hp.recvOwner.setPc (by simp [ClientPc.holdsRecv, hr]) fun _ _ => Iff.rfl,
    ?_, ?_, ?_, hp.nodeReader, hp.clientReader_setPc ?_⟩
  · have horder := hp.order
    have hrc : s.recvCalls = [(t, req)] := by simp [State.recvCalls, hr, hpc, ClientPc.recvReq]
    have hrc' : (s.setPc t (.receiving req reader')).recvCalls = [(t, req)] := by
      simp [State.recvCalls, State.setPc, hr, ClientPc.recvReq]
    rw [hrc, ← hrc', ← hsc] at horder
    exact horder
  · obtain ⟨todo, htodo, hwire⟩ := hp.requests
    exact ⟨todo, htodo, hwire.trans (by rw [← hsu]; rfl)⟩
  · obtain ⟨due, hdue, hback⟩ := hp.responses
    refine ⟨due, hdue, hback.trans ?_⟩
    have hrb : s.readBytes = reader.bytes := by simp [State.readBytes, hr, hpc, ClientPc.readBytes]
    rw [hrb, hbytes]
    simp [State.readBytes, State.setPc, hr, ClientPc.readBytes]
  · intro _ _ h
    cases h
    exact hw

/-- The response that was read is the first one due. -/
theorem Paired.unlockRecv (hp : Paired s) {req : Request} {head got : List UInt8}
    (hpc : s.pc t = .receiving req (.body head got))
    (hneed : (Reader.body head got).need respFraming = 0) :
    Paired { s.setPc t .idle with
      recvMut := none, returned := s.returned ++ [⟨(t, req), (head, got)⟩] } := by
  have hs : s.sendMut ≠ some t := hp.not_send (by rw [hpc]; rfl)
  have hr : s.recvMut = some t := (hp.recvOwner t).mp (by rw [hpc]; rfl)
  obtain ⟨hsc, hsu⟩ := sendSide_setPc hs .idle
  refine ⟨hp.sendOwner.setPc (by simpa [ClientPc.holdsSend] using hs) fun _ _ => Iff.rfl,
    hp.recvOwner.setPc (by simp [ClientPc.holdsRecv]) fun u hu => ?_,
    ?_, ?_, ?_, hp.nodeReader, hp.clientReader_setPc fun _ _ h => by cases h⟩
  · rw [hr]
    simp [Ne.symm hu]
  · have horder := hp.order
    have hrc : s.recvCalls = [(t, req)] := by simp [State.recvCalls, hr, hpc, ClientPc.recvReq]
    rw [hrc, ← hsc] at horder
    show s.sent = _
    rw [horder, List.map_append, State.recvCalls, Option.elim_none, List.append_nil]
    rfl
  · obtain ⟨todo, htodo, hwire⟩ := hp.requests
    exact ⟨todo, htodo, hwire.trans (by rw [← hsu]; rfl)⟩
  · obtain ⟨due, hresp⟩ := hp.responses
    have hrb : s.readBytes = head ++ got := by
      simp [State.readBytes, hr, hpc, ClientPc.readBytes, Reader.bytes]
    have hstream := hresp.2
    rw [hrb, List.append_assoc] at hstream
    obtain ⟨due', rfl, hrest⟩ := frame_read (F := respFraming) (by decide)
      (fun f hf => isFrame_of_responded hresp hf) (hp.clientReader t req _ hpc) hneed hstream
    refine ⟨due', ?_, ?_⟩
    · show s.answered.map (·.2.frame) = _
      rw [hresp.1, List.map_append, List.append_assoc]
      rfl
    · rw [hrest, State.readBytes]
      rfl

theorem Paired.client (hp : Paired s) {a : ClientAct} (he : ClientEffect caps s t a s') :
    Paired s' := by
  cases he with
  | call hpc => exact hp.call hpc
  | lockSend hpc hfree => exact hp.lockSend hpc hfree
  | send hpc => exact hp.send _ hpc
  | lockRecv hpc hfree => exact hp.lockRecv hpc hfree
  | unlockSend hpc => exact hp.unlockSend hpc
  | recv hpc _ hneed _ =>
      refine hp.read hpc (Reader.within_feed _ (hp.clientReader _ _ _ hpc) ?_) ?_
      · rw [List.length_take]
        omega
      · rw [Reader.bytes_feed, List.append_assoc, List.take_append_drop]
  | headDone hpc hneed =>
      apply hp.read hpc (Reader.within_body _ (hp.clientReader _ _ _ hpc) hneed)
      simp [Reader.bytes]
  | unlockRecv hpc hneed => exact hp.unlockRecv hpc hneed

section NodeSteps

omit [DecidableEq τ]

/-- The node reads on. -/
theorem Paired.nodeRead (hp : Paired s) {reader reader' : Reader UInt8} {toNode : List UInt8}
    (hnode : s.node = .reading reader) (hw : reader'.Within reqFraming)
    (hbytes : reader.bytes ++ s.toNode = reader'.bytes ++ toNode) :
    Paired { s with node := .reading reader', toNode := toNode } := by
  obtain ⟨todo, htodo, hwire⟩ := hp.requests
  obtain ⟨due, hdue, hback⟩ := hp.responses
  rw [hnode] at htodo hwire hback
  refine ⟨hp.sendOwner, hp.recvOwner, hp.order, ⟨todo, htodo, hwire.trans ?_⟩,
    ⟨due, hdue, hback⟩, ?_, hp.clientReader⟩
  · show reader.bytes ++ s.toNode ++ s.unsent = reader'.bytes ++ toNode ++ s.unsent
    rw [hbytes]
  · intro _ h
    cases h
    exact hw

/-- The request that was read is the first one that is left. -/
theorem Paired.dispatch (hp : Paired s) {head got : List UInt8}
    (hnode : s.node = .reading (.body head got))
    (hneed : (Reader.body head got).need reqFraming = 0) :
    Paired { s with node := .handling head got } := by
  obtain ⟨todo, hreq⟩ := hp.requests
  obtain ⟨due, hdue, hback⟩ := hp.responses
  rw [hnode] at hback
  have hstream : Framing.spell todo = head ++ got ++ (s.toNode ++ s.unsent) := by
    rw [hreq.2, hnode, List.append_assoc]
    rfl
  obtain ⟨rest, rfl, hrest⟩ := frame_read (F := reqFraming) (by decide)
    (fun f hf => isFrame_of_requested hreq hf) (hp.nodeReader _ hnode) hneed hstream
  refine ⟨hp.sendOwner, hp.recvOwner, hp.order, ⟨rest, ?_, hrest⟩, ⟨due, hdue, hback⟩,
    fun _ h => (by cases h), hp.clientReader⟩
  have htodo := hreq.1
  rw [hnode] at htodo
  rw [htodo]
  simp [NodePc.handled]

/-- The answer goes behind the responses that are due. -/
theorem Paired.respond (hp : Paired s) {head body : List UInt8} (remote : N) (resp : Response)
    (hnode : s.node = .handling head body) :
    Paired { s with
      node := .sending resp.bytes
      remote := remote
      answered := s.answered ++ [((head, body), resp)] } := by
  obtain ⟨todo, htodo, hwire⟩ := hp.requests
  obtain ⟨due, hdue, hback⟩ := hp.responses
  rw [hnode] at htodo hwire hback
  refine ⟨hp.sendOwner, hp.recvOwner, hp.order, ⟨todo, ?_, hwire⟩,
    ⟨due ++ [resp.frame], ?_, ?_⟩, fun _ h => (by cases h), hp.clientReader⟩
  · rw [htodo]
    simp [NodePc.handled]
  · simp [hdue]
  · rw [Framing.spell_append, hback]
    simp [NodePc.unsent, State.readBytes, Response.frame, Response.bytes]

theorem Paired.node (hp : Paired s) {a : NodeAct ω} (he : NodeEffect S caps s a s') :
    Paired s' := by
  cases he with
  | recv hnode _ hneed _ =>
      refine hp.nodeRead hnode (Reader.within_feed _ (hp.nodeReader _ hnode) ?_) ?_
      · rw [List.length_take]
        omega
      · rw [Reader.bytes_feed, List.append_assoc, List.take_append_drop]
  | headDone hnode hneed =>
      apply hp.nodeRead hnode (Reader.within_body _ (hp.nodeReader _ hnode) hneed)
      simp [Reader.bytes]
  | dispatch hnode hneed => exact hp.dispatch hnode hneed
  | respond hnode _ => exact hp.respond _ _ hnode
  | send hnode _ _ _ =>
      obtain ⟨todo, htodo, hwire⟩ := hp.requests
      obtain ⟨due, hdue, hback⟩ := hp.responses
      rw [hnode] at htodo hwire hback
      refine ⟨hp.sendOwner, hp.recvOwner, hp.order, ⟨todo, htodo, hwire⟩,
        ⟨due, hdue, hback.trans ?_⟩, fun _ h => (by cases h), hp.clientReader⟩
      simp [NodePc.unsent, State.readBytes]
  | sendDone hnode =>
      obtain ⟨todo, htodo, hwire⟩ := hp.requests
      obtain ⟨due, hdue, hback⟩ := hp.responses
      rw [hnode] at htodo hwire hback
      refine ⟨hp.sendOwner, hp.recvOwner, hp.order, ⟨todo, htodo, hwire⟩,
        ⟨due, hdue, hback⟩, ?_, hp.clientReader⟩
      intro reader h
      cases h
      exact Reader.within_start _

end NodeSteps

theorem Paired.step (hp : Paired s) {l : Label τ ω} (h : (sharedConn τ S caps).step s l s') :
    Paired s' := by
  rcases step_cases h with ⟨_, _, _, he⟩ | ⟨_, _, he⟩ | ⟨_, _, _, _, rfl⟩
  · exact hp.client he
  · exact hp.node he
  · exact ⟨hp.sendOwner, hp.recvOwner, hp.order, hp.requests, hp.responses, hp.nodeReader,
      hp.clientReader⟩

omit [DecidableEq τ] in
theorem paired_start : Paired (State.start S : State τ N) where
  sendOwner t := by simp [State.start, ClientPc.holdsSend]
  recvOwner t := by simp [State.start, ClientPc.holdsRecv]
  order := rfl
  requests := ⟨[], rfl, rfl⟩
  responses := ⟨[], rfl, rfl⟩
  nodeReader := by
    intro reader h
    cases h
    exact Reader.within_start _
  clientReader := by
    intro t req reader h
    cases h

theorem paired (h : (sharedConn τ S caps).Reachable s) : Paired s :=
  h.invariant (fun _ h0 => h0 ▸ paired_start) fun _ _ _ hp hs => hp.step hs

end Steps

/-! ## The pairing -/

section Pairing

variable [DecidableEq τ] {S : NodeSpec N ω} {caps : Caps} {s : State τ N}

theorem getElem?_append_some {α : Type*} {xs : List α} {i : ℕ} {x : α} (h : xs[i]? = some x)
    (ys : List α) : (xs ++ ys)[i]? = some x :=
  (List.getElem?_append_left (List.getElem?_eq_some_iff.mp h).1).trans h

omit [DecidableEq τ] in
/-- The returns, the calls and the answers agree position by position. -/
theorem Paired.returned_get (hp : Paired s) {i : ℕ} {ret : Return τ}
    (hi : s.returned[i]? = some ret) :
    ∃ resp, s.sent[i]? = some ret.call ∧ s.answered[i]? = some (ret.call.2.frame, resp) ∧
      ret.got = resp.frame := by
  have hsent : s.sent[i]? = some ret.call := by
    rw [hp.order, List.append_assoc]
    apply getElem?_append_some
    simp [hi]
  obtain ⟨due, hdue, _⟩ := hp.responses
  obtain ⟨todo, htodo, _⟩ := hp.requests
  -- position `i` is in what was returned, so it is in front of what is on its way
  have hgot : (s.answered.map (·.2.frame))[i]? = some ret.got := by
    rw [hdue]
    apply getElem?_append_some
    simp [hi]
  rw [List.getElem?_map, Option.map_eq_some_iff] at hgot
  obtain ⟨⟨frame, resp⟩, hans, hresp⟩ := hgot
  have hframe : (s.sent.map (·.2.frame))[i]? = some frame := by
    rw [htodo, List.append_assoc]
    apply getElem?_append_some
    simp [hans]
  rw [List.getElem?_map, hsent, Option.map_some] at hframe
  cases hframe
  exact ⟨resp, hsent, hans, hresp.symm⟩

omit [DecidableEq τ] in
/-- When every thread is outside `dic_atomic_send_recv`, everything was sent,
answered and returned. -/
theorem Paired.quiet (hp : Paired s) (hidle : ∀ t, s.pc t = .idle) :
    s.sent = s.returned.map Return.call ∧ s.answered.length = s.returned.length ∧
      s.toNode = [] ∧ s.toClient = [] := by
  -- an owner of a mutex is inside a call
  have hsend : s.sendMut = none := by
    cases hm : s.sendMut with
    | none => rfl
    | some t =>
        have ht := (hp.sendOwner t).mpr hm
        rw [hidle t] at ht
        cases ht
  have hrecv : s.recvMut = none := by
    cases hm : s.recvMut with
    | none => rfl
    | some t =>
        have ht := (hp.recvOwner t).mpr hm
        rw [hidle t] at ht
        cases ht
  have hsent : s.sent = s.returned.map Return.call := by
    have horder := hp.order
    simpa [State.recvCalls, State.sendCalls, hsend, hrecv] using horder
  obtain ⟨todo, htodo, hwire⟩ := hp.requests
  obtain ⟨due, hdue, hback⟩ := hp.responses
  have hreqs := congrArg List.length htodo
  have hresps := congrArg List.length hdue
  rw [hsent] at hreqs
  simp only [List.length_map, List.length_append] at hreqs hresps
  have htodo0 : todo = [] := List.eq_nil_of_length_eq_zero (by omega)
  have hdue0 : due = [] := List.eq_nil_of_length_eq_zero (by omega)
  rw [htodo0, Framing.spell_nil] at hwire
  rw [hdue0, Framing.spell_nil] at hback
  have hnode := List.append_eq_nil_iff.mp (List.append_eq_nil_iff.mp hwire.symm).1
  have hclient := List.append_eq_nil_iff.mp (List.append_eq_nil_iff.mp hback.symm).1
  exact ⟨hsent, by omega, hnode.2, hclient.2⟩

/-- For any number of client threads and calls and any interleaving: the `i`-th
call that returned is the `i`-th that sent its request, it got the head and the
body of the response that the node produced for that request, which was the
`i`-th it read; what was answered and not returned is on its way, byte for byte
and in order; and when no call is going on, every call returned. -/
theorem response_pairing (h : (sharedConn τ S caps).Reachable s) :
    (∀ (i : ℕ) (ret : Return τ), s.returned[i]? = some ret →
      ∃ resp, s.sent[i]? = some ret.call ∧ s.answered[i]? = some (ret.call.2.frame, resp) ∧
        ret.got = resp.frame) ∧
    (∃ due, Responded s due) ∧
    ((∀ t, s.pc t = .idle) → s.sent = s.returned.map Return.call ∧
      s.answered.length = s.returned.length ∧ s.toNode = [] ∧ s.toClient = []) := by
  have hp := paired h
  exact ⟨fun _ _ hi => hp.returned_get hi, hp.responses, hp.quiet⟩

end Pairing

/-- A node that answers every request with one zero byte. -/
def zeroNode : NodeSpec Unit Unit where
  start := ()
  handle _ _ _ _ := some ((), ⟨[0], by decide⟩)
  env _ _ := none

/-- A request of `n` zero bytes. -/
def zeros (operation : DicOperation) (n : ℕ) (h : reqHeadSize + n ≤ intMax) : Request where
  operation := operation.code
  body := List.replicate n 0
  fits := by rwa [List.length_replicate]

def mallocZeros : Request := zeros .malloc 4 (by decide)

def freeZeros : Request := zeros .free 8 (by decide)

/-- Two threads call; the second sends while the first still receives. -/
def overlappingCalls : List (Label Bool Unit) :=
  [.client true (.call mallocZeros), .client false (.call freeZeros),
    .client true .lockSend, .client true (.send 12), .client true .lockRecv,
    .client true .unlockSend, .client false .lockSend, .client false (.send 4),
    .node (.recv 8), .node .headDone, .node (.recv 4), .node .dispatch, .node (.respond ()),
    .node (.send 5), .node .sendDone, .client false (.send 12), .client true (.recv 4),
    .client true .headDone, .client true (.recv 1), .client true .unlockRecv,
    .client false .lockRecv]

theorem response_pairing_run :
    ∃ s : State Bool Unit, (sharedConn Bool zeroNode ⟨16, 16⟩).Reachable s ∧
      ∃ ret, s.returned[0]? = some ret ∧ ∃ resp, s.sent[0]? = some ret.call ∧
        s.answered[0]? = some (ret.call.2.frame, resp) ∧ ret.got = resp.frame := by
  have hrun : (exec zeroNode ⟨16, 16⟩ (fun _ _ => true) overlappingCalls).any
      (fun s => decide (s.returned.length = 1 ∧ s.sent.length = 2)) = true := by
    decide +kernel
  obtain ⟨s, hs, htest⟩ := (Option.any_eq_true _ _).mp hrun
  have hreach : (sharedConn Bool zeroNode ⟨16, 16⟩).Reachable s :=
    (reachable_of_exec (C := fun _ _ => True) (fun _ _ _ => trivial) hs).of_restrict
  obtain ⟨hlen, _⟩ := of_decide_eq_true htest
  have hget : s.returned[0]? = some s.returned[0] := List.getElem?_eq_getElem _
  exact ⟨s, hreach, _, hget, (response_pairing hreach).1 0 _ hget⟩

end Dicon.SharedConn
