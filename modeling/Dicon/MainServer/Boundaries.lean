import Dicon.MainServer.Frames

/-!
# Frame boundaries

The threads should read requests at frame boundaries: of a stream of complete
frames, a thread interprets the headers of the frames, in their order, and
nothing else. Only ANNOUNCE_INFO takes its body off the stream, into a variable
of four bytes, so this holds exactly of the sequences of frames in which no other
operation has a body, and no announcement a longer one. The last frame may have
some bytes too many, if they are too few for a header.
-/

namespace Dicon.MainServer

open Dicon.Framework

/-- The frames that the threads read at their boundaries. -/
def Aligned : List ReqFrame → Prop
  | [] => True
  | f :: fs =>
      if f.operation = DicMainOperation.announceInfo.code then
        f.body.length ≤ reqAnnounceInfoSize ∧ Aligned fs
      else f.body = [] ∧ Aligned fs ∨ fs = [] ∧ f.body.length < reqHeadSize

/-- The peers send frames. -/
def SendsFrames (fs : ConnId → List ReqFrame) (s : Server) (l : ConnId × Action) : Prop :=
  ∀ bytes, l.2 = .peerSend bytes → sentOn l.1 s.shared.history ++ bytes <+: wire (fs l.1)

/-- A header that a thread interprets: its connection, where in the stream of the
connection it was, and what it says. -/
abbrev HeadRead := ConnId × ℕ × ReqHead

/-- The header that a step of a thread interprets, and its place in the stream: the
thread has read what was sent but for what waits, and the header is the end of that. -/
def Handler.headsRead (h : Handler) (sent : List UInt8) : Action → List (ℕ × ReqHead)
  | .recvDone _ =>
      match h.pc with
      | .recvHead got => [(sent.length - (got.length + h.input.length), .ofBytes got)]
      | _ => []
  | _ => []

def headRead (s : Server) (l : ConnId × Action) : List HeadRead :=
  match s.conns l.1 with
  | some h => (h.headsRead (sentOn l.1 s.shared.history) l.2).map (Prod.mk l.1)
  | none => []

/-- Runs of the server in which the peers send `fs`, with the headers that the
threads interpret. -/
def servesFrames (fs : ConnId → List ReqFrame) : Lts (Server × List HeadRead) (ConnId × Action) :=
  (mainServer.restrict (SendsFrames fs)).logged headRead

/-- The headers interpreted on `c`. -/
def readOn (c : ConnId) (log : List HeadRead) : List (ℕ × ReqHead) :=
  log.filterMap fun e => if e.1 = c then some e.2 else none

/-- The operation whose case a thread has taken. -/
def Pc.acts : Pc → Option DicMainOperation
  | .lockAnnounce _ => some .announceInfo
  | .lockGetInfo => some .getInfo
  | _ => none

/-- The operations acted on. -/
def actsOn (c : ConnId) (log : List HeadRead) : List DicMainOperation :=
  (readOn c log).filterMap fun p => (switchOperation p.2).acts

/-- An operation that the protocol knows. -/
def DicMainOperation.ofCode (code : UInt16) : Option DicMainOperation :=
  if code = DicMainOperation.announceInfo.code then some .announceInfo
  else if code = DicMainOperation.getInfo.code then some .getInfo
  else none

def knownOperations (fs : List ReqFrame) : List DicMainOperation :=
  fs.filterMap fun f => DicMainOperation.ofCode f.operation

/-- Everything was sent and received, and no header waits for its `switch`. -/
structure Drained (fs : List ReqFrame) (sent : List UInt8) (h : Handler) : Prop where
  sent : sent = wire fs
  received : h.input = []
  interpreted : ∀ got, h.pc = .recvHead got → got.length < reqHeadSize

/-- Of some of the frames sent, all when nothing is left to do, the thread has
interpreted the headers and acted on the known operations, and on nothing else. -/
structure AtBoundaries (fs : ConnId → List ReqFrame) (p : Server × List HeadRead) : Prop where
  defined : p.1.shared.undefined = false
  heads : ∀ c, ∃ done todo, fs c = done ++ todo ∧ readOn c p.2 = headsFrom 0 done ∧
    actsOn c p.2 = knownOperations done ∧
    ∀ h, p.1.conns c = some h → Drained (fs c) (sentOn c p.1.shared.history) h → todo = []

/-! ## Where a thread is -/

/-- What is to be read next: frames, or too little for a header behind them all. -/
def Remaining (todo : List ReqFrame) (rest : List UInt8) : Prop :=
  rest = wire todo ∨ todo = [] ∧ rest.length < reqHeadSize

/-- Where a thread is that has `todo` in front of it; `rest` is what it has not
received. -/
def Pc.At (todo : List ReqFrame) (rest : List UInt8) : Pc → Prop
  | .recvHead got => got.length ≤ reqHeadSize ∧ Remaining todo (got ++ rest)
  | .lockAnnounce head => ∃ body, recvCount head.bodySize = body.length ∧
      body.length ≤ reqAnnounceInfoSize ∧ rest = body ++ wire todo
  | .recvBody head got => ∃ body, recvCount head.bodySize = body.length ∧
      body.length ≤ reqAnnounceInfoSize ∧ got.length ≤ body.length ∧
      got ++ rest = body ++ wire todo
  | .lockRemove | .remove | .unlockRemove | .destroy | .finished => False
  | _ => Remaining todo rest

/-- A receive has failed: the peer has closed, and no header will be complete. -/
structure Handler.Ended (h : Handler) : Prop where
  closed : h.sockOpen = false
  peerClosed : h.peerClosed = true
  headless : ∀ got, h.pc = .recvHead got → got.length < reqHeadSize

/-- The thread of a connection on which `sent` was sent, `done` interpreted, and
`todo` is to come. -/
def Handler.Tracks (h : Handler) (todo : List ReqFrame) (unsent : List UInt8) : Prop :=
  (h.sockOpen = true ∧ Aligned todo ∧ h.pc.At todo (h.input ++ unsent)) ∨
    (h.Ended ∧ (unsent = [] → todo = []))

theorem Remaining.eq_wire {todo : List ReqFrame} {rest : List UInt8} (h : Remaining todo rest)
    (hlen : reqHeadSize ≤ rest.length) : rest = wire todo := by
  rcases h with h | ⟨_, h⟩
  · exact h
  · omega

theorem Remaining.eq_nil {todo : List ReqFrame} {rest : List UInt8} (h : Remaining todo rest)
    (hlen : rest.length < reqHeadSize) : todo = [] := by
  rcases h with h | ⟨h, _⟩
  · exact eq_nil_of_wire_short (h ▸ hlen)
  · exact h

/-- Whatever a thread does with a header, an aligned frame leaves it in front of
the next one. -/
theorem switchOperation_at {f : ReqFrame} {todo : List ReqFrame} (ha : Aligned (f :: todo)) :
    Aligned todo ∧ (switchOperation f.head).At todo (f.body ++ wire todo) := by
  unfold Aligned at ha
  split at ha
  · next hop =>
      rw [switchOperation_announceInfo hop]
      exact ⟨ha.2, f.body, f.recvCount_head, ha.1, rfl⟩
  · next hop =>
      have hrest : Aligned todo ∧ Remaining todo (f.body ++ wire todo) := by
        rcases ha with ⟨hbody, htodo⟩ | ⟨rfl, hshort⟩
        · exact ⟨htodo, Or.inl (by rw [hbody, List.nil_append])⟩
        · exact ⟨trivial, Or.inr ⟨rfl, by simpa using hshort⟩⟩
      refine ⟨hrest.1, ?_⟩
      unfold switchOperation
      split
      · next hann => exact absurd hann hop
      · split
        · exact hrest.2
        · exact ⟨Nat.zero_le _, hrest.2⟩

section Effects

variable {c : ConnId} {h h' : Handler} {sh sh' : Shared} {a : Action} {todo : List ReqFrame}
  {unsent : List UInt8}

/-- The header of the next frame is complete. -/
theorem head_complete {got : List UInt8} (hpc : h.pc = .recvHead got) (hneed : h.need = 0)
    (hi : h.Tracks todo unsent) :
    h.sockOpen = true ∧ ∃ f todo', todo = f :: todo' ∧ got = f.head.bytes ∧
      h.input ++ unsent = f.body ++ wire todo' ∧ Aligned (f :: todo') := by
  simp only [Handler.need, hpc] at hneed
  rcases hi with ⟨hopen, ha, hat⟩ | ⟨hended, _⟩
  · rw [hpc] at hat
    obtain ⟨hle, hrem⟩ := hat
    have hlen : got.length = reqHeadSize := by omega
    have hwire := hrem.eq_wire (by rw [List.length_append]; omega)
    cases todo with
    | nil =>
        have hzero := congrArg List.length hwire
        rw [List.length_append, wire_nil, List.length_nil, hlen, reqHeadSize] at hzero
        omega
    | cons f todo' =>
        rw [wire_cons, ReqFrame.bytes, List.append_assoc] at hwire
        obtain ⟨hgot, hrest⟩ := List.append_inj hwire (by rw [hlen, f.head.length_bytes])
        exact ⟨hopen, f, todo', rfl, hgot, hrest, ha⟩
  · have hshort := hended.headless got hpc
    omega

/-- A receive that failed fails again. -/
theorem Handler.Ended.effect (he : Effect c h sh a h' sh') (hi : h.Ended) : h'.Ended := by
  obtain ⟨hclosed, hpeer, hheadless⟩ := hi
  cases he with
  | peerSend hopen =>
      rw [hpeer] at hopen
      cases hopen
  | peerClose => exact ⟨hclosed, rfl, hheadless⟩
  | peerAck | peerOther | overrun | appendFault | collectFault | removeFault =>
      exact ⟨hclosed, hpeer, hheadless⟩
  | recvHead _ hrecv | recvBody _ hrecv =>
      have hopen := hrecv.1
      rw [hclosed] at hopen
      cases hopen
  -- no header will be complete
  | headDone hpc hneed =>
      have hshort := hheadless _ hpc
      simp only [Handler.need, hpc] at hneed
      omega
  | headFail =>
      refine ⟨rfl, hpeer, ?_⟩
      intro got hpc'
      cases hcn : h.isComputeNode <;> simp [hcn] at hpc'
  | bodyFail | destroy =>
      refine ⟨rfl, hpeer, ?_⟩
      intro got hpc'
      cases hpc'
  | bodyDone | append | collect | remove =>
      refine ⟨hclosed, hpeer, ?_⟩
      intro got hpc'
      cases hpc'
  | lock hpc =>
      refine ⟨hclosed, hpeer, ?_⟩
      intro got hpc'
      rcases afterLock_cases hpc with ⟨_, _, rfl⟩ | ⟨_, rfl⟩ | ⟨_, rfl⟩ <;> cases hpc'
  | send hpc =>
      refine ⟨hclosed, hpeer, ?_⟩
      intro got hpc'
      rcases afterSend_cases hpc with
        ⟨_, _, rfl, _⟩ | ⟨_, _, rfl, _⟩ | ⟨_, _, rfl, _⟩ | ⟨_, _, rfl, _⟩ <;> cases hpc'
  | unlock hpc =>
      refine ⟨hclosed, hpeer, ?_⟩
      intro got hpc'
      rcases afterUnlock_cases hpc with ⟨_, rfl⟩ | ⟨_, rfl⟩ <;> cases hpc'
      decide

/-- What the thread has received is part of what it had in front of it. -/
theorem unread_recv (got input unsent : List UInt8) (k : ℕ) :
    got ++ input.take k ++ (input.drop k ++ unsent) = got ++ (input ++ unsent) := by
  rw [List.append_assoc, ← List.append_assoc (input.take k), List.take_append_drop]

/-- A receive only fails behind everything that the peer sent. -/
theorem recvFails_open (hopen : h.sockOpen = true) (hfails : h.RecvFails) :
    h.input = [] ∧ h.peerClosed = true := by
  rcases hfails.2 with hclosed | hend
  · rw [hopen] at hclosed
    cases hclosed
  · exact hend

/-- A step that neither sends nor interprets a header keeps the frames in front
of the thread. -/
theorem tracks_open (he : Effect c h sh a h' sh')
    (hhead : ∀ got junk, h.pc = .recvHead got → a ≠ .recvDone junk)
    (hsend : ∀ bytes, a ≠ .peerSend bytes) (hopen : h.sockOpen = true) (ha : Aligned todo)
    (hat : h.pc.At todo (h.input ++ unsent)) : h'.Tracks todo unsent := by
  cases he with
  | @peerSend bytes => exact absurd rfl (hsend bytes)
  | @headDone junk got hpc => exact absurd rfl (hhead got junk hpc)
  | peerClose | peerAck | peerOther | overrun | appendFault | collectFault | removeFault =>
      exact Or.inl ⟨hopen, ha, hat⟩
  | @recvHead k got hpc hrecv =>
      obtain ⟨_, _, hk, hinput⟩ := hrecv
      simp only [Handler.need, hpc] at hk
      rw [hpc] at hat
      refine Or.inl ⟨hopen, ha, ?_, ?_⟩
      · rw [List.length_append, List.length_take_of_le hinput]
        have hle := hat.1
        omega
      · rw [unread_recv]
        exact hat.2
  | @recvBody k head got hpc hrecv =>
      obtain ⟨_, _, hk, hinput⟩ := hrecv
      simp only [Handler.need, hpc] at hk
      rw [hpc] at hat
      obtain ⟨body, hcount, hroom, hle, hfront⟩ := hat
      refine Or.inl ⟨hopen, ha, body, hcount, hroom, ?_, ?_⟩
      · rw [List.length_append, List.length_take_of_le hinput]
        omega
      · rw [unread_recv]
        exact hfront
  -- a receive fails only behind everything sent: no header waits there
  | headFail hpc hfails =>
      obtain ⟨hempty, hpeer⟩ := recvFails_open hopen hfails
      have hneed := hfails.1
      simp only [Handler.need, hpc] at hneed
      rw [hpc, hempty] at hat
      refine Or.inr ⟨⟨rfl, hpeer, ?_⟩, ?_⟩
      · intro got hpc'
        cases hcn : h.isComputeNode <;> simp [hcn] at hpc'
      · rintro rfl
        rw [List.append_nil] at hat
        exact hat.2.eq_nil (by rw [List.append_nil]; omega)
  | bodyFail hpc hfails =>
      obtain ⟨hempty, hpeer⟩ := recvFails_open hopen hfails
      have hneed := hfails.1
      simp only [Handler.need, hpc] at hneed
      rw [hpc, hempty] at hat
      obtain ⟨body, hcount, _, _, hfront⟩ := hat
      refine Or.inr ⟨⟨rfl, hpeer, ?_⟩, ?_⟩
      · intro got hpc'
        cases hpc'
      · -- the body is not complete, so not everything was sent
        rintro rfl
        have hlen := congrArg List.length hfront
        simp only [List.append_nil, List.length_append] at hlen
        omega
  | bodyDone hpc hneed =>
      simp only [Handler.need, hpc] at hneed
      rw [hpc] at hat
      obtain ⟨body, hcount, _, hle, hfront⟩ := hat
      exact Or.inl ⟨hopen, ha, Or.inl (List.append_inj hfront (by omega)).2⟩
  | append hpc | collect hpc =>
      rw [hpc] at hat
      exact Or.inl ⟨hopen, ha, hat⟩
  | remove hpc | destroy hpc =>
      rw [hpc] at hat
      exact hat.elim
  | lock hpc =>
      rcases afterLock_cases hpc with ⟨head, hp, rfl⟩ | ⟨hp, rfl⟩ | ⟨hp, rfl⟩
      · rw [hp] at hat
        obtain ⟨body, hcount, hroom, hfront⟩ := hat
        exact Or.inl ⟨hopen, ha, body, hcount, hroom, Nat.zero_le _, hfront⟩
      · rw [hp] at hat
        exact Or.inl ⟨hopen, ha, hat⟩
      · rw [hp] at hat
        exact hat.elim
  | send hpc =>
      rcases afterSend_cases hpc with
        ⟨_, hp, rfl, _⟩ | ⟨_, hp, rfl, _⟩ | ⟨_, hp, rfl, _⟩ | ⟨_, hp, rfl, _⟩ <;>
        (rw [hp] at hat; exact Or.inl ⟨hopen, ha, hat⟩)
  -- the next header starts where the thread is in the stream
  | unlock hpc =>
      rcases afterUnlock_cases hpc with ⟨hp, rfl⟩ | ⟨hp, rfl⟩
      · rw [hp] at hat
        exact Or.inl ⟨hopen, ha, Nat.zero_le _, hat⟩
      · rw [hp] at hat
        exact hat.elim

end Effects

/-! ## Runs -/

/-- The log of a connection on which `sent` was sent, of the frames `fs`. -/
def Following (fs : List ReqFrame) (sent : List UInt8) (read : List (ℕ × ReqHead)) :
    Option Handler → Prop
  | none => sent = [] ∧ read = []
  | some h => ∃ done todo unsent, fs = done ++ todo ∧ read = headsFrom 0 done ∧
      sent ++ unsent = wire fs ∧ h.Tracks todo unsent

section Effects

variable {c : ConnId} {h h' : Handler} {sh sh' : Shared} {a : Action} {fs : List ReqFrame}
  {sent : List UInt8} {read : List (ℕ × ReqHead)}

theorem following_send {bytes : List UInt8} (hsend : sent ++ bytes <+: wire fs)
    (hopen : h.peerClosed = false) (hi : Following fs sent read (some h)) :
    Following fs (sent ++ bytes) read (some { h with input := h.input ++ bytes }) := by
  obtain ⟨done, todo, unsent, hfs, hread, hsent, htracks⟩ := hi
  obtain ⟨rest, hrest⟩ := hsend
  have hunsent : unsent = bytes ++ rest := by
    rw [← hsent, List.append_assoc] at hrest
    exact (List.append_cancel_left hrest).symm
  refine ⟨done, todo, rest, hfs, hread, hrest, ?_⟩
  rcases htracks with ⟨hsock, ha, hat⟩ | ⟨hended, _⟩
  · refine Or.inl ⟨hsock, ha, ?_⟩
    show h.pc.At todo (h.input ++ bytes ++ rest)
    rw [List.append_assoc, ← hunsent]
    exact hat
  · have hclosed := hended.peerClosed
    rw [hopen] at hclosed
    cases hclosed

theorem following_head {got : List UInt8} (hpc : h.pc = .recvHead got) (hneed : h.need = 0)
    (hi : Following fs sent read (some h)) :
    Following fs sent
      (read ++ [(sent.length - (got.length + h.input.length), .ofBytes got)])
      (some { h with pc := switchOperation (.ofBytes got) }) := by
  obtain ⟨done, todo, unsent, hfs, hread, hsent, htracks⟩ := hi
  obtain ⟨hopen, f, todo', rfl, rfl, hrest, ha⟩ := head_complete hpc hneed htracks
  obtain ⟨ha', hat⟩ := switchOperation_at ha
  refine ⟨done ++ [f], todo', unsent, by rw [hfs, List.append_assoc]; rfl, ?_, hsent, ?_⟩
  · -- what is not read yet are the frames from this one on
    have hall := congrArg List.length hsent
    have hleft := congrArg List.length hrest
    rw [hfs, wire_append, wire_cons] at hall
    simp only [List.length_append, ReqFrame.length_bytes] at hall hleft
    have hoff : sent.length - (f.head.bytes.length + h.input.length) = (wire done).length := by
      rw [f.head.length_bytes]
      omega
    rw [hoff, f.head.ofBytes_bytes, headsFrom_append, hread, Nat.zero_add]
    rfl
  · refine Or.inl ⟨hopen, ha', ?_⟩
    rw [f.head.ofBytes_bytes]
    show (switchOperation f.head).At todo' (h.input ++ unsent)
    rw [hrest]
    exact hat

theorem following_effect (he : Effect c h sh a h' sh')
    (hsend : ∀ bytes, a = .peerSend bytes → sent ++ bytes <+: wire fs)
    (hi : Following fs sent read (some h)) :
    Following fs (sent ++ a.sent) (read ++ h.headsRead sent a) (some h') := by
  by_cases hhead : ∃ got junk, h.pc = .recvHead got ∧ a = .recvDone junk
  · -- a header is interpreted: one frame moves from `todo` to `done`
    obtain ⟨got, junk, hpc, rfl⟩ := hhead
    cases he with
    | headDone hpc' hneed =>
        rw [hpc] at hpc'
        cases hpc'
        have hnew := following_head hpc hneed hi
        simpa only [Action.sent, List.append_nil, Handler.headsRead, hpc] using hnew
    | bodyDone hpc' =>
        rw [hpc] at hpc'
        cases hpc'
  · have hquiet : h.headsRead sent a = [] := by
      unfold Handler.headsRead
      split
      · next junk =>
          split
          · next got hpc => exact absurd ⟨got, junk, hpc, rfl⟩ hhead
          · rfl
      · rfl
    rw [hquiet, List.append_nil]
    by_cases hbytes : ∃ bytes, a = .peerSend bytes
    · obtain ⟨bytes, rfl⟩ := hbytes
      cases he with
      | peerSend hopen => exact following_send (hsend bytes rfl) hopen hi
    · have hsilent : a.sent = [] := by
        cases a with
        | peerSend bytes => exact absurd ⟨bytes, rfl⟩ hbytes
        | _ => rfl
      rw [hsilent, List.append_nil]
      obtain ⟨done, todo, unsent, hfs, hread, hsent, htracks⟩ := hi
      refine ⟨done, todo, unsent, hfs, hread, hsent, ?_⟩
      rcases htracks with ⟨hopen, ha, hat⟩ | ⟨hended, hall⟩
      · exact tracks_open he (fun got junk hpc hdone => hhead ⟨got, junk, hpc, hdone⟩)
          (fun bytes hb => hbytes ⟨bytes, hb⟩) hopen ha hat
      · exact Or.inr ⟨hended.effect he, hall⟩

/-- A thread with aligned frames in front of it does not overrun its variable. -/
theorem following_room {k : ℕ} {head : ReqHead} {got : List UInt8}
    (hi : Following fs sent read (some h)) (hpc : h.pc = .recvBody head got)
    (hrecv : h.CanRecv k) : got.length + k ≤ reqAnnounceInfoSize := by
  obtain ⟨hopen, _, hk, _⟩ := hrecv
  obtain ⟨done, todo, unsent, _, _, _, htracks⟩ := hi
  rcases htracks with ⟨_, _, hat⟩ | ⟨hended, _⟩
  · simp only [Handler.need, hpc] at hk
    rw [hpc] at hat
    obtain ⟨body, hcount, hroom, hle, _⟩ := hat
    omega
  · have hclosed := hended.closed
    rw [hopen] at hclosed
    cases hclosed

end Effects

theorem readOn_append (c : ConnId) (log log' : List HeadRead) :
    readOn c (log ++ log') = readOn c log ++ readOn c log' :=
  List.filterMap_append

theorem readOn_own (c : ConnId) (read : List (ℕ × ReqHead)) :
    readOn c (read.map (Prod.mk c)) = read := by
  simp [readOn, List.filterMap_map]

theorem readOn_other {c d : ConnId} (hd : d ≠ c) (read : List (ℕ × ReqHead)) :
    readOn d (read.map (Prod.mk c)) = [] := by
  simp [readOn, List.filterMap_map, Ne.symm hd]

/-- Every connection follows its frames. -/
structure Follows (fs : ConnId → List ReqFrame) (p : Server × List HeadRead) : Prop where
  defined : p.1.shared.undefined = false
  conns : ∀ c, Following (fs c) (sentOn c p.1.shared.history) (readOn c p.2) (p.1.conns c)

theorem headRead_accept {s : Server} {c : ConnId} (hc : s.conns c = none) (a : Action) :
    headRead s (c, a) = [] := by
  rw [headRead, hc]

theorem headRead_conn {s : Server} {c : ConnId} {h : Handler} (hc : s.conns c = some h)
    (a : Action) :
    headRead s (c, a) = (h.headsRead (sentOn c s.shared.history) a).map (Prod.mk c) := by
  rw [headRead, hc]

theorem Follows.accept {fs : ConnId → List ReqFrame} (hfs : ∀ c, Aligned (fs c)) {s : Server}
    {log : List HeadRead} (hi : Follows fs (s, log)) {c : ConnId} (hc : s.conns c = none)
    (ip : IpAddr) :
    Follows fs ({ s with conns := Function.update s.conns c (some (.new ip)) }, log) := by
  refine ⟨hi.defined, fun d => ?_⟩
  show Following (fs d) _ _ (Function.update s.conns c (some (.new ip)) d)
  by_cases hdc : d = c
  · subst hdc
    have hnone := hi.conns d
    simp only [hc, Following] at hnone
    obtain ⟨hsent, hread⟩ := hnone
    rw [Function.update_self]
    refine ⟨[], fs d, wire (fs d), rfl, hread, ?_, Or.inl ⟨rfl, hfs d, ?_⟩⟩
    · show sentOn d s.shared.history ++ _ = _
      rw [hsent, List.nil_append]
    · exact ⟨Nat.zero_le _, Or.inl rfl⟩
  · rw [Function.update_of_ne hdc]
    exact hi.conns d

theorem Follows.effect {fs : ConnId → List ReqFrame} {s : Server} {log : List HeadRead}
    (hi : Follows fs (s, log)) (hinv : Inv s) {c : ConnId} {hd hd' : Handler} {sh' : Shared}
    {a : Action} (hc : s.conns c = some hd) (he : Effect c hd s.shared a hd' sh')
    (hsend : SendsFrames fs s (c, a)) :
    Follows fs (⟨Function.update s.conns c (some hd'), sh'⟩, log ++ headRead s (c, a)) := by
  have hown : Following (fs c) (sentOn c s.shared.history) (readOn c log) (some hd) :=
    hc ▸ hi.conns c
  constructor
  · rcases hinv.undefined_step hc he with hsame | ⟨k, head, got, _, hpc, hrecv, hlt⟩
    · exact hsame.trans hi.defined
    · have hroom := following_room hown hpc hrecv
      omega
  · intro d
    show Following (fs d) (sentOn d sh'.history) (readOn d (log ++ headRead s (c, a)))
      (Function.update s.conns c (some hd') d)
    rw [headRead_conn hc, readOn_append]
    by_cases hdc : d = c
    · subst hdc
      rw [Function.update_self, readOn_own, effect_sentOn he]
      exact following_effect he hsend hown
    · rw [Function.update_of_ne hdc, readOn_other hdc, List.append_nil,
        effect_sentOn_other he hdc]
      exact hi.conns d

theorem follows {fs : ConnId → List ReqFrame} (hfs : ∀ c, Aligned (fs c))
    {p : Server × List HeadRead} (h : (servesFrames fs).Reachable p) : Follows fs p := by
  refine h.invariant_of ?_ ?_
  · rintro ⟨s, log⟩ ⟨hs, rfl⟩
    have hstart : s = .start := hs
    subst hstart
    exact ⟨rfl, fun c => ⟨rfl, rfl⟩⟩
  · rintro ⟨s, log⟩ ⟨c, a⟩ ⟨t, log'⟩ hr hi ⟨⟨hsend, hstep⟩, hlog⟩
    have hinv : Inv s := inv_of_reachable hr.of_logged.of_restrict
    have hnew : log' = log ++ headRead s (c, a) := hlog
    subst hnew
    rcases step_cases hstep with ⟨ip, hc, rfl⟩ | ⟨hd, hd', sh', hc, he, rfl⟩
    · rw [headRead_accept hc, List.append_nil]
      exact hi.accept hfs hc ip
    · exact hi.effect hinv hc he hsend

theorem acts_switchOperation (head : ReqHead) :
    (switchOperation head).acts = DicMainOperation.ofCode head.operation := by
  unfold switchOperation DicMainOperation.ofCode
  split
  · rfl
  · split <;> rfl

theorem acts_headsFrom (off : ℕ) (fs : List ReqFrame) :
    (headsFrom off fs).filterMap (fun p => (switchOperation p.2).acts) = knownOperations fs := by
  induction fs generalizing off with
  | nil => rfl
  | cons f fs ih =>
      rw [headsFrom, knownOperations, List.filterMap_cons, List.filterMap_cons, ih,
        acts_switchOperation]
      rfl

/-- Nothing is in front of a thread that is done. -/
theorem Drained.todo_nil {fs todo : List ReqFrame} {sent unsent : List UInt8} {h : Handler}
    (hd : Drained fs sent h) (hsent : sent ++ unsent = wire fs) (ht : h.Tracks todo unsent) :
    todo = [] := by
  have hunsent : unsent = [] := by
    rw [hd.sent] at hsent
    exact List.append_right_eq_self.mp hsent
  subst hunsent
  rcases ht with ⟨_, _, hat⟩ | ⟨_, hall⟩
  · rw [hd.received, List.nil_append] at hat
    have hshort : ([] : List UInt8).length < reqHeadSize := by decide
    cases hpc : h.pc with
    | recvHead got =>
        rw [hpc] at hat
        exact hat.2.eq_nil (by rw [List.append_nil]; exact hd.interpreted got hpc)
    | lockAnnounce head =>
        rw [hpc] at hat
        obtain ⟨body, _, _, hfront⟩ := hat
        have hnil := (List.append_eq_nil_iff.mp hfront.symm).2
        exact eq_nil_of_wire_short (by rw [hnil]; exact hshort)
    | recvBody head got =>
        rw [hpc] at hat
        obtain ⟨body, _, _, hle, hfront⟩ := hat
        apply eq_nil_of_wire_short
        have hlen := congrArg List.length hfront
        rw [List.append_nil, List.length_append] at hlen
        rw [reqHeadSize]
        omega
    | lockRemove | remove | unlockRemove | destroy | finished =>
        rw [hpc] at hat
        exact hat.elim
    | sendAckHead | sendAckBody | append | lockGetInfo | collect | sendInfoHead | sendInfoBody
    | unlock =>
        rw [hpc] at hat
        exact Remaining.eq_nil hat hshort
  · exact hall rfl

theorem atBoundaries {fs : ConnId → List ReqFrame} (hfs : ∀ c, Aligned (fs c))
    {p : Server × List HeadRead} (h : (servesFrames fs).Reachable p) : AtBoundaries fs p := by
  have hf := follows hfs h
  refine ⟨hf.defined, fun c => ?_⟩
  have hc := hf.conns c
  cases hconn : p.1.conns c with
  | none =>
      rw [hconn] at hc
      refine ⟨[], fs c, rfl, hc.2, ?_, fun h hh => by cases hh⟩
      rw [actsOn, hc.2]
      rfl
  | some hd =>
      rw [hconn] at hc
      obtain ⟨done, todo, unsent, hsplit, hread, hsent, htracks⟩ := hc
      refine ⟨done, todo, hsplit, hread, ?_, ?_⟩
      · rw [actsOn, hread]
        exact acts_headsFrom 0 done
      · rintro _ ⟨⟩ hdrained
        exact hdrained.todo_nil hsent htracks

/-! ## Frames that are not aligned -/

/-- The thread has eight bytes that begin right behind the header of a frame with
a body, and takes them for a header. -/
def InsideBody (fs : List ReqFrame) (c : ConnId) (s : Server) : Prop :=
  ∃ h got before f after, fs = before ++ f :: after ∧ f.body ≠ [] ∧ Running s c h ∧
    h.pc = .recvHead got ∧ got.length = reqHeadSize ∧
    got.length + h.input.length = f.body.length + (wire after).length

theorem InsideBody.cons {f : ReqFrame} {fs : List ReqFrame} {c : ConnId} {s : Server}
    (h : InsideBody fs c s) : InsideBody (f :: fs) c s := by
  obtain ⟨hd, got, before, g, after, rfl, hrest⟩ := h
  exact ⟨hd, got, f :: before, g, after, rfl, hrest⟩

/-- A body that was left behind is read as a header, if it and what follows are
long enough for one. -/
theorem reads_body {s : Server} {c : ConnId} {h : Handler} {f : ReqFrame} {fs : List ReqFrame}
    (hb : BetweenRequests s c h (f.body ++ wire fs)) (hopen : h.sockOpen = true)
    (hbody : f.body ≠ []) (hlong : fs = [] → reqHeadSize ≤ f.body.length) :
    ∃ t, serverAlone.Steps s t ∧ InsideBody (f :: fs) c t := by
  have hlen : reqHeadSize ≤ (f.body ++ wire fs).length := by
    rw [List.length_append]
    cases fs with
    | nil =>
        have hle := hlong rfl
        omega
    | cons g fs =>
        rw [wire_cons, List.length_append, g.length_bytes]
        omega
  obtain ⟨t, x, hgo, hrun, hpc, hin, _⟩ := receives_head hb.toRunning hb.pc hopen
    (Nat.zero_le _) (by rw [List.nil_append, hb.input]; exact hlen)
  rw [List.nil_append, hb.input] at hpc hin
  refine ⟨t, hgo.steps, x, _, [], f, fs, rfl, hbody, hrun, hpc, ?_, ?_⟩
  · rw [List.length_take]
    omega
  · rw [hin, ← List.length_append, List.take_append_drop, List.length_append]

/-- Behind frames that are not aligned the thread gets into a body, or overruns
its variable. -/
theorem misreads {fs : List ReqFrame} {s : Server} {c : ConnId} {h : Handler}
    (hnot : ¬ Aligned fs) (hb : BetweenRequests s c h (wire fs)) (hopen : h.sockOpen = true) :
    ∃ t, serverAlone.Steps s t ∧ (t.shared.undefined = true ∨ InsideBody fs c t) := by
  induction fs generalizing s h with
  | nil => exact absurd trivial hnot
  | cons f fs ih =>
      rw [wire_cons] at hb
      unfold Aligned at hnot
      -- once the frame is served, the rest of the stream decides
      have hnext : ∀ {t h'}, ¬ Aligned fs → serverAlone.Steps s t →
          BetweenRequests t c h' (wire fs) → h'.sockOpen = true →
          ∃ u, serverAlone.Steps s u ∧ (u.shared.undefined = true ∨ InsideBody (f :: fs) c u) := by
        intro t h' hfs hst hb' hopen'
        obtain ⟨u, htu, hu⟩ := ih hfs hb' hopen'
        exact ⟨u, hst.trans htu, hu.imp_right InsideBody.cons⟩
      split at hnot
      · next hop =>
          by_cases hfits : f.body.length ≤ reqAnnounceInfoSize
          · obtain ⟨t, h', hgo, hb', hopen'⟩ := takes_announce hb hopen hop hfits
            exact hnext (fun ha => hnot ⟨hfits, ha⟩) hgo.steps hb' hopen'
          · obtain ⟨t, hst, hundef⟩ := overruns_announce hb hopen hop (Nat.lt_of_not_le hfits)
            exact ⟨t, hst, Or.inl hundef⟩
      · next hop =>
          rw [not_or] at hnot
          obtain ⟨t, h', hgo, hb', hopen'⟩ := leaves_body hb hopen hop
          by_cases hbody : f.body = []
          · rw [hbody, List.nil_append] at hb'
            exact hnext (fun ha => hnot.1 ⟨hbody, ha⟩) hgo.steps hb' hopen'
          · obtain ⟨u, htu, hu⟩ := reads_body hb' hopen' hbody
              fun hnil => Nat.le_of_not_lt fun hshort => hnot.2 ⟨hnil, hshort⟩
            exact ⟨u, hgo.steps.trans htu, Or.inr hu⟩

/-- The server alone sends nothing on behalf of a peer. -/
theorem sentOn_alone {s t : Server} (h : serverAlone.Steps s t) (c : ConnId) :
    sentOn c t.shared.history = sentOn c s.shared.history := by
  refine h.preserves (I := fun u => sentOn c u.shared.history = sentOn c s.shared.history) ?_ rfl
  rintro u ⟨d, a⟩ v hu ⟨hserver, hstep⟩
  rcases step_cases hstep with ⟨ip, _, rfl⟩ | ⟨hd, hd', sh', _, he, rfl⟩
  · exact hu
  · refine Eq.trans ?_ hu
    by_cases hcd : c = d
    · subst hcd
      rw [effect_sentOn he]
      cases a with
      | peerSend => cases hserver
      | _ => exact List.append_nil _
    · exact effect_sentOn_other he hcd

/-- All frames of `c` are sent at once, to a server that has just started. -/
def allSent (c : ConnId) (bytes : List UInt8) : Server where
  conns := Function.update Server.start.conns c
    (some { Handler.new ⟨2, 16777343, Vector.replicate 12 0⟩ with input := bytes })
  shared := { Server.start.shared with history := [.requestSent c bytes] }

theorem reachable_allSent (fs : ConnId → List ReqFrame) (c : ConnId) :
    (mainServer.restrict (SendsFrames fs)).Reachable (allSent c (wire (fs c))) := by
  have hstart : (mainServer.restrict (SendsFrames fs)).Reachable .start := .init rfl
  have haccept : (mainServer.restrict (SendsFrames fs)).Reachable { Server.start with
      conns := Function.update Server.start.conns c
        (some (.new ⟨2, 16777343, Vector.replicate 12 0⟩)) } := by
    refine hstart.step (l := (c, .accept ⟨2, 16777343, Vector.replicate 12 0⟩)) ⟨?_, ?_⟩
    · intro bytes hbytes
      cases hbytes
    · simp [mainServer, Server.step?, Server.start]
  refine haccept.step (l := (c, .peerSend (wire (fs c)))) ⟨?_, ?_⟩
  · rintro bytes ⟨⟩
    exact List.prefix_refl _
  · simp [mainServer, Server.step?, Server.start, Handler.act, Handler.new, allSent]

/-- Where in its stream the header is that a thread inside a body has. -/
theorem InsideBody.offset {before after : List ReqFrame} {f : ReqFrame} {sent got : List UInt8}
    {h : Handler} (hsent : sent = wire (before ++ f :: after))
    (hleft : got.length + h.input.length = f.body.length + (wire after).length) :
    sent.length - (got.length + h.input.length) = (wire before).length + reqHeadSize := by
  rw [hsent, wire_append, wire_cons]
  simp only [List.length_append, ReqFrame.length_bytes]
  omega

/-- A thread inside a body interprets a header that begins where no frame does. -/
theorem InsideBody.misread {fs : ConnId → List ReqFrame} {c : ConnId} {t : Server}
    {log : List HeadRead} (hin : InsideBody (fs c) c t)
    (hsent : sentOn c t.shared.history = wire (fs c))
    (hlog : (servesFrames fs).Reachable (t, log)) :
    ∃ p, (servesFrames fs).Reachable p ∧ ¬ AtBoundaries fs p := by
  obtain ⟨h, got, before, f, after, hfs, hbody, hrun, hpc, hgot, hleft⟩ := hin
  have hneed : h.need = 0 := by
    simp only [Handler.need, hpc]
    omega
  have heff : Effect c h t.shared (.recvDone 0)
      { h with pc := switchOperation (.ofBytes got) } t.shared := .headDone hpc hneed
  have hnext : (servesFrames fs).Reachable
      (⟨Function.update t.conns c (some { h with pc := switchOperation (.ofBytes got) }),
        t.shared⟩, log ++ headRead t (c, .recvDone 0)) := by
    refine hlog.step (l := (c, .recvDone 0)) ⟨⟨?_, hrun.step heff rfl⟩, rfl⟩
    intro bytes hbytes
    cases hbytes
  refine ⟨_, hnext, fun hat => ?_⟩
  obtain ⟨done, todo, hsplit, hread, _⟩ := hat.heads c
  have hoff := InsideBody.offset (hsent.trans (congrArg wire hfs)) hleft
  have hmem : ((wire before).length + reqHeadSize, ReqHead.ofBytes got) ∈
      readOn c (log ++ headRead t (c, .recvDone 0)) := by
    rw [headRead_conn hrun.conn, readOn_append, readOn_own, Handler.headsRead, hpc, ← hoff]
    exact List.mem_append_right _ List.mem_cons_self
  -- had it been interpreted at a boundary, a frame would begin there
  have hframe : ((wire before).length + reqHeadSize, ReqHead.ofBytes got) ∈
      headsFrom 0 (before ++ f :: after) := by
    rw [← hfs, hsplit, headsFrom_append, ← hread]
    exact List.mem_append_left _ hmem
  exact not_mem_headsFrom hbody _ hframe

/-- A connection whose frames are not aligned is misread when all of them arrive at
once and nobody else is there. -/
theorem misread_of_not_aligned {fs : ConnId → List ReqFrame} {c : ConnId}
    (hnot : ¬ Aligned (fs c)) :
    ∃ p, (servesFrames fs).Reachable p ∧ ¬ AtBoundaries fs p := by
  have hreach := reachable_allSent fs c
  have hown : (allSent c (wire (fs c))).conns c = some _ := Function.update_self ..
  obtain ⟨t, hst, ht⟩ := misreads hnot
    ⟨⟨inv_of_reachable hreach.of_restrict, rfl, hown⟩, rfl, rfl, rfl⟩ rfl
  have hsends : (mainServer.restrict (SendsFrames fs)).Steps (allSent c (wire (fs c))) t := by
    refine hst.restrict_mono ?_
    rintro s ⟨d, a⟩ hserver bytes rfl
    cases hserver
  have hlogged : ∃ log, (servesFrames fs).Reachable (t, log) :=
    (hreach.steps hsends).exists_log
  obtain ⟨log, hlog⟩ := hlogged
  rcases ht with hundef | hin
  · refine ⟨(t, log), hlog, fun hat => ?_⟩
    have hdef := hat.defined
    rw [hundef] at hdef
    cases hdef
  · refine hin.misread ?_ hlog
    rw [sentOn_alone hst c]
    simp [allSent, sentOn, Event.sentOn, Server.start]

/-- Whatever frames the peers send, the threads interpret the headers of the frames
and nothing else in every run if and only if the frames of every connection are
aligned. -/
theorem requests_at_boundaries (fs : ConnId → List ReqFrame) :
    (∀ p, (servesFrames fs).Reachable p → AtBoundaries fs p) ↔ ∀ c, Aligned (fs c) := by
  constructor
  · intro hall c
    by_contra hnot
    obtain ⟨p, hp, hmis⟩ := misread_of_not_aligned hnot
    exact hmis (hall p hp)
  · intro hfs p hp
    exact atBoundaries hfs hp

/-- A query whose body spells another query. -/
def queryInQuery : ReqFrame where
  operation := DicMainOperation.getInfo.code
  version := 1
  body := ReqHead.bytes ⟨DicMainOperation.getInfo.code, 1, 0⟩
  fits := by decide

/-- The thread acts on the query in the body as well. -/
theorem body_read_as_request :
    ¬ ∀ fs p, (servesFrames fs).Reachable p → AtBoundaries fs p := by
  intro hall
  have hnot : ¬ Aligned [queryInQuery] := by
    rintro (⟨hbody, _⟩ | ⟨_, hshort⟩)
    · exact absurd hbody (by decide)
    · exact absurd hshort (by decide)
  obtain ⟨p, hp, hmis⟩ : ∃ p, (servesFrames fun _ => [queryInQuery]).Reachable p ∧
      ¬ AtBoundaries (fun _ => [queryInQuery]) p :=
    misread_of_not_aligned (c := 0) hnot
  exact hmis (hall _ p hp)

end Dicon.MainServer
