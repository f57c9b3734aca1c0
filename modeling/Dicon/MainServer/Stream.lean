import Dicon.MainServer.History

/-!
# The stream of a connection

Where a handler thread is in the bytes that its peer has sent: what it has not
read yet is the end of them, the buffer of the receive it is in lies right in
front of that, and the body of an announcement lies behind an ANNOUNCE_INFO
header. This holds of every run, whatever the headers declare.
-/

namespace Dicon.MainServer

open Dicon.Framework

/-- The bytes of one event that the peer of `c` sent. -/
def Event.sentOn (c : ConnId) : Event → List UInt8
  | .requestSent d bytes => if d = c then bytes else []
  | _ => []

/-- Everything that the peer of `c` has sent. -/
def sentOn (c : ConnId) (hist : List Event) : List UInt8 := hist.flatMap (Event.sentOn c)

/-- What a step of a connection adds to it. -/
def Action.sent : Action → List UInt8
  | .peerSend bytes => bytes
  | _ => []

@[simp] theorem sentOn_append (c : ConnId) (hist hist' : List Event) :
    sentOn c (hist ++ hist') = sentOn c hist ++ sentOn c hist' :=
  List.flatMap_append

@[simp] theorem sentOn_singleton (c : ConnId) (ev : Event) : sentOn c [ev] = ev.sentOn c :=
  List.flatMap_singleton _ _

section Effects

variable {c d : ConnId} {h h' : Handler} {sh sh' : Shared} {a : Action}

theorem effect_sentOn (he : Effect c h sh a h' sh') :
    sentOn c sh'.history = sentOn c sh.history ++ a.sent := by
  cases he with
  | peerSend => simp [Event.sentOn, Action.sent]
  | peerAck | append | collect | remove | destroy => simp [Event.sentOn, Action.sent]
  | _ => exact (List.append_nil _).symm

theorem effect_sentOn_other (he : Effect c h sh a h' sh') (hd : d ≠ c) :
    sentOn d sh'.history = sentOn d sh.history := by
  cases he with
  | peerSend => simp [Event.sentOn, Ne.symm hd]
  | peerAck | append | collect | remove | destroy => simp [Event.sentOn]
  | _ => rfl

end Effects

/-! ## A rule for one connection at a time -/

/-- What holds of each connection and of the bytes that its peer has sent. -/
def EachConn (P : List UInt8 → Option Handler → Prop) (s : Server) : Prop :=
  ∀ c, P (sentOn c s.shared.history) (s.conns c)

/-- A step of one connection leaves the others and their streams alone. -/
theorem EachConn.step {P : List UInt8 → Option Handler → Prop} {s t : Server}
    {l : ConnId × Action} (hi : EachConn P s) (h : mainServer.step s l t)
    (hnew : ∀ sent ip, P sent none → P sent (some (.new ip)))
    (hstep : ∀ c hd hd' sh' a, l = (c, a) → s.conns c = some hd →
      Effect c hd s.shared a hd' sh' → P (sentOn c s.shared.history) (some hd) →
      P (sentOn c s.shared.history ++ a.sent) (some hd')) : EachConn P t := by
  obtain ⟨c, a⟩ := l
  rcases step_cases h with ⟨ip, hc, rfl⟩ | ⟨hd, hd', sh', hc, he, rfl⟩
  · intro d
    show P _ (Function.update s.conns c (some (.new ip)) d)
    by_cases hdc : d = c
    · subst hdc
      rw [Function.update_self]
      exact hnew _ ip (hc ▸ hi d)
    · rw [Function.update_of_ne hdc]
      exact hi d
  · intro d
    show P (sentOn d sh'.history) (Function.update s.conns c (some hd') d)
    by_cases hdc : d = c
    · subst hdc
      rw [Function.update_self, effect_sentOn he]
      exact hstep d hd hd' sh' a rfl hc he (hc ▸ hi d)
    · rw [Function.update_of_ne hdc, effect_sentOn_other he hdc]
      exact hi d

/-! ## The position of a thread -/

/-- The eight bytes of an ANNOUNCE_INFO header. -/
structure AnnounceHead (bytes : List UInt8) (head : ReqHead) : Prop where
  length : bytes.length = reqHeadSize
  parsed : ReqHead.ofBytes bytes = head
  operation : head.operation = DicMainOperation.announceInfo.code

/-- The body of `e` lies in the stream behind an ANNOUNCE_INFO header, and its
core count was taken from that body. -/
def Announced.FromStream (sent : List UInt8) (e : Announced) : Prop :=
  (∃ before bytes head after, sent = before ++ bytes ++ e.body ++ after ∧ AnnounceHead bytes head) ∧
    ∃ junk, e.info.coreCount = announcedCores e.body junk

/-- Where a thread is that has not read `rest` of the bytes `sent`. -/
def Pc.InStream (sent rest : List UInt8) : Pc → Prop
  | .recvHead got => got.length ≤ reqHeadSize ∧ got ++ rest <:+ sent
  | .lockAnnounce head => ∃ bytes, bytes ++ rest <:+ sent ∧ AnnounceHead bytes head
  | .recvBody head got => ∃ bytes, bytes ++ got ++ rest <:+ sent ∧ AnnounceHead bytes head
  | .sendAckHead e | .sendAckBody e | .append e => e.FromStream sent ∧ rest <:+ sent
  | _ => rest <:+ sent

def InStream (sent : List UInt8) : Option Handler → Prop
  | none => sent = []
  | some h => h.pc.InStream sent h.input

theorem Announced.FromStream.mono {sent : List UInt8} {e : Announced} (h : e.FromStream sent)
    (more : List UInt8) : e.FromStream (sent ++ more) := by
  obtain ⟨⟨before, bytes, head, after, rfl, hhead⟩, hcores⟩ := h
  exact ⟨⟨before, bytes, head, after ++ more, by simp, hhead⟩, hcores⟩

/-- More bytes arrive behind those that wait. -/
theorem Pc.InStream.send {sent rest : List UInt8} {pc : Pc} (h : pc.InStream sent rest)
    (bytes : List UInt8) : pc.InStream (sent ++ bytes) (rest ++ bytes) := by
  have hmore : ∀ {front : List UInt8}, front <:+ sent → front ++ bytes <:+ sent ++ bytes :=
    fun hf => List.suffix_append_self_iff.mpr hf
  cases pc with
  | recvHead got =>
      refine ⟨h.1, ?_⟩
      rw [← List.append_assoc]
      exact hmore h.2
  | lockAnnounce head =>
      obtain ⟨hb, hsuffix, hhead⟩ := h
      refine ⟨hb, ?_, hhead⟩
      rw [← List.append_assoc]
      exact hmore hsuffix
  | recvBody head got =>
      obtain ⟨hb, hsuffix, hhead⟩ := h
      refine ⟨hb, ?_, hhead⟩
      rw [← List.append_assoc]
      exact hmore hsuffix
  | sendAckHead e | sendAckBody e | append e => exact ⟨h.1.mono bytes, hmore h.2⟩
  | lockGetInfo | collect | sendInfoHead | sendInfoBody | unlock | lockRemove | remove
  | unlockRemove | destroy | finished => exact hmore h

section Effects

variable {c : ConnId} {h h' : Handler} {sh sh' : Shared} {a : Action} {sent : List UInt8}

theorem Pc.InStream.suffix {rest : List UInt8} {pc : Pc} (h : pc.InStream sent rest) :
    rest <:+ sent := by
  cases pc with
  | recvHead got => exact (List.suffix_append got rest).trans h.2
  | lockAnnounce head =>
      obtain ⟨hb, hsuffix, _⟩ := h
      exact (List.suffix_append hb rest).trans hsuffix
  | recvBody head got =>
      obtain ⟨hb, hsuffix, _⟩ := h
      exact (List.suffix_append (hb ++ got) rest).trans hsuffix
  | sendAckHead e | sendAckBody e | append e => exact h.2
  | lockGetInfo | collect | sendInfoHead | sendInfoBody | unlock | lockRemove | remove
  | unlockRemove | destroy | finished => exact h

/-- What a receive takes comes from the front of what waits. -/
theorem buffer_recv (front got input : List UInt8) (k : ℕ) :
    front ++ (got ++ input.take k) ++ input.drop k = front ++ got ++ input := by
  simp [List.append_assoc]

/-- The announcement that a thread makes out of what it received. -/
theorem announcement_fromStream {head : ReqHead} {got rest : List UInt8}
    (hi : (Pc.recvBody head got).InStream sent rest) (junk : UInt32) :
    (h.announcement c got junk).FromStream sent := by
  obtain ⟨hb, ⟨before, hsent⟩, hhead⟩ := hi
  refine ⟨⟨before, hb, head, rest, ?_, hhead⟩, junk, rfl⟩
  rw [← hsent]
  simp [Handler.announcement]

theorem switchOperation_inStream {got rest : List UInt8}
    (hi : (Pc.recvHead got).InStream sent rest) (hlen : got.length = reqHeadSize) :
    (switchOperation (.ofBytes got)).InStream sent rest := by
  unfold switchOperation
  split
  · next hop => exact ⟨got, hi.2, hlen, rfl, hop⟩
  · split
    · exact hi.suffix
    · exact ⟨Nat.zero_le _, hi.suffix⟩

/-- Steps of the thread itself, and those of its peer that send nothing. -/
theorem inStream_quiet (he : Effect c h sh a h' sh') (hquiet : a.sent = [])
    (hi : h.pc.InStream sent h.input) : h'.pc.InStream sent h'.input := by
  cases he with
  | peerSend =>
      rw [Action.sent] at hquiet
      subst hquiet
      simpa using hi.send []
  | peerClose | peerAck | peerOther | overrun | appendFault | collectFault | removeFault =>
      exact hi
  | @recvHead k got hpc hrecv =>
      rw [hpc] at hi
      obtain ⟨_, _, hk, _⟩ := hrecv
      simp only [Handler.need, hpc] at hk
      refine ⟨?_, ?_⟩
      · rw [List.length_append, List.length_take]
        omega
      · have hbuffer := buffer_recv [] got h.input k
        simp only [List.nil_append] at hbuffer
        rw [hbuffer]
        exact hi.2
  | recvBody hpc =>
      rw [hpc] at hi
      obtain ⟨hb, hsuffix, hhead⟩ := hi
      refine ⟨hb, ?_, hhead⟩
      rw [buffer_recv]
      exact hsuffix
  | headFail hpc =>
      cases h.isComputeNode <;> exact hi.suffix
  -- what was received is all there will be of the body
  | bodyFail hpc | bodyDone hpc =>
      rw [hpc] at hi
      exact ⟨announcement_fromStream hi _, hi.suffix⟩
  | @headDone _ got hpc hneed =>
      rw [hpc] at hi
      simp only [Handler.need, hpc] at hneed
      have hlen := hi.1
      exact switchOperation_inStream hi (by omega)
  | lock hpc =>
      rcases afterLock_cases hpc with ⟨head, hp, rfl⟩ | ⟨_, rfl⟩ | ⟨_, rfl⟩
      · rw [hp] at hi
        obtain ⟨hb, hsuffix, hhead⟩ := hi
        exact ⟨hb, by rwa [List.append_nil], hhead⟩
      · exact hi.suffix
      · exact hi.suffix
  | send hpc =>
      rcases afterSend_cases hpc with
        ⟨_, hp, rfl, _⟩ | ⟨_, hp, rfl, _⟩ | ⟨_, _, rfl, _⟩ | ⟨_, _, rfl, _⟩
      · rw [hp] at hi
        exact hi
      · rw [hp] at hi
        exact hi
      · exact hi.suffix
      · exact hi.suffix
  | append | collect | remove | destroy =>
      exact hi.suffix
  | unlock hpc =>
      rcases afterUnlock_cases hpc with ⟨_, rfl⟩ | ⟨_, rfl⟩
      · exact ⟨Nat.zero_le _, hi.suffix⟩
      · exact hi.suffix

theorem inStream_effect (he : Effect c h sh a h' sh') (hi : h.pc.InStream sent h.input) :
    h'.pc.InStream (sent ++ a.sent) h'.input := by
  by_cases hquiet : a.sent = []
  · rw [hquiet, List.append_nil]
    exact inStream_quiet he hquiet hi
  · cases he with
    | peerSend => exact hi.send _
    | _ => exact absurd rfl hquiet

end Effects

/-- Every thread is somewhere in the stream of its connection. -/
theorem inStream {s : Server} (h : mainServer.Reachable s) : EachConn InStream s := by
  refine h.invariant ?_ ?_
  · rintro _ rfl c
    rfl
  · intro s l t hi hstep
    refine hi.step hstep ?_ fun c hd hd' sh' a _ _ he hc => inStream_effect he hc
    intro sent ip hnone
    exact ⟨Nat.zero_le _, List.nil_suffix⟩

/-- Every announcement of the history came off the stream of its connection. -/
def FromStreams (s : Server) : Prop :=
  ∀ e ∈ announcements s.shared.history, e.FromStream (sentOn e.conn s.shared.history)

theorem fromStreams {s : Server} (h : mainServer.Reachable s) : FromStreams s := by
  refine h.invariant_of ?_ ?_
  · rintro _ rfl e he
    cases he
  · rintro s ⟨c, a⟩ t hr hi hstep
    rcases step_cases hstep with ⟨ip, hc, rfl⟩ | ⟨hd, hd', sh', hc, heff, rfl⟩
    · exact hi
    · have hmono : ∀ d, ∃ more, sentOn d sh'.history = sentOn d s.shared.history ++ more := by
        intro d
        by_cases hdc : d = c
        · subst hdc
          exact ⟨_, effect_sentOn heff⟩
        · exact ⟨[], by rw [effect_sentOn_other heff hdc, List.append_nil]⟩
      refine forall_announcements heff ?_ ?_
      · intro e he
        obtain ⟨more, hmore⟩ := hmono e.conn
        rw [hmore]
        exact (hi e he).mono more
      · -- the announcement that is appended is pending on its own connection
        intro e hpc
        have hown := ((inv_of_reachable hr).pending c hd hc e (by rw [hpc]; rfl)).1
        have hstream := inStream hr c
        rw [hc] at hstream
        simp only [InStream, hpc, Pc.InStream] at hstream
        obtain ⟨more, hmore⟩ := hmono c
        rw [hown, hmore]
        exact hstream.1.mono more

end Dicon.MainServer
