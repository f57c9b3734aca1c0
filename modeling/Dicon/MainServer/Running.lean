import Dicon.MainServer.Invariant
import Mathlib.Data.Fintype.EquivFin

/-!
# What the main server does by itself

Runs of one handler thread up to the end of its critical section, and through a
whole request, without any step of a peer. `act_of_effect` is the converse of
`act_effect`: whatever `Effect` lists, the thread can do.
-/

namespace Dicon.MainServer

open Dicon.Framework Registry

/-- A step of a handler thread. -/
def Action.byServer : Action → Bool
  | .accept _ | .peerSend _ | .peerClose | .peerRecv => false
  | _ => true

def ByServer (_ : Server) (l : ConnId × Action) : Prop := l.2.byServer = true

/-- The runs in which no peer does anything. -/
def serverAlone : Lts Server (ConnId × Action) := mainServer.restrict ByServer

section

variable {c : ConnId} {h h' : Handler} {sh sh' : Shared} {a : Action}

theorem act_of_effect (he : Effect c h sh a h' sh') (ha : a.byServer = true) :
    h.act c sh a = some (h', sh') := by
  cases he with
  | peerSend | peerClose | peerAck | peerOther => cases ha
  | recvHead hpc hk => simp [Handler.act, Handler.recv, hpc, hk]
  | recvBody hpc hk hle => simp [Handler.act, Handler.recv, hpc, hk, hle]
  | overrun hpc hk hlt => simp [Handler.act, Handler.recv, hpc, hk, Nat.not_le.mpr hlt]
  | headFail hpc hf => simp [Handler.act, Handler.recvFail, hpc, hf]
  | bodyFail hpc hf => simp [Handler.act, Handler.recvFail, hpc, hf]
  | headDone hpc hn => simp [Handler.act, Handler.recvDone, hpc, hn]
  | bodyDone hpc hn => simp [Handler.act, Handler.recvDone, hpc, hn]
  | lock hpc hfree => simp [Handler.act, Handler.lock, hpc, hfree]
  | send hpc => simp [Handler.act, Handler.send, hpc]
  | append hpc hfree happ => simp [Handler.act, Handler.append, hpc, hfree, happ]
  | appendFault hpc hfree happ => simp [Handler.act, Handler.append, hpc, hfree, happ]
  | collect hpc hes => simp [Handler.act, Handler.collect, hpc, hes]
  | collectFault hpc hes => simp [Handler.act, Handler.collect, hpc, hes]
  | remove hpc hrem => simp [Handler.act, Handler.remove, hpc, hrem]
  | removeFault hpc hrem => simp [Handler.act, Handler.remove, hpc, hrem]
  | unlock hpc => simp [Handler.act, Handler.unlock, hpc]
  | destroy hpc => simp [Handler.act, Handler.destroy, hpc]

end

/-- The thread of `c` is `h`, and nothing undefined has happened. -/
structure Running (s : Server) (c : ConnId) (h : Handler) : Prop where
  inv : Inv s
  defined : s.shared.undefined = false
  conn : s.conns c = some h

/-- The thread of `c` brings the server from `s` to `t`. -/
structure Goes (c : ConnId) (s t : Server) : Prop where
  steps : serverAlone.Steps s t
  others : ∀ d, d ≠ c → t.conns d = s.conns d

theorem Goes.refl (c : ConnId) (s : Server) : Goes c s s := ⟨.refl, fun _ _ => rfl⟩

theorem Goes.trans {c : ConnId} {s t u : Server} (h : Goes c s t) (h' : Goes c t u) :
    Goes c s u :=
  ⟨h.steps.trans h'.steps, fun d hd => (h'.others d hd).trans (h.others d hd)⟩

section

variable {s t : Server} {c : ConnId} {h h' : Handler} {sh' : Shared} {a : Action}

theorem Running.step (hr : Running s c h) (he : Effect c h s.shared a h' sh')
    (ha : a.byServer = true) :
    mainServer.step s (c, a) ⟨Function.update s.conns c (some h'), sh'⟩ := by
  simp [mainServer, Server.step?, hr.defined, hr.conn, act_of_effect he ha]

/-- One step of the thread. -/
theorem Running.go (hr : Running s c h) (he : Effect c h s.shared a h' sh')
    (ha : a.byServer = true) (hdef : sh'.undefined = false) :
    ∃ t, Goes c s t ∧ Running t c h' ∧ t.shared = sh' := by
  have hstep := hr.step he ha
  refine ⟨_, ⟨.single ⟨(c, a), ha, hstep⟩, ?_⟩, ⟨hr.inv.step hstep, hdef, ?_⟩, rfl⟩
  · intro d hd
    exact Function.update_of_ne hd ..
  · exact Function.update_self ..

/-- There is always a block that `malloc` can return. -/
theorem exists_free (hi : Inv s) : ∃ a, s.shared.registry.cell a = none := by
  obtain ⟨vis, orph, hshape⟩ := hi.shape
  obtain ⟨a, ha⟩ := Infinite.exists_notMem_finset (vis ++ orph.flatten).toFinset
  rw [List.mem_toFinset, ← hshape.live a, Option.not_isSome_iff_eq_none] at ha
  exact ⟨a, ha⟩

/-- The thread is between two requests again; of what it had not read, `rest` is
left, and the mutex is free. -/
structure BetweenRequests (s : Server) (c : ConnId) (h : Handler) (rest : List UInt8) : Prop
    extends Running s c h where
  pc : h.pc = .recvHead []
  input : h.input = rest
  free : s.shared.nodesInfoMut = none

/-- `pthread_mutex_unlock(&NODES_INFO_MUT)` after a request. -/
theorem unlocks (hr : Running s c h) (hpc : h.pc = .unlock) :
    ∃ t h', Goes c s t ∧ BetweenRequests t c h' h.input ∧ h'.sockOpen = h.sockOpen ∧
      t.shared.history = s.shared.history ∧ h'.output = h.output := by
  have hafter : h.pc.afterUnlock = some (.recvHead []) := by
    rw [hpc]
    rfl
  obtain ⟨t, hgo, hrun, hsh⟩ := hr.go (.unlock hafter) rfl hr.defined
  exact ⟨t, _, hgo, ⟨hrun, rfl, rfl, by rw [hsh]⟩, rfl, by rw [hsh], rfl⟩

/-- `append_info`, with whatever block `malloc` returns. -/
theorem appends (hr : Running s c h) {e : Announced} (hpc : h.pc = .append e) :
    ∃ t h', Goes c s t ∧ BetweenRequests t c h' h.input ∧ h'.sockOpen = h.sockOpen ∧
      t.shared.history = s.shared.history ++ [.announced e] := by
  obtain ⟨newNode, hfree⟩ := exists_free hr.inv
  obtain ⟨vis, orph, hshape⟩ := hr.inv.shape
  obtain ⟨t, hgo, hrun, hsh⟩ :=
    hr.go (.append hpc hfree (hshape.appendInfo_eq hfree)) rfl hr.defined
  obtain ⟨u, h', hgo', hbetween, hopen, hhist, _⟩ := unlocks hrun rfl
  exact ⟨u, h', hgo.trans hgo', hbetween, hopen, by rw [hhist, hsh]⟩

/-- The body of the acknowledgement, and the append. -/
theorem acknowledges (hr : Running s c h) {e : Announced} (hpc : h.pc = .sendAckBody e) :
    ∃ t h', Goes c s t ∧ BetweenRequests t c h' h.input ∧ h'.sockOpen = h.sockOpen ∧
      t.shared.history = s.shared.history ++ [.announced e] := by
  obtain ⟨t, hgo, hrun, hsh⟩ := hr.go (.send (by rw [hpc]; rfl)) rfl hr.defined
  obtain ⟨u, h', hgo', hbetween, hopen, hhist⟩ := appends hrun rfl
  exact ⟨u, h', hgo.trans hgo', hbetween, hopen, by rw [hhist, hsh]⟩

/-- The whole acknowledgement, and the append. -/
theorem announces (hr : Running s c h) {e : Announced} (hpc : h.pc = .sendAckHead e) :
    ∃ t h', Goes c s t ∧ BetweenRequests t c h' h.input ∧ h'.sockOpen = h.sockOpen ∧
      t.shared.history = s.shared.history ++ [.announced e] := by
  obtain ⟨t, hgo, hrun, hsh⟩ := hr.go (.send (by rw [hpc]; rfl)) rfl hr.defined
  obtain ⟨u, h', hgo', hbetween, hopen, hhist⟩ := acknowledges hrun rfl
  exact ⟨u, h', hgo.trans hgo', hbetween, hopen, by rw [hhist, hsh]⟩

/-! ## Receiving -/

/-- The rest of a header that has arrived. -/
theorem receives_head (hr : Running s c h) {got : List UInt8} (hpc : h.pc = .recvHead got)
    (hopen : h.sockOpen = true) (hgot : got.length ≤ reqHeadSize)
    (hlen : reqHeadSize ≤ (got ++ h.input).length) :
    ∃ t h', Goes c s t ∧ Running t c h' ∧ h'.pc = .recvHead ((got ++ h.input).take reqHeadSize) ∧
      h'.input = (got ++ h.input).drop reqHeadSize ∧ h'.sockOpen = true ∧
      h'.output = h.output ∧ t.shared = s.shared := by
  rw [List.length_append] at hlen
  rcases Nat.eq_or_lt_of_le hgot with hfull | hpart
  · refine ⟨s, h, .refl c s, hr, ?_, ?_, hopen, rfl, rfl⟩
    · rw [hpc, List.take_left' hfull]
    · rw [List.drop_left' hfull]
  · have hrecv : h.CanRecv (reqHeadSize - got.length) := by
      refine ⟨hopen, by omega, ?_, by omega⟩
      simp [Handler.need, hpc]
    obtain ⟨t, hgo, hrun, hsh⟩ := hr.go (.recvHead hpc hrecv) rfl hr.defined
    refine ⟨t, _, hgo, hrun, ?_, ?_, hopen, rfl, hsh⟩
    · simp only [List.take_append, List.take_of_length_le hgot]
    · simp only [List.drop_append, List.drop_of_length_le hgot, List.nil_append]

/-- A header is interpreted. -/
theorem switches (hr : Running s c h) {got : List UInt8} (hpc : h.pc = .recvHead got)
    (hlen : got.length = reqHeadSize) :
    ∃ t, Goes c s t ∧ Running t c { h with pc := switchOperation (.ofBytes got) } ∧
      t.shared = s.shared := by
  have hneed : h.need = 0 := by
    simp only [Handler.need, hpc]
    omega
  have heff : Effect c h s.shared (.recvDone 0)
      { h with pc := switchOperation (.ofBytes got) } s.shared := .headDone hpc hneed
  exact hr.go heff rfl hr.defined

/-- The receive of an announcement's body ends, with or without all bytes. -/
theorem ends_body (hr : Running s c h) {head : ReqHead} {got : List UInt8}
    (hpc : h.pc = .recvBody head got) (hend : h.need = 0 ∨ h.RecvFails) :
    ∃ t h', Goes c s t ∧ BetweenRequests t c h' h.input ∧ (h.need = 0 → h'.sockOpen = h.sockOpen) ∧
      t.shared.history = s.shared.history ++ [.announced (h.announcement c got 0)] := by
  -- the thread goes on to announce what it has in either case
  rcases hend with hneed | hfails
  · have heff : Effect c h s.shared (.recvDone 0)
        { h with pc := .sendAckHead (h.announcement c got 0) } s.shared := .bodyDone hpc hneed
    obtain ⟨t, hgo, hrun, hsh⟩ := hr.go heff rfl hr.defined
    obtain ⟨u, h', hgo', hbetween, hopen, hhist⟩ := announces hrun rfl
    exact ⟨u, h', hgo.trans hgo', hbetween, fun _ => hopen, by rw [hhist, hsh]⟩
  · have heff : Effect c h s.shared (.recvFail 0)
        { h with pc := .sendAckHead (h.announcement c got 0), sockOpen := false } s.shared :=
      .bodyFail hpc hfails
    obtain ⟨t, hgo, hrun, hsh⟩ := hr.go heff rfl hr.defined
    obtain ⟨u, h', hgo', hbetween, _, hhist⟩ := announces hrun rfl
    refine ⟨u, h', hgo.trans hgo', hbetween, fun hneed => ?_, by rw [hhist, hsh]⟩
    have hpos := hfails.1
    omega

/-- Some more bytes of the body. -/
theorem receives_body (hr : Running s c h) {head : ReqHead} {got : List UInt8} {k : ℕ}
    (hpc : h.pc = .recvBody head got) (hrecv : h.CanRecv k)
    (hroom : got.length + k ≤ reqAnnounceInfoSize) :
    ∃ t, Goes c s t ∧ Running t c { h with
      pc := .recvBody head (got ++ h.input.take k), input := h.input.drop k } ∧
      t.shared = s.shared :=
  hr.go (.recvBody hpc hrecv hroom) rfl hr.defined

/-- The thread gets to the end of its receive by itself, and does not overrun its
variable on the way. -/
structure Handler.BodyEnds (h : Handler) (got : List UInt8) : Prop where
  room : h.sockOpen = true → got.length + min h.need h.input.length ≤ reqAnnounceInfoSize
  arrives : h.sockOpen = false ∨ h.need ≤ h.input.length ∨ h.peerClosed = true

/-- The two sends of a GET_INFO reply. -/
def infoReply (es : List Announced) : List Segment :=
  .infoHead (toU32 (respGetInfoSize es.length)) ::
    if respGetInfoSize es.length ≤ intMax then [.infoBody (es.map Announced.info)] else []

theorem sends_infoBody (hr : Running s c h) {es : List Announced}
    (hpc : h.pc = .sendInfoBody es) :
    ∃ t h', Goes c s t ∧ BetweenRequests t c h' h.input ∧ h'.sockOpen = h.sockOpen ∧
      t.shared.history = s.shared.history ∧
      (h.sockOpen = true → h'.output = h.output ++ (infoReply es).tail) := by
  obtain ⟨t, hgo, hrun, hsh⟩ := hr.go (.send (by rw [hpc]; rfl)) rfl hr.defined
  obtain ⟨u, h', hgo', hbetween, hopen, hhist, hout⟩ := unlocks hrun rfl
  refine ⟨u, h', hgo.trans hgo', hbetween, hopen, by rw [hhist, hsh], fun ho => ?_⟩
  rw [hout]
  exact congrArg (h.output ++ ·) (if_pos ho)

theorem sends_info (hr : Running s c h) {es : List Announced} (hpc : h.pc = .sendInfoHead es) :
    ∃ t h', Goes c s t ∧ BetweenRequests t c h' h.input ∧ h'.sockOpen = h.sockOpen ∧
      t.shared.history = s.shared.history ∧
      (h.sockOpen = true → h'.output = h.output ++ infoReply es) := by
  obtain ⟨t, hgo, hrun, hsh⟩ := hr.go (.send (by rw [hpc]; rfl)) rfl hr.defined
  obtain ⟨u, h', hgo', hbetween, hopen, hhist, hout⟩ := sends_infoBody hrun rfl
  refine ⟨u, h', hgo.trans hgo', hbetween, hopen, by rw [hhist, hsh], fun ho => ?_⟩
  rw [hout ho, if_pos ho, List.append_assoc]
  rfl

/-- `handle_get_info`, with the mutex held. -/
theorem collects (hr : Running s c h) (hpc : h.pc = .collect) :
    ∃ t h' es, Goes c s t ∧ BetweenRequests t c h' h.input ∧ h'.sockOpen = h.sockOpen ∧
      s.shared.registry.collectInfo = some es ∧
      t.shared.history = s.shared.history ++ [.replied c es] ∧
      (h.sockOpen = true → h'.output = h.output ++ infoReply es) := by
  obtain ⟨vis, orph, hshape⟩ := hr.inv.shape
  have hes := hshape.collectInfo_eq
  obtain ⟨t, hgo, hrun, hsh⟩ := hr.go (.collect hpc hes) rfl hr.defined
  obtain ⟨u, h', hgo', hbetween, hopen, hhist, hout⟩ := sends_info hrun rfl
  exact ⟨u, h', _, hgo.trans hgo', hbetween, hopen, hes, by rw [hhist, hsh], hout⟩

/-- A query is answered as soon as the mutex is free. -/
theorem answers_query (hr : Running s c h) (hpc : h.pc = .lockGetInfo)
    (hfree : s.shared.nodesInfoMut = none) :
    ∃ t h' es, Goes c s t ∧ BetweenRequests t c h' h.input ∧ h'.sockOpen = h.sockOpen ∧
      s.shared.registry.collectInfo = some es ∧
      t.shared.history = s.shared.history ++ [.replied c es] ∧
      (h.sockOpen = true → h'.output = h.output ++ infoReply es) := by
  have hafter : h.pc.afterLock = some .collect := by
    rw [hpc]
    rfl
  obtain ⟨t, hgo, hrun, hsh⟩ := hr.go (.lock hafter hfree) rfl hr.defined
  obtain ⟨u, h', es, hgo', hbetween, hopen, hes, hhist, hout⟩ := collects hrun rfl
  rw [hsh] at hes hhist
  exact ⟨u, h', es, hgo.trans hgo', hbetween, hopen, hes, hhist, hout⟩

/-! ## The end of a critical section -/

/-- The thread of `c` has come out of its critical section. -/
structure Released (c : ConnId) (s t : Server) : Prop where
  goes : Goes c s t
  inv : Inv t
  defined : t.shared.undefined = false
  free : t.shared.nodesInfoMut = none

theorem unlocks_remove (hr : Running s c h) (hpc : h.pc = .unlockRemove) :
    ∃ t, Released c s t := by
  have hafter : h.pc.afterUnlock = some .destroy := by
    rw [hpc]
    rfl
  obtain ⟨t, hgo, hrun, hsh⟩ := hr.go (.unlock hafter) rfl hr.defined
  exact ⟨t, hgo, hrun.inv, hrun.defined, by rw [hsh]⟩

/-- `remove_info`, and the unlock behind it. -/
theorem removes (hr : Running s c h) (hpc : h.pc = .remove) : ∃ t, Released c s t := by
  obtain ⟨r, hrem⟩ := hr.inv.removes hr.conn hpc
  obtain ⟨t, hgo, hrun, _⟩ := hr.go (.remove hpc hrem) rfl hr.defined
  obtain ⟨u, hrel⟩ := unlocks_remove hrun rfl
  exact ⟨u, hgo.trans hrel.goes, hrel.inv, hrel.defined, hrel.free⟩

end

end Dicon.MainServer
