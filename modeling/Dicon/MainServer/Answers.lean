import Dicon.MainServer.Boundaries
import Dicon.MainServer.GetInfo

/-!
# What a peer of the main server gets

The answers that leave on a connection against the requests that were sent on it. What
the server has put on the wire of a connection, together with what the thread is about to
send, are the answers to the announcements and queries that it served there, in their
order (`Answering`). Where the peers send frames that are read at their boundaries, those
are the requests with a known operation: one answer for each, in the order of the
requests (`answers_in_order`).
-/

namespace Dicon.MainServer

open Dicon.Framework

/-! ## Answers -/

/-- The answer to an announcement. -/
def ack : List Segment := [.ackHead, .ackBody]

/-- What an event means for the peer of `c`. -/
def Event.answerOn (c : ConnId) : Event → List Segment
  | .announced e => if e.conn = c then ack else []
  | .replied d es => if d = c then infoReply es else []
  | _ => []

/-- The answers to all that was served on `c`. -/
def answersOn (c : ConnId) (hist : List Event) : List Segment := hist.flatMap (Event.answerOn c)

@[simp] theorem answersOn_snoc (c : ConnId) (hist : List Event) (ev : Event) :
    answersOn c (hist ++ [ev]) = answersOn c hist ++ ev.answerOn c := by
  rw [answersOn, List.flatMap_append, List.flatMap_singleton]
  rfl

theorem answersOn_keep {c : ConnId} {ev : Event} (h : ev.answerOn c = []) (hist : List Event) :
    answersOn c (hist ++ [ev]) = answersOn c hist := by
  rw [answersOn_snoc, h, List.append_nil]

/-- The operation that an event is the service of. -/
def Event.servedOn (c : ConnId) : Event → Option DicMainOperation
  | .announced e => if e.conn = c then some .announceInfo else none
  | .replied d _ => if d = c then some .getInfo else none
  | _ => none

/-- The requests that were served on `c`. -/
def servedOn (c : ConnId) (hist : List Event) : List DicMainOperation :=
  hist.filterMap (Event.servedOn c)

@[simp] theorem servedOn_snoc (c : ConnId) (hist : List Event) (ev : Event) :
    servedOn c (hist ++ [ev]) = servedOn c hist ++ (ev.servedOn c).toList := by
  rw [servedOn, List.filterMap_append]
  cases h : ev.servedOn c <;> simp [servedOn, h]

/-- What a thread still sends for the request that it is serving. -/
def Pc.due : Pc → List Segment
  | .sendAckHead _ => ack
  | .sendAckBody _ => ack.tail
  | .sendInfoHead es => infoReply es
  | .sendInfoBody es => (infoReply es).tail
  | _ => []

/-- An announcement is acknowledged before it is appended. -/
def Pc.acked : Pc → List Segment
  | .sendAckHead _ | .sendAckBody _ | .append _ => ack
  | _ => []

/-- The request that a thread is serving and that no event tells of yet. -/
def Pc.serving : Pc → List DicMainOperation
  | .lockAnnounce _ | .recvBody .. | .sendAckHead _ | .sendAckBody _ | .append _ => [.announceInfo]
  | .lockGetInfo | .collect => [.getInfo]
  | _ => []

/-- What a step puts on the wire. -/
def Handler.puts (h : Handler) : Action → List Segment
  | .send => if h.sockOpen then h.pc.afterSend.elim [] Prod.fst else []
  | _ => []

/-- What has been put on the wire of `c`: the sent segments with their connections. -/
def putOn (c : ConnId) (log : List (ConnId × Segment)) : List Segment :=
  log.filterMap fun e => if e.1 = c then some e.2 else none

def segmentPut (s : Server) (l : ConnId × Action) : List (ConnId × Segment) :=
  match s.conns l.1 with
  | some h => (h.puts l.2).map (Prod.mk l.1)
  | none => []

theorem putOn_append (c : ConnId) (log log' : List (ConnId × Segment)) :
    putOn c (log ++ log') = putOn c log ++ putOn c log' :=
  List.filterMap_append

theorem putOn_own (c : ConnId) (segments : List Segment) :
    putOn c (segments.map (Prod.mk c)) = segments := by
  simp [putOn, List.filterMap_map]

theorem putOn_other {c d : ConnId} (hd : d ≠ c) (segments : List Segment) :
    putOn d (segments.map (Prod.mk c)) = [] := by
  simp [putOn, List.filterMap_map, Ne.symm hd]

/-! ## One connection -/

/-- What was put on the wire of a connection against what was served there. -/
def Answering (answers : List Segment) (put : List Segment) : Option Handler → Prop
  | none => put = [] ∧ answers = []
  | some h => put <+: answers ++ h.pc.acked ∧
      (h.sockOpen = true → put ++ h.pc.due = answers ++ h.pc.acked)

section Effects

variable {c : ConnId} {h h' : Handler} {sh sh' : Shared} {a : Action} {put : List Segment}

/-- One send. -/
theorem afterSend_due {p q : Pc} {segments : List Segment}
    (h : p.afterSend = some (segments, q)) : p.due = segments ++ q.due ∧ q.acked = p.acked := by
  rcases afterSend_cases h with ⟨e, rfl, rfl, rfl⟩ | ⟨e, rfl, rfl, rfl⟩ | ⟨es, rfl, rfl, rfl⟩ |
    ⟨es, rfl, rfl, _⟩
  · exact ⟨rfl, rfl⟩
  · exact ⟨rfl, rfl⟩
  · exact ⟨rfl, rfl⟩
  · refine ⟨?_, rfl⟩
    rw [Pc.afterSend] at h
    cases h
    exact (List.append_nil _).symm

/-- A step that serves nothing and puts nothing on the wire. -/
theorem Answering.same {answers : List Segment} (hi : Answering answers put (some h))
    (hacked : h'.pc.acked = h.pc.acked) (hdue : h'.pc.due = h.pc.due)
    (hopen : h'.sockOpen = true → h.sockOpen = true) : Answering answers put (some h') := by
  refine ⟨?_, fun ho => ?_⟩
  · rw [hacked]
    exact hi.1
  · rw [hacked, hdue]
    exact hi.2 (hopen ho)

/-- A step that makes something due, which is lost where the connection closes. -/
theorem Answering.grows {answers : List Segment} (hi : Answering answers put (some h))
    (new : List Segment) (hacked : h'.pc.acked = h.pc.acked ++ new)
    (hdue : h'.sockOpen = true → h.sockOpen = true ∧ h'.pc.due = h.pc.due ++ new) :
    Answering answers put (some h') := by
  refine ⟨?_, fun ho => ?_⟩
  · rw [hacked, ← List.append_assoc]
    exact hi.1.trans (List.prefix_append _ _)
  · obtain ⟨hopen, hnew⟩ := hdue ho
    rw [hacked, hnew, ← List.append_assoc, ← List.append_assoc, hi.2 hopen]

/-- A step that serves a request: what was acknowledged and what becomes due answer it. -/
theorem Answering.serves {answers : List Segment} (hi : Answering answers put (some h))
    (new : List Segment) (hacked : h'.pc.acked = []) (hdue : h'.pc.due = h.pc.due ++ new)
    (hopen : h'.sockOpen = true → h.sockOpen = true) :
    Answering (answers ++ (h.pc.acked ++ new)) put (some h') := by
  refine ⟨?_, fun ho => ?_⟩
  · rw [hacked, List.append_nil, ← List.append_assoc]
    exact hi.1.trans (List.prefix_append _ _)
  · rw [hacked, hdue, List.append_nil, ← List.append_assoc, ← List.append_assoc, hi.2 (hopen ho)]

/-- What is sent was due. -/
theorem Answering.sends {answers segments : List Segment} {pc : Pc}
    (hi : Answering answers put (some h)) (hsend : h.pc.afterSend = some (segments, pc))
    (hpc : h'.pc = pc) (hopen : h'.sockOpen = h.sockOpen) :
    Answering answers (put ++ h.puts .send) (some h') := by
  obtain ⟨hdue, hacked⟩ := afterSend_due hsend
  have hputs : h.puts .send = if h.sockOpen then segments else [] := by
    rw [Handler.puts, hsend]
    rfl
  rw [hputs]
  by_cases ho : h.sockOpen = true
  · have hdone := hi.2 ho
    rw [hdue, ← List.append_assoc] at hdone
    rw [if_pos ho]
    refine ⟨?_, fun _ => ?_⟩
    · rw [hpc, hacked, ← hdone]
      exact List.prefix_append _ _
    · rw [hpc, hacked, hdone]
  · rw [if_neg ho, List.append_nil]
    refine ⟨?_, fun ho' => absurd (hopen ▸ ho') ho⟩
    rw [hpc, hacked]
    exact hi.1

theorem Answering.effect (hi : Answering (answersOn c sh.history) put (some h))
    (he : Effect c h sh a h' sh') (hpending : ∀ e, h.pc.pending = some e → e.conn = c) :
    Answering (answersOn c sh'.history) (put ++ h.puts a) (some h') := by
  have hquiet : a ≠ .send → put ++ h.puts a = put := by
    intro hne
    cases a with
    | send => exact absurd rfl hne
    | _ => exact List.append_nil _
  cases he with
  | peerSend | peerAck =>
      rw [hquiet (by simp), answersOn_keep rfl]
      exact hi.same rfl rfl id
  | peerClose | peerOther | overrun | appendFault | collectFault | removeFault =>
      rw [hquiet (by simp)]
      exact hi.same rfl rfl id
  | recvHead hpc | recvBody hpc =>
      rw [hquiet (by simp)]
      exact hi.same (by rw [hpc]; rfl) (by rw [hpc]; rfl) id
  | headFail hpc =>
      rw [hquiet (by simp)]
      refine hi.same ?_ ?_ (fun h => nomatch h) <;>
        (rw [hpc]; cases h.isComputeNode <;> rfl)
  | @headDone _ got hpc =>
      rw [hquiet (by simp)]
      refine hi.same ?_ ?_ id <;>
        (rw [hpc]
         rcases switchOperation_cases (.ofBytes got) with hq | hq | hq <;> rw [hq] <;> rfl)
  -- the acknowledgement is to come, or will be lost
  | bodyFail hpc =>
      rw [hquiet (by simp)]
      exact hi.grows ack (by rw [hpc]; rfl) (fun h => nomatch h)
  | bodyDone hpc =>
      rw [hquiet (by simp)]
      exact hi.grows ack (by rw [hpc]; rfl) fun ho => ⟨ho, by rw [hpc]; rfl⟩
  | lock hpc =>
      rw [hquiet (by simp)]
      rcases afterLock_cases hpc with ⟨_, hp, rfl⟩ | ⟨hp, rfl⟩ | ⟨hp, rfl⟩ <;>
        exact hi.same (by rw [hp]; rfl) (by rw [hp]; rfl) id
  | unlock hpc =>
      rw [hquiet (by simp)]
      rcases afterUnlock_cases hpc with ⟨hp, rfl⟩ | ⟨hp, rfl⟩ <;>
        exact hi.same (by rw [hp]; rfl) (by rw [hp]; rfl) id
  | send hpc => exact hi.sends hpc rfl rfl
  -- a request is served
  | @append _ e _ _ hpc =>
      have hconn := hpending e (by rw [hpc]; rfl)
      rw [hquiet (by simp), answersOn_snoc, Event.answerOn, if_pos hconn]
      have hack : h.pc.acked ++ [] = ack := by rw [hpc]; rfl
      rw [← hack]
      exact hi.serves [] rfl (by rw [hpc]; rfl) id
  | @collect es hpc =>
      rw [hquiet (by simp), answersOn_snoc, Event.answerOn, if_pos rfl]
      have hnone : infoReply es = h.pc.acked ++ infoReply es := by rw [hpc]; rfl
      rw [hnone]
      exact hi.serves (infoReply es) rfl (by rw [hpc]; rfl) id
  | remove hpc =>
      rw [hquiet (by simp), answersOn_keep rfl]
      exact hi.same (by rw [hpc]; rfl) (by rw [hpc]; rfl) id
  | destroy hpc =>
      rw [hquiet (by simp), answersOn_keep rfl]
      exact hi.same (by rw [hpc]; rfl) (by rw [hpc]; rfl) (fun h => nomatch h)

/-- Nothing is served on the other connections. -/
theorem answersOn_other (he : Effect c h sh a h' sh') {d : ConnId} (hd : d ≠ c)
    (hpending : ∀ e, h.pc.pending = some e → e.conn = c) :
    answersOn d sh'.history = answersOn d sh.history ∧
      servedOn d sh'.history = servedOn d sh.history := by
  cases he with
  | @append _ e _ _ hpc =>
      have hconn : e.conn ≠ d := by
        rw [hpending e (by rw [hpc]; rfl)]
        exact Ne.symm hd
      simp [Event.answerOn, Event.servedOn, hconn]
  | collect => simp [Event.answerOn, Event.servedOn, Ne.symm hd]
  | peerSend | peerAck | remove | destroy => simp [Event.answerOn, Event.servedOn]
  | _ => exact ⟨rfl, rfl⟩

/-- What is on its way to the peer is the end of what was put on the wire. -/
theorem output_effect (he : Effect c h sh a h' sh') (hi : h.output <:+ put) :
    h'.output <:+ put ++ h.puts a := by
  have hquiet : a ≠ .send → put ++ h.puts a = put := by
    intro hne
    cases a with
    | send => exact absurd rfl hne
    | _ => exact List.append_nil _
  cases he with
  | @send segments pc hpc =>
      have hputs : h.puts .send = if h.sockOpen then segments else [] := by
        rw [Handler.puts, hpc]
        rfl
      rw [hputs]
      obtain ⟨before, rfl⟩ := hi
      exact ⟨before, (List.append_assoc ..).symm⟩
  | peerAck hout | peerOther hout =>
      rw [hquiet (by simp)]
      rw [hout] at hi
      exact (List.suffix_cons _ _).trans hi
  | _ =>
      rw [hquiet (by simp)]
      exact hi

/-- The requests that a step takes up. -/
def Handler.takesUp (h : Handler) (sent : List UInt8) (a : Action) : List DicMainOperation :=
  (h.headsRead sent a).filterMap fun p => (switchOperation p.2).acts

theorem serving_switchOperation (head : ReqHead) :
    (switchOperation head).serving = (switchOperation head).acts.toList := by
  rcases switchOperation_cases head with h | h | h <;> rw [h] <;> rfl

/-- A step that reads no header and logs no service. -/
theorem serving_same (hserving : h'.pc.serving = h.pc.serving)
    (hserved : servedOn c sh'.history = servedOn c sh.history) {sent : List UInt8}
    (hread : h.takesUp sent a = []) : servedOn c sh.history ++ h.pc.serving ++ h.takesUp sent a =
      servedOn c sh'.history ++ h'.pc.serving := by
  rw [hread, List.append_nil, hserving, hserved]

/-- A request is taken up when its header is read, and an event tells when it was
served. -/
theorem serving_effect (he : Effect c h sh a h' sh') (sent : List UInt8)
    (hpending : ∀ e, h.pc.pending = some e → e.conn = c) :
    servedOn c sh.history ++ h.pc.serving ++ h.takesUp sent a =
      servedOn c sh'.history ++ h'.pc.serving := by
  cases he with
  | peerSend | peerAck =>
      exact serving_same rfl (by rw [servedOn_snoc]; exact List.append_nil _) rfl
  | peerClose | peerOther | overrun | appendFault | collectFault | removeFault =>
      exact serving_same rfl rfl rfl
  | recvHead hpc | recvBody hpc | bodyFail hpc => exact serving_same (by rw [hpc]; rfl) rfl rfl
  | headFail hpc =>
      exact serving_same (by rw [hpc]; cases h.isComputeNode <;> rfl) rfl rfl
  | @headDone junk got hpc =>
      have hread : h.takesUp sent (.recvDone junk) =
          (switchOperation (.ofBytes got)).acts.toList := by
        simp only [Handler.takesUp, Handler.headsRead, hpc]
        cases hacts : (switchOperation (.ofBytes got)).acts <;> simp [hacts]
      have hbefore : h.pc.serving = [] := by
        rw [hpc]
        rfl
      rw [hread, hbefore, List.append_nil, serving_switchOperation]
  | bodyDone hpc =>
      exact serving_same (by rw [hpc]; rfl) rfl (by simp [Handler.takesUp, Handler.headsRead, hpc])
  | lock hpc =>
      rcases afterLock_cases hpc with ⟨_, hp, rfl⟩ | ⟨hp, rfl⟩ | ⟨hp, rfl⟩ <;>
        exact serving_same (by rw [hp]; rfl) rfl rfl
  | unlock hpc =>
      rcases afterUnlock_cases hpc with ⟨hp, rfl⟩ | ⟨hp, rfl⟩ <;>
        exact serving_same (by rw [hp]; rfl) rfl rfl
  | send hpc =>
      rcases afterSend_cases hpc with
        ⟨_, hp, rfl, _⟩ | ⟨_, hp, rfl, _⟩ | ⟨_, hp, rfl, _⟩ | ⟨_, hp, rfl, _⟩ <;>
        exact serving_same (by rw [hp]; rfl) rfl rfl
  | @append _ e _ _ hpc =>
      have hconn := hpending e (by rw [hpc]; rfl)
      rw [hpc, servedOn_snoc, Event.servedOn, if_pos hconn]
      show _ ++ [_] ++ [] = _ ++ [_] ++ []
      rfl
  | collect hpc =>
      rw [hpc, servedOn_snoc, Event.servedOn, if_pos rfl]
      show _ ++ [_] ++ [] = _ ++ [_] ++ []
      rfl
  | remove hpc | destroy hpc =>
      refine serving_same (by rw [hpc]; rfl) ?_ rfl
      rw [servedOn_snoc]
      exact List.append_nil _

end Effects

/-! ## Runs -/

/-- Runs of the server in which the peers send `fs`, with the headers that the threads
interpret and what they put on the wire. -/
def answersFrames (fs : ConnId → List ReqFrame) :
    Lts ((Server × List HeadRead) × List (ConnId × Segment)) (ConnId × Action) :=
  (servesFrames fs).logged fun p l => segmentPut p.1 l

/-- What holds of each connection in such a run. -/
structure Answered (p : (Server × List HeadRead) × List (ConnId × Segment)) : Prop where
  answering : ∀ c, Answering (answersOn c p.1.1.shared.history) (putOn c p.2) (p.1.1.conns c)
  served : ∀ c, actsOn c p.1.2 = servedOn c p.1.1.shared.history ++
    (p.1.1.conns c).elim [] fun h => h.pc.serving
  inFlight : ∀ c h, p.1.1.conns c = some h → h.output <:+ putOn c p.2

theorem actsOn_append (c : ConnId) (log log' : List HeadRead) :
    actsOn c (log ++ log') = actsOn c log ++ actsOn c log' := by
  rw [actsOn, readOn_append, List.filterMap_append]
  rfl

theorem Answered.accept {s : Server} {heads : List HeadRead} {log : List (ConnId × Segment)}
    (hi : Answered ((s, heads), log)) {c : ConnId} (hc : s.conns c = none) (ip : IpAddr) :
    Answered (({ s with conns := Function.update s.conns c (some (.new ip)) }, heads), log) := by
  refine ⟨?_, ?_, forall_update hi.inFlight List.nil_suffix⟩
  · intro d
    show Answering _ _ (Function.update s.conns c (some (.new ip)) d)
    by_cases hdc : d = c
    · subst hdc
      have hnone := hi.answering d
      simp only [hc, Answering] at hnone
      obtain ⟨hput, hanswers⟩ := hnone
      rw [Function.update_self]
      show Answering (answersOn d s.shared.history) (putOn d log) _
      rw [hput, hanswers]
      exact ⟨List.nil_prefix, fun _ => rfl⟩
    · rw [Function.update_of_ne hdc]
      exact hi.answering d
  · intro d
    show _ = _ ++ (Function.update s.conns c (some (.new ip)) d).elim [] _
    by_cases hdc : d = c
    · subst hdc
      have hserved := hi.served d
      rw [Function.update_self]
      simp only [hc, Option.elim_none] at hserved
      exact hserved
    · rw [Function.update_of_ne hdc]
      exact hi.served d

theorem Answered.effect {s : Server} {heads : List HeadRead} {log : List (ConnId × Segment)}
    (hi : Answered ((s, heads), log)) (hinv : Inv s) {c : ConnId} {hd hd' : Handler} {sh' : Shared}
    {a : Action} (hc : s.conns c = some hd) (he : Effect c hd s.shared a hd' sh') :
    Answered ((⟨Function.update s.conns c (some hd'), sh'⟩, heads ++ headRead s (c, a)),
      log ++ segmentPut s (c, a)) := by
  have hpending : ∀ e, hd.pc.pending = some e → e.conn = c := fun e h =>
    (hinv.pending c hd hc e h).1
  have hput : segmentPut s (c, a) = (hd.puts a).map (Prod.mk c) := by
    rw [segmentPut, hc]
  refine ⟨?_, ?_, fun d x hx => ?_⟩
  · intro d
    show Answering (answersOn d sh'.history) (putOn d (log ++ segmentPut s (c, a)))
      (Function.update s.conns c (some hd') d)
    rw [hput, putOn_append]
    by_cases hdc : d = c
    · subst hdc
      have hown := hi.answering d
      simp only [hc] at hown
      rw [putOn_own, Function.update_self]
      exact hown.effect he hpending
    · rw [putOn_other hdc, List.append_nil, (answersOn_other he hdc hpending).1,
        Function.update_of_ne hdc]
      exact hi.answering d
  · intro d
    show actsOn d (heads ++ headRead s (c, a)) = servedOn d sh'.history ++
      (Function.update s.conns c (some hd') d).elim [] _
    rw [headRead_conn hc, actsOn_append]
    by_cases hdc : d = c
    · subst hdc
      have hown := hi.served d
      simp only [hc, Option.elim_some] at hown
      rw [hown, actsOn, readOn_own, Function.update_self, Option.elim_some]
      exact serving_effect he (sentOn d s.shared.history) hpending
    · have hnone : actsOn d ((hd.headsRead (sentOn c s.shared.history) a).map (Prod.mk c)) =
          [] := by
        rw [actsOn, readOn_other hdc]
        rfl
      rw [hnone, List.append_nil, (answersOn_other he hdc hpending).2, Function.update_of_ne hdc]
      exact hi.served d
  · show x.output <:+ putOn d (log ++ segmentPut s (c, a))
    rw [hput, putOn_append]
    rcases update_eq_some hx with ⟨rfl, rfl⟩ | ⟨hdc, hx⟩
    · rw [putOn_own]
      exact output_effect he (hi.inFlight d hd hc)
    · rw [putOn_other hdc, List.append_nil]
      exact hi.inFlight d x hx

theorem answered {fs : ConnId → List ReqFrame}
    {p : (Server × List HeadRead) × List (ConnId × Segment)} (h : (answersFrames fs).Reachable p) :
    Answered p := by
  refine h.invariant_of ?_ ?_
  · rintro ⟨⟨s, heads⟩, log⟩ ⟨⟨hs, rfl⟩, rfl⟩
    have hstart : s = .start := hs
    subst hstart
    exact ⟨fun c => ⟨rfl, rfl⟩, fun c => rfl, fun c h hc => nomatch hc⟩
  · rintro ⟨⟨s, heads⟩, log⟩ ⟨c, a⟩ ⟨⟨t, heads'⟩, log'⟩ hr hi ⟨⟨⟨_, hstep⟩, hheads⟩, hlog⟩
    have hinv : Inv s := inv_of_reachable hr.of_logged.of_logged.of_restrict
    have hheads' : heads' = heads ++ headRead s (c, a) := hheads
    have hlog' : log' = log ++ segmentPut s (c, a) := hlog
    subst hheads' hlog'
    rcases step_cases hstep with ⟨ip, hc, rfl⟩ | ⟨hd, hd', sh', hc, he, rfl⟩
    · have hnone : segmentPut s (c, a) = [] := by
        rw [segmentPut, hc]
      rw [headRead_accept hc, hnone, List.append_nil, List.append_nil]
      exact hi.accept hc ip
    · exact hi.effect hinv hc he

/-- One answer for each request, in the order of the requests. Of the frames that the peer
of a connection sends, the thread has served the known operations of some, all when
nothing is left to do; it has put on the wire, and if its descriptor is open it has
nothing but these to send, the answers to what it served; and what the peer has not
received is the end of that. -/
theorem answers_in_order {fs : ConnId → List ReqFrame} (hfs : ∀ c, Aligned (fs c))
    {p : (Server × List HeadRead) × List (ConnId × Segment)} (h : (answersFrames fs).Reachable p)
    (c : ConnId) {hd : Handler} (hc : p.1.1.conns c = some hd) :
    (∃ done todo, fs c = done ++ todo ∧
      servedOn c p.1.1.shared.history ++ hd.pc.serving = knownOperations done ∧
      (Drained (fs c) (sentOn c p.1.1.shared.history) hd → todo = [])) ∧
    putOn c p.2 <+: answersOn c p.1.1.shared.history ++ hd.pc.acked ∧
    (hd.sockOpen = true →
      putOn c p.2 ++ hd.pc.due = answersOn c p.1.1.shared.history ++ hd.pc.acked) ∧
    hd.output <:+ putOn c p.2 := by
  have ha := answered h
  have hanswering := ha.answering c
  have hserved := ha.served c
  rw [hc] at hanswering hserved
  refine ⟨?_, hanswering.1, hanswering.2, ha.inFlight c hd hc⟩
  obtain ⟨done, todo, hsplit, _, hacts, hdrained⟩ := (atBoundaries hfs h.of_logged).heads c
  exact ⟨done, todo, hsplit, hserved.symm.trans hacts, hdrained hd hc⟩

/-- A node announces itself, and asks. -/
def announcementAndQuery : List ReqFrame :=
  [⟨DicMainOperation.announceInfo.code, 1, le32 8, by decide⟩,
    ⟨DicMainOperation.getInfo.code, 1, [], by decide⟩]

theorem aligned_announcementAndQuery : Aligned announcementAndQuery := by
  unfold announcementAndQuery Aligned
  refine ⟨by decide, ?_⟩
  unfold Aligned
  exact Or.inl ⟨rfl, trivial⟩

/-- What connection 0 sends is `announcementAndQuery`, and nobody else sends anything. -/
def fromFirst (c : ConnId) : List ReqFrame := if c = 0 then announcementAndQuery else []

def sendsFirst (s : Server) (l : ConnId × Action) : Bool :=
  match l.2 with
  | .peerSend bytes => (sentOn l.1 s.shared.history ++ bytes).isPrefixOf (wire (fromFirst l.1))
  | _ => true

theorem sendsFrames_of_first (s : Server) (l : ConnId × Action) (hok : sendsFirst s l = true) :
    SendsFrames fromFirst s l := by
  intro bytes hl
  rw [sendsFirst, hl] at hok
  exact List.isPrefixOf_iff_prefix.mp hok

def queryBehindAnnouncement : List (ConnId × Action) :=
  announceRun 0 100 8 ++
    [(0, .peerSend (ReqHead.bytes ⟨DicMainOperation.getInfo.code, 1, 0⟩)), (0, .recv 8),
      (0, .recvDone 0), (0, .lock), (0, .collect), (0, .send), (0, .send), (0, .unlock)]

/-- Both are answered, the announcement first. -/
theorem answers_in_order_run : ∃ p e, (answersFrames fromFirst).Reachable p ∧
    servedOn 0 p.1.1.shared.history = [.announceInfo, .getInfo] ∧
      putOn 0 p.2 = ack ++ infoReply [e] := by
  have hrun : (Server.start.exec sendsFirst queryBehindAnnouncement).any (fun s =>
      (s.conns 0).any fun h => decide (servedOn 0 s.shared.history = [.announceInfo, .getInfo] ∧
        ((announcements s.shared.history).any fun e =>
          decide (answersOn 0 s.shared.history = ack ++ infoReply [e])) = true ∧
        h.sockOpen = true ∧ h.pc = .recvHead [])) = true := by
    decide +kernel
  obtain ⟨s, hs, htest⟩ := (Option.any_eq_true _ _).mp hrun
  obtain ⟨h, hc, htest⟩ := (Option.any_eq_true _ _).mp htest
  obtain ⟨hserved, hanswers, hopen, hpc⟩ := of_decide_eq_true htest
  obtain ⟨e, _, he⟩ := List.any_eq_true.mp hanswers
  have hreach : (mainServer.restrict (SendsFrames fromFirst)).Reachable s :=
    reachable_of_exec sendsFrames_of_first hs
  obtain ⟨heads, hheads⟩ : ∃ heads, (servesFrames fromFirst).Reachable (s, heads) :=
    hreach.exists_log
  obtain ⟨log, hlog⟩ : ∃ log, (answersFrames fromFirst).Reachable ((s, heads), log) :=
    hheads.exists_log
  have haligned : ∀ c, Aligned (fromFirst c) := by
    intro c
    unfold fromFirst
    split
    · exact aligned_announcementAndQuery
    · trivial
  obtain ⟨_, _, hput, _⟩ := answers_in_order haligned hlog 0 hc
  have hall := hput hopen
  rw [hpc] at hall
  refine ⟨_, e, hlog, hserved, ?_⟩
  calc putOn 0 log = putOn 0 log ++ [] := (List.append_nil _).symm
    _ = answersOn 0 s.shared.history ++ [] := hall
    _ = ack ++ infoReply [e] := by rw [List.append_nil, of_decide_eq_true he]

end Dicon.MainServer
