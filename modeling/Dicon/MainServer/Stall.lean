import Dicon.MainServer.Frames

/-!
# Stalled critical sections

Nobody should be able to keep the mutex of the registry by not sending. The head
of a request is received before the mutex is taken, but `handle_push_info`
receives the body with the mutex held. The registry is never stalled in the runs
in which that body has arrived when the mutex is taken, or the peer has closed
and sends no more of it; and otherwise the thread by itself comes to wait for its
peer inside the critical section.
-/

namespace Dicon.MainServer

open Dicon.Framework

/-- Without a step of any peer, a reply is computed from the list and sent. -/
def Served (s : Server) (c : ConnId) (h : Handler) : Prop :=
  ∃ u t h' es, serverAlone.Steps s u ∧ u.shared.registry.collectInfo = some es ∧
    serverAlone.Steps u t ∧ t.conns c = some h' ∧ h'.output = h.output ++ infoReply es

/-- The body that `head` declares is there, or what there will ever be of it, and
fits its variable. -/
structure Handler.BodyArrived (h : Handler) (head : ReqHead) : Prop where
  arrived : recvCount head.bodySize ≤ h.input.length ∨ h.peerClosed = true
  room : min (recvCount head.bodySize) h.input.length ≤ reqAnnounceInfoSize

/-- The mutex is taken for an announcement whose body has arrived. -/
def BodiesArrived (s : Server) (l : ConnId × Action) : Prop :=
  l.2 = .lock → ∀ h head, s.conns l.1 = some h → h.pc = .lockAnnounce head →
    h.sockOpen = true → h.BodyArrived head

/-! ## Critical sections end -/

section Effects

variable {c : ConnId} {h h' : Handler} {sh sh' : Shared} {a : Action}

theorem Handler.BodyArrived.ends {head : ReqHead}
    (harr : h.sockOpen = true → h.BodyArrived head) :
    ({ h with pc := .recvBody head [] } : Handler).BodyEnds [] := by
  constructor
  · intro hopen
    have hroom := (harr hopen).room
    simpa [Handler.need] using hroom
  · cases hopen : h.sockOpen with
    | false => exact Or.inl rfl
    | true => exact Or.inr (by simpa [Handler.need] using (harr hopen).arrived)

/-- The next bytes of a body whose receive ends. -/
theorem Handler.BodyEnds.recv {head : ReqHead} {got : List UInt8} {k : ℕ}
    (hend : h.BodyEnds got) (hpc : h.pc = .recvBody head got) (hrecv : h.CanRecv k) :
    ({ h with
        pc := .recvBody head (got ++ h.input.take k)
        input := h.input.drop k } : Handler).BodyEnds (got ++ h.input.take k) := by
  obtain ⟨_, _, hneed, hinput⟩ := hrecv
  have htake : (h.input.take k).length = k := List.length_take_of_le hinput
  obtain ⟨hroom, harrives⟩ := hend
  simp only [Handler.need, hpc] at hneed hroom harrives
  constructor
  · intro hopen
    have hroom := hroom hopen
    simp only [Handler.need, List.length_append, List.length_drop, htake]
    omega
  · rcases harrives with hclosed | hle | hclosed
    · exact Or.inl hclosed
    · right
      left
      simp only [Handler.need, List.length_append, List.length_drop, htake]
      omega
    · exact Or.inr (Or.inr hclosed)

theorem effect_bodyEnds (he : Effect c h sh a h' sh')
    (hok : a = .lock → ∀ head, h.pc = .lockAnnounce head → h.sockOpen = true →
      h.BodyArrived head)
    (hi : ∀ head got, h.pc = .recvBody head got → h.BodyEnds got) :
    ∀ head got, h'.pc = .recvBody head got → h'.BodyEnds got := by
  intro head got hpc'
  cases he with
  | @peerSend bytes hclosed =>
      obtain ⟨hroom, harrives⟩ := hi head got hpc'
      -- the bytes of the body are there already, so more of them change nothing
      have harrives : h.sockOpen = false ∨ h.need ≤ h.input.length := by
        rcases harrives with hopen | hle | hpeer
        · exact Or.inl hopen
        · exact Or.inr hle
        · rw [hclosed] at hpeer
          cases hpeer
      constructor
      · intro hopen
        have hroom := hroom hopen
        have hle : h.need ≤ h.input.length := by
          rcases harrives with hshut | hle
          · rw [show h.sockOpen = true from hopen] at hshut
            cases hshut
          · exact hle
        show got.length + min h.need (h.input ++ bytes).length ≤ reqAnnounceInfoSize
        rw [List.length_append]
        omega
      · rcases harrives with hopen | hle
        · exact Or.inl hopen
        · right
          left
          show h.need ≤ (h.input ++ bytes).length
          rw [List.length_append]
          omega
  | peerClose =>
      obtain ⟨hroom, _⟩ := hi head got hpc'
      exact ⟨hroom, Or.inr (Or.inr rfl)⟩
  | peerAck | peerOther =>
      obtain ⟨hroom, harrives⟩ := hi head got hpc'
      exact ⟨hroom, harrives⟩
  | overrun | appendFault | collectFault | removeFault => exact hi head got hpc'
  | recvBody hpc hrecv =>
      cases hpc'
      exact (hi _ _ hpc).recv hpc hrecv
  | recvHead | bodyFail | bodyDone | append | collect | remove | destroy => cases hpc'
  | headFail => cases hcn : h.isComputeNode <;> simp [hcn] at hpc'
  | @headDone _ got =>
      rcases switchOperation_cases (.ofBytes got) with hq | hq | hq <;>
        (rw [hq] at hpc'; cases hpc')
  -- the only way into the receive of a body: there the condition on the step applies
  | lock hpc =>
      rcases afterLock_cases hpc with ⟨head', hp, rfl⟩ | ⟨_, rfl⟩ | ⟨_, rfl⟩
      · cases hpc'
        exact Handler.BodyArrived.ends (hok rfl _ hp)
      · cases hpc'
      · cases hpc'
  | send hpc =>
      rcases afterSend_cases hpc with
        ⟨_, _, rfl, _⟩ | ⟨_, _, rfl, _⟩ | ⟨_, _, rfl, _⟩ | ⟨_, _, rfl, _⟩ <;> cases hpc'
  | unlock hpc =>
      rcases afterUnlock_cases hpc with ⟨_, rfl⟩ | ⟨_, rfl⟩ <;> cases hpc'

end Effects

/-- Every receive of a body comes to its end without the peer. -/
structure BodiesEnd (s : Server) : Prop where
  defined : s.shared.undefined = false
  ends : ∀ c h head got, s.conns c = some h → h.pc = .recvBody head got → h.BodyEnds got

theorem BodiesEnd.step {s t : Server} {l : ConnId × Action} (hi : BodiesEnd s) (hinv : Inv s)
    (hok : BodiesArrived s l) (h : mainServer.step s l t) : BodiesEnd t := by
  obtain ⟨c, a⟩ := l
  rcases step_cases h with ⟨ip, hc, rfl⟩ | ⟨hd, hd', sh', hc, he, rfl⟩
  · refine ⟨hi.defined, fun d x head got hx => ?_⟩
    -- a new connection is in the receive of a header
    rcases update_eq_some hx with ⟨rfl, rfl⟩ | ⟨_, hx⟩
    · intro hpc
      cases hpc
    · exact hi.ends d x head got hx
  · constructor
    · rcases hinv.undefined_step hc he with hsame | ⟨k, head, got, rfl, hpc, hrecv, hlt⟩
      · exact hsame.trans hi.defined
      · obtain ⟨hopen, _, hneed, hinput⟩ := hrecv
        have hroom := (hi.ends c hd head got hc hpc).room hopen
        omega
    · intro d x head got hx
      rcases update_eq_some hx with ⟨rfl, rfl⟩ | ⟨_, hx⟩
      · exact effect_bodyEnds he (fun ha head => hok ha hd head hc)
          (fun head got => hi.ends d hd head got hc) head got
      · exact hi.ends d x head got hx

theorem Served.trans {s t : Server} {c : ConnId} {h h' : Handler} (hst : serverAlone.Steps s t)
    (hout : h'.output = h.output) (hserved : Served t c h') : Served s c h := by
  obtain ⟨u, v, x, es, htu, hes, huv, hx, hreply⟩ := hserved
  exact ⟨u, v, x, es, hst.trans htu, hes, huv, hx, by rw [hreply, hout]⟩

end Dicon.MainServer
