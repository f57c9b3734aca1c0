import Dicon.MainServer.Running
import Dicon.MainServer.Stream

/-!
# Authentic entries

An entry of the registry should stand for a body that was received in full, and
carry the core count of that body. `handle_push_info` does not look at the result
of its `dic_conn_recv`, and asks for as many bytes as the header declares. So the
entries are authentic exactly in the runs in which that receive takes the four
bytes of the body and no others, whatever else the peers send.
-/

namespace Dicon.MainServer

open Dicon.Framework

/-- The four bytes of the body were received on the connection of `e`, behind an
ANNOUNCE_INFO header, and `e` carries the core count they spell. -/
structure Announced.Authentic (sent : List UInt8) (e : Announced) : Prop where
  stream : e.FromStream sent
  length : e.body.length = reqAnnounceInfoSize
  cores : e.info.coreCount = rd32 e.body

/-- Whatever was appended is authentic, and the list has nothing else. -/
structure Authentic (s : Server) : Prop where
  defined : s.shared.undefined = false
  appended : ∀ e ∈ announcements s.shared.history,
    e.Authentic (sentOn e.conn s.shared.history)
  listed : ∀ a n, s.shared.registry.cell a = some n →
    n.info ∈ announcements s.shared.history

/-- What the receive of a body may do after it took `got`. -/
def TakesFour (got : List UInt8) : Action → Prop
  | .recv k => got.length + k ≤ reqAnnounceInfoSize
  | .recvDone _ | .recvFail _ => got.length = reqAnnounceInfoSize
  | _ => True

/-- The receive of an announcement's body takes four bytes, and ends when it has
them. -/
def FullBody (s : Server) (l : ConnId × Action) : Prop :=
  ∀ h head got, s.conns l.1 = some h → h.pc = .recvBody head got → TakesFour got l.2

/-- No more than four bytes are in the buffer, and exactly four in what is about
to be appended. -/
def Pc.Full : Pc → Prop
  | .recvBody _ got => got.length ≤ reqAnnounceInfoSize
  | .sendAckHead e | .sendAckBody e | .append e => e.body.length = reqAnnounceInfoSize
  | _ => True

section Effects

variable {c : ConnId} {h h' : Handler} {sh sh' : Shared} {a : Action}

theorem effect_full (he : Effect c h sh a h' sh')
    (hok : ∀ head got, h.pc = .recvBody head got → TakesFour got a) (hi : h.pc.Full) :
    h'.pc.Full := by
  cases he with
  | peerSend | peerClose | peerAck | peerOther => exact hi
  | overrun | appendFault | collectFault | removeFault => exact hi
  | recvHead | append | collect | remove | destroy => trivial
  | recvBody hpc _ hroom =>
      show (_ ++ _ : List UInt8).length ≤ reqAnnounceInfoSize
      rw [List.length_append, List.length_take]
      omega
  | headFail => cases h.isComputeNode <;> trivial
  -- the receive ends, with four bytes by the condition on the step
  | bodyFail hpc | bodyDone hpc => exact hok _ _ hpc
  | @headDone _ got =>
      show (switchOperation (.ofBytes got)).Full
      rcases switchOperation_cases (.ofBytes got) with hq | hq | hq <;> (rw [hq]; trivial)
  | lock hpc =>
      rcases afterLock_cases hpc with ⟨_, _, rfl⟩ | ⟨_, rfl⟩ | ⟨_, rfl⟩
      · exact Nat.zero_le _
      · trivial
      · trivial
  | send hpc =>
      rcases afterSend_cases hpc with
        ⟨_, hp, rfl, _⟩ | ⟨_, hp, rfl, _⟩ | ⟨_, _, rfl, _⟩ | ⟨_, _, rfl, _⟩
      · rw [hp] at hi
        exact hi
      · rw [hp] at hi
        exact hi
      · trivial
      · trivial
  | unlock hpc =>
      rcases afterUnlock_cases hpc with ⟨_, rfl⟩ | ⟨_, rfl⟩ <;> trivial

end Effects

/-- All bodies are full, those that wait for their append and those that had it. -/
structure AllFull (s : Server) : Prop where
  defined : s.shared.undefined = false
  pcs : ∀ c h, s.conns c = some h → h.pc.Full
  appended : ∀ e ∈ announcements s.shared.history, e.body.length = reqAnnounceInfoSize

theorem AllFull.step {s t : Server} {l : ConnId × Action} (hi : AllFull s) (hinv : Inv s)
    (hok : FullBody s l) (h : mainServer.step s l t) : AllFull t := by
  obtain ⟨c, a⟩ := l
  rcases step_cases h with ⟨ip, hc, rfl⟩ | ⟨hd, hd', sh', hc, he, rfl⟩
  · exact ⟨hi.defined, forall_update hi.pcs trivial, hi.appended⟩
  · have hfull := hi.pcs c hd hc
    refine ⟨?_, forall_update hi.pcs ?_, forall_announcements he hi.appended ?_⟩
    · rcases hinv.undefined_step hc he with hsame | ⟨k, head, got, rfl, hpc, _, hlt⟩
      · exact hsame.trans hi.defined
      · -- a receive that does not fit the variable is not in the run
        have hroom : got.length + k ≤ reqAnnounceInfoSize := hok hd head got hc hpc
        omega
    · exact effect_full he (fun head got => hok hd head got hc) hfull
    · intro e hpc
      rw [hpc] at hfull
      exact hfull

theorem allFull {s : Server} (h : (mainServer.restrict FullBody).Reachable s) : AllFull s := by
  refine h.invariant_of ?_ ?_
  · rintro _ rfl
    refine ⟨rfl, ?_, ?_⟩
    · intro c h hc
      cases hc
    · intro e he
      cases he
  · intro s l t hr hi hstep
    exact hi.step (inv_of_reachable hr.of_restrict) hstep.1 hstep.2

/-- Every node of the heap carries an entry that was announced. -/
def NodesAnnounced (s : Server) : Prop :=
  ∀ a n, s.shared.registry.cell a = some n → n.info ∈ announcements s.shared.history

/-- A node is new and carries the announcement that the step logs, or it was there
before. -/
theorem NodesAnnounced.step {s t : Server} {l : ConnId × Action} (hi : NodesAnnounced s)
    (hinv : Inv s) (hstep : mainServer.step s l t) : NodesAnnounced t := by
  obtain ⟨c, a⟩ := l
  intro y n hn
  rcases step_cases hstep with ⟨ip, hc, rfl⟩ | ⟨hd, hd', sh', hc, he, rfl⟩
  · exact hi y n hn
  · obtain ⟨vis, orph, hshape⟩ := hinv.shape
    have hkept : ∀ m, s.shared.registry.cell y = some m → m.info = n.info →
        n.info ∈ announcements sh'.history := by
      intro m hm hinfo
      rw [← hinfo]
      exact effect_announcements_mono he (hi y m hm)
    rcases effect_registry he with ⟨hsame, _⟩ |
      ⟨_, e, _, x, _, _, hfree, happ, _, _, _, _, rfl⟩ | ⟨r, _, _, hrem, _, rfl⟩
    · rw [hsame] at hn
      exact hkept n hn rfl
    · obtain ⟨rfl, _, ⟨m, hm, hme⟩, hold⟩ := appendInfo_shape hshape hfree happ
      by_cases hy : y = x
      · subst hy
        rw [hm] at hn
        cases hn
        rw [hme, announcements_append]
        exact List.mem_append_right _ List.mem_cons_self
      · obtain ⟨m, hm, hinfo⟩ := cell_of_info hn (hold y hy).symm
        exact hkept m hm hinfo
    · obtain ⟨x, _, hrem⟩ := Option.bind_eq_some_iff.mp hrem
      obtain ⟨_, hgone, hold⟩ := removeInfo_shape hshape hrem
      have hy : y ≠ x := by
        rintro rfl
        rw [hgone] at hn
        cases hn
      obtain ⟨m, hm, hinfo⟩ := cell_of_info hn (hold y hy).symm
      exact hkept m hm hinfo

theorem nodesAnnounced {s : Server} (h : mainServer.Reachable s) : NodesAnnounced s := by
  refine h.invariant_of ?_ ?_
  · rintro _ rfl a n hn
    cases hn
  · intro s l t hr hi hstep
    exact hi.step (inv_of_reachable hr) hstep

theorem authentic {s : Server} (h : (mainServer.restrict FullBody).Reachable s) :
    Authentic s := by
  have hfull := allFull h
  refine ⟨hfull.defined, fun e he => ?_, nodesAnnounced h.of_restrict⟩
  have hstream := fromStreams h.of_restrict e he
  have hlen := hfull.appended e he
  obtain ⟨junk, hcores⟩ := hstream.2
  exact ⟨hstream, hlen, hcores.trans (announcedCores_full hlen junk)⟩

/-- A body that is not the four bytes is announced all the same, or overruns the
variable it is received into. -/
theorem forged_of_not_fullBody {s t : Server} {l : ConnId × Action} (hinv : Inv s)
    (hdef : s.shared.undefined = false) (hnot : ¬ FullBody s l) (h : mainServer.step s l t) :
    ∃ u, mainServer.Steps t u ∧ ¬ Authentic u := by
  obtain ⟨c, a⟩ := l
  simp only [FullBody, not_forall] at hnot
  obtain ⟨hd, head, got, hc, hpc, hnot⟩ := hnot
  have hinv' := hinv.step h
  rcases step_cases h with ⟨ip, hc', rfl⟩ | ⟨hd₂, hd', sh', hc', he, rfl⟩
  · rw [hc'] at hc
    cases hc
  rw [hc] at hc'
  cases hc'
  have hown : Function.update s.conns c (some hd') c = some hd' := Function.update_self ..
  -- the thread acknowledges what it has and appends it
  have hforged : ∀ {junk}, got.length ≠ reqAnnounceInfoSize → sh' = s.shared →
      hd'.pc = .sendAckHead (hd.announcement c got junk) →
      ∃ u, mainServer.Steps ⟨Function.update s.conns c (some hd'), sh'⟩ u ∧ ¬ Authentic u := by
    rintro junk hlen rfl hpc'
    obtain ⟨u, _, hgo, _, _, hhist⟩ := announces ⟨hinv', hdef, hown⟩ hpc'
    refine ⟨u, hgo.steps.of_restrict, fun hau => hlen ?_⟩
    refine (hau.appended (hd.announcement c got junk) ?_).length
    rw [hhist, announcements_append]
    exact List.mem_append_right _ List.mem_cons_self
  cases he with
  | peerSend | peerClose | peerAck | peerOther => exact absurd trivial hnot
  | appendFault | collectFault | removeFault => exact absurd trivial hnot
  | append | collect | remove | destroy | lock | send | unlock => exact absurd trivial hnot
  | recvHead hpc' | headFail hpc' | headDone hpc' =>
      rw [hpc] at hpc'
      cases hpc'
  | recvBody hpc' _ hroom =>
      rw [hpc] at hpc'
      cases hpc'
      exact absurd hroom hnot
  | overrun =>
      refine ⟨_, .refl, fun hau => ?_⟩
      have hundef := hau.defined
      cases hundef
  | bodyFail hpc' | bodyDone hpc' =>
      rw [hpc] at hpc'
      cases hpc'
      exact hforged hnot rfl rfl

/-- In a run in which the receive of an announcement's body takes the four bytes
of the body and no others, every entry that was appended is authentic and the
list has no others; and from the first receive that does not, the server itself
gets to a state with an entry that is not, or with an overrun variable. -/
theorem entries_authentic {s : Server} (h : (mainServer.restrict FullBody).Reachable s) :
    Authentic s ∧ ∀ l t, mainServer.step s l t → ¬ FullBody s l →
      ∃ u, mainServer.Steps t u ∧ ¬ Authentic u := by
  have hau := authentic h
  refine ⟨hau, fun l t hstep hnot => ?_⟩
  exact forged_of_not_fullBody (inv_of_reachable h.of_restrict) hau.defined hnot hstep

/-- The step is not one of a body's receive, or takes the four bytes. -/
def fullBody (s : Server) (l : ConnId × Action) : Bool :=
  (s.conns l.1).all fun h =>
    match h.pc, l.2 with
    | .recvBody _ got, .recv k => decide (got.length + k ≤ reqAnnounceInfoSize)
    | .recvBody _ got, .recvDone _ | .recvBody _ got, .recvFail _ =>
        decide (got.length = reqAnnounceInfoSize)
    | _, _ => true

theorem fullBody_of_test (s : Server) (l : ConnId × Action) (hok : fullBody s l = true) :
    FullBody s l := by
  obtain ⟨c, a⟩ := l
  intro h head got hc hpc
  cases a <;> simp_all [fullBody, TakesFour]

theorem entries_authentic_run :
    ∃ s, (mainServer.restrict FullBody).Reachable s ∧
      announcements s.shared.history ≠ [] ∧ Authentic s := by
  have hrun : (Server.start.exec fullBody (announceRun 0 100 4)).any (fun s =>
      decide (announcements s.shared.history ≠ [])) = true := by
    decide +kernel
  obtain ⟨s, hs, htest⟩ := (Option.any_eq_true _ _).mp hrun
  have hreach : (mainServer.restrict FullBody).Reachable s :=
    reachable_of_exec fullBody_of_test hs
  exact ⟨s, hreach, of_decide_eq_true htest, (entries_authentic hreach).1⟩

/-- A peer sends the header of an announcement and closes. -/
def headerOnly : List (ConnId × Action) :=
  [(0, .accept ⟨2, 16777343, Vector.replicate 12 0⟩),
    (0, .peerSend (ReqHead.bytes ⟨DicMainOperation.announceInfo.code, 1, 4⟩)),
    (0, .peerClose), (0, .recv 8), (0, .recvDone 0), (0, .lock), (0, .recvFail 7),
    (0, .send), (0, .send), (0, .append 100)]

/-- An entry is appended although no byte of its body was received. -/
theorem forged_entry : ¬ ∀ s, mainServer.Reachable s → Authentic s := by
  intro hall
  have hrun : (Server.start.exec anyStep headerOnly).any (fun s =>
      (announcements s.shared.history).any fun e =>
        decide (e.body = []) && decide (e.info.coreCount = 7)) = true := by
    decide +kernel
  obtain ⟨s, hs, htest⟩ := (Option.any_eq_true _ _).mp hrun
  rw [List.any_eq_true] at htest
  obtain ⟨e, he, htest⟩ := htest
  rw [Bool.and_eq_true] at htest
  have hlen := ((hall s (reachable_of_run hs)).appended e he).length
  rw [of_decide_eq_true htest.1] at hlen
  cases hlen

end Dicon.MainServer
