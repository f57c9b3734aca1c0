import Dicon.MainServer.Server

/-!
# What one step of the main server can do

`Effect` lists the steps of one connection with everything each of them checks
and changes; `step_cases` says that there are no others. The invariants of the
server are case analyses over `Effect` and never unfold the step functions.
-/

namespace Dicon.MainServer

open Dicon.Framework

inductive Effect (c : ConnId) (h : Handler) (sh : Shared) :
    Action → Handler → Shared → Prop
  | peerSend {bytes} : h.peerClosed = false →
      Effect c h sh (.peerSend bytes) { h with input := h.input ++ bytes }
        { sh with history := sh.history ++ [.requestSent c bytes] }
  | peerClose : Effect c h sh .peerClose { h with peerClosed := true } sh
  | peerAck {rest} : h.output = .ackBody :: rest →
      Effect c h sh .peerRecv { h with output := rest }
        { sh with history := sh.history ++ [.ackReceived c] }
  | peerOther {segment rest} : h.output = segment :: rest → segment ≠ .ackBody →
      Effect c h sh .peerRecv { h with output := rest } sh
  | recvHead {k got} : h.pc = .recvHead got → h.CanRecv k →
      Effect c h sh (.recv k)
        { h with pc := .recvHead (got ++ h.input.take k), input := h.input.drop k } sh
  | recvBody {k head got} : h.pc = .recvBody head got → h.CanRecv k →
      got.length + k ≤ reqAnnounceInfoSize →
      Effect c h sh (.recv k)
        { h with pc := .recvBody head (got ++ h.input.take k), input := h.input.drop k } sh
  | overrun {k head got} : h.pc = .recvBody head got → h.CanRecv k →
      reqAnnounceInfoSize < got.length + k →
      Effect c h sh (.recv k) h { sh with undefined := true }
  | headFail {junk got} : h.pc = .recvHead got → h.RecvFails →
      Effect c h sh (.recvFail junk)
        { h with pc := if h.isComputeNode then .lockRemove else .destroy, sockOpen := false } sh
  | bodyFail {junk head got} : h.pc = .recvBody head got → h.RecvFails →
      Effect c h sh (.recvFail junk)
        { h with pc := .sendAckHead (h.announcement c got junk), sockOpen := false } sh
  | headDone {junk got} : h.pc = .recvHead got → h.need = 0 →
      Effect c h sh (.recvDone junk) { h with pc := switchOperation (.ofBytes got) } sh
  | bodyDone {junk head got} : h.pc = .recvBody head got → h.need = 0 →
      Effect c h sh (.recvDone junk) { h with pc := .sendAckHead (h.announcement c got junk) } sh
  | lock {pc} : h.pc.afterLock = some pc → sh.nodesInfoMut = none →
      Effect c h sh .lock { h with pc := pc } { sh with nodesInfoMut := some c }
  | send {segments pc} : h.pc.afterSend = some (segments, pc) →
      Effect c h sh .send
        { h with pc := pc, output := h.output ++ if h.sockOpen then segments else [] } sh
  | append {newNode e registry connInfo} : h.pc = .append e →
      sh.registry.cell newNode = none →
      sh.registry.appendInfo e newNode = some (registry, connInfo) →
      Effect c h sh (.append newNode)
        { h with pc := .unlock, connInfo := some connInfo, isComputeNode := true,
                 announces := h.announces + 1 }
        { sh with registry := registry, history := sh.history ++ [.announced e] }
  | appendFault {newNode e} : h.pc = .append e → sh.registry.cell newNode = none →
      sh.registry.appendInfo e newNode = none →
      Effect c h sh (.append newNode) h { sh with undefined := true }
  | collect {es} : h.pc = .collect → sh.registry.collectInfo = some es →
      Effect c h sh .collect { h with pc := .sendInfoHead es }
        { sh with history := sh.history ++ [.replied c es] }
  | collectFault : h.pc = .collect → sh.registry.collectInfo = none →
      Effect c h sh .collect h { sh with undefined := true }
  | remove {registry} : h.pc = .remove →
      h.connInfo.bind sh.registry.removeInfo = some registry →
      Effect c h sh .remove { h with pc := .unlockRemove }
        { sh with registry := registry, history := sh.history ++ [.removed c] }
  | removeFault : h.pc = .remove → h.connInfo.bind sh.registry.removeInfo = none →
      Effect c h sh .remove h { sh with undefined := true }
  | unlock {pc} : h.pc.afterUnlock = some pc →
      Effect c h sh .unlock { h with pc := pc } { sh with nodesInfoMut := none }
  | destroy : h.pc = .destroy →
      Effect c h sh .destroy { h with pc := .finished, sockOpen := false }
        { sh with history := sh.history ++ [.finished c] }

section

variable {c : ConnId} {h h' : Handler} {sh sh' : Shared} {a : Action}

theorem recv_effect {k : ℕ} (hs : h.recv sh k = some (h', sh')) :
    Effect c h sh (.recv k) h' sh' := by
  unfold Handler.recv at hs
  split at hs
  · next got hpc =>
      split at hs <;> cases hs
      exact .recvHead hpc ‹_›
  · next head got hpc =>
      split at hs
      · split at hs <;> cases hs
        · exact .recvBody hpc ‹_› ‹_›
        · exact .overrun hpc ‹_› (by omega)
      · cases hs
  · cases hs

theorem recvFail_effect {junk : UInt32} (hs : h.recvFail c sh junk = some (h', sh')) :
    Effect c h sh (.recvFail junk) h' sh' := by
  unfold Handler.recvFail at hs
  split at hs
  · split at hs <;> cases hs
    · exact .headFail ‹_› ‹_›
    · exact .bodyFail ‹_› ‹_›
  · cases hs

theorem recvDone_effect {junk : UInt32} (hs : h.recvDone c sh junk = some (h', sh')) :
    Effect c h sh (.recvDone junk) h' sh' := by
  unfold Handler.recvDone at hs
  split at hs
  · split at hs <;> cases hs
    · exact .headDone ‹_› ‹_›
    · exact .bodyDone ‹_› ‹_›
  · cases hs

theorem lock_effect (hs : h.lock c sh = some (h', sh')) :
    Effect c h sh .lock h' sh' := by
  unfold Handler.lock at hs
  rw [Option.bind_eq_bind, Option.bind_eq_some_iff] at hs
  obtain ⟨pc, hpc, hs⟩ := hs
  split at hs <;> cases hs
  exact .lock hpc ‹_›

theorem unlock_effect (hs : h.unlock sh = some (h', sh')) :
    Effect c h sh .unlock h' sh' := by
  unfold Handler.unlock at hs
  rw [Option.bind_eq_bind, Option.bind_eq_some_iff] at hs
  obtain ⟨pc, hpc, hs⟩ := hs
  cases hs
  exact .unlock hpc

theorem send_effect (hs : h.send sh = some (h', sh')) :
    Effect c h sh .send h' sh' := by
  unfold Handler.send at hs
  rw [Option.bind_eq_bind, Option.bind_eq_some_iff] at hs
  obtain ⟨⟨segments, pc⟩, hpc, hs⟩ := hs
  cases hs
  exact .send hpc

theorem append_effect {newNode : Addr} (hs : h.append sh newNode = some (h', sh')) :
    Effect c h sh (.append newNode) h' sh' := by
  unfold Handler.append at hs
  split at hs
  · split at hs
    · split at hs <;> cases hs
      · exact .append ‹_› ‹_› ‹_›
      · exact .appendFault ‹_› ‹_› ‹_›
    · cases hs
  · cases hs

theorem collect_effect (hs : h.collect c sh = some (h', sh')) :
    Effect c h sh .collect h' sh' := by
  unfold Handler.collect at hs
  split at hs
  · split at hs <;> cases hs
    · exact .collect ‹_› ‹_›
    · exact .collectFault ‹_› ‹_›
  · cases hs

theorem remove_effect (hs : h.remove c sh = some (h', sh')) :
    Effect c h sh .remove h' sh' := by
  unfold Handler.remove at hs
  split at hs
  · split at hs <;> cases hs
    · exact .remove ‹_› ‹_›
    · exact .removeFault ‹_› ‹_›
  · cases hs

theorem peerRecv_effect (hs : h.peerRecv c sh = some (h', sh')) :
    Effect c h sh .peerRecv h' sh' := by
  unfold Handler.peerRecv at hs
  split at hs <;> cases hs
  · exact .peerAck ‹_›
  · exact .peerOther ‹_› (fun e => by subst e; simp_all)

theorem act_effect (hs : h.act c sh a = some (h', sh')) :
    Effect c h sh a h' sh' := by
  cases a with
  | accept ip => cases hs
  | peerSend bytes =>
      simp only [Handler.act] at hs
      split at hs <;> cases hs
      exact .peerSend (Bool.eq_false_iff.mpr ‹_›)
  | peerClose =>
      cases hs
      exact .peerClose
  | peerRecv => exact peerRecv_effect hs
  | recv k => exact recv_effect hs
  | recvFail junk => exact recvFail_effect hs
  | recvDone junk => exact recvDone_effect hs
  | lock => exact lock_effect hs
  | send => exact send_effect hs
  | append newNode => exact append_effect hs
  | collect => exact collect_effect hs
  | remove => exact remove_effect hs
  | unlock => exact unlock_effect hs
  | destroy =>
      simp only [Handler.act, Handler.destroy] at hs
      split at hs <;> cases hs
      exact .destroy ‹_›

theorem effect_ip (he : Effect c h sh a h' sh') : h'.ip = h.ip := by
  cases he <;> rfl

end

/-- Every step accepts a connection or moves one, and the others stand still. -/
theorem step_cases {s t : Server} {c : ConnId} {a : Action}
    (h : mainServer.step s (c, a) t) :
    (∃ ip, s.conns c = none ∧
      t = { s with conns := Function.update s.conns c (some (.new ip)) }) ∨
    (∃ hd hd' sh', s.conns c = some hd ∧ Effect c hd s.shared a hd' sh' ∧
      t = ⟨Function.update s.conns c (some hd'), sh'⟩) := by
  simp only [mainServer, Server.step?] at h
  split at h
  · cases h
  · split at h
    · cases h
      exact Or.inl ⟨_, ‹_›, rfl⟩
    · cases h
    · rw [Option.bind_eq_bind, Option.bind_eq_some_iff] at h
      obtain ⟨⟨hd', sh'⟩, hact, ht⟩ := h
      cases ht
      exact Or.inr ⟨_, hd', sh', ‹_›, act_effect hact, rfl⟩

end Dicon.MainServer
