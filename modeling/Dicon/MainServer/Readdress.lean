import Dicon.MainServer.Invariant

/-!
# Addresses are never looked at

The server copies the `ip_addr_t` of a connection into its entries and its
replies, and no step depends on it: to replace every address of a run by another
one is to run the server with other addresses (`step_readdress`, `exec_readdress`).
-/

namespace Dicon.MainServer

open Dicon.Framework

namespace Registry

variable {α β : Type} (f : α → β)

/-- The same nodes, with other contents. -/
def map (r : Registry α) : Registry β := ⟨mapInfo f r.cell, r.live, r.nodesInfo⟩

theorem lastNode_mapInfo (cell : Store Addr α) (fuel : ℕ) (x : Addr) :
    lastNode (mapInfo f cell) fuel x = lastNode cell fuel x := by
  induction fuel generalizing x with
  | zero => rfl
  | succ fuel ih =>
      cases hx : cell x with
      | none => simp [lastNode, mapInfo, hx]
      | some n =>
          cases hn : n.next with
          | none => simp [lastNode, mapInfo, hx, hn]
          | some y => simpa [lastNode, mapInfo, hx, hn] using ih y

theorem countNodes_mapInfo (cell : Store Addr α) (fuel : ℕ) (x : Addr) (len : ℕ) :
    countNodes (mapInfo f cell) fuel x len = countNodes cell fuel x len := by
  induction fuel generalizing x len with
  | zero => rfl
  | succ fuel ih =>
      cases hx : cell x with
      | none => simp [countNodes, mapInfo, hx]
      | some n =>
          cases hn : n.next with
          | none => simp [countNodes, mapInfo, hx, hn]
          | some y => simpa [countNodes, mapInfo, hx, hn] using ih y (len + 1)

theorem copyNodes_mapInfo (cell : Store Addr α) (k : ℕ) (x : Option Addr) :
    copyNodes (mapInfo f cell) k x = (copyNodes cell k x).map (List.map f) := by
  induction k generalizing x with
  | zero => rfl
  | succ k ih =>
      cases x with
      | none => rfl
      | some x =>
          cases hx : cell x with
          | none => simp [copyNodes, mapInfo, hx]
          | some n =>
              simp only [copyNodes, mapInfo, hx, Option.map_some, Option.bind_eq_bind,
                Option.bind_some]
              rw [ih]
              cases copyNodes cell k n.next <;> rfl

theorem collectInfo_map (r : Registry α) :
    (r.map f).collectInfo = r.collectInfo.map (List.map f) := by
  unfold collectInfo map
  cases hfirst : r.nodesInfo with
  | none => simp [copyNodes]
  | some first =>
      simp only [countNodes_mapInfo, Option.bind_eq_bind]
      cases countNodes r.cell r.live first 1 with
      | none => rfl
      | some len => simp [copyNodes_mapInfo]

theorem appendInfo_map (r : Registry α) (info : α) (newNode : Addr) :
    (r.map f).appendInfo (f info) newNode =
      (r.appendInfo info newNode).map fun p => (p.1.map f, p.2) := by
  have hcell : Function.update (mapInfo f r.cell) newNode (some ⟨f info, none, none⟩) =
      mapInfo f (Function.update r.cell newNode (some ⟨info, none, none⟩)) :=
    update_mapInfo f r.cell newNode ⟨info, none, none⟩
  unfold appendInfo map
  simp only [hcell, lastNode_mapInfo]
  cases hfirst : r.nodesInfo with
  | none => simp [setPrev_mapInfo]
  | some first =>
      cases hlast : lastNode (Function.update r.cell newNode (some ⟨info, none, none⟩))
          (r.live + 1) first with
      | none => simp [hlast]
      | some last => simp [hlast, setPrev_mapInfo, setNext_mapInfo]

theorem relinkNext_mapInfo (cell : Store Addr α) (n : LinkedListNodeInfo α) :
    relinkNext (mapInfo f cell) ⟨f n.info, n.prev, n.next⟩ =
      (relinkNext cell n).map (mapInfo f) := by
  unfold relinkNext
  cases hn : n.next with
  | none => rfl
  | some next => cases hx : cell next <;> simp [mapInfo, hx, ← setPrev_mapInfo]

theorem removeInfo_map (r : Registry α) (toRemove : Addr) :
    (r.map f).removeInfo toRemove = (r.removeInfo toRemove).map (map f) := by
  unfold removeInfo
  cases hn : r.cell toRemove with
  | none => simp [map, mapInfo, hn]
  | some n =>
      have hnew : (r.map f).cell toRemove = some ⟨f n.info, n.prev, n.next⟩ := by
        simp [map, mapInfo, hn]
      rw [hnew, Option.bind_eq_bind, Option.bind_some,
        show (r.map f).cell = mapInfo f r.cell from rfl, relinkNext_mapInfo]
      cases hcell : relinkNext r.cell n with
      | none => simp [hcell]
      | some cell =>
          simp only [Option.map_some, Option.bind_eq_bind, Option.bind_some, hcell]
          cases hm : cell toRemove with
          | none => simp [mapInfo, hm]
          | some m =>
              have hmap : mapInfo f cell toRemove = some ⟨f m.info, m.prev, m.next⟩ := by
                simp [mapInfo, hm]
              simp only [hmap, Option.bind_some]
              cases hp : m.prev with
              | none => simp [map, erase_mapInfo]
              | some prev =>
                  cases hprev : cell prev with
                  | none => simp [mapInfo, hprev]
                  | some p => simp [mapInfo, hprev, map, ← setNext_mapInfo, ← erase_mapInfo]

end Registry

/-! ## Other addresses -/

section

variable (f : IpAddr → IpAddr)

def DicNodeInfo.readdress (i : DicNodeInfo) : DicNodeInfo := { i with address := f i.address }

def Announced.readdress (e : Announced) : Announced := { e with info := e.info.readdress f }

def Segment.readdress : Segment → Segment
  | .infoBody nodes => .infoBody (nodes.map (DicNodeInfo.readdress f))
  | segment => segment

def Pc.readdress : Pc → Pc
  | .sendAckHead e => .sendAckHead (e.readdress f)
  | .sendAckBody e => .sendAckBody (e.readdress f)
  | .append e => .append (e.readdress f)
  | .sendInfoHead es => .sendInfoHead (es.map (Announced.readdress f))
  | .sendInfoBody es => .sendInfoBody (es.map (Announced.readdress f))
  | pc => pc

def Event.readdress : Event → Event
  | .announced e => .announced (e.readdress f)
  | .replied c es => .replied c (es.map (Announced.readdress f))
  | ev => ev

def Handler.readdress (h : Handler) : Handler :=
  { h with ip := f h.ip, pc := h.pc.readdress f, output := h.output.map (Segment.readdress f) }

def Shared.readdress (sh : Shared) : Shared :=
  { sh with
    registry := sh.registry.map (Announced.readdress f)
    history := sh.history.map (Event.readdress f) }

def Server.readdress (s : Server) : Server where
  conns c := (s.conns c).map (Handler.readdress f)
  shared := s.shared.readdress f

def Action.readdress : Action → Action
  | .accept ip => .accept (f ip)
  | a => a

/-- A step under other addresses. -/
def relabel (l : ConnId × Action) : ConnId × Action := (l.1, l.2.readdress f)

/-! ## Steps -/

variable (h : Handler) (c : ConnId) (sh : Shared)

/-- What a step of a handler thread leaves, under other addresses. -/
def readdressed (p : Handler × Shared) : Handler × Shared := (p.1.readdress f, p.2.readdress f)

theorem pc_readdress : (h.readdress f).pc = h.pc.readdress f := rfl

@[simp] theorem need_readdress : (h.readdress f).need = h.need := by
  cases hpc : h.pc <;> simp [Handler.need, Handler.readdress, Pc.readdress, hpc]

theorem canRecv_readdress (k : ℕ) : (h.readdress f).CanRecv k ↔ h.CanRecv k := by
  unfold Handler.CanRecv
  rw [need_readdress]
  exact Iff.rfl

theorem recvFails_readdress : (h.readdress f).RecvFails ↔ h.RecvFails := by
  unfold Handler.RecvFails
  rw [need_readdress]
  exact Iff.rfl

theorem recv_readdress (k : ℕ) :
    (h.readdress f).recv (sh.readdress f) k = (h.recv sh k).map (readdressed f) := by
  unfold Handler.recv
  simp only [canRecv_readdress]
  cases hpc : h.pc with
  | recvHead got =>
      by_cases hrecv : h.CanRecv k <;>
        simp [hrecv, hpc, Handler.readdress, Pc.readdress, readdressed]
  | recvBody head got =>
      by_cases hrecv : h.CanRecv k
      · by_cases hroom : got.length + k ≤ reqAnnounceInfoSize <;>
          simp [hrecv, hroom, hpc, Handler.readdress, Pc.readdress, readdressed, Shared.readdress]
      · simp [hrecv, hpc, Handler.readdress, Pc.readdress]
  | _ => simp [hpc, Handler.readdress, Pc.readdress]

theorem recvFail_readdress (junk : UInt32) :
    (h.readdress f).recvFail c (sh.readdress f) junk =
      (h.recvFail c sh junk).map (readdressed f) := by
  unfold Handler.recvFail
  by_cases hfails : h.RecvFails
  · rw [if_pos hfails, if_pos ((recvFails_readdress f h).mpr hfails)]
    cases hpc : h.pc with
    | recvHead got =>
        cases hcn : h.isComputeNode <;>
          simp [hpc, hcn, Handler.readdress, Pc.readdress, readdressed]
    | recvBody head got =>
        simp [hpc, Handler.readdress, Pc.readdress, readdressed, Handler.announcement,
          Announced.readdress, DicNodeInfo.readdress]
    | _ => simp [hpc, Handler.readdress, Pc.readdress]
  · rw [if_neg hfails, if_neg fun hf => hfails ((recvFails_readdress f h).mp hf)]
    rfl

theorem switchOperation_readdress (head : ReqHead) :
    (switchOperation head).readdress f = switchOperation head := by
  rcases switchOperation_cases head with hq | hq | hq <;> rw [hq] <;> rfl

theorem recvDone_readdress (junk : UInt32) :
    (h.readdress f).recvDone c (sh.readdress f) junk =
      (h.recvDone c sh junk).map (readdressed f) := by
  unfold Handler.recvDone
  rw [need_readdress]
  split
  · cases hpc : h.pc with
    | recvHead got =>
        rw [pc_readdress, hpc]
        show some ({ h.readdress f with pc := switchOperation (.ofBytes got) }, sh.readdress f) =
          some ({ h.readdress f with pc := (switchOperation (.ofBytes got)).readdress f },
            sh.readdress f)
        rw [switchOperation_readdress]
    | recvBody head got =>
        simp [hpc, Handler.readdress, Pc.readdress, readdressed, Handler.announcement,
          Announced.readdress, DicNodeInfo.readdress]
    | _ => simp [hpc, Handler.readdress, Pc.readdress]
  · rfl

theorem afterLock_readdress (pc : Pc) :
    (pc.readdress f).afterLock = pc.afterLock.map (Pc.readdress f) := by
  cases pc <;> rfl

theorem afterUnlock_readdress (pc : Pc) :
    (pc.readdress f).afterUnlock = pc.afterUnlock.map (Pc.readdress f) := by
  cases pc <;> rfl

theorem afterSend_readdress (pc : Pc) :
    (pc.readdress f).afterSend =
      pc.afterSend.map fun p => (p.1.map (Segment.readdress f), p.2.readdress f) := by
  cases pc with
  | sendInfoHead es => simp [Pc.readdress, Pc.afterSend, Segment.readdress]
  | sendInfoBody es =>
      simp only [Pc.readdress, Pc.afterSend, List.length_map, Option.map_some]
      split <;> simp [Segment.readdress, Announced.readdress]
  | _ => rfl

theorem lock_readdress :
    (h.readdress f).lock c (sh.readdress f) = (h.lock c sh).map (readdressed f) := by
  unfold Handler.lock
  rw [pc_readdress, afterLock_readdress]
  cases h.pc.afterLock with
  | none => rfl
  | some pc =>
      by_cases hfree : sh.nodesInfoMut = none <;>
        simp [hfree, Shared.readdress, Handler.readdress, readdressed]

theorem unlock_readdress :
    (h.readdress f).unlock (sh.readdress f) = (h.unlock sh).map (readdressed f) := by
  unfold Handler.unlock
  rw [pc_readdress, afterUnlock_readdress]
  cases h.pc.afterUnlock <;> rfl

theorem send_readdress :
    (h.readdress f).send (sh.readdress f) = (h.send sh).map (readdressed f) := by
  unfold Handler.send
  rw [pc_readdress, afterSend_readdress]
  cases h.pc.afterSend with
  | none => rfl
  | some p => cases hopen : h.sockOpen <;> simp [hopen, Handler.readdress, readdressed]

theorem registry_readdress :
    (sh.readdress f).registry = sh.registry.map (Announced.readdress f) := rfl

theorem append_readdress (newNode : Addr) :
    (h.readdress f).append (sh.readdress f) newNode =
      (h.append sh newNode).map (readdressed f) := by
  have hcell : (sh.registry.map (Announced.readdress f)).cell newNode = none ↔
      sh.registry.cell newNode = none := Option.map_eq_none_iff
  unfold Handler.append
  cases hpc : h.pc with
  | append e =>
      simp only [Handler.readdress, Pc.readdress, hpc, hcell, registry_readdress,
        Registry.appendInfo_map]
      split
      · cases sh.registry.appendInfo e newNode with
        | none => simp [readdressed, Handler.readdress, Pc.readdress, Shared.readdress, hpc]
        | some p =>
            simp [readdressed, Handler.readdress, Pc.readdress, Shared.readdress, Event.readdress]
      · rfl
  | _ => simp [Handler.readdress, Pc.readdress, hpc]

theorem collect_readdress :
    (h.readdress f).collect c (sh.readdress f) = (h.collect c sh).map (readdressed f) := by
  unfold Handler.collect
  cases hpc : h.pc with
  | collect =>
      simp only [Handler.readdress, Pc.readdress, hpc, registry_readdress,
        Registry.collectInfo_map]
      cases sh.registry.collectInfo with
      | none => simp [readdressed, Handler.readdress, Pc.readdress, Shared.readdress, hpc]
      | some es =>
          simp [readdressed, Handler.readdress, Pc.readdress, Shared.readdress, Event.readdress]
  | _ => simp [Handler.readdress, Pc.readdress, hpc]

theorem remove_readdress :
    (h.readdress f).remove c (sh.readdress f) = (h.remove c sh).map (readdressed f) := by
  unfold Handler.remove
  cases hpc : h.pc with
  | remove =>
      have hbind : h.connInfo.bind (sh.readdress f).registry.removeInfo =
          (h.connInfo.bind sh.registry.removeInfo).map (Registry.map (Announced.readdress f)) := by
        cases h.connInfo with
        | none => rfl
        | some x => exact Registry.removeInfo_map _ _ _
      simp only [Handler.readdress, Pc.readdress, hpc, hbind]
      cases h.connInfo.bind sh.registry.removeInfo with
      | none => simp [readdressed, Handler.readdress, Pc.readdress, Shared.readdress, hpc]
      | some r =>
          simp [readdressed, Handler.readdress, Pc.readdress, Shared.readdress, Event.readdress]
  | _ => simp [Handler.readdress, Pc.readdress, hpc]

theorem peerRecv_readdress :
    (h.readdress f).peerRecv c (sh.readdress f) = (h.peerRecv c sh).map (readdressed f) := by
  unfold Handler.peerRecv
  cases hout : h.output with
  | nil => simp [Handler.readdress, hout]
  | cons segment rest =>
      cases segment <;>
        simp [Handler.readdress, hout, Segment.readdress, readdressed, Shared.readdress,
          Event.readdress]

theorem destroy_readdress :
    (h.readdress f).destroy c (sh.readdress f) = (h.destroy c sh).map (readdressed f) := by
  unfold Handler.destroy
  cases hpc : h.pc with
  | destroy =>
      simp [Handler.readdress, Pc.readdress, hpc, readdressed, Shared.readdress, Event.readdress]
  | _ => simp [Handler.readdress, Pc.readdress, hpc]

theorem act_readdress (a : Action) :
    (h.readdress f).act c (sh.readdress f) (a.readdress f) =
      (h.act c sh a).map (readdressed f) := by
  cases a with
  | accept ip => rfl
  | peerSend bytes =>
      cases hclosed : h.peerClosed <;>
        simp [Handler.act, Action.readdress, Handler.readdress, hclosed, readdressed,
          Shared.readdress, Event.readdress]
  | peerClose => rfl
  | peerRecv => exact peerRecv_readdress f h c sh
  | recv k => exact recv_readdress f h sh k
  | recvFail junk => exact recvFail_readdress f h c sh junk
  | recvDone junk => exact recvDone_readdress f h c sh junk
  | lock => exact lock_readdress f h c sh
  | send => exact send_readdress f h sh
  | append newNode => exact append_readdress f h sh newNode
  | collect => exact collect_readdress f h c sh
  | remove => exact remove_readdress f h c sh
  | unlock => exact unlock_readdress f h sh
  | destroy => exact destroy_readdress f h c sh

theorem update_readdress (conns : ConnId → Option Handler) :
    (fun d => (Function.update conns c (some h) d).map (Handler.readdress f)) =
      Function.update (fun d => (conns d).map (Handler.readdress f)) c
        (some (h.readdress f)) := by
  funext d
  by_cases hdc : d = c
  · subst hdc
    simp
  · simp [Function.update_of_ne hdc]

end

/-- A step of a connection that is there. -/
theorem step_conn {s : Server} {c : ConnId} {h : Handler} (hdef : s.shared.undefined = false)
    (hc : s.conns c = some h) (a : Action) :
    s.step? (c, a) = (h.act c s.shared a).map fun p =>
      ⟨Function.update s.conns c (some p.1), p.2⟩ := by
  unfold Server.step?
  simp only [hdef, hc, Bool.false_eq_true, if_false]
  cases h.act c s.shared a <;> rfl

theorem step_accept {s : Server} {c : ConnId} (hdef : s.shared.undefined = false)
    (hc : s.conns c = none) (ip : IpAddr) :
    s.step? (c, .accept ip) =
      some { s with conns := Function.update s.conns c (some (.new ip)) } := by
  simp [Server.step?, hdef, hc]

/-- A step under other addresses is the step of the server under them. -/
theorem step_readdress (f : IpAddr → IpAddr) (s : Server) (l : ConnId × Action) :
    (s.readdress f).step? (relabel f l) = (s.step? l).map (Server.readdress f) := by
  obtain ⟨c, a⟩ := l
  cases hdef : s.shared.undefined with
  | true => simp [Server.step?, Server.readdress, Shared.readdress, hdef]
  | false =>
      have hdef' : (s.readdress f).shared.undefined = false := hdef
      cases hc : s.conns c with
      | none =>
          have hc' : (s.readdress f).conns c = none := by simp [Server.readdress, hc]
          cases a with
          | accept ip =>
              rw [relabel, Action.readdress, step_accept hdef hc, step_accept hdef' hc']
              simp only [Option.map_some, Server.readdress, update_readdress]
              rfl
          | _ => simp [Server.step?, relabel, Action.readdress, hc, hc', hdef, hdef']
      | some h =>
          have hc' : (s.readdress f).conns c = some (h.readdress f) := by
            simp [Server.readdress, hc]
          rw [relabel, step_conn hdef hc, step_conn hdef' hc',
            show (s.readdress f).shared = s.shared.readdress f from rfl, act_readdress]
          cases h.act c s.shared a with
          | none => rfl
          | some p =>
              simp only [Option.map_some, Server.readdress, update_readdress]
              rfl

/-- A run under other addresses is the run of the server under them. -/
theorem exec_readdress (f : IpAddr → IpAddr) (s : Server) (ls : List (ConnId × Action)) :
    (s.readdress f).exec anyStep (ls.map (relabel f)) =
      (s.exec anyStep ls).map (Server.readdress f) := by
  induction ls generalizing s with
  | nil => rfl
  | cons l ls ih =>
      show ((s.readdress f).step? (relabel f l)).bind _ = ((s.step? l).bind _).map _
      rw [step_readdress]
      cases s.step? l with
      | none => rfl
      | some t => exact ih t

end Dicon.MainServer
