import Dicon.MainServer.Steps

/-!
# The base invariant of the main server

What every reachable state satisfies, whatever the peers send: the mutex belongs
to the thread inside its critical section, the heap has a shape, and a
connection that announced something still owns the node it will remove. Nothing
undefined happens in the list operations (`Inv.undefined_step`).
-/

namespace Dicon.MainServer

open Dicon.Framework Registry

/-! ## Control flow -/

/-- The announcement that a critical section is about to append. -/
def Pc.pending : Pc → Option Announced
  | .sendAckHead e | .sendAckBody e | .append e => some e
  | _ => none

/-- The thread is past `remove_info`. -/
def Pc.closing : Pc → Bool
  | .unlockRemove | .destroy | .finished => true
  | _ => false

/-- The thread will run `remove_info`. -/
def Pc.removing : Pc → Bool
  | .lockRemove | .remove => true
  | _ => false

theorem afterLock_cases {p q : Pc} (h : p.afterLock = some q) :
    (∃ head, p = .lockAnnounce head ∧ q = .recvBody head []) ∨
    (p = .lockGetInfo ∧ q = .collect) ∨ (p = .lockRemove ∧ q = .remove) := by
  unfold Pc.afterLock at h
  split at h <;> cases h
  · exact Or.inl ⟨_, rfl, rfl⟩
  · exact Or.inr (Or.inl ⟨rfl, rfl⟩)
  · exact Or.inr (Or.inr ⟨rfl, rfl⟩)

theorem afterUnlock_cases {p q : Pc} (h : p.afterUnlock = some q) :
    (p = .unlock ∧ q = .recvHead []) ∨ (p = .unlockRemove ∧ q = .destroy) := by
  unfold Pc.afterUnlock at h
  split at h <;> cases h
  · exact Or.inl ⟨rfl, rfl⟩
  · exact Or.inr ⟨rfl, rfl⟩

theorem afterSend_cases {p q : Pc} {segments : List Segment}
    (h : p.afterSend = some (segments, q)) :
    (∃ e, p = .sendAckHead e ∧ q = .sendAckBody e ∧ segments = [.ackHead]) ∨
    (∃ e, p = .sendAckBody e ∧ q = .append e ∧ segments = [.ackBody]) ∨
    (∃ es, p = .sendInfoHead es ∧ q = .sendInfoBody es ∧
      segments = [.infoHead (toU32 (respGetInfoSize es.length))]) ∨
    (∃ es, p = .sendInfoBody es ∧ q = .unlock ∧ Segment.ackBody ∉ segments) := by
  unfold Pc.afterSend at h
  split at h <;> cases h
  · exact Or.inl ⟨_, rfl, rfl, rfl⟩
  · exact Or.inr (Or.inl ⟨_, rfl, rfl, rfl⟩)
  · exact Or.inr (Or.inr (Or.inl ⟨_, rfl, rfl, rfl⟩))
  · refine Or.inr (Or.inr (Or.inr ⟨_, rfl, rfl, ?_⟩))
    split <;> simp

theorem switchOperation_cases (head : ReqHead) :
    switchOperation head = .lockAnnounce head ∨ switchOperation head = .lockGetInfo ∨
      switchOperation head = .recvHead [] := by
  unfold switchOperation
  split
  · exact Or.inl rfl
  · split
    · exact Or.inr (Or.inl rfl)
    · exact Or.inr (Or.inr rfl)

section Effects

variable {c : ConnId} {h h' : Handler} {sh sh' : Shared} {a : Action}

/-- The mutex changes hands only at `lock` and `unlock`. -/
theorem effect_mutex (he : Effect c h sh a h' sh')
    (hm : h.pc.holds = true ↔ sh.nodesInfoMut = some c) :
    (h'.pc.holds = true ↔ sh'.nodesInfoMut = some c) ∧
      ∀ d, d ≠ c → (sh'.nodesInfoMut = some d ↔ sh.nodesInfoMut = some d) := by
  cases he with
  | peerSend | peerClose | peerAck | peerOther => exact ⟨hm, fun _ _ => Iff.rfl⟩
  | overrun | appendFault | collectFault | removeFault => exact ⟨hm, fun _ _ => Iff.rfl⟩
  | recvHead hpc | recvBody hpc | bodyFail hpc | bodyDone hpc | append hpc | collect hpc
  | remove hpc | destroy hpc =>
      refine ⟨?_, fun _ _ => Iff.rfl⟩
      rw [hpc] at hm
      exact hm
  | headFail hpc =>
      refine ⟨?_, fun _ _ => Iff.rfl⟩
      rw [hpc] at hm
      cases h.isComputeNode <;> exact hm
  | @headDone _ got hpc =>
      refine ⟨?_, fun _ _ => Iff.rfl⟩
      rw [hpc] at hm
      rcases switchOperation_cases (.ofBytes got) with hq | hq | hq <;> (rw [hq]; exact hm)
  | lock hpc hfree =>
      refine ⟨?_, fun d hd => by simp [hfree, Ne.symm hd]⟩
      rcases afterLock_cases hpc with ⟨_, _, rfl⟩ | ⟨_, rfl⟩ | ⟨_, rfl⟩ <;> simp [Pc.holds]
  | send hpc =>
      refine ⟨?_, fun _ _ => Iff.rfl⟩
      rcases afterSend_cases hpc with
        ⟨_, hp, rfl, _⟩ | ⟨_, hp, rfl, _⟩ | ⟨_, hp, rfl, _⟩ | ⟨_, hp, rfl, _⟩ <;>
        (rw [hp] at hm; exact hm)
  -- only the owner gets to an unlock, so nobody else loses the mutex
  | unlock hpc =>
      have howner : sh.nodesInfoMut = some c := by
        apply hm.mp
        rcases afterUnlock_cases hpc with ⟨hp, _⟩ | ⟨hp, _⟩ <;> (rw [hp]; rfl)
      refine ⟨?_, fun d hd => by simp [howner, Ne.symm hd]⟩
      rcases afterUnlock_cases hpc with ⟨_, rfl⟩ | ⟨_, rfl⟩ <;> simp [Pc.holds]

/-- A thread goes to `remove_info` only for a compute node. -/
theorem effect_removing (he : Effect c h sh a h' sh')
    (hi : h.pc.removing = true → h.isComputeNode = true) :
    h'.pc.removing = true → h'.isComputeNode = true := by
  cases he with
  | peerSend | peerClose | peerAck | peerOther => exact hi
  | overrun | appendFault | collectFault | removeFault => exact hi
  | recvHead | recvBody | bodyFail | bodyDone | append | collect | remove | destroy =>
      intro hr
      cases hr
  -- the one way to `lockRemove`, and it asks for `is_compute_node`
  | headFail =>
      intro hr
      cases hcn : h.isComputeNode with
      | true => rfl
      | false => simp [hcn, Pc.removing] at hr
  | @headDone _ got hpc =>
      intro hr
      rcases switchOperation_cases (.ofBytes got) with hq | hq | hq <;>
        (rw [hq] at hr; cases hr)
  | lock hpc =>
      rcases afterLock_cases hpc with ⟨_, _, rfl⟩ | ⟨_, rfl⟩ | ⟨hp, rfl⟩
      · intro hr
        cases hr
      · intro hr
        cases hr
      · intro _
        exact hi (by rw [hp]; rfl)
  | send hpc =>
      intro hr
      rcases afterSend_cases hpc with
        ⟨_, _, rfl, _⟩ | ⟨_, _, rfl, _⟩ | ⟨_, _, rfl, _⟩ | ⟨_, _, rfl, _⟩ <;> cases hr
  | unlock hpc =>
      intro hr
      rcases afterUnlock_cases hpc with ⟨_, rfl⟩ | ⟨_, rfl⟩ <;> cases hr

/-- What is about to be appended is the next announcement of its connection. -/
theorem effect_pending (he : Effect c h sh a h' sh')
    (hi : ∀ e, h.pc.pending = some e → e.conn = c ∧ e.nth = h.announces) :
    ∀ e, h'.pc.pending = some e → e.conn = c ∧ e.nth = h'.announces := by
  intro e hp
  cases he with
  | peerSend | peerClose | peerAck | peerOther => exact hi e hp
  | overrun | appendFault | collectFault | removeFault => exact hi e hp
  | recvHead | recvBody | append | collect | remove | destroy => cases hp
  | bodyFail | bodyDone =>
      cases hp
      exact ⟨rfl, rfl⟩
  | headFail => cases hcn : h.isComputeNode <;> simp [hcn, Pc.pending] at hp
  | @headDone _ got =>
      rcases switchOperation_cases (.ofBytes got) with hq | hq | hq <;>
        (rw [hq] at hp; cases hp)
  | lock hpc =>
      rcases afterLock_cases hpc with ⟨_, _, rfl⟩ | ⟨_, rfl⟩ | ⟨_, rfl⟩ <;> cases hp
  | send hpc =>
      rcases afterSend_cases hpc with
        ⟨e', hq, rfl, _⟩ | ⟨e', hq, rfl, _⟩ | ⟨_, _, rfl, _⟩ | ⟨_, _, rfl, _⟩
      · cases hp
        exact hi e (by rw [hq]; rfl)
      · cases hp
        exact hi e (by rw [hq]; rfl)
      · cases hp
      · cases hp
  | unlock hpc =>
      rcases afterUnlock_cases hpc with ⟨_, rfl⟩ | ⟨_, rfl⟩ <;> cases hp

/-- The event records a change of the list. -/
def Event.edits : Event → Bool
  | .announced _ | .removed _ => true
  | _ => false

/-- The list changes only in `append_info` and `remove_info`; every other step
also leaves the handler's `conn_info` alone and logs no change. -/
theorem effect_registry (he : Effect c h sh a h' sh') :
    (sh'.registry = sh.registry ∧ h'.connInfo = h.connInfo ∧
      h'.isComputeNode = h.isComputeNode ∧ h'.announces = h.announces ∧
      (h.isComputeNode = true → h'.pc.closing = h.pc.closing) ∧
      ∃ evs, sh'.history = sh.history ++ evs ∧ ∀ ev ∈ evs, ev.edits = false) ∨
    (∃ newNode e registry connInfo, h.pc = .append e ∧ a = .append newNode ∧
      sh.registry.cell newNode = none ∧
      sh.registry.appendInfo e newNode = some (registry, connInfo) ∧
      h'.connInfo = some connInfo ∧ h'.isComputeNode = true ∧ h'.announces = h.announces + 1 ∧
      h'.pc = .unlock ∧
      sh' = { sh with registry := registry, history := sh.history ++ [.announced e] }) ∨
    (∃ registry, h.pc = .remove ∧ a = .remove ∧
      h.connInfo.bind sh.registry.removeInfo = some registry ∧
      h' = { h with pc := .unlockRemove } ∧
      sh' = { sh with registry := registry, history := sh.history ++ [.removed c] }) := by
  cases he with
  | peerSend | peerAck =>
      exact Or.inl ⟨rfl, rfl, rfl, rfl, fun _ => rfl, _, rfl, by simp [Event.edits]⟩
  | peerClose | peerOther | overrun | appendFault | collectFault | removeFault =>
      exact Or.inl ⟨rfl, rfl, rfl, rfl, fun _ => rfl, [], by simp, by simp⟩
  | collect hpc | destroy hpc =>
      refine Or.inl ⟨rfl, rfl, rfl, rfl, fun _ => ?_, _, rfl, by simp [Event.edits]⟩
      rw [hpc]
      rfl
  | recvHead hpc | recvBody hpc | bodyFail hpc | bodyDone hpc =>
      refine Or.inl ⟨rfl, rfl, rfl, rfl, fun _ => ?_, [], by simp, by simp⟩
      rw [hpc]
      rfl
  -- a compute node goes to its clean-up and not past it
  | headFail hpc =>
      refine Or.inl ⟨rfl, rfl, rfl, rfl, fun hcn => ?_, [], by simp, by simp⟩
      rw [hpc, hcn]
      rfl
  | @headDone _ got hpc =>
      refine Or.inl ⟨rfl, rfl, rfl, rfl, fun _ => ?_, [], by simp, by simp⟩
      rw [hpc]
      rcases switchOperation_cases (.ofBytes got) with hq | hq | hq <;> rw [hq] <;> rfl
  | lock hpc =>
      refine Or.inl ⟨rfl, rfl, rfl, rfl, fun _ => ?_, [], by simp, by simp⟩
      rcases afterLock_cases hpc with ⟨_, hp, rfl⟩ | ⟨hp, rfl⟩ | ⟨hp, rfl⟩ <;> rw [hp] <;> rfl
  | send hpc =>
      refine Or.inl ⟨rfl, rfl, rfl, rfl, fun _ => ?_, [], by simp, by simp⟩
      rcases afterSend_cases hpc with
        ⟨_, hp, rfl, _⟩ | ⟨_, hp, rfl, _⟩ | ⟨_, hp, rfl, _⟩ | ⟨_, hp, rfl, _⟩ <;> rw [hp] <;> rfl
  | unlock hpc =>
      refine Or.inl ⟨rfl, rfl, rfl, rfl, fun _ => ?_, [], by simp, by simp⟩
      rcases afterUnlock_cases hpc with ⟨hp, rfl⟩ | ⟨hp, rfl⟩ <;> rw [hp] <;> rfl
  | append hpc hfree happ =>
      exact Or.inr (Or.inl ⟨_, _, _, _, hpc, rfl, hfree, happ, rfl, rfl, rfl, rfl, rfl⟩)
  | remove hpc hrem => exact Or.inr (Or.inr ⟨_, hpc, rfl, hrem, rfl, rfl⟩)

end Effects

/-! ## The invariant -/

structure Inv (s : Server) : Prop where
  mutex : ∀ c h, s.conns c = some h →
    (h.pc.holds = true ↔ s.shared.nodesInfoMut = some c)
  owner : ∀ c, s.shared.nodesInfoMut = some c → s.conns c ≠ none
  removing : ∀ c h, s.conns c = some h → h.pc.removing = true → h.isComputeNode = true
  pending : ∀ c h, s.conns c = some h →
    ∀ e, h.pc.pending = some e → e.conn = c ∧ e.nth = h.announces
  shape : ∃ vis orph, s.shared.registry.Shape vis orph
  owned : ∀ c h, s.conns c = some h → h.isComputeNode = true → h.pc.closing = false →
    ∃ a n, h.connInfo = some a ∧ s.shared.registry.cell a = some n ∧ n.info.conn = c

theorem inv_start : Inv .start where
  mutex := by simp [Server.start]
  owner := by simp [Server.start]
  removing := by simp [Server.start]
  pending := by simp [Server.start]
  shape := ⟨[], [], Registry.shape_empty⟩
  owned := by simp [Server.start]

theorem update_eq_some {f : ConnId → Option Handler} {c d : ConnId} {x y : Handler}
    (h : Function.update f c (some x) d = some y) :
    (d = c ∧ y = x) ∨ (d ≠ c ∧ f d = some y) := by
  by_cases hd : d = c
  · subst hd
    rw [Function.update_self] at h
    exact Or.inl ⟨rfl, (Option.some.inj h).symm⟩
  · rw [Function.update_of_ne hd] at h
    exact Or.inr ⟨hd, h⟩

/-- What holds of every handler still does when one connection gets a handler of
which it holds. -/
theorem forall_update {P : ConnId → Handler → Prop} {f : ConnId → Option Handler} {c : ConnId}
    {x : Handler} (hold : ∀ d h, f d = some h → P d h) (hnew : P c x) :
    ∀ d h, Function.update f c (some x) d = some h → P d h := by
  intro d h hd
  rcases update_eq_some hd with ⟨rfl, rfl⟩ | ⟨_, hd⟩
  · exact hnew
  · exact hold d h hd

theorem Inv.accept {s : Server} (hi : Inv s) {c : ConnId} {ip : IpAddr}
    (hc : s.conns c = none) :
    Inv { s with conns := Function.update s.conns c (some (.new ip)) } := by
  refine ⟨forall_update hi.mutex ?_, ?_, forall_update hi.removing ?_,
    forall_update hi.pending ?_, hi.shape, forall_update hi.owned ?_⟩
  · constructor
    · intro hh
      cases hh
    · intro hm
      exact absurd hc (hi.owner c hm)
  · intro d hm
    by_cases hdc : d = c
    · subst hdc
      simp
    · show Function.update s.conns c (some (.new ip)) d ≠ none
      rw [Function.update_of_ne hdc]
      exact hi.owner d hm
  · intro hr
    cases hr
  · intro e he
    cases he
  · intro hcn
    cases hcn

/-- A node that a step leaves allocated keeps what it carries. -/
theorem cell_of_info {r r' : Registry Announced} {a : Addr} {n : Link Addr Announced}
    (h : r.cell a = some n) (heq : (r'.cell a).map Link.info = (r.cell a).map Link.info) :
    ∃ n', r'.cell a = some n' ∧ n'.info = n.info := by
  rw [h, Option.map_some, Option.map_eq_some_iff] at heq
  exact heq

/-- `append_info` on a shaped heap. -/
theorem appendInfo_shape {r r' : Registry Announced} {vis : List Addr} {orph : List (List Addr)}
    {e : Announced} {a x : Addr} (hs : r.Shape vis orph) (ha : r.cell a = none)
    (happ : r.appendInfo e a = some (r', x)) :
    x = a ∧ r'.Shape (vis ++ [a]) orph ∧
      (∃ n, r'.cell a = some n ∧ n.info = e) ∧
      ∀ y, y ≠ a → (r'.cell y).map Link.info = (r.cell y).map Link.info := by
  rw [hs.appendInfo_eq ha] at happ
  cases happ
  have hvis : a ∉ vis := fun hm => hs.not_mem_of_none ha (List.mem_append_left _ hm)
  exact ⟨rfl, hs.append ha, ⟨_, Shape.appended_self hvis, rfl⟩,
    fun y hy => Shape.appended_info hy⟩

/-- `append_info` puts the new entry at the end of the list. -/
theorem appendInfo_infos {r r' : Registry Announced} {vis : List Addr} {orph : List (List Addr)}
    {e : Announced} {a x : Addr} (hs : r.Shape vis orph) (ha : r.cell a = none)
    (happ : r.appendInfo e a = some (r', x)) :
    infos r'.cell (vis ++ [x]) = infos r.cell vis ++ [e] := by
  obtain ⟨rfl, _, ⟨n, hn, hne⟩, hold⟩ := appendInfo_shape hs ha happ
  have hnot : x ∉ vis := fun hm => hs.not_mem_of_none ha (List.mem_append_left _ hm)
  rw [infos_append, infos_singleton hn, hne]
  congr 1
  apply infos_congr
  intro y hy
  apply hold
  rintro rfl
  exact hnot hy

/-- `remove_info` of a node that it finds allocated. -/
theorem removeInfo_shape {r r' : Registry Announced} {vis : List Addr} {orph : List (List Addr)}
    {x : Addr} (hs : r.Shape vis orph) (hrem : r.removeInfo x = some r') :
    (∃ vis' orph', r'.Shape vis' orph') ∧ r'.cell x = none ∧
      ∀ y, y ≠ x → (r'.cell y).map Link.info = (r.cell y).map Link.info := by
  have hx : (r.cell x).isSome := by
    unfold removeInfo at hrem
    rw [Option.bind_eq_bind, Option.bind_eq_some_iff] at hrem
    obtain ⟨n, hn, _⟩ := hrem
    simp [hn]
  obtain ⟨r'', vis', orph', hr, hshape, hgone, hold⟩ := hs.remove hx
  rw [hrem] at hr
  cases hr
  exact ⟨⟨vis', orph', hshape⟩, hgone, hold⟩

section Step

variable {s : Server} {c : ConnId} {hd hd' : Handler} {sh' : Shared} {a : Action}

/-- The node that a clean-up is about to remove is the one of its connection, and
allocated. -/
theorem Inv.own_node (hi : Inv s) (hc : s.conns c = some hd) (hpc : hd.pc = .remove) :
    ∃ x n, hd.connInfo = some x ∧ s.shared.registry.cell x = some n ∧ n.info.conn = c := by
  have hcn : hd.isComputeNode = true := hi.removing c hd hc (by rw [hpc]; rfl)
  exact hi.owned c hd hc hcn (by rw [hpc]; rfl)

/-- `remove_info` is defined where a thread calls it. -/
theorem Inv.removes (hi : Inv s) (hc : s.conns c = some hd) (hpc : hd.pc = .remove) :
    ∃ r, hd.connInfo.bind s.shared.registry.removeInfo = some r := by
  obtain ⟨vis, orph, hshape⟩ := hi.shape
  obtain ⟨x, n, hx, hn, _⟩ := hi.own_node hc hpc
  obtain ⟨r, _, _, hr, _⟩ := hshape.remove (x := x) (by rw [hn]; rfl)
  exact ⟨r, by rw [hx, Option.bind_some, hr]⟩

/-- Every step leaves a registry of linked lists. -/
theorem Inv.shape_step (hi : Inv s) (he : Effect c hd s.shared a hd' sh') :
    ∃ vis orph, sh'.registry.Shape vis orph := by
  obtain ⟨vis, orph, hshape⟩ := hi.shape
  rcases effect_registry he with ⟨hsame, _⟩ | ⟨_, _, _, _, _, _, hfree, happ, _, _, _, _, rfl⟩ |
    ⟨r, _, _, hrem, _, rfl⟩
  · exact ⟨vis, orph, by rw [hsame]; exact hshape⟩
  · exact ⟨_, _, (appendInfo_shape hshape hfree happ).2.1⟩
  · obtain ⟨x, _, hrem⟩ := Option.bind_eq_some_iff.mp hrem
    exact (removeInfo_shape hshape hrem).1

/-- An edit at a node of somebody else leaves a connection its own node. -/
theorem Inv.owned_kept (hi : Inv s) {r' : Registry Announced} {y : Addr} {d : ConnId} {x : Handler}
    (hx : s.conns d = some x) (hcn : x.isComputeNode = true) (hcl : x.pc.closing = false)
    (hy : ∀ n, s.shared.registry.cell y = some n → n.info.conn ≠ d)
    (hold : ∀ b, b ≠ y →
      (r'.cell b).map Link.info = (s.shared.registry.cell b).map Link.info) :
    ∃ b n, x.connInfo = some b ∧ r'.cell b = some n ∧ n.info.conn = d := by
  obtain ⟨b, n, hb, hn, hnc⟩ := hi.owned d x hx hcn hcl
  have hby : b ≠ y := by
    rintro rfl
    exact hy n hn hnc
  obtain ⟨n', hn', hni⟩ := cell_of_info hn (hold b hby)
  exact ⟨b, n', hb, hn', by rw [hni]; exact hnc⟩

/-- Only `append_info` gives a connection a node, and only `remove_info` takes
one, from the connection that runs it. -/
theorem Inv.owned_step (hi : Inv s) (hc : s.conns c = some hd)
    (he : Effect c hd s.shared a hd' sh') {d : ConnId} {x : Handler}
    (hx : Function.update s.conns c (some hd') d = some x) (hcn : x.isComputeNode = true)
    (hcl : x.pc.closing = false) :
    ∃ b n, x.connInfo = some b ∧ sh'.registry.cell b = some n ∧ n.info.conn = d := by
  obtain ⟨vis, orph, hshape⟩ := hi.shape
  rcases effect_registry he with ⟨hsame, hinfo, hcomp, _, hclose, _⟩ |
    ⟨_, e, _, y, hpc, _, hfree, happ, hinfo, _, _, _, rfl⟩ | ⟨r, hpc, _, hrem, rfl, rfl⟩
  · rw [hsame]
    rcases update_eq_some hx with ⟨rfl, rfl⟩ | ⟨_, hx⟩
    · rw [hcomp] at hcn
      rw [hinfo]
      exact hi.owned d hd hc hcn ((hclose hcn).symm.trans hcl)
    · exact hi.owned d x hx hcn hcl
  · -- an append: the new node is the one of `c`, and nobody else had its address
    obtain ⟨rfl, _, ⟨n, hn, hne⟩, hold⟩ := appendInfo_shape hshape hfree happ
    rcases update_eq_some hx with ⟨rfl, rfl⟩ | ⟨_, hx⟩
    · refine ⟨y, n, hinfo, hn, ?_⟩
      rw [hne]
      exact (hi.pending d hd hc e (by rw [hpc]; rfl)).1
    · refine hi.owned_kept hx hcn hcl ?_ hold
      intro n hn
      rw [hfree] at hn
      cases hn
  · obtain ⟨y, hy, hrem⟩ := Option.bind_eq_some_iff.mp hrem
    rcases update_eq_some hx with ⟨rfl, rfl⟩ | ⟨hne, hx⟩
    · cases hcl
    · -- the removed node belongs to `c`, the one `d` owns does not
      obtain ⟨y', ny, hy', hny, hyc⟩ := hi.own_node hc hpc
      rw [hy] at hy'
      cases hy'
      refine hi.owned_kept hx hcn hcl ?_ (removeInfo_shape hshape hrem).2.2
      intro n hn hnd
      rw [hny] at hn
      cases hn
      exact hne (hnd.symm.trans hyc)

/-- The list operations are defined; only a body that does not fit the variable
it is received into is not. -/
theorem Inv.undefined_step (hi : Inv s) (hc : s.conns c = some hd)
    (he : Effect c hd s.shared a hd' sh') :
    sh'.undefined = s.shared.undefined ∨
      ∃ k head got, a = .recv k ∧ hd.pc = .recvBody head got ∧ hd.CanRecv k ∧
        reqAnnounceInfoSize < got.length + k := by
  obtain ⟨vis, orph, hshape⟩ := hi.shape
  cases he with
  | overrun hpc hrecv hlt => exact Or.inr ⟨_, _, _, rfl, hpc, hrecv, hlt⟩
  | appendFault _ hfree happ =>
      rw [hshape.appendInfo_eq hfree] at happ
      cases happ
  | collectFault _ hes =>
      rw [hshape.collectInfo_eq] at hes
      cases hes
  | removeFault hpc hrem =>
      obtain ⟨r, hr⟩ := hi.removes hc hpc
      rw [hr] at hrem
      cases hrem
  | _ => exact Or.inl rfl

end Step

theorem Inv.step {s t : Server} {l : ConnId × Action} (hi : Inv s)
    (h : mainServer.step s l t) : Inv t := by
  obtain ⟨c, a⟩ := l
  rcases step_cases h with ⟨ip, hc, rfl⟩ | ⟨hd, hd', sh', hc, he, rfl⟩
  · exact hi.accept hc
  have hmut := effect_mutex he (hi.mutex c hd hc)
  refine ⟨?_, ?_, forall_update hi.removing (effect_removing he (hi.removing c hd hc)),
    forall_update hi.pending (effect_pending he (hi.pending c hd hc)), hi.shape_step he,
    fun _ _ hx hcn hcl => hi.owned_step hc he hx hcn hcl⟩
  · intro d x hx
    rcases update_eq_some hx with ⟨rfl, rfl⟩ | ⟨hne, hx⟩
    · exact hmut.1
    · exact (hi.mutex d x hx).trans (hmut.2 d hne).symm
  · intro d hm
    by_cases hdc : d = c
    · subst hdc
      simp
    · show Function.update s.conns c (some hd') d ≠ none
      rw [Function.update_of_ne hdc]
      exact hi.owner d ((hmut.2 d hdc).mp hm)

theorem inv_of_reachable {s : Server} (h : mainServer.Reachable s) : Inv s :=
  h.invariant (fun _ h0 => h0 ▸ inv_start) fun _ _ _ hi hs => hi.step hs

end Dicon.MainServer
