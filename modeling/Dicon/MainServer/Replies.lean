import Dicon.MainServer.Readdress
import Dicon.MainServer.History

/-!
# What replies reveal

The bytes of the GET_INFO replies should depend on what was accepted and announced,
and not on what the heap held before. `dic_conn_accept` assigns the family and the
IPv4 address of the `ip_addr_t` in the block that it gets from `malloc`, and leaves
twelve bytes of the union as they were. They are copied into the entries of the
connection and from there into every reply that lists one, so the replies are
determined exactly in the runs in which no query finds an entry.
-/

namespace Dicon.MainServer

open Dicon.Framework Registry

/-! ## Replies as bytes -/

/-- An `ip_addr_t` in memory. -/
def IpAddr.bytes (ip : IpAddr) : List UInt8 :=
  le32 ip.family ++ le32 ip.ipv4 ++ ip.rest.toList

def DicNodeInfo.bytes (i : DicNodeInfo) : List UInt8 := i.address.bytes ++ le32 i.coreCount

/-- The `resp_head` and the `res_body` of `handle_get_info`. -/
def getInfoReply (es : List Announced) : List UInt8 :=
  le32 (toU32 (respGetInfoSize es.length)) ++
    (le32 (toU32 es.length) ++ es.flatMap fun e => e.info.bytes)

/-- The queries of a history, with the entries that were found. -/
def queried (hist : List Event) : List (ConnId × List Announced) :=
  hist.filterMap fun
    | .replied c es => some (c, es)
    | _ => none

/-- The GET_INFO replies of a history, byte for byte. -/
def replies (hist : List Event) : List (ConnId × List UInt8) :=
  (queried hist).map fun p => (p.1, getInfoReply p.2)

/-! ## Two runs -/

/-- The same step, up to what the heap block of an accepted connection held. -/
inductive SameStep : ConnId × Action → ConnId × Action → Prop
  | accept {c family ipv4 rest rest'} :
      SameStep (c, .accept ⟨family, ipv4, rest⟩) (c, .accept ⟨family, ipv4, rest'⟩)
  | same {l} : SameStep l l

def SameButHeap : List (ConnId × Action) → List (ConnId × Action) → Prop :=
  List.Forall₂ SameStep

/-- `handle_get_info` only runs while `NODES_INFO` is `NULL`. -/
def QueriesFindNothing : Server → List (ConnId × Action) → Prop
  | _, [] => True
  | s, l :: ls => (l.2 = .collect → s.shared.registry.nodesInfo = none) ∧
      ∀ t ∈ s.step? l, QueriesFindNothing t ls

instance decidableQueriesFindNothing :
    (s : Server) → (ls : List (ConnId × Action)) → Decidable (QueriesFindNothing s ls)
  | _, [] => isTrue trivial
  | _, _ :: ls =>
      have : DecidablePred fun t => QueriesFindNothing t ls :=
        fun t => decidableQueriesFindNothing t ls
      inferInstanceAs (Decidable (_ ∧ _))

/-- The block of an accepted connection held `rest` where nothing is assigned. -/
def IpAddr.withRest (rest : Vector UInt8 12) (ip : IpAddr) : IpAddr := { ip with rest := rest }

theorem sameStep_relabel (rest : Vector UInt8 12) (l : ConnId × Action) :
    SameStep l (relabel (IpAddr.withRest rest) l) := by
  obtain ⟨c, a⟩ := l
  cases a with
  | accept ip => exact .accept
  | _ => exact .same

theorem sameButHeap_relabel (rest : Vector UInt8 12) (ls : List (ConnId × Action)) :
    SameButHeap ls (ls.map (relabel (IpAddr.withRest rest))) := by
  induction ls with
  | nil => exact .nil
  | cons l ls ih => exact .cons (sameStep_relabel rest l) ih

theorem SameButHeap.relabel_eq {ls ls' : List (ConnId × Action)} (h : SameButHeap ls ls')
    (rest : Vector UInt8 12) :
    ls'.map (relabel (IpAddr.withRest rest)) = ls.map (relabel (IpAddr.withRest rest)) := by
  induction h with
  | nil => rfl
  | cons hstep _ ih =>
      rw [List.map_cons, List.map_cons, ih]
      cases hstep with
      | accept => rfl
      | same => rfl

/-! ## Queries along a run -/

theorem queried_append (hist hist' : List Event) :
    queried (hist ++ hist') = queried hist ++ queried hist' :=
  List.filterMap_append

theorem collectInfo_none {α : Type} {r : Registry α} (h : r.nodesInfo = none) :
    r.collectInfo = some [] := by
  simp [collectInfo, h, copyNodes]

/-- A query that finds a first node finds an entry. -/
theorem collectInfo_ne_nil {r : Registry Announced} {vis : List Addr} {orph : List (List Addr)}
    {es : List Announced} (hs : r.Shape vis orph) (hfirst : r.nodesInfo ≠ none)
    (hes : r.collectInfo = some es) : es ≠ [] := by
  rw [hs.collectInfo_eq] at hes
  cases hes
  cases vis with
  | nil => exact absurd hs.first hfirst
  | cons x xs =>
      obtain ⟨n, hn⟩ := Option.isSome_iff_exists.mp ((hs.live x).mpr (by simp))
      exact List.ne_nil_of_mem (mem_infos.mpr ⟨x, List.mem_cons_self, n, hn, rfl⟩)

theorem exec_cons {s t : Server} {l : ConnId × Action} {ls : List (ConnId × Action)}
    (h : s.exec anyStep (l :: ls) = some t) :
    ∃ u, mainServer.step s l u ∧ u.exec anyStep ls = some t :=
  Option.bind_eq_some_iff.mp h

/-- What one step adds to the queries. -/
theorem step_queried {s t : Server} {l : ConnId × Action} (hinv : Inv s)
    (h : mainServer.step s l t) :
    (l.2 ≠ .collect ∧ queried t.shared.history = queried s.shared.history) ∨
      (l.2 = .collect ∧ ∃ c es, s.shared.registry.collectInfo = some es ∧
        queried t.shared.history = queried s.shared.history ++ [(c, es)]) := by
  obtain ⟨c, a⟩ := l
  obtain ⟨vis, orph, hshape⟩ := hinv.shape
  rcases step_cases h with ⟨ip, hc, rfl⟩ | ⟨hd, hd', sh', hc, he, rfl⟩
  · refine Or.inl ⟨?_, rfl⟩
    rintro rfl
    simp [mainServer, Server.step?, hc] at h
  · cases he with
    | collect _ hes => exact Or.inr ⟨rfl, c, _, hes, queried_append _ _⟩
    | collectFault _ hes =>
        rw [hshape.collectInfo_eq] at hes
        cases hes
    | peerSend | peerAck | append | remove | destroy =>
        refine Or.inl ⟨?_, ?_⟩
        · intro ha
          cases ha
        · show queried (_ ++ _) = _
          rw [queried_append]
          exact List.append_nil _
    | _ =>
        refine Or.inl ⟨?_, rfl⟩
        intro ha
        cases ha

/-- The queries of a run find nothing, if each finds `NODES_INFO` empty. -/
theorem queried_nil {s t : Server} {ls : List (ConnId × Action)} (hinv : Inv s)
    (hrun : s.exec anyStep ls = some t) (hq : QueriesFindNothing s ls)
    (hs : ∀ p ∈ queried s.shared.history, p.2 = []) :
    ∀ p ∈ queried t.shared.history, p.2 = [] := by
  induction ls generalizing s with
  | nil =>
      cases hrun
      exact hs
  | cons l ls ih =>
      obtain ⟨u, hstep, hrest⟩ := exec_cons hrun
      refine ih (hinv.step hstep) hrest (hq.2 u hstep) ?_
      rcases step_queried hinv hstep with ⟨_, hsame⟩ | ⟨hl, c, es, hes, hnew⟩
      · rw [hsame]
        exact hs
      · rw [collectInfo_none (hq.1 hl)] at hes
        cases hes
        intro p hp
        rw [hnew] at hp
        rcases List.mem_append.mp hp with hp | hp
        · exact hs p hp
        · rw [List.mem_singleton.mp hp]

theorem queried_mono {s t : Server} {ls : List (ConnId × Action)} (hinv : Inv s)
    (hrun : s.exec anyStep ls = some t) {p : ConnId × List Announced}
    (hp : p ∈ queried s.shared.history) : p ∈ queried t.shared.history := by
  induction ls generalizing s with
  | nil =>
      cases hrun
      exact hp
  | cons l ls ih =>
      obtain ⟨u, hstep, hrest⟩ := exec_cons hrun
      refine ih (hinv.step hstep) hrest ?_
      rcases step_queried hinv hstep with ⟨_, hsame⟩ | ⟨_, _, _, _, hnew⟩
      · rw [hsame]
        exact hp
      · rw [hnew]
        exact List.mem_append_left _ hp

/-- A run in which some query finds a node has a reply that lists one. -/
theorem queried_entry {s t : Server} {ls : List (ConnId × Action)} (hinv : Inv s)
    (hrun : s.exec anyStep ls = some t) (hq : ¬ QueriesFindNothing s ls) :
    ∃ p ∈ queried t.shared.history, p.2 ≠ [] := by
  induction ls generalizing s with
  | nil => exact absurd trivial hq
  | cons l ls ih =>
      obtain ⟨u, hstep, hrest⟩ := exec_cons hrun
      have hinv' := hinv.step hstep
      by_cases hnow : l.2 = .collect → s.shared.registry.nodesInfo = none
      · refine ih hinv' hrest fun hnext => hq ⟨hnow, fun v hv => ?_⟩
        have hsame : some u = some v := hstep.symm.trans hv
        cases hsame
        exact hnext
      · obtain ⟨hl, hfirst⟩ := Classical.not_imp.mp hnow
        obtain ⟨vis, orph, hshape⟩ := hinv.shape
        rcases step_queried hinv hstep with ⟨hl', _⟩ | ⟨_, c, es, hes, hnew⟩
        · exact absurd hl hl'
        · refine ⟨(c, es), queried_mono hinv' hrest ?_, collectInfo_ne_nil hshape hfirst hes⟩
          rw [hnew]
          exact List.mem_append_right _ List.mem_cons_self

/-! ## Other contents of the heap -/

theorem queried_readdress (f : IpAddr → IpAddr) (hist : List Event) :
    queried (hist.map (Event.readdress f)) =
      (queried hist).map fun p => (p.1, p.2.map (Announced.readdress f)) := by
  induction hist with
  | nil => rfl
  | cons ev hist ih =>
      cases ev with
      | replied c es => exact congrArg ((c, es.map (Announced.readdress f)) :: ·) ih
      | _ => exact ih

theorem start_readdress (f : IpAddr → IpAddr) : Server.start.readdress f = .start := rfl

/-- A reply that lists an entry shows what the heap held. -/
theorem rest_revealed {rest rest' : Vector UInt8 12} {es : List Announced} (hne : es ≠ [])
    (h : getInfoReply (es.map (Announced.readdress (IpAddr.withRest rest))) =
      getInfoReply (es.map (Announced.readdress (IpAddr.withRest rest')))) :
    rest.toList = rest'.toList := by
  cases es with
  | nil => exact absurd rfl hne
  | cons e es =>
      -- both replies declare the same lengths, so the bytes of their nodes agree
      simp only [getInfoReply, List.length_map, List.append_cancel_left_eq] at h
      simp only [List.map_cons, List.flatMap_cons, Announced.readdress, DicNodeInfo.readdress,
        DicNodeInfo.bytes, IpAddr.bytes, IpAddr.withRest, List.append_assoc,
        List.append_cancel_left_eq] at h
      exact (List.append_inj h (by simp)).1

/-- Where no reply lists an entry, other addresses make no difference. -/
theorem replies_of_nil (f : IpAddr → IpAddr) {hist : List Event}
    (h : ∀ p ∈ queried hist, p.2 = []) :
    replies hist =
      ((queried hist).map fun p => (p.1, p.2.map (Announced.readdress f))).map
        fun p => (p.1, getInfoReply p.2) := by
  rw [replies, List.map_map]
  apply List.map_congr_left
  intro p hp
  simp [h p hp]

/-- The replies of a run are the same for all previous contents of the heap blocks,
if and only if its queries find nothing. -/
theorem replies_determined_iff {ls : List (ConnId × Action)} {s : Server}
    (hrun : Server.start.exec anyStep ls = some s) :
    (∀ ls', SameButHeap ls ls' → ∃ s', Server.start.exec anyStep ls' = some s' ∧
      replies s'.shared.history = replies s.shared.history) ↔
      QueriesFindNothing .start ls := by
  have hunder : ∀ f, Server.start.exec anyStep (ls.map (relabel f)) = some (s.readdress f) := by
    intro f
    have hexec := exec_readdress f .start ls
    rw [start_readdress, hrun] at hexec
    exact hexec
  constructor
  · intro hall
    by_contra hnot
    obtain ⟨⟨c, es⟩, hmem, hne⟩ := queried_entry inv_start hrun hnot
    have hreplies : ∀ rest : Vector UInt8 12,
        replies (s.readdress (IpAddr.withRest rest)).shared.history =
          replies s.shared.history := by
      intro rest
      obtain ⟨s', hs', heq⟩ := hall _ (sameButHeap_relabel rest ls)
      rw [hunder] at hs'
      cases hs'
      exact heq
    -- the same run with zeros and with ones in the blocks
    have hsame := (hreplies (Vector.replicate 12 0)).trans (hreplies (Vector.replicate 12 1)).symm
    simp only [replies, Server.readdress, Shared.readdress, queried_readdress, List.map_map,
      List.map_inj_left, Function.comp_apply, Prod.mk.injEq, true_and] at hsame
    have hrest := rest_revealed hne (hsame (c, es) hmem)
    exact absurd hrest (by decide)
  · intro hq ls' hsame
    have hnil := queried_nil inv_start hrun hq (by simp [Server.start, queried])
    -- both runs agree once the blocks hold zeros, so one of them exists if the other does
    have hexec := exec_readdress (IpAddr.withRest (Vector.replicate 12 0)) .start ls'
    rw [start_readdress, hsame.relabel_eq, hunder] at hexec
    obtain ⟨s', hs', hread⟩ := Option.map_eq_some_iff.mp hexec.symm
    have hqueried := congrArg (fun t : Server => queried t.shared.history) hread
    simp only [Server.readdress, Shared.readdress, queried_readdress] at hqueried
    have hnil' : ∀ p ∈ queried s'.shared.history, p.2 = [] := by
      intro p hp
      have hmem := List.mem_map_of_mem (f := fun p : ConnId × List Announced =>
        (p.1, p.2.map (Announced.readdress (IpAddr.withRest (Vector.replicate 12 0))))) hp
      rw [hqueried] at hmem
      obtain ⟨q, hq', heq⟩ := List.mem_map.mp hmem
      have hsnd := congrArg Prod.snd heq
      simp only [hnil q hq', List.map_nil] at hsnd
      exact List.map_eq_nil_iff.mp hsnd.symm
    exact ⟨s', hs', by rw [replies_of_nil _ hnil', replies_of_nil _ hnil, hqueried]⟩

/-- A client connects and asks. -/
def askRun (c : ConnId) : List (ConnId × Action) :=
  [(c, .accept ⟨2, 16777343, Vector.replicate 12 0⟩),
    (c, .peerSend (ReqHead.bytes ⟨DicMainOperation.getInfo.code, 1, 0⟩)), (c, .recv 8),
    (c, .recvDone 0), (c, .lock), (c, .collect), (c, .send), (c, .send), (c, .unlock)]

/-- A client asks before any node has announced itself. -/
theorem replies_determined_run :
    ∃ s, Server.start.exec anyStep (askRun 0) = some s ∧ replies s.shared.history ≠ [] ∧
      ∀ ls', SameButHeap (askRun 0) ls' → ∃ s', Server.start.exec anyStep ls' = some s' ∧
        replies s'.shared.history = replies s.shared.history := by
  have hrun : (Server.start.exec anyStep (askRun 0)).any (fun s =>
      decide (replies s.shared.history ≠ [])) = true := by
    decide +kernel
  have hnothing : QueriesFindNothing .start (askRun 0) := by
    decide +kernel
  obtain ⟨s, hs, htest⟩ := (Option.any_eq_true _ _).mp hrun
  exact ⟨s, hs, of_decide_eq_true htest, (replies_determined_iff hs).mpr hnothing⟩

/-- A node announces itself, and a client asks. -/
def announceAndAsk : List (ConnId × Action) := announceRun 0 100 4 ++ askRun 1

/-- What the heap held is in the reply. -/
theorem heap_revealed :
    ¬ ∀ ls ls' s s', SameButHeap ls ls' → Server.start.exec anyStep ls = some s →
      Server.start.exec anyStep ls' = some s' →
      replies s'.shared.history = replies s.shared.history := by
  intro hall
  have hrun : (Server.start.exec anyStep announceAndAsk).any (fun s =>
      (Server.start.exec anyStep (announceAndAsk.map
        (relabel (IpAddr.withRest (Vector.replicate 12 1))))).any fun s' =>
          decide (replies s'.shared.history ≠ replies s.shared.history)) = true := by
    decide +kernel
  obtain ⟨s, hs, htest⟩ := (Option.any_eq_true _ _).mp hrun
  obtain ⟨s', hs', htest⟩ := (Option.any_eq_true _ _).mp htest
  exact of_decide_eq_true htest (hall _ _ s s' (sameButHeap_relabel _ _) hs hs')

end Dicon.MainServer
