import Dicon.MainServer.History

/-!
# Dead entries of the registry

`connection_handler_thread` remembers one list node per connection and removes
that one when the peer is gone. A second ANNOUNCE_INFO on the same connection
overwrites `conn_info`, and the node of the first one stays in the list for good
(`dead_entry_left`). While every connection announces at most once, every
allocated node belongs to a connection that still has to remove it, and a
finished connection has none (`dead_entries_gone`).
-/

namespace Dicon.MainServer

open Dicon.Framework Registry

/-- `append_info` runs only on a connection that has not announced before. -/
def FirstAnnounce (s : Server) (l : ConnId × Action) : Prop :=
  ∀ newNode, l.2 = .append newNode →
    ∀ h, s.conns l.1 = some h → h.isComputeNode = false

/-- Every allocated node is the one that its connection remembers. -/
def Remembered (s : Server) : Prop :=
  ∀ a n, s.shared.registry.cell a = some n →
    ∃ h, s.conns n.info.conn = some h ∧ h.isComputeNode = true ∧
      h.pc.closing = false ∧ h.connInfo = some a

theorem remembered_append {s : Server} {c : ConnId} {hd hd' : Handler} {e : Announced}
    {newNode x : Addr} {registry : Registry Announced} {sh' : Shared}
    (hi : Inv s) (hrem : Remembered s) (hc : s.conns c = some hd)
    (hfirst : hd.isComputeNode = false) (hpc : hd.pc = .append e)
    (hfree : s.shared.registry.cell newNode = none)
    (happ : s.shared.registry.appendInfo e newNode = some (registry, x))
    (hinfo : hd'.connInfo = some x) (hcn : hd'.isComputeNode = true) (hpc' : hd'.pc = .unlock)
    (hsh : sh'.registry = registry) :
    Remembered ⟨Function.update s.conns c (some hd'), sh'⟩ := by
  obtain ⟨vis, orph, hshape⟩ := hi.shape
  obtain ⟨rfl, _, ⟨n, hn, hne⟩, hold⟩ := appendInfo_shape hshape hfree happ
  have hconn : e.conn = c := (hi.pending c hd hc e (by rw [hpc]; rfl)).1
  intro a m hm
  show ∃ h, Function.update s.conns c (some hd') m.info.conn = some h ∧ _
  rw [hsh] at hm
  by_cases hax : a = x
  · subst hax
    rw [hn] at hm
    cases hm
    rw [hne, hconn]
    exact ⟨hd', Function.update_self _ _ _, hcn, by rw [hpc']; rfl, hinfo⟩
  · obtain ⟨m', hm', hmi⟩ := cell_of_info hm (hold a hax).symm
    obtain ⟨h, hh, hhcn, hhcl, hha⟩ := hrem a m' hm'
    -- the node was not announced by `c`, which had not announced before
    have hother : m'.info.conn ≠ c := by
      intro heq
      rw [heq, hc] at hh
      cases hh
      rw [hfirst] at hhcn
      cases hhcn
    rw [← hmi]
    exact ⟨h, (Function.update_of_ne hother _ _).trans hh, hhcn, hhcl, hha⟩

theorem remembered_remove {s : Server} {c : ConnId} {hd : Handler} {registry : Registry Announced}
    {sh' : Shared} {hd' : Handler}
    (hi : Inv s) (hrem : Remembered s) (hc : s.conns c = some hd)
    (hr : hd.connInfo.bind s.shared.registry.removeInfo = some registry)
    (hsh : sh'.registry = registry) :
    Remembered ⟨Function.update s.conns c (some hd'), sh'⟩ := by
  obtain ⟨x, hx, hr⟩ := Option.bind_eq_some_iff.mp hr
  obtain ⟨vis, orph, hshape⟩ := hi.shape
  obtain ⟨_, hnone, hold⟩ := removeInfo_shape hshape hr
  intro a m hm
  show ∃ h, Function.update s.conns c (some hd') m.info.conn = some h ∧ _
  rw [hsh] at hm
  have hax : a ≠ x := by
    rintro rfl
    rw [hnone] at hm
    cases hm
  obtain ⟨m', hm', hmi⟩ := cell_of_info hm (hold a hax).symm
  obtain ⟨h, hh, hhcn, hhcl, hha⟩ := hrem a m' hm'
  -- `c` remembers `x`, which is gone, so the node is not one of its own
  have hother : m'.info.conn ≠ c := by
    intro heq
    rw [heq, hc] at hh
    cases hh
    rw [hx] at hha
    cases hha
    exact hax rfl
  rw [← hmi]
  exact ⟨h, (Function.update_of_ne hother _ _).trans hh, hhcn, hhcl, hha⟩

theorem remembered_step {s t : Server} {l : ConnId × Action} (hi : Inv s)
    (hrem : Remembered s) (hfirst : FirstAnnounce s l) (h : mainServer.step s l t) :
    Remembered t := by
  obtain ⟨c, a⟩ := l
  rcases step_cases h with ⟨ip, hc, rfl⟩ | ⟨hd, hd', sh', hc, he, rfl⟩
  · intro a n hn
    obtain ⟨h, hh, hrest⟩ := hrem a n hn
    have hother : n.info.conn ≠ c := by
      intro heq
      rw [heq, hc] at hh
      cases hh
    exact ⟨h, (Function.update_of_ne hother _ _).trans hh, hrest⟩
  · rcases effect_registry he with ⟨hsame, hinfo, hcomp, _, hclose, _⟩ |
      ⟨a', e, r, x, hpc, rfl, hfree, happ, hinfo, hcn, _, hpc', rfl⟩ |
      ⟨registry, _, rfl, hr, _, rfl⟩
    · intro b n hn
      rw [hsame] at hn
      obtain ⟨h, hh, hcn, hcl, hb⟩ := hrem b n hn
      show ∃ h, Function.update s.conns c (some hd') n.info.conn = some h ∧ _
      by_cases heq : n.info.conn = c
      · rw [heq, hc] at hh
        cases hh
        rw [heq, Function.update_self]
        exact ⟨hd', rfl, hcomp.trans hcn, (hclose hcn).trans hcl, hinfo.trans hb⟩
      · exact ⟨h, (Function.update_of_ne heq _ _).trans hh, hcn, hcl, hb⟩
    · exact remembered_append hi hrem hc (hfirst a' rfl hd hc) hpc hfree happ hinfo hcn hpc' rfl
    · exact remembered_remove hi hrem hc hr rfl

theorem remembered {s : Server} (h : (mainServer.restrict FirstAnnounce).Reachable s) :
    Remembered s := by
  apply h.invariant_of
  · rintro _ rfl a n hn
    cases hn
  · intro u l v hr hu hstep
    exact remembered_step (inv_of_reachable hr.of_restrict) hu hstep.1 hstep.2

/-- The list holds no entry of a connection that is past `remove_info`. -/
theorem Remembered.collect {s : Server} (h : Remembered s) (hi : Inv s) :
    ∃ es, s.shared.registry.collectInfo = some es ∧
      ∀ c hd, s.conns c = some hd → hd.pc.closing = true → ∀ e ∈ es, e.conn ≠ c := by
  obtain ⟨vis, orph, hshape⟩ := hi.shape
  refine ⟨_, hshape.collectInfo_eq, ?_⟩
  rintro c hd hc hcl e he rfl
  obtain ⟨x, _, n, hn, rfl⟩ := mem_infos.mp he
  obtain ⟨y, hy, _, hycl, _⟩ := h x n hn
  rw [hc] at hy
  cases hy
  rw [hcl] at hycl
  cases hycl

/-- In a run where every connection announces at most once, the list holds no
entry of a connection whose handler thread has finished, and no reply computed
after that contains one. -/
theorem dead_entries_gone {s : Server} (h : (mainServer.restrict FirstAnnounce).Reachable s) :
    (∀ c hd, s.conns c = some hd → hd.pc = .finished →
      ∃ es, s.shared.registry.collectInfo = some es ∧ ∀ e ∈ es, e.conn ≠ c) ∧
    RepliesObey (fun pre es => ∀ c, .finished c ∈ pre → ∀ e ∈ es, e.conn ≠ c)
      s.shared.history := by
  constructor
  · intro c hd hc hpc
    obtain ⟨es, hes, hgone⟩ := (remembered h).collect (inv_of_reachable h.of_restrict)
    exact ⟨es, hes, hgone c hd hc (by rw [hpc]; rfl)⟩
  · apply h.invariant_of
    · rintro _ rfl
      exact repliesObey_nil _
    · intro u l v hr ho hstep
      obtain ⟨c, a⟩ := l
      rcases step_cases hstep.2 with ⟨ip, hc, rfl⟩ | ⟨hd, hd', sh', hc, he, rfl⟩
      · exact ho
      · apply ho.effect he
        intro es _ hes d hfin
        obtain ⟨es', hes', hgone⟩ := (remembered hr).collect (inv_of_reachable hr.of_restrict)
        rw [hes] at hes'
        cases hes'
        obtain ⟨x, hx, hxcl⟩ := closedAreClosing hr.of_restrict d (Or.inr hfin)
        exact hgone d x hx hxcl

/-- The step appends nothing, or the first entry of its connection. -/
def appendsFirst (s : Server) (l : ConnId × Action) : Bool :=
  match l.2 with
  | .append _ => (s.conns l.1).all fun h => !h.isComputeNode
  | _ => true

theorem firstAnnounce_of_appendsFirst (s : Server) (l : ConnId × Action)
    (hok : appendsFirst s l = true) : FirstAnnounce s l := by
  intro newNode hl h hc
  simpa [appendsFirst, hl, hc] using hok

theorem dead_entries_gone_run :
    ∃ s, (mainServer.restrict FirstAnnounce).Reachable s ∧
      .finished 0 ∈ s.shared.history ∧ announcements s.shared.history ≠ [] ∧
      ∃ es, s.shared.registry.collectInfo = some es ∧ ∀ e ∈ es, e.conn ≠ 0 := by
  have hrun : (Server.start.exec appendsFirst (announceRun 0 100 4 ++ leaveRun 0)).any (fun s =>
      (s.conns 0).any (fun hd => decide (hd.pc = .finished)) &&
        decide (.finished 0 ∈ s.shared.history ∧ announcements s.shared.history ≠ [])) = true := by
    decide +kernel
  obtain ⟨s, hs, htest⟩ := (Option.any_eq_true _ _).mp hrun
  rw [Bool.and_eq_true, Option.any_eq_true] at htest
  obtain ⟨⟨hd, hc, hfin⟩, hlog⟩ := htest
  have hreach : (mainServer.restrict FirstAnnounce).Reachable s :=
    reachable_of_exec firstAnnounce_of_appendsFirst hs
  obtain ⟨hfinished, hann⟩ := of_decide_eq_true hlog
  exact ⟨s, hreach, hfinished, hann,
    (dead_entries_gone hreach).1 0 hd hc (of_decide_eq_true hfin)⟩

/-- One node announces twice and disconnects. -/
def announcesTwice : List (ConnId × Action) :=
  announceRun 0 100 4 ++ announceSteps 0 200 8 ++ leaveRun 0

/-- The thread of the connection has finished, and its first entry is still in
reach. -/
theorem dead_entry_left :
    ¬ ∀ s, mainServer.Reachable s → ∀ c hd, s.conns c = some hd → hd.pc = .finished →
      ∃ es, s.shared.registry.collectInfo = some es ∧ ∀ e ∈ es, e.conn ≠ c := by
  intro hall
  have hrun : (Server.start.exec anyStep announcesTwice).any (fun s =>
      (s.conns 0).any (fun hd => decide (hd.pc = .finished)) &&
        s.shared.registry.collectInfo.any fun es =>
          es.any fun e => decide (e.conn = 0)) = true := by
    decide +kernel
  obtain ⟨s, hs, htest⟩ := (Option.any_eq_true _ _).mp hrun
  rw [Bool.and_eq_true, Option.any_eq_true, Option.any_eq_true] at htest
  obtain ⟨⟨hd, hc, hfin⟩, es, hes, hleft⟩ := htest
  obtain ⟨e, he, hconn⟩ := List.any_eq_true.mp hleft
  obtain ⟨es', hes', hgone⟩ :=
    hall s (reachable_of_run hs) 0 hd hc (of_decide_eq_true hfin)
  rw [hes] at hes'
  cases hes'
  exact hgone e he (of_decide_eq_true hconn)

end Dicon.MainServer
