import Dicon.MainServer.History

/-!
# Live entries of the registry

A connection's entries should stay in the list until that connection is cleaned
up. `remove_info` breaks this for the first node of the list: it stores `NULL`
into `NODES_INFO` and every node behind it is out of reach. `live_entries_kept`
gives the exact condition on the runs: it holds as long as no connection is
cleaned up while its entry is first and an entry of another open connection is
behind it, and the first such clean-up loses that other entry.
-/

namespace Dicon.MainServer

open Dicon.Framework Registry

/-- The list `es` has the announced entries in announcement order, and misses
only entries of connections that were cleaned up. -/
def KeepsLive (hist : List Event) (es : List Announced) : Prop :=
  es.Sublist (announcements hist) ∧
    ∀ e ∈ announcements hist, .removed e.conn ∉ hist → e ∈ es

/-- A clean-up that unlinks the first node of the list leaves no entry of
another open connection behind it. -/
def KeepsHead (s : Server) (l : ConnId × Action) : Prop :=
  l.2 = .remove → ∀ h a n, s.conns l.1 = some h → h.connInfo = some a →
    s.shared.registry.cell a = some n → n.prev = none →
    ∀ es, s.shared.registry.collectInfo = some es →
      ∀ e ∈ es, e.conn = l.1 ∨ .removed e.conn ∈ s.shared.history

/-- The entries in reach are the live ones; what is out of reach belongs to
connections that were cleaned up. -/
def LiveInReach (s : Server) : Prop :=
  ∃ vis orph, s.shared.registry.Shape vis orph ∧
    KeepsLive s.shared.history (infos s.shared.registry.cell vis) ∧
    ∀ a n, s.shared.registry.cell a = some n → a ∉ vis →
      .removed n.info.conn ∈ s.shared.history

theorem LiveInReach.collect {s : Server} (h : LiveInReach s) :
    ∃ es, s.shared.registry.collectInfo = some es ∧ KeepsLive s.shared.history es := by
  obtain ⟨vis, orph, hshape, hkeep, _⟩ := h
  exact ⟨_, hshape.collectInfo_eq, hkeep⟩

/-! ## Logging -/

theorem KeepsLive.quiet {hist evs : List Event} {es : List Announced}
    (h : KeepsLive hist es) (hevs : ∀ ev ∈ evs, ev.edits = false) :
    KeepsLive (hist ++ evs) es := by
  unfold KeepsLive
  rw [announcements_append, announcements_quiet hevs, List.append_nil]
  refine ⟨h.1, fun e he hrem => h.2 e he fun hm => hrem ?_⟩
  exact List.mem_append_left _ hm

theorem KeepsLive.announce {hist : List Event} {es : List Announced} {e : Announced}
    (h : KeepsLive hist es) : KeepsLive (hist ++ [.announced e]) (es ++ [e]) := by
  unfold KeepsLive
  rw [announcements_append]
  refine ⟨h.1.append (List.Sublist.refl _), fun d hd hrem => ?_⟩
  rcases List.mem_append.mp hd with hd | hd
  · exact List.mem_append_left _ (h.2 d hd fun hm => hrem (List.mem_append_left _ hm))
  · exact List.mem_append_right _ hd

/-- Cleaning up `c` may take entries of `c` out of the list. -/
theorem KeepsLive.remove {hist : List Event} {es es' : List Announced} {c : ConnId}
    (h : KeepsLive hist es) (hsub : es'.Sublist es)
    (hother : ∀ e ∈ es, e.conn ≠ c → .removed e.conn ∉ hist → e ∈ es') :
    KeepsLive (hist ++ [.removed c]) es' := by
  have hann : announcements (hist ++ [.removed c]) = announcements hist := by
    rw [announcements_append]
    exact List.append_nil _
  unfold KeepsLive
  rw [hann]
  refine ⟨hsub.trans h.1, fun e he hrem => ?_⟩
  have hold : Event.removed e.conn ∉ hist := fun hm => hrem (List.mem_append_left _ hm)
  apply hother e (h.2 e he hold) _ hold
  intro heq
  exact hrem (List.mem_append_right _ (by simp [heq]))

/-! ## Steps -/

section Steps

variable {s : Server} {c : ConnId} {hd hd' : Handler} {sh' : Shared} {a : Action}

/-- The node that a clean-up removes: the connection's own one, and in reach. -/
theorem removed_node (hi : Inv s) (hcl : ClosedAreClosing s) (hlive : LiveInReach s)
    (hc : s.conns c = some hd) (hpc : hd.pc = .remove) {registry : Registry Announced}
    (hrem : hd.connInfo.bind s.shared.registry.removeInfo = some registry) :
    ∃ x n l r orph, hd.connInfo = some x ∧ s.shared.registry.removeInfo x = some registry ∧
      s.shared.registry.cell x = some n ∧ n.info.conn = c ∧ n.prev = l.getLast? ∧
      s.shared.registry.Shape (l ++ x :: r) orph ∧
      KeepsLive s.shared.history (infos s.shared.registry.cell (l ++ x :: r)) ∧
      ∀ b m, s.shared.registry.cell b = some m → b ∉ l ++ x :: r →
        .removed m.info.conn ∈ s.shared.history := by
  obtain ⟨x, hx, hrem⟩ := Option.bind_eq_some_iff.mp hrem
  obtain ⟨x', n, hx', hn, hown⟩ := hi.own_node hc hpc
  rw [hx] at hx'
  cases hx'
  obtain ⟨vis, orph, hshape, hkeep, hout⟩ := hlive
  -- `c` is not closed yet, so its node is not out of reach
  have hvis : x ∈ vis := by
    by_contra hnot
    have hremoved := hout x n hn hnot
    rw [hown] at hremoved
    obtain ⟨y, hy, hycl⟩ := hcl c (Or.inl hremoved)
    rw [hc] at hy
    cases hy
    rw [hpc] at hycl
    cases hycl
  obtain ⟨l, r, rfl⟩ := List.append_of_mem hvis
  obtain ⟨n', hn', hprev, _⟩ := hshape.visible.cell_of_split
  rw [hn] at hn'
  cases hn'
  exact ⟨x, n, l, r, orph, hx, hrem, hn, hown, hprev, hshape, hkeep, hout⟩

theorem liveInReach_append (hlive : LiveInReach s) {e : Announced} {newNode x : Addr}
    {registry : Registry Announced} (hfree : s.shared.registry.cell newNode = none)
    (happ : s.shared.registry.appendInfo e newNode = some (registry, x))
    {conns : ConnId → Option Handler} :
    LiveInReach ⟨conns, { s.shared with
      registry := registry, history := s.shared.history ++ [.announced e] }⟩ := by
  obtain ⟨vis, orph, hshape, hkeep, hout⟩ := hlive
  obtain ⟨rfl, hshape', _, hold⟩ := appendInfo_shape hshape hfree happ
  refine ⟨_, _, hshape', ?_, ?_⟩
  · rw [appendInfo_infos hshape hfree happ]
    exact hkeep.announce
  · intro b m hb hbnot
    rw [List.mem_append, List.mem_singleton, not_or] at hbnot
    obtain ⟨m', hm', hmi⟩ := cell_of_info hb (hold b hbnot.2).symm
    rw [← hmi]
    exact List.mem_append_left _ (hout b m' hm' hbnot.1)

/-- What `remove_info` leaves allocated was allocated before, with the same
contents. -/
theorem cell_of_unlinked {old new : Registry Announced} {l r : List Addr} {x b : Addr}
    {m : Link Addr Announced} (hcell : new.cell = Seg.unlinked old.cell l x r)
    (hb : new.cell b = some m) :
    b ≠ x ∧ ∃ m', old.cell b = some m' ∧ m'.info = m.info := by
  have hbx : b ≠ x := by
    rintro rfl
    rw [hcell, Seg.unlinked, erase_self] at hb
    cases hb
  refine ⟨hbx, cell_of_info hb ?_⟩
  rw [hcell, unlinked_info hbx]

/-- A clean-up that finds its node behind another one. -/
theorem liveInReach_remove_inner {n : Link Addr Announced} {l r : List Addr}
    {orph : List (List Addr)} {x : Addr} {registry : Registry Announced}
    (hl : l ≠ []) (hrem : s.shared.registry.removeInfo x = some registry)
    (hn : s.shared.registry.cell x = some n) (hown : n.info.conn = c)
    (hshape : s.shared.registry.Shape (l ++ x :: r) orph)
    (hkeep : KeepsLive s.shared.history (infos s.shared.registry.cell (l ++ x :: r)))
    (hout : ∀ b m, s.shared.registry.cell b = some m → b ∉ l ++ x :: r →
      .removed m.info.conn ∈ s.shared.history) {conns : ConnId → Option Handler} :
    LiveInReach ⟨conns, { s.shared with
      registry := registry, history := s.shared.history ++ [.removed c] }⟩ := by
  obtain ⟨r', hr', hcell, hshape'⟩ := hshape.remove_inner hl
  rw [hrem] at hr'
  cases hr'
  -- the list loses exactly `x`
  have hmiddle : ∀ y, y ∈ l ++ x :: r ↔ y = x ∨ y ∈ l ++ r := fun y =>
    List.perm_middle.mem_iff.trans List.mem_cons
  have hxnot : x ∉ l ++ r :=
    (List.nodup_cons.mp (List.perm_middle.nodup_iff.mp hshape.vis_nodup)).1
  have hinfos : infos registry.cell (l ++ r) = infos s.shared.registry.cell (l ++ r) := by
    apply infos_congr
    intro y hy
    rw [hcell, unlinked_info]
    rintro rfl
    exact hxnot hy
  refine ⟨_, _, hshape', ?_, ?_⟩
  · rw [hinfos]
    apply hkeep.remove
    · apply List.Sublist.filterMap
      exact List.Sublist.append_left (List.sublist_cons_self x r) l
    · -- an entry that is not in the list any more is the one of this connection
      intro e he hne _
      obtain ⟨y, hy, m, hm, hme⟩ := mem_infos.mp he
      rcases (hmiddle y).mp hy with rfl | hy
      · rw [hn] at hm
        cases hm
        exact absurd (hme ▸ hown) hne
      · exact mem_infos.mpr ⟨y, hy, m, hm, hme⟩
  · intro b m hb hbnot
    obtain ⟨hbx, m', hm', hmi⟩ := cell_of_unlinked hcell hb
    rw [← hmi]
    apply List.mem_append_left
    apply hout b m' hm'
    rw [hmiddle, not_or]
    exact ⟨hbx, hbnot⟩

/-- A clean-up that unlinks the first node: the whole list goes out of reach. -/
theorem liveInReach_remove_first {r : List Addr}
    {orph : List (List Addr)} {x : Addr} {registry : Registry Announced}
    (hrem : s.shared.registry.removeInfo x = some registry)
    (hshape : s.shared.registry.Shape (x :: r) orph)
    (hkeep : KeepsLive s.shared.history (infos s.shared.registry.cell (x :: r)))
    (hout : ∀ b m, s.shared.registry.cell b = some m → b ∉ x :: r →
      .removed m.info.conn ∈ s.shared.history)
    (hstale : ∀ e ∈ infos s.shared.registry.cell (x :: r),
      e.conn = c ∨ .removed e.conn ∈ s.shared.history) {conns : ConnId → Option Handler} :
    LiveInReach ⟨conns, { s.shared with
      registry := registry, history := s.shared.history ++ [.removed c] }⟩ := by
  obtain ⟨r', hr', hcell, hshape'⟩ := hshape.remove_first
  rw [hrem] at hr'
  cases hr'
  refine ⟨[], _, hshape', ?_, ?_⟩
  · apply hkeep.remove (List.nil_sublist _)
    intro e he hne hrem'
    rcases hstale e he with heq | hmem
    · exact absurd heq hne
    · exact absurd hmem hrem'
  · intro b m hb _
    obtain ⟨_, m', hm', hmi⟩ := cell_of_unlinked hcell hb
    rw [← hmi]
    -- what was in reach is not any more; all of it is stale by assumption
    by_cases hbvis : b ∈ x :: r
    · rcases hstale m'.info (mem_infos.mpr ⟨b, hbvis, m', hm', rfl⟩) with heq | hmem
      · exact List.mem_append_right _ (by simp [heq])
      · exact List.mem_append_left _ hmem
    · exact List.mem_append_left _ (hout b m' hm' hbvis)

theorem liveInReach_step {t : Server} {l : ConnId × Action} (hi : Inv s)
    (hcl : ClosedAreClosing s) (hlive : LiveInReach s) (hkeep : KeepsHead s l)
    (h : mainServer.step s l t) : LiveInReach t := by
  obtain ⟨c, a⟩ := l
  rcases step_cases h with ⟨ip, hc, rfl⟩ | ⟨hd, hd', sh', hc, he, rfl⟩
  · exact hlive
  · rcases effect_registry he with ⟨hsame, _, _, _, _, evs, hhist, hquiet⟩ |
      ⟨a', e, r, x, _, _, hfree, happ, _, _, _, _, rfl⟩ | ⟨registry, hpc, rfl, hrem, _, rfl⟩
    · obtain ⟨vis, orph, hshape, hk, hout⟩ := hlive
      refine ⟨vis, orph, by rw [hsame]; exact hshape, ?_, ?_⟩
      · rw [hsame, hhist]
        exact hk.quiet hquiet
      · intro b m hb hbnot
        rw [hsame] at hb
        rw [hhist]
        exact List.mem_append_left _ (hout b m hb hbnot)
    · exact liveInReach_append hlive hfree happ
    · obtain ⟨x, n, l, r, orph, hx, hrem, hn, hown, hprev, hshape, hk, hout⟩ :=
        removed_node hi hcl hlive hc hpc hrem
      by_cases hl : l = []
      · subst hl
        have hstale := hkeep rfl hd x n hc hx hn hprev _ hshape.collectInfo_eq
        exact liveInReach_remove_first hrem hshape hk hout hstale
      · exact liveInReach_remove_inner hl hrem hn hown hshape hk hout

/-- Where the condition fails, the entry behind the first one is lost. -/
theorem lost_of_not_keepsHead {t : Server} {l : ConnId × Action} (hi : Inv s)
    (hcl : ClosedAreClosing s) (hlive : LiveInReach s) (hnot : ¬ KeepsHead s l)
    (h : mainServer.step s l t) :
    t.shared.registry.collectInfo = some [] ∧
      ∃ e ∈ announcements t.shared.history, .removed e.conn ∉ t.shared.history := by
  obtain ⟨c, a⟩ := l
  simp only [KeepsHead, not_forall, not_or, exists_prop] at hnot
  obtain ⟨rfl, hd, x, n, hc, hx, hn, hprev, es, hes, e, he, hne, hopen⟩ := hnot
  rcases step_cases h with ⟨ip, hc', rfl⟩ | ⟨hd₂, hd', sh', hc', he', rfl⟩
  · rw [hc'] at hc
    cases hc
  · rw [hc] at hc'
    cases hc'
    cases he' with
    | remove hpc hrem =>
        obtain ⟨x', n', l, r, orph, hx', hrem, hn', _, hprev', hshape, hk, _⟩ :=
          removed_node hi hcl hlive hc hpc hrem
        rw [hx] at hx'
        cases hx'
        rw [hn] at hn'
        cases hn'
        -- the node has no predecessor, so it is the first one
        have hl : l = [] := List.getLast?_eq_none_iff.mp (hprev'.symm.trans hprev)
        subst hl
        obtain ⟨r', hr', _, hshape'⟩ := Shape.remove_first hshape
        rw [hrem] at hr'
        cases hr'
        rw [hshape.collectInfo_eq] at hes
        cases hes
        refine ⟨hshape'.collectInfo_eq, e, ?_, ?_⟩
        · show e ∈ announcements (s.shared.history ++ [.removed c])
          rw [announcements_append]
          exact List.mem_append_left _ (hk.1.subset he)
        · show Event.removed e.conn ∉ s.shared.history ++ [.removed c]
          rw [List.mem_append, List.mem_singleton, not_or]
          exact ⟨hopen, fun heq => hne (Event.removed.inj heq)⟩
    | removeFault hpc hrem =>
        obtain ⟨r, hr⟩ := hi.removes hc hpc
        rw [hr] at hrem
        cases hrem

end Steps

/-! ## Runs -/

theorem liveInReach {s : Server} (h : (mainServer.restrict KeepsHead).Reachable s) :
    LiveInReach s := by
  apply h.invariant_of
  · rintro _ rfl
    refine ⟨[], [], Registry.shape_empty, ⟨List.Sublist.refl _, ?_⟩, ?_⟩
    · simp [Server.start, announcements]
    · simp [Server.start, Registry.empty]
  · intro u l v hr hl hstep
    have hr' := hr.of_restrict
    exact liveInReach_step (inv_of_reachable hr') (closedAreClosing hr') hl hstep.1 hstep.2

/-- The step removes no entry, or one that is not the first. -/
def keepsFirst (s : Server) (l : ConnId × Action) : Bool :=
  decide (l.2 ≠ .remove) || (s.conns l.1).any fun h =>
    h.connInfo.any fun a => (s.shared.registry.cell a).any fun n => n.prev.isSome

theorem keepsHead_of_keepsFirst (s : Server) (l : ConnId × Action)
    (hok : keepsFirst s l = true) : KeepsHead s l := by
  intro hl h a n hc ha hn hprev
  simp [keepsFirst, hl, hc, ha, hn, hprev] at hok

end Dicon.MainServer
