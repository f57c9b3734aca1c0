import Dicon.MainServer.DeadEntries
import Dicon.MainServer.Epochs

/-!
# What a reply leaves out, and what is never freed

From the abstract registry to statements about the events alone. Announcements are
distinct (`Numbered`), so an entry is on the list exactly when it was announced and no
event since then has lost it (`reply_lists`), and the heap holds the announcements that
no clean-up has removed: those of the connections that are there, and of the others all
but the last one (`allocated_iff`).
-/

namespace Dicon.MainServer

open Dicon.Framework Registry

/-- An event that takes `e` off the current list: its own connection cleans it up, or some
connection cleans up an entry that has no predecessor. -/
def Loses (e : Announced) (pre : List Event) (ev : Event) : Prop :=
  ∃ c d, ev = .removed c ∧ (epochs pre).latest c = some d ∧
    (d = e ∨ (epochs pre).IsFirst d)

/-! ## Histories -/

/-- What leaves some elements out of each list leaves them out of all. -/
theorem flatten_map_sublist {α : Type*} {f : List α → List α} (hf : ∀ l, (f l).Sublist l)
    (ls : List (List α)) : ((ls.map f).flatten).Sublist ls.flatten := by
  induction ls with
  | nil => exact List.Sublist.refl _
  | cons l ls ih => exact (hf l).append ih

theorem Epochs.leave_sublist (E : Epochs) (e : Announced) :
    ((E.leave e).lists.flatten).Sublist E.lists.flatten := by
  have herase := flatten_map_sublist (fun l : List Announced => List.erase_sublist (a := e)) E.lists
  unfold Epochs.leave
  split
  · exact herase
  · exact herase

theorem Epochs.leave_current_sublist (E : Epochs) (e : Announced) :
    ((E.leave e).current).Sublist E.current := by
  unfold Epochs.leave
  split
  · exact List.nil_sublist _
  · exact List.erase_sublist

/-- An event either announces, or takes entries away, or does nothing to the lists. -/
theorem Epochs.event_cases (E : Epochs) (ev : Event) :
    (∃ e, ev = .announced e ∧ E.event ev = E.announce e) ∨
    (∃ c d, ev = .removed c ∧ E.latest c = some d ∧ E.event ev = E.leave d) ∨
    (E.event ev = E ∧ (∀ e, ev ≠ .announced e) ∧ ∀ c, ev = .removed c → E.latest c = none) := by
  cases ev with
  | announced e => exact Or.inl ⟨e, rfl, rfl⟩
  | removed c =>
      cases hlatest : E.latest c with
      | none =>
          refine Or.inr (Or.inr ⟨?_, by simp, ?_⟩)
          · rw [Epochs.event, hlatest]
            rfl
          · rintro d hd
            cases hd
            exact hlatest
      | some d =>
          refine Or.inr (Or.inl ⟨c, d, rfl, hlatest, ?_⟩)
          rw [Epochs.event, hlatest]
          rfl
  | _ => exact Or.inr (Or.inr ⟨rfl, by simp, by simp⟩)

theorem announcements_announced (hist : List Event) (e : Announced) :
    announcements (hist ++ [.announced e]) = announcements hist ++ [e] :=
  announcements_append _ _

theorem announcements_other {hist : List Event} {ev : Event} (h : ∀ e, ev ≠ .announced e) :
    announcements (hist ++ [ev]) = announcements hist := by
  rw [announcements_append]
  cases ev with
  | announced e => exact absurd rfl (h e)
  | _ => exact List.append_nil _

/-- The current list has announcements in their order. -/
theorem current_sublist (hist : List Event) :
    (epochs hist).current.Sublist (announcements hist) := by
  induction hist using List.reverseRecOn with
  | nil => exact List.Sublist.refl _
  | append_singleton hist ev ih =>
      rw [epochs_snoc]
      rcases (epochs hist).event_cases ev with ⟨e, rfl, hev⟩ | ⟨c, d, rfl, _, hev⟩ | ⟨hev, hno, _⟩
      · rw [hev, announcements_announced]
        exact ih.append (List.Sublist.refl _)
      · rw [hev, announcements_other (by simp)]
        exact ((epochs hist).leave_current_sublist d).trans ih
      · rw [hev, announcements_other hno]
        exact ih

/-- Announcements that differ from each other. -/
def Fresh (hist : List Event) : Prop := (announcements hist).Nodup

theorem Fresh.of_snoc {hist : List Event} {ev : Event} (h : Fresh (hist ++ [ev])) :
    Fresh hist := by
  unfold Fresh at *
  rw [announcements_append] at h
  exact (List.nodup_append.mp h).1

theorem Fresh.current_nodup {hist : List Event} (h : Fresh hist) : (epochs hist).current.Nodup :=
  List.Nodup.sublist (current_sublist hist) h

/-- The current list after an entry has left. -/
theorem mem_leave {E : Epochs} {d e : Announced} (hnd : E.current.Nodup) :
    e ∈ (E.leave d).current ↔ e ∈ E.current ∧ ¬ (d = e ∨ E.IsFirst d) := by
  unfold Epochs.leave
  by_cases hfirst : E.IsFirst d
  · rw [if_pos hfirst]
    exact iff_of_false (List.not_mem_nil) fun h => h.2 (Or.inr hfirst)
  · rw [if_neg hfirst, hnd.mem_erase_iff]
    constructor
    · rintro ⟨hne, hmem⟩
      exact ⟨hmem, fun h => h.elim (fun heq => hne heq.symm) hfirst⟩
    · rintro ⟨hmem, hnot⟩
      exact ⟨fun heq => hnot (Or.inl heq.symm), hmem⟩

/-- An entry is on the current list when it was announced and nothing has lost it. -/
theorem listed_iff_since {hist : List Event} (h : Fresh hist) (e : Announced) :
    e ∈ (epochs hist).current ↔ Since (fun _ ev => ev = .announced e) (Loses e) hist := by
  refine iff_since (P := fun hist => e ∈ (epochs hist).current) (V := Fresh)
    (fun _ _ => Fresh.of_snoc) List.not_mem_nil (fun hist ev hfresh => ?_) h
  rw [epochs_snoc]
  rcases (epochs hist).event_cases ev with ⟨d, rfl, hev⟩ | ⟨c, d, rfl, hlatest, hev⟩ |
    ⟨hev, hno, hnone⟩
  · rw [hev]
    have hkeep : ¬ Loses e hist (.announced d) := by
      rintro ⟨_, _, h, _⟩
      cases h
    simp [Epochs.announce, hkeep, or_comm, eq_comm]
  · rw [hev, mem_leave hfresh.of_snoc.current_nodup]
    have hloses : Loses e hist (.removed c) ↔ d = e ∨ (epochs hist).IsFirst d := by
      constructor
      · rintro ⟨c', d', heq, hlatest', hd⟩
        cases heq
        rw [hlatest] at hlatest'
        cases hlatest'
        exact hd
      · exact fun hd => ⟨c, d, rfl, hlatest, hd⟩
    rw [hloses]
    simp
  · have hkeep : ¬ Loses e hist ev := by
      rintro ⟨c, d, rfl, hlatest, _⟩
      rw [hnone c rfl] at hlatest
      cases hlatest
    rw [hev]
    simp [hkeep, hno e]

/-! ## Runs -/

/-- The announcements of a connection are numbered in their order, and `latest` is the
one with the greatest number. -/
structure Numbered (s : Server) : Prop where
  below : ∀ e ∈ announcements s.shared.history,
    ∃ h, s.conns e.conn = some h ∧ e.nth < h.announces
  inj : ∀ e ∈ announcements s.shared.history, ∀ d ∈ announcements s.shared.history,
    e.conn = d.conn → e.nth = d.nth → e = d
  fresh : Fresh s.shared.history
  latest : ∀ c e, (epochs s.shared.history).latest c = some e →
    e ∈ announcements s.shared.history ∧ e.conn = c ∧
      ∃ h, s.conns c = some h ∧ e.nth + 1 = h.announces

theorem numbered_start : Numbered .start where
  below := by rintro e ⟨⟩
  inj := by rintro e ⟨⟩
  fresh := List.nodup_nil
  latest := by rintro c e ⟨⟩

section Step

variable {s t : Server}

theorem Numbered.append (hn : Numbered s) {c : ConnId} {hd hd' : Handler} {e : Announced}
    (hc : s.conns c = some hd) (hconn : e.conn = c) (hnth : e.nth = hd.announces)
    (hann : hd'.announces = hd.announces + 1) {r : Registry Announced} :
    Numbered ⟨Function.update s.conns c (some hd'),
      { s.shared with registry := r, history := s.shared.history ++ [.announced e] }⟩ := by
  subst hconn
  have hnew : ∀ d ∈ announcements s.shared.history, d.conn = e.conn → d.nth < e.nth := by
    intro d hd hconn
    obtain ⟨h, hh, hlt⟩ := hn.below d hd
    rw [hconn, hc] at hh
    cases hh
    omega
  refine ⟨?_, ?_, ?_, ?_⟩
  · intro d hd
    rw [announcements_announced, List.mem_append, List.mem_singleton] at hd
    show ∃ h, Function.update s.conns e.conn (some hd') d.conn = some h ∧ _
    by_cases heq : d.conn = e.conn
    · rw [heq, Function.update_self]
      refine ⟨hd', rfl, ?_⟩
      rcases hd with hd | rfl
      · have := hnew d hd heq
        omega
      · omega
    · rcases hd with hd | rfl
      · obtain ⟨h, hh, hlt⟩ := hn.below d hd
        exact ⟨h, (Function.update_of_ne heq _ _).trans hh, hlt⟩
      · exact absurd rfl heq
  · intro d hd f hf hconn hnth
    rw [announcements_announced, List.mem_append, List.mem_singleton] at hd hf
    rcases hd with hd | rfl <;> rcases hf with hf | rfl
    · exact hn.inj d hd f hf hconn hnth
    · have := hnew d hd hconn
      omega
    · have := hnew f hf hconn.symm
      omega
    · rfl
  · show (announcements (s.shared.history ++ [.announced e])).Nodup
    rw [announcements_announced, List.nodup_append]
    refine ⟨hn.fresh, List.nodup_singleton e, ?_⟩
    rintro d hd f hf rfl
    rw [List.mem_singleton] at hf
    subst hf
    have := hnew d hd rfl
    omega
  · intro d f hf
    rw [epochs_snoc] at hf
    have hlatest : Function.update (epochs s.shared.history).latest e.conn (some e) d = some f := hf
    rw [announcements_announced]
    show _ ∧ _ ∧ ∃ h, Function.update s.conns e.conn (some hd') d = some h ∧ _
    by_cases heq : d = e.conn
    · subst heq
      rw [Function.update_self] at hlatest ⊢
      cases hlatest
      exact ⟨List.mem_append_right _ (List.mem_singleton_self _), rfl, hd', rfl, by omega⟩
    · rw [Function.update_of_ne heq] at hlatest ⊢
      obtain ⟨hmem, hconn, hlast⟩ := hn.latest d f hlatest
      exact ⟨List.mem_append_left _ hmem, hconn, hlast⟩

/-- A step that announces nothing. -/
theorem Numbered.keep (hn : Numbered s) {c : ConnId} {hd hd' : Handler} {sh' : Shared}
    (hc : s.conns c = some hd) (hann : hd'.announces = hd.announces)
    (hsame : announcements sh'.history = announcements s.shared.history)
    (hlatest : (epochs sh'.history).latest = (epochs s.shared.history).latest) :
    Numbered ⟨Function.update s.conns c (some hd'), sh'⟩ := by
  refine ⟨?_, ?_, ?_, ?_⟩
  · intro e he
    rw [hsame] at he
    obtain ⟨h, hh, hlt⟩ := hn.below e he
    show ∃ h, Function.update s.conns c (some hd') e.conn = some h ∧ _
    by_cases heq : e.conn = c
    · rw [heq, hc] at hh
      cases hh
      rw [heq, Function.update_self]
      exact ⟨hd', rfl, by rw [hann]; exact hlt⟩
    · exact ⟨h, (Function.update_of_ne heq _ _).trans hh, hlt⟩
  · rw [hsame]
    exact hn.inj
  · show (announcements sh'.history).Nodup
    rw [hsame]
    exact hn.fresh
  · intro d e he
    rw [hlatest] at he
    rw [hsame]
    show _ ∧ _ ∧ ∃ h, Function.update s.conns c (some hd') d = some h ∧ _
    obtain ⟨hmem, hconn, h, hh, hlast⟩ := hn.latest d e he
    by_cases heq : d = c
    · rw [heq, hc] at hh
      cases hh
      rw [heq, Function.update_self]
      exact ⟨hmem, heq ▸ hconn, hd', rfl, by rw [hann]; exact hlast⟩
    · exact ⟨hmem, hconn, h, (Function.update_of_ne heq _ _).trans hh, hlast⟩

theorem Numbered.step {l : ConnId × Action} (hn : Numbered s) (hi : Inv s)
    (hstep : mainServer.step s l t) : Numbered t := by
  obtain ⟨c, a⟩ := l
  rcases step_cases hstep with ⟨ip, hc, rfl⟩ | ⟨hd, hd', sh', hc, he, rfl⟩
  · have hother : ∀ d h, s.conns d = some h →
        Function.update s.conns c (some (.new ip)) d = some h := by
      intro d h hh
      rw [Function.update_of_ne, hh]
      rintro rfl
      rw [hc] at hh
      cases hh
    refine ⟨fun e he => ?_, hn.inj, hn.fresh, fun d e he => ?_⟩
    · obtain ⟨h, hh, hlt⟩ := hn.below e he
      exact ⟨h, hother _ h hh, hlt⟩
    · obtain ⟨hmem, hconn, h, hh, hlast⟩ := hn.latest d e he
      exact ⟨hmem, hconn, h, hother d h hh, hlast⟩
  · rcases effect_registry he with ⟨_, _, _, hann, _, evs, hhist, hquiet⟩ |
      ⟨_, e, r, x, hpc, rfl, _, _, _, _, hann, _, rfl⟩ | ⟨registry, _, rfl, _, rfl, rfl⟩
    · refine hn.keep hc hann ?_ ?_
      · rw [hhist, announcements_append, announcements_quiet hquiet, List.append_nil]
      · rw [hhist, epochs_quiet hquiet]
    · obtain ⟨hconn, hnth⟩ := hi.pending c hd hc e (by rw [hpc]; rfl)
      exact hn.append hc hconn hnth hann
    · refine hn.keep hc rfl (announcements_other (by simp)) ?_
      rw [epochs_snoc]
      rcases (epochs s.shared.history).event_cases (.removed c) with ⟨_, h, _⟩ |
        ⟨_, d, _, _, hev⟩ | ⟨hev, _⟩
      · cases h
      · rw [hev, Epochs.latest_leave]
      · rw [hev]

end Step

theorem numbered {s : Server} (h : mainServer.Reachable s) : Numbered s :=
  h.invariant_of (fun _ h0 => h0 ▸ numbered_start) fun _ _ _ hr hn hs =>
    hn.step (inv_of_reachable hr) hs

/-- Every reply lists announcements in their order and none of them twice, and just those
that no event before the reply has lost. -/
theorem reply_lists {s : Server} (h : mainServer.Reachable s) :
    RepliesObey (fun pre es => es.Sublist (announcements pre) ∧ es.Nodup ∧
      ∀ e, e ∈ es ↔ Since (fun _ ev => ev = .announced e) (Loses e) pre) s.shared.history := by
  intro pre c es post hsplit
  have hfresh : Fresh pre := by
    have hall := (numbered h).fresh
    rw [Fresh, hsplit, announcements_append] at hall
    exact (List.nodup_append.mp hall).1
  rw [(registry_replies h) pre c es post hsplit]
  exact ⟨current_sublist pre, hfresh.current_nodup, listed_iff_since hfresh⟩

/-- The client of `announcedAfterLoss` learns of the third node only. -/
theorem reply_lists_run : ∃ s, mainServer.Reachable s ∧
    (s.shared.history.any fun
      | .replied _ es => es.map Announced.conn = [2]
      | _ => false) = true ∧
    RepliesObey (fun pre es => es.Sublist (announcements pre) ∧ es.Nodup ∧
      ∀ e, e ∈ es ↔ Since (fun _ ev => ev = .announced e) (Loses e) pre) s.shared.history := by
  have hrun : (Server.start.exec anyStep announcedAfterLoss).any (fun s =>
      s.shared.history.any fun
        | .replied _ es => es.map Announced.conn = [2]
        | _ => false) = true := by
    decide +kernel
  obtain ⟨s, hs, htest⟩ := (Option.any_eq_true _ _).mp hrun
  have hreach := reachable_of_run hs
  exact ⟨s, hreach, htest, reply_lists hreach⟩

/-! ## What is never freed -/

/-- How many entries the history removes. -/
def removals (hist : List Event) : ℕ :=
  (hist.filter fun
    | .removed _ => true
    | _ => false).length

/-- The nodes that are allocated, from the events. -/
structure Accounted (s : Server) : Prop where
  allocated : ∀ e, (∃ a n, s.shared.registry.cell a = some n ∧ n.info = e) ↔
    e ∈ announcements s.shared.history ∧ (.removed e.conn ∈ s.shared.history →
      ∃ d ∈ announcements s.shared.history, d.conn = e.conn ∧ e.nth < d.nth)
  count : s.shared.registry.live + removals s.shared.history =
    (announcements s.shared.history).length

theorem removals_append (hist evs : List Event) :
    removals (hist ++ evs) = removals hist + removals evs := by
  rw [removals, List.filter_append, List.length_append]
  rfl

theorem removals_quiet {evs : List Event} (h : ∀ ev ∈ evs, ev.edits = false) :
    removals evs = 0 := by
  rw [removals, List.length_eq_zero_iff, List.filter_eq_nil_iff]
  intro ev hev
  cases ev with
  | removed c => cases h _ hev
  | _ => simp

theorem removed_mem_quiet {hist evs : List Event} (h : ∀ ev ∈ evs, ev.edits = false)
    {c : ConnId} : .removed c ∈ hist ++ evs ↔ .removed c ∈ hist := by
  rw [List.mem_append]
  refine or_iff_left fun hev => ?_
  cases h _ hev

theorem accounted_start : Accounted .start where
  allocated e := by simp [Server.start, Registry.empty, announcements]
  count := rfl

section Step

variable {s t : Server} {c : ConnId} {hd : Handler} {r : Registry Announced}
  {conns : ConnId → Option Handler}

theorem Accounted.append (ha : Accounted s) (hi : Inv s) (hcl : ClosedAreClosing s)
    (hc : s.conns c = some hd) {e : Announced} (hpc : hd.pc = .append e) {newNode x : Addr}
    (hfree : s.shared.registry.cell newNode = none)
    (happ : s.shared.registry.appendInfo e newNode = some (r, x)) :
    Accounted ⟨conns, { s.shared with
      registry := r, history := s.shared.history ++ [.announced e] }⟩ := by
  obtain ⟨vis, orph, hshape⟩ := hi.shape
  obtain ⟨rfl, _, ⟨n, hn, hne⟩, hold⟩ := appendInfo_shape hshape hfree happ
  obtain ⟨rfl, _⟩ := hi.pending c hd hc e (by rw [hpc]; rfl)
  have hopen : .removed e.conn ∉ s.shared.history := by
    intro hmem
    obtain ⟨h, hh, hclosing⟩ := hcl e.conn (Or.inl hmem)
    rw [hc] at hh
    cases hh
    rw [hpc] at hclosing
    cases hclosing
  have hremoved : ∀ d, .removed d ∈ s.shared.history ++ [.announced e] ↔
      .removed d ∈ s.shared.history := by
    simp
  refine ⟨fun f => ?_, ?_⟩
  · show (∃ a n, r.cell a = some n ∧ n.info = f) ↔
      f ∈ announcements (s.shared.history ++ [.announced e]) ∧
        (.removed f.conn ∈ s.shared.history ++ [.announced e] →
          ∃ d ∈ announcements (s.shared.history ++ [.announced e]), _)
    rw [announcements_announced, hremoved]
    constructor
    · rintro ⟨a, m, hm, rfl⟩
      by_cases hax : a = x
      · subst hax
        rw [hn] at hm
        cases hm
        rw [hne]
        exact ⟨List.mem_append_right _ (List.mem_singleton_self _), fun h => absurd h hopen⟩
      · obtain ⟨m', hm', hmi⟩ := cell_of_info hm (hold a hax).symm
        obtain ⟨hmem, hlater⟩ := (ha.allocated m.info).mp ⟨a, m', hm', hmi⟩
        refine ⟨List.mem_append_left _ hmem, fun h => ?_⟩
        obtain ⟨d, hd, hlast⟩ := hlater h
        exact ⟨d, List.mem_append_left _ hd, hlast⟩
    · rintro ⟨hmem, hlater⟩
      rcases List.mem_append.mp hmem with hmem | hmem
      · have hlater' : .removed f.conn ∈ s.shared.history →
            ∃ d ∈ announcements s.shared.history, d.conn = f.conn ∧ f.nth < d.nth := by
          intro h
          obtain ⟨d, hd, hconn, hlt⟩ := hlater h
          rcases List.mem_append.mp hd with hd | hd
          · exact ⟨d, hd, hconn, hlt⟩
          · -- the new entry is of a connection that is open
            rw [List.mem_singleton.mp hd] at hconn
            exact absurd (hconn ▸ h) hopen
        obtain ⟨a, m, hm, hmf⟩ := (ha.allocated f).mpr ⟨hmem, hlater'⟩
        have hax : a ≠ x := by
          rintro rfl
          rw [hfree] at hm
          cases hm
        obtain ⟨m', hm', hmi⟩ := cell_of_info hm (hold a hax)
        exact ⟨a, m', hm', hmi.trans hmf⟩
      · rw [List.mem_singleton.mp hmem]
        exact ⟨x, n, hn, hne⟩
  · have hlive : r.live = s.shared.registry.live + 1 := by
      rw [hshape.appendInfo_eq hfree] at happ
      cases happ
      rfl
    have hcount := ha.count
    have hzero : removals [.announced e] = 0 := rfl
    show r.live + removals (s.shared.history ++ [.announced e]) =
      (announcements (s.shared.history ++ [.announced e])).length
    rw [removals_append, announcements_announced, List.length_append, hlive, hzero]
    simp only [List.length_singleton]
    omega

theorem removeInfo_live {x : Addr} (hrem : s.shared.registry.removeInfo x = some r) :
    r.live = s.shared.registry.live - 1 := by
  unfold removeInfo at hrem
  simp only [Option.bind_eq_bind, Option.bind_eq_some_iff] at hrem
  obtain ⟨n, _, cell, _, m, _, hrem⟩ := hrem
  cases hprev : m.prev with
  | none =>
      rw [hprev] at hrem
      cases hrem
      rfl
  | some prev =>
      rw [hprev] at hrem
      obtain ⟨_, _, hrem⟩ := Option.bind_eq_some_iff.mp hrem
      cases hrem
      rfl

theorem Accounted.remove (ha : Accounted s) (hi : Inv s) (hf : Mirrors s) (hn : Numbered s)
    (hcl : ClosedAreClosing s) (hc : s.conns c = some hd) (hpc : hd.pc = .remove)
    (hrem : hd.connInfo.bind s.shared.registry.removeInfo = some r) :
    Accounted ⟨conns, { s.shared with
      registry := r, history := s.shared.history ++ [.removed c] }⟩ := by
  obtain ⟨vis, orph, hshape⟩ := hi.shape
  have hcn : hd.isComputeNode = true := hi.removing c hd hc (by rw [hpc]; rfl)
  obtain ⟨x, n, hx, hcell, hlatest⟩ := hf.latest c hd hc hcn (by rw [hpc]; rfl)
  obtain ⟨hann, rfl, k, hk, hlast⟩ := hn.latest c n.info hlatest
  rw [hx, Option.bind_some] at hrem
  obtain ⟨_, hgone, hold⟩ := removeInfo_shape hshape hrem
  have hopen : .removed n.info.conn ∉ s.shared.history := by
    intro hmem
    obtain ⟨h, hh, hclosing⟩ := hcl n.info.conn (Or.inl hmem)
    rw [hc] at hh
    cases hh
    rw [hpc] at hclosing
    cases hclosing
  -- the other entries of the connection were announced before
  have hbefore : ∀ e ∈ announcements s.shared.history, e.conn = n.info.conn → e ≠ n.info →
      e.nth < n.info.nth := by
    intro e he hconn hne
    obtain ⟨y, hy, hlt⟩ := hn.below e he
    rw [hconn, hk] at hy
    cases hy
    have hnth : e.nth ≠ n.info.nth := fun heq => hne (hn.inj e he n.info hann hconn heq)
    omega
  have hann' : announcements (s.shared.history ++ [.removed n.info.conn]) =
      announcements s.shared.history := announcements_other (by simp)
  refine ⟨fun e => ?_, ?_⟩
  · show (∃ a m, r.cell a = some m ∧ m.info = e) ↔
      e ∈ announcements (s.shared.history ++ [.removed n.info.conn]) ∧
        (.removed e.conn ∈ s.shared.history ++ [.removed n.info.conn] →
          ∃ d ∈ announcements (s.shared.history ++ [.removed n.info.conn]), _)
    rw [hann']
    constructor
    · rintro ⟨a, m, hm, rfl⟩
      have hax : a ≠ x := by
        rintro rfl
        rw [hgone] at hm
        cases hm
      obtain ⟨m', hm', hmi⟩ := cell_of_info hm (hold a hax).symm
      obtain ⟨hmem, hlater⟩ := (ha.allocated m.info).mp ⟨a, m', hm', hmi⟩
      refine ⟨hmem, fun h => ?_⟩
      rcases List.mem_append.mp h with h | h
      · exact hlater h
      · have hconn : m.info.conn = n.info.conn := Event.removed.inj (List.mem_singleton.mp h)
        have hne : m.info ≠ n.info := fun heq =>
          hax (hf.distinct a x m' n hm' hcell (hmi.trans heq))
        exact ⟨n.info, hann, hconn.symm, hbefore m.info hmem hconn hne⟩
    · rintro ⟨hmem, hlater⟩
      have hne : e ≠ n.info := by
        rintro rfl
        obtain ⟨d, hd, hconn, hlt⟩ := hlater (List.mem_append_right _ (List.mem_singleton_self _))
        have := hbefore d hd hconn fun heq => by rw [heq] at hlt; exact lt_irrefl _ hlt
        omega
      obtain ⟨a, m, hm, rfl⟩ := (ha.allocated e).mpr
        ⟨hmem, fun h => hlater (List.mem_append_left _ h)⟩
      have hax : a ≠ x := by
        rintro rfl
        rw [hcell] at hm
        cases hm
        exact hne rfl
      obtain ⟨m', hm', hmi⟩ := cell_of_info hm (hold a hax)
      exact ⟨a, m', hm', hmi⟩
  · have hpos : 0 < s.shared.registry.live := by
      rw [hshape.count]
      exact List.length_pos_of_mem ((hshape.live x).mp (by rw [hcell]; rfl))
    have hcount := ha.count
    have hone : removals [.removed n.info.conn] = 1 := rfl
    show r.live + removals (s.shared.history ++ [.removed n.info.conn]) =
      (announcements (s.shared.history ++ [.removed n.info.conn])).length
    rw [removals_append, hann', removeInfo_live hrem, hone]
    omega

end Step

theorem accounted {s : Server} (h : mainServer.Reachable s) : Accounted s := by
  apply h.invariant_of
  · rintro _ rfl
    exact accounted_start
  · intro u l v hr ha hstep
    have hi := inv_of_reachable hr
    rcases step_cases hstep with ⟨ip, hc, rfl⟩ | ⟨hd, hd', sh', hc, he, rfl⟩
    · exact ⟨ha.allocated, ha.count⟩
    · rcases effect_registry he with ⟨hsame, _, _, _, _, evs, hhist, hquiet⟩ |
        ⟨_, e, r, x, hpc, _, hfree, happ, _, _, _, _, rfl⟩ | ⟨r, hpc, _, hrem, _, rfl⟩
      · have hann : announcements sh'.history = announcements u.shared.history := by
          rw [hhist, announcements_append, announcements_quiet hquiet, List.append_nil]
        refine ⟨fun e => ?_, ?_⟩
        · show (∃ a n, sh'.registry.cell a = some n ∧ n.info = e) ↔
            e ∈ announcements sh'.history ∧ (.removed e.conn ∈ sh'.history →
              ∃ d ∈ announcements sh'.history, _)
          rw [hann, hsame, hhist, removed_mem_quiet hquiet]
          exact ha.allocated e
        · show sh'.registry.live + removals sh'.history = (announcements sh'.history).length
          rw [hann, hsame, hhist, removals_append, removals_quiet hquiet]
          exact ha.count
      · exact ha.append hi (closedAreClosing hr) hc hpc hfree happ
      · exact ha.remove hi (mirrors hr) (numbered hr) (closedAreClosing hr) hc hpc hrem

/-- The heap of the main server holds the announcements of the connections that it has not
cleaned up, and of the others all but the last one: each clean-up frees one node. -/
theorem allocated_iff {s : Server} (h : mainServer.Reachable s) :
    (∀ e, (∃ a n, s.shared.registry.cell a = some n ∧ n.info = e) ↔
      e ∈ announcements s.shared.history ∧ (.removed e.conn ∈ s.shared.history →
        ∃ d ∈ announcements s.shared.history, d.conn = e.conn ∧ e.nth < d.nth)) ∧
      s.shared.registry.live + removals s.shared.history =
        (announcements s.shared.history).length :=
  ⟨(accounted h).allocated, (accounted h).count⟩

/-- The node of the first announcement stays. -/
theorem allocated_iff_run : ∃ s, mainServer.Reachable s ∧ removals s.shared.history = 1 ∧
    s.shared.registry.live = 1 ∧
      (∀ e, (∃ a n, s.shared.registry.cell a = some n ∧ n.info = e) ↔
        e ∈ announcements s.shared.history ∧ (.removed e.conn ∈ s.shared.history →
          ∃ d ∈ announcements s.shared.history, d.conn = e.conn ∧ e.nth < d.nth)) := by
  have hrun : (Server.start.exec anyStep announcesTwice).any (fun s =>
      decide (removals s.shared.history = 1 ∧ s.shared.registry.live = 1)) = true := by
    decide +kernel
  obtain ⟨s, hs, htest⟩ := (Option.any_eq_true _ _).mp hrun
  have hreach := reachable_of_run hs
  obtain ⟨hremovals, hlive⟩ := of_decide_eq_true htest
  exact ⟨s, hreach, hremovals, hlive, (allocated_iff hreach).1⟩

end Dicon.MainServer
