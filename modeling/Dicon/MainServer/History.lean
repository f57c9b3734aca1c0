import Dicon.MainServer.Invariant

/-!
# Histories of the main server

What a history says about announcements and replies, and how the steps extend
it. A law about replies relates each reply to the events before it
(`RepliesObey`); it survives a step as soon as the reply that the step adds, if
any, obeys it.
-/

namespace Dicon.MainServer

open Dicon.Framework Registry

/-- The announcements of a history, in the order of their `append_info`. -/
def announcements (hist : List Event) : List Announced :=
  hist.filterMap fun
    | .announced e => some e
    | _ => none

@[simp] theorem announcements_append (hist hist' : List Event) :
    announcements (hist ++ hist') = announcements hist ++ announcements hist' :=
  List.filterMap_append

theorem announcements_quiet {evs : List Event} (h : ∀ ev ∈ evs, ev.edits = false) :
    announcements evs = [] := by
  apply List.filterMap_eq_nil_iff.mpr
  intro ev hev
  cases ev with
  | announced e => cases h _ hev
  | _ => rfl

/-- Every reply stands in the relation `R` to the events before it. -/
def RepliesObey (R : List Event → List Announced → Prop) (hist : List Event) : Prop :=
  ∀ pre c es post, hist = pre ++ .replied c es :: post → R pre es

theorem repliesObey_nil (R : List Event → List Announced → Prop) : RepliesObey R [] := by
  intro pre c es post h
  simp at h

theorem RepliesObey.snoc {R : List Event → List Announced → Prop} {hist : List Event}
    {ev : Event} (h : RepliesObey R hist) (hev : ∀ c es, ev = .replied c es → R hist es) :
    RepliesObey R (hist ++ [ev]) := by
  intro pre c es post heq
  rcases List.eq_nil_or_concat post with rfl | ⟨post, last, rfl⟩
  · obtain ⟨rfl, hlast⟩ := List.append_inj' heq rfl
    exact hev c es (List.cons.inj hlast).1
  · rw [List.concat_eq_append, ← List.cons_append, ← List.append_assoc] at heq
    obtain ⟨hpre, _⟩ := List.append_inj' heq rfl
    exact h pre c es post hpre

section Effects

variable {c : ConnId} {h h' : Handler} {sh sh' : Shared} {a : Action}

/-- A step logs at most one event; it logs a reply only when it computes one
from the list. -/
theorem effect_history (he : Effect c h sh a h' sh') :
    sh'.history = sh.history ∨
      ∃ ev, sh'.history = sh.history ++ [ev] ∧
        ∀ d es, ev = .replied d es → h.pc = .collect ∧ sh.registry.collectInfo = some es := by
  cases he with
  | collect hpc hes =>
      refine Or.inr ⟨_, rfl, ?_⟩
      intro d es hev
      cases hev
      exact ⟨hpc, hes⟩
  | peerSend | peerAck | append | remove | destroy =>
      refine Or.inr ⟨_, rfl, ?_⟩
      intro d es hev
      cases hev
  | _ => exact Or.inl rfl

theorem RepliesObey.effect {R : List Event → List Announced → Prop}
    (ho : RepliesObey R sh.history) (he : Effect c h sh a h' sh')
    (hR : ∀ es, h.pc = .collect → sh.registry.collectInfo = some es → R sh.history es) :
    RepliesObey R sh'.history := by
  rcases effect_history he with hsame | ⟨ev, hev, hreply⟩
  · rw [hsame]
    exact ho
  · rw [hev]
    exact ho.snoc fun d es hd => hR es (hreply d es hd).1 (hreply d es hd).2

/-- The announcements of the history grow at an append and only there. -/
theorem effect_announcements (he : Effect c h sh a h' sh') :
    (announcements sh'.history = announcements sh.history ∧ h'.announces = h.announces) ∨
    ∃ e, h.pc = .append e ∧ announcements sh'.history = announcements sh.history ++ [e] ∧
      h'.announces = h.announces + 1 := by
  rcases effect_registry he with ⟨_, _, _, hann, _, evs, hhist, hquiet⟩ |
    ⟨_, e, _, _, hpc, _, _, _, _, _, hann, _, rfl⟩ | ⟨_, _, _, _, rfl, rfl⟩
  · refine Or.inl ⟨?_, hann⟩
    rw [hhist, announcements_append, announcements_quiet hquiet, List.append_nil]
  · exact Or.inr ⟨e, hpc, announcements_append _ _, hann⟩
  · refine Or.inl ⟨?_, rfl⟩
    rw [announcements_append]
    exact List.append_nil _

theorem effect_announcements_mono (he : Effect c h sh a h' sh') {e : Announced}
    (hmem : e ∈ announcements sh.history) : e ∈ announcements sh'.history := by
  rcases effect_announcements he with ⟨hsame, _⟩ | ⟨_, _, happ, _⟩
  · rw [hsame]
    exact hmem
  · rw [happ]
    exact List.mem_append_left _ hmem

/-- What holds of the announcements so far, and of one that is appended, holds of
all after the step. -/
theorem forall_announcements (he : Effect c h sh a h' sh') {P : Announced → Prop}
    (hold : ∀ e ∈ announcements sh.history, P e) (hnew : ∀ e, h.pc = .append e → P e) :
    ∀ e ∈ announcements sh'.history, P e := by
  intro e hmem
  rcases effect_announcements he with ⟨hsame, _⟩ | ⟨e', hpc, happ, _⟩
  · rw [hsame] at hmem
    exact hold e hmem
  · rw [happ] at hmem
    rcases List.mem_append.mp hmem with hmem | hmem
    · exact hold e hmem
    · rw [List.mem_singleton.mp hmem]
      exact hnew e' hpc

/-- Once a thread is past `remove_info` it stays there. -/
theorem effect_closing (he : Effect c h sh a h' sh') (hc : h.pc.closing = true) :
    h'.pc.closing = true := by
  cases he with
  | peerSend | peerClose | peerAck | peerOther => exact hc
  | overrun | appendFault | collectFault | removeFault => exact hc
  | recvHead hpc | recvBody hpc | bodyFail hpc | bodyDone hpc | append hpc | collect hpc
  | headFail hpc | headDone hpc =>
      rw [hpc] at hc
      cases hc
  | remove | destroy => rfl
  | lock hpc =>
      rcases afterLock_cases hpc with ⟨_, hp, _⟩ | ⟨hp, _⟩ | ⟨hp, _⟩ <;>
        (rw [hp] at hc; cases hc)
  | send hpc =>
      rcases afterSend_cases hpc with
        ⟨_, hp, _⟩ | ⟨_, hp, _⟩ | ⟨_, hp, _⟩ | ⟨_, hp, _⟩ <;> (rw [hp] at hc; cases hc)
  | unlock hpc =>
      rcases afterUnlock_cases hpc with ⟨hp, _⟩ | ⟨_, rfl⟩
      · rw [hp] at hc
        cases hc
      · rfl

/-- `removed c` and `finished c` are logged where the thread of `c` is then past
`remove_info`. -/
theorem effect_logs_closing (he : Effect c h sh a h' sh') {d : ConnId}
    (hd : Event.removed d ∈ sh'.history ∨ Event.finished d ∈ sh'.history) :
    (Event.removed d ∈ sh.history ∨ Event.finished d ∈ sh.history) ∨
      (d = c ∧ h'.pc.closing = true) := by
  cases he with
  | remove | destroy =>
      simp only [List.mem_append, List.mem_singleton] at hd
      rcases hd with (hd | hd) | (hd | hd)
      · exact Or.inl (Or.inl hd)
      · cases hd
        all_goals exact Or.inr ⟨rfl, rfl⟩
      · exact Or.inl (Or.inr hd)
      · cases hd
        all_goals exact Or.inr ⟨rfl, rfl⟩
  | peerSend | peerAck | append | collect =>
      simp only [List.mem_append, List.mem_singleton, reduceCtorEq, or_false] at hd
      exact Or.inl hd
  | _ => exact Or.inl hd

end Effects

/-- A connection that the history calls removed or finished is past
`remove_info`. -/
def ClosedAreClosing (s : Server) : Prop :=
  ∀ c, Event.removed c ∈ s.shared.history ∨ Event.finished c ∈ s.shared.history →
    ∃ h, s.conns c = some h ∧ h.pc.closing = true

theorem closedAreClosing_step {s t : Server} {l : ConnId × Action} (hi : ClosedAreClosing s)
    (h : mainServer.step s l t) : ClosedAreClosing t := by
  obtain ⟨c, a⟩ := l
  rcases step_cases h with ⟨ip, hc, rfl⟩ | ⟨hd, hd', sh', hc, he, rfl⟩
  · intro d hlog
    obtain ⟨x, hx, hcl⟩ := hi d hlog
    have hdc : d ≠ c := by
      rintro rfl
      rw [hc] at hx
      cases hx
    exact ⟨x, (Function.update_of_ne hdc _ _).trans hx, hcl⟩
  · intro d hlog
    show ∃ x, Function.update s.conns c (some hd') d = some x ∧ _
    rcases effect_logs_closing he hlog with hold | ⟨rfl, hcl⟩
    · obtain ⟨x, hx, hcl⟩ := hi d hold
      by_cases hdc : d = c
      · subst hdc
        rw [hc] at hx
        cases hx
        exact ⟨hd', Function.update_self _ _ _, effect_closing he hcl⟩
      · exact ⟨x, (Function.update_of_ne hdc _ _).trans hx, hcl⟩
    · exact ⟨hd', Function.update_self _ _ _, hcl⟩

theorem closedAreClosing {s : Server} (h : mainServer.Reachable s) : ClosedAreClosing s := by
  apply h.invariant
  · rintro _ rfl c (hc | hc) <;> simp [Server.start] at hc
  · intro _ _ _ hi hs
    exact closedAreClosing_step hi hs

end Dicon.MainServer
