import Dicon.Node.Sessions

/-!
# The connections that wait at a node

`listen_loop` serves one connection until its client closes it, and accepts the next one
then; `connect` succeeds before that. A client behind another one can send requests, and
no answer comes. Where all clients in front have closed, the answers are those of
`listen_loop` (`answerTo_listens`).
-/

namespace Dicon.Cluster

open Node

variable {ι : Type} [DecidableEq ι]

/-- A connection to a node, the `slot`-th one of its client, with the requests that were
sent on it so far. -/
structure Visitor (ι : Type) where
  client : ι
  slot : ℕ
  frames : List ReqFrame
  closed : Bool

def Visitor.Is (v : Visitor ι) (c : ι) (i : ℕ) : Prop := v.client = c ∧ v.slot = i

instance (v : Visitor ι) (c : ι) (i : ℕ) : Decidable (v.Is c i) :=
  inferInstanceAs (Decidable (_ ∧ _))

/-- What a node has done for the `i`-th connection of `c`, where each request on it has an
answer. It gets to a connection when those before it are closed. -/
def answerTo (env : ℕ → Sys) (c : ι) (i : ℕ) : ℕ → Node → List (Visitor ι) → Option Handled
  | _, _, [] => none
  | k, node, v :: vs =>
      (handleAll env k node v.frames).bind fun r =>
        if v.Is c i then if r.msgs.length = v.frames.length then some r else none
        else if v.closed then answerTo env c i (k + v.frames.length) r.node vs
        else none

/-- No two connections have the same client and slot. -/
def Distinct (vs : List (Visitor ι)) : Prop := vs.Pairwise fun v w => ¬ w.Is v.client v.slot

section

variable {env : ℕ → Sys} {c : ι} {i k : ℕ} {node : Node} {r : Handled}
  {v : Visitor ι} {pre post vs : List (Visitor ι)}

/-- Nobody is answered before those in front have closed. -/
theorem answerTo_closed (hd : Distinct vs) (h : answerTo env c i k node vs = some r) :
    vs.Pairwise fun v w => w.Is c i → v.closed = true := by
  induction vs generalizing k node with
  | nil => exact List.Pairwise.nil
  | cons v vs ih =>
      obtain ⟨hfirst, hrest⟩ := List.pairwise_cons.mp hd
      obtain ⟨q, _, hq⟩ := Option.bind_eq_some_iff.mp h
      by_cases hv : v.Is c i
      · -- there is no other connection of that name
        have hnone : ∀ w ∈ vs, ¬ w.Is c i := by
          intro w hw his
          exact hfirst w hw ⟨his.1.trans hv.1.symm, his.2.trans hv.2.symm⟩
        refine List.pairwise_cons.mpr ⟨fun w hw his => absurd his (hnone w hw), ?_⟩
        exact List.pairwise_iff_forall_sublist.mpr fun hsub his =>
          absurd his (hnone _ (hsub.subset (by simp)))
      · rw [if_neg hv] at hq
        split at hq
        · next hclosed => exact List.pairwise_cons.mpr ⟨fun _ _ _ => hclosed, ih hrest hq⟩
        · cases hq

/-- The answers behind connections that are closed. -/
theorem answerTo_front (hfront : ∀ u ∈ pre, u.closed = true ∧ ¬ u.Is c i) (hv : v.Is c i)
    (k : ℕ) (node : Node) : answerTo env c i k node (pre ++ v :: post) =
      (handleVisits env k node (pre.map Visitor.frames)).bind fun rs =>
        (handleAll env (k + (pre.flatMap Visitor.frames).length) (lastNode node rs)
          v.frames).bind fun r => if r.msgs.length = v.frames.length then some r else none := by
  induction pre generalizing k node with
  | nil =>
      rw [List.nil_append, answerTo]
      simp only [if_pos hv]
      rfl
  | cons u pre ih =>
      obtain ⟨⟨hclosed, hother⟩, hrest⟩ := List.forall_mem_cons.mp hfront
      rw [List.cons_append, answerTo, List.map_cons, handleVisits]
      cases handleAll env k node u.frames with
      | none => rfl
      | some q =>
          simp only [Option.bind_some, if_neg hother, if_pos hclosed, ih hrest]
          rw [List.flatMap_cons, List.length_append, Nat.add_assoc]
          cases handleVisits env (k + u.frames.length) q.node (pre.map Visitor.frames) <;> rfl

/-- One more client. -/
theorem handleVisits_snoc (k : ℕ) (node : Node) (fss : List (List ReqFrame))
    (fs : List ReqFrame) : handleVisits env k node (fss ++ [fs]) =
      (handleVisits env k node fss).bind fun rs =>
        (handleAll env (k + fss.flatten.length) (lastNode node rs) fs).map fun r => rs ++ [r] := by
  induction fss generalizing k node with
  | nil =>
      rw [List.nil_append, handleVisits]
      show (handleAll env k node fs).bind (fun r => some [r]) =
        (handleAll env k node fs).map fun r => [r]
      cases handleAll env k node fs <;> rfl
  | cons gs fss ih =>
      rw [List.cons_append, handleVisits, handleVisits]
      cases handleAll env k node gs with
      | none => rfl
      | some q =>
          simp only [Option.bind_some, ih]
          rw [List.flatten_cons, List.length_append, Nat.add_assoc]
          cases handleVisits env (k + gs.length) q.node fss with
          | none => rfl
          | some rs =>
              simp only [Option.bind_some, Option.map_some, Option.map_map]
              rfl

/-- What a connection got in the middle of things is what `listen_loop` sends to the last
of some clients that come one after another, with the requests so far. -/
theorem answerTo_listens (hfront : ∀ u ∈ pre, u.closed = true ∧ ¬ u.Is c i) (hv : v.Is c i)
    (h : answerTo env c i 0 node (pre ++ v :: post) = some r) {visits : List Visit} {last : Visit}
    (hvisits : visits.map Visit.requests = pre.map Visitor.frames)
    (hlast : last.requests = v.frames) {fuel : ℕ}
    (hfuel : ∀ w ∈ visits ++ [last], w.frames.length < fuel) :
    ∃ ts t, nodeListen env fuel 0 node ((visits ++ [last]).map fun w => some w.incoming) =
      some (.accepting r.node ts) ∧ ts.getLast? = some t ∧ ServedAs last r t := by
  rw [answerTo_front hfront hv, List.flatMap_def, ← hvisits, ← hlast] at h
  obtain ⟨rs, hrs, h⟩ := Option.bind_eq_some_iff.mp h
  obtain ⟨q, hq, h⟩ := Option.bind_eq_some_iff.mp h
  split at h
  · cases h
    have hall : handleVisits env 0 node ((visits ++ [last]).map Visit.requests) =
        some (rs ++ [r]) := by
      rw [List.map_append, List.map_singleton, handleVisits_snoc, hrs, Option.bind_some, hq]
      rfl
    have hlisten : ListenedAll env 0 node (visits ++ [last])
        (nodeListen env fuel 0 node ((visits ++ [last]).map fun w => some w.incoming)) :=
      nodeListen_serves hfuel
    rw [ListenedAll, hall] at hlisten
    obtain ⟨ts, ho, hrslen, htslen, hserved⟩ := hlisten
    -- the last one of them is `last`
    have hone : rs.length = visits.length := by simpa using hrslen
    have hlt : visits.length < ts.length := by
      rw [htslen, List.length_append, List.length_singleton]
      exact Nat.lt_succ_self _
    obtain ⟨t, ht⟩ : ∃ t, ts[visits.length]? = some t := ⟨_, List.getElem?_eq_getElem hlt⟩
    refine ⟨ts, t, ?_, ?_, hserved visits.length last r t (by simp) (by simp [← hone]) ht⟩
    · rw [ho, lastNode, List.foldl_append]
      rfl
    · rw [List.getLast?_eq_getElem?, htslen, List.length_append, List.length_singleton,
        Nat.add_sub_cancel, ht]
  · cases h

/-! ## Nodes that answer -/

/-- Whatever requests of a kind reach the node, in whatever order, their handlers return
and answer. -/
def Returns (env : ℕ → Sys) (node : Node) (F : ReqFrame → Prop) : Prop :=
  ∀ fs, (∀ f ∈ fs, F f) → ∃ r, handleAll env 0 node fs = some r ∧ r.msgs.length = fs.length

theorem handleAll_msgs_le {k : ℕ} {node : Node} {fs : List ReqFrame} {r : Handled}
    (h : handleAll env k node fs = some r) : r.msgs.length ≤ fs.length := by
  induction fs generalizing k node r with
  | nil =>
      cases h
      exact le_rfl
  | cons f fs ih =>
      obtain ⟨⟨node', msg⟩, _, hrest⟩ := Option.bind_eq_some_iff.mp h
      obtain ⟨q, hq, rfl⟩ := Option.map_eq_some_iff.mp hrest
      have hle := ih hq
      have hone : msg.toList.length ≤ 1 := by
        cases msg <;> simp
      simp only [List.length_append, List.length_cons]
      omega

/-- Where all requests are answered, those of each part are. -/
theorem handleAll_parts {k : ℕ} {node : Node} {fs gs : List ReqFrame} {r : Handled}
    (h : handleAll env k node (fs ++ gs) = some r)
    (hall : r.msgs.length = (fs ++ gs).length) :
    ∃ q q', handleAll env k node fs = some q ∧ q.msgs.length = fs.length ∧
      handleAll env (k + fs.length) q.node gs = some q' ∧ q'.msgs.length = gs.length := by
  rw [handleAll_append] at h
  obtain ⟨q, hq, hrest⟩ := Option.bind_eq_some_iff.mp h
  obtain ⟨q', hq', rfl⟩ := Option.map_eq_some_iff.mp hrest
  have hle := handleAll_msgs_le hq
  have hle' := handleAll_msgs_le hq'
  simp only [List.length_append] at hall
  exact ⟨q, q', hq, by omega, hq', by omega⟩

/-- A connection is answered as soon as those in front of it are closed. -/
theorem answerTo_isSome (hfront : ∀ u ∈ pre, u.closed = true ∧ ¬ u.Is c i) (hv : v.Is c i)
    {k : ℕ} {node : Node}
    (h : handleAll env k node ((pre ++ [v]).flatMap Visitor.frames) = some r)
    (hall : r.msgs.length = ((pre ++ [v]).flatMap Visitor.frames).length) :
    (answerTo env c i k node (pre ++ v :: post)).isSome := by
  induction pre generalizing k node r with
  | nil =>
      rw [List.nil_append, List.flatMap_singleton] at h hall
      rw [List.nil_append, answerTo, h, Option.bind_some, if_pos hv, if_pos hall]
      rfl
  | cons u pre ih =>
      obtain ⟨⟨hclosed, hother⟩, hrest⟩ := List.forall_mem_cons.mp hfront
      rw [List.cons_append, List.flatMap_cons] at h hall
      obtain ⟨q, q', hq, _, hq', hall'⟩ := handleAll_parts h hall
      rw [List.cons_append, answerTo, hq, Option.bind_some, if_neg hother, if_pos hclosed]
      exact ih hrest hq' hall'

end

end Dicon.Cluster
