import Dicon.Cluster.Backlog
import Dicon.Framework.Transition

/-!
# Client programs that share nodes

Any number of client programs, each of which connects to nodes one after another
(`dic_nodes_connect_all`), then makes remote calls on its connections, and destroys them.
Each node serves its connections one by one, so a call waits for all programs that
connected to that node before. A limited number of connections may wait to be accepted
(`listen` is called with 8); after that `connect` waits as well.
-/

namespace Dicon.Cluster

open Framework Node

/-! ## Programs -/

/-- What a program does once it is connected. A request may depend on what was received on
each connection. -/
inductive Use
  | call (slot : ℕ) (request : (ℕ → List UInt8) → ReqFrame)
  | destroy (slot : ℕ)

def Use.slot : Use → ℕ
  | .call i _ | .destroy i => i

/-- There is a call on the connection, and no connection is destroyed before it. -/
def CalledFirst (body : List Use) (i : ℕ) : Prop :=
  ∃ (k : ℕ) (request : (ℕ → List UInt8) → ReqFrame), body[k]? = some (.call i request) ∧
    ∀ (l : ℕ) (j : ℕ), l < k → body[l]? ≠ some (.destroy j)

/-- A client program, with the nodes that it connects to. It calls on each connection
before it destroys any, destroys each of them, and uses none after that. -/
structure Client where
  nodes : List ℕ
  body : List Use
  slots : ∀ u ∈ body, u.slot < nodes.length
  calls : ∀ i < nodes.length, CalledFirst body i
  destroys : ∀ i < nodes.length, Use.destroy i ∈ body
  gone : body.Pairwise fun u w => ∀ i, u = Use.destroy i → w.slot ≠ i

/-- The node of a connection. -/
def Client.node (p : Client) (i : ℕ) : ℕ := p.nodes.getD i 0

/-- A program that makes one call on each connection. -/
def Client.once (nodes : List ℕ) (f : ReqFrame) : Client where
  nodes := nodes
  body := (List.range nodes.length).map (fun i => .call i fun _ => f) ++
    (List.range nodes.length).map .destroy
  slots := by
    intro u hu
    rcases List.mem_append.mp hu with hu | hu
    all_goals
      obtain ⟨i, hi, rfl⟩ := List.mem_map.mp hu
      exact List.mem_range.mp hi
  calls := by
    intro i hi
    have hcall : ∀ k < nodes.length, ((List.range nodes.length).map
        (fun i => Use.call i fun _ => f) ++ (List.range nodes.length).map .destroy)[k]? =
          some (.call k fun _ => f) := by
      intro k hk
      rw [List.getElem?_append_left (by simpa using hk), List.getElem?_map,
        List.getElem?_range hk]
      rfl
    refine ⟨i, fun _ => f, hcall i hi, fun l j hl hdestroy => ?_⟩
    rw [hcall l (hl.trans hi)] at hdestroy
    cases hdestroy
  destroys := fun i hi => List.mem_append_right _
    (List.mem_map_of_mem (List.mem_range.mpr hi))
  gone := by
    have hcalls : ∀ u ∈ (List.range nodes.length).map (fun i => Use.call i fun _ => f),
        ∀ i, u ≠ .destroy i := by
      intro u hu i hdestroy
      obtain ⟨j, _, rfl⟩ := List.mem_map.mp hu
      cases hdestroy
    refine List.pairwise_append.mpr ⟨?_, ?_, fun u hu w _ i hdestroy =>
      absurd hdestroy (hcalls u hu i)⟩
    · exact List.pairwise_iff_forall_sublist.mpr fun hsub i hdestroy =>
        absurd hdestroy (hcalls _ (hsub.subset List.mem_cons_self) i)
    · refine List.pairwise_map.mpr (List.nodup_range.imp fun {k l} hne i hdestroy hslot => ?_)
      cases hdestroy
      exact hne hslot.symm

variable {ι : Type} [DecidableEq ι]

/-- Where each program is: how many connections it has, what it does next, and whether it
waits in `dic_atomic_send_recv`; and for each node the connections in the order of their
`connect`. -/
structure Crowd (ι : Type) where
  dialed : ι → ℕ
  pc : ι → ℕ
  waiting : ι → Bool
  got : ι → ℕ → List UInt8
  queue : ℕ → List (Visitor ι)

namespace Crowd

def start : Crowd ι := ⟨fun _ => 0, fun _ => 0, fun _ => false, fun _ _ => [], fun _ => []⟩

/-- `dic_node_connect` -/
def connect (s : Crowd ι) (c : ι) (n : ℕ) : Crowd ι :=
  { s with
    dialed := Function.update s.dialed c (s.dialed c + 1)
    queue := Function.update s.queue n (s.queue n ++ [⟨c, s.dialed c, [], false⟩]) }

/-- A change of one connection. -/
def edit (s : Crowd ι) (n : ℕ) (c : ι) (i : ℕ) (f : Visitor ι → Visitor ι) :
    ℕ → List (Visitor ι) :=
  Function.update s.queue n ((s.queue n).map fun v => if v.Is c i then f v else v)

def send (s : Crowd ι) (c : ι) (n i : ℕ) (f : ReqFrame) : Crowd ι :=
  { s with
    waiting := Function.update s.waiting c true
    queue := s.edit n c i fun v => { v with frames := v.frames ++ [f] } }

def receive (s : Crowd ι) (c : ι) (i : ℕ) (sent : List UInt8) : Crowd ι :=
  { s with
    waiting := Function.update s.waiting c false
    pc := Function.update s.pc c (s.pc c + 1)
    got := Function.update s.got c (Function.update (s.got c) i sent) }

/-- `dic_conn_destroy` -/
def close (s : Crowd ι) (c : ι) (n i : ℕ) : Crowd ι :=
  { s with
    pc := Function.update s.pc c (s.pc c + 1)
    queue := s.edit n c i fun v => { v with closed := true } }

/-- The next step of the program `c`; none while it waits for an answer, or for its turn
to connect. Besides the connection that it serves, a node has `room` others that wait. -/
def step? (prog : ι → Client) (room : ℕ) (env : ℕ → ℕ → Sys) (fresh : ℕ → Node) (s : Crowd ι)
    (c : ι) : Option (Crowd ι) :=
  match (prog c).nodes[s.dialed c]? with
  | some n => if (s.queue n).countP (fun v => !v.closed) ≤ room then some (s.connect c n) else none
  | none =>
      match (prog c).body[s.pc c]? with
      | none => none
      | some (.destroy i) => some (s.close c ((prog c).node i) i)
      | some (.call i request) =>
          if s.waiting c then
            (answerTo (env ((prog c).node i)) c i 0 (fresh ((prog c).node i))
              (s.queue ((prog c).node i))).map fun r => s.receive c i r.sent
          else some (s.send c ((prog c).node i) i (request (s.got c)))

/-- The connections of a node, by program and slot. -/
def names (s : Crowd ι) (n : ℕ) : List (ι × ℕ) := (s.queue n).map fun v => (v.client, v.slot)

/-- `e` connected to a node before `d` did, or before `d` does so next. -/
def Ahead (prog : ι → Client) (s : Crowd ι) (e d : ι) : Prop :=
  ∃ n i, (e, i) ∈ s.names n ∧
    ((prog d).nodes[s.dialed d]? = some n ∨ ∃ j, [(e, i), (d, j)].Sublist (s.names n))

/-- The program has come to its end. -/
def Done (prog : ι → Client) (s : Crowd ι) (c : ι) : Prop :=
  s.dialed c = (prog c).nodes.length ∧ s.pc c = (prog c).body.length

end Crowd

/-- All programs and nodes. A label is the program that takes a step. -/
def crowd (prog : ι → Client) (room : ℕ) (env : ℕ → ℕ → Sys) (fresh : ℕ → Node) :
    Lts (Crowd ι) ι where
  init s := s = .start
  step s c t := s.step? prog room env fresh c = some t

/-! ## Steps -/

section Steps

variable {prog : ι → Client} {room : ℕ} {env : ℕ → ℕ → Sys} {fresh : ℕ → Node}
  {s t : Crowd ι} {c : ι}

/-- Everything that a program can do. -/
theorem crowd_cases (h : (crowd prog room env fresh).step s c t) :
    (∃ n, (prog c).nodes[s.dialed c]? = some n ∧
      (s.queue n).countP (fun v => !v.closed) ≤ room ∧ t = s.connect c n) ∨
    (prog c).nodes.length ≤ s.dialed c ∧
      ((∃ i, (prog c).body[s.pc c]? = some (.destroy i) ∧ t = s.close c ((prog c).node i) i) ∨
       (∃ i request, (prog c).body[s.pc c]? = some (.call i request) ∧ s.waiting c = false ∧
          t = s.send c ((prog c).node i) i (request (s.got c))) ∨
       (∃ i request r, (prog c).body[s.pc c]? = some (.call i request) ∧ s.waiting c = true ∧
          answerTo (env ((prog c).node i)) c i 0 (fresh ((prog c).node i))
            (s.queue ((prog c).node i)) = some r ∧ t = s.receive c i r.sent)) := by
  have hstep : s.step? prog room env fresh c = some t := h
  unfold Crowd.step? at hstep
  split at hstep
  · next n hn =>
      split at hstep
      · next hroom => exact Or.inl ⟨n, hn, hroom, (Option.some.inj hstep).symm⟩
      · cases hstep
  · next hnone =>
      refine Or.inr ⟨List.getElem?_eq_none_iff.mp hnone, ?_⟩
      split at hstep
      · cases hstep
      · next i hbody => exact Or.inl ⟨i, hbody, (Option.some.inj hstep).symm⟩
      · next i request hbody =>
          refine Or.inr ?_
          split at hstep
          · next hwait =>
              obtain ⟨r, hr, rfl⟩ := Option.map_eq_some_iff.mp hstep
              exact Or.inr ⟨i, request, r, hbody, hwait, hr, rfl⟩
          · next hwait =>
              exact Or.inl ⟨i, request, hbody, Bool.not_eq_true _ ▸ hwait,
                (Option.some.inj hstep).symm⟩

/-- Changing a connection keeps its name. -/
theorem names_edit (s : Crowd ι) (n : ℕ) (c : ι) (i : ℕ) (f : Visitor ι → Visitor ι)
    (hf : ∀ v, (f v).client = v.client ∧ (f v).slot = v.slot) (m : ℕ) :
    (s.edit n c i f m).map (fun v => (v.client, v.slot)) = s.names m := by
  unfold Crowd.edit
  by_cases hm : m = n
  · subst hm
    rw [Function.update_self, List.map_map]
    refine List.map_congr_left fun v _ => ?_
    by_cases hv : v.Is c i
    · simp [hv, hf v]
    · simp [hv]
  · rw [Function.update_of_ne hm]
    rfl

theorem queue_connect (s : Crowd ι) (c : ι) (n m : ℕ) : (s.connect c n).queue m =
    if m = n then s.queue n ++ [⟨c, s.dialed c, [], false⟩] else s.queue m := by
  by_cases hm : m = n
  · subst hm
    rw [if_pos rfl]
    exact Function.update_self ..
  · rw [if_neg hm]
    exact Function.update_of_ne hm ..

theorem names_connect (s : Crowd ι) (c : ι) (n m : ℕ) : (s.connect c n).names m =
    if m = n then s.names n ++ [(c, s.dialed c)] else s.names m := by
  rw [Crowd.names, queue_connect]
  split
  · rw [List.map_append]
    rfl
  · rfl

theorem mem_names_connect {s : Crowd ι} {c d : ι} {n m i : ℕ} :
    (d, i) ∈ (s.connect c n).names m ↔ (d, i) ∈ s.names m ∨ m = n ∧ d = c ∧ i = s.dialed c := by
  rw [names_connect]
  split
  · next hm =>
      subst hm
      rw [List.mem_append, List.mem_singleton, Prod.mk.injEq]
      exact or_congr_right (and_iff_right rfl).symm
  · next hm => exact (or_iff_left fun h => hm h.1).symm

theorem names_send (s : Crowd ι) (c : ι) (n i : ℕ) (f : ReqFrame) (m : ℕ) :
    (s.send c n i f).names m = s.names m :=
  names_edit s n c i (fun v => { v with frames := v.frames ++ [f] }) (fun _ => ⟨rfl, rfl⟩) m

theorem names_close (s : Crowd ι) (c : ι) (n i : ℕ) (m : ℕ) :
    (s.close c n i).names m = s.names m :=
  names_edit s n c i (fun v => { v with closed := true }) (fun _ => ⟨rfl, rfl⟩) m

/-- What was in a changed queue before. -/
theorem mem_edit {s : Crowd ι} {n i m : ℕ} {c : ι} {f : Visitor ι → Visitor ι} {v : Visitor ι}
    (h : v ∈ s.edit n c i f m) : ∃ u ∈ s.queue m,
      (m = n ∧ u.Is c i ∧ v = f u) ∨ (¬ (m = n ∧ u.Is c i) ∧ v = u) := by
  unfold Crowd.edit at h
  by_cases hm : m = n
  · subst hm
    rw [Function.update_self] at h
    obtain ⟨u, hu, rfl⟩ := List.mem_map.mp h
    refine ⟨u, hu, ?_⟩
    by_cases his : u.Is c i
    · exact Or.inl ⟨rfl, his, if_pos his⟩
    · exact Or.inr ⟨fun hand => his hand.2, if_neg his⟩
  · rw [Function.update_of_ne hm] at h
    exact ⟨v, h, Or.inr ⟨fun hand => hm hand.1, rfl⟩⟩

/-- A property of pairs, in a changed queue. -/
theorem pairwise_edit {n i m : ℕ} {f : Visitor ι → Visitor ι} {R R' : Visitor ι → Visitor ι → Prop}
    (h : (s.queue m).Pairwise R)
    (hR : ∀ v w, R v w → ∀ v' w', (v' = v ∨ v' = f v) → (w' = w ∨ w' = f w) → R' v' w') :
    (s.edit n c i f m).Pairwise R' := by
  have hchange : ∀ v : Visitor ι, (if v.Is c i then f v else v) = v ∨
      (if v.Is c i then f v else v) = f v := by
    intro v
    split
    · exact Or.inr rfl
    · exact Or.inl rfl
  unfold Crowd.edit
  by_cases hm : m = n
  · subst hm
    rw [Function.update_self, List.pairwise_map]
    exact h.imp fun hvw => hR _ _ hvw _ _ (hchange _) (hchange _)
  · rw [Function.update_of_ne hm]
    exact h.imp fun hvw => hR _ _ hvw _ _ (Or.inl rfl) (Or.inl rfl)

end Steps

/-! ## What holds in every run -/

section Runs

variable (prog : ι → Client)

/-- The program has got the answer to a call on the connection. -/
def Crowd.Called (s : Crowd ι) (c : ι) (i : ℕ) : Prop :=
  ∃ k, k < s.pc c ∧ ∃ request, (prog c).body[k]? = some (.call i request)

def Crowd.Destroyed (s : Crowd ι) (c : ι) (i : ℕ) : Prop :=
  ∃ k, k < s.pc c ∧ (prog c).body[k]? = some (.destroy i)

/-- The connections are those that the programs have opened, those that they have
destroyed are closed, and those in front of one that was answered are closed. -/
structure Crowd.Ok (F : ReqFrame → Prop) (s : Crowd ι) : Prop where
  dialed : ∀ c, s.dialed c ≤ (prog c).nodes.length
  early : ∀ c, s.dialed c < (prog c).nodes.length → s.pc c = 0 ∧ s.waiting c = false
  length : ∀ c, s.pc c ≤ (prog c).body.length
  names : ∀ n c i, (c, i) ∈ s.names n ↔ i < s.dialed c ∧ (prog c).node i = n
  nodup : ∀ n, (s.names n).Nodup
  closed : ∀ n v, v ∈ s.queue n → (v.closed = true ↔ s.Destroyed prog v.client v.slot)
  frames : ∀ n v, v ∈ s.queue n → ∀ f ∈ v.frames, F f
  front : ∀ n, (s.queue n).Pairwise fun v w => s.Called prog w.client w.slot → v.closed = true

end Runs

section Kept

variable {prog : ι → Client} {F : ReqFrame → Prop} {s : Crowd ι} {c : ι}

/-- One more thing done by one program. -/
theorem lt_update_succ (pc : ι → ℕ) (d : ι) (k : ℕ) :
    k < Function.update pc c (pc c + 1) d ↔ k < pc d ∨ (d = c ∧ k = pc c) := by
  by_cases hd : d = c
  · subst hd
    rw [Function.update_self, Nat.lt_succ_iff_lt_or_eq]
    exact or_congr_right (iff_and_self.mpr fun _ => rfl)
  · rw [Function.update_of_ne hd]
    exact (or_iff_left fun h => hd h.1).symm

theorem exists_lt_update (P : ι → ℕ → Prop) (pc : ι → ℕ) (d : ι) :
    (∃ k, k < Function.update pc c (pc c + 1) d ∧ P d k) ↔
      (∃ k, k < pc d ∧ P d k) ∨ (d = c ∧ P c (pc c)) := by
  simp only [lt_update_succ, or_and_right, exists_or]
  refine or_congr_right ⟨?_, ?_⟩
  · rintro ⟨k, ⟨rfl, rfl⟩, hp⟩
    exact ⟨rfl, hp⟩
  · rintro ⟨rfl, hp⟩
    exact ⟨_, ⟨rfl, rfl⟩, hp⟩

theorem called_succ {t : Crowd ι} (hpc : t.pc = Function.update s.pc c (s.pc c + 1)) (d : ι)
    (j : ℕ) : t.Called prog d j ↔ s.Called prog d j ∨
      (d = c ∧ ∃ request, (prog c).body[s.pc c]? = some (.call j request)) := by
  unfold Crowd.Called
  rw [hpc]
  exact exists_lt_update (fun d k => ∃ request, (prog d).body[k]? = some (.call j request)) s.pc d

theorem destroyed_succ {t : Crowd ι} (hpc : t.pc = Function.update s.pc c (s.pc c + 1)) (d : ι)
    (j : ℕ) : t.Destroyed prog d j ↔ s.Destroyed prog d j ∨
      (d = c ∧ (prog c).body[s.pc c]? = some (.destroy j)) := by
  unfold Crowd.Destroyed
  rw [hpc]
  exact exists_lt_update (fun d k => (prog d).body[k]? = some (.destroy j)) s.pc d

omit [DecidableEq ι] in
theorem Crowd.Ok.distinct (h : s.Ok prog F) {n : ℕ} : Distinct (s.queue n) := by
  refine (List.pairwise_map.mp (h.nodup n)).imp ?_
  intro v w hne his
  exact hne (Prod.ext his.1.symm his.2.symm)

theorem Crowd.Ok.connect (h : s.Ok prog F) {n : ℕ} (hn : (prog c).nodes[s.dialed c]? = some n) :
    (s.connect c n).Ok prog F := by
  obtain ⟨hlt, _⟩ := List.getElem?_eq_some_iff.mp hn
  have hnode : (prog c).node (s.dialed c) = n := by
    rw [Client.node, List.getD_eq_getElem?_getD, hn]
    rfl
  obtain ⟨hpc, hidle⟩ := h.early c hlt
  have hnew : (c, s.dialed c) ∉ s.names n := fun hmem =>
    absurd ((h.names n c _).mp hmem).1 (lt_irrefl _)
  -- nothing was done on the new connection
  have hfresh : ∀ P : ℕ → Prop, ¬ ∃ k, k < s.pc c ∧ P k := by
    rintro P ⟨k, hk, _⟩
    rw [hpc] at hk
    exact absurd hk (Nat.not_lt_zero k)
  have hqueue : ∀ m v, v ∈ (s.connect c n).queue m →
      v ∈ s.queue m ∨ v = ⟨c, s.dialed c, [], false⟩ := by
    intro m v hv
    rw [queue_connect] at hv
    split at hv
    · next hm =>
        subst hm
        exact (List.mem_append.mp hv).imp_right List.mem_singleton.mp
    · exact Or.inl hv
  refine ⟨?_, ?_, h.length, ?_, ?_, ?_, ?_, ?_⟩
  · exact (Function.forall_update_iff _ fun d k => k ≤ (prog d).nodes.length).mpr
      ⟨hlt, fun d _ => h.dialed d⟩
  · exact (Function.forall_update_iff _ fun d k => k < (prog d).nodes.length →
      s.pc d = 0 ∧ s.waiting d = false).mpr ⟨fun _ => ⟨hpc, hidle⟩, fun d _ => h.early d⟩
  · intro m d i
    show _ ↔ i < Function.update s.dialed c (s.dialed c + 1) d ∧ _
    rw [mem_names_connect, lt_update_succ, h.names, or_and_right]
    refine or_congr_right ⟨?_, ?_⟩
    · rintro ⟨rfl, rfl, rfl⟩
      exact ⟨⟨rfl, rfl⟩, hnode⟩
    · rintro ⟨⟨rfl, rfl⟩, hm⟩
      exact ⟨hm.symm.trans hnode, rfl, rfl⟩
  · intro m
    rw [names_connect]
    split
    · exact List.nodup_append.mpr ⟨h.nodup n, List.pairwise_singleton _ _, fun x hx y hy heq =>
        hnew (by rw [← List.mem_singleton.mp hy, ← heq]; exact hx)⟩
    · exact h.nodup m
  · intro m v hv
    rcases hqueue m v hv with hv | rfl
    · exact h.closed m v hv
    · exact ⟨fun hc => (nomatch hc), fun hd => absurd hd (hfresh _)⟩
  · intro m v hv
    rcases hqueue m v hv with hv | rfl
    · exact h.frames m v hv
    · exact fun f hf => (nomatch hf)
  · intro m
    rw [queue_connect]
    split
    · next hm =>
        subst hm
        refine List.pairwise_append.mpr ⟨h.front m, List.pairwise_singleton _ _, ?_⟩
        intro v _ w hw hcalled
        rw [List.mem_singleton] at hw
        subst hw
        exact absurd hcalled (hfresh _)
    · exact h.front m

omit [DecidableEq ι] in
theorem ne_of_connecting {d : ι} (hdone : (prog c).nodes.length ≤ s.dialed c)
    (hd : s.dialed d < (prog d).nodes.length) : d ≠ c := by
  rintro rfl
  exact absurd hd (Nat.not_lt.mpr hdone)

theorem Crowd.Ok.send (h : s.Ok prog F) (hdone : (prog c).nodes.length ≤ s.dialed c) {i n : ℕ}
    {f : ReqFrame} (hf : F f) : (s.send c n i f).Ok prog F := by
  have hold : ∀ m v, v ∈ (s.send c n i f).queue m → ∃ u ∈ s.queue m, v.client = u.client ∧
      v.slot = u.slot ∧ v.closed = u.closed ∧ ∀ g ∈ v.frames, g ∈ u.frames ∨ g = f := by
    intro m v hv
    obtain ⟨u, hu, ⟨_, _, rfl⟩ | ⟨_, rfl⟩⟩ := mem_edit hv
    · exact ⟨u, hu, rfl, rfl, rfl, fun g hg =>
        (List.mem_append.mp hg).imp_right List.mem_singleton.mp⟩
    · exact ⟨v, hu, rfl, rfl, rfl, fun g hg => Or.inl hg⟩
  refine ⟨h.dialed, fun d hd => ?_, h.length, fun m d j => ?_, fun m => ?_, fun m v hv => ?_,
    fun m v hv g hg => ?_, fun m => ?_⟩
  · have hne := ne_of_connecting hdone hd
    refine ⟨(h.early d hd).1, ?_⟩
    show Function.update s.waiting c true d = false
    rw [Function.update_of_ne hne]
    exact (h.early d hd).2
  · rw [names_send]
    exact h.names m d j
  · rw [names_send]
    exact h.nodup m
  · obtain ⟨u, hu, hclient, hslot, hclosed, _⟩ := hold m v hv
    rw [hclient, hslot, hclosed]
    exact h.closed m u hu
  · obtain ⟨u, hu, _, _, _, hframes⟩ := hold m v hv
    rcases hframes g hg with hg | rfl
    · exact h.frames m u hu g hg
    · exact hf
  · refine pairwise_edit (h.front m) ?_
    rintro v w hvw v' w' (rfl | rfl) (rfl | rfl) <;> exact hvw

theorem Crowd.Ok.close (h : s.Ok prog F) (hdone : (prog c).nodes.length ≤ s.dialed c) {i : ℕ}
    (hbody : (prog c).body[s.pc c]? = some (.destroy i)) :
    (s.close c ((prog c).node i) i).Ok prog F := by
  obtain ⟨hlt, _⟩ := List.getElem?_eq_some_iff.mp hbody
  have hcalled : ∀ d j, (s.close c ((prog c).node i) i).Called prog d j → s.Called prog d j := by
    intro d j hd
    rcases (called_succ rfl d j).mp hd with hd | ⟨_, request, hcall⟩
    · exact hd
    · rw [hbody] at hcall
      cases hcall
  have hdestroyed : ∀ d j, (s.close c ((prog c).node i) i).Destroyed prog d j ↔
      s.Destroyed prog d j ∨ (d = c ∧ i = j) := by
    intro d j
    rw [destroyed_succ rfl, hbody, Option.some.injEq, Use.destroy.injEq]
  refine ⟨h.dialed, ?_, ?_, fun m d j => ?_, fun m => ?_, fun m v hv => ?_, fun m v hv => ?_,
    fun m => ?_⟩
  · intro d hd
    have hne := ne_of_connecting hdone hd
    refine ⟨?_, (h.early d hd).2⟩
    show Function.update s.pc c _ d = 0
    rw [Function.update_of_ne hne]
    exact (h.early d hd).1
  · exact (Function.forall_update_iff _ fun d k => k ≤ (prog d).body.length).mpr
      ⟨hlt, fun d _ => h.length d⟩
  · rw [names_close]
    exact h.names m d j
  · rw [names_close]
    exact h.nodup m
  · rw [hdestroyed]
    obtain ⟨u, hu, ⟨_, his, rfl⟩ | ⟨hnot, rfl⟩⟩ := mem_edit hv
    · exact ⟨fun _ => Or.inr ⟨his.1, his.2.symm⟩, fun _ => rfl⟩
    · rw [h.closed m v hu]
      refine ⟨Or.inl, fun hd => hd.resolve_right ?_⟩
      rintro ⟨hclient, hslot⟩
      -- that is the connection that was changed
      have hin : (v.client, v.slot) ∈ s.names m := List.mem_map_of_mem hu
      have hnode := ((h.names m _ _).mp hin).2
      rw [hclient, ← hslot] at hnode
      exact hnot ⟨hnode.symm, hclient, hslot.symm⟩
  · obtain ⟨u, hu, ⟨_, _, rfl⟩ | ⟨_, rfl⟩⟩ := mem_edit hv
    · exact h.frames m u hu
    · exact h.frames m v hu
  · refine pairwise_edit (h.front m) ?_
    rintro v w hvw v' w' (rfl | rfl) (rfl | rfl) hw
    · exact hvw (hcalled _ _ hw)
    · exact hvw (hcalled _ _ hw)
    · rfl
    · rfl

theorem Crowd.Ok.receive (h : s.Ok prog F) (hdone : (prog c).nodes.length ≤ s.dialed c) {i : ℕ}
    {request : (ℕ → List UInt8) → ReqFrame}
    (hbody : (prog c).body[s.pc c]? = some (.call i request))
    {env : ℕ → Sys} {node : Node} {r : Handled} (sent : List UInt8)
    (hr : answerTo env c i 0 node (s.queue ((prog c).node i)) = some r) :
    (s.receive c i sent).Ok prog F := by
  obtain ⟨hlt, _⟩ := List.getElem?_eq_some_iff.mp hbody
  have hdestroyed : ∀ d j, (s.receive c i sent).Destroyed prog d j ↔ s.Destroyed prog d j := by
    intro d j
    rw [destroyed_succ rfl, hbody]
    simp
  have hcalled : ∀ d j, (s.receive c i sent).Called prog d j →
      s.Called prog d j ∨ (d = c ∧ j = i) := by
    intro d j hd
    refine ((called_succ rfl d j).mp hd).imp_right ?_
    rintro ⟨hdc, request', hcall⟩
    rw [hbody] at hcall
    cases hcall
    exact ⟨hdc, rfl⟩
  refine ⟨h.dialed, ?_, ?_, h.names, h.nodup, fun m v hv => ?_, h.frames, fun m => ?_⟩
  · intro d hd
    have hne := ne_of_connecting hdone hd
    show Function.update s.pc c _ d = 0 ∧ Function.update s.waiting c _ d = false
    rw [Function.update_of_ne hne, Function.update_of_ne hne]
    exact h.early d hd
  · exact (Function.forall_update_iff _ fun d k => k ≤ (prog d).body.length).mpr
      ⟨hlt, fun d _ => h.length d⟩
  · rw [hdestroyed]
    exact h.closed m v hv
  · -- what is in front of the connection that was answered is closed
    have hanswered : (s.queue m).Pairwise fun v w => w.Is c i → v.closed = true := by
      by_cases hm : m = (prog c).node i
      · subst hm
        exact answerTo_closed h.distinct hr
      · refine List.pairwise_iff_forall_sublist.mpr fun {v w} hsub his => ?_
        have hw : w ∈ s.queue m := hsub.subset (by simp)
        have hin : (w.client, w.slot) ∈ s.names m := List.mem_map_of_mem hw
        rw [his.1, his.2] at hin
        exact absurd ((h.names m _ _).mp hin).2.symm hm
    refine ((h.front m).and hanswered).imp ?_
    rintro v w ⟨hfront, his⟩ hw
    rcases hcalled _ _ hw with hw | hw
    · exact hfront hw
    · exact his hw

theorem crowd_ok {room : ℕ} {env : ℕ → ℕ → Sys} {fresh : ℕ → Node}
    (hF : ∀ (c : ι) (k i : ℕ) request, (prog c).body[k]? = some (.call i request) →
      ∀ got, F (request got)) (h : (crowd prog room env fresh).Reachable s) : s.Ok prog F := by
  refine h.invariant ?_ fun s c t hs hstep => ?_
  · rintro _ rfl
    exact ⟨fun _ => Nat.zero_le _, fun _ _ => ⟨rfl, rfl⟩, fun _ => Nat.zero_le _,
      fun _ _ _ => ⟨fun hmem => (nomatch hmem), fun hlt => absurd hlt.1 (Nat.not_lt_zero _)⟩,
      fun _ => List.nodup_nil, fun _ _ hmem => (nomatch hmem), fun _ _ hmem => (nomatch hmem),
      fun _ => List.Pairwise.nil⟩
  · rcases crowd_cases hstep with ⟨n, hn, _, rfl⟩ | ⟨hdone, ⟨i, hbody, rfl⟩ |
      ⟨i, request, hbody, _, rfl⟩ | ⟨i, request, r, hbody, _, hr, rfl⟩⟩
    · exact hs.connect hn
    · exact hs.close hdone hbody
    · exact hs.send hdone (hF c _ i request hbody _)
    · exact hs.receive hdone hbody r.sent hr

end Kept

/-! ## What the programs receive -/

/-- What a program has received on a connection is what `listen_loop` sends on it after the
connections in front, which are closed, have come one after another; in whatever blocks
the requests arrive. -/
theorem crowd_answers (prog : ι → Client) (room : ℕ) (env : ℕ → ℕ → Sys) (fresh : ℕ → Node)
    {s t : Crowd ι} {c : ι} (hs : (crowd prog room env fresh).Reachable s)
    (hstep : (crowd prog room env fresh).step s c t) (hgot : t.got ≠ s.got) :
    ∃ (i n : ℕ) (pre post : List (Visitor ι)) (v : Visitor ι) (r : Handled),
      (prog c).node i = n ∧ s.queue n = pre ++ v :: post ∧ v.Is c i ∧
      (∀ u ∈ pre, u.closed = true) ∧ t.got c i = r.sent ∧ r.msgs.length = v.frames.length ∧
      ∀ (visits : List Visit) (last : Visit) (fuel : ℕ),
        visits.map Visit.requests = pre.map Visitor.frames → last.requests = v.frames →
        (∀ w ∈ visits ++ [last], w.frames.length < fuel) →
        ∃ ts u, nodeListen (env n) fuel 0 (fresh n)
            ((visits ++ [last]).map fun w => some w.incoming) = some (.accepting r.node ts) ∧
          ts.getLast? = some u ∧ ServedAs last r u := by
  have hok : s.Ok prog fun _ => True := crowd_ok (fun _ _ _ _ _ _ => trivial) hs
  rcases crowd_cases hstep with ⟨n, _, _, rfl⟩ | ⟨hdialed, ⟨i, _, rfl⟩ | ⟨i, request, _, _, rfl⟩ |
    ⟨i, request, r, hbody, _, hr, rfl⟩⟩
  · exact absurd rfl hgot
  · exact absurd rfl hgot
  · exact absurd rfl hgot
  · have hslot : i < (prog c).nodes.length := (prog c).slots _ (List.mem_of_getElem? hbody)
    have hmem : (c, i) ∈ s.names ((prog c).node i) :=
      (hok.names _ c i).mpr ⟨hslot.trans_le hdialed, rfl⟩
    obtain ⟨v, hv, hname⟩ := List.mem_map.mp hmem
    have his : v.Is c i := ⟨congrArg Prod.fst hname, congrArg Prod.snd hname⟩
    obtain ⟨pre, post, hqueue⟩ := List.mem_iff_append.mp hv
    have hpairs := answerTo_closed hok.distinct hr
    have hdistinct := hok.distinct (n := (prog c).node i)
    rw [Distinct, hqueue] at hdistinct
    rw [hqueue] at hpairs hr
    have hfront : ∀ u ∈ pre, u.closed = true ∧ ¬ u.Is c i := by
      intro u hu
      refine ⟨(List.pairwise_append.mp hpairs).2.2 u hu v List.mem_cons_self his, fun hu' => ?_⟩
      refine (List.pairwise_append.mp hdistinct).2.2 u hu v List.mem_cons_self ?_
      exact ⟨his.1.trans hu'.1.symm, his.2.trans hu'.2.symm⟩
    refine ⟨i, _, pre, post, v, r, rfl, hqueue, his, fun u hu => (hfront u hu).1, ?_, ?_, ?_⟩
    · show Function.update s.got c _ c i = r.sent
      rw [Function.update_self, Function.update_self]
    · rw [answerTo_front hfront his] at hr
      obtain ⟨rs, _, hr⟩ := Option.bind_eq_some_iff.mp hr
      obtain ⟨q, _, hr⟩ := Option.bind_eq_some_iff.mp hr
      split at hr
      · next hlen => exact Option.some.inj hr ▸ hlen
      · cases hr
    · exact fun visits last fuel hvisits hlast hfuel =>
        answerTo_listens hfront his hr hvisits hlast hfuel

/-- The first of two programs has sent its request to the node 0. -/
def asked : Crowd Bool := (Crowd.start.connect true 0).send true 0 0 mallocFrame

theorem crowd_answers_run : ∃ t : Crowd Bool,
    t.got true 0 = [8, 0, 0, 0, 0, 16, 0, 0, 0, 0, 0, 0] ∧
    ∃ (i n : ℕ) (pre post : List (Visitor Bool)) (v : Visitor Bool) (r : Handled),
      (Client.once [0] mallocFrame).node i = n ∧ asked.queue n = pre ++ v :: post ∧ v.Is true i ∧
      (∀ u ∈ pre, u.closed = true) ∧ t.got true i = r.sent ∧ r.msgs.length = v.frames.length ∧
      ∀ (visits : List Visit) (last : Visit) (fuel : ℕ),
        visits.map Visit.requests = pre.map Visitor.frames → last.requests = v.frames →
        (∀ w ∈ visits ++ [last], w.frames.length < fuel) →
        ∃ ts u, nodeListen (fun _ => .calm) fuel 0 .new
            ((visits ++ [last]).map fun w => some w.incoming) = some (.accepting r.node ts) ∧
          ts.getLast? = some u ∧ ServedAs last r u := by
  have hsent : (answerTo (fun _ => .calm) true 0 0 .new (asked.queue 0)).map Handled.sent =
      some [8, 0, 0, 0, 0, 16, 0, 0, 0, 0, 0, 0] := by decide
  obtain ⟨r, hr, hbytes⟩ := Option.map_eq_some_iff.mp hsent
  have hstart : (crowd (fun _ : Bool => .once [0] mallocFrame) 8 (fun _ _ => .calm)
      fun _ => .new).Reachable .start := .init rfl
  have hasked := (hstart.step (l := true) (t := Crowd.start.connect true 0) rfl).step (l := true)
    (t := asked) rfl
  have hstep : (crowd (fun _ : Bool => .once [0] mallocFrame) 8 (fun _ _ => .calm)
      fun _ => .new).step asked true (asked.receive true 0 r.sent) := by
    show (answerTo (fun _ => .calm) true 0 0 .new (asked.queue 0)).map
      (fun r => asked.receive true 0 r.sent) = _
    rw [hr]
    rfl
  have hgot : (asked.receive true 0 r.sent).got true 0 = r.sent := rfl
  refine ⟨_, hgot.trans hbytes, crowd_answers _ _ _ _ hasked hstep fun h => ?_⟩
  have hnone := congrFun (congrFun h true) 0
  rw [hgot, hbytes] at hnone
  cases hnone

end Dicon.Cluster
