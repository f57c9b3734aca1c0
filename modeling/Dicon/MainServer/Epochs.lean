import Dicon.Framework.Since
import Dicon.MainServer.History

/-!
# What the registry does, without pointers

`remove_info` clears `NODES_INFO` where the node that leaves has no predecessor. The
abstract registry is the list that queries are answered from together with the lists
that were lost in this way. An announcement goes to the end of the current list. The
entry that leaves is taken out of its list, and where it was the first one there, all
lists are lost and a new one begins.

In every run the linked list of the main server is the current list of its history, and
so is each reply (`registry_follows`).
-/

namespace Dicon.MainServer

open Dicon.Framework Registry

/-! ## The abstract registry -/

/-- The current list, the lost ones with the latest first, and what each connection
remembers in its `conn_info`. -/
structure Epochs where
  current : List Announced
  lost : List (List Announced)
  latest : ConnId → Option Announced

namespace Epochs

def start : Epochs := ⟨[], [], fun _ => none⟩

def lists (E : Epochs) : List (List Announced) := E.current :: E.lost

/-- `e` has no predecessor in its list. -/
def IsFirst (E : Epochs) (e : Announced) : Prop := ∃ l ∈ E.lists, l.head? = some e

instance (E : Epochs) (e : Announced) : Decidable (E.IsFirst e) :=
  inferInstanceAs (Decidable (∃ _ ∈ _, _))

def announce (E : Epochs) (e : Announced) : Epochs where
  current := E.current ++ [e]
  lost := E.lost
  latest := Function.update E.latest e.conn (some e)

def leave (E : Epochs) (e : Announced) : Epochs :=
  if E.IsFirst e then { E with current := [], lost := E.lists.map (·.erase e) }
  else { E with current := E.current.erase e, lost := E.lost.map (·.erase e) }

/-- What an event of the server does to the registry. -/
def event (E : Epochs) : Event → Epochs
  | .announced e => E.announce e
  | .removed c => (E.latest c).elim E E.leave
  | _ => E

end Epochs

/-- The registry after a history. -/
def epochs (hist : List Event) : Epochs := hist.foldl Epochs.event .start

@[simp] theorem epochs_snoc (hist : List Event) (ev : Event) :
    epochs (hist ++ [ev]) = (epochs hist).event ev := by
  rw [epochs, List.foldl_append]
  rfl

theorem epochs_quiet {hist evs : List Event} (h : ∀ ev ∈ evs, ev.edits = false) :
    epochs (hist ++ evs) = epochs hist := by
  induction evs using List.reverseRecOn with
  | nil => rw [List.append_nil]
  | append_singleton evs ev ih =>
      rw [← List.append_assoc, epochs_snoc, ih fun x hx => h x (List.mem_append_left _ hx)]
      have hev := h ev (List.mem_append_right _ (List.mem_singleton_self ev))
      cases ev with
      | announced | removed => cases hev
      | _ => rfl

/-! ## Chains and what they carry -/

section Chains

variable {r r' : Registry Announced} {vis : List Addr} {orph : List (List Addr)}

/-- No two nodes carry the same entry. -/
def Distinct (r : Registry Announced) : Prop :=
  ∀ a b n m, r.cell a = some n → r.cell b = some m → n.info = m.info → a = b

/-- Removing a node, for all chains alike: the visible one is the first of them. -/
theorem remove_chains {l c : List Addr} {x : Addr} {o o' : List (List Addr)}
    (h : r.Shape vis orph) (hsplit : vis :: orph = o ++ (l ++ x :: c) :: o') :
    ∃ r' vis' orph', r.removeInfo x = some r' ∧ r'.cell = Seg.unlinked r.cell l x c ∧
      r'.Shape vis' orph' ∧
      vis' :: orph' = if l = [] then [] :: (o ++ c :: o') else o ++ (l ++ c) :: o' := by
  cases o with
  | nil =>
      obtain ⟨rfl, rfl⟩ := List.cons.inj hsplit
      by_cases hl : l = []
      · subst hl
        obtain ⟨r', hrem, hcell, hshape⟩ := h.remove_first
        exact ⟨r', _, _, hrem, hcell, hshape, rfl⟩
      · obtain ⟨r', hrem, hcell, hshape⟩ := h.remove_inner hl
        exact ⟨r', _, _, hrem, hcell, hshape, (if_neg hl).symm⟩
  | cons d o =>
      obtain ⟨rfl, rfl⟩ := List.cons.inj hsplit
      obtain ⟨r', hrem, hcell, hshape⟩ := h.remove_hidden
      by_cases hl : l = []
      · rw [if_pos hl] at hshape
        exact ⟨r', _, _, hrem, hcell, hshape, (if_pos hl).symm⟩
      · rw [if_neg hl] at hshape
        exact ⟨r', _, _, hrem, hcell, hshape, (if_neg hl).symm⟩

theorem infos_cons {x : Addr} {n : Link Addr Announced} {xs : List Addr}
    (hx : r.cell x = some n) : infos r.cell (x :: xs) = n.info :: infos r.cell xs := by
  simp [infos, hx]

/-- The entry of a node that is not on a chain is not among those of the chain. -/
theorem not_mem_infos (hd : Distinct r) {x : Addr} {n : Link Addr Announced} {xs : List Addr}
    (hx : r.cell x = some n) (hnot : x ∉ xs) : n.info ∉ infos r.cell xs := by
  intro hmem
  obtain ⟨y, hy, m, hm, heq⟩ := mem_infos.mp hmem
  exact hnot (hd x y n m hx hm heq.symm ▸ hy)

/-- The other nodes carry what they did. -/
theorem infos_unlinked {l c xs : List Addr} {x : Addr} (hnot : x ∉ xs) :
    infos (Seg.unlinked r.cell l x c) xs = infos r.cell xs :=
  infos_congr fun _ hy => unlinked_info fun heq => hnot (heq ▸ hy)

/-- A chain without the node `x`, and its entries without the one of `x`. -/
theorem erase_infos_unlinked (hd : Distinct r) {l c : List Addr} {x : Addr}
    {n : Link Addr Announced} (hx : r.cell x = some n) (hl : x ∉ l) (hc : x ∉ c) :
    (infos r.cell (l ++ x :: c)).erase n.info = infos (Seg.unlinked r.cell l x c) (l ++ c) := by
  rw [infos_append, infos_cons hx, List.erase_append_right _ (not_mem_infos hd hx hl),
    List.erase_cons_head, infos_append, infos_unlinked hl, infos_unlinked hc]

/-- A node is at one place of one chain. -/
theorem node_apart {l c : List Addr} {x : Addr} {o o' : List (List Addr)}
    (h : ((o ++ (l ++ x :: c) :: o').flatten).Nodup) :
    x ∉ l ∧ x ∉ c ∧ ∀ d, d ∈ o ∨ d ∈ o' → x ∉ d := by
  have hflat : (o ++ (l ++ x :: c) :: o').flatten =
      (o.flatten ++ l) ++ x :: (c ++ o'.flatten) := by
    simp
  rw [hflat, List.perm_middle.nodup_iff] at h
  have hx := (List.nodup_cons.mp h).1
  simp only [List.mem_append, not_or] at hx
  obtain ⟨⟨ho, hl⟩, hc, ho'⟩ := hx
  refine ⟨hl, hc, ?_⟩
  rintro d (hd | hd) hxd
  · exact ho (List.mem_flatten.mpr ⟨d, hd, hxd⟩)
  · exact ho' (List.mem_flatten.mpr ⟨d, hd, hxd⟩)

/-! ## The abstraction -/

/-- The lists of `E` are what the chains carry. -/
def Carries (r : Registry Announced) (E : Epochs) : Prop :=
  ∃ vis orph, r.Shape vis orph ∧ E.lists = (vis :: orph).map (infos r.cell)

variable {E : Epochs}

theorem Carries.shape (h : Carries r E) : ∃ vis orph, r.Shape vis orph :=
  let ⟨vis, orph, hshape, _⟩ := h
  ⟨vis, orph, hshape⟩

theorem Carries.collect (h : Carries r E) : r.collectInfo = some E.current := by
  obtain ⟨vis, orph, hshape, hlists⟩ := h
  rw [hshape.collectInfo_eq, (List.cons.inj hlists).1]

/-- An entry is on a list when an allocated node carries it. -/
theorem Carries.mem_iff (h : Carries r E) {e : Announced} :
    e ∈ E.lists.flatten ↔ ∃ a n, r.cell a = some n ∧ n.info = e := by
  obtain ⟨vis, orph, hshape, hlists⟩ := h
  rw [hlists, ← List.flatMap_def, List.mem_flatMap]
  constructor
  · rintro ⟨d, _, he⟩
    obtain ⟨a, _, n, hn, rfl⟩ := mem_infos.mp he
    exact ⟨a, n, hn, rfl⟩
  · rintro ⟨a, n, hn, rfl⟩
    have hmem : a ∈ (vis :: orph).flatten := (hshape.live a).mp (by rw [hn]; rfl)
    obtain ⟨d, hd, had⟩ := List.mem_flatten.mp hmem
    exact ⟨d, hd, mem_infos.mpr ⟨a, had, n, hn, rfl⟩⟩

theorem Carries.append (h : Carries r E) {e : Announced} {a x : Addr} (ha : r.cell a = none)
    (happ : r.appendInfo e a = some (r', x)) : Carries r' (E.announce e) := by
  obtain ⟨vis, orph, hshape, hlists⟩ := h
  obtain ⟨hcurrent, hlost⟩ := List.cons.inj hlists
  obtain ⟨rfl, hshape', _, hold⟩ := appendInfo_shape hshape ha happ
  have hlost' : E.lost = orph.map (infos r'.cell) := by
    refine hlost.trans (List.map_congr_left fun d hd => (infos_congr fun y hy => hold y ?_).symm)
    rintro rfl
    exact hshape.not_mem_of_none ha (List.mem_append_right _ (List.mem_flatten.mpr ⟨d, hd, hy⟩))
  refine ⟨_, _, hshape', ?_⟩
  rw [List.map_cons, appendInfo_infos hshape ha happ, ← hcurrent, ← hlost']
  rfl

/-- Where a node has no predecessor, its entry is the first of its list. -/
theorem isFirst_iff (hd : Distinct r) {l c : List Addr} {x : Addr} {o o' : List (List Addr)}
    {n : Link Addr Announced} (hshape : r.Shape vis orph)
    (hsplit : vis :: orph = o ++ (l ++ x :: c) :: o') (hx : r.cell x = some n)
    (hlists : E.lists = (vis :: orph).map (infos r.cell)) : E.IsFirst n.info ↔ l = [] := by
  have hnd : ((vis :: orph).flatten).Nodup := hshape.nodup
  rw [hsplit] at hnd hlists
  obtain ⟨hl, _, hothers⟩ := node_apart hnd
  rw [Epochs.IsFirst, hlists]
  constructor
  · rintro ⟨is, his, hhead⟩
    obtain ⟨d, hmem, rfl⟩ := List.mem_map.mp his
    obtain ⟨y, hy, m, hm, heq⟩ := mem_infos.mp (List.mem_of_head? hhead)
    obtain rfl := hd y x m n hm hx heq
    -- the list is the one of the node
    have hchain : d = l ++ y :: c := by
      rcases List.mem_append.mp hmem with hmem | hmem
      · exact absurd hy (hothers d (Or.inl hmem))
      · rcases List.mem_cons.mp hmem with hmem | hmem
        · exact hmem
        · exact absurd hy (hothers d (Or.inr hmem))
    subst hchain
    cases l with
    | nil => rfl
    | cons z l =>
        have hz : (r.cell z).isSome := by
          rw [hshape.live z]
          show z ∈ (vis :: orph).flatten
          rw [hsplit]
          simp
        obtain ⟨k, hk⟩ := Option.isSome_iff_exists.mp hz
        rw [List.cons_append, infos_cons hk, List.head?_cons] at hhead
        obtain rfl := hd z y k n hk hx (Option.some.inj hhead)
        exact absurd List.mem_cons_self hl
  · rintro rfl
    exact ⟨infos r.cell (x :: c), List.mem_map_of_mem (by simp), by rw [infos_cons hx]; rfl⟩

theorem Carries.leave (h : Carries r E) (hd : Distinct r) {x : Addr} {n : Link Addr Announced}
    (hx : r.cell x = some n) (hrem : r.removeInfo x = some r') :
    Carries r' (E.leave n.info) := by
  obtain ⟨vis, orph, hshape, hlists⟩ := h
  have hmem : x ∈ (vis :: orph).flatten := (hshape.live x).mp (by rw [hx]; rfl)
  obtain ⟨chain, hchain, hxc⟩ := List.mem_flatten.mp hmem
  obtain ⟨o, o', hsplit⟩ := List.append_of_mem hchain
  obtain ⟨l, c, rfl⟩ := List.append_of_mem hxc
  have hnd : ((vis :: orph).flatten).Nodup := hshape.nodup
  rw [hsplit] at hnd
  obtain ⟨hl, hc, hothers⟩ := node_apart hnd
  obtain ⟨r'', vis', orph', hrem', hcell, hshape', hchains⟩ := remove_chains hshape hsplit
  rw [hrem] at hrem'
  cases hrem'
  -- every list without the entry is what its chain carries without the node
  have hsame : ∀ d, d ∈ o ∨ d ∈ o' → (infos r.cell d).erase n.info = infos r'.cell d := by
    intro d hmem
    have hnot := hothers d hmem
    rw [hcell, infos_unlinked hnot, List.erase_of_not_mem (not_mem_infos hd hx hnot)]
  have herase : E.lists.map (·.erase n.info) =
      (o ++ (l ++ c) :: o').map (infos r'.cell) := by
    rw [hlists, hsplit, List.map_map, List.map_append, List.map_append, List.map_cons,
      List.map_cons, Function.comp_apply, erase_infos_unlinked hd hx hl hc, ← hcell]
    congr 1
    · exact List.map_congr_left fun d hd => hsame d (Or.inl hd)
    · congr 1
      exact List.map_congr_left fun d hd => hsame d (Or.inr hd)
  refine ⟨vis', orph', hshape', ?_⟩
  have hfirst := isFirst_iff hd hshape hsplit hx hlists
  rw [hchains, Epochs.leave]
  by_cases hnil : l = []
  · rw [if_pos (hfirst.mpr hnil), if_pos hnil, List.map_cons]
    subst hnil
    rw [List.nil_append] at herase
    rw [← herase]
    rfl
  · rw [if_neg (fun hf => hnil (hfirst.mp hf)), if_neg hnil, ← herase]
    rfl

end Chains

/-! ## Runs of the main server -/

/-- The registry is what the events make of it, and a connection that has to clean up
remembers its latest entry. -/
structure Mirrors (s : Server) : Prop where
  carries : Carries s.shared.registry (epochs s.shared.history)
  distinct : Distinct s.shared.registry
  counted : ∀ a n, s.shared.registry.cell a = some n →
    ∃ h, s.conns n.info.conn = some h ∧ n.info.nth < h.announces
  latest : ∀ c h, s.conns c = some h → h.isComputeNode = true → h.pc.closing = false →
    ∃ a n, h.connInfo = some a ∧ s.shared.registry.cell a = some n ∧
      (epochs s.shared.history).latest c = some n.info

theorem mirrors_start : Mirrors .start where
  carries := ⟨[], [], Registry.shape_empty, rfl⟩
  distinct := by rintro a b n m ⟨⟩
  counted := by rintro a n ⟨⟩
  latest := by rintro c h ⟨⟩

theorem Epochs.latest_leave (E : Epochs) (e : Announced) : (E.leave e).latest = E.latest := by
  unfold Epochs.leave
  split <;> rfl

/-- Nodes that are still there carry different entries if they did. -/
theorem Distinct.mono {r r' : Registry Announced} (h : Distinct r)
    (hold : ∀ a n, r'.cell a = some n → ∃ m, r.cell a = some m ∧ m.info = n.info) :
    Distinct r' := by
  intro a b n m hn hm heq
  obtain ⟨n', hn', hni⟩ := hold a n hn
  obtain ⟨m', hm', hmi⟩ := hold b m hm
  exact h a b n' m' hn' hm' (by rw [hni, hmi, heq])

section Step

variable {s : Server} {c : ConnId} {hd hd' : Handler} {sh' : Shared}

theorem Mirrors.append (h : Mirrors s) (hi : Inv s) (hc : s.conns c = some hd) {e : Announced}
    (hpc : hd.pc = .append e) {newNode x : Addr} {registry : Registry Announced}
    (hfree : s.shared.registry.cell newNode = none)
    (happ : s.shared.registry.appendInfo e newNode = some (registry, x))
    (hinfo : hd'.connInfo = some x) (hann : hd'.announces = hd.announces + 1) :
    Mirrors ⟨Function.update s.conns c (some hd'),
      { s.shared with registry := registry, history := s.shared.history ++ [.announced e] }⟩ := by
  obtain ⟨vis, orph, hshape⟩ := hi.shape
  obtain ⟨rfl, _, ⟨n, hn, hne⟩, hold⟩ := appendInfo_shape hshape hfree happ
  obtain ⟨rfl, hnth⟩ := hi.pending c hd hc e (by rw [hpc]; rfl)
  -- the entries so far have smaller numbers than the new one
  have hnew : ∀ b m, b ≠ x → registry.cell b = some m →
      ∃ m', s.shared.registry.cell b = some m' ∧ m'.info = m.info ∧ m.info ≠ e := by
    intro b m hb hm
    obtain ⟨m', hm', hmi⟩ := cell_of_info hm (hold b hb).symm
    refine ⟨m', hm', hmi, ?_⟩
    rintro rfl
    obtain ⟨k, hk, hlt⟩ := h.counted b m' hm'
    rw [hmi, hc] at hk
    cases hk
    rw [hmi] at hlt
    omega
  have hevent : epochs (s.shared.history ++ [.announced e]) =
      (epochs s.shared.history).announce e := epochs_snoc _ _
  refine ⟨?_, ?_, ?_, ?_⟩
  · show Carries registry (epochs (s.shared.history ++ [.announced e]))
    rw [hevent]
    exact h.carries.append hfree happ
  · intro a b k m hk hm heq
    by_cases ha : a = x <;> by_cases hb : b = x
    · rw [ha, hb]
    · subst ha
      obtain ⟨_, _, _, hother⟩ := hnew b m hb hm
      rw [hn] at hk
      cases hk
      exact absurd (heq.symm.trans hne) hother
    · subst hb
      obtain ⟨_, _, _, hother⟩ := hnew a k ha hk
      rw [hn] at hm
      cases hm
      exact absurd (heq.trans hne) hother
    · obtain ⟨k', hk', hki, _⟩ := hnew a k ha hk
      obtain ⟨m', hm', hmi, _⟩ := hnew b m hb hm
      exact h.distinct a b k' m' hk' hm' (by rw [hki, hmi, heq])
  · intro a k hk
    show ∃ y, Function.update s.conns e.conn (some hd') k.info.conn = some y ∧ _
    by_cases ha : a = x
    · subst ha
      rw [hn] at hk
      cases hk
      rw [hne, Function.update_self]
      exact ⟨hd', rfl, by omega⟩
    · obtain ⟨k', hk', hki, _⟩ := hnew a k ha hk
      obtain ⟨y, hy, hlt⟩ := h.counted a k' hk'
      rw [hki] at hy hlt
      by_cases heq : k.info.conn = e.conn
      · rw [heq, hc] at hy
        cases hy
        rw [heq, Function.update_self]
        exact ⟨hd', rfl, by omega⟩
      · exact ⟨y, (Function.update_of_ne heq _ _).trans hy, hlt⟩
  · intro d y hy hcn hcl
    show ∃ a n, _ ∧ registry.cell a = some n ∧
      (epochs (s.shared.history ++ [.announced e])).latest d = some n.info
    rw [hevent]
    rcases update_eq_some hy with ⟨rfl, rfl⟩ | ⟨hdc, hy⟩
    · exact ⟨x, n, hinfo, hn, (Function.update_self _ _ _).trans (by rw [hne])⟩
    · obtain ⟨a, m, ha, hm, hlatest⟩ := h.latest d y hy hcn hcl
      have hax : a ≠ x := by
        rintro rfl
        rw [hfree] at hm
        cases hm
      obtain ⟨m', hm', hmi⟩ := cell_of_info hm (hold a hax)
      exact ⟨a, m', ha, hm', (Function.update_of_ne hdc _ _).trans (by rw [hlatest, hmi])⟩

theorem Mirrors.remove (h : Mirrors s) (hi : Inv s) (hc : s.conns c = some hd)
    (hpc : hd.pc = .remove) {registry : Registry Announced}
    (hrem : hd.connInfo.bind s.shared.registry.removeInfo = some registry) :
    Mirrors ⟨Function.update s.conns c (some { hd with pc := .unlockRemove }),
      { s.shared with registry := registry, history := s.shared.history ++ [.removed c] }⟩ := by
  obtain ⟨vis, orph, hshape⟩ := hi.shape
  have hcn : hd.isComputeNode = true := hi.removing c hd hc (by rw [hpc]; rfl)
  obtain ⟨x, n, hx, hn, hlatest⟩ := h.latest c hd hc hcn (by rw [hpc]; rfl)
  have hown : n.info.conn = c := by
    obtain ⟨x', n', hx', hn', hown⟩ := hi.own_node hc hpc
    rw [hx] at hx'
    cases hx'
    rw [hn] at hn'
    cases hn'
    exact hown
  rw [hx, Option.bind_some] at hrem
  obtain ⟨_, hgone, hold⟩ := removeInfo_shape hshape hrem
  have hkept : ∀ a m, registry.cell a = some m →
      ∃ m', s.shared.registry.cell a = some m' ∧ m'.info = m.info := by
    intro a m hm
    refine cell_of_info hm (hold a ?_).symm
    rintro rfl
    rw [hgone] at hm
    cases hm
  have hevent : epochs (s.shared.history ++ [.removed c]) =
      (epochs s.shared.history).leave n.info := by
    rw [epochs_snoc, Epochs.event, hlatest]
    rfl
  refine ⟨?_, h.distinct.mono hkept, ?_, ?_⟩
  · show Carries registry (epochs (s.shared.history ++ [.removed c]))
    rw [hevent]
    exact h.carries.leave h.distinct hn hrem
  · intro a m hm
    obtain ⟨m', hm', hmi⟩ := hkept a m hm
    obtain ⟨y, hy, hlt⟩ := h.counted a m' hm'
    rw [hmi] at hy hlt
    show ∃ y, Function.update s.conns c _ m.info.conn = some y ∧ _
    by_cases heq : m.info.conn = c
    · rw [heq, hc] at hy
      cases hy
      rw [heq, Function.update_self]
      exact ⟨_, rfl, hlt⟩
    · exact ⟨y, (Function.update_of_ne heq _ _).trans hy, hlt⟩
  · intro d y hy hcn hcl
    show ∃ a n, _ ∧ registry.cell a = some n ∧
      (epochs (s.shared.history ++ [.removed c])).latest d = some n.info
    rw [hevent, Epochs.latest_leave]
    rcases update_eq_some hy with ⟨rfl, rfl⟩ | ⟨hdc, hy⟩
    · cases hcl
    · obtain ⟨a, m, ha, hm, hlatest'⟩ := h.latest d y hy hcn hcl
      obtain ⟨a', m', ha', hm', hconn⟩ := hi.owned d y hy hcn hcl
      rw [ha] at ha'
      cases ha'
      rw [hm] at hm'
      cases hm'
      -- the node that is removed belongs to `c`
      have hax : a ≠ x := by
        rintro rfl
        rw [hn] at hm
        cases hm
        exact hdc (hconn.symm.trans hown)
      obtain ⟨m', hm', hmi⟩ := cell_of_info hm (hold a hax)
      exact ⟨a, m', ha, hm', by rw [hlatest', hmi]⟩

theorem Mirrors.step {t : Server} {l : ConnId × Action} (h : Mirrors s) (hi : Inv s)
    (hstep : mainServer.step s l t) : Mirrors t := by
  obtain ⟨c, a⟩ := l
  rcases step_cases hstep with ⟨ip, hc, rfl⟩ | ⟨hd, hd', sh', hc, he, rfl⟩
  · refine ⟨h.carries, h.distinct, fun a n hn => ?_, forall_update h.latest ?_⟩
    · obtain ⟨y, hy, hlt⟩ := h.counted a n hn
      refine ⟨y, (Function.update_of_ne ?_ _ _).trans hy, hlt⟩
      intro heq
      rw [heq, hc] at hy
      cases hy
    · intro hcn
      cases hcn
  · rcases effect_registry he with ⟨hsame, hinfo, hcomp, hann, hclose, evs, hhist, hquiet⟩ |
      ⟨a', e, r, x, hpc, rfl, hfree, happ, hinfo, hcn, hann, hpc', rfl⟩ |
      ⟨registry, hpc, rfl, hrem, rfl, rfl⟩
    · have hepochs : epochs sh'.history = epochs s.shared.history := by
        rw [hhist, epochs_quiet hquiet]
      refine ⟨?_, ?_, ?_, ?_⟩
      · show Carries sh'.registry (epochs sh'.history)
        rw [hsame, hepochs]
        exact h.carries
      · show Distinct sh'.registry
        rw [hsame]
        exact h.distinct
      · intro b n hn
        rw [hsame] at hn
        obtain ⟨y, hy, hlt⟩ := h.counted b n hn
        show ∃ y, Function.update s.conns c (some hd') n.info.conn = some y ∧ _
        by_cases heq : n.info.conn = c
        · rw [heq, hc] at hy
          cases hy
          rw [heq, Function.update_self]
          exact ⟨hd', rfl, by rw [hann]; exact hlt⟩
        · exact ⟨y, (Function.update_of_ne heq _ _).trans hy, hlt⟩
      · show ∀ d y, Function.update s.conns c (some hd') d = some y → _ → _ → ∃ a n, _ ∧
          sh'.registry.cell a = some n ∧ (epochs sh'.history).latest d = some n.info
        rw [hsame, hepochs]
        refine forall_update h.latest fun hcn hcl => ?_
        rw [hcomp] at hcn
        rw [hinfo]
        exact h.latest c hd hc hcn ((hclose hcn).symm.trans hcl)
    · exact h.append hi hc hpc hfree happ hinfo hann
    · exact h.remove hi hc hpc hrem

end Step

theorem mirrors {s : Server} (h : mainServer.Reachable s) : Mirrors s :=
  h.invariant_of (fun _ h0 => h0 ▸ mirrors_start) fun _ _ _ hr hf hs =>
    hf.step (inv_of_reachable hr) hs

theorem registry_replies {s : Server} (h : mainServer.Reachable s) :
    RepliesObey (fun pre es => es = (epochs pre).current) s.shared.history := by
  apply h.invariant_of
  · rintro _ rfl
    exact repliesObey_nil _
  · intro u l v hr ho hstep
    rcases step_cases hstep with ⟨ip, hc, rfl⟩ | ⟨hd, hd', sh', hc, he, rfl⟩
    · exact ho
    · refine ho.effect he fun es _ hes => ?_
      rw [(mirrors hr).carries.collect] at hes
      exact (Option.some.inj hes).symm

/-- The list of the main server and each of its replies are those of the abstract
registry, whatever the peers do and in whatever order the handlers run. -/
theorem registry_follows {s : Server} (h : mainServer.Reachable s) :
    s.shared.registry.collectInfo = some (epochs s.shared.history).current ∧
      RepliesObey (fun pre es => es = (epochs pre).current) s.shared.history :=
  ⟨(mirrors h).carries.collect, registry_replies h⟩

/-- Two nodes announce, the first one leaves, a third one announces, and a client asks. -/
def announcedAfterLoss : List (ConnId × Action) :=
  announceRun 0 100 4 ++ announceRun 1 200 8 ++ leaveRun 0 ++ announceRun 2 100 2 ++
    [(3, .accept ⟨2, 16777343, Vector.replicate 12 0⟩),
      (3, .peerSend (ReqHead.bytes ⟨DicMainOperation.getInfo.code, 1, 0⟩)), (3, .recv 8),
      (3, .recvDone 0), (3, .lock), (3, .collect)]

theorem registry_follows_run : ∃ s, mainServer.Reachable s ∧
    (epochs s.shared.history).current.map Announced.conn = [2] ∧
      (epochs s.shared.history).lost.map (·.map Announced.conn) = [[1]] ∧
        s.shared.registry.collectInfo = some (epochs s.shared.history).current ∧
          RepliesObey (fun pre es => es = (epochs pre).current) s.shared.history := by
  have hrun : (Server.start.exec anyStep announcedAfterLoss).any (fun s =>
      decide ((epochs s.shared.history).current.map Announced.conn = [2] ∧
        (epochs s.shared.history).lost.map (·.map Announced.conn) = [[1]])) = true := by
    decide +kernel
  obtain ⟨s, hs, htest⟩ := (Option.any_eq_true _ _).mp hrun
  have hreach := reachable_of_run hs
  obtain ⟨hcurrent, hlost⟩ := of_decide_eq_true htest
  exact ⟨s, hreach, hcurrent, hlost, registry_follows hreach⟩

end Dicon.MainServer
