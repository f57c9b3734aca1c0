import Dicon.Client.Memory
import Dicon.Framework.Transition
import Dicon.RemoteMemory.Flat

/-!
# Remote memory is one flat byte memory

Whatever a client does with `dic_rmalloc`, `dic_rrealloc`, `dic_rfree` and
`dic_memcpy`, the heap of the node holds what the client's `FlatMemory` says
(`Refines`), and each call that is legal returns and does to the heap what its
name says (`remote_memory_flat`).
-/

namespace Dicon.RemoteMemory

open Framework Node Client

/-- Every live block of the client is a block of the node's heap, apart from the
others, and holds what was written there. -/
structure Refines (m : FlatMemory) (node : Node) : Prop where
  live : ∀ b ∈ m.blocks, node.blockAt b.ptr = some b
  nonzero : ∀ b ∈ m.blocks, b.ptr ≠ 0
  nodup : m.blocks.Nodup
  apart : ∀ b ∈ m.blocks, ∀ c ∈ m.blocks, b ≠ c → b.Disjoint c
  holds : ByteMemory.Holds m.bytes node.mem

theorem refines_empty (node : Node) : Refines .empty node :=
  ⟨by simp [FlatMemory.empty], by simp [FlatMemory.empty], List.nodup_nil,
    by simp [FlatMemory.empty], fun _ _ h => by cases h⟩

/-- Writing into a block leaves the addresses of a block apart from it alone. -/
theorem write_apart {α : Type} {b c : Block} {f : ℕ → α} {vs : List α} {x : ℕ}
    (h : b.Disjoint c) (hx : b.Has x 1) (hlen : vs.length ≤ c.size) :
    ByteMemory.write f c.ptr vs x = f x := by
  unfold Block.Disjoint at h
  unfold Block.Has at hx
  exact ByteMemory.write_outside (by omega)

/-- The blocks that are live before, apart from the one at `ptr`, are live
afterwards with the same contents. -/
def OthersKept (m m' : FlatMemory) (node node' : Node) (ptr : ℕ) : Prop :=
  ∀ b ∈ m.blocks, b.ptr ≠ ptr → b ∈ m'.blocks ∧
    ∀ x, b.Has x 1 → node'.mem x = node.mem x ∧ m'.bytes x = m.bytes x

/-- The node after `realloc` of `b`. -/
def moved (sys : Sys) (node : Node) (b : Block) (size : ℕ) : Node :=
  let fresh := { node with blocks := node.blocks.erase b }.malloc sys size
  { fresh with
    mem := ByteMemory.write fresh.mem sys.block.toNat
      (ByteMemory.read node.mem b.ptr (min b.size size)) }

namespace Refines

variable {m : FlatMemory} {node : Node} {sys : Sys} {b c : Block} {size : ℕ}

theorem mem_blocks (h : Refines m node) (hb : b ∈ m.blocks) : b ∈ node.blocks :=
  (mem_of_find (h.live b hb)).1

theorem eq_of_ptr (h : Refines m node) (hb : b ∈ m.blocks) (hc : c ∈ m.blocks)
    (hptr : b.ptr = c.ptr) : b = c := by
  have hlive := h.live b hb
  rw [hptr, h.live c hc] at hlive
  exact (Option.some.inj hlive).symm

theorem blockAt (h : Refines m node) (hb : b ∈ m.blocks) : m.blockAt b.ptr = some b := by
  cases hfind : m.blockAt b.ptr with
  | none =>
      rw [FlatMemory.blockAt, List.find?_eq_none] at hfind
      exact absurd (by simp) (hfind b hb)
  | some c =>
      obtain ⟨hc, hptr⟩ := mem_of_find hfind
      rw [h.eq_of_ptr hc hb hptr]

theorem blockAt_zero (h : Refines m node) : m.blockAt 0 = none := by
  rw [FlatMemory.blockAt, List.find?_eq_none]
  intro b hb
  simpa using h.nonzero b hb

theorem malloc_eq (ha : Allocates sys node.blocks size) :
    node.malloc sys size =
      { node with
        mem := ByteMemory.write node.mem sys.block.toNat ((List.range size).map sys.garbage)
        blocks := node.blocks ++ [⟨sys.block.toNat, size⟩] } :=
  if_neg ha.1

/-- A new block. -/
theorem allocate (h : Refines m node) (ha : Allocates sys node.blocks size) :
    Refines (m.allocate ⟨sys.block.toNat, size⟩) (node.malloc sys size) := by
  have hne : sys.block.toNat ≠ 0 := fun hz => ha.1 (UInt64.toNat_inj.mp hz)
  have hfresh : ∀ b ∈ m.blocks, b.ptr ≠ sys.block.toNat ∧ b.Disjoint ⟨sys.block.toNat, size⟩ :=
    fun b hb => ha.2 b (h.mem_blocks hb)
  rw [malloc_eq ha]
  refine ⟨?_, ?_, ?_, ?_, ?_⟩
  · intro b hb
    rcases List.mem_append.mp hb with hb | hb
    · exact find_append_of_some (h.live b hb)
    · rw [List.mem_singleton.mp hb]
      exact find_append_new fun d hd => (ha.2 d hd).1
  · intro b hb
    rcases List.mem_append.mp hb with hb | hb
    · exact h.nonzero b hb
    · rw [List.mem_singleton.mp hb]
      exact hne
  · refine List.nodup_append.mpr ⟨h.nodup, by simp, ?_⟩
    intro b hb d hd
    rw [List.mem_singleton.mp hd]
    rintro rfl
    exact (hfresh _ hb).1 rfl
  · intro b hb d hd hbd
    rcases List.mem_append.mp hb with hb | hb <;> rcases List.mem_append.mp hd with hd | hd
    · exact h.apart b hb d hd hbd
    · rw [List.mem_singleton.mp hd]
      exact (hfresh b hb).2
    · rw [List.mem_singleton.mp hb]
      exact (hfresh d hd).2.symm
    · rw [List.mem_singleton.mp hb, List.mem_singleton.mp hd] at hbd
      exact absurd rfl hbd
  · exact h.holds.write _ (Cells.matches_unwritten (by simp))

/-- A block that is given back. -/
theorem release (h : Refines m node) (hb : b ∈ m.blocks) :
    Refines (m.release b) { node with blocks := node.blocks.erase b } := by
  have hsub : ∀ c ∈ m.blocks.erase b, c ≠ b ∧ c ∈ m.blocks :=
    fun c hc => (h.nodup.mem_erase_iff).mp hc
  refine ⟨?_, ?_, h.nodup.erase b, ?_, h.holds.forget _ _⟩
  · intro c hc
    obtain ⟨hne, hc⟩ := hsub c hc
    have hptr : b.ptr ≠ c.ptr := fun heq => hne (h.eq_of_ptr hc hb heq.symm)
    exact (find_erase hptr).trans (h.live c hc)
  · intro c hc
    exact h.nonzero c (hsub c hc).2
  · intro c hc d hd
    exact h.apart c (hsub c hc).2 d (hsub d hd).2

/-- A block that moves with what it holds. -/
theorem resize (h : Refines m node) (hb : b ∈ m.blocks)
    (ha : Allocates sys (node.blocks.erase b) size) :
    Refines (m.resize b ⟨sys.block.toNat, size⟩) (moved sys node b size) := by
  have hfresh := (h.release hb).allocate ha
  exact
    { live := hfresh.live
      nonzero := hfresh.nonzero
      nodup := hfresh.nodup
      apart := hfresh.apart
      holds := hfresh.holds.write _ (h.holds.read _ _) }

/-! ## What stays as it is -/

theorem allocate_kept (h : Refines m node) (ha : Allocates sys node.blocks size) (ptr : ℕ) :
    OthersKept m (m.allocate ⟨sys.block.toNat, size⟩) node (node.malloc sys size) ptr := by
  rw [malloc_eq ha]
  intro b hb _
  have hd := (ha.2 b (h.mem_blocks hb)).2
  refine ⟨List.mem_append_left _ hb, fun x hx => ⟨?_, ?_⟩⟩
  · exact write_apart hd hx (by simp)
  · exact write_apart hd hx (by simp)

theorem release_kept (h : Refines m node) (hb : b ∈ m.blocks) :
    OthersKept m (m.release b) node { node with blocks := node.blocks.erase b } b.ptr := by
  intro c hc hptr
  have hne : c ≠ b := fun heq => hptr (by rw [heq])
  refine ⟨(h.nodup.mem_erase_iff).mpr ⟨hne, hc⟩, fun x hx => ⟨rfl, ?_⟩⟩
  exact write_apart (h.apart c hc b hb hne) hx (by simp)

theorem resize_kept (h : Refines m node) (hb : b ∈ m.blocks)
    (ha : Allocates sys (node.blocks.erase b) size) :
    OthersKept m (m.resize b ⟨sys.block.toNat, size⟩) node (moved sys node b size) b.ptr := by
  intro c hc hptr
  obtain ⟨hrel, hkept⟩ := h.release_kept hb c hc hptr
  obtain ⟨hall, hkept'⟩ := (h.release hb).allocate_kept ha b.ptr c hrel hptr
  have hd : c.Disjoint ⟨sys.block.toNat, size⟩ :=
    (ha.2 c ((h.release hb).mem_blocks hrel)).2
  refine ⟨hall, fun x hx => ⟨?_, ?_⟩⟩
  · exact (write_apart hd hx (by simp)).trans (hkept' x hx).1
  · exact (write_apart hd hx (by simp)).trans ((hkept' x hx).2.trans (hkept x hx).2)

end Refines

/-! ## One call -/

/-- What a call does: `m` and `node` are before it, `m'` and `node'` after it. -/
def Correct (m m' : FlatMemory) (node node' : Node) (r : Result) : Call → Prop
  | .rmalloc size =>
      ∃ p, r = .ptr p ∧ p ≠ 0 ∧ ⟨p.toNat, size.toNat⟩ ∈ m'.blocks ∧
        OthersKept m m' node node' 0
  | .rrealloc rvoid size =>
      ∃ p, r = .ptr p ∧ p ≠ 0 ∧ ⟨p.toNat, size.toNat⟩ ∈ m'.blocks ∧
        (∀ b ∈ m.blocks, b.ptr = rvoid.toNat → ∀ i < min b.size size.toNat,
          node'.mem (p.toNat + i) = node.mem (b.ptr + i) ∧
            m'.bytes (p.toNat + i) = m.bytes (b.ptr + i)) ∧
        OthersKept m m' node node' rvoid.toNat
  | .rfree rvoid =>
      r = .status 0 ∧ node'.mem = node.mem ∧ OthersKept m m' node node' rvoid.toNat
  | .memcpy loc remote size .local2Remote =>
      r = .copied 0 loc ∧ node' = { node with mem := node'.mem } ∧
        (∀ i < size.toNat, some (node'.mem (remote.toNat + i)) = loc[i]? ∧
          m'.bytes (remote.toNat + i) = loc[i]?) ∧
        ∀ x, ¬ (remote.toNat ≤ x ∧ x < remote.toNat + size.toNat) →
          node'.mem x = node.mem x ∧ m'.bytes x = m.bytes x
  | .memcpy loc remote size .remote2Local =>
      node' = node ∧ ∃ data, r = .copied 0 (data ++ loc.drop size.toNat) ∧
        data.length = size.toNat ∧ ∀ i < size.toNat,
          data[i]? = some (node.mem (remote.toNat + i)) ∧
            ∀ v, m.bytes (remote.toNat + i) = some v → data[i]? = some v
  | _ => False

/-- A call returns, does what it should, and leaves the two memories related. -/
def Served (env : Env) (s : Session) (m : FlatMemory) (c : Call) : Prop :=
  ∃ t r, c.perform env s = .ok (t, r) ∧ t.Synced ∧ Refines (m.step c r) t.serving.node ∧
    Correct m (m.step c r) s.serving.node t.serving.node r c

section OneCall

variable {env : Env} {s : Session} {m : FlatMemory}

theorem served_rmalloc (hs : s.Synced) (h : Refines m s.serving.node) {size : ℤ}
    (hlegal : m.Legal (.rmalloc size))
    (ha : Allocates env.sys s.serving.node.blocks size.toNat) :
    Served env s m (.rmalloc size) := by
  obtain ⟨t, hcall, ht, hnode⟩ := dicRmalloc_ok env hs hlegal.1 hlegal.2
  refine ⟨t, .ptr env.sys.block, ?_, ht, ?_, env.sys.block, rfl, ha.1, ?_, ?_⟩
  · rw [Call.perform, hcall]
    rfl
  · rw [hnode]
    exact h.allocate ha
  · exact List.mem_append_right _ (List.mem_singleton.mpr rfl)
  · rw [hnode]
    exact h.allocate_kept ha 0

/-- `realloc(NULL, size)` is `malloc(size)`. -/
theorem served_rrealloc_null (hs : s.Synced) (h : Refines m s.serving.node) {size : ℤ}
    (hpos : 0 < size) (hint : size ≤ intMax)
    (ha : Allocates env.sys s.serving.node.blocks size.toNat) :
    Served env s m (.rrealloc 0 size) := by
  have hstep : m.step (.rrealloc 0 size) (.ptr env.sys.block) =
      m.allocate ⟨env.sys.block.toNat, size.toNat⟩ := by
    rw [FlatMemory.step, UInt64.toNat_zero, h.blockAt_zero]
  obtain ⟨t, hcall, ht, hnode⟩ := dicRrealloc_ok env hs hpos hint (if_pos rfl)
  refine ⟨t, .ptr env.sys.block, ?_, ht, ?_, env.sys.block, rfl, ha.1, ?_, ?_, ?_⟩
  · rw [Call.perform, hcall]
    rfl
  · rw [hstep, hnode]
    exact h.allocate ha
  · rw [hstep]
    exact List.mem_append_right _ (List.mem_singleton.mpr rfl)
  · intro b hb hzero
    exact absurd hzero (h.nonzero b hb)
  · rw [hstep, hnode]
    exact h.allocate_kept ha _

theorem served_rrealloc_live (hs : s.Synced) (h : Refines m s.serving.node) {rvoid : UInt64}
    {size : ℤ} (hpos : 0 < size) (hint : size ≤ intMax) (hne : rvoid ≠ 0) {b : Block}
    (hb : b ∈ m.blocks) (hbptr : b.ptr = rvoid.toNat)
    (ha : Allocates env.sys (s.serving.node.blocks.erase b) size.toNat) :
    Served env s m (.rrealloc rvoid size) := by
  have hblock : s.serving.node.blockAt rvoid.toNat = some b := hbptr ▸ h.live b hb
  have hsize : size.toNat ≠ 0 := by omega
  have hrealloc : s.serving.node.realloc env.sys rvoid size.toNat =
      some (moved env.sys s.serving.node b size.toNat, env.sys.block) := by
    rw [Node.realloc, if_neg hne, hblock, Option.map_some, if_neg hsize, if_neg ha.1]
    rfl
  have hstep : m.step (.rrealloc rvoid size) (.ptr env.sys.block) =
      m.resize b ⟨env.sys.block.toNat, size.toNat⟩ := by
    rw [FlatMemory.step, ← hbptr, h.blockAt hb]
  obtain ⟨t, hcall, ht, hnode⟩ := dicRrealloc_ok env hs hpos hint hrealloc
  refine ⟨t, .ptr env.sys.block, ?_, ht, ?_, env.sys.block, rfl, ha.1, ?_, ?_, ?_⟩
  · rw [Call.perform, hcall]
    rfl
  · rw [hstep, hnode]
    exact h.resize hb ha
  · rw [hstep]
    exact List.mem_append_right _ (List.mem_singleton.mpr rfl)
  · intro c hc hcptr i hi
    obtain rfl := h.eq_of_ptr hc hb (hcptr.trans hbptr.symm)
    rw [hstep, hnode]
    exact ⟨ByteMemory.write_read _ _ _ _ hi, ByteMemory.write_read _ _ _ _ hi⟩
  · rw [hstep, hnode, ← hbptr]
    exact h.resize_kept hb ha

theorem served_rrealloc (hs : s.Synced) (h : Refines m s.serving.node) {rvoid : UInt64}
    {size : ℤ} (hlegal : m.Legal (.rrealloc rvoid size))
    (ha : Lawful env.sys s.serving.node (.rrealloc rvoid size)) :
    Served env s m (.rrealloc rvoid size) := by
  obtain ⟨⟨hpos, hint⟩, hptr⟩ := hlegal
  rcases eq_or_ne rvoid 0 with rfl | hne
  · rw [Lawful, if_pos rfl] at ha
    exact served_rrealloc_null hs h hpos hint ha
  · obtain ⟨b, hb, hbptr⟩ := hptr.resolve_left hne
    rw [Lawful, if_neg hne] at ha
    exact served_rrealloc_live hs h hpos hint hne hb hbptr (ha b (hbptr ▸ h.live b hb))

theorem served_rfree (hs : s.Synced) (h : Refines m s.serving.node) {rvoid : UInt64}
    (hlegal : m.Legal (.rfree rvoid)) : Served env s m (.rfree rvoid) := by
  rcases eq_or_ne rvoid 0 with rfl | hne
  · have hstep : m.step (.rfree 0) (.status 0) = m := by
      rw [FlatMemory.step, UInt64.toNat_zero, h.blockAt_zero]
    obtain ⟨t, hcall, ht, hnode⟩ := dicRfree_ok env hs (if_pos rfl)
    refine ⟨t, .status 0, ?_, ht, ?_, rfl, ?_, ?_⟩
    · rw [Call.perform, hcall]
      rfl
    · rw [hstep, hnode]
      exact h
    · rw [hnode]
    · rw [hstep, hnode]
      exact fun b hb _ => ⟨hb, fun _ _ => ⟨rfl, rfl⟩⟩
  · obtain ⟨b, hb, hbptr⟩ := hlegal.resolve_left hne
    have hfree : s.serving.node.free rvoid =
        some { s.serving.node with blocks := s.serving.node.blocks.erase b } := by
      rw [Node.free, if_neg hne, ← hbptr, h.live b hb, Option.map_some]
    have hstep : m.step (.rfree rvoid) (.status 0) = m.release b := by
      rw [FlatMemory.step, ← hbptr, h.blockAt hb]
    obtain ⟨t, hcall, ht, hnode⟩ := dicRfree_ok env hs hfree
    refine ⟨t, .status 0, ?_, ht, ?_, rfl, ?_, ?_⟩
    · rw [Call.perform, hcall]
      rfl
    · rw [hstep, hnode]
      exact h.release hb
    · rw [hnode]
    · rw [hstep, hnode, ← hbptr]
      exact h.release_kept hb

theorem served_local2Remote (hs : s.Synced) (h : Refines m s.serving.node) {loc : List UInt8}
    {remote : UInt64} {size : ℤ} (hlegal : m.Legal (.memcpy loc remote size .local2Remote)) :
    Served env s m (.memcpy loc remote size .local2Remote) := by
  obtain ⟨⟨h0, hfits⟩, hloc, b, hb, hhas⟩ := hlegal
  have hlen : (loc.take size.toNat).length = size.toNat := by simpa using hloc
  have hcopy : s.serving.node.memcpyTo env.sys remote.toNat (loc.take size.toNat) =
      some { s.serving.node with
        mem := ByteMemory.write s.serving.node.mem remote.toNat (loc.take size.toNat) } := by
    rw [Node.memcpyTo, hlen]
    exact if_pos (Or.inr (Or.inl ⟨b, h.mem_blocks hb, hhas⟩))
  obtain ⟨t, hcall, ht, hnode⟩ :=
    dicMemcpyC2n_ok env hs h0 (by unfold reqHeadSize; omega) hloc hcopy
  refine ⟨t, .copied 0 loc, ?_, ht, ?_, rfl, ?_, ?_, ?_⟩
  · rw [Call.perform, dicMemcpy, hcall]
    rfl
  · rw [hnode]
    exact ⟨h.live, h.nonzero, h.nodup, h.apart, h.holds.write _ (Cells.matches_stored _)⟩
  · rw [hnode]
  · intro i hi
    rw [hnode]
    have hget : (loc.take size.toNat)[i]? = loc[i]? := List.getElem?_take_of_lt hi
    rw [← hget]
    exact ⟨ByteMemory.write_at _ _ (by omega), ByteMemory.write_stored _ _ (by omega)⟩
  · intro x hx
    rw [hnode]
    exact ⟨ByteMemory.write_outside (by omega),
      ByteMemory.write_outside (by rw [Cells.length_stored]; omega)⟩

theorem served_remote2Local (hs : s.Synced) (h : Refines m s.serving.node) {loc : List UInt8}
    {remote : UInt64} {size : ℤ} (hlegal : m.Legal (.memcpy loc remote size .remote2Local)) :
    Served env s m (.memcpy loc remote size .remote2Local) := by
  obtain ⟨⟨h0, hfits⟩, hloc, b, hb, hhas⟩ := hlegal
  have hcopy : s.serving.node.memcpyFrom env.sys remote.toNat size.toNat =
      some (ByteMemory.read s.serving.node.mem remote.toNat size.toNat) :=
    if_pos (Or.inr (Or.inl ⟨b, h.mem_blocks hb, hhas⟩))
  obtain ⟨t, hcall, ht, hnode⟩ := dicMemcpyN2c_ok env hs h0 (by unfold reqHeadSize; omega)
    hloc hcopy (ByteMemory.length_read _ _ _)
  refine ⟨t, _, ?_, ht, ?_, hnode,
    ByteMemory.read s.serving.node.mem remote.toNat size.toNat, rfl,
    ByteMemory.length_read _ _ _, ?_⟩
  · rw [Call.perform, dicMemcpy, hcall]
    rfl
  · rw [hnode]
    exact h
  · intro i hi
    refine ⟨ByteMemory.getElem?_read hi, fun v hv => ?_⟩
    rw [ByteMemory.getElem?_read hi, h.holds _ v hv]

theorem served (hs : s.Synced) (h : Refines m s.serving.node) {c : Call} (hlegal : m.Legal c)
    (hlawful : Lawful env.sys s.serving.node c) : Served env s m c := by
  cases c with
  | rmalloc size => exact served_rmalloc hs h hlegal hlawful
  | rrealloc rvoid size => exact served_rrealloc hs h hlegal hlawful
  | rfree rvoid => exact served_rfree hs h hlegal
  | memcpy loc remote size mode =>
      cases mode with
      | local2Remote => exact served_local2Remote hs h hlegal
      | remote2Local => exact served_remote2Local hs h hlegal
  | soLoad | soUnload | soUpload | funcLoad | rthreadRun | rthreadJoin => exact hlegal.elim

end OneCall

/-! ## Every sequence of calls -/

/-- One client with one node: the two processes, and what the client knows of
the memory. -/
def remoteMemory (node : Node) : Lts (Session × FlatMemory) (Env × Call) where
  init s := s = (.start node, .empty)
  step s l t := ∃ r, l.2.perform l.1 s.1 = .ok (t.1, r) ∧ t.2 = s.2.step l.2 r

/-- The call is legal, and the node's `malloc` and `realloc` are lawful. -/
def Allowed (s : Session × FlatMemory) (l : Env × Call) : Prop :=
  s.2.Legal l.2 ∧ Lawful l.1.sys s.1.serving.node l.2

theorem refines {node : Node} {s : Session × FlatMemory}
    (h : ((remoteMemory node).restrict Allowed).Reachable s) :
    s.1.Synced ∧ Refines s.2 s.1.serving.node := by
  apply h.invariant
  · rintro _ rfl
    exact ⟨Session.synced_start node, refines_empty node⟩
  · rintro ⟨s, m⟩ ⟨env, c⟩ ⟨t, m'⟩ ⟨hs, hm⟩ ⟨⟨hlegal, hlawful⟩, r, hperf, hstep⟩
    obtain ⟨t', r', hperf', ht, hrefines, _⟩ := served hs hm hlegal hlawful
    rw [hperf] at hperf'
    cases hperf'
    rw [hstep]
    exact ⟨ht, hrefines⟩

/-- After every sequence of legal calls on a node whose allocator follows the C
standard, however the messages are cut and whatever fresh memory holds: the next
legal call returns, and is correct. -/
theorem remote_memory_flat {node : Node} {s : Session × FlatMemory}
    (h : ((remoteMemory node).restrict Allowed).Reachable s) {env : Env} {c : Call}
    (hc : Allowed s (env, c)) :
    ∃ t r, c.perform env s.1 = .ok (t, r) ∧
      Correct s.2 (s.2.step c r) s.1.serving.node t.serving.node r c := by
  obtain ⟨hs, hm⟩ := refines h
  obtain ⟨t, r, hperf, _, _, hcorrect⟩ := served hs hm hc.1 hc.2
  exact ⟨t, r, hperf, hcorrect⟩

/-- Three bytes are copied into a block of four. -/
theorem remote_memory_flat_run :
    ∃ s, ((remoteMemory .new).restrict Allowed).Reachable s ∧ ∃ p t,
      (Call.memcpy [7, 8, 9] p 3 .local2Remote).perform .calm s.1 =
        .ok (t, .copied 0 [7, 8, 9]) ∧ t.serving.node.mem (p.toNat + 1) = 8 := by
  have hinit : ((remoteMemory .new).restrict Allowed).Reachable (.start .new, .empty) :=
    .init rfl
  have hmalloc : Allowed (.start .new, .empty) (.calm, .rmalloc 4) := by
    refine ⟨⟨by decide, by decide⟩, by decide, ?_⟩
    intro b hb
    cases hb
  obtain ⟨s, _, hperf, p, rfl, _⟩ := remote_memory_flat hinit hmalloc
  have hreach := hinit.step (l := (.calm, .rmalloc 4))
    (t := (s, FlatMemory.empty.step (.rmalloc 4) (.ptr p))) ⟨hmalloc, _, hperf, rfl⟩
  have hcopy : Allowed (s, FlatMemory.empty.step (.rmalloc 4) (.ptr p))
      (.calm, .memcpy [7, 8, 9] p 3 .local2Remote) := by
    refine ⟨⟨by decide, by decide, ⟨p.toNat, 4⟩, List.mem_singleton.mpr rfl, ?_⟩, trivial⟩
    show p.toNat ≤ p.toNat ∧ p.toNat + 3 ≤ p.toNat + 4
    omega
  obtain ⟨t, _, hperf', rfl, _, hwritten, _⟩ := remote_memory_flat hreach hcopy
  exact ⟨_, hreach, p, t, hperf', Option.some.inj (hwritten 1 (by decide)).1⟩

end Dicon.RemoteMemory
