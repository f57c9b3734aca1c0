import Dicon.RemoteThreads.Machine

/-!
# What a program has on its nodes

A program that allocates, writes, runs, joins and frees keeps track of what it has on a
node: blocks with known contents, and threads that work on such a block (`Asset`).
`Holds` says that the node is in a state that a list of assets describes, whatever its
threads have done since. What happens on the node by itself keeps it (`Holds.drift`),
and each function of the library has one rule: what it needs, and what the program has
afterwards.
-/

namespace Dicon.RemoteThreads

open Framework Node Client RemoteMemory

/-- What a block holds, as far as the client knows. -/
def Remote.contents (s : Remote) (b : Block) : Cells UInt8 :=
  ByteMemory.read s.memory.bytes b.ptr b.size

/-- The block that a thread has returned. -/
def Remote.resultBlock (s : Remote) (tid : UInt64) : List Block :=
  match s.threads tid with
  | some (.finished result _) => [result]
  | _ => []

inductive Asset
  | block (b : Block) (cs : Cells UInt8)
  /-- a thread of `func` whose argument is the block `b` -/
  | task (tid func : UInt64) (b : Block) (args : List UInt8)

namespace Asset

def tid : Asset → Option UInt64
  | .block _ _ => none
  | .task tid _ _ _ => some tid

/-- The blocks that belong to it. -/
def blocks (s : Remote) : Asset → List Block
  | .block b _ => [b]
  | .task tid _ b _ => b :: s.resultBlock tid

/-- The thread works, or has returned what its function computes. -/
def Working (code : RemoteCode) (s : Remote) (tid func : UInt64) (b : Block)
    (args : List UInt8) : Prop :=
  s.threads tid = some (.running func (.ofNat b.ptr)) ∨
    ∃ result contents, s.threads tid = some (.finished result contents) ∧
      result ∈ s.memory.blocks ∧ result.size = contents.length ∧
      s.contents result = Cells.stored contents ∧ code.returns func args contents ∧
      result.ptr + result.size < 2 ^ 64

/-- The function does not crash, and returns something. -/
def Sound (code : RemoteCode) (func : UInt64) (args : List UInt8) : Prop :=
  ¬ code.faults func args ∧ ∃ contents, code.returns func args contents

def Holds (code : RemoteCode) (s : Remote) : Asset → Prop
  | .block b cs => b ∈ s.memory.blocks ∧ s.contents b = cs
  | .task tid func b args =>
      b ∈ s.memory.blocks ∧ s.contents b = Cells.stored args ∧ b.size = code.argSize func ∧
        b.ptr < 2 ^ 64 ∧ Sound code func args ∧ Working code s tid func b args

end Asset

/-- The node is up and in step with the client, and the program has these assets there,
apart from each other; it has no other threads. -/
structure Holds (code : RemoteCode) (s : Remote) (as : List Asset) : Prop where
  synced : s.session.Synced
  refines : Refines s.memory s.node
  up : s.crashed = false
  apart : (as.flatMap (Asset.blocks s)).Nodup
  tids : (as.filterMap Asset.tid).Nodup
  each : ∀ a ∈ as, a.Holds code s
  known : ∀ tid st, s.threads tid = some st → tid ∈ as.filterMap Asset.tid

section Rules

variable {code : RemoteCode} {s t : Remote} {as bs : List Asset}

theorem Holds.perm (h : Holds code s as) (hp : as.Perm bs) : Holds code s bs where
  synced := h.synced
  refines := h.refines
  up := h.up
  apart := (hp.flatMap_right _).nodup_iff.mp h.apart
  tids := (hp.filterMap _).nodup_iff.mp h.tids
  each := fun a ha => h.each a (hp.mem_iff.mpr ha)
  known := fun tid st ht => (hp.filterMap _).mem_iff.mp (h.known tid st ht)

/-- Blocks may be forgotten. -/
theorem Holds.forget {b : Block} {cs : Cells UInt8} (h : Holds code s (.block b cs :: as)) :
    Holds code s as where
  synced := h.synced
  refines := h.refines
  up := h.up
  apart := (List.nodup_append.mp h.apart).2.1
  tids := h.tids
  each := fun a ha => h.each a (List.mem_cons_of_mem _ ha)
  known := h.known

/-! ## What stays -/

/-- The block is there with the same contents. -/
def Keeps (s t : Remote) (b : Block) : Prop := b ∈ t.memory.blocks ∧ t.contents b = s.contents b

theorem resultBlock_congr {tid : UInt64} (h : t.threads tid = s.threads tid) :
    t.resultBlock tid = s.resultBlock tid := by
  rw [Remote.resultBlock, Remote.resultBlock, h]

theorem resultBlock_finished {tid : UInt64} {result : Block} {contents : List UInt8}
    (h : s.threads tid = some (.finished result contents)) : s.resultBlock tid = [result] := by
  rw [Remote.resultBlock, h]

theorem resultBlock_running {tid func args : UInt64}
    (h : s.threads tid = some (.running func args)) : s.resultBlock tid = [] := by
  rw [Remote.resultBlock, h]

/-- An asset whose thread and blocks nothing has happened to. -/
theorem Asset.Holds.frame {a : Asset} (h : a.Holds code s)
    (hthread : ∀ tid, a.tid = some tid → t.threads tid = s.threads tid)
    (hkeeps : ∀ b ∈ a.blocks s, Keeps s t b) : a.Holds code t ∧ a.blocks t = a.blocks s := by
  cases a with
  | block b cs =>
      obtain ⟨hb, hcs⟩ := hkeeps b (List.mem_singleton.mpr rfl)
      exact ⟨⟨hb, hcs.trans h.2⟩, rfl⟩
  | task tid func b args =>
      obtain ⟨_, hargs, hsize, hptr, hsound, hwork⟩ := h
      have hsame := hthread tid rfl
      obtain ⟨hb, hcs⟩ := hkeeps b List.mem_cons_self
      refine ⟨⟨hb, hcs.trans hargs, hsize, hptr, hsound, ?_⟩, ?_⟩
      · rcases hwork with hrun | ⟨result, contents, hfin, _, hlen, hres, hret, hspace⟩
        · exact Or.inl (hsame.trans hrun)
        · have hmem : result ∈ Asset.blocks s (.task tid func b args) := by
            rw [Asset.blocks, resultBlock_finished hfin]
            exact List.mem_cons_of_mem _ (List.mem_singleton.mpr rfl)
          obtain ⟨hr, hrcs⟩ := hkeeps result hmem
          exact Or.inr ⟨result, contents, hsame.trans hfin, hr, hlen, hrcs.trans hres, hret, hspace⟩
      · rw [Asset.blocks, Asset.blocks, resultBlock_congr hsame]

/-- The assets that a step does not touch. -/
theorem frame_each (heach : ∀ a ∈ as, a.Holds code s)
    (hthreads : ∀ a ∈ as, ∀ tid, a.tid = some tid → t.threads tid = s.threads tid)
    (hkeeps : ∀ b ∈ as.flatMap (Asset.blocks s), Keeps s t b) :
    (∀ a ∈ as, a.Holds code t) ∧ as.flatMap (Asset.blocks t) = as.flatMap (Asset.blocks s) := by
  have hall : ∀ a ∈ as, a.Holds code t ∧ a.blocks t = a.blocks s := fun a ha =>
    (heach a ha).frame (hthreads a ha) fun b hb =>
      hkeeps b (List.mem_flatMap.mpr ⟨a, ha, hb⟩)
  refine ⟨fun a ha => (hall a ha).1, ?_⟩
  rw [List.flatMap_def, List.flatMap_def]
  congr 1
  exact List.map_congr_left fun a ha => (hall a ha).2

theorem Asset.Holds.blocks_mem {a : Asset} (h : a.Holds code s) :
    ∀ b ∈ a.blocks s, b ∈ s.memory.blocks := by
  cases a with
  | block b cs =>
      rintro c hc
      rw [List.mem_singleton.mp hc]
      exact h.1
  | task tid func b args =>
      rintro c hc
      rcases List.mem_cons.mp hc with rfl | hc
      · exact h.1
      · rcases h.2.2.2.2.2 with hrun | ⟨result, contents, hfin, hr, _⟩
        · rw [resultBlock_running hrun] at hc
          cases hc
        · rw [resultBlock_finished hfin] at hc
          rw [List.mem_singleton.mp hc]
          exact hr

theorem Holds.blocks_mem (h : Holds code s as) :
    ∀ b ∈ as.flatMap (Asset.blocks s), b ∈ s.memory.blocks := by
  intro b hb
  obtain ⟨a, ha, hba⟩ := List.mem_flatMap.mp hb
  exact (h.each a ha).blocks_mem b hba

/-- Every thread is one of the assets. -/
theorem Holds.task_of_thread (h : Holds code s as) {tid : UInt64} {st : ThreadState}
    (hst : s.threads tid = some st) :
    ∃ func b args rest, as.Perm (.task tid func b args :: rest) := by
  obtain ⟨a, ha, htid⟩ := List.mem_filterMap.mp (h.known tid st hst)
  obtain ⟨before, behind, rfl⟩ := List.append_of_mem ha
  cases a with
  | block b cs => cases htid
  | task tid' func b args =>
      cases htid
      exact ⟨func, b, args, before ++ behind, List.perm_middle⟩

/-- A known block, as the node has it. -/
theorem read_eq (href : Refines s.memory s.node) {b : Block} {vs : List UInt8}
    (hcs : s.contents b = Cells.stored vs) : ByteMemory.read s.node.mem b.ptr b.size = vs := by
  have hmatch := href.holds.read b.ptr b.size
  rw [← Remote.contents, hcs] at hmatch
  exact (Cells.eq_of_matches_stored hmatch)

/-! ## What the threads do -/

/-- The argument of a thread is what the client has put there. -/
theorem argument_eq (href : Refines s.memory s.node) {func : UInt64} {b : Block}
    {args : List UInt8} (hcs : s.contents b = Cells.stored args)
    (hsize : b.size = code.argSize func) (hptr : b.ptr < 2 ^ 64) :
    s.argument code func (.ofNat b.ptr) = args := by
  have haddr : (UInt64.ofNat b.ptr).toNat = b.ptr := by
    rw [UInt64.toNat_ofNat']
    exact Nat.mod_eq_of_lt hptr
  rw [Remote.argument, haddr, ← hsize]
  exact read_eq href hcs

theorem hasArgument (href : Refines s.memory s.node) {func : UInt64} {b : Block}
    (hb : b ∈ s.memory.blocks) (hsize : b.size = code.argSize func) (hptr : b.ptr < 2 ^ 64) :
    s.HasArgument code func (.ofNat b.ptr) := by
  have haddr : (UInt64.ofNat b.ptr).toNat = b.ptr := by
    rw [UInt64.toNat_ofNat']
    exact Nat.mod_eq_of_lt hptr
  refine ⟨b, href.mem_blocks hb, ?_⟩
  rw [haddr, Block.Has, hsize]
  exact ⟨Nat.le_refl _, Nat.le_refl _⟩

/-- The blocks of the client do not notice the allocation of a thread. -/
theorem finish_keeps (href : Refines s.memory s.node) {sys : Sys} {contents : List UInt8}
    (ha : Allocates sys s.node.blocks contents.length) (tid : UInt64) {b : Block}
    (hb : b ∈ s.memory.blocks) : Keeps s (s.finish sys tid contents) b := by
  obtain ⟨hb', hbytes⟩ := href.allocate_kept ha 0 b hb (href.nonzero b hb)
  refine ⟨hb', ByteMemory.read_congr fun i hi => ?_⟩
  have hx : b.Has (b.ptr + i) 1 := by
    unfold Block.Has
    omega
  have hapart : b.Disjoint ⟨sys.block.toNat, contents.length⟩ :=
    (ha.2 b (href.mem_blocks hb)).2
  exact (write_apart hapart hx (by simp)).trans (hbytes _ hx).2

theorem finish_refines (href : Refines s.memory s.node) {sys : Sys} {contents : List UInt8}
    (ha : Allocates sys s.node.blocks contents.length) (tid : UInt64) :
    Refines (s.finish sys tid contents).memory (s.finish sys tid contents).node := by
  have hall := href.allocate ha
  exact ⟨hall.live, hall.nonzero, hall.nodup, hall.apart,
    hall.holds.write _ (Cells.matches_stored _)⟩

theorem finish_contents (s : Remote) (sys : Sys) (tid : UInt64) (contents : List UInt8) :
    (s.finish sys tid contents).contents ⟨sys.block.toNat, contents.length⟩ =
      Cells.stored contents := by
  have hread := ByteMemory.read_write (s.memory.allocate
    ⟨sys.block.toNat, contents.length⟩).bytes sys.block.toNat (Cells.stored contents)
  rw [Cells.length_stored] at hread
  exact hread

/-- A thread that has not finished works on its argument. -/
theorem Asset.Holds.running {tid func func' ptr : UInt64} {b : Block} {args : List UInt8}
    (h : Asset.Holds code s (.task tid func b args))
    (hrun : s.threads tid = some (.running func' ptr)) : func' = func ∧ ptr = .ofNat b.ptr := by
  rcases h.2.2.2.2.2 with hrun' | ⟨_, _, hfin, _⟩
  · rw [hrun] at hrun'
    cases hrun'
    exact ⟨rfl, rfl⟩
  · rw [hrun] at hfin
    cases hfin

/-- A thread of the program finishes. -/
theorem Holds.finish {tid func : UInt64} {b : Block} {args contents : List UInt8} {sys : Sys}
    (h : Holds code s (.task tid func b args :: as)) (hrun : ∃ f p, s.threads tid =
      some (.running f p)) (hret : code.returns func args contents)
    (ha : Allocates sys s.node.blocks contents.length)
    (hspace : sys.block.toNat + contents.length < 2 ^ 64) :
    Holds code (s.finish sys tid contents) (.task tid func b args :: as) := by
  let result : Block := ⟨sys.block.toNat, contents.length⟩
  obtain ⟨hb, hcs, hsize, hptr, hsound, hwork⟩ := h.each _ List.mem_cons_self
  have hkeeps : ∀ c ∈ s.memory.blocks, Keeps s (s.finish sys tid contents) c :=
    fun c hc => finish_keeps h.refines ha tid hc
  have hthread : (s.finish sys tid contents).threads tid = some (.finished result contents) :=
    Function.update_self ..
  have hothers : ∀ u, u ≠ tid → (s.finish sys tid contents).threads u = s.threads u :=
    fun u hu => Function.update_of_ne hu ..
  obtain ⟨hhead, _⟩ := List.nodup_cons.mp h.tids
  obtain ⟨heach, hblocks⟩ : (∀ a ∈ as, a.Holds code (s.finish sys tid contents)) ∧ _ :=
    frame_each (fun a ha => h.each a (List.mem_cons_of_mem _ ha))
      (fun a ha u hu => hothers u fun heq => hhead (List.mem_filterMap.mpr ⟨a, ha, heq ▸ hu⟩))
      fun c hc => hkeeps c (h.blocks_mem c (List.mem_append_right _ hc))
  have hfresh : result ∉ s.memory.blocks := fun hr =>
    (ha.2 _ (h.refines.mem_blocks hr)).1 rfl
  refine ⟨⟨h.synced.1, h.synced.2, h.synced.3, h.synced.4, h.synced.5, h.synced.6⟩,
    finish_refines h.refines ha tid, h.up, ?_, h.tids, ?_, ?_⟩
  · -- the result is none of the blocks that there were
    obtain ⟨f, p, hrun⟩ := hrun
    have hapart := h.apart
    rw [List.flatMap_cons, Asset.blocks, resultBlock_running hrun] at hapart
    obtain ⟨hbhead, hrest⟩ := List.nodup_cons.mp hapart
    rw [List.flatMap_cons, Asset.blocks, resultBlock_finished hthread, hblocks]
    refine List.nodup_cons.mpr ⟨?_, List.nodup_cons.mpr ⟨?_, hrest⟩⟩
    · rintro hbr
      rcases List.mem_cons.mp hbr with rfl | hbr
      · exact hfresh hb
      · exact hbhead hbr
    · exact fun hr => hfresh (h.blocks_mem _ (List.mem_append_right _ hr))
  · intro a ha
    rcases List.mem_cons.mp ha with rfl | ha
    · obtain ⟨hb', hcs'⟩ := hkeeps b hb
      refine ⟨hb', hcs'.trans hcs, hsize, hptr, hsound, Or.inr ⟨result, contents, hthread, ?_, rfl,
        finish_contents s sys tid contents, hret, hspace⟩⟩
      exact List.mem_append_right _ (List.mem_singleton.mpr rfl)
    · exact heach a ha
  · intro u st hu
    by_cases heq : u = tid
    · rw [heq]
      exact List.mem_cons_self
    · rw [hothers u heq] at hu
      exact h.known u st hu

/-- What happens on the node by itself. -/
theorem Holds.drift (h : Holds code s as) (hd : s.Drift code t) : Holds code t as := by
  cases hd with
  | @crash tid func args hrun hfault =>
      -- the threads of the program do not crash
      obtain ⟨func', b, bytes, rest, hp⟩ := h.task_of_thread hrun
      have htask := (h.perm hp).each _ List.mem_cons_self
      obtain ⟨rfl, rfl⟩ := htask.running hrun
      obtain ⟨hb, hcs, hsize, hptr, hsound, _⟩ := htask
      have hfaults := hfault (hasArgument h.refines hb hsize hptr)
      rw [argument_eq h.refines hcs hsize hptr] at hfaults
      exact absurd hfaults hsound.1
  | @finish tid func args contents sys hrun _ hret ha hspace =>
      obtain ⟨func', b, bytes, rest, hp⟩ := h.task_of_thread hrun
      have htask := (h.perm hp).each _ List.mem_cons_self
      obtain ⟨rfl, rfl⟩ := htask.running hrun
      obtain ⟨_, hcs, hsize, hptr, _⟩ := htask
      rw [argument_eq h.refines hcs hsize hptr] at hret
      exact ((h.perm hp).finish ⟨_, _, hrun⟩ hret ha hspace).perm hp.symm

end Rules

end Dicon.RemoteThreads
