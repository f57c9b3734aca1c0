import Dicon.RemoteMemory.Shared

/-!
# Threads that keep to their own blocks

A thread that uses only pointers to blocks that it allocated itself has the node's
memory for itself, whatever the other threads do: the calls of the threads are those
of one flat memory for each of them (`threads_isolated`). A call that is not legal in
the memory of its own thread is undefined behaviour for all of them
(`privateObject`).

The memories of the threads are parts of the one that they share (`Shares`). What one
thread does changes only its own part, since `malloc` gives every block to one thread.
-/

namespace Dicon.RemoteMemory

open Framework Node Client SharedConn

/-- The blocks of `k` are blocks of `m`, and hold the same. -/
structure Within (k m : FlatMemory) : Prop where
  nodup : k.blocks.Nodup
  sub : ∀ b ∈ k.blocks, b ∈ m.blocks
  agree : ∀ b ∈ k.blocks, ∀ x, b.Has x 1 → k.bytes x = m.bytes x

/-- The memories of the threads are parts of `m`, and have no block in common. -/
structure Shares {τ : Type*} (m : FlatMemory) (f : τ → FlatMemory) : Prop where
  within : ∀ t, Within (f t) m
  own : ∀ t u, t ≠ u → ∀ b ∈ (f t).blocks, b ∉ (f u).blocks

namespace Within

variable {k m : FlatMemory} {node : Node} {b : Block}

/-! ## The same operation on both -/

theorem allocate (hk : Within k m)
    (hb : ∀ c ∈ m.blocks, c.ptr ≠ b.ptr ∧ c.Disjoint b) :
    Within (k.allocate b) (m.allocate b) where
  nodup := by
    refine List.nodup_append.mpr ⟨hk.nodup, by simp, ?_⟩
    rintro c hc d hd rfl
    rw [List.mem_singleton] at hd
    exact (hb c (hk.sub c hc)).1 (by rw [hd])
  sub c hc := by
    rcases List.mem_append.mp hc with hc | hc
    · exact List.mem_append_left _ (hk.sub c hc)
    · exact List.mem_append_right _ hc
  agree c hc x hx := by
    apply ByteMemory.write_congr
    intro hout
    rcases List.mem_append.mp hc with hc | hc
    · exact hk.agree c hc x hx
    · rw [List.mem_singleton.mp hc] at hx
      obtain ⟨hlo, hhi⟩ := hx
      exact absurd ⟨hlo, by rw [List.length_replicate]; omega⟩ hout

theorem release (hk : Within k m) (h : Refines m node) :
    Within (k.release b) (m.release b) where
  nodup := hk.nodup.erase b
  sub c hc := by
    obtain ⟨hne, hc⟩ := (hk.nodup.mem_erase_iff).mp hc
    exact (h.nodup.mem_erase_iff).mpr ⟨hne, hk.sub c hc⟩
  agree c hc x hx := by
    apply ByteMemory.write_congr
    intro _
    exact hk.agree c (List.mem_of_mem_erase hc) x hx

theorem read_eq (hk : Within k m) (hb : b ∈ k.blocks) {n : ℕ} (hn : n ≤ b.size) :
    ByteMemory.read k.bytes b.ptr n = ByteMemory.read m.bytes b.ptr n := by
  apply ByteMemory.read_congr
  intro i hi
  apply hk.agree b hb
  unfold Block.Has
  omega

theorem resize (hk : Within k m) (h : Refines m node) (hb : b ∈ k.blocks) {b' : Block}
    (hb' : ∀ c ∈ m.blocks, c ≠ b → c.ptr ≠ b'.ptr ∧ c.Disjoint b') :
    Within (k.resize b b') (m.resize b b') := by
  have hfresh : ∀ c ∈ (m.release b).blocks, c.ptr ≠ b'.ptr ∧ c.Disjoint b' := by
    intro c hc
    obtain ⟨hne, hc⟩ := (h.nodup.mem_erase_iff).mp hc
    exact hb' c hc hne
  have hmoved := (hk.release h (b := b)).allocate hfresh
  refine ⟨hmoved.nodup, hmoved.sub, fun c hc x hx => ?_⟩
  -- the contents that move along are the same in both
  show ByteMemory.write _ _ _ x = ByteMemory.write _ _ _ x
  rw [hk.read_eq hb (Nat.min_le_left _ _)]
  exact ByteMemory.write_congr _ fun _ => hmoved.agree c hc x hx

theorem store (hk : Within k m) (a : ℕ) (vs : List UInt8) :
    Within (k.store a vs) (m.store a vs) where
  nodup := hk.nodup
  sub := hk.sub
  agree c hc x hx := ByteMemory.write_congr _ fun _ => hk.agree c hc x hx

/-! ## One call -/

/-- A pointer that is legal for the part means the same block in both. -/
theorem blockAt_eq (hk : Within k m) (h : Refines m node) {ptr : UInt64}
    (hptr : ptr = 0 ∨ ∃ b ∈ k.blocks, b.ptr = ptr.toNat) :
    (ptr = 0 ∧ k.blockAt ptr.toNat = none ∧ m.blockAt ptr.toNat = none) ∨
      ∃ b ∈ k.blocks, b.ptr = ptr.toNat ∧ k.blockAt ptr.toNat = some b ∧
        m.blockAt ptr.toNat = some b := by
  rcases hptr with rfl | ⟨b, hb, hbptr⟩
  · refine Or.inl ⟨rfl, ?_, h.blockAt_zero⟩
    rw [FlatMemory.blockAt, List.find?_eq_none]
    intro b hb
    simpa using h.nonzero b (hk.sub b hb)
  · refine Or.inr ⟨b, hb, hbptr, ?_, hbptr ▸ h.blockAt (hk.sub b hb)⟩
    cases hfind : k.blockAt ptr.toNat with
    | none =>
        rw [FlatMemory.blockAt, List.find?_eq_none] at hfind
        exact absurd (by simpa using hbptr) (hfind b hb)
    | some c =>
        obtain ⟨hc, hcptr⟩ := mem_of_find hfind
        rw [h.eq_of_ptr (hk.sub c hc) (hk.sub b hb) (hcptr.trans hbptr.symm)]

theorem legal (hk : Within k m) {c : Call} (hlegal : k.Legal c) : m.Legal c := by
  cases c with
  | rmalloc size => exact hlegal
  | rrealloc rvoid size =>
      exact ⟨hlegal.1, hlegal.2.imp_right fun ⟨b, hb, hptr⟩ => ⟨b, hk.sub b hb, hptr⟩⟩
  | rfree rvoid => exact hlegal.imp_right fun ⟨b, hb, hptr⟩ => ⟨b, hk.sub b hb, hptr⟩
  | memcpy loc remote size mode =>
      obtain ⟨hsize, hloc, b, hb, hhas⟩ := hlegal
      exact ⟨hsize, hloc, b, hk.sub b hb, hhas⟩
  | _ => exact hlegal

/-- An answer of the shared memory is one of the part. -/
theorem answers (hk : Within k m) {c : Call} (hlegal : k.Legal c) {r : Result}
    (hans : m.Answers c r) : k.Answers c r := by
  cases c with
  | rmalloc size =>
      obtain ⟨p, rfl, hp, hfresh⟩ := hans
      exact ⟨p, rfl, hp, fun b hb => hfresh b (hk.sub b hb)⟩
  | rrealloc rvoid size =>
      obtain ⟨p, rfl, hp, hfresh⟩ := hans
      exact ⟨p, rfl, hp, fun b hb => hfresh b (hk.sub b hb)⟩
  | rfree rvoid => exact hans
  | memcpy loc remote size mode =>
      cases mode with
      | local2Remote => exact hans
      | remote2Local =>
          obtain ⟨_, _, b, hb, hhas⟩ := hlegal
          obtain ⟨data, rfl, hlen, hdata⟩ := hans
          refine ⟨data, rfl, hlen, fun i hi v hv => hdata i hi v ?_⟩
          rw [← hk.agree b hb _ (by unfold Block.Has at *; omega)]
          exact hv
  | _ => exact hans

/-- The part after a call is a part of what is shared afterwards. -/
theorem step (hk : Within k m) (h : Refines m node) {c : Call} (hlegal : k.Legal c) {r : Result}
    (hans : m.Answers c r) : Within (k.step c r) (m.step c r) := by
  cases c with
  | rmalloc size =>
      obtain ⟨p, rfl, _, hfresh⟩ := hans
      exact hk.allocate hfresh
  | rrealloc rvoid size =>
      obtain ⟨p, rfl, _, hfresh⟩ := hans
      rcases hk.blockAt_eq h hlegal.2 with ⟨rfl, hkn, hmn⟩ | ⟨b, hb, hptr, hkb, hmb⟩
      · simp only [FlatMemory.step, hkn, hmn]
        exact hk.allocate fun c hc => hfresh c hc (h.nonzero c hc)
      · simp only [FlatMemory.step, hkb, hmb]
        refine hk.resize h hb fun c hc hne => hfresh c hc fun heq => hne ?_
        exact h.eq_of_ptr hc (hk.sub b hb) (heq.trans hptr.symm)
  | rfree rvoid =>
      obtain rfl : r = .status 0 := hans
      rcases hk.blockAt_eq h hlegal with ⟨rfl, hkn, hmn⟩ | ⟨b, hb, _, hkb, hmb⟩
      · simp only [FlatMemory.step, hkn, hmn]
        exact hk
      · simp only [FlatMemory.step, hkb, hmb]
        exact hk.release h
  | memcpy loc remote size mode =>
      cases mode with
      | local2Remote =>
          obtain rfl : r = .copied 0 loc := hans
          exact hk.store _ _
      | remote2Local =>
          obtain ⟨_, rfl, _⟩ := hans
          exact hk
  | _ => exact hlegal.elim

/-- A block of the part is an old one of it, or not one that was shared before. -/
theorem step_blocks (hk : Within k m) (h : Refines m node) {c : Call} (hlegal : k.Legal c)
    {r : Result} (hans : m.Answers c r) (hb : b ∈ (k.step c r).blocks) :
    b ∈ k.blocks ∨ b ∉ m.blocks := by
  cases c with
  | rmalloc size =>
      obtain ⟨p, rfl, _, hfresh⟩ := hans
      rcases List.mem_append.mp hb with hb | hb
      · exact Or.inl hb
      · rw [List.mem_singleton.mp hb]
        exact Or.inr fun hm => (hfresh _ hm).1 rfl
  | rrealloc rvoid size =>
      obtain ⟨p, rfl, _, hfresh⟩ := hans
      rcases hk.blockAt_eq h hlegal.2 with ⟨rfl, hkn, _⟩ | ⟨d, hd, hptr, hkd, _⟩
      · simp only [FlatMemory.step, hkn] at hb
        rcases List.mem_append.mp hb with hb | hb
        · exact Or.inl hb
        · rw [List.mem_singleton.mp hb]
          exact Or.inr fun hm => (hfresh _ hm (h.nonzero _ hm)).1 rfl
      · simp only [FlatMemory.step, hkd] at hb
        rcases List.mem_append.mp hb with hb | hb
        · exact Or.inl (List.mem_of_mem_erase hb)
        · -- the block may have kept its place
          by_cases hm : b ∈ m.blocks
          · refine Or.inl ?_
            have hbptr : b.ptr = d.ptr := by
              rw [List.mem_singleton.mp hb] at hm ⊢
              by_contra hne
              exact (hfresh _ hm (hptr ▸ hne)).1 rfl
            rw [h.eq_of_ptr hm (hk.sub d hd) hbptr]
            exact hd
          · exact Or.inr hm
  | rfree rvoid =>
      obtain rfl : r = .status 0 := hans
      rcases hk.blockAt_eq h hlegal with ⟨rfl, hkn, _⟩ | ⟨d, _, _, hkd, _⟩
      · simp only [FlatMemory.step, hkn] at hb
        exact Or.inl hb
      · simp only [FlatMemory.step, hkd] at hb
        exact Or.inl (List.mem_of_mem_erase hb)
  | memcpy loc remote size mode =>
      cases mode with
      | local2Remote =>
          obtain rfl : r = .copied 0 loc := hans
          exact Or.inl hb
      | remote2Local =>
          obtain ⟨_, rfl, _⟩ := hans
          exact Or.inl hb
  | _ => exact hlegal.elim

/-- The blocks of the others stay as they are. -/
theorem step_others (hk : Within k m) {node' : Node} (h : Refines m node) {c : Call}
    (hlegal : k.Legal c) {r : Result} (hc : Correct m (m.step c r) node node' r c)
    (hb : b ∈ m.blocks) (hbk : b ∉ k.blocks) :
    b ∈ (m.step c r).blocks ∧ ∀ x, b.Has x 1 → (m.step c r).bytes x = m.bytes x := by
  -- a pointer of the part does not point to `b`
  have hother : ∀ {ptr : UInt64}, (ptr = 0 ∨ ∃ d ∈ k.blocks, d.ptr = ptr.toNat) →
      b.ptr ≠ ptr.toNat := by
    rintro ptr (rfl | ⟨d, hd, hptr⟩) heq
    · exact h.nonzero b hb heq
    · exact hbk (h.eq_of_ptr hb (hk.sub d hd) (heq.trans hptr.symm) ▸ hd)
  cases c with
  | rmalloc size =>
      obtain ⟨_, _, _, _, hkept⟩ := hc
      obtain ⟨hmem, hbytes⟩ := hkept b hb (h.nonzero b hb)
      exact ⟨hmem, fun x hx => (hbytes x hx).2⟩
  | rrealloc rvoid size =>
      obtain ⟨_, _, _, _, _, hkept⟩ := hc
      obtain ⟨hmem, hbytes⟩ := hkept b hb (hother hlegal.2)
      exact ⟨hmem, fun x hx => (hbytes x hx).2⟩
  | rfree rvoid =>
      obtain ⟨hmem, hbytes⟩ := hc.2.2 b hb (hother hlegal)
      exact ⟨hmem, fun x hx => (hbytes x hx).2⟩
  | memcpy loc remote size mode =>
      cases mode with
      | local2Remote =>
          obtain ⟨rfl, _, _, hout⟩ := hc
          obtain ⟨_, _, d, hd, hhas⟩ := hlegal
          refine ⟨hb, fun x hx => (hout x ?_).2⟩
          have hapart := h.apart b hb d (hk.sub d hd) fun heq => hbk (heq ▸ hd)
          unfold Block.Disjoint at hapart
          unfold Block.Has at hx hhas
          omega
      | remote2Local =>
          obtain ⟨_, _, rfl, _⟩ := hc
          exact ⟨hb, fun _ _ => rfl⟩
  | _ => exact hlegal.elim

/-- A part whose blocks stay as they are. -/
theorem keep (hk : Within k m) {m' : FlatMemory}
    (hkept : ∀ b ∈ k.blocks, b ∈ m'.blocks ∧ ∀ x, b.Has x 1 → m'.bytes x = m.bytes x) :
    Within k m' where
  nodup := hk.nodup
  sub b hb := (hkept b hb).1
  agree b hb x hx := (hk.agree b hb x hx).trans ((hkept b hb).2 x hx).symm

end Within

/-! ## One memory for each thread -/

section Threads

variable {τ : Type*} [DecidableEq τ]

/-- A flat memory for each thread. After a call that was not legal in the memory of its
thread they may do anything. -/
def privateObject (τ : Type*) [DecidableEq τ] :
    SeqObject (Option (τ → FlatMemory)) τ Invocation (Option Result) where
  start := some fun _ => .empty
  call t a o m m' := ∀ f, m = some f → (f t).Legal a.call →
    ∃ r, o = some r ∧ (f t).Answers a.call r ∧
      m' = some (Function.update f t ((f t).step a.call r))
  drift _ _ := False

/-- A call of `t` changes the part of `t` only. -/
theorem Shares.step {m : FlatMemory} {f : τ → FlatMemory} {node node' : Node} (hf : Shares m f)
    (h : Refines m node) {t : τ} {c : Call} (hlegal : (f t).Legal c) {r : Result}
    (hans : m.Answers c r) (hc : Correct m (m.step c r) node node' r c) :
    Shares (m.step c r) (Function.update f t ((f t).step c r)) where
  within u := by
    by_cases hut : u = t
    · subst hut
      rw [Function.update_self]
      exact (hf.within u).step h hlegal hans
    · rw [Function.update_of_ne hut]
      exact (hf.within u).keep fun b hb => (hf.within t).step_others h hlegal hc
        ((hf.within u).sub b hb) (hf.own u t hut b hb)
  own u v huv b hb := by
    have hnew : ∀ {w}, w ≠ t → b ∈ ((f t).step c r).blocks → b ∉ (f w).blocks := by
      intro w hwt hbt hbw
      rcases (hf.within t).step_blocks h hlegal hans hbt with hold | hfresh
      · exact hf.own w t hwt b hbw hold
      · exact hfresh ((hf.within w).sub b hbw)
    by_cases hut : u = t
    · subst hut
      rw [Function.update_self] at hb
      rw [Function.update_of_ne (Ne.symm huv)]
      exact hnew (Ne.symm huv) hb
    · rw [Function.update_of_ne hut] at hb
      by_cases hvt : v = t
      · subst hvt
        rw [Function.update_self]
        exact fun hbt => hnew hut hbt hb
      · rw [Function.update_of_ne hvt]
        exact hf.own u v huv b hb

/-- The node holds the memories of all threads. -/
def HoldsAll (node : Node) (ms : Option (τ → FlatMemory)) : Prop :=
  ∀ f, ms = some f → ∃ m, Refines m node ∧ Shares m f

theorem holdsAll_call {t : τ} {a : Invocation} {o : Option Result} {node node' : Node}
    {ms : Option (τ → FlatMemory)} (h : HoldsAll node ms)
    (hcall : (realNode.object τ library LawfulOutcome).call t a o node node') :
    ∃ ms', (privateObject τ).call t a o ms ms' ∧ HoldsAll node' ms' := by
  obtain ⟨sys, resp, hlawful, hhandle, rfl⟩ := hcall
  by_cases hlegal : ∃ f, ms = some f ∧ (f t).Legal a.call
  · obtain ⟨f, rfl, hlegal⟩ := hlegal
    obtain ⟨m, hm, hf⟩ := h f rfl
    have hlegal' := (hf.within t).legal hlegal
    obtain ⟨_, _, r, hhandle', hresult, hanswers, hrefines, hcorrect⟩ :=
      realNode_serves hm hlegal' (hlawful a rfl ⟨m, hlegal'⟩)
    cases hhandle'.symm.trans hhandle
    refine ⟨some (Function.update f t ((f t).step a.call r)), ?_, ?_⟩
    · rintro _ hfm _
      cases hfm
      exact ⟨r, hresult, (hf.within t).answers hlegal hanswers, rfl⟩
    · rintro _ hfm
      cases hfm
      exact ⟨_, hrefines, hf.step hm hlegal hanswers hcorrect⟩
  · refine ⟨none, ?_, fun _ h => by cases h⟩
    rintro f hfm hl
    exact absurd ⟨f, hfm, hl⟩ hlegal

/-- Threads that use only what they allocated themselves do not notice each other: for
any number of threads, any interleaving, any cut of the messages and any lawful
allocator, their calls and what they return are linearizable with respect to one flat
memory for each thread. -/
theorem threads_isolated {caps : Caps} {s : Callers τ Node Invocation}
    {h : List (HistoryEvent τ Invocation (Option Result))}
    (hr : (histories τ realNode caps library LawfulOutcome).Reachable (s, h)) :
    ∃ es ms, Linearization (privateObject τ) h es ms ∧ HoldsAll s.conn.remote ms := by
  obtain ⟨_, phase, es, _, ha⟩ := explained hr
  have h0 : HoldsAll realNode.start (some fun _ : τ => .empty) := by
    rintro _ hf
    cases hf
    refine ⟨.empty, refines_empty _, fun _ => ⟨List.nodup_nil, ?_, ?_⟩, ?_⟩ <;>
      simp [FlatMemory.empty]
  obtain ⟨ms, hms, ha'⟩ : ∃ ms, HoldsAll s.conn.remote ms ∧
      Atomic (privateObject τ) phase ms es h :=
    ha.refine h0 holdsAll_call fun _ hdrift => by cases hdrift.choose_spec
  exact ⟨es, ms, ha'.linearization, hms⟩

theorem threads_isolated_run :
    ∃ s h, (histories Bool realNode ⟨32, 32⟩ library LawfulOutcome).Reachable (s, h) ∧
      s.conn.returned.length = 2 ∧
      ∃ es ms, Linearization (privateObject Bool) h es ms ∧ HoldsAll s.conn.remote ms := by
  obtain ⟨s, h, hreach, hreturned⟩ := overlap_reachable
  exact ⟨s, h, hreach, hreturned, threads_isolated hreach⟩

end Threads

end Dicon.RemoteMemory
