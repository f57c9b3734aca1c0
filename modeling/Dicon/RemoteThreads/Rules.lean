import Dicon.RemoteThreads.Assets

/-!
# The rules for the functions of the library

What each function needs of the assets of a program, and what the program has after it.
The rules for the memory functions come from `served`, the theorem about one call on the
flat memory.
-/

namespace Dicon.RemoteThreads

open Framework Node Client RemoteMemory

section OneNode

variable {code : RemoteCode} {s t : Remote} {as : List Asset} {b : Block} {cs : Cells UInt8}

/-- A legal call of a memory function returns, and the two memories are related after
it as `served` says. -/
theorem Holds.memoryCall (h : Holds code s as) {c : Call} (hlegal : s.memory.Legal c) :
    ¬ s.Fails code c ∧ ∀ r t, s.Answers c r t → t.session.Synced ∧ Refines t.memory t.node ∧
      t.crashed = false ∧ t.threads = s.threads ∧ t.memory = s.memory.step c r ∧
      Correct s.memory t.memory s.node t.node r c := by
  have hlawful : ∀ sys, s.Admits sys c → Lawful sys s.node c := by
    intro sys ha
    cases c with
    | rthreadRun | rthreadJoin => exact hlegal.elim
    | _ => exact ha
  have hthreads : ∀ r, s.threadsAfter c r = s.threads := by
    intro r
    cases c with
    | rthreadRun | rthreadJoin => exact hlegal.elim
    | _ => rfl
  constructor
  · rintro (hcrash | ⟨env, f, ha, hperf⟩ | ⟨tid, rfl, _⟩)
    · rw [h.up] at hcrash
      cases hcrash
    · obtain ⟨u, r, hperf', _⟩ := served h.synced h.refines hlegal (hlawful _ ha)
      rw [hperf] at hperf'
      cases hperf'
    · exact hlegal
  · rintro r t ⟨_, env, session, ha, hperf, rfl⟩
    obtain ⟨u, r', hperf', hu, href, hcorrect⟩ :=
      served h.synced h.refines hlegal (hlawful _ ha)
    rw [hperf] at hperf'
    cases hperf'
    exact ⟨hu, href, rfl, hthreads r, rfl, hcorrect⟩

theorem keeps_of_othersKept {ptr : ℕ} (h : OthersKept s.memory t.memory s.node t.node ptr)
    (hb : b ∈ s.memory.blocks) (hne : b.ptr ≠ ptr) : Keeps s t b := by
  obtain ⟨hb', hbytes⟩ := h b hb hne
  refine ⟨hb', ByteMemory.read_congr fun i hi => (hbytes _ ?_).2⟩
  unfold Block.Has
  omega

/-- A step that touches none of the assets. -/
theorem Holds.untouched (h : Holds code s as) (hsync : t.session.Synced)
    (href : Refines t.memory t.node) (hup : t.crashed = false) (hthreads : t.threads = s.threads)
    (hkeeps : ∀ b ∈ as.flatMap (Asset.blocks s), Keeps s t b) :
    Holds code t as ∧ as.flatMap (Asset.blocks t) = as.flatMap (Asset.blocks s) := by
  obtain ⟨heach, hblocks⟩ := frame_each h.each (fun _ _ tid _ => congrFun hthreads tid) hkeeps
  exact ⟨⟨hsync, href, hup, by rw [hblocks]; exact h.apart, h.tids, heach,
    by rw [hthreads]; exact h.known⟩, hblocks⟩

/-- A block that is none of the other assets' joins them. -/
theorem Holds.add (h : Holds code s as) (hb : b ∈ s.memory.blocks) (hcs : s.contents b = cs)
    (hnew : b ∉ as.flatMap (Asset.blocks s)) : Holds code s (.block b cs :: as) where
  synced := h.synced
  refines := h.refines
  up := h.up
  apart := List.nodup_cons.mpr ⟨hnew, h.apart⟩
  tids := h.tids
  each := List.forall_mem_cons.mpr ⟨⟨hb, hcs⟩, h.each⟩
  known := h.known

/-- `dic_rmalloc` -/
theorem Holds.rmalloc (h : Holds code s as) {size : ℤ} (hpos : 0 < size) (hint : size ≤ intMax) :
    ¬ s.Fails code (.rmalloc size) ∧ ∀ r t, s.Answers (.rmalloc size) r t →
      ∃ p cs, r = .ptr p ∧ Holds code t (.block ⟨p.toNat, size.toNat⟩ cs :: as) := by
  obtain ⟨hfails, hret⟩ := h.memoryCall (c := .rmalloc size) ⟨hpos, hint⟩
  refine ⟨hfails, fun r t ha => ?_⟩
  obtain ⟨hsync, href, hup, hthreads, hmem, p, rfl, _, hb, hkept⟩ := hret r t ha
  have hkeeps : ∀ c ∈ as.flatMap (Asset.blocks s), Keeps s t c := fun c hc =>
    keeps_of_othersKept hkept (h.blocks_mem c hc) (h.refines.nonzero c (h.blocks_mem c hc))
  obtain ⟨hold, hblocks⟩ := h.untouched hsync href hup hthreads hkeeps
  refine ⟨p, t.contents ⟨p.toNat, size.toNat⟩, rfl, hold.add hb rfl fun hnew => ?_⟩
  -- the new block is none of those that were allocated before
  have hnodup := href.nodup
  rw [hmem] at hnodup
  rw [hblocks] at hnew
  exact (List.nodup_append.mp hnodup).2.2 _ (h.blocks_mem _ hnew) _ (List.mem_singleton.mpr rfl)
    rfl

/-- `dic_memcpy` to a whole block. -/
theorem Holds.memcpyTo (h : Holds code s (.block b cs :: as)) {vs : List UInt8} {p : UInt64}
    (hp : p.toNat = b.ptr) (hlen : b.size = vs.length) (hfits : 20 + vs.length ≤ intMax) :
    ¬ s.Fails code (.memcpy vs p vs.length .local2Remote) ∧
      ∀ r t, s.Answers (.memcpy vs p vs.length .local2Remote) r t →
        r = .copied 0 vs ∧ Holds code t (.block b (Cells.stored vs) :: as) := by
  have hb : b ∈ s.memory.blocks := (h.each _ List.mem_cons_self).1
  have hhas : b.Has p.toNat (vs.length : ℤ).toNat := by
    rw [hp, Int.toNat_natCast, Block.Has, hlen]
    exact ⟨Nat.le_refl _, Nat.le_refl _⟩
  obtain ⟨hfails, hret⟩ := h.memoryCall (c := .memcpy vs p vs.length .local2Remote)
    ⟨⟨by omega, by omega⟩, by simp, b, hb, hhas⟩
  refine ⟨hfails, fun r t ha => ?_⟩
  obtain ⟨hsync, href, hup, hthreads, hmem, hr, _, hin, hout⟩ := hret r t ha
  obtain ⟨hnew, hapart⟩ := List.nodup_cons.mp h.apart
  have hblocks : t.memory.blocks = s.memory.blocks := by
    rw [hmem, hr]
    rfl
  have hkeeps : ∀ c ∈ as.flatMap (Asset.blocks s), Keeps s t c := by
    intro c hc
    have hcmem := h.blocks_mem c (List.mem_append_right _ hc)
    have hdisj := h.refines.apart c hcmem b hb fun heq => hnew (heq ▸ hc)
    refine ⟨hblocks ▸ hcmem, ByteMemory.read_congr fun i hi => (hout _ ?_).2⟩
    unfold Block.Disjoint at hdisj
    rw [hp, Int.toNat_natCast]
    omega
  have hcontents : t.contents b = Cells.stored vs := by
    apply List.ext_getElem?
    intro i
    rw [Remote.contents, hlen]
    by_cases hi : i < vs.length
    · have hbyte := (hin i (by rw [Int.toNat_natCast]; exact hi)).2
      rw [hp] at hbyte
      rw [ByteMemory.getElem?_read hi, hbyte, Cells.stored, List.getElem?_map,
        List.getElem?_eq_getElem hi, Option.map_some]
    · rw [List.getElem?_eq_none (by rw [ByteMemory.length_read]; omega),
        List.getElem?_eq_none (by rw [Cells.length_stored]; omega)]
  obtain ⟨hold, hsame⟩ := h.forget.untouched hsync href hup hthreads hkeeps
  exact ⟨hr, hold.add (hblocks ▸ hb) hcontents (by rw [hsame]; exact hnew)⟩

/-- `dic_memcpy` out of a block, into a buffer of that size. -/
theorem Holds.memcpyFrom {vs loc : List UInt8} (h : Holds code s (.block b (Cells.stored vs) :: as))
    {p : UInt64} {off size : ℕ} (hp : p.toNat = b.ptr + off) (hlen : b.size = vs.length)
    (hin : off + size ≤ vs.length) (hloc : loc.length = size) (hfits : 20 + size ≤ intMax) :
    ¬ s.Fails code (.memcpy loc p size .remote2Local) ∧
      ∀ r t, s.Answers (.memcpy loc p size .remote2Local) r t →
        r = .copied 0 ((vs.drop off).take size) ∧
          Holds code t (.block b (Cells.stored vs) :: as) := by
  obtain ⟨hb, hcs⟩ := h.each _ List.mem_cons_self
  have hhas : b.Has p.toNat (size : ℤ).toNat := by
    rw [hp, Int.toNat_natCast, Block.Has, hlen]
    omega
  obtain ⟨hfails, hret⟩ := h.memoryCall (c := .memcpy loc p size .remote2Local)
    ⟨⟨by omega, by omega⟩, by rw [Int.toNat_natCast, hloc], b, hb, hhas⟩
  refine ⟨hfails, fun r t ha => ?_⟩
  obtain ⟨hsync, href, hup, hthreads, hmem, _, data, rfl, hdata, hbytes⟩ := hret r t ha
  rw [Int.toNat_natCast] at hdata hbytes
  have hsame : t.memory = s.memory := hmem
  have hcopy : data = (vs.drop off).take size := by
    apply List.ext_getElem?
    intro i
    by_cases hi : i < size
    · -- the byte at `off + i` of the block
      have hcell : (s.contents b)[off + i]? = some (vs[off + i]?) := by
        rw [hcs, Cells.stored, List.getElem?_map,
          List.getElem?_eq_getElem (show off + i < vs.length by omega), Option.map_some]
      rw [Remote.contents, ByteMemory.getElem?_read (by omega)] at hcell
      have hknown : s.memory.bytes (p.toNat + i) = some (vs.get ⟨off + i, by omega⟩) := by
        rw [hp, Nat.add_assoc, Option.some.inj hcell,
          List.getElem?_eq_getElem (show off + i < vs.length by omega), List.get_eq_getElem]
      rw [(hbytes i hi).2 _ hknown, List.getElem?_take_of_lt hi, List.getElem?_drop,
        List.getElem?_eq_getElem (show off + i < vs.length by omega), List.get_eq_getElem]
    · rw [List.getElem?_eq_none (by omega),
        List.getElem?_eq_none (by rw [List.length_take]; omega)]
  refine ⟨?_, (h.untouched hsync href hup hthreads fun c hc => ?_).1⟩
  · have hrest : loc.drop (size : ℤ).toNat = [] :=
      List.drop_eq_nil_of_le (by rw [Int.toNat_natCast, hloc])
    rw [hcopy, hrest, List.append_nil]
  · rw [Keeps, Remote.contents, Remote.contents, hsame]
    exact ⟨h.blocks_mem c hc, rfl⟩

/-- `dic_rfree` -/
theorem Holds.rfree (h : Holds code s (.block b cs :: as)) {p : UInt64} (hp : p.toNat = b.ptr) :
    ¬ s.Fails code (.rfree p) ∧ ∀ r t, s.Answers (.rfree p) r t →
      r = .status 0 ∧ Holds code t as := by
  have hb : b ∈ s.memory.blocks := (h.each _ List.mem_cons_self).1
  obtain ⟨hfails, hret⟩ := h.memoryCall (c := .rfree p) (Or.inr ⟨b, hb, hp.symm⟩)
  refine ⟨hfails, fun r t ha => ?_⟩
  obtain ⟨hsync, href, hup, hthreads, _, hr, _, hkept⟩ := hret r t ha
  refine ⟨hr, (h.forget.untouched hsync href hup hthreads fun c hc => ?_).1⟩
  have hcmem := h.blocks_mem c (List.mem_append_right _ hc)
  refine keeps_of_othersKept hkept hcmem fun hptr => ?_
  have heq := h.refines.eq_of_ptr hcmem hb (hptr.trans hp)
  exact (List.nodup_cons.mp h.apart).1 (heq ▸ hc)

/-- Calls of the thread library leave the memory of the node alone. -/
theorem refines_call {m : FlatMemory} {node : Node} (h : Refines m node) (c : SysCall) :
    Refines m (node.call c) := ⟨h.live, h.nonzero, h.nodup, h.apart, h.holds⟩

/-- `dic_rthread_run` on an argument that the program has written. -/
theorem Holds.rthreadRun {args : List UInt8} {func p : UInt64}
    (h : Holds code s (.block b (Cells.stored args) :: as)) (hp : p.toNat = b.ptr)
    (hsize : b.size = code.argSize func) (hsound : Asset.Sound code func args) :
    ¬ s.Fails code (.rthreadRun func p) ∧ ∀ r t, s.Answers (.rthreadRun func p) r t →
      ∃ tid, r = .ptr tid ∧ Holds code t (.task tid func b args :: as) := by
  have hperform : ∀ env, s.Admits env.sys (.rthreadRun func p) → ∃ session tid,
      (Call.rthreadRun func p).perform env s.session = .ok (session, .ptr tid) ∧
        s.threads tid = none ∧ session.Synced ∧
        session.serving.node = s.node.call (.pthreadCreate func p) := by
    rintro env ⟨tid, hcreated, hnew⟩
    obtain ⟨session, hcall, hsync, hnode⟩ := dicRthreadRun_ok env h.synced hcreated
    refine ⟨session, tid, ?_, hnew, hsync, hnode⟩
    rw [Call.perform, hcall]
    rfl
  constructor
  · rintro (hcrash | ⟨env, f, ha, hperf⟩ | ⟨_, hjoin, _⟩)
    · rw [h.up] at hcrash
      cases hcrash
    · obtain ⟨_, _, hcall, _⟩ := hperform env ha
      rw [hperf] at hcall
      cases hcall
    · cases hjoin
  rintro r t ⟨_, env, session, ha, hperf, rfl⟩
  obtain ⟨session', tid, hcall, hnew, hsync, hnode⟩ := hperform env ha
  rw [hperf] at hcall
  cases hcall
  let u : Remote :=
    ⟨session, s.memory, Function.update s.threads tid (some (.running func p)), false⟩
  suffices hu : Holds code u (.task tid func b args :: as) from ⟨tid, rfl, hu⟩
  have hthread : u.threads tid = some (.running func p) := Function.update_self ..
  have hothers : ∀ v, v ≠ tid → u.threads v = s.threads v := fun v hv =>
    Function.update_of_ne hv ..
  obtain ⟨hb, hcs⟩ := h.each _ List.mem_cons_self
  -- the number of the thread is a new one
  have hfree : tid ∉ as.filterMap Asset.tid := by
    intro hmem
    obtain ⟨a, ha, htid⟩ := List.mem_filterMap.mp hmem
    cases a with
    | block => cases htid
    | task v f c bytes =>
        cases htid
        rcases (h.each _ (List.mem_cons_of_mem _ ha)).2.2.2.2.2 with hrun | ⟨_, _, hfin, _⟩
        · rw [hnew] at hrun
          cases hrun
        · rw [hnew] at hfin
          cases hfin
  obtain ⟨heach, hblocks⟩ : (∀ a ∈ as, a.Holds code u) ∧ _ :=
    frame_each (fun a ha => h.each a (List.mem_cons_of_mem _ ha))
      (fun a ha v hv => hothers v fun heq => hfree (List.mem_filterMap.mpr ⟨a, ha, heq ▸ hv⟩))
      fun c hc => ⟨h.blocks_mem c (List.mem_append_right _ hc), rfl⟩
  have hpofNat : UInt64.ofNat b.ptr = p := by
    rw [← hp, UInt64.ofNat_toNat]
  refine ⟨hsync, ?_, rfl, ?_, List.nodup_cons.mpr ⟨hfree, h.tids⟩, ?_, ?_⟩
  · rw [Remote.node, hnode]
    exact refines_call h.refines _
  · rw [List.flatMap_cons, Asset.blocks, resultBlock_running hthread, hblocks]
    exact h.apart
  · refine List.forall_mem_cons.mpr ⟨⟨hb, hcs, hsize, ?_, hsound, Or.inl ?_⟩, heach⟩
    · rw [← hp]
      exact p.toNat_lt
    · rw [hpofNat]
      exact hthread
  · intro v st hv
    by_cases heq : v = tid
    · rw [heq]
      exact List.mem_cons_self
    · exact List.mem_cons_of_mem _ (h.known v st ((hothers v heq).symm.trans hv))

/-- `dic_rthread_join` brings the result of the function. -/
theorem Holds.rthreadJoin {tid func : UInt64} {args : List UInt8}
    (h : Holds code s (.task tid func b args :: as)) :
    ¬ s.Fails code (.rthreadJoin tid) ∧ ∀ r t, s.Answers (.rthreadJoin tid) r t →
      ∃ ret result contents, r = .ptr ret ∧ code.returns func args contents ∧
        ret.toNat = result.ptr ∧ result.size = contents.length ∧
        result.ptr + result.size < 2 ^ 64 ∧ Holds code t
          (.block result (Cells.stored contents) :: .block b (Cells.stored args) :: as) := by
  obtain ⟨hb, hcs, hsize, hptr, hsound, hwork⟩ := h.each _ List.mem_cons_self
  have hperform : ∀ env, s.Admits env.sys (.rthreadJoin tid) → ∃ session result contents,
      (Call.rthreadJoin tid).perform env s.session = .ok (session, .ptr (.ofNat result.ptr)) ∧
        s.threads tid = some (.finished result contents) ∧ session.Synced ∧
        session.serving.node = s.node.call (.pthreadJoin tid) := by
    rintro env ⟨result, contents, hfin, hjoined⟩
    obtain ⟨session, hcall, hsync, hnode⟩ := dicRthreadJoin_ok env h.synced hjoined
    refine ⟨session, result, contents, ?_, hfin, hsync, hnode⟩
    rw [Call.perform, hcall]
    rfl
  constructor
  · rintro (hcrash | ⟨env, f, ha, hperf⟩ | ⟨_, hjoin, hhopeless⟩)
    · rw [h.up] at hcrash
      cases hcrash
    · obtain ⟨_, _, _, hcall, _⟩ := hperform env ha
      rw [hperf] at hcall
      cases hcall
    · -- a thread that still works is going to return
      cases hjoin
      unfold Remote.Hopeless at hhopeless
      rcases hwork with hrun | ⟨result, contents, hfin, _⟩
      · simp only [hrun, argument_eq h.refines hcs hsize hptr] at hhopeless
        obtain ⟨contents, hret⟩ := hsound.2
        exact hhopeless contents hret
      · simp only [hfin] at hhopeless
  rintro r t ⟨_, env, session, ha, hperf, rfl⟩
  obtain ⟨session', result, contents, hcall, hfin, hsync, hnode⟩ := hperform env ha
  rw [hperf] at hcall
  cases hcall
  rcases hwork with hrun | ⟨result', contents', hfin', hr, hlen, hres, hret, hspace⟩
  · rw [hfin] at hrun
    cases hrun
  rw [hfin] at hfin'
  cases hfin'
  have hretptr : (UInt64.ofNat result.ptr).toNat = result.ptr := by
    rw [UInt64.toNat_ofNat']
    omega
  let u : Remote := ⟨session, s.memory, Function.update s.threads tid none, false⟩
  suffices hu : Holds code u
      (.block result (Cells.stored contents) :: .block b (Cells.stored args) :: as) from
    ⟨_, result, contents, rfl, hret, hretptr, hlen, hspace, hu⟩
  have hothers : ∀ v, v ≠ tid → u.threads v = s.threads v := fun v hv =>
    Function.update_of_ne hv ..
  obtain ⟨htidhead, htids⟩ := List.nodup_cons.mp h.tids
  obtain ⟨heach, hblocks⟩ : (∀ a ∈ as, a.Holds code u) ∧ _ :=
    frame_each (fun a ha => h.each a (List.mem_cons_of_mem _ ha))
      (fun a ha v hv => hothers v fun heq => htidhead (List.mem_filterMap.mpr ⟨a, ha, heq ▸ hv⟩))
      fun c hc => ⟨h.blocks_mem c (List.mem_append_right _ hc), rfl⟩
  refine ⟨hsync, ?_, rfl, ?_, htids, ?_, ?_⟩
  · rw [Remote.node, hnode]
    exact refines_call h.refines _
  · have hapart := h.apart
    rw [List.flatMap_cons, Asset.blocks, resultBlock_finished hfin] at hapart
    rw [List.flatMap_cons, List.flatMap_cons, hblocks]
    exact (List.Perm.swap result b _).nodup_iff.mp hapart
  · exact List.forall_mem_cons.mpr ⟨⟨hr, hres⟩, List.forall_mem_cons.mpr ⟨⟨hb, hcs⟩, heach⟩⟩
  · intro v st hv
    by_cases heq : v = tid
    · rw [heq] at hv
      rw [show u.threads tid = none from Function.update_self ..] at hv
      cases hv
    · have hmem := h.known v st ((hothers v heq).symm.trans hv)
      exact (List.mem_cons.mp hmem).resolve_left heq

end OneNode

/-! ## Programs -/

/-- The assets of a program on all of its nodes. -/
def Owns (code : ℕ → RemoteCode) (heap : ℕ → List Asset) (s : Remotes) : Prop :=
  ∀ n, Holds (code n) (s n) (heap n)

section Programs

variable {code : ℕ → RemoteCode} {heap : ℕ → List Asset} {s : Remotes} {n : ℕ}
  {as : List Asset} {b : Block} {cs : Cells UInt8} {p : UInt64}

theorem Owns.update (h : Owns code heap s) {u : Remote} (hu : Holds (code n) u as) :
    Owns code (Function.update heap n as) (Function.update s n u) := by
  intro m
  by_cases hm : m = n
  · subst hm
    rw [Function.update_self, Function.update_self]
    exact hu
  · rw [Function.update_of_ne hm, Function.update_of_ne hm]
    exact h m

theorem owns_stable (code : ℕ → RemoteCode) (heap : ℕ → List Asset) :
    (cluster code).Stable (Owns code heap) := by
  rintro s t ⟨n, u, hd, rfl⟩ h
  have hu := h.update ((h n).drift hd)
  rwa [Function.update_eq_self] at hu

/-- Assets of one node may be reordered, or some of them forgotten. -/
theorem Owns.change (h : Owns code heap s) (hn : Holds (code n) (s n) as) :
    Owns code (Function.update heap n as) s := by
  have hu := h.update hn
  rwa [Function.update_eq_self] at hu

end Programs

end Dicon.RemoteThreads
