import Dicon.Client.InStep
import Dicon.Client.Memory

/-!
# Allocations that should be refused

`dic_rmalloc` takes an `int`, the request carries a `uint32_t`, and `handle_malloc`
refuses sizes that are `<= 0`. On the unsigned field that is the size zero alone: a
negative size arrives as one of at least `2^31` bytes.
-/

namespace Dicon.RemoteMemory

open Framework Client Node

/-- What `handle_malloc` asks of the node's `malloc`. -/
def mallocAsked (b : List UInt8) : Option ℕ :=
  let size := rd32At b 0
  if size ≤ 0 then none else some size.toNat

theorem handleMalloc_eq (sys : Sys) (node : Node) (b : List UInt8) : handleMalloc sys node b =
    (mallocAsked b).elim (some (node, respBuilder (Cells.stored (le64 0))))
      fun size => some (node.malloc sys size, respBuilder (Cells.stored (le64 sys.block))) := by
  simp only [handleMalloc, mallocAsked]
  split <;> rfl

/-- What the node is asked for by a call of `dic_rmalloc`. -/
def asked (env : Env) (size : ℤ) : Option ℕ :=
  mallocAsked (env.request (Cells.stored (le32 (toU32 size))))

/-- A non-positive size gives a null pointer and leaves the clients' blocks as they
are; a positive one is what `malloc` is asked for. -/
def Refuses (env : Env) (s : Session) (size : ℤ) : Prop :=
  ∃ t ptr, dicRmalloc env s size = .ok (t, ptr) ∧
    (size ≤ 0 → ptr = 0 ∧ t.serving.node.blocks = s.serving.node.blocks) ∧
    (0 < size → asked env size = some size.toNat ∧
      t.serving.node = s.serving.node.malloc env.sys size.toNat)

section

variable (env : Env) {s : Session}

theorem asked_eq (size : ℤ) :
    asked env size = if toU32 size = 0 then none else some (toU32 size).toNat := by
  have hread : rd32At (env.request (Cells.stored (le32 (toU32 size)))) 0 = toU32 size := by
    rw [Env.request, Env.sent, Cells.fill_stored]
    exact rd32At_zero _ _
  simp only [asked, mallocAsked, hread, UInt32.le_zero_iff]

/-- Where `malloc` is not asked, the pointer is null. -/
theorem dicRmalloc_refused (hs : s.Synced) {size : ℤ} (h : asked env size = none) :
    ∃ t, dicRmalloc env s size = .ok (t, 0) ∧ t.Synced ∧ t.serving.node = s.serving.node := by
  rw [asked, Env.request, Env.sent, Cells.fill_stored] at h
  apply dicRmalloc_answered env hs
  rw [handleMalloc_eq, h]
  rfl

/-- Where it is asked, the pointer is the one that it returns. -/
theorem dicRmalloc_asked (hs : s.Synced) {size : ℤ} {n : ℕ} (h : asked env size = some n) :
    ∃ t, dicRmalloc env s size = .ok (t, env.sys.block) ∧ t.Synced ∧
      t.serving.node = s.serving.node.malloc env.sys n := by
  rw [asked, Env.request, Env.sent, Cells.fill_stored] at h
  apply dicRmalloc_answered env hs
  rw [handleMalloc_eq, h]
  rfl

/-- A negative `int` on the wire. -/
theorem toU32_toNat_neg {size : ℤ} (hneg : size < 0) (hint : -2147483648 ≤ size) :
    ((toU32 size).toNat : ℤ) = 4294967296 + size := by
  unfold toU32
  rw [UInt32.toNat_ofNat']
  omega

theorem asked_zero : asked env 0 = none := by
  rw [asked_eq, if_pos (by rfl)]

/-- A positive `int` keeps its value. -/
theorem asked_pos {size : ℤ} (hpos : 0 < size) (hint : size ≤ intMax) :
    asked env size = some size.toNat := by
  have hsize := toU32_toNat_of_int hpos.le hint
  have hne : toU32 size ≠ 0 := by
    intro h
    rw [h] at hsize
    change 0 = _ at hsize
    omega
  rw [asked_eq, if_neg hne, hsize]

/-- A negative one is a size of at least `2^31`. -/
theorem asked_neg {size : ℤ} (hneg : size < 0) (hint : -2147483648 ≤ size) :
    asked env size = some (4294967296 + size).toNat := by
  have hsize := toU32_toNat_neg hneg hint
  have hne : toU32 size ≠ 0 := by
    intro h
    rw [h] at hsize
    change ((0 : ℕ) : ℤ) = _ at hsize
    omega
  rw [asked_eq, if_neg hne]
  congr 1
  omega

theorem malloc_null {sys : Sys} (h : sys.block = 0) (node : Node) (n : ℕ) :
    node.malloc sys n = node := by
  rw [malloc, if_pos h]

end

/-- For every `int` size, every state of the node and every system: a non-positive
size is refused and a positive one asked for, if and only if the size is not
negative or the node's `malloc` fails. -/
theorem nonpositive_refused_iff (env : Env) (s : Session) (size : ℤ) (hs : s.Synced)
    (hmin : -2147483648 ≤ size) (hmax : size ≤ intMax) :
    Refuses env s size ↔ 0 ≤ size ∨ env.sys.block = 0 := by
  rcases lt_trichotomy size 0 with hneg | rfl | hpos
  · obtain ⟨t, hcall, _, hnode⟩ := dicRmalloc_asked env hs (asked_neg env hneg hmin)
    constructor
    · rintro ⟨t', ptr, hcall', hzero, _⟩
      rw [hcall] at hcall'
      cases hcall'
      exact Or.inr (hzero hneg.le).1
    · rintro (h | h)
      · exact absurd h (not_le.mpr hneg)
      · refine ⟨t, _, hcall, fun _ => ⟨h, ?_⟩, fun hpos => absurd hpos (not_lt.mpr hneg.le)⟩
        rw [hnode, malloc_null h]
  · obtain ⟨t, hcall, _, hnode⟩ := dicRmalloc_refused env hs (asked_zero env)
    refine iff_of_true ⟨t, 0, hcall, fun _ => ⟨rfl, by rw [hnode]⟩, ?_⟩ (Or.inl le_rfl)
    exact fun hpos => absurd hpos (lt_irrefl 0)
  · have hasked := asked_pos env hpos hmax
    obtain ⟨t, hcall, _, hnode⟩ := dicRmalloc_asked env hs hasked
    refine iff_of_true ⟨t, _, hcall, ?_, fun _ => ⟨hasked, hnode⟩⟩ (Or.inl hpos.le)
    exact fun hle => absurd hle (not_le.mpr hpos)

/-- A size of five bytes on a new node. -/
theorem nonpositive_refused_run : Refuses .calm (.start .new) 5 :=
  (nonpositive_refused_iff .calm (.start .new) 5 (Session.synced_start _) (by decide)
    (by decide)).mpr (Or.inl (by decide))

/-- `dic_rmalloc(device, -1)` gets a block of `2^32 - 1` bytes. -/
theorem negative_size_allocated : ¬ ∀ (env : Env) (s : Session) (size : ℤ), s.Synced →
    -2147483648 ≤ size → size ≤ intMax → Refuses env s size := by
  intro hall
  have hs := Session.synced_start .new
  obtain ⟨t, ptr, hcall, hzero, _⟩ := hall .calm (.start .new) (-1) hs (by decide) (by decide)
  have hasked : asked .calm (-1) = some 4294967295 := asked_neg .calm (by decide) (by decide)
  obtain ⟨t', hcall', _, hnode⟩ := dicRmalloc_asked .calm hs hasked
  rw [hcall'] at hcall
  cases hcall
  exact absurd (hzero (by decide)).1 (by decide)

end Dicon.RemoteMemory
