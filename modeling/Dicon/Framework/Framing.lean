import Mathlib.Data.List.Basic
import Mathlib.Tactic.Common

/-!
# Length-prefixed framing

A stream protocol cuts a byte stream into frames: a head of fixed length, and a
body whose length the head declares. A `Reader` is one receiver part-way
through one frame. The facts below say where a reader stands relative to the
frames that its stream spells, for any fragmentation of the stream: it never
leaves the first frame (`Reader.body_prefix`), and when it has read a whole
frame, that frame is the first one and the rest of the stream starts at the
second (`Reader.complete`).
-/

namespace Dicon.Framework

universe u

structure Framing (α : Type u) where
  headLen : ℕ
  bodyLen : List α → ℕ

namespace Framing

variable {α : Type u} (F : Framing α)

/-- `f` is the head and the body of one complete frame. -/
structure IsFrame (f : List α × List α) : Prop where
  head : f.1.length = F.headLen
  body : f.2.length = F.bodyLen f.1

/-- The stream that a sequence of frames spells. -/
def spell (fs : List (List α × List α)) : List α := fs.flatMap fun f => f.1 ++ f.2

@[simp] theorem spell_nil : spell ([] : List (List α × List α)) = [] := rfl

@[simp] theorem spell_cons (f : List α × List α) (fs : List (List α × List α)) :
    spell (f :: fs) = f.1 ++ f.2 ++ spell fs := by
  simp [spell]

@[simp] theorem spell_append (fs gs : List (List α × List α)) :
    spell (fs ++ gs) = spell fs ++ spell gs := by
  simp [spell]

end Framing

/-! ## One receiver -/

/-- A receiver inside a frame: `head got` has read `got` of the head, `body h
got` has the head `h` and has read `got` of the body. -/
inductive Reader (α : Type u)
  | head (got : List α)
  | body (h got : List α)
deriving DecidableEq

namespace Reader

variable {α : Type u} (F : Framing α)

/-- Everything read of the current frame. -/
def bytes : Reader α → List α
  | .head got => got
  | .body h got => h ++ got

/-- How much the receiver still waits for before it goes on. -/
def need : Reader α → ℕ
  | .head got => F.headLen - got.length
  | .body h got => F.bodyLen h - got.length

/-- The receiver after one more chunk. -/
def feed : Reader α → List α → Reader α
  | .head got, c => .head (got ++ c)
  | .body h got, c => .body h (got ++ c)

/-- The receiver has read no more than its frame declares. -/
def Within : Reader α → Prop
  | .head got => got.length ≤ F.headLen
  | .body h got => h.length = F.headLen ∧ got.length ≤ F.bodyLen h

@[simp] theorem bytes_feed (r : Reader α) (c : List α) :
    (r.feed c).bytes = r.bytes ++ c := by
  cases r <;> simp [feed, bytes]

theorem within_start : Within F (.head ([] : List α)) := Nat.zero_le _

theorem within_feed {r : Reader α} {c : List α} (h : r.Within F)
    (hc : c.length ≤ r.need F) : (r.feed c).Within F := by
  cases r with
  | head got =>
      simp only [Within, need, feed, List.length_append] at *
      omega
  | body hd got =>
      obtain ⟨hh, hg⟩ := h
      refine ⟨hh, ?_⟩
      simp only [need, List.length_append] at *
      omega

theorem within_body {got : List α} (h : Within F (.head got))
    (hn : need F (.head got) = 0) : Within F (.body got []) := by
  simp only [Within, need] at *
  exact ⟨by omega, by simp⟩

section Position

variable {F} {f : List α × List α} {r : Reader α} {s rest : List α}

theorem body_prefix {hd got : List α} (hf : F.IsFrame f)
    (hw : Within F (.body hd got)) (h : hd ++ got ++ s = f.1 ++ f.2 ++ rest) :
    hd = f.1 ∧ got <+: f.2 := by
  obtain ⟨hh, hg⟩ := hw
  rw [List.append_assoc, List.append_assoc] at h
  obtain ⟨rfl, htail⟩ := List.append_inj h (hh.trans hf.head.symm)
  refine ⟨rfl, ?_⟩
  have hlen : got.length ≤ f.2.length := by
    rw [hf.body]
    exact hg
  exact List.prefix_of_prefix_length_le ⟨s, rfl⟩ (htail ▸ ⟨rest, rfl⟩) hlen

/-- A receiver that has read a whole body has read exactly the first frame. -/
theorem complete {hd got : List α} (hf : F.IsFrame f)
    (hw : Within F (.body hd got)) (hn : need F (.body hd got) = 0)
    (h : hd ++ got ++ s = f.1 ++ f.2 ++ rest) :
    hd = f.1 ∧ got = f.2 ∧ s = rest := by
  obtain ⟨rfl, hpre⟩ := body_prefix hf hw h
  have hlen : got.length = f.2.length := by
    have := hw.2
    have := hf.body
    simp only [need] at hn
    omega
  have hgot : got = f.2 := hpre.eq_of_length hlen
  subst hgot
  exact ⟨rfl, rfl, List.append_cancel_left h⟩

/-- Where the stream ends before the first frame does, the receiver waits. -/
theorem bytes_lt_of_need (hf : F.IsFrame f) (hw : r.Within F)
    (hn : 0 < r.need F) (h : r.bytes ++ s = f.1 ++ f.2 ++ rest) :
    r.bytes.length < f.1.length + f.2.length := by
  have hhead := hf.head
  have hbody := hf.body
  cases r with
  | head got =>
      simp only [need, bytes] at *
      omega
  | body hd got =>
      obtain ⟨rfl, _⟩ := body_prefix hf hw h
      obtain ⟨hh, hg⟩ := hw
      simp only [need, bytes, List.length_append] at *
      omega

end Position

end Reader

end Dicon.Framework
