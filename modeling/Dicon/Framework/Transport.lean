import Mathlib.Data.List.Basic

/-!
# Transports

A transport hands out a stream piece by piece. How long a piece is, and when the
stream ends, is its own decision; what a reader may rely on is that the pieces,
one after the other, are the stream. `Took` says so of what has been read so far,
and pieces that follow each other add up (`Took.append`).

A stream need not end. It is a function of the position, `none` from its end on.
-/

namespace Dicon.Framework

universe u v

/-- What one call for some of the stream returns. -/
inductive Received (σ : Type u) (α : Type v)
  | data (values : List α) (next : σ)
  | ended
  | failed

structure Transport (σ : Type u) (α : Type v) where
  recv : σ → ℕ → Received σ α
  /-- What arrives from here on, up to an end or an error. -/
  stream : σ → ℕ → Option α
  length_data : ∀ {s count values next}, 0 < count → recv s count = .data values next →
    0 < values.length ∧ values.length ≤ count
  stream_data : ∀ {s count values next}, recv s count = .data values next →
    (∀ i < values.length, stream s i = values[i]?) ∧
      ∀ i, stream s (values.length + i) = stream next i
  stream_ended : ∀ {s count}, 0 < count → recv s count = .ended → stream s 0 = none
  stream_failed : ∀ {s count}, 0 < count → recv s count = .failed → stream s 0 = none

namespace Transport

variable {σ : Type u} {α : Type v} {T : Transport σ α}

/-- The stream starts with `values`, and `t` is behind them. -/
structure Took (T : Transport σ α) (s : σ) (values : List α) (t : σ) : Prop where
  taken : ∀ i < values.length, T.stream s i = values[i]?
  rest : ∀ i, T.stream s (values.length + i) = T.stream t i

theorem Took.nil (s : σ) : T.Took s [] s where
  taken i hi := absurd hi (Nat.not_lt_zero i)
  rest i := by rw [List.length_nil, Nat.zero_add]

theorem Took.recv {s t : σ} {count : ℕ} {values : List α}
    (h : T.recv s count = .data values t) : T.Took s values t :=
  ⟨(T.stream_data h).1, (T.stream_data h).2⟩

theorem Took.append {s t u : σ} {us vs : List α} (h : T.Took s us t) (h' : T.Took t vs u) :
    T.Took s (us ++ vs) u where
  taken i hi := by
    rw [List.length_append] at hi
    rcases Nat.lt_or_ge i us.length with hlt | hge
    · rw [List.getElem?_append_left hlt, h.taken i hlt]
    · obtain ⟨j, rfl⟩ := Nat.exists_eq_add_of_le hge
      rw [List.getElem?_append_right hge, Nat.add_sub_cancel_left, h.rest, h'.taken j (by omega)]
  rest i := by rw [List.length_append, Nat.add_assoc, h.rest, h'.rest]

/-- At least `n` values arrive. -/
def Arrive (T : Transport σ α) (s : σ) (n : ℕ) : Prop := ∀ i < n, (T.stream s i).isSome

theorem Took.arrive {s t : σ} {values : List α} (h : T.Took s values t) :
    T.Arrive s values.length := by
  intro i hi
  rw [h.taken i hi, List.getElem?_eq_getElem hi]
  rfl

/-- Nothing arrives behind what was taken. -/
theorem Took.not_arrive {s t : σ} {values : List α} {n : ℕ} (h : T.Took s values t)
    (hend : T.stream t 0 = none) (hn : values.length < n) : ¬ T.Arrive s n := by
  intro harrive
  have hsome := harrive values.length hn
  have hrest : T.stream s values.length = T.stream t 0 := h.rest 0
  rw [hrest, hend] at hsome
  cases hsome

end Transport

end Dicon.Framework
