import Mathlib.Logic.Function.Basic
import Mathlib.Tactic.Common

/-!
# Ownership of handles

A table says of each handle whether it is free, in use elsewhere, or held by one of the
owners that are looked at; each owner has room for one handle. `Exact` says that the
table and what the owners have agree: nothing is held that its holder does not know, and
nobody has what is not theirs. A handle is acquired from the free ones and released by
the one who has it, and both keep this so.
-/

namespace Dicon.Framework

universe u v

/-- What a table says of a handle. -/
inductive Slot (κ : Type u)
  | free
  | elsewhere
  | held (k : κ)
deriving DecidableEq

variable {ρ : Type v} {κ : Type u}

def Exact (table : ρ → Slot κ) (own : κ → Option ρ) : Prop :=
  ∀ r k, table r = .held k ↔ own k = some r

namespace Exact

variable {table : ρ → Slot κ} {own : κ → Option ρ}

theorem empty : Exact (fun _ : ρ => .free) fun _ : κ => none := by
  intro r k
  constructor <;> intro h <;> cases h

/-- No two owners have the same handle. -/
theorem injective (h : Exact table own) {k k' : κ} {r : ρ} (hk : own k = some r)
    (hk' : own k' = some r) : k = k' :=
  Slot.held.inj (((h r k).mpr hk).symm.trans ((h r k').mpr hk'))

/-- What nobody has is not held. -/
theorem none_held (h : Exact table own) (hnone : ∀ k, own k = none) (r : ρ) (k : κ) :
    table r ≠ .held k := by
  intro hheld
  have hk := (h r k).mp hheld
  rw [hnone k] at hk
  cases hk

/-- An owner keeps what it has. -/
theorem keep [DecidableEq κ] (h : Exact table own) {k : κ} {v : Option ρ} (hk : own k = v) :
    Exact table (Function.update own k v) := by
  rw [← hk, Function.update_eq_self]
  exact h

variable [DecidableEq ρ]

/-- A handle that was not held, and is not held now. -/
theorem elsewhere (h : Exact table own) {r : ρ} {slot : Slot κ} (hold : ∀ k, table r ≠ .held k)
    (hnew : ∀ k, slot ≠ .held k) : Exact (Function.update table r slot) own := by
  intro r' k
  by_cases hr : r' = r
  · subst hr
    rw [Function.update_self, ← h r' k]
    exact iff_of_false (hnew k) (hold k)
  · rw [Function.update_of_ne hr]
    exact h r' k

variable [DecidableEq κ]

/-- An owner without a handle gets a free one. -/
theorem acquire (h : Exact table own) {r : ρ} {k : κ} (hr : table r = .free)
    (hk : own k = none) :
    Exact (Function.update table r (.held k)) (Function.update own k (some r)) := by
  intro r' k'
  by_cases hr' : r' = r
  · subst hr'
    rw [Function.update_self]
    by_cases hk' : k' = k
    · subst hk'
      rw [Function.update_self]
      exact iff_of_true rfl rfl
    · rw [Function.update_of_ne hk', ← h r' k', hr]
      exact iff_of_false (fun he => hk' (Slot.held.inj he).symm) (by simp)
  · rw [Function.update_of_ne hr']
    by_cases hk' : k' = k
    · subst hk'
      rw [Function.update_self, h r' k', hk]
      exact iff_of_false (by simp) (fun he => hr' (Option.some.inj he).symm)
    · rw [Function.update_of_ne hk']
      exact h r' k'

/-- The owner of a handle gives it back. -/
theorem release (h : Exact table own) {r : ρ} {k : κ} (hk : own k = some r) :
    Exact (Function.update table r .free) (Function.update own k none) := by
  intro r' k'
  by_cases hk' : k' = k
  · subst hk'
    rw [Function.update_self]
    refine iff_of_false (fun hheld => ?_) (by simp)
    by_cases hr' : r' = r
    · subst hr'
      rw [Function.update_self] at hheld
      cases hheld
    · rw [Function.update_of_ne hr', h r' k', hk] at hheld
      exact hr' (Option.some.inj hheld).symm
  · rw [Function.update_of_ne hk']
    by_cases hr' : r' = r
    · subst hr'
      rw [Function.update_self]
      exact iff_of_false (by simp) (fun hown => hk' (h.injective hown hk))
    · rw [Function.update_of_ne hr']
      exact h r' k'

end Exact

end Dicon.Framework
