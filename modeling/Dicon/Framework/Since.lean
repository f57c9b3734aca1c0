import Mathlib.Data.List.Induction

/-!
# What holds since an entry of a log

`Since born kills log`: some entry of the log is a birth, and no entry after it kills.
Both may look at the part of the log before the entry. A property that every entry
either gives, takes or leaves alone is of this form (`iff_since`).
-/

namespace Dicon.Framework

variable {ε : Type*}

/-- A birth, and nothing that kills since then. -/
def Since (born kills : List ε → ε → Prop) (log : List ε) : Prop :=
  ∃ pre b post, log = pre ++ b :: post ∧ born pre b ∧
    ∀ mid k rest, post = mid ++ k :: rest → ¬ kills (pre ++ b :: mid) k

variable {born kills : List ε → ε → Prop}

theorem not_since_nil : ¬ Since born kills [] := by
  rintro ⟨pre, b, post, hsplit, _⟩
  simp at hsplit

/-- One more entry. -/
theorem since_snoc {log : List ε} {e : ε} :
    Since born kills (log ++ [e]) ↔ born log e ∨ Since born kills log ∧ ¬ kills log e := by
  constructor
  · rintro ⟨pre, b, post, hsplit, hborn, hpost⟩
    rcases List.eq_nil_or_concat post with rfl | ⟨post, last, rfl⟩
    · obtain ⟨rfl, hlast⟩ := List.append_inj' hsplit rfl
      rw [(List.cons.inj hlast).1]
      exact Or.inl hborn
    · rw [List.concat_eq_append, ← List.cons_append, ← List.append_assoc] at hsplit
      obtain ⟨rfl, hlast⟩ := List.append_inj' hsplit rfl
      rw [List.concat_eq_append] at hpost
      rw [(List.cons.inj hlast).1]
      refine Or.inr ⟨⟨pre, b, post, rfl, hborn, ?_⟩, hpost post last [] rfl⟩
      rintro mid k rest rfl
      exact hpost mid k (rest ++ [last]) (by rw [List.append_assoc]; rfl)
  · rintro (hborn | ⟨⟨pre, b, post, rfl, hborn, hpost⟩, hkeep⟩)
    · refine ⟨log, e, [], rfl, hborn, fun mid k rest hnil => ?_⟩
      simp at hnil
    · refine ⟨pre, b, post ++ [e], by rw [List.append_assoc]; rfl, hborn, ?_⟩
      intro mid k rest hsplit
      rcases List.eq_nil_or_concat rest with rfl | ⟨rest, last, rfl⟩
      · obtain ⟨rfl, hlast⟩ := List.append_inj' hsplit rfl
        rw [← (List.cons.inj hlast).1]
        exact hkeep
      · rw [List.concat_eq_append, ← List.cons_append, ← List.append_assoc] at hsplit
        exact hpost mid k rest (List.append_inj' hsplit rfl).1

/-- A property of logs that an entry changes in no other way than by giving or taking it.
The logs may be those that satisfy `V`, if their beginnings do. -/
theorem iff_since {P V : List ε → Prop} (hV : ∀ log e, V (log ++ [e]) → V log)
    (hnil : ¬ P [])
    (hsnoc : ∀ log e, V (log ++ [e]) → (P (log ++ [e]) ↔ born log e ∨ P log ∧ ¬ kills log e))
    {log : List ε} (h : V log) : P log ↔ Since born kills log := by
  induction log using List.reverseRecOn with
  | nil => exact iff_of_false hnil not_since_nil
  | append_singleton log e ih => rw [hsnoc log e h, since_snoc, ih (hV log e h)]

end Dicon.Framework
