import Mathlib.Data.Nat.Notation
import Mathlib.Logic.Relation
import Mathlib.Tactic.ByContra

/-!
# Labelled transition systems

The one induction every safety result of a concurrent component uses: a
property of the initial states that each step preserves holds of every
reachable state. `restrict` keeps the steps that meet a side condition, so that
"every run whose steps all meet `C`" is reachability in the restricted system.
-/

namespace Dicon.Framework

universe u v w

structure Lts (σ : Type u) (ι : Type v) where
  init : σ → Prop
  step : σ → ι → σ → Prop

namespace Lts

variable {σ : Type u} {ι : Type v} {L : Lts σ ι}

inductive Reachable (L : Lts σ ι) : σ → Prop
  | init {s} : L.init s → Reachable L s
  | step {s l t} : Reachable L s → L.step s l t → Reachable L t

/-- The invariant rule. -/
theorem Reachable.invariant {I : σ → Prop} (h0 : ∀ s, L.init s → I s)
    (hstep : ∀ s l t, I s → L.step s l t → I t) {s : σ}
    (h : L.Reachable s) : I s := by
  induction h with
  | init hs => exact h0 _ hs
  | step _ hl ih => exact hstep _ _ _ ih hl

/-- The invariant rule relative to what is already known of reachable states. -/
theorem Reachable.invariant_of {I : σ → Prop} (h0 : ∀ s, L.init s → I s)
    (hstep : ∀ s l t, L.Reachable s → I s → L.step s l t → I t) {s : σ}
    (h : L.Reachable s) : I s := by
  induction h with
  | init hs => exact h0 _ hs
  | step hr hl ih => exact hstep _ _ _ hr ih hl

/-- One step under any label. -/
def Next (L : Lts σ ι) (s t : σ) : Prop := ∃ l, L.step s l t

/-- What a run may still reach from `s`. -/
def Steps (L : Lts σ ι) : σ → σ → Prop := Relation.ReflTransGen L.Next

/-- A property each step preserves is kept by every continuation. -/
theorem Steps.preserves {I : σ → Prop} (hstep : ∀ s l t, I s → L.step s l t → I t)
    {s t : σ} (h : L.Steps s t) (hs : I s) : I t := by
  induction h with
  | refl => exact hs
  | tail _ hl ih =>
      obtain ⟨l, hl⟩ := hl
      exact hstep _ _ _ ih hl

/-- Some step whose label satisfies `p` can be taken. -/
def Can (L : Lts σ ι) (p : ι → Prop) (s : σ) : Prop := ∃ l t, p l ∧ L.step s l t

/-- The runs of `L` all of whose steps meet `C`. -/
def restrict (L : Lts σ ι) (C : σ → ι → Prop) : Lts σ ι where
  init := L.init
  step s l t := C s l ∧ L.step s l t

theorem Reachable.of_restrict {C : σ → ι → Prop} {s : σ}
    (h : (L.restrict C).Reachable s) : L.Reachable s := by
  induction h with
  | init hs => exact .init hs
  | step _ hl ih => exact ih.step hl.2

theorem Steps.of_restrict {C : σ → ι → Prop} {s t : σ} (h : (L.restrict C).Steps s t) :
    L.Steps s t := by
  induction h with
  | refl => exact .refl
  | tail _ hl ih =>
      obtain ⟨l, _, hl⟩ := hl
      exact ih.tail ⟨l, hl⟩

/-- The steps of a run may meet another condition as well. -/
theorem Steps.restrict_mono {C D : σ → ι → Prop} (hCD : ∀ s l, C s l → D s l) {s t : σ}
    (h : (L.restrict C).Steps s t) : (L.restrict D).Steps s t := by
  induction h with
  | refl => exact .refl
  | tail _ hl ih =>
      obtain ⟨l, hok, hl⟩ := hl
      exact ih.tail ⟨l, hCD _ _ hok, hl⟩

theorem Reachable.steps {s t : σ} (hs : L.Reachable s) (h : L.Steps s t) : L.Reachable t := by
  induction h with
  | refl => exact hs
  | tail _ hl ih =>
      obtain ⟨l, hl⟩ := hl
      exact ih.step hl

/-- A system that can do more reaches more. -/
theorem Reachable.mono {L' : Lts σ ι} (h0 : ∀ s, L.init s → L'.init s)
    (hstep : ∀ s l t, L.step s l t → L'.step s l t) {s : σ} (h : L.Reachable s) :
    L'.Reachable s := by
  induction h with
  | init hs => exact .init (h0 _ hs)
  | step _ hl ih => exact ih.step (hstep _ _ _ hl)

variable {ω : Type w} {obs : σ → ι → List ω}

/-- The runs of `L`, with a log of what `obs` sees in each step. -/
def logged (L : Lts σ ι) (obs : σ → ι → List ω) : Lts (σ × List ω) ι where
  init p := L.init p.1 ∧ p.2 = []
  step p l q := L.step p.1 l q.1 ∧ q.2 = p.2 ++ obs p.1 l

theorem Reachable.of_logged {p : σ × List ω} (h : (L.logged obs).Reachable p) :
    L.Reachable p.1 := by
  induction h with
  | init hp => exact .init hp.1
  | step _ hl ih => exact ih.step hl.1

theorem Reachable.exists_log {s : σ} (h : L.Reachable s) :
    ∃ log, (L.logged obs).Reachable (s, log) := by
  induction h with
  | init hs => exact ⟨[], .init ⟨hs, rfl⟩⟩
  | step _ hl ih =>
      obtain ⟨log, hlog⟩ := ih
      exact ⟨_, hlog.step ⟨hl, rfl⟩⟩

/-! ## Runs on concrete inputs -/

/-- A fixed sequence of steps of a transition function, each of which passes the
test `ok`. -/
def exec (step? : σ → ι → Option σ) (ok : σ → ι → Bool) (s : σ) : List ι → Option σ
  | [] => some s
  | l :: ls => if ok s l then (step? s l).bind fun t => exec step? ok t ls else none

theorem Reachable.of_exec {step? : σ → ι → Option σ} {ok : σ → ι → Bool} {C : σ → ι → Prop}
    (hstep : ∀ s l t, step? s l = some t → L.step s l t) (hok : ∀ s l, ok s l = true → C s l)
    {s t : σ} {ls : List ι} (hs : (L.restrict C).Reachable s)
    (h : exec step? ok s ls = some t) : (L.restrict C).Reachable t := by
  induction ls generalizing s with
  | nil =>
      cases h
      exact hs
  | cons l ls ih =>
      rw [exec] at h
      split at h
      · next hl =>
          obtain ⟨u, hu, hrest⟩ := Option.bind_eq_some_iff.mp h
          exact ih (hs.step ⟨hok s l hl, hstep s l u hu⟩) hrest
      · cases h

end Lts

end Dicon.Framework
