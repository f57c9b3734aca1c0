import Mathlib.Logic.Function.Basic
import Mathlib.Data.List.Basic
import Mathlib.Tactic.Common

/-!
# Linearizability

A sequential object answers a call in one step. Threads that use an
implementation of it leave a history of invocations and responses. The history is
linearizable if there is one order of calls that the object can serve one after
another, in which every response of the history is the one that its call was
given, and which respects real time: wherever the history is cut, the order can be
cut such that the calls that had returned are in front of the cut and those that
were not yet invoked are behind it.

`Atomic` are the histories of the object itself, called by the threads, with one
step somewhere between the invocation and the response of each call. An
implementation is proved linearizable by a simulation into `Atomic`, and objects
are compared by a simulation between their states (`Atomic.refine`).
-/

namespace Dicon.Framework

universe u v w x y

/-- From `s`, the call `i` of thread `t` may be answered with `o` and lead to `s'`;
`drift` is what the object does by itself. -/
structure SeqObject (σ : Type u) (τ : Type v) (ι : Type w) (ο : Type x) where
  start : σ
  call : τ → ι → ο → σ → σ → Prop
  drift : σ → σ → Prop

inductive HistoryEvent (τ : Type v) (ι : Type w) (ο : Type x)
  | invoke (t : τ) (i : ι)
  | respond (t : τ) (o : ο)

/-- Where a thread is. -/
inductive Phase (ι : Type w) (ο : Type x)
  | idle
  | called (i : ι)
  | done (i : ι) (o : ο)

variable {σ : Type u} {τ : Type v} {ι : Type w} {ο : Type x} [DecidableEq τ]

/-! ## What belongs to one thread -/

def invokes (t : τ) (h : List (HistoryEvent τ ι ο)) : List ι :=
  h.filterMap fun
    | .invoke u i => if u = t then some i else none
    | .respond _ _ => none

def responds (t : τ) (h : List (HistoryEvent τ ι ο)) : List ο :=
  h.filterMap fun
    | .invoke _ _ => none
    | .respond u o => if u = t then some o else none

def effects (t : τ) (es : List (τ × ι × ο)) : List (ι × ο) :=
  es.filterMap fun e => if e.1 = t then some e.2 else none

section

variable (t u : τ) (h : List (HistoryEvent τ ι ο)) (es : List (τ × ι × ο)) (i : ι) (o : ο)

@[simp] theorem invokes_invoke : invokes t (h ++ [.invoke u i]) =
    invokes t h ++ if u = t then [i] else [] := by
  by_cases hut : u = t <;> simp [invokes, hut]

@[simp] theorem invokes_respond : invokes t (h ++ [.respond u o]) = invokes t h := by
  simp [invokes]

@[simp] theorem responds_invoke : responds t (h ++ [.invoke u i]) = responds t h := by
  simp [responds]

@[simp] theorem responds_respond : responds t (h ++ [.respond u o]) =
    responds t h ++ if u = t then [o] else [] := by
  by_cases hut : u = t <;> simp [responds, hut]

@[simp] theorem effects_snoc : effects t (es ++ [(u, i, o)]) =
    effects t es ++ if u = t then [(i, o)] else [] := by
  by_cases hut : u = t <;> simp [effects, hut]

end

/-! ## Linearizations -/

/-- The object serves the calls `es` one after another and is then at `s`. -/
inductive SeqObject.Run (O : SeqObject σ τ ι ο) : List (τ × ι × ο) → σ → Prop
  | start : Run O [] O.start
  | call {es s t i o s'} : Run O es s → O.call t i o s s' → Run O (es ++ [(t, i, o)]) s'
  | drift {es s s'} : Run O es s → O.drift s s' → Run O es s'

/-- The order `es` explains the history `h`. -/
structure Linearization (O : SeqObject σ τ ι ο) (h : List (HistoryEvent τ ι ο))
    (es : List (τ × ι × ο)) (s : σ) : Prop where
  run : O.Run es s
  /-- a thread's calls are in the order in which it made them; all but the last one
  have their place -/
  invoked : ∀ t, (effects t es).map Prod.fst <+: invokes t h
  pending : ∀ t, (invokes t h).length ≤ (responds t h).length + 1
  /-- the responses are those of the order -/
  answered : ∀ t, responds t h <+: (effects t es).map Prod.snd
  realTime : ∀ h₁ h₂, h = h₁ ++ h₂ → ∃ k, ∀ t,
    (responds t h₁).length ≤ (effects t (es.take k)).length ∧
      (effects t (es.take k)).length ≤ (invokes t h₁).length

/-! ## Atomic histories -/

/-- The threads and the object are at `phase` and `s` after the history `h`, in which
the calls took effect in the order `es`. -/
inductive Atomic (O : SeqObject σ τ ι ο) :
    (τ → Phase ι ο) → σ → List (τ × ι × ο) → List (HistoryEvent τ ι ο) → Prop
  | start : Atomic O (fun _ => .idle) O.start [] []
  | invoke {phase s es h t} (i : ι) : Atomic O phase s es h → phase t = .idle →
      Atomic O (Function.update phase t (.called i)) s es (h ++ [.invoke t i])
  | effect {phase s es h t i o s'} : Atomic O phase s es h → phase t = .called i →
      O.call t i o s s' →
      Atomic O (Function.update phase t (.done i o)) s' (es ++ [(t, i, o)]) h
  | respond {phase s es h t i o} : Atomic O phase s es h → phase t = .done i o →
      Atomic O (Function.update phase t .idle) s es (h ++ [.respond t o])
  | drift {phase s es h s'} : Atomic O phase s es h → O.drift s s' → Atomic O phase s' es h

/-- What a thread did, by where it is. -/
def Phase.Explains (invoked : List ι) (responded : List ο) (done : List (ι × ο)) :
    Phase ι ο → Prop
  | .idle => invoked = done.map Prod.fst ∧ responded = done.map Prod.snd
  | .called i => invoked = done.map Prod.fst ++ [i] ∧ responded = done.map Prod.snd
  | .done i o => invoked = done.map Prod.fst ∧ done.map Prod.snd = responded ++ [o] ∧
      ∃ rest, done = rest ++ [(i, o)]

section Histories

variable {O : SeqObject σ τ ι ο} {phase : τ → Phase ι ο} {s : σ} {es : List (τ × ι × ο)}
  {h : List (HistoryEvent τ ι ο)}

theorem Atomic.run (ha : Atomic O phase s es h) : O.Run es s := by
  induction ha with
  | start => exact .start
  | invoke _ _ _ ih => exact ih
  | effect _ _ hcall ih => exact ih.call hcall
  | respond _ _ ih => exact ih
  | drift _ hdrift ih => exact ih.drift hdrift

theorem Atomic.explains (ha : Atomic O phase s es h) (t : τ) :
    (phase t).Explains (invokes t h) (responds t h) (effects t es) := by
  induction ha with
  | start => exact ⟨rfl, rfl⟩
  | @invoke phase s es h u i _ hidle ih =>
      by_cases hut : u = t
      · subst hut
        rw [hidle] at ih
        obtain ⟨hinv, hresp⟩ := ih
        simp [Phase.Explains, hinv, hresp]
      · simpa [hut, Function.update_of_ne (Ne.symm hut)] using ih
  | @effect phase s es h u i o s' _ hcalled _ ih =>
      by_cases hut : u = t
      · subst hut
        rw [hcalled] at ih
        obtain ⟨hinv, hresp⟩ := ih
        simp [Phase.Explains, hinv, hresp]
      · simpa [hut, Function.update_of_ne (Ne.symm hut)] using ih
  | @respond phase s es h u i o _ hdone ih =>
      by_cases hut : u = t
      · subst hut
        rw [hdone] at ih
        obtain ⟨hinv, hresp, _⟩ := ih
        simp [Phase.Explains, hinv, hresp]
      · simpa [hut, Function.update_of_ne (Ne.symm hut)] using ih
  | drift _ _ ih => exact ih

section Lengths

variable {invoked : List ι} {responded : List ο} {done : List (ι × ο)} {p : Phase ι ο}

/-- A call takes effect between its invocation and its response. -/
theorem Phase.Explains.lengths (hp : p.Explains invoked responded done) :
    responded.length ≤ done.length ∧ done.length ≤ invoked.length ∧
      invoked.length ≤ responded.length + 1 := by
  cases p with
  | idle =>
      obtain ⟨rfl, rfl⟩ := hp
      simp
  | called i =>
      obtain ⟨rfl, rfl⟩ := hp
      simp
  | done i o =>
      obtain ⟨rfl, hresp, _⟩ := hp
      have hlen := congrArg List.length hresp
      simp only [List.length_map, List.length_append, List.length_singleton] at hlen ⊢
      omega

theorem Phase.Explains.prefixes (hp : p.Explains invoked responded done) :
    done.map Prod.fst <+: invoked ∧ responded <+: done.map Prod.snd := by
  cases p with
  | idle =>
      obtain ⟨rfl, rfl⟩ := hp
      exact ⟨List.prefix_rfl, List.prefix_rfl⟩
  | called i =>
      obtain ⟨rfl, rfl⟩ := hp
      exact ⟨List.prefix_append _ _, List.prefix_rfl⟩
  | done i o =>
      obtain ⟨rfl, hresp, _⟩ := hp
      rw [hresp]
      exact ⟨List.prefix_rfl, List.prefix_append _ _⟩

end Lengths

/-- A cut of the history and a cut of the order that belongs to it. -/
def CutBy (h₁ : List (HistoryEvent τ ι ο)) (es : List (τ × ι × ο)) (k : ℕ) : Prop :=
  k ≤ es.length ∧ ∀ t, (responds t h₁).length ≤ (effects t (es.take k)).length ∧
    (effects t (es.take k)).length ≤ (invokes t h₁).length

/-- The present moment is cut by the whole order. -/
theorem Atomic.cutBy_now (ha : Atomic O phase s es h) : CutBy h es es.length := by
  refine ⟨Nat.le_refl _, fun t => ?_⟩
  obtain ⟨hresp, hinv, _⟩ := (ha.explains t).lengths
  rw [List.take_length]
  exact ⟨hresp, hinv⟩

theorem CutBy.snoc {h₁ : List (HistoryEvent τ ι ο)} {k : ℕ} (hk : CutBy h₁ es k)
    (e : τ × ι × ο) : CutBy h₁ (es ++ [e]) k := by
  obtain ⟨hle, hcut⟩ := hk
  refine ⟨by rw [List.length_append]; omega, fun t => ?_⟩
  rw [List.take_append_of_le_length hle]
  exact hcut t

omit [DecidableEq τ] in
/-- A cut of a history with one event more is the present or an earlier one. -/
theorem cut_snoc {h h₁ h₂ : List (HistoryEvent τ ι ο)} {e : HistoryEvent τ ι ο}
    (heq : h ++ [e] = h₁ ++ h₂) : h₁ = h ++ [e] ∨ ∃ h₃, h = h₁ ++ h₃ := by
  rcases List.eq_nil_or_concat h₂ with rfl | ⟨h₃, f, rfl⟩
  · exact Or.inl (by rw [heq, List.append_nil])
  · rw [List.concat_eq_append, ← List.append_assoc] at heq
    exact Or.inr ⟨h₃, (List.append_inj' heq rfl).1⟩

theorem Atomic.cut (ha : Atomic O phase s es h) {h₁ h₂ : List (HistoryEvent τ ι ο)}
    (heq : h = h₁ ++ h₂) : ∃ k, CutBy h₁ es k := by
  induction ha generalizing h₁ h₂ with
  | start =>
      obtain ⟨rfl, _⟩ := List.append_eq_nil_iff.mp heq.symm
      exact ⟨0, Nat.le_refl _, fun t => ⟨Nat.le_refl _, Nat.le_refl _⟩⟩
  | invoke i ha hidle ih =>
      rcases cut_snoc heq with rfl | ⟨h₃, rfl⟩
      · exact ⟨_, (ha.invoke i hidle).cutBy_now⟩
      · exact ih rfl
  | effect _ _ _ ih =>
      obtain ⟨k, hk⟩ := ih heq
      exact ⟨k, hk.snoc _⟩
  | respond ha hdone ih =>
      rcases cut_snoc heq with rfl | ⟨h₃, rfl⟩
      · exact ⟨_, (ha.respond hdone).cutBy_now⟩
      · exact ih rfl
  | drift _ _ ih => exact ih heq

/-- The order in which the calls of an atomic history took effect explains it. -/
theorem Atomic.linearization (ha : Atomic O phase s es h) : Linearization O h es s where
  run := ha.run
  invoked t := (ha.explains t).prefixes.1
  pending t := (ha.explains t).lengths.2.2
  answered t := (ha.explains t).prefixes.2
  realTime _ _ heq := by
    obtain ⟨k, _, hcut⟩ := ha.cut heq
    exact ⟨k, hcut⟩

/-! ## Refinement -/

/-- An object that simulates another one has no histories of its own. -/
theorem Atomic.refine {σ' : Type y} {O' : SeqObject σ' τ ι ο} {R : σ → σ' → Prop}
    (h0 : R O.start O'.start)
    (hcall : ∀ {t i o s s' r}, R s r → O.call t i o s s' → ∃ r', O'.call t i o r r' ∧ R s' r')
    (hdrift : ∀ {s s' r}, R s r → O.drift s s' → R s' r) (ha : Atomic O phase s es h) :
    ∃ r, R s r ∧ Atomic O' phase r es h := by
  induction ha with
  | start => exact ⟨_, h0, .start⟩
  | invoke i _ hidle ih =>
      obtain ⟨r, hr, ha'⟩ := ih
      exact ⟨r, hr, ha'.invoke i hidle⟩
  | effect _ hcalled hstep ih =>
      obtain ⟨r, hr, ha'⟩ := ih
      obtain ⟨r', hstep', hr'⟩ := hcall hr hstep
      exact ⟨r', hr', ha'.effect hcalled hstep'⟩
  | respond _ hdone ih =>
      obtain ⟨r, hr, ha'⟩ := ih
      exact ⟨r, hr, ha'.respond hdone⟩
  | drift _ hd ih =>
      obtain ⟨r, hr, ha'⟩ := ih
      exact ⟨r, hdrift hr hd, ha'⟩

end Histories

end Dicon.Framework
