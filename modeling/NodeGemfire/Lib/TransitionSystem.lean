import Mathlib.Logic.Relation

/-!
# Transition systems

Labelled transition systems, the states their runs lead to, restriction of a
system to the steps that meet a guard, and simulations between systems. An
invariant is proved once per label; `TransitionSystem.Reachable.invariant`
carries it to every reachable state.

## Main definitions

- `TransitionSystem` — initial states and labelled steps
- `TransitionSystem.Reachable` — what some run leads to
- `TransitionSystem.restrict` — the same system, only the guarded steps
- `TransitionSystem.Leads` — a run from one state to another by guarded steps
- `TransitionSystem.Settles`, `TransitionSystem.AtRest` — guarded steps come to an end
- `Simulation` — a map of states under which each step is a step or a stutter
-/

universe u v w x

/-- Initial states, and the steps with the label each of them carries. -/
structure TransitionSystem (σ : Type u) (ι : Type v) where
  start : σ → Prop
  step : σ → ι → σ → Prop

namespace TransitionSystem

variable {σ : Type u} {ι : Type v}

/-- The states some run from an initial state leads to. -/
inductive Reachable (T : TransitionSystem σ ι) : σ → Prop
  | start {s : σ} (h : T.start s) : Reachable T s
  | step {s s' : σ} {l : ι} (h : Reachable T s) (hs : T.step s l s') : Reachable T s'

/-- The same states, with only the steps whose source and label meet `guard`. -/
def restrict (T : TransitionSystem σ ι) (guard : σ → ι → Prop) : TransitionSystem σ ι where
  start := T.start
  step s l s' := guard s l ∧ T.step s l s'

variable {T : TransitionSystem σ ι} {guard : σ → ι → Prop}

/-- **Invariant rule**: what holds initially and survives every step from a
    reachable state holds in every reachable state. -/
theorem Reachable.invariant {s : σ} (hr : T.Reachable s) (P : σ → Prop)
    (hstart : ∀ s, T.start s → P s)
    (hstep : ∀ s l s', T.Reachable s → P s → T.step s l s' → P s') : P s := by
  induction hr with
  | start h => exact hstart _ h
  | step hr hs ih => exact hstep _ _ _ hr ih hs

theorem Reachable.of_restrict {s : σ} (hr : (T.restrict guard).Reachable s) : T.Reachable s := by
  induction hr with
  | start h => exact .start h
  | step _ hs ih => exact .step ih hs.2

/-- A guard that every step meets changes nothing. -/
theorem Reachable.restrict {s : σ} (hr : T.Reachable s) (hguard : ∀ s l, guard s l) :
    (T.restrict guard).Reachable s := by
  induction hr with
  | start h => exact .start h
  | step _ hs ih => exact .step ih ⟨hguard _ _, hs⟩

theorem Reachable.guarded {s s' : σ} {l : ι} (h : (T.restrict guard).Reachable s)
    (hs : T.step s l s') (hguard : guard s l) : (T.restrict guard).Reachable s' :=
  .step h ⟨hguard, hs⟩

/-- **Restriction rule**: a property that guarded steps preserve, and that tells
    of the step before that it was guarded, holds of the states that guarded
    steps lead to and of no others. -/
theorem Reachable.iff_restrict {s : σ} (hr : T.Reachable s) (P : σ → Prop)
    (hstart : ∀ s, T.start s → P s)
    (hforth : ∀ s l s', T.Reachable s → P s → guard s l → T.step s l s' → P s')
    (hback : ∀ s l s', T.Reachable s → T.step s l s' → P s' → P s ∧ guard s l) :
    P s ↔ (T.restrict guard).Reachable s := by
  constructor
  · induction hr with
    | start h =>
      intro _
      exact .start h
    | step hr hs ih =>
      intro hp
      obtain ⟨hp', hguard⟩ := hback _ _ _ hr hs hp
      exact .step (ih hp') ⟨hguard, hs⟩
  · intro hrestrict
    refine hrestrict.invariant P hstart fun s l s' hr' hp hs => ?_
    exact hforth s l s' hr'.of_restrict hp hs.1 hs.2

/-- A run of guarded steps goes from one state to the other. -/
def Leads (T : TransitionSystem σ ι) (guard : σ → ι → Prop) : σ → σ → Prop :=
  Relation.ReflTransGen fun s s' => ∃ l, guard s l ∧ T.step s l s'

theorem Leads.refl (s : σ) : T.Leads guard s s := Relation.ReflTransGen.refl

theorem Leads.head {s s' s'' : σ} {l : ι} (h : T.Leads guard s' s'') (hguard : guard s l)
    (hs : T.step s l s') : T.Leads guard s s'' :=
  Relation.ReflTransGen.head ⟨l, hguard, hs⟩ h

theorem Reachable.of_leads {s s' : σ} (hr : T.Reachable s) (h : T.Leads guard s s') :
    T.Reachable s' := by
  induction h with
  | refl => exact hr
  | tail _ hstep ih =>
    obtain ⟨l, -, hs⟩ := hstep
    exact ih.step hs

theorem Reachable.leads {guard' : σ → ι → Prop} {s s' : σ}
    (hr : (T.restrict guard').Reachable s) (h : T.Leads guard s s')
    (hguard : ∀ s l, guard s l → guard' s l) : (T.restrict guard').Reachable s' := by
  induction h with
  | refl => exact hr
  | tail _ hstep ih =>
    obtain ⟨l, hl, hs⟩ := hstep
    exact ih.guarded hs (hguard _ l hl)

/-! ### Steps that come to an end -/

/-- Every sequence of guarded steps from here on comes to an end. -/
def Settles (T : TransitionSystem σ ι) (guard : σ → ι → Prop) : σ → Prop :=
  Acc fun s' s => ∃ l, guard s l ∧ T.step s l s'

/-- No guarded step is possible. -/
def AtRest (T : TransitionSystem σ ι) (guard : σ → ι → Prop) (s : σ) : Prop :=
  ∀ l s', guard s l → ¬T.step s l s'

/-- Steps that come to an end lead to a state in which none is possible. -/
theorem Settles.exists_atRest {s : σ} (h : T.Settles guard s) :
    ∃ s', T.Leads guard s s' ∧ T.AtRest guard s' := by
  induction h with
  | intro s _ ih =>
    by_cases hstep : ∃ l s', guard s l ∧ T.step s l s'
    · obtain ⟨l, s', hguard, hs⟩ := hstep
      obtain ⟨s'', hleads, hrest⟩ := ih s' ⟨l, hguard, hs⟩
      exact ⟨s'', hleads.head hguard hs, hrest⟩
    · exact ⟨s, .refl s, fun l s' hguard hs => hstep ⟨l, s', hguard, hs⟩⟩

/-- Guarded steps come to an end if there is less left to do after each of them. -/
theorem settles_of_lt (left : σ → Nat)
    (h : ∀ s l s', guard s l → T.step s l s' → left s' < left s) (s : σ) : T.Settles guard s := by
  refine Subrelation.accessible ?_ ((measure left).wf.apply s)
  rintro s' s ⟨l, hguard, hs⟩
  exact h s l s' hguard hs

end TransitionSystem

/-- A map from the states of `C` to those of `A` under which initial states are
    initial and every step from a reachable state is a step of `A` or invisible. -/
structure Simulation {σ : Type u} {ι : Type v} {τ : Type w} {κ : Type x}
    (C : TransitionSystem σ ι) (A : TransitionSystem τ κ) where
  abs : σ → τ
  start : ∀ s, C.start s → A.start (abs s)
  step : ∀ s l s', C.Reachable s → C.step s l s' →
    abs s' = abs s ∨ ∃ k, A.step (abs s) k (abs s')

namespace Simulation

variable {σ : Type u} {ι : Type v} {τ : Type w} {κ : Type x}
  {C : TransitionSystem σ ι} {A : TransitionSystem τ κ}

/-- **Simulation rule**: a reachable state of `C` stands for a reachable state of `A`. -/
theorem reachable (R : Simulation C A) {s : σ} (hs : C.Reachable s) : A.Reachable (R.abs s) := by
  induction hs with
  | start h => exact .start (R.start _ h)
  | step hr hs ih =>
    rcases R.step _ _ _ hr hs with heq | ⟨k, hk⟩
    · rw [heq]
      exact ih
    · exact .step ih hk

end Simulation
