import NodeGemfire.Lib.TransitionSystem
import Mathlib.Data.List.Basic
import Mathlib.Algebra.BigOperators.Group.List.Basic

/-!
# Components that share a thread

A component has steps of its own, taken by threads of its own, and steps of one
thread that it shares with the others: an event loop that is inside one component
at a time, and enters the next when it has left. Any number of components are
created while others run.

A component by itself says which of its steps finish what is under way, that they
come to an end, and that the thread leaves it again. From this `settles` and
`atRest_of_mem` follow for all components together: no component keeps the thread
from another for ever.

## Main definitions

- `Component` — a transition system with a thread inside or outside
- `Component.sum` — components of two kinds
- `Component.family` — all interleavings of any number of components
-/

universe u v w x

/-- `busy` says that the shared thread is inside; `enters` tells the steps with which
    it enters. The steps that `works` finish what is under way, of which there is `left`
    so much to do; and if they cannot go on without the thread, it is outside. -/
structure Component (σ : Type u) (ι : Type v) extends TransitionSystem σ ι where
  busy : σ → Bool
  enters : ι → Bool
  works : σ → ι → Prop
  left : σ → Nat
  start_busy : ∀ s, start s → busy s = false
  enters_of_busy : ∀ s l s', step s l s' → busy s = false → busy s' = true → enters l = true
  left_lt : ∀ s l s', works s l → step s l s' → left s' < left s
  leaves : ∀ s, (∀ l s', works s l → enters l = false → ¬step s l s') → busy s = false

namespace Component

variable {σ : Type u} {ι : Type v} {τ : Type w} {κ : Type x}

/-! ### Two kinds -/

section Sum

variable (C : Component σ ι) (D : Component τ κ)

inductive SumStep : σ ⊕ τ → ι ⊕ κ → σ ⊕ τ → Prop
  | inl {s s' : σ} {l : ι} (h : C.step s l s') : SumStep (.inl s) (.inl l) (.inl s')
  | inr {t t' : τ} {l : κ} (h : D.step t l t') : SumStep (.inr t) (.inr l) (.inr t')

/-- A component of the one kind or of the other. -/
def sum : Component (σ ⊕ τ) (ι ⊕ κ) where
  start := Sum.elim C.start D.start
  step := SumStep C D
  busy := Sum.elim C.busy D.busy
  enters := Sum.elim C.enters D.enters
  works s l :=
    match s, l with
    | .inl s, .inl l => C.works s l
    | .inr t, .inr l => D.works t l
    | _, _ => False
  left := Sum.elim C.left D.left
  start_busy s h := by
    cases s with
    | inl s => exact C.start_busy s h
    | inr t => exact D.start_busy t h
  enters_of_busy s l s' hs hfree hbusy := by
    cases hs with
    | inl h => exact C.enters_of_busy _ _ _ h hfree hbusy
    | inr h => exact D.enters_of_busy _ _ _ h hfree hbusy
  left_lt s l s' hl hs := by
    cases hs with
    | inl h => exact C.left_lt _ _ _ hl h
    | inr h => exact D.left_lt _ _ _ hl h
  leaves s h := by
    cases s with
    | inl s => exact C.leaves s fun l s' hl henters hs => h (.inl l) (.inl s') hl henters (.inl hs)
    | inr t => exact D.leaves t fun l t' hl henters hs => h (.inr l) (.inr t') hl henters (.inr hs)

variable {C D}

theorem reachable_inl {s : σ} (h : (sum C D).Reachable (.inl s)) : C.Reachable s := by
  generalize hx : (Sum.inl s : σ ⊕ τ) = y at h
  induction h generalizing s with
  | start hstart =>
    subst hx
    exact .start hstart
  | step _ hs ih =>
    subst hx
    cases hs with
    | inl hs => exact .step (ih rfl) hs

theorem reachable_inr {t : τ} (h : (sum C D).Reachable (.inr t)) : D.Reachable t := by
  generalize hx : (Sum.inr t : σ ⊕ τ) = y at h
  induction h generalizing t with
  | start hstart =>
    subst hx
    exact .start hstart
  | step _ hs ih =>
    subst hx
    cases hs with
    | inr hs => exact .step (ih rfl) hs

theorem atRest_inl {s : σ} (h : (sum C D).AtRest (sum C D).works (.inl s)) : C.AtRest C.works s :=
  fun l s' hl hs => h (.inl l) (.inl s') hl (.inl hs)

theorem atRest_inr {t : τ} (h : (sum C D).AtRest (sum C D).works (.inr t)) : D.AtRest D.works t :=
  fun l t' hl hs => h (.inr l) (.inr t') hl (.inr hs)

end Sum

/-! ### Any number -/

variable (C : Component σ ι)

inductive FamilyLabel (ι : Type v)
  | create
  | step (i : Nat) (l : ι)

/-- A component is created, or one of them takes a step; the thread enters it only if
    it is outside of all. -/
inductive FamilyStep : List σ → FamilyLabel ι → List σ → Prop
  | create (w : List σ) (s : σ) (h : C.start s) : FamilyStep w .create (w ++ [s])
  | step (before after : List σ) (s s' : σ) (l : ι) (h : C.step s l s')
      (hthread : C.enters l = true → ∀ t ∈ before ++ s :: after, C.busy t = false) :
    FamilyStep (before ++ s :: after) (.step before.length l) (before ++ s' :: after)

/-- All interleavings of the components. -/
def family : TransitionSystem (List σ) (FamilyLabel ι) where
  start w := w = []
  step := FamilyStep C

/-- The step finishes something that is under way in a component. -/
def FamilyWorks (w : List σ) : FamilyLabel ι → Prop
  | .create => False
  | .step i l => ∃ s, w[i]? = some s ∧ C.works s l

variable {C} {w w' : List σ} {s : σ}

/-- Each component is in a state that it reaches by itself. -/
theorem reachable_of_mem (hw : C.family.Reachable w) (hs : s ∈ w) : C.Reachable s := by
  induction hw generalizing s with
  | start h =>
    subst h
    exact absurd hs List.not_mem_nil
  | step _ hstep ih =>
    cases hstep with
    | create w t ht =>
      rcases List.mem_append.mp hs with hs | hs
      · exact ih hs
      · rw [List.mem_singleton.mp hs]
        exact .start ht
    | step before after t t' l ht =>
      rcases List.mem_append.mp hs with hs | hs
      · exact ih (List.mem_append_left _ hs)
      rcases List.mem_cons.mp hs with rfl | hs
      · exact .step (ih (List.mem_append_right _ List.mem_cons_self)) ht
      · exact ih (List.mem_append_right _ (List.mem_cons_of_mem _ hs))

/-- The thread is inside one component at most. -/
theorem exclusive (hw : C.family.Reachable w) :
    w.Pairwise fun s t => C.busy s = false ∨ C.busy t = false := by
  have hsymm : ∀ {s t}, C.busy s = false ∨ C.busy t = false →
      C.busy t = false ∨ C.busy s = false := Or.symm
  refine hw.invariant _ ?_ fun w l w' _ ih hstep => ?_
  · rintro _ rfl
    exact List.Pairwise.nil
  cases hstep with
  | create w s h =>
    rw [List.pairwise_append]
    refine ⟨ih, List.pairwise_singleton _ _, fun t _ s' hs' => .inr ?_⟩
    rw [List.mem_singleton.mp hs']
    exact C.start_busy s h
  | step before after s s' l h hthread =>
    rw [List.pairwise_middle hsymm, List.pairwise_cons] at ih ⊢
    refine ⟨fun t ht => ?_, ih.2⟩
    by_cases hbusy : C.busy s' = true
    · right
      by_cases hfree : C.busy s = false
      · -- the thread has entered, and was outside of all
        refine hthread (C.enters_of_busy s l s' h hfree hbusy) t ?_
        rcases List.mem_append.mp ht with ht | ht
        · exact List.mem_append_left _ ht
        · exact List.mem_append_right _ (List.mem_cons_of_mem _ ht)
      · exact (ih.1 t ht).resolve_left hfree
    · exact .inl (by simpa using hbusy)

/-- **Settling**: what is under way in all components comes to an end. -/
theorem settles (w : List σ) : C.family.Settles C.FamilyWorks w := by
  refine TransitionSystem.settles_of_lt (fun w => (w.map C.left).sum) ?_ w
  intro w l w' hl hstep
  cases hstep with
  | create => exact hl.elim
  | step before after s s' l h =>
    obtain ⟨t, ht, hworks⟩ := hl
    obtain rfl : s = t := by simpa using ht
    have hlt := C.left_lt s l s' hworks h
    simp only [List.map_append, List.map_cons, List.sum_append, List.sum_cons]
    omega

/-- **No component is kept waiting**: where nothing can go on in all components
    together, nothing can go on in any of them by itself. -/
theorem atRest_of_mem (h : C.family.AtRest C.FamilyWorks w) (hs : s ∈ w) : C.AtRest C.works s := by
  have hstep : ∀ s ∈ w, ∀ l s', C.works s l → C.step s l s' →
      ¬(C.enters l = true → ∀ t ∈ w, C.busy t = false) := by
    intro s hs l s' hl hstep hthread
    obtain ⟨before, after, rfl⟩ := List.append_of_mem hs
    exact h (.step before.length l) _ ⟨s, by simp, hl⟩ (.step before after s s' l hstep hthread)
  -- the thread is outside of all
  have hfree : ∀ t ∈ w, C.busy t = false := by
    intro t ht
    refine C.leaves t fun l t' hl henters ht' => hstep t ht l t' hl ht' fun henters' => ?_
    simp [henters] at henters'
  exact fun l s' hl hs' => hstep s hs l s' hl hs' fun _ => hfree

end Component
