import NodeGemfire.Events.Publishing
import NodeGemfire.Functions.Progress
import NodeGemfire.Lib.SharedThread

/-!
# One event loop

The callbacks of all function executions and of the event stream run on one event
loop, one at a time, while the threads of the native client push results and events.
A callback of one execution can keep the loop only as long as it takes this execution
to go on, so that all of them are served.

## Main definitions

- `ExecuteFunction.component`, `RegionEventRegistry.component` — with the event loop
  inside or outside
- `EventLoop.system` — any number of them on one event loop

## Main results

- `EventLoop.all_settle` — every execution is finished and every event published
-/

namespace NodeGemfire

/-! ### Function executions -/

namespace ExecuteFunction

variable {p : Platform} {s s' : State} {l : Label}

/-- The event loop is in a callback of the worker. -/
def Loop.busy : Loop → Bool
  | .idle => false
  | _ => true

theorem enters_of_busy (hs : Step p s l s') (hfree : s.loop.busy = false)
    (hbusy : s'.loop.busy = true) : l.enters = true := by
  cases hs with
  | data | endStart | completeStart => rfl
  | nextResults hl | emit _ _ hl | emitted hl | lockProcessed hl | signal hl | unlockProcessed hl
  | endFinish hl | completeFinish hl =>
    rw [hl] at hfree
    cases hfree
  | _ =>
    have hloop : s.loop.busy = true := hbusy
    rw [hfree] at hloop
    cases hloop

/-- A worker with its stream. -/
def component (p : Platform) : Component State Label where
  toTransitionSystem := system p
  busy s := s.loop.busy
  enters := Label.enters
  works := Works
  left := State.left
  start_busy s h := by
    rw [show s = .start from h]
    rfl
  enters_of_busy _ _ _ := enters_of_busy
  left_lt _ _ _ := left_lt
  leaves s h := by
    rw [Stuck.idle h]
    rfl

end ExecuteFunction

/-! ### Events -/

namespace RegionEventRegistry

variable {p : Platform} {ρ : Type} {s s' : State ρ} {l : Label ρ}

/-- The event loop is in `publishEvents`. -/
def Loop.busy : Loop ρ → Bool
  | .idle => false
  | _ => true

theorem enters_of_busy (hs : Step p s l s') (hfree : s.loop.busy = false)
    (hbusy : s'.loop.busy = true) : l.enters = true := by
  cases hs with
  | publishEvents => rfl
  | nextEvents hl | beginEvent _ _ hl | visitOwn _ _ _ _ hl | visitOther _ _ _ _ hl
  | handled _ _ _ hl | deleteEvent _ _ _ hl | finish hl =>
    rw [hl] at hfree
    cases hfree
  | emit | send | add | remove =>
    have hloop : s.loop.busy = true := hbusy
    rw [hfree] at hloop
    cases hloop

/-- The registry with its stream. -/
def component (p : Platform) (ρ : Type) : Component (State ρ) (Label ρ) where
  toTransitionSystem := system p
  busy s := s.loop.busy
  enters := Label.enters
  works := Works
  left := State.left
  start_busy s h := by
    rw [show s = .start from h]
    rfl
  enters_of_busy _ _ _ := enters_of_busy
  left_lt _ _ _ := left_lt
  leaves s h := by
    rw [Stuck.idle h]
    rfl

end RegionEventRegistry

/-! ### Together -/

namespace EventLoop

variable {p : Platform} {ρ : Type}

/-- A function execution, or a registry with its events. -/
abbrev member (p : Platform) (ρ : Type) :
    Component (ExecuteFunction.State ⊕ RegionEventRegistry.State ρ)
      (ExecuteFunction.Label ⊕ RegionEventRegistry.Label ρ) :=
  (ExecuteFunction.component p).sum (RegionEventRegistry.component p ρ)

/-- Any number of them on one event loop. -/
abbrev system (p : Platform) (ρ : Type) :
    TransitionSystem (List (ExecuteFunction.State ⊕ RegionEventRegistry.State ρ))
      (Component.FamilyLabel (ExecuteFunction.Label ⊕ RegionEventRegistry.Label ρ)) :=
  (member p ρ).family

variable {w : List (ExecuteFunction.State ⊕ RegionEventRegistry.State ρ)}

theorem reachable_execution (hw : (system p ρ).Reachable w) {s : ExecuteFunction.State}
    (hs : .inl s ∈ w) : (ExecuteFunction.system p).Reachable s :=
  Component.reachable_inl (Component.reachable_of_mem hw hs)

theorem reachable_registry (hw : (system p ρ).Reachable w) {t : RegionEventRegistry.State ρ}
    (ht : .inr t ∈ w) : (RegionEventRegistry.system p).Reachable t :=
  Component.reachable_inr (Component.reachable_of_mem hw ht)

/-- **All are served**: the event loop is in one callback at a time; each execution and
    the registry are in states that they reach by themselves; whatever the schedule, what
    is under way in all of them comes to an end, and then every execution is finished and
    every event published. -/
theorem all_settle (hw : (system p ρ).Reachable w) :
    (w.Pairwise fun s t => (member p ρ).busy s = false ∨ (member p ρ).busy t = false) ∧
    (∀ s, .inl s ∈ w → (ExecuteFunction.system p).Reachable s) ∧
    (∀ t, .inr t ∈ w → (RegionEventRegistry.system p).Reachable t) ∧
    (system p ρ).Settles (member p ρ).FamilyWorks w ∧
    ((system p ρ).AtRest (member p ρ).FamilyWorks w →
      (∀ s, .inl s ∈ w → ExecuteFunction.Finished p s) ∧
      ∀ t, .inr t ∈ w → RegionEventRegistry.Published t) := by
  refine ⟨Component.exclusive hw, fun s => reachable_execution hw, fun t => reachable_registry hw,
    Component.settles w, fun hrest => ⟨fun s hs => ?_, fun t ht => ?_⟩⟩
  · exact ExecuteFunction.finished_of_atRest (reachable_execution hw hs)
      (Component.atRest_inl (Component.atRest_of_mem hrest hs))
  · exact RegionEventRegistry.published_of_atRest (reachable_registry hw ht)
      (Component.atRest_inr (Component.atRest_of_mem hrest ht))

/-- A registry, and an execution whose `execute` has pushed a result. -/
def onePushed : List (ExecuteFunction.State ⊕ RegionEventRegistry.State ℕ) :=
  [.inr .start, .inl { ExecuteFunction.State.start with
    resultsPtr := [none], pushed := [none], unsent := 1 }]

theorem onePushed_reachable : (system nativeClient ℕ).Reachable onePushed := by
  have hregistry : (member nativeClient ℕ).start (.inr .start) :=
    (rfl : RegionEventRegistry.State.start = _)
  have hexecution : (member nativeClient ℕ).start (.inl .start) :=
    (rfl : ExecuteFunction.State.start = _)
  have hpush : (member nativeClient ℕ).step (.inl .start) (.inl (.push none)) _ :=
    Component.SumStep.inl (ExecuteFunction.Step.push _ none rfl)
  have hstep : (system nativeClient ℕ).step [.inr .start, .inl .start]
      (.step 1 (.inl (.push none))) onePushed :=
    Component.FamilyStep.step [.inr .start] [] _ _ _ hpush fun henters => nomatch henters
  have h₁ := (TransitionSystem.Reachable.start rfl : (system nativeClient ℕ).Reachable [])
  have h₂ := (h₁.step (.create [] _ hregistry)).step (.create _ _ hexecution)
  exact h₂.step hstep

theorem all_settle_onePushed :
    (system nativeClient ℕ).Settles (member nativeClient ℕ).FamilyWorks onePushed ∧
    ∃ w, (system nativeClient ℕ).Leads (member nativeClient ℕ).FamilyWorks onePushed w ∧
      (∀ s, .inl s ∈ w → ExecuteFunction.Finished nativeClient s) ∧
      ∀ t, .inr t ∈ w → RegionEventRegistry.Published t := by
  have hsettles := (all_settle onePushed_reachable).2.2.2.1
  obtain ⟨w, hleads, hrest⟩ := hsettles.exists_atRest
  have hreachable := onePushed_reachable.of_leads hleads
  exact ⟨hsettles, w, hleads, (all_settle hreachable).2.2.2.2 hrest⟩

end EventLoop

end NodeGemfire
