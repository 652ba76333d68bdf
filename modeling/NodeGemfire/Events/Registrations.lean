import NodeGemfire.Events.Dispatch

/-!
# Registrations in handlers

A handler may make further `Region` objects, and each of them is inserted into
the set that `publishEvents` is iterating. One for the native region of the event
gets the event too if its address is greater than the address of the object whose
handler made it, although it was not registered when the dispatch began.

## Main results

- `delivered_iff_restrict` — deliveries are those of the beginning of the dispatch
  if and only if no handler has made such an object
-/

namespace NodeGemfire.RegionEventRegistry

variable {p : Platform} {ρ : Type} [DecidableEq ρ] {s s' : State ρ} {l : Label ρ}

/-! ### Runs -/

/-- The runs in which handlers make objects, and none that is ahead is collected. -/
def creating (p : Platform) : TransitionSystem (State ρ) (Label ρ) :=
  (system p).restrict RecipientsKept

omit [DecidableEq ρ] in
theorem Step.creating (hs : Step p s l s') (hkept : RecipientsKept s l) :
    (creating p).step s l s' := ⟨hkept, hs⟩

/-- No delivery is lost. -/
theorem expected_sublist_outlook (hr : (creating p).Reachable s) :
    (s.expected p).Sublist (s.outlook p) := by
  refine hr.invariant (fun s => (s.expected p).Sublist (s.outlook p)) ?_ ?_
  · rintro _ rfl
    exact List.Sublist.refl _
  · intro s l s' _ hsublist hs
    by_cases hnone : NoneAhead s l
    · obtain ⟨new, hexpected, houtlook⟩ := outlook_of_noneAhead hs.1 hnone hs.2
      rw [hexpected, houtlook]
      exact hsublist.append_right new
    · obtain ⟨hexpected, hmore, -⟩ := outlook_of_ahead hnone hs.2
      rw [hexpected]
      exact hsublist.trans hmore

/-- A delivery too many is never made good. -/
theorem State.Delivered.of_step (hr : (creating p).Reachable s) (hs : (creating p).step s l s')
    (h : s'.Delivered p) : s.Delivered p ∧ NoneAhead s l := by
  by_cases hnone : NoneAhead s l
  · obtain ⟨new, hexpected, houtlook⟩ := outlook_of_noneAhead hs.1 hnone hs.2
    rw [State.Delivered, hexpected, houtlook] at h
    exact ⟨List.append_cancel_right h, hnone⟩
  · obtain ⟨hexpected, -, hlength⟩ := outlook_of_ahead hnone hs.2
    have hle := (expected_sublist_outlook hr).length_le
    rw [State.Delivered, hexpected] at h
    rw [h] at hlength
    omega

/-- The events go to the objects registered when their dispatches began, each once, if and
    only if no handler has made an object ahead for the native region of the event. -/
theorem delivered_iff_restrict (hr : (creating p).Reachable s) :
    (s.Delivered p ↔ ((creating p).restrict NoneAhead).Reachable s) ∧
      (s.loop = .idle → (s.Delivered p ↔ s.emitted = s.dispatches.flatMap (Dispatch.emissions p))) ∧
      ∀ d ∈ s.dispatches, EmittedTo p d.event d.regionSet (d.emissions p) := by
  refine ⟨?_, ?_, fun d _ => d.emittedTo⟩
  · apply hr.iff_restrict (State.Delivered p)
    · rintro _ rfl
      rfl
    · exact fun s l s' _ h hnone hs => h.step hs.1 hnone hs.2
    · exact fun s l s' hr' hs h => h.of_step hr' hs
  · intro hidle
    have hdue : s.due p = [] := by simp only [State.due, hidle]
    rw [State.Delivered, State.outlook, hdue, List.append_nil]
    rfl

/-! ### Two runs -/

/-- In the handlers of the one object for the native region 0. -/
def inHandler : State ℕ :=
  { State.start with
    pending := true
    regionSet := (OrderedSet.empty _).insert ⟨16, 0⟩
    loop := .handling createdEvent [] ⟨16, 0⟩
    held := [16]
    pushed := [createdEvent]
    dispatches := [⟨createdEvent, (OrderedSet.empty _).insert ⟨16, 0⟩⟩]
    emitted := [emission nativeClient createdEvent ⟨16, 0⟩] }

theorem inHandler_reachable :
    ((creating nativeClient).restrict NoneAhead).Reachable inHandler := by
  have h₁ := (TransitionSystem.Reachable.start rfl :
    ((creating nativeClient).restrict NoneAhead).Reachable (State.start : State ℕ))
  have h₂ := h₁.guarded (Step.creating (.add _ ⟨16, 0⟩ trivial (by decide)) trivial) trivial
  have h₃ := h₂.guarded (Step.creating (.emit _ .afterCreate ⟨0, none, none, none⟩) trivial) trivial
  have h₄ := h₃.guarded (Step.creating (.publishEvents _ rfl) trivial) trivial
  have h₅ := h₄.guarded (Step.creating (.nextEvents _ rfl) trivial) trivial
  have h₆ := h₅.guarded (Step.creating (.send _ (by decide)) trivial) trivial
  have h₇ := h₆.guarded (Step.creating (.beginEvent _ _ _ rfl) trivial) trivial
  exact h₇.guarded
    (Step.creating (.visitOwn _ createdEvent [] none ⟨16, 0⟩ rfl rfl rfl) trivial) trivial

/-- The handler makes an object for the native region 0 at a lower address, and one for
    another region. -/
def madeBehind : State ℕ :=
  { inHandler with
    regionSet := (((OrderedSet.empty _).insert ⟨16, 0⟩).insert ⟨8, 0⟩).insert ⟨32, 1⟩
    loop := .regions createdEvent [] (some 16) }

theorem madeBehind_reachable :
    ((creating nativeClient).restrict NoneAhead).Reachable madeBehind := by
  have h₁ := inHandler_reachable.guarded (Step.creating (.add _ ⟨8, 0⟩ trivial (by decide)) trivial)
    (by decide : ¬IsAhead createdEvent ⟨16, 0⟩ ⟨8, 0⟩)
  have h₂ := h₁.guarded (Step.creating (.add _ ⟨32, 1⟩ trivial (by decide)) trivial)
    (by decide : ¬IsAhead createdEvent ⟨16, 0⟩ ⟨32, 1⟩)
  exact h₂.guarded (Step.creating (.handled _ createdEvent [] ⟨16, 0⟩ rfl) trivial) trivial

theorem delivered_iff_restrict_madeBehind : madeBehind.Delivered nativeClient :=
  (delivered_iff_restrict madeBehind_reachable.of_restrict).1.mpr madeBehind_reachable

/-- The handler makes an object for the native region 0 at a higher address, and the event
    is emitted on it too. -/
theorem not_delivered_madeAhead :
    ¬∀ s : State ℕ, (creating nativeClient).Reachable s → s.Delivered nativeClient := by
  intro h
  have h₁ : (creating nativeClient).Reachable _ :=
    inHandler_reachable.of_restrict.step
      (Step.creating (.add _ ⟨32, 0⟩ trivial (by decide)) trivial)
  have h₂ := h₁.step (Step.creating (.handled _ createdEvent [] ⟨16, 0⟩ rfl) trivial)
  have h₃ := h₂.step
    (Step.creating (.visitOwn _ createdEvent [] (some 16) ⟨32, 0⟩ rfl rfl rfl) trivial)
  have hlength := congrArg List.length (h _ h₃)
  exact absurd hlength (by decide)

end NodeGemfire.RegionEventRegistry
