import NodeGemfire.Events.Outlook
import NodeGemfire.Lib.Channel
import Mathlib.Data.List.Nodup

/-!
# Dispatch of region events

The event stream is a channel from the threads that report events to the event
loop: events are dispatched in the order of the pushes, each of them once. A
dispatch during which the registry stays as it is emits the event on the regions
registered for its native region, each of them once, before it is deleted.

## Main results

- `eventSimulation` — the event stream simulates a channel
- `events_dispatched_once` — what has been emitted, and on which objects
-/

namespace NodeGemfire.RegionEventRegistry

variable {p : Platform} {ρ : Type} {s s' : State ρ} {l : Label ρ}

/-! ### The stream is a channel -/

/-- The events of the dispatches, in their order. -/
def State.dispatched (s : State ρ) : List (Event ρ) := s.dispatches.map Dispatch.event

/-- Every event pushed is dispatched, taken off the stream, or on the stream, in
    this order; every event dispatched is deleted or being dispatched. -/
structure Conserved (s : State ρ) : Prop where
  pushed : Channel.Staged s.pushed s.dispatched s.loop.rest s.eventVector
  deleted : s.deleted ++ s.loop.current = s.dispatched
  serials : s.pushed.map Event.serial = List.range s.pushed.length

theorem conserved_start : Conserved (State.start : State ρ) := ⟨rfl, rfl, rfl⟩

theorem Conserved.staged (h : Conserved s) {rest : List (Event ρ)} (hl : s.loop.rest = rest) :
    Channel.Staged s.pushed s.dispatched rest s.eventVector := by
  rw [← hl]
  exact h.pushed

theorem Conserved.deleted_append (h : Conserved s) {current : List (Event ρ)}
    (hl : s.loop.current = current) : s.deleted ++ current = s.dispatched := by
  rw [← hl]
  exact h.deleted

/-- A step that begins and ends no dispatch. -/
theorem Conserved.loop (h : Conserved s) {loop : Loop ρ} (hrest : loop.rest = s.loop.rest)
    (hcurrent : loop.current = s.loop.current) : Conserved { s with loop := loop } where
  pushed := by
    show Channel.Staged s.pushed s.dispatched loop.rest s.eventVector
    rw [hrest]
    exact h.pushed
  deleted := by
    show s.deleted ++ loop.current = s.dispatched
    rw [hcurrent]
    exact h.deleted
  serials := h.serials

theorem Conserved.emit (h : Conserved s) (callback : ListenerCallback)
    (entryEvent : EntryEvent ρ) :
    Conserved
      { s with
        eventVector := s.eventVector ++ [⟨s.pushed.length, callback.eventName, entryEvent⟩]
        pushed := s.pushed ++ [⟨s.pushed.length, callback.eventName, entryEvent⟩] } where
  pushed := h.pushed.push _
  deleted := h.deleted
  serials := by
    show (s.pushed ++ [_]).map Event.serial = List.range (s.pushed ++ [_]).length
    rw [List.length_append, List.length_singleton, List.range_succ, List.map_append, h.serials]
    rfl

theorem Conserved.nextEvents (h : Conserved s) (hl : s.loop = .started) :
    Conserved { s with loop := .events s.eventVector, eventVector := [] } where
  pushed := (h.staged (by rw [hl]; rfl)).take
  deleted := h.deleted_append (by rw [hl]; rfl)
  serials := h.serials

theorem Conserved.beginEvent (h : Conserved s) {event : Event ρ} {rest : List (Event ρ)}
    (hl : s.loop = .events (event :: rest)) :
    Conserved
      { s with
        loop := .regions event rest none
        dispatches := s.dispatches ++ [⟨event, s.regionSet⟩] } where
  pushed := by
    show Channel.Staged s.pushed ((s.dispatches ++ [_]).map Dispatch.event) rest s.eventVector
    rw [List.map_append]
    exact (h.staged (by rw [hl]; rfl)).deliver
  deleted := by
    have hdeleted := h.deleted_append (by rw [hl]; rfl : s.loop.current = [])
    show s.deleted ++ [event] = (s.dispatches ++ [_]).map Dispatch.event
    rw [List.map_append, ← List.append_nil s.deleted]
    exact congrArg (· ++ [event]) hdeleted
  serials := h.serials

theorem Conserved.deleteEvent (h : Conserved s) {event : Event ρ} {rest : List (Event ρ)}
    {cursor : Option ℕ} (hl : s.loop = .regions event rest cursor) :
    Conserved { s with loop := .events rest, deleted := s.deleted ++ [event] } where
  pushed := h.staged (by rw [hl]; rfl)
  deleted := by
    show s.deleted ++ [event] ++ [] = s.dispatched
    rw [List.append_nil]
    exact h.deleted_append (by rw [hl]; rfl)
  serials := h.serials

theorem conserved_step (h : Conserved s) (hs : Step p s l s') : Conserved s' := by
  cases hs with
  | emit callback entryEvent => exact { h.emit callback entryEvent with }
  | send | add | remove => exact { h with }
  | publishEvents hl =>
    have h' : Conserved { s with loop := .started } := h.loop (by rw [hl]; rfl) (by rw [hl]; rfl)
    exact { h' with }
  | nextEvents hl => exact { h.nextEvents hl with }
  | beginEvent event rest hl => exact h.beginEvent hl
  | visitOwn event rest cursor region hl =>
    have h' : Conserved { s with loop := .handling event rest region } :=
      h.loop (by rw [hl]; rfl) (by rw [hl]; rfl)
    exact { h' with }
  | visitOther event rest cursor region hl =>
    have h' : Conserved { s with loop := .regions event rest (some region.address) } :=
      h.loop (by rw [hl]; rfl) (by rw [hl]; rfl)
    exact { h' with }
  | handled event rest region hl => exact h.loop (by rw [hl]; rfl) (by rw [hl]; rfl)
  | deleteEvent event rest cursor hl => exact h.deleteEvent hl
  | finish hl =>
    have h' : Conserved { s with loop := .idle } := h.loop (by rw [hl]; rfl) (by rw [hl]; rfl)
    exact { h' with }

theorem conserved_of_reachable (hr : (system p).Reachable s) : Conserved s :=
  hr.invariant Conserved (fun _ h => h ▸ conserved_start) fun _ _ _ _ => conserved_step

/-- The stream, with its vector, its wake-ups and the registry left out. -/
def eventSimulation (p : Platform) (ρ : Type) :
    Simulation (system p : TransitionSystem (State ρ) (Label ρ)) (Channel.system (Event ρ)) where
  abs s := ⟨s.pushed, s.dispatched⟩
  start s h := by
    subst h
    rfl
  step s l s' hr hs := by
    cases hs with
    | emit => exact .inr ⟨_, .push _ _⟩
    | beginEvent event rest hl =>
      refine .inr ⟨.deliver, ?_⟩
      show Channel.Step ⟨s.pushed, s.dispatched⟩ .deliver
        ⟨s.pushed, (s.dispatches ++ [Dispatch.mk event s.regionSet]).map Dispatch.event⟩
      rw [List.map_append]
      exact ((conserved_of_reachable hr).staged (by rw [hl]; rfl)).step
    | _ => exact .inl rfl

theorem Conserved.dispatched_nodup (h : Conserved s) : s.dispatched.Nodup := by
  have hserials : (s.pushed.map Event.serial).Nodup := by
    rw [h.serials]
    exact List.nodup_range
  have hpushed : s.pushed.Nodup := List.Nodup.of_map Event.serial hserials
  exact h.pushed.delivered_prefix.sublist.nodup hpushed

/-! ### While the registry is kept -/

/-- The registry changes only between two callbacks. -/
def RegistryKept (s : State ρ) : Label ρ → Prop
  | .add _ | .remove _ => s.loop = .idle
  | _ => True

theorem RegistryKept.recipientsKept (h : RegistryKept s l) : RecipientsKept s l := by
  cases l with
  | remove region =>
    have hl : s.loop = .idle := h
    simp only [RecipientsKept, hl]
  | _ => trivial

theorem RegistryKept.noneAhead (h : RegistryKept s l) : NoneAhead s l := by
  cases l with
  | add region =>
    have hl : s.loop = .idle := h
    simp only [NoneAhead, hl]
  | _ => trivial

section RegistryKept

variable [DecidableEq ρ]

/-- The invariant of dispatch, while handlers do not change the registry. -/
structure Dispatching (p : Platform) (s : State ρ) : Prop where
  emitted : s.emitted ++ s.due p = s.dispatches.flatMap (Dispatch.emissions p)
  current : ∀ event ∈ s.loop.current, ∃ before, s.dispatches = before ++ [⟨event, s.regionSet⟩]

theorem dispatching_start : Dispatching p (State.start : State ρ) := by
  constructor <;> simp [State.start, State.due, Loop.current]

/-- The dispatch under way is the last one, and the registry is as at its beginning. -/
theorem current_step (h : Dispatching p s) (hguard : RegistryKept s l) (hs : Step p s l s') :
    ∀ event ∈ s'.loop.current, ∃ before, s'.dispatches = before ++ [⟨event, s'.regionSet⟩] := by
  have hcurrent := h.current
  cases hs with
  | emit | send => exact hcurrent
  | publishEvents | nextEvents | deleteEvent | finish => exact nofun
  | beginEvent event rest hl =>
    intro event' hmem
    rw [List.mem_singleton.mp hmem]
    exact ⟨s.dispatches, rfl⟩
  | visitOwn event rest cursor region hl | visitOther event rest cursor region hl
  | handled event rest region hl =>
    rw [hl] at hcurrent
    exact hcurrent
  | add | remove =>
    have hl : s.loop = .idle := hguard
    simp [hl, Loop.current]

theorem dispatching_step (h : Dispatching p s) (hguard : RegistryKept s l)
    (hs : Step p s l s') : Dispatching p s' where
  emitted := by
    have hdelivered : s.Delivered p := h.emitted
    exact hdelivered.step hguard.recipientsKept hguard.noneAhead hs
  current := current_step h hguard hs

theorem dispatching_of_reachable (hr : ((system p).restrict RegistryKept).Reachable s) :
    Dispatching p s :=
  hr.invariant (Dispatching p) (fun _ h => h ▸ dispatching_start) fun _ _ _ _ h hs =>
    dispatching_step h hs.1 hs.2

/-! ### The dispatches -/

/-- The dispatch under way is the one after those of the deleted events. -/
theorem drop_dispatches_of_current (hc : Conserved s) (h : Dispatching p s) {event : Event ρ}
    (hl : s.loop.current = [event]) :
    s.dispatches.drop s.deleted.length = [⟨event, s.regionSet⟩] := by
  obtain ⟨before, hbefore⟩ := h.current event (by simp [hl])
  have hlength := congrArg List.length hc.deleted
  simp only [hl, State.dispatched, hbefore, List.length_append, List.length_map,
    List.length_singleton] at hlength
  have hdeleted : s.deleted.length = before.length := by omega
  rw [hbefore, hdeleted, List.drop_left]

theorem length_emissions_after_le (event : Event ρ) (regionSet : RegionSet ρ)
    (cursor : Option ℕ) :
    (emissions p event (regionSet.after cursor)).length ≤
      (emissions p event regionSet.toList).length := by
  have hsublist := ((regionSet.after_sublist cursor).filter (·.regionPtr = event.region)).map
    (emission p event)
  exact hsublist.length_le

/-- What is due is part of the dispatch under way. -/
theorem length_due_le (hc : Conserved s) (h : Dispatching p s) :
    (s.due p).length ≤
      ((s.dispatches.drop s.deleted.length).flatMap (Dispatch.emissions p)).length := by
  cases hl : s.loop with
  | regions event rest cursor =>
    rw [drop_dispatches_of_current hc h (by rw [hl]; rfl), List.flatMap_singleton]
    simp only [State.due, hl]
    exact length_emissions_after_le event s.regionSet cursor
  | handling event rest region =>
    rw [drop_dispatches_of_current hc h (by rw [hl]; rfl), List.flatMap_singleton]
    simp only [State.due, hl]
    exact length_emissions_after_le event s.regionSet (some region.address)
  | idle | started | events => simp [State.due, hl]

/-- An event is deleted when all of its dispatch has been emitted. -/
theorem deleted_emitted (hc : Conserved s) (h : Dispatching p s) :
    (s.dispatches.take s.deleted.length).flatMap (Dispatch.emissions p) <+: s.emitted := by
  have hsplit : (s.dispatches.take s.deleted.length).flatMap (Dispatch.emissions p) ++
      (s.dispatches.drop s.deleted.length).flatMap (Dispatch.emissions p) =
        s.dispatches.flatMap (Dispatch.emissions p) := by
    rw [← List.flatMap_append, List.take_append_drop]
  refine List.prefix_of_prefix_length_le ⟨_, hsplit⟩ ⟨_, h.emitted⟩ ?_
  have hdue := length_due_le hc h
  have hlength := congrArg List.length (hsplit.trans h.emitted.symm)
  simp only [List.length_append] at hlength
  omega

/-- The events dispatched are at every moment a prefix of those pushed. What has been
    emitted is, dispatch by dispatch, the event once on each region registered
    for its native region and on no other; an event is deleted once, after all
    of its dispatch was emitted, and every event dispatched is deleted when the
    callback ends. -/
theorem events_dispatched_once (hr : ((system p).restrict RegistryKept).Reachable s) :
    s.dispatched <+: s.pushed ∧
    (∀ d ∈ s.dispatches, EmittedTo p d.event d.regionSet (d.emissions p)) ∧
    (s.dispatches.take s.deleted.length).flatMap (Dispatch.emissions p) <+: s.emitted ∧
    s.emitted <+: s.dispatches.flatMap (Dispatch.emissions p) ∧
    s.deleted <+: s.dispatched ∧ s.deleted.Nodup ∧
    (s.loop = .idle → s.deleted = s.dispatched) := by
  have hc := conserved_of_reachable hr.of_restrict
  have h := dispatching_of_reachable hr
  have hdeleted : s.deleted <+: s.dispatched := ⟨s.loop.current, hc.deleted⟩
  have hemitted : s.emitted <+: s.dispatches.flatMap (Dispatch.emissions p) :=
    ⟨s.due p, h.emitted⟩
  refine ⟨?_, fun d _ => d.emittedTo, ?_, hemitted, hdeleted, ?_, ?_⟩
  · exact Channel.delivered_prefix ((eventSimulation p ρ).reachable hr.of_restrict)
  · exact deleted_emitted hc h
  · exact hdeleted.sublist.nodup hc.dispatched_nodup
  · intro hl
    exact (List.append_nil _).symm.trans (hc.deleted_append (by rw [hl]; rfl))

end RegistryKept

def createdEvent : Event ℕ := ⟨0, "create", ⟨0, none, none, none⟩⟩

/-- One of two objects for the native region 0 has handled the event, and the third
    object is for another region. -/
def oneHandled : State ℕ :=
  { State.start with
    pending := true
    regionSet := (((OrderedSet.empty _).insert ⟨16, 0⟩).insert ⟨48, 0⟩).insert ⟨32, 1⟩
    loop := .regions createdEvent [] (some 16)
    held := [16]
    pushed := [createdEvent]
    dispatches := [⟨createdEvent,
      (((OrderedSet.empty _).insert ⟨16, 0⟩).insert ⟨48, 0⟩).insert ⟨32, 1⟩⟩]
    emitted := [emission nativeClient createdEvent ⟨16, 0⟩] }

theorem oneHandled_reachable :
    ((system nativeClient).restrict RegistryKept).Reachable oneHandled := by
  have h₁ := (TransitionSystem.Reachable.start rfl :
    ((system nativeClient).restrict RegistryKept).Reachable (State.start : State ℕ))
  have h₂ := h₁.guarded (.add _ ⟨16, 0⟩ trivial (by decide)) rfl
  have h₃ := h₂.guarded (.add _ ⟨48, 0⟩ trivial (by decide)) rfl
  have h₄ := h₃.guarded (.add _ ⟨32, 1⟩ trivial (by decide)) rfl
  have h₅ := h₄.guarded (.emit _ .afterCreate ⟨0, none, none, none⟩) trivial
  have h₆ := (h₅.guarded (.publishEvents _ rfl) trivial).guarded (.nextEvents _ rfl) trivial
  have h₇ := (h₆.guarded (.send _ (by decide)) trivial).guarded (.beginEvent _ _ _ rfl) trivial
  have h₈ := h₇.guarded (.visitOwn _ createdEvent [] none ⟨16, 0⟩ rfl rfl rfl) trivial
  exact h₈.guarded (.handled _ createdEvent [] ⟨16, 0⟩ rfl) trivial

theorem events_dispatched_once_oneHandled :
    oneHandled.emitted <+: oneHandled.dispatches.flatMap (Dispatch.emissions nativeClient) :=
  (events_dispatched_once oneHandled_reachable).2.2.2.1

end NodeGemfire.RegionEventRegistry
