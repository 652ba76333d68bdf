import NodeGemfire.Lib.OrderedSet
import NodeGemfire.Lib.TransitionSystem
import NodeGemfire.Conversions.FromGemfire

/-!
# Region events

Threads of the native client report entry events to a listener, which adds them
to the event stream; the event loop takes them off in `publishEvents` and emits
each one on the `Region` objects for its native region. Scripts create `Region`
objects, and the collector deletes them, between callbacks and in handlers.

## Main definitions

- `RegionEventRegistry.State` — the stream, the registry, and where the event loop is
- `RegionEventRegistry.Step` — what each thread can do next
- `RegionEventRegistry.system` — all interleavings
-/

namespace NodeGemfire.RegionEventRegistry

open JsValue (setProperty)

variable (p : Platform) {ρ : Type}

/-! ### Events and regions -/

/-- What the native client reports about an entry of the native region `region`. -/
structure EntryEvent (ρ : Type) where
  region : ρ
  key : CacheablePtr
  oldValue : CacheablePtr
  newValue : CacheablePtr

/-- The callbacks of `RegionEventListener`. -/
inductive ListenerCallback
  | afterCreate
  | afterUpdate
  | afterDestroy
  deriving DecidableEq

def ListenerCallback.eventName : ListenerCallback → String
  | .afterCreate => "create"
  | .afterUpdate => "update"
  | .afterDestroy => "destroy"

/-- The name tells which callback has reported the event. -/
theorem ListenerCallback.eventName_eq_iff (callback : ListenerCallback) :
    (callback.eventName = "create" ↔ callback = .afterCreate) ∧
      (callback.eventName = "update" ↔ callback = .afterUpdate) ∧
      (callback.eventName = "destroy" ↔ callback = .afterDestroy) := by
  cases callback <;> simp [eventName]

/-- An `EventStream::Event`. The serial number tells apart the events that are
    allocated in a run. -/
structure Event (ρ : Type) where
  serial : ℕ
  eventName : String
  entryEvent : EntryEvent ρ

def Event.region (event : Event ρ) : ρ := event.entryEvent.region

def Event.v8Object (event : Event ρ) : Isolate JsValue := do
  let key ← v8Value p event.entryEvent.key
  let oldValue ← v8Value p event.entryEvent.oldValue
  let newValue ← v8Value p event.entryEvent.newValue
  let properties := setProperty [] (.ofAscii "key") key
  let properties := setProperty properties (.ofAscii "oldValue") oldValue
  let properties := setProperty properties (.ofAscii "newValue") newValue
  pure (.object .plain properties)

/-- The payload has the key and both values, as JavaScript reads them. -/
theorem Event.v8Object_value (event : Event ρ) :
    (event.v8Object p).value = .object .plain
      [⟨.ofAscii "key", (v8Value p event.entryEvent.key).value⟩,
        ⟨.ofAscii "oldValue", (v8Value p event.entryEvent.oldValue).value⟩,
        ⟨.ofAscii "newValue", (v8Value p event.entryEvent.newValue).value⟩] := rfl

/-- A `Region` with its JavaScript object: where it is, and the native region it is for. -/
structure Region (ρ : Type) where
  address : ℕ
  regionPtr : ρ
  deriving DecidableEq

/-- The set of pointers, in the order of the addresses. -/
abbrev RegionSet (ρ : Type) := OrderedSet (Region.address : Region ρ → ℕ)

/-- A call of `emit` on the object of a region. -/
structure Emission (ρ : Type) where
  region : Region ρ
  eventName : String
  eventPayload : JsValue

def emission (event : Event ρ) (region : Region ρ) : Emission ρ :=
  ⟨region, event.eventName, (event.v8Object p).value⟩

/-! ### The state -/

/-- Where the event loop is in `publishEvents`. -/
inductive Loop (ρ : Type)
  | idle
  | started
  /-- Between two events; these are left. -/
  | events (rest : List (Event ρ))
  /-- Between two regions; the iterator has passed `cursor`. -/
  | regions (event : Event ρ) (rest : List (Event ρ)) (cursor : Option ℕ)
  /-- In the handlers of `region`. -/
  | handling (event : Event ρ) (rest : List (Event ρ)) (region : Region ρ)

/-- The events taken off the stream whose dispatch has not begun. -/
def Loop.rest : Loop ρ → List (Event ρ)
  | .events rest | .regions _ rest _ | .handling _ rest _ => rest
  | _ => []

/-- The event that is being dispatched. -/
def Loop.current : Loop ρ → List (Event ρ)
  | .regions event _ _ | .handling event _ _ => [event]
  | _ => []

/-- Scripts run between callbacks and in handlers. -/
def Loop.RunsScript : Loop ρ → Prop
  | .idle | .handling _ _ _ => True
  | _ => False

/-- The beginning of a dispatch: the event, and the regions registered then. -/
structure Dispatch (ρ : Type) where
  event : Event ρ
  regionSet : RegionSet ρ

/-- `unsent` counts the threads in `EventStream::add` that have unlocked the mutex
    and not yet called `uv_async_send`; `held` are the addresses of the objects
    with a handle in the scope of `publishEvents`; `pushed`, `dispatches`,
    `emitted` and `deleted` are the history of the run. -/
structure State (ρ : Type) where
  eventVector : List (Event ρ)
  referenced : Bool
  unsent : ℕ
  pending : Bool
  regionSet : RegionSet ρ
  loop : Loop ρ
  held : List ℕ
  pushed : List (Event ρ)
  dispatches : List (Dispatch ρ)
  emitted : List (Emission ρ)
  deleted : List (Event ρ)

def State.start : State ρ where
  eventVector := []
  referenced := false
  unsent := 0
  pending := false
  regionSet := .empty _
  loop := .idle
  held := []
  pushed := []
  dispatches := []
  emitted := []
  deleted := []

/-! ### The steps -/

inductive Label (ρ : Type)
  | emit (callback : ListenerCallback) (entryEvent : EntryEvent ρ)
  | send
  | publishEvents
  | nextEvents
  | beginEvent
  | visit
  | handled
  | deleteEvent
  | finish
  | add (region : Region ρ)
  | remove (region : Region ρ)

inductive Step : State ρ → Label ρ → State ρ → Prop
  -- `EventStream::add`: the push and `uv_ref` under the mutex, then the send
  | emit (s : State ρ) (callback : ListenerCallback) (entryEvent : EntryEvent ρ) :
    Step s (.emit callback entryEvent)
      { s with
        eventVector := s.eventVector ++ [⟨s.pushed.length, callback.eventName, entryEvent⟩]
        referenced := true
        unsent := s.unsent + 1
        pushed := s.pushed ++ [⟨s.pushed.length, callback.eventName, entryEvent⟩] }
  | send (s : State ρ) (h : 0 < s.unsent) :
    Step s .send { s with unsent := s.unsent - 1, pending := true }
  -- `publishEvents`, also with no send pending
  | publishEvents (s : State ρ) (h : s.loop = .idle) :
    Step s .publishEvents { s with loop := .started, pending := false }
  | nextEvents (s : State ρ) (h : s.loop = .started) :
    Step s .nextEvents
      { s with loop := .events s.eventVector, eventVector := [], referenced := false }
  | beginEvent (s : State ρ) (event : Event ρ) (rest : List (Event ρ))
      (h : s.loop = .events (event :: rest)) :
    Step s .beginEvent
      { s with
        loop := .regions event rest none
        dispatches := s.dispatches ++ [⟨event, s.regionSet⟩] }
  | visitOwn (s : State ρ) (event : Event ρ) (rest : List (Event ρ)) (cursor : Option ℕ)
      (region : Region ρ) (h : s.loop = .regions event rest cursor)
      (hnext : s.regionSet.next? cursor = some region) (hregion : region.regionPtr = event.region) :
    Step s .visit
      { s with
        loop := .handling event rest region
        held := region.address :: s.held
        emitted := s.emitted ++ [emission p event region] }
  | visitOther (s : State ρ) (event : Event ρ) (rest : List (Event ρ)) (cursor : Option ℕ)
      (region : Region ρ) (h : s.loop = .regions event rest cursor)
      (hnext : s.regionSet.next? cursor = some region) (hregion : region.regionPtr ≠ event.region) :
    Step s .visit
      { s with
        loop := .regions event rest (some region.address)
        held := region.address :: s.held }
  | handled (s : State ρ) (event : Event ρ) (rest : List (Event ρ)) (region : Region ρ)
      (h : s.loop = .handling event rest region) :
    Step s .handled { s with loop := .regions event rest (some region.address) }
  | deleteEvent (s : State ρ) (event : Event ρ) (rest : List (Event ρ)) (cursor : Option ℕ)
      (h : s.loop = .regions event rest cursor) (hnext : s.regionSet.next? cursor = none) :
    Step s .deleteEvent { s with loop := .events rest, deleted := s.deleted ++ [event] }
  | finish (s : State ρ) (h : s.loop = .events []) :
    Step s .finish { s with loop := .idle, held := [] }
  -- a new `Region` has an address of its own
  | add (s : State ρ) (region : Region ρ) (h : s.loop.RunsScript)
      (hnew : ∀ r ∈ s.regionSet.toList, r.address ≠ region.address) :
    Step s (.add region) { s with regionSet := s.regionSet.insert region }
  -- an object with a handle is not collected
  | remove (s : State ρ) (region : Region ρ) (h : s.loop.RunsScript)
      (hfree : region.address ∉ s.held) :
    Step s (.remove region) { s with regionSet := s.regionSet.erase region.address }

/-- All interleavings of the listener's threads and the event loop. -/
def system : TransitionSystem (State ρ) (Label ρ) where
  start s := s = .start
  step := Step p

end NodeGemfire.RegionEventRegistry
