import NodeGemfire.Events.Dispatch
import NodeGemfire.Lib.Mailbox

/-!
# The event stream

`EventStream` statement by statement: threads of the native client in `add`, and
the event loop in `nextEvents`, take turns under one mutex, and the send comes
after the mutex is released. Whether the handle keeps the process alive is a
flag, and the sends are coalesced. In `Events.RegionEventRegistry` what is done
under the mutex is one step; `stream_reachable` says that these steps are runs
of the statements here.

## Main definitions

- `EventStream.State` — the stream, and where its threads are
- `EventStream.Step` — the statements of `add` and `nextEvents`

## Main results

- `events_keep_alive` — events on the stream keep the process alive, and are taken off
- `stream_reachable` — the stream of the registry is one of these
-/

namespace NodeGemfire.EventStream

variable {ε : Type}

/-! ### The state -/

/-- Where the thread is that holds the mutex: before which statement of `add` or of
    `nextEvents`. -/
inductive Holder (ε : Type)
  | pushing (event : ε)
  | referencing
  | unlocking
  | copying
  | clearing (returnValue : List ε)
  | unreferencing (returnValue : List ε)
  | returning (returnValue : List ε)

/-- Where the event loop is: outside of the callback, before the lock of `nextEvents`,
    under this lock, or after it in the callback. -/
inductive Loop
  | idle
  | started
  | nextEvents
  | publishing
  deriving DecidableEq

/-- `mutex` is `none` where no thread holds it; `unsent` counts the threads in `add`
    that have unlocked it and not yet called `uv_async_send`; `taken` are the events
    that `nextEvents` has returned. -/
structure State (ε : Type) where
  eventVector : List ε
  referenced : Bool
  pending : Bool
  mutex : Option (Holder ε)
  unsent : ℕ
  loop : Loop
  taken : List ε

/-- The stream when it has been constructed. -/
def State.start : State ε where
  eventVector := []
  referenced := false
  pending := false
  mutex := none
  unsent := 0
  loop := .idle
  taken := []

/-! ### The steps -/

inductive Label (ε : Type)
  | add (event : ε)
  | push
  | ref
  | unlockAdd
  | send
  | callback
  | nextEvents
  | copy
  | clear
  | unref
  | unlockNextEvents
  | finish

inductive Step : State ε → Label ε → State ε → Prop
  -- `EventStream::add`, in any thread
  | add (s : State ε) (event : ε) (hfree : s.mutex = none) :
    Step s (.add event) { s with mutex := some (.pushing event) }
  | push (s : State ε) (event : ε) (h : s.mutex = some (.pushing event)) :
    Step s .push
      { s with eventVector := s.eventVector ++ [event], mutex := some .referencing }
  | ref (s : State ε) (h : s.mutex = some .referencing) :
    Step s .ref { s with referenced := true, mutex := some .unlocking }
  | unlockAdd (s : State ε) (h : s.mutex = some .unlocking) :
    Step s .unlockAdd { s with mutex := none, unsent := s.unsent + 1 }
  | send (s : State ε) (h : 0 < s.unsent) :
    Step s .send { s with unsent := s.unsent - 1, pending := true }
  -- the callback of the handle, also with no send pending
  | callback (s : State ε) (h : s.loop = .idle) :
    Step s .callback { s with loop := .started, pending := false }
  -- `EventStream::nextEvents`
  | nextEvents (s : State ε) (h : s.loop = .started) (hfree : s.mutex = none) :
    Step s .nextEvents { s with loop := .nextEvents, mutex := some .copying }
  | copy (s : State ε) (h : s.mutex = some .copying) :
    Step s .copy { s with mutex := some (.clearing s.eventVector) }
  | clear (s : State ε) (returnValue : List ε) (h : s.mutex = some (.clearing returnValue)) :
    Step s .clear { s with eventVector := [], mutex := some (.unreferencing returnValue) }
  | unref (s : State ε) (returnValue : List ε) (h : s.mutex = some (.unreferencing returnValue)) :
    Step s .unref { s with referenced := false, mutex := some (.returning returnValue) }
  | unlockNextEvents (s : State ε) (returnValue : List ε)
      (h : s.mutex = some (.returning returnValue)) :
    Step s .unlockNextEvents
      { s with loop := .publishing, mutex := none, taken := s.taken ++ returnValue }
  | finish (s : State ε) (h : s.loop = .publishing) : Step s .finish { s with loop := .idle }

/-- All interleavings of the threads that add events and the event loop. -/
def system (ε : Type) : TransitionSystem (State ε) (Label ε) where
  start s := s = .start
  step := Step

variable {s s' : State ε} {l : Label ε}

/-! ### What holds under the mutex -/

/-- The handle is referenced exactly where there are events. -/
def State.Tracked (s : State ε) : Prop := s.referenced = true ↔ s.eventVector ≠ []

/-- What the thread that holds the mutex has done so far, and where the event loop is
    if it is this thread. -/
def Guarded (s : State ε) : Prop :=
  match s.mutex with
  | none | some (.pushing _) => s.Tracked
  | some .referencing => s.eventVector ≠ []
  | some .unlocking => s.eventVector ≠ [] ∧ s.referenced = true
  | some .copying | some (.clearing _) => s.Tracked ∧ s.loop = .nextEvents
  | some (.unreferencing _) => s.eventVector = [] ∧ s.loop = .nextEvents
  | some (.returning _) => s.eventVector = [] ∧ s.referenced = false ∧ s.loop = .nextEvents

theorem guarded_start : Guarded (.start : State ε) := by
  simp [Guarded, State.Tracked, State.start]

/-- Outside of `nextEvents` the event loop does not hold the mutex. -/
theorem Guarded.outside (h : Guarded s) (hl : s.loop ≠ .nextEvents) (loop : Loop)
    (pending : Bool) : Guarded { s with loop := loop, pending := pending } := by
  rw [Guarded] at h ⊢
  cases hm : s.mutex with
  | none =>
    rw [hm] at h
    exact h
  | some holder =>
    rw [hm] at h
    cases holder with
    | pushing | referencing | unlocking => exact h
    | copying | clearing => exact absurd h.2 hl
    | unreferencing => exact absurd h.2 hl
    | returning => exact absurd h.2.2 hl

theorem guarded_step (h : Guarded s) (hs : Step s l s') : Guarded s' := by
  cases hs with
  | add event hfree =>
    rw [Guarded, hfree] at h
    exact h
  | push event hm => simp [Guarded]
  | ref hm =>
    rw [Guarded, hm] at h
    exact ⟨h, rfl⟩
  | unlockAdd hm =>
    rw [Guarded, hm] at h
    exact iff_of_true h.2 h.1
  | send => exact h
  | callback hl => exact h.outside (by simp [hl]) _ _
  | nextEvents hl hfree =>
    rw [Guarded, hfree] at h
    exact ⟨h, rfl⟩
  | copy hm =>
    rw [Guarded, hm] at h
    exact h
  | clear returnValue hm =>
    rw [Guarded, hm] at h
    exact ⟨rfl, h.2⟩
  | unref returnValue hm =>
    rw [Guarded, hm] at h
    exact ⟨h.1, rfl, h.2⟩
  | unlockNextEvents returnValue hm =>
    rw [Guarded, hm] at h
    exact iff_of_false (by simp [h.2.1]) (not_not.mpr h.1)
  | finish hl => exact h.outside (by simp [hl]) _ s.pending

theorem guarded_of_reachable (hr : (system ε).Reachable s) : Guarded s :=
  hr.invariant Guarded (fun _ h => h ▸ guarded_start) fun _ _ _ _ => guarded_step

/-! ### The events on the stream -/

/-- The threads in `add` that have pushed an event and not yet sent. -/
def State.owed (s : State ε) : ℕ :=
  s.unsent + match s.mutex with
    | some .referencing | some .unlocking => 1
    | _ => 0

/-- The event loop is on the way to take the events. -/
def State.looking (s : State ε) : Bool :=
  s.loop = .started || match s.mutex with
    | some .copying | some (.clearing _) => true
    | _ => false

def State.mailbox (s : State ε) : Mailbox ε := ⟨s.eventVector, s.owed, s.pending, s.looking⟩

/-- Where the event loop is idle, it does not hold the mutex. -/
theorem Guarded.not_looking (h : Guarded s) (hl : s.loop = .idle) : s.looking = false := by
  rw [Guarded] at h
  cases hm : s.mutex with
  | none => simp [State.looking, hm, hl]
  | some holder =>
    rw [hm] at h
    cases holder with
    | copying | clearing => simp [hl] at h
    | _ => simp [State.looking, hm, hl]

/-- After the events are taken the callback has called `nextEvents`. -/
theorem Guarded.not_started (h : Guarded s) {returnValue : List ε}
    (hm : s.mutex = some (.clearing returnValue) ∨ s.mutex = some (.returning returnValue)) :
    s.loop ≠ .started := by
  rw [Guarded] at h
  rcases hm with hm | hm <;> simp only [hm] at h <;> simp [h]

/-- The events and the wake-ups of the event loop. -/
def mailboxSimulation (ε : Type) : Simulation (system ε) (Mailbox.system ε) where
  abs := State.mailbox
  start s h := by
    subst h
    rfl
  step s l s' hr hs := by
    have h := guarded_of_reachable hr
    cases hs with
    | push event hm =>
      have hput : (Mailbox.system ε).step s.mailbox (.put event) _ := .put _ event
      exact .inr ⟨_, by simpa [State.mailbox, State.owed, State.looking, hm] using hput⟩
    | send hunsent =>
      have hring : (Mailbox.system ε).step s.mailbox .ring _ :=
        .ring _ (Nat.add_pos_left hunsent _)
      have howed (n : ℕ) : s.unsent + n - 1 = s.unsent - 1 + n := Nat.sub_add_comm hunsent
      exact .inr ⟨_, by simpa [State.mailbox, State.owed, State.looking, howed] using hring⟩
    | callback hl =>
      have hanswer : (Mailbox.system ε).step s.mailbox .answer _ := .answer _ (h.not_looking hl)
      exact .inr ⟨_, by simpa [State.mailbox, State.owed, State.looking] using hanswer⟩
    | clear returnValue hm =>
      have hl := h.not_started (.inl hm)
      have htake : (Mailbox.system ε).step s.mailbox .take _ :=
        .take _ (by simp [State.mailbox, State.looking, hm])
      exact .inr ⟨_, by simpa [State.mailbox, State.owed, State.looking, hm, hl] using htake⟩
    | unlockNextEvents returnValue hm =>
      have hl := h.not_started (.inr hm)
      left
      simp [State.mailbox, State.owed, State.looking, hm, hl]
    | nextEvents hl hfree =>
      left
      simp [State.mailbox, State.owed, State.looking, hl, hfree]
    | finish hl =>
      left
      simp [State.mailbox, State.owed, State.looking, hl]
    | add _ hm | ref hm | unlockAdd hm | copy hm | unref _ hm =>
      left
      simp [State.mailbox, State.owed, State.looking, hm]

/-! ### Uninterrupted calls -/

/-- The whole of `add` up to the send. -/
theorem reachable_add (hr : (system ε).Reachable s) (hfree : s.mutex = none) (event : ε) :
    (system ε).Reachable { s with
      eventVector := s.eventVector ++ [event]
      referenced := true
      mutex := none
      unsent := s.unsent + 1 } := by
  have hpush := (hr.step (.add s event hfree)).step (.push _ event rfl)
  exact (hpush.step (.ref _ rfl)).step (.unlockAdd _ rfl)

/-- The whole of `nextEvents`. -/
theorem reachable_nextEvents (hr : (system ε).Reachable s) (hl : s.loop = .started)
    (hfree : s.mutex = none) :
    (system ε).Reachable { s with
      eventVector := []
      referenced := false
      mutex := none
      loop := .publishing
      taken := s.taken ++ s.eventVector } := by
  have hcopy := (hr.step (.nextEvents s hl hfree)).step (.copy _ rfl)
  have hunref := (hcopy.step (.clear _ _ rfl)).step (.unref _ _ rfl)
  exact hunref.step (.unlockNextEvents _ _ rfl)

/-- An event was taken off before its send, and another one added while the first was
    published. -/
def overtaken : State ℕ where
  eventVector := [1]
  referenced := true
  pending := false
  mutex := none
  unsent := 2
  loop := .publishing
  taken := [0]

theorem overtaken_reachable : (system ℕ).Reachable overtaken := by
  have hfirst := reachable_add (.start rfl) rfl 0
  have hpublish := reachable_nextEvents (hfirst.step (.callback _ rfl)) rfl rfl
  exact reachable_add hpublish rfl 1

/-! ### Keeping the process alive -/

/-- **Events keep the process alive and are not stranded.** Where no thread holds the
    mutex, the handle is referenced exactly where there are events; and where there are
    events, a send is pending, a thread in `add` is still to send, or the callback has
    started and not yet called `nextEvents`. -/
theorem events_keep_alive (hr : (system ε).Reachable s) (hfree : s.mutex = none) :
    (s.referenced = true ↔ s.eventVector ≠ []) ∧
      (s.eventVector ≠ [] → s.pending = true ∨ 0 < s.unsent ∨ s.loop = .started) := by
  have htracked := guarded_of_reachable hr
  have hattended : s.mailbox.Attended :=
    Mailbox.attended_of_reachable ((mailboxSimulation ε).reachable hr)
  rw [Guarded, hfree] at htracked
  refine ⟨htracked, fun hevents => ?_⟩
  simpa [State.mailbox, State.owed, State.looking, hfree] using hattended hevents

theorem events_keep_alive_overtaken :
    overtaken.referenced = true ∧
      (overtaken.pending = true ∨ 0 < overtaken.unsent ∨ overtaken.loop = .started) := by
  have h := events_keep_alive overtaken_reachable rfl
  exact ⟨h.1.mpr (by decide), h.2 (by decide)⟩

end NodeGemfire.EventStream

/-! ### The stream of the registry -/

namespace NodeGemfire.RegionEventRegistry

variable {p : Platform} {ρ : Type} {s s' : State ρ} {l : Label ρ}

def Loop.stream : Loop ρ → EventStream.Loop
  | .idle => .idle
  | .started => .started
  | _ => .publishing

def State.stream (s : State ρ) : EventStream.State (Event ρ) where
  eventVector := s.eventVector
  referenced := s.referenced
  pending := s.pending
  mutex := none
  unsent := s.unsent
  loop := s.loop.stream
  taken := s.dispatched ++ s.loop.rest

theorem stream_step (hr : (EventStream.system (Event ρ)).Reachable s.stream)
    (hs : Step p s l s') : (EventStream.system (Event ρ)).Reachable s'.stream := by
  cases hs with
  | emit callback entryEvent =>
    exact EventStream.reachable_add hr rfl ⟨s.pushed.length, callback.eventName, entryEvent⟩
  | send h => exact hr.step (.send _ h)
  | publishEvents hl =>
    have hidle : s.stream.loop = .idle := by simp [State.stream, hl, Loop.stream]
    have hstep := hr.step (.callback _ hidle)
    simpa [State.stream, State.dispatched, hl, Loop.stream, Loop.rest] using hstep
  | nextEvents hl =>
    have hstarted : s.stream.loop = .started := by simp [State.stream, hl, Loop.stream]
    have hstep := EventStream.reachable_nextEvents hr hstarted rfl
    simpa [State.stream, State.dispatched, hl, Loop.stream, Loop.rest] using hstep
  | finish hl =>
    have hpublishing : s.stream.loop = .publishing := by simp [State.stream, hl, Loop.stream]
    have hstep := hr.step (.finish _ hpublishing)
    simpa [State.stream, State.dispatched, hl, Loop.stream, Loop.rest] using hstep
  | beginEvent event rest hl | visitOwn event rest cursor region hl
  | visitOther event rest cursor region hl | handled event rest region hl
  | deleteEvent event rest cursor hl =>
    simpa [State.stream, State.dispatched, hl, Loop.stream, Loop.rest] using hr
  | add | remove => exact hr

/-- **Refinement**: the stream of the registry does what the statements do. -/
theorem stream_reachable (hr : (system p).Reachable s) :
    (EventStream.system (Event ρ)).Reachable s.stream := by
  induction hr with
  | start h =>
    subst h
    exact .start rfl
  | step _ hs ih => exact stream_step ih hs

end NodeGemfire.RegionEventRegistry
