import NodeGemfire.Functions.ResultStream

/-!
# Teardown of a function worker

`End` and `ExecuteComplete` each set a flag and delete the worker once both flags
are set. In whatever order the callbacks come, the worker is deleted once, by
the last of them, and the event loop is not in one of its callbacks afterwards.

## Main results

- `Teardown` — what the flags, the handles and the callbacks say of each other
- `teardown_safe` — the worker is deleted once, and not too early
-/

namespace NodeGemfire.ExecuteFunction

variable {p : Platform} {s s' : State} {l : Label}

/-- The condition of `teardownIfReady`. -/
def State.ready (s : State) : Bool := s.ended && s.executeCompleted

/-- The invariant of teardown: the worker has been deleted once where both flags
    are set, and each flag says which callback has run. -/
structure Teardown (s : State) : Prop where
  deleted : s.deletes = if s.ready then 1 else 0
  closed : s.closed = s.ready
  idle : s.loop ≠ .idle → s.ready = false
  completing : s.loop = .completing → s.request = .served ∧ s.executeCompleted = false
  served : s.request = .served → s.loop ≠ .completing → s.executeCompleted = true
  completed : s.executeCompleted = true → s.request = .served
  finished : s.executeCompleted = true ↔ .executeComplete ∈ s.finished
  ended : s.ended = true → .end ∈ s.finished ∨ s.exceptionPtr.isSome
  endFinished : .end ∈ s.finished → s.ended = true
  threw : s.exceptionPtr.isSome → s.request = .served → s.ended = true

theorem teardown_start : Teardown .start := by
  constructor <;> simp [State.start, State.ready]

/-- `ExecuteComplete` has not run before it is served, -/
theorem Teardown.not_completed (h : Teardown s) (hr : s.request ≠ .served) :
    s.executeCompleted = false := by
  by_contra hcompleted
  exact hr (h.completed (by simpa using hcompleted))

/-- and it is not running. -/
theorem Teardown.not_completing (h : Teardown s) (hr : s.request ≠ .served) :
    s.loop ≠ .completing := by
  intro hcompleting
  exact hr (h.completing hcompleting).1

/-- A step inside a callback other than `ExecuteComplete` changes nothing of this. -/
theorem Teardown.loop (h : Teardown s) {loop : Loop} (hbusy : s.loop ≠ .idle)
    (hloop : s.loop ≠ .completing) (hloop' : loop ≠ .completing) :
    Teardown { s with loop := loop } :=
  { h with
    idle := fun _ => h.idle hbusy
    completing := fun hc => absurd hc hloop'
    served := fun hr _ => h.served hr hloop }

/-- Nor does the beginning of such a callback. -/
theorem Teardown.begin (h : Teardown s) {loop : Loop} (hidle : s.loop = .idle)
    (hopen : s.closed = false) (hloop : loop ≠ .completing) : Teardown { s with loop := loop } :=
  { h with
    idle := fun _ => h.closed.symm.trans hopen
    completing := fun hc => absurd hc hloop
    served := fun hr _ => h.served hr (by simp [hidle]) }

theorem Teardown.executed (h : Teardown s) (hr : s.request = .executing)
    (exceptionPtr : Option GeodeException) (hex : s.exceptionPtr.isSome → exceptionPtr.isSome) :
    Teardown { s with request := .executed, exceptionPtr := exceptionPtr } := by
  have hserved : s.request ≠ .served := by simp [hr]
  exact
    { h with
      completing := fun hc => absurd hc (h.not_completing hserved)
      served := by simp
      completed := by simp [h.not_completed hserved]
      ended := fun he => (h.ended he).imp_right hex
      threw := by simp }

/-- `End` sets its flag; the worker is deleted if `ExecuteComplete` has run. -/
theorem Teardown.endFinish (h : Teardown s) (hl : s.loop = .ending) :
    Teardown
      { ({ s with ended := true } : State).teardownIfReady with
        loop := .idle
        finished := s.finished ++ [.end] } := by
  have hready : s.ready = false := h.idle (by simp [hl])
  have hdeleted : s.deletes = 0 := by simp [h.deleted, hready]
  have hcompleted := h.finished
  have hserved := fun hr => h.served hr (by simp [hl])
  by_cases hc : s.executeCompleted = true
  · constructor <;> simp_all [State.teardownIfReady, State.ready, h.completed]
  · constructor <;> simp_all [State.teardownIfReady, State.ready, h.closed]

theorem Teardown.completeStart (h : Teardown s) (hl : s.loop = .idle)
    (hr : s.request = .executed) :
    Teardown { s.reportException with loop := .completing, request := .served } := by
  have hcompleted := h.not_completed (by simp [hr])
  have hdeleted : s.deletes = 0 := by simp [h.deleted, State.ready, hcompleted]
  have hopen : s.closed = false := by simp [h.closed, State.ready, hcompleted]
  cases hex : s.exceptionPtr with
  | none =>
    have hended := h.ended
    have hend := h.endFinished
    constructor <;> simp_all [State.reportException, State.ready, h.finished.symm]
  | some exception =>
    constructor <;> simp_all [State.reportException, State.ready, h.finished.symm]

theorem Teardown.completeFinish (h : Teardown s) (hl : s.loop = .completing) :
    Teardown
      { ({ s with executeCompleted := true } : State).teardownIfReady with
        loop := .idle
        finished := s.finished ++ [.executeComplete] } := by
  obtain ⟨hserved, hcompleted⟩ := h.completing hl
  have hdeleted : s.deletes = 0 := by simp [h.deleted, State.ready, hcompleted]
  have hopen : s.closed = false := by simp [h.closed, State.ready, hcompleted]
  have hended := h.ended
  have hend := h.endFinished
  by_cases he : s.ended = true
  · constructor <;> simp_all [State.teardownIfReady, State.ready]
  · have hthrew : s.exceptionPtr.isSome ≠ true := fun hex => he (h.threw hex hserved)
    constructor <;> simp_all [State.teardownIfReady, State.ready]

theorem teardown_step (h : Teardown s) (hs : Step p s l s') : Teardown s' := by
  cases hs with
  | push | send | callEnd | lock | checkEmpty | checkNonempty | wait | wake | unlock | sendEnd =>
    exact { h with }
  | executeReturn hr => exact h.executed hr s.exceptionPtr id
  | executeThrow exception hr => exact h.executed hr (some exception) fun _ => rfl
  | data hl hopen => exact { h.begin hl hopen (by simp : Loop.dataStarted ≠ .completing) with }
  | nextResults hl =>
    exact { h.loop (by simp [hl]) (by simp [hl])
      (by simp : Loop.emitting s.resultsPtr ≠ .completing) with }
  | emit resultPtr rest hl =>
    exact { h.loop (by simp [hl]) (by simp [hl])
      (by simp : Loop.emitting rest ≠ .completing) with }
  | emitted hl => exact h.loop (by simp [hl]) (by simp [hl]) (by simp)
  | lockProcessed hl => exact h.loop (by simp [hl]) (by simp [hl]) (by simp)
  | signal hl =>
    exact { h.loop (by simp [hl]) (by simp [hl])
      (by simp : Loop.unlockingProcessed ≠ .completing) with }
  | unlockProcessed hl =>
    have h' := h.loop (by simp [hl]) (by simp [hl]) (by simp : Loop.idle ≠ .completing)
    have hended := h.ended
    have hend := h.endFinished
    exact
      { h' with
        finished := by simpa using h.finished
        ended := by simpa using hended
        endFinished := by simpa using hend }
  | endStart hl hopen =>
    exact { h.begin hl hopen (by simp : Loop.ending ≠ .completing) with }
  | endFinish hl => exact h.endFinish hl
  | completeStart hl hr => exact h.completeStart hl hr
  | completeFinish hl => exact h.completeFinish hl

theorem teardown_of_reachable (hr : (system p).Reachable s) : Teardown s :=
  hr.invariant Teardown (fun _ h => h ▸ teardown_start) fun _ _ _ _ => teardown_step

/-- Every step of the event loop is in a callback of a worker that has not been deleted. -/
theorem Teardown.not_deleted (h : Teardown s) (hs : Step p s l s') {callback : Callback}
    (hc : l.callback? = some callback) : s.deletes = 0 := by
  have hready : s.ready = false := by
    cases hs with
    | data _ hopen => exact h.closed.symm.trans hopen
    | endStart _ hopen => exact h.closed.symm.trans hopen
    | completeStart _ hr => simp [State.ready, h.not_completed (by simp [hr])]
    | nextResults hl | emit _ _ hl | emitted hl | lockProcessed hl | signal hl
    | unlockProcessed hl | endFinish hl | completeFinish hl => exact h.idle (by simp [hl])
    | _ => cases hc
  rw [h.deleted, hready]
  rfl

/-- The worker is deleted at most once, only when `ExecuteComplete` has run (so that
    `Execute` has returned) and `End` has run or an exception was recorded; none
    of its callbacks takes a step after that; and it has been deleted once
    `ExecuteComplete` is done and `Execute` threw or `End` is done. -/
theorem teardown_safe (hr : (system p).Reachable s) :
    s.deletes ≤ 1 ∧
    (0 < s.deletes → .executeComplete ∈ s.finished ∧ s.request = .served) ∧
    (0 < s.deletes → .end ∈ s.finished ∨ s.exceptionPtr.isSome) ∧
    (∀ l s' callback, l.callback? = some callback → Step p s l s' → s.deletes = 0) ∧
    (.executeComplete ∈ s.finished → s.exceptionPtr.isSome ∨ .end ∈ s.finished →
      s.deletes = 1) := by
  have h := teardown_of_reachable hr
  have hdeleted := h.deleted
  have hflags : 0 < s.deletes → s.ended = true ∧ s.executeCompleted = true := by
    intro hpos
    by_cases hready : s.ready = true
    · simpa only [State.ready, Bool.and_eq_true] using hready
    · simp [hdeleted, hready] at hpos
  refine ⟨?_, ?_, ?_, fun l s' callback hc hs => h.not_deleted hs hc, ?_⟩
  · rw [hdeleted]
    split <;> omega
  · intro hpos
    have hcompleted := (hflags hpos).2
    exact ⟨h.finished.mp hcompleted, h.completed hcompleted⟩
  · intro hpos
    exact h.ended (hflags hpos).1
  · intro hcomplete hend
    have hcompleted := h.finished.mpr hcomplete
    have hended : s.ended = true := by
      rcases hend with hex | hend
      · exact h.threw hex (h.completed hcompleted)
      · exact h.endFinished hend
    simp [hdeleted, State.ready, hended, hcompleted]

/-- `execute` threw before anything was added. -/
def failedAtOnce : State :=
  { State.start with
    closed := true
    request := .served
    exceptionPtr := some ⟨"apache::geode::client::TimeoutException", "timed out"⟩
    ended := true
    executeCompleted := true
    emitted := [exceptionEmission ⟨"apache::geode::client::TimeoutException", "timed out"⟩]
    finished := [.executeComplete]
    deletes := 1 }

theorem failedAtOnce_reachable : (system nativeClient).Reachable failedAtOnce := by
  have h₁ := (TransitionSystem.Reachable.start rfl : (system nativeClient).Reachable .start)
  have h₂ := h₁.step (.executeThrow _ ⟨"apache::geode::client::TimeoutException", "timed out"⟩
    rfl ⟨rfl, .inl rfl⟩)
  exact (h₂.step (.completeStart _ rfl rfl)).step (.completeFinish _ rfl)

theorem teardown_safe_failedAtOnce :
    0 < failedAtOnce.deletes ∧ .executeComplete ∈ failedAtOnce.finished ∧
      (.end ∈ failedAtOnce.finished ∨ failedAtOnce.exceptionPtr.isSome) := by
  obtain ⟨-, hcomplete, hend, -⟩ := teardown_safe failedAtOnce_reachable
  have hdeleted : 0 < failedAtOnce.deletes := by decide
  exact ⟨hdeleted, (hcomplete hdeleted).1, hend hdeleted⟩

end NodeGemfire.ExecuteFunction
