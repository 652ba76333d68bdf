import NodeGemfire.Functions.Delivery
import NodeGemfire.Functions.Waiting

/-!
# Progress of a function execution

What is under way is finished: the sends that are owed, the wait for the results,
and the callbacks for which a send or the work request is pending. When nothing of
this is left, no thread is in the collector and everything pushed is delivered, and
after `execute` the worker has been deleted. It is left behind only where `execute`
returned without an exception and never called `endResults`.

## Main definitions

- `Works` — the steps that finish what is under way
- `State.left` — how much there is left to do

## Main results

- `execution_settles` — they come to an end, and what then holds
-/

namespace NodeGemfire.ExecuteFunction

variable {p : Platform} {s s' : State} {l : Label}

/-- Not what `execute` chooses to do next, and neither a wake-up without a signal nor
    a `Data` that nobody has sent for. -/
def Works (s : State) : Label → Prop
  | .push _ | .callEnd | .wake | .executeReturn | .executeThrow _ => False
  | .data => s.resultsPending = true
  | _ => True

/-! ### What is left to do -/

/-- The steps of `ResultStream::end`, counted from behind. A signal takes it back from
    the wait to the lock. -/
def EndCall.left : EndCall → ℕ
  | .notCalled | .returned => 0
  | .locking => 10
  | .checking => 9
  | .toWait => 8
  | .waiting => 7
  | .unlocking => 6
  | .sending => 5

def Loop.left : Loop → ℕ
  | .idle => 0
  | .ending | .completing | .unlockingProcessed => 1
  | .signalling => 5
  | .lockingProcessed => 6
  | .emitting resultsPtr => 7 + resultsPtr.length
  | .dataStarted => 8

def WorkRequest.left : WorkRequest → ℕ
  | .executed => 2
  | .executing | .served => 0

namespace State

def left (s : State) : ℕ :=
  10 * s.unsent + (if s.resultsPending then 9 else 0) + s.resultsPtr.length +
    (if s.endPending then 2 else 0) + s.endCall.left + s.loop.left + s.request.left

end State

theorem signalled_left_le (endCall : EndCall) : endCall.signalled.left ≤ endCall.left + 3 := by
  cases endCall <;> simp [EndCall.signalled, EndCall.left]

/-- Every step that works leaves less to do. -/
theorem left_lt (hl : Works s l) (hs : Step p s l s') : s'.left < s.left := by
  cases hs with
  | push | callEnd | wake | executeReturn | executeThrow => exact hl.elim
  | send h =>
    simp only [State.left]
    split <;> omega
  | lock h | checkEmpty h | checkNonempty h | wait h | unlock h =>
    simp [State.left, h, EndCall.left]
  | sendEnd h =>
    simp only [State.left, h, EndCall.left, if_true]
    split <;> omega
  | data h =>
    have hpending : s.resultsPending = true := hl
    simp [State.left, h, hpending, Loop.left]
    omega
  | nextResults h =>
    simp only [State.left, h, Loop.left, List.length_nil]
    omega
  | emit resultPtr rest h =>
    simp [State.left, h, Loop.left]
  | emitted h | lockProcessed h | unlockProcessed h =>
    simp [State.left, h, Loop.left]
  | signal h =>
    have hsignalled := signalled_left_le s.endCall
    simp only [State.left, h, Loop.left]
    omega
  | endStart h hopen hpending =>
    simp [State.left, h, hpending, Loop.left]
    omega
  | endFinish h | completeFinish h =>
    simp [State.left, h, Loop.left]
  | completeStart h hr =>
    simp [State.left, h, hr, Loop.left, WorkRequest.left]

/-! ### The end is announced -/

/-- `end` has returned just when `End` is to run, runs, or has run. -/
def Announced (s : State) : Prop :=
  s.endCall = .returned ↔ s.endPending = true ∨ s.loop = .ending ∨ .end ∈ s.finished

/-- The thread in `end` moves on. -/
theorem Announced.move (h : Announced s) {endCall : EndCall} (hcall : s.endCall ≠ .returned)
    (hcall' : endCall ≠ .returned) : Announced { s with endCall := endCall } :=
  iff_of_false hcall' (mt h.mpr hcall)

/-- The event loop moves on, in a callback other than `End`. -/
theorem Announced.loop (h : Announced s) {loop : Loop} (hl : s.loop ≠ .ending)
    (hl' : loop ≠ .ending) : Announced { s with loop := loop } := by
  refine Iff.trans h ?_
  simp [hl, hl']

theorem announced_step (h : Announced s) (hs : Step p s l s') : Announced s' := by
  cases hs with
  | push | send | executeReturn | executeThrow => exact h
  | callEnd _ hcall | lock hcall | checkEmpty hcall | checkNonempty hcall | wait hcall
  | wake hcall | unlock hcall =>
    exact h.move (by simp [hcall]) (by simp)
  | sendEnd hcall => exact iff_of_true rfl (.inl rfl)
  | data hl => exact h.loop (by simp [hl]) (by simp)
  | nextResults hl => exact h.loop (by simp [hl]) (by simp)
  | emit resultPtr rest hl => exact h.loop (by simp [hl]) (by simp)
  | emitted hl => exact h.loop (by simp [hl]) (by simp)
  | lockProcessed hl => exact h.loop (by simp [hl]) (by simp)
  | signal hl =>
    have h' := h.loop (by simp [hl]) (by simp : Loop.unlockingProcessed ≠ .ending)
    have hsignalled : s.endCall.signalled = .returned ↔ s.endCall = .returned := by
      cases s.endCall <;> simp [EndCall.signalled]
    exact hsignalled.trans h'
  | unlockProcessed hl =>
    have h' := h.loop (by simp [hl]) (by simp : Loop.idle ≠ .ending)
    refine Iff.trans h' ?_
    simp
  | endStart hl hopen hpending =>
    have hreturned : s.endCall = .returned := h.mpr (.inl hpending)
    exact iff_of_true hreturned (.inr (.inl rfl))
  | endFinish hl =>
    have hreturned : s.endCall = .returned := h.mpr (.inr (.inl hl))
    rw [State.teardownIfReady_eq]
    exact iff_of_true hreturned (.inr (.inr (by simp)))
  | completeStart hl =>
    rw [State.reportException_eq]
    exact h.loop (by simp [hl]) (by simp)
  | completeFinish hl =>
    have h' := h.loop (by simp [hl]) (by simp : Loop.idle ≠ .ending)
    rw [State.teardownIfReady_eq]
    refine Iff.trans h' ?_
    simp

theorem announced_of_reachable (hr : (system p).Reachable s) : Announced s := by
  refine hr.invariant Announced (fun s h => ?_) fun _ _ _ _ => announced_step
  subst h
  simp [Announced, State.start]

/-! ### When nothing is left to do -/

/-- The steps with which the event loop enters a callback. -/
def Label.enters : Label → Bool
  | .data | .endStart | .completeStart => true
  | _ => false

/-- Nothing can go on, unless the event loop enters a callback. -/
def Stuck (p : Platform) (s : State) : Prop :=
  ∀ l s', Works s l → l.enters = false → ¬Step p s l s'

theorem Stuck.of_atRest (h : (system p).AtRest Works s) : Stuck p s :=
  fun l s' hl _ => h l s' hl

theorem Stuck.holdsMutex (h : Stuck p s) : s.endCall.holdsMutex = false := by
  cases hcall : s.endCall with
  | checking =>
    by_cases hsize : s.resultsPtr = []
    · exact absurd (.checkEmpty s hcall hsize) (h .check _ trivial rfl)
    · exact absurd (.checkNonempty s hcall hsize) (h .check _ trivial rfl)
  | toWait => exact absurd (.wait s hcall) (h .wait _ trivial rfl)
  | unlocking => exact absurd (.unlock s hcall) (h .unlock _ trivial rfl)
  | notCalled | locking | waiting | sending | returned => rfl

/-- Then it is in no callback: none of them waits for ever. -/
theorem Stuck.idle (h : Stuck p s) : s.loop = .idle := by
  cases hl : s.loop with
  | idle => rfl
  | dataStarted => exact absurd (.nextResults s hl) (h .nextResults _ trivial rfl)
  | emitting resultsPtr =>
    cases resultsPtr with
    | nil => exact absurd (.emitted s hl) (h .emitted _ trivial rfl)
    | cons resultPtr rest => exact absurd (.emit s resultPtr rest hl) (h .emit _ trivial rfl)
  | lockingProcessed =>
    exact absurd (.lockProcessed s hl h.holdsMutex) (h .lockProcessed _ trivial rfl)
  | signalling => exact absurd (.signal s hl) (h .signal _ trivial rfl)
  | unlockingProcessed => exact absurd (.unlockProcessed s hl) (h .unlockProcessed _ trivial rfl)
  | ending => exact absurd (.endFinish s hl) (h .endFinish _ trivial rfl)
  | completing => exact absurd (.completeFinish s hl) (h .completeFinish _ trivial rfl)

section AtRest

variable (h : (system p).AtRest Works s)
include h

theorem unsent_of_atRest : s.unsent = 0 := by
  by_contra hunsent
  exact h .send _ trivial (.send s (Nat.pos_of_ne_zero hunsent))

theorem not_pending_of_atRest (hopen : s.closed = false) :
    s.resultsPending = false ∧ s.endPending = false := by
  have hl := (Stuck.of_atRest h).idle
  constructor
  · by_contra hpending
    exact h .data _ (by simpa [Works] using hpending) (.data s hl hopen)
  · by_contra hpending
    exact h .endStart _ trivial (.endStart s hl hopen (by simpa using hpending))

/-- While the handles are open, nothing is left in the buffer. -/
theorem resultsPtr_of_atRest (hr : (system p).Reachable s) (hopen : s.closed = false) :
    s.resultsPtr = [] := by
  by_contra hitems
  have hattended := Mailbox.attended_of_reachable ((mailboxSimulation p).reachable hr) hitems
  simp [mailboxSimulation, State.mailbox, (not_pending_of_atRest h hopen).1, unsent_of_atRest h,
    (Stuck.of_atRest h).idle, Loop.looking] at hattended

/-- No thread waits, since there is nothing to wait for. -/
theorem outsideCollector_of_atRest (hr : (system p).Reachable s) : s.OutsideCollector := by
  have hl := (Stuck.of_atRest h).idle
  refine ⟨unsent_of_atRest h, ?_⟩
  cases hcall : s.endCall with
  | notCalled => exact .inl rfl
  | returned => exact .inr rfl
  | locking => exact absurd (.lock s hcall (by simp [hl, Loop.holdsMutex])) (h .lock _ trivial)
  | sending => exact absurd (.sendEnd s hcall) (h .sendEnd _ trivial)
  | checking | toWait | unlocking =>
    have hfree := (Stuck.of_atRest h).holdsMutex
    simp [hcall, EndCall.holdsMutex] at hfree
  | waiting =>
    have hwaiting := waiting_of_reachable hr
    have hteardown := teardown_of_reachable hr
    have hexecuting : s.request = .executing :=
      hwaiting.executing (by simp [hcall]) (by simp [hcall])
    have hopen : s.closed = false := by
      rw [hteardown.closed, State.ready, hteardown.not_completed (by simp [hexecuting]),
        Bool.and_false]
    have hbefore := hwaiting.signalled (.inr hcall) (resultsPtr_of_atRest h hr hopen)
    simp [hl, Loop.beforeSignal] at hbefore

theorem deletes_of_atRest (hr : (system p).Reachable s) (hserved : s.request = .served) :
    s.deletes = 1 ↔ s.endCall = .returned ∨ s.exceptionPtr.isSome := by
  have hteardown := teardown_of_reachable hr
  have hl := (Stuck.of_atRest h).idle
  have hcompleted : s.executeCompleted = true := hteardown.served hserved (by simp [hl])
  have hdeletes : s.deletes = 1 ↔ s.ended = true := by
    rw [hteardown.deleted, State.ready, hcompleted, Bool.and_true]
    cases s.ended <;> simp
  rw [hdeletes]
  constructor
  · intro hended
    exact (hteardown.ended hended).imp_left fun hend =>
      (announced_of_reachable hr).mpr (.inr (.inr hend))
  · rintro (hreturned | hthrew)
    · by_contra hnot
      have hopen : s.closed = false := by
        rw [hteardown.closed, State.ready, Bool.eq_false_of_not_eq_true hnot, Bool.false_and]
      rcases (announced_of_reachable hr).mp hreturned with hpending | hending | hend
      · simp [(not_pending_of_atRest h hopen).2] at hpending
      · simp [hl] at hending
      · exact hnot (hteardown.endFinished hend)
    · exact hteardown.threw hthrew hserved

end AtRest

/-- Nothing is left to do for an execution: no thread is in the collector, so that
    `execute` can go on or is over; unless the worker has been deleted, everything pushed
    is delivered, each result under its event; and after `execute` the worker has been
    deleted, once, if `endResults` was called or `execute` threw, and is left behind
    otherwise. -/
structure Finished (p : Platform) (s : State) : Prop where
  outside : s.OutsideCollector
  served : s.request ≠ .executed
  delivered : s.deletes = 0 → s.delivered = s.pushed
  handedOver : s.deletes = 0 →
    s.emitted.filter (·.resultPtr?.isSome) = s.pushed.map (handedOver p)
  deleted : s.request = .served → (s.deletes = 1 ↔ s.endCall = .returned ∨ s.exceptionPtr.isSome)

theorem delivered_of_atRest (hr : (system p).Reachable s) (h : (system p).AtRest Works s)
    (hdeletes : s.deletes = 0) : s.delivered = s.pushed := by
  have hteardown := teardown_of_reachable hr
  have hopen : s.closed = false := by
    rw [hteardown.closed]
    by_contra hready
    simp [hteardown.deleted, hready] at hdeletes
  have hbatch : s.loop.batch = [] := by
    rw [(Stuck.of_atRest h).idle]
    rfl
  rw [← ((conserved_of_reachable hr).staged hbatch).append_buffer,
    resultsPtr_of_atRest h hr hopen, List.append_nil]

theorem finished_of_atRest (hr : (system p).Reachable s) (h : (system p).AtRest Works s) :
    Finished p s where
  outside := outsideCollector_of_atRest h hr
  served hexecuted :=
    h .completeStart _ trivial (.completeStart s (Stuck.of_atRest h).idle hexecuted)
  delivered := delivered_of_atRest hr h
  handedOver hdeletes := by
    rw [filter_isSome_eq_map (faithful_of_reachable hr), ← delivered_of_atRest hr h hdeletes]
    rfl
  deleted := deletes_of_atRest h hr

/-- **Progress**: from every reachable state, what is under way comes to an end, and then
    the execution is finished, as far as `execute` itself does not go on. -/
theorem execution_settles (hr : (system p).Reachable s) :
    (system p).Settles Works s ∧ ((system p).AtRest Works s → Finished p s) :=
  ⟨TransitionSystem.settles_of_lt State.left (fun _ _ _ hl hs => left_lt hl hs) s,
    finished_of_atRest hr⟩

/-- Two results were added and taken by `Data`, and both sends are due. -/
def resultsTaken : State :=
  { State.start with
    unsent := 2
    loop := .emitting partialResults
    pushed := partialResults }

theorem resultsTaken_reachable : (system nativeClient).Reachable resultsTaken := by
  have h₁ := (TransitionSystem.Reachable.start rfl : (system nativeClient).Reachable .start)
  have h₂ := (h₁.step (.push _ (some (.boolean true)) rfl)).step
    (.push _ (some (.userFunctionExecutionException "failed")) rfl)
  exact (h₂.step (.data _ rfl rfl)).step (.nextResults _ rfl)

/-- The two results were emitted, and `execute` has returned without `endResults`. -/
def neverEnded : State :=
  { State.start with
    request := .served
    executeCompleted := true
    pushed := partialResults
    emitted := partialResults.map (resultEmission nativeClient)
    finished := [.data, .data, .executeComplete] }

theorem neverEnded_reachable : (system nativeClient).Reachable neverEnded := by
  have h₁ := (resultsTaken_reachable.step (.emit _ _ _ rfl)).step (.emit _ _ [] rfl)
  have h₂ := (h₁.step (.emitted _ rfl)).step (.lockProcessed _ rfl rfl)
  have h₃ := (h₂.step (.signal _ rfl)).step (.unlockProcessed _ rfl)
  have h₄ := (h₃.step (.send _ (by decide))).step (.send _ (by decide))
  -- the second callback finds the buffer empty
  have h₅ := ((h₄.step (.data _ rfl rfl)).step (.nextResults _ rfl)).step (.emitted _ rfl)
  have h₆ := ((h₅.step (.lockProcessed _ rfl rfl)).step (.signal _ rfl)).step
    (.unlockProcessed _ rfl)
  have h₇ := h₆.step (.executeReturn _ rfl ⟨rfl, .inl rfl⟩)
  exact (h₇.step (.completeStart _ rfl rfl)).step (.completeFinish _ rfl)

theorem neverEnded_atRest : (system nativeClient).AtRest Works neverEnded := by
  intro l s' hworks hs
  cases hs with
  | data => exact Bool.noConfusion hworks
  | push | callEnd | wake | executeReturn | executeThrow => exact hworks
  | send h => exact absurd h (by decide)
  | lock h | checkEmpty h | checkNonempty h | wait h | unlock h | sendEnd h | nextResults h
  | emit _ _ h | emitted h | lockProcessed h | signal h | unlockProcessed h | endFinish h
  | completeFinish h => cases h
  | endStart _ _ h | completeStart _ h => cases h

theorem execution_settles_resultsTaken :
    (system nativeClient).Settles Works resultsTaken ∧ Finished nativeClient neverEnded :=
  ⟨(execution_settles resultsTaken_reachable).1,
    (execution_settles neverEnded_reachable).2 neverEnded_atRest⟩

end NodeGemfire.ExecuteFunction
