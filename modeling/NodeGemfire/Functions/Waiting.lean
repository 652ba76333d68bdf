import NodeGemfire.Functions.Teardown
import NodeGemfire.Lib.Mailbox

/-!
# The wait for the results

`ResultStream::end` waits until `Data` has taken all results. The results are
guarded by one mutex and the condition is signalled under another, so that the
signal may come before the check, between the check and the wait, or after. A
thread that waits is signalled nevertheless: while there are results, somebody
is to send or to take them, and once they are taken the signal is still to come.

## Main results

- `mailboxSimulation` — the results are the items of a mailbox
- `end_not_stranded` — what is left to happen while `end` waits
-/

namespace NodeGemfire.ExecuteFunction

variable {p : Platform} {s s' : State} {l : Label}

/-! ### The results in the buffer -/

/-- `Data` has started and not yet taken the results. -/
def Loop.looking : Loop → Bool
  | .dataStarted => true
  | _ => false

def State.mailbox (s : State) : Mailbox CacheablePtr :=
  ⟨s.resultsPtr, s.unsent, s.resultsPending, s.loop.looking⟩

/-- The buffer and its wake-ups. -/
def mailboxSimulation (p : Platform) : Simulation (system p) (Mailbox.system CacheablePtr) where
  abs := State.mailbox
  start s h := by
    subst h
    rfl
  step s l s' _ hs := by
    cases hs with
    | push resultPtr => exact .inr ⟨_, .put _ resultPtr⟩
    | send h => exact .inr ⟨_, .ring _ h⟩
    | data hl => exact .inr ⟨_, .answer s.mailbox (by simp [State.mailbox, hl, Loop.looking])⟩
    | nextResults hl =>
      exact .inr ⟨_, .take s.mailbox (by simp [State.mailbox, hl, Loop.looking])⟩
    | emit _ _ hl | emitted hl | lockProcessed hl | signal hl | unlockProcessed hl
    | endStart hl | endFinish hl | completeStart hl | completeFinish hl =>
      left
      simp [State.mailbox, hl, Loop.looking]
    | _ => exact .inl rfl

/-! ### The thread that waits -/

/-- `Data` is running and has not yet signalled. -/
def Loop.beforeSignal : Loop → Bool
  | .dataStarted | .emitting _ | .lockingProcessed | .signalling => true
  | _ => false

theorem beforeSignal_of_looking {loop : Loop} (h : loop.looking = true) :
    loop.beforeSignal = true := by
  cases loop <;> first | rfl | cases h

/-- The invariant of the wait. One thread at a time holds `resultsProcessedMutex`; and
    a thread that is to wait or waits has results to wait for, or a signal is to come. -/
structure Waiting (s : State) : Prop where
  exclusive : s.endCall.holdsMutex = true → s.loop.holdsMutex = false
  signalled : s.endCall = .toWait ∨ s.endCall = .waiting → s.resultsPtr = [] →
    s.loop.beforeSignal = true
  executing : s.endCall ≠ .notCalled → s.endCall ≠ .returned → s.request = .executing
  notEnding : s.endCall ≠ .returned → s.endPending = false ∧ s.loop ≠ .ending

theorem waiting_start : Waiting .start := by
  constructor <;> simp [State.start, EndCall.holdsMutex]

namespace Waiting

/-- The thread in `end` moves on. -/
theorem move (h : Waiting s) {endCall : EndCall} (hcalled : s.endCall ≠ .notCalled)
    (hreturned : s.endCall ≠ .returned)
    (hmutex : endCall.holdsMutex = true → s.loop.holdsMutex = false)
    (hsignalled : endCall = .toWait ∨ endCall = .waiting → s.resultsPtr = [] →
      s.loop.beforeSignal = true) : Waiting { s with endCall := endCall } where
  exclusive := hmutex
  signalled := hsignalled
  executing := fun _ _ => h.executing hcalled hreturned
  notEnding := fun _ => h.notEnding hreturned

/-- The event loop moves on in `Data`, before the signal. -/
theorem loop (h : Waiting s) {loop : Loop} (hbefore : loop.beforeSignal = true)
    (hmutex : s.endCall.holdsMutex = true → loop.holdsMutex = false) :
    Waiting { s with loop := loop } :=
  { h with
    exclusive := hmutex
    signalled := fun _ _ => hbefore
    notEnding := fun hcall => ⟨(h.notEnding hcall).1, by rintro rfl; cases hbefore⟩ }

/-- The event loop comes to a point outside of `Data`, where no signal is to come. -/
theorem outside (h : Waiting s) (hafter : s.loop.beforeSignal = false) {loop : Loop}
    (hmutex : loop.holdsMutex = false)
    (hending : s.endCall ≠ .returned → loop ≠ .ending) : Waiting { s with loop := loop } :=
  { h with
    exclusive := fun _ => hmutex
    signalled := fun hw hempty => absurd (h.signalled hw hempty) (by simp [hafter])
    notEnding := fun hcall => ⟨(h.notEnding hcall).1, hending hcall⟩ }

/-- A signal wakes the thread that waits, and no thread is about to wait. -/
theorem signal (h : Waiting s) (hl : s.loop = .signalling) :
    Waiting { s with loop := .unlockingProcessed, endCall := s.endCall.signalled } := by
  have hfree : s.endCall.holdsMutex = false := by
    by_contra hholds
    have hloop := h.exclusive (by simpa using hholds)
    simp [hl, Loop.holdsMutex] at hloop
  have hexecuting := h.executing
  have hpending := h.notEnding
  cases hcall : s.endCall <;> constructor <;>
    simp_all [EndCall.signalled, EndCall.holdsMutex]

end Waiting

theorem waiting_step (h : Waiting s) (hs : Step p s l s') : Waiting s' := by
  cases hs with
  | push resultPtr =>
    have hresults : s.resultsPtr ++ [resultPtr] ≠ [] := by simp
    exact { h with signalled := fun _ hempty => absurd hempty hresults }
  | send => exact { h with }
  | callEnd hr hcall =>
    exact
      { exclusive := by simp [EndCall.holdsMutex]
        signalled := by simp
        executing := fun _ _ => hr
        notEnding := fun _ => h.notEnding (by simp [hcall]) }
  | lock hcall hfree =>
    exact h.move (by simp [hcall]) (by simp [hcall]) (fun _ => hfree) (by simp)
  | checkEmpty hcall =>
    have hfree := h.exclusive (by simp [hcall, EndCall.holdsMutex])
    exact h.move (by simp [hcall]) (by simp [hcall]) (fun _ => hfree) (by simp)
  | checkNonempty hcall hsize =>
    have hfree := h.exclusive (by simp [hcall, EndCall.holdsMutex])
    exact h.move (by simp [hcall]) (by simp [hcall]) (fun _ => hfree)
      fun _ hempty => absurd hempty hsize
  | wait hcall =>
    exact h.move (by simp [hcall]) (by simp [hcall]) (by simp [EndCall.holdsMutex])
      fun _ => h.signalled (.inl hcall)
  | wake hcall | unlock hcall =>
    exact h.move (by simp [hcall]) (by simp [hcall]) (by simp [EndCall.holdsMutex]) (by simp)
  | sendEnd hcall =>
    exact
      { exclusive := by simp [EndCall.holdsMutex]
        signalled := by simp
        executing := by simp
        notEnding := by simp }
  | executeReturn hr hout | executeThrow _ hr hout =>
    exact
      { h with
        executing := fun hcalled hreturned => absurd hout.2 (not_or.mpr ⟨hcalled, hreturned⟩) }
  | data hl => exact { h.loop (rfl : Loop.dataStarted.beforeSignal = true) (fun _ => rfl) with }
  | nextResults hl =>
    exact
      { h.loop (rfl : (Loop.emitting s.resultsPtr).beforeSignal = true) (fun _ => rfl) with
        signalled := fun _ _ => rfl }
  | emit resultPtr rest hl =>
    exact { h.loop (rfl : (Loop.emitting rest).beforeSignal = true) (fun _ => rfl) with }
  | emitted hl => exact h.loop rfl fun _ => rfl
  | lockProcessed hl hfree => exact h.loop rfl fun hholds => absurd hholds (by simp [hfree])
  | signal hl => exact h.signal hl
  | unlockProcessed hl =>
    exact { h.outside (by rw [hl]; rfl) (rfl : Loop.idle.holdsMutex = false) (by simp) with }
  | endStart hl hopen hpending =>
    have hcall : s.endCall = .returned := by
      by_contra hcall
      simp [(h.notEnding hcall).1] at hpending
    exact
      { h.outside (by rw [hl]; rfl) (rfl : Loop.ending.holdsMutex = false)
          (fun hne => absurd hcall hne) with
        notEnding := fun hne => absurd hcall hne }
  | endFinish hl =>
    have h' : Waiting { s with loop := .idle } := h.outside (by rw [hl]; rfl) rfl (by simp)
    rw [State.teardownIfReady_eq]
    exact { h' with }
  | completeStart hl hr =>
    have h' : Waiting { s with loop := .completing } := h.outside (by rw [hl]; rfl) rfl (by simp)
    rw [State.reportException_eq]
    exact
      { h' with
        executing := fun hcalled hreturned =>
          absurd (h.executing hcalled hreturned) (by simp [hr]) }
  | completeFinish hl =>
    have h' : Waiting { s with loop := .idle } := h.outside (by rw [hl]; rfl) rfl (by simp)
    rw [State.teardownIfReady_eq]
    exact { h' with }

theorem waiting_of_reachable (hr : (system p).Reachable s) : Waiting s :=
  hr.invariant Waiting (fun _ h => h ▸ waiting_start) fun _ _ _ _ => waiting_step

/-! ### What is left to happen -/

/-- The sends that are owed, and the steps of `Data`, which is called for a send. -/
def Drains (s : State) : Label → Prop
  | .send => True
  | .data => s.resultsPending = true
  | l => l.callback? = some .data

/-- Those steps lead to the end of the wait. -/
def Released (p : Platform) (s : State) : Prop :=
  ∃ s', (system p).Leads Drains s s' ∧ s'.endCall = .locking

theorem Released.head (h : Released p s') (hs : Step p s l s') (hl : Drains s l) :
    Released p s := by
  obtain ⟨t, hleads, hcall⟩ := h
  exact ⟨t, hleads.head hl hs, hcall⟩

theorem released_of_signalling (hcall : s.endCall = .waiting) (hl : s.loop = .signalling) :
    Released p s := by
  have hreleased : Released p
      { s with loop := .unlockingProcessed, endCall := s.endCall.signalled } :=
    ⟨_, .refl _, by simp [hcall, EndCall.signalled]⟩
  exact hreleased.head (.signal s hl) rfl

theorem released_of_lockingProcessed (hcall : s.endCall = .waiting)
    (hl : s.loop = .lockingProcessed) : Released p s := by
  have hfree : s.endCall.holdsMutex = false := by simp [hcall, EndCall.holdsMutex]
  have hreleased : Released p { s with loop := .signalling } := released_of_signalling hcall rfl
  exact hreleased.head (.lockProcessed s hl hfree) rfl

/-- The signal comes when all results of the batch are emitted. -/
theorem released_of_emitting {resultsPtr : CacheableVector} (hcall : s.endCall = .waiting)
    (hl : s.loop = .emitting resultsPtr) : Released p s := by
  induction resultsPtr generalizing s with
  | nil =>
    have hreleased : Released p { s with loop := .lockingProcessed } :=
      released_of_lockingProcessed hcall rfl
    exact hreleased.head (.emitted s hl) rfl
  | cons resultPtr rest ih =>
    have hreleased : Released p { s with
        loop := .emitting rest
        emitted := s.emitted ++ [resultEmission p resultPtr] } := ih hcall rfl
    exact hreleased.head (.emit s resultPtr rest hl) rfl

theorem released_of_dataStarted (hcall : s.endCall = .waiting) (hl : s.loop = .dataStarted) :
    Released p s := by
  have hreleased : Released p { s with loop := .emitting s.resultsPtr, resultsPtr := [] } :=
    released_of_emitting hcall rfl
  exact hreleased.head (.nextResults s hl) rfl

theorem released_of_idle (hcall : s.endCall = .waiting) (hl : s.loop = .idle)
    (hopen : s.closed = false) (hpending : s.resultsPending = true) : Released p s := by
  have hreleased : Released p { s with loop := .dataStarted, resultsPending := false } :=
    released_of_dataStarted hcall rfl
  exact hreleased.head (.data s hl hopen) hpending

/-- While `end` waits, `Execute` has not returned, so that the handles are open and the
    event loop is in no other callback. -/
theorem released_of_pending (hr : (system p).Reachable s) (hcall : s.endCall = .waiting)
    (hpending : s.resultsPending = true) : Released p s := by
  have h := waiting_of_reachable hr
  have hteardown := teardown_of_reachable hr
  have hexecuting : s.request = .executing := h.executing (by simp [hcall]) (by simp [hcall])
  have hserved : s.request ≠ .served := by simp [hexecuting]
  have hopen : s.closed = false := by
    rw [hteardown.closed, State.ready, hteardown.not_completed hserved, Bool.and_false]
  cases hl : s.loop with
  | idle => exact released_of_idle hcall hl hopen hpending
  | dataStarted => exact released_of_dataStarted hcall hl
  | emitting resultsPtr => exact released_of_emitting hcall hl
  | lockingProcessed => exact released_of_lockingProcessed hcall hl
  | signalling => exact released_of_signalling hcall hl
  | unlockingProcessed =>
    have hreleased : Released p { s with loop := .idle, finished := s.finished ++ [.data] } :=
      released_of_idle hcall rfl hopen hpending
    exact hreleased.head (.unlockProcessed s hl) rfl
  | ending => exact absurd hl (h.notEnding (by simp [hcall])).2
  | completing => exact absurd hl (hteardown.not_completing hserved)

theorem released_of_beforeSignal (hcall : s.endCall = .waiting)
    (hl : s.loop.beforeSignal = true) : Released p s := by
  cases hloop : s.loop with
  | dataStarted => exact released_of_dataStarted hcall hloop
  | emitting resultsPtr => exact released_of_emitting hcall hloop
  | lockingProcessed => exact released_of_lockingProcessed hcall hloop
  | signalling => exact released_of_signalling hcall hloop
  | _ => simp [hloop, Loop.beforeSignal] at hl

/-- **No lost wake-up**: while `end` waits, a send of the results handle is pending, or a
    thread has pushed a result and not yet sent, or `Data` is running and has not yet
    signalled; and these steps lead to the end of the wait. -/
theorem end_not_stranded (hr : (system p).Reachable s) (hcall : s.endCall = .waiting) :
    (s.resultsPending = true ∨ 0 < s.unsent ∨ s.loop.beforeSignal = true) ∧ Released p s := by
  have hleft : s.resultsPending = true ∨ 0 < s.unsent ∨ s.loop.beforeSignal = true := by
    by_cases hempty : s.resultsPtr = []
    · exact .inr (.inr ((waiting_of_reachable hr).signalled (.inr hcall) hempty))
    · have hattended := Mailbox.attended_of_reachable ((mailboxSimulation p).reachable hr)
      rcases hattended hempty with hpending | hunsent | hlooking
      · exact .inl hpending
      · exact .inr (.inl hunsent)
      · exact .inr (.inr (beforeSignal_of_looking hlooking))
  refine ⟨hleft, ?_⟩
  rcases hleft with hpending | hunsent | hbefore
  · exact released_of_pending hr hcall hpending
  · have hsend : Step p s .send { s with unsent := s.unsent - 1, resultsPending := true } :=
      .send s hunsent
    exact (released_of_pending (hr.step hsend) hcall rfl).head hsend trivial
  · exact released_of_beforeSignal hcall hbefore

/-- Results were added and taken, and are being emitted, while `end` waits. -/
def takenResult : State :=
  { State.start with
    resultsPending := false
    endCall := .waiting
    loop := .emitting [none]
    pushed := [none] }

theorem takenResult_reachable : (system nativeClient).Reachable takenResult := by
  have h₁ := (TransitionSystem.Reachable.start rfl : (system nativeClient).Reachable .start)
  have h₂ := (h₁.step (.push _ none rfl)).step (.send _ (by decide))
  have h₃ := (h₂.step (.callEnd _ rfl rfl)).step (.lock _ rfl rfl)
  have h₄ := (h₃.step (.checkNonempty _ rfl (by decide))).step (.wait _ rfl)
  exact (h₄.step (.data _ rfl rfl)).step (.nextResults _ rfl)

theorem end_not_stranded_takenResult : Released nativeClient takenResult :=
  (end_not_stranded takenResult_reachable rfl).2

end NodeGemfire.ExecuteFunction
