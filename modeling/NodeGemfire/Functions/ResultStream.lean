import NodeGemfire.Lib.TransitionSystem
import NodeGemfire.Conversions.FromGemfire

/-!
# Streaming the results of a function

One asynchronous execution: the threads of the native client in
`ResultStream::add` and `ResultStream::end`, the worker thread in `Execute`, and
the event loop in `Data`, `End` and `ExecuteComplete`. A step is what one thread
does between two points at which another may act.

## Main definitions

- `ExecuteFunction.State` — the worker, its stream, and where each thread is
- `ExecuteFunction.Step` — what each thread can do next
- `ExecuteFunction.system` — all interleavings
-/

namespace NodeGemfire.ExecuteFunction

variable (p : Platform)

/-! ### The emitter -/

/-- A call of `emit`: for a result, by `Data`; for the exception, by
    `ExecuteComplete`; or by `End`. -/
inductive Emission
  | result (resultPtr : CacheablePtr) (event : String) (value : JsValue)
  | exception (event : String) (error : JsError)
  | «end» (event : String)

/-- What `Data` does with a result. -/
def resultEmission (resultPtr : CacheablePtr) : Emission :=
  let result := (v8Value p resultPtr).value
  if result.isNativeError then .result resultPtr "error" result
  else .result resultPtr "data" result

def exceptionEmission (exception : GeodeException) : Emission :=
  .exception "error" (v8Error exception)

def endEmission : Emission := .end "end"

/-- What listeners are to get of a result: an `Error` under `error`, any other value under
    `data`. -/
def handedOver (resultPtr : CacheablePtr) : Emission :=
  .result resultPtr
    (if (v8Value p resultPtr).value.isNativeError = true then "error" else "data")
    (v8Value p resultPtr).value

theorem resultEmission_eq (resultPtr : CacheablePtr) :
    resultEmission p resultPtr = handedOver p resultPtr := by
  by_cases h : (v8Value p resultPtr).value.isNativeError = true <;>
    simp [resultEmission, handedOver, h]

theorem exceptionEmission_eq (exception : GeodeException) :
    exceptionEmission exception = .exception "error" (v8Error exception) := rfl

theorem endEmission_eq : endEmission = .end "end" := rfl

/-- The result an emission hands over. -/
def Emission.resultPtr? : Emission → Option CacheablePtr
  | .result resultPtr _ _ => some resultPtr
  | .exception _ _ => none
  | .end _ => none

@[simp] theorem resultPtr?_resultEmission (resultPtr : CacheablePtr) :
    (resultEmission p resultPtr).resultPtr? = some resultPtr := by
  rw [resultEmission_eq]
  rfl

@[simp] theorem resultPtr?_exceptionEmission (exception : GeodeException) :
    (exceptionEmission exception).resultPtr? = none := rfl

@[simp] theorem resultPtr?_endEmission : endEmission.resultPtr? = none := rfl

theorem resultEmission_ne_endEmission (resultPtr : CacheablePtr) :
    resultEmission p resultPtr ≠ endEmission := by
  intro h
  have hresult := congrArg Emission.resultPtr? h
  simp at hresult

/-- The results among the emissions. -/
def resultsOf (emitted : List Emission) : CacheableVector := emitted.filterMap Emission.resultPtr?

@[simp] theorem resultsOf_append (xs ys : List Emission) :
    resultsOf (xs ++ ys) = resultsOf xs ++ resultsOf ys := List.filterMap_append

@[simp] theorem resultsOf_resultEmission (resultPtr : CacheablePtr) :
    resultsOf [resultEmission p resultPtr] = [resultPtr] := by
  simp [resultsOf]

@[simp] theorem resultsOf_exceptionEmission (exception : GeodeException) :
    resultsOf [exceptionEmission exception] = [] := rfl

@[simp] theorem resultsOf_toList_map (exceptionPtr : Option GeodeException) :
    resultsOf (exceptionPtr.toList.map exceptionEmission) = [] := by
  cases exceptionPtr <;> rfl

@[simp] theorem resultsOf_endEmission : resultsOf [endEmission] = [] := rfl

/-! ### The state -/

/-- Where a thread is in `ResultStream::end`. -/
inductive EndCall
  | notCalled
  /-- It wants `resultsProcessedMutex`, on entry or at the end of a wait. -/
  | locking
  | checking
  | toWait
  | waiting
  | unlocking
  | sending
  | returned
  deriving DecidableEq

def EndCall.holdsMutex : EndCall → Bool
  | .checking | .toWait | .unlocking => true
  | _ => false

/-- Where the event loop is in the callbacks of the worker. -/
inductive Loop
  | idle
  | dataStarted
  | emitting (resultsPtr : CacheableVector)
  | lockingProcessed
  | signalling
  | unlockingProcessed
  | ending
  | completing

def Loop.holdsMutex : Loop → Bool
  | .signalling | .unlockingProcessed => true
  | _ => false

/-- The results `Data` has taken and not yet emitted. -/
def Loop.batch : Loop → CacheableVector
  | .emitting resultsPtr => resultsPtr
  | _ => []

/-- The request of `uv_queue_work`. -/
inductive WorkRequest
  | executing
  | executed
  | served
  deriving DecidableEq

inductive Callback
  | data
  | «end»
  | executeComplete
  deriving DecidableEq

/-- The worker and its stream. `unsent` counts the threads in `add` that have
    unlocked `resultsMutex` and not yet called `uv_async_send`; `pushed`,
    `emitted`, `finished` and `deletes` are the history of the run. -/
structure State where
  resultsPtr : CacheableVector
  unsent : ℕ
  resultsPending : Bool
  endPending : Bool
  closed : Bool
  endCall : EndCall
  request : WorkRequest
  loop : Loop
  exceptionPtr : Option GeodeException
  ended : Bool
  executeCompleted : Bool
  pushed : CacheableVector
  emitted : List Emission
  finished : List Callback
  deletes : ℕ

/-- The worker when it is queued. -/
def State.start : State where
  resultsPtr := []
  unsent := 0
  resultsPending := false
  endPending := false
  closed := false
  endCall := .notCalled
  request := .executing
  loop := .idle
  exceptionPtr := none
  ended := false
  executeCompleted := false
  pushed := []
  emitted := []
  finished := []
  deletes := 0

namespace State

/-- The results handed to the emitter so far. -/
def delivered (s : State) : CacheableVector := resultsOf s.emitted

/-- The beginning of `ExecuteComplete`. -/
def reportException (s : State) : State :=
  match s.exceptionPtr with
  | none => s
  | some exception =>
    { s with emitted := s.emitted ++ [exceptionEmission exception], ended := true }

/-- `delete this` deletes the stream, which closes both handles. -/
def teardownIfReady (s : State) : State :=
  if s.ended && s.executeCompleted then { s with deletes := s.deletes + 1, closed := true } else s

variable (s : State)

@[simp] theorem reportException_eq :
    s.reportException =
      { s with
        emitted := s.emitted ++ s.exceptionPtr.toList.map exceptionEmission
        ended := s.ended || s.exceptionPtr.isSome } := by
  obtain ⟨_, _, _, _, _, _, _, _, exceptionPtr⟩ := s
  cases exceptionPtr <;> simp [reportException]

@[simp] theorem teardownIfReady_eq :
    s.teardownIfReady =
      { s with
        deletes := if s.ended && s.executeCompleted then s.deletes + 1 else s.deletes
        closed := s.closed || (s.ended && s.executeCompleted) } := by
  cases h : s.ended && s.executeCompleted <;> simp [teardownIfReady, h]

end State

/-- A signal on `resultsProcessedCond` wakes a thread that waits for it. -/
def EndCall.signalled : EndCall → EndCall
  | .waiting => .locking
  | endCall => endCall

/-! ### The steps -/

inductive Label
  | push (resultPtr : CacheablePtr)
  | send
  | callEnd
  | lock
  | check
  | wait
  | wake
  | unlock
  | sendEnd
  | executeReturn
  | executeThrow (exception : GeodeException)
  | data
  | nextResults
  | emit
  | emitted
  | lockProcessed
  | signal
  | unlockProcessed
  | endStart
  | endFinish
  | completeStart
  | completeFinish

/-- The callback whose body takes the step, for the steps of the event loop. -/
def Label.callback? : Label → Option Callback
  | .data | .nextResults | .emit | .emitted | .lockProcessed | .signal | .unlockProcessed =>
    some .data
  | .endStart | .endFinish => some .end
  | .completeStart | .completeFinish => some .executeComplete
  | _ => none

/-- The native client calls the collector inside `execute` only, so that `execute`
    ends when no thread is in `add` or `end`. -/
def State.OutsideCollector (s : State) : Prop :=
  s.unsent = 0 ∧ (s.endCall = .notCalled ∨ s.endCall = .returned)

inductive Step : State → Label → State → Prop
  -- `ResultStream::add`: the push under `resultsMutex`, then the send
  | push (s : State) (resultPtr : CacheablePtr) (h : s.request = .executing) :
    Step s (.push resultPtr)
      { s with
        resultsPtr := s.resultsPtr ++ [resultPtr]
        pushed := s.pushed ++ [resultPtr]
        unsent := s.unsent + 1 }
  | send (s : State) (h : 0 < s.unsent) :
    Step s .send { s with unsent := s.unsent - 1, resultsPending := true }
  -- `ResultStream::end`, which reads the size without `resultsMutex`
  | callEnd (s : State) (h : s.request = .executing) (hcall : s.endCall = .notCalled) :
    Step s .callEnd { s with endCall := .locking }
  | lock (s : State) (h : s.endCall = .locking) (hfree : s.loop.holdsMutex = false) :
    Step s .lock { s with endCall := .checking }
  | checkEmpty (s : State) (h : s.endCall = .checking) (hsize : s.resultsPtr = []) :
    Step s .check { s with endCall := .unlocking }
  | checkNonempty (s : State) (h : s.endCall = .checking) (hsize : s.resultsPtr ≠ []) :
    Step s .check { s with endCall := .toWait }
  | wait (s : State) (h : s.endCall = .toWait) : Step s .wait { s with endCall := .waiting }
  -- `uv_cond_wait` may return without a signal
  | wake (s : State) (h : s.endCall = .waiting) : Step s .wake { s with endCall := .locking }
  | unlock (s : State) (h : s.endCall = .unlocking) : Step s .unlock { s with endCall := .sending }
  | sendEnd (s : State) (h : s.endCall = .sending) :
    Step s .sendEnd { s with endCall := .returned, endPending := true }
  -- `ExecuteFunctionWorker::Execute`
  | executeReturn (s : State) (h : s.request = .executing) (hout : s.OutsideCollector) :
    Step s .executeReturn { s with request := .executed }
  | executeThrow (s : State) (exception : GeodeException) (h : s.request = .executing)
      (hout : s.OutsideCollector) :
    Step s (.executeThrow exception)
      { s with request := .executed, exceptionPtr := some exception }
  -- `ExecuteFunctionWorker::Data`, also with no send pending
  | data (s : State) (h : s.loop = .idle) (hopen : s.closed = false) :
    Step s .data { s with loop := .dataStarted, resultsPending := false }
  | nextResults (s : State) (h : s.loop = .dataStarted) :
    Step s .nextResults { s with loop := .emitting s.resultsPtr, resultsPtr := [] }
  | emit (s : State) (resultPtr : CacheablePtr) (rest : CacheableVector)
      (h : s.loop = .emitting (resultPtr :: rest)) :
    Step s .emit
      { s with loop := .emitting rest, emitted := s.emitted ++ [resultEmission p resultPtr] }
  | emitted (s : State) (h : s.loop = .emitting []) :
    Step s .emitted { s with loop := .lockingProcessed }
  | lockProcessed (s : State) (h : s.loop = .lockingProcessed)
      (hfree : s.endCall.holdsMutex = false) :
    Step s .lockProcessed { s with loop := .signalling }
  | signal (s : State) (h : s.loop = .signalling) :
    Step s .signal { s with loop := .unlockingProcessed, endCall := s.endCall.signalled }
  | unlockProcessed (s : State) (h : s.loop = .unlockingProcessed) :
    Step s .unlockProcessed { s with loop := .idle, finished := s.finished ++ [.data] }
  -- `ExecuteFunctionWorker::End`
  | endStart (s : State) (h : s.loop = .idle) (hopen : s.closed = false)
      (hpending : s.endPending = true) :
    Step s .endStart
      { s with loop := .ending, endPending := false, emitted := s.emitted ++ [endEmission] }
  | endFinish (s : State) (h : s.loop = .ending) :
    Step s .endFinish
      { ({ s with ended := true } : State).teardownIfReady with
        loop := .idle
        finished := s.finished ++ [.end] }
  -- `ExecuteFunctionWorker::ExecuteComplete`
  | completeStart (s : State) (h : s.loop = .idle) (hdone : s.request = .executed) :
    Step s .completeStart { s.reportException with loop := .completing, request := .served }
  | completeFinish (s : State) (h : s.loop = .completing) :
    Step s .completeFinish
      { ({ s with executeCompleted := true } : State).teardownIfReady with
        loop := .idle
        finished := s.finished ++ [.executeComplete] }

/-- What the emitter is called with in a step. -/
inductive Emits (s : State) : Label → List Emission → Prop
  | result {resultPtr : CacheablePtr} {rest : CacheableVector}
      (h : s.loop = .emitting (resultPtr :: rest)) : Emits s .emit [resultEmission p resultPtr]
  | exception {exception : GeodeException} (h : s.exceptionPtr = some exception) :
    Emits s .completeStart [exceptionEmission exception]
  | «end» : Emits s .endStart [endEmission]
  | nothing {l : Label} (h : l = .completeStart → s.exceptionPtr = none) : Emits s l []

variable {p} in
theorem Step.emits {s s' : State} {l : Label} (hs : Step p s l s') :
    ∃ emissions, s'.emitted = s.emitted ++ emissions ∧ Emits p s l emissions := by
  cases hs with
  | emit resultPtr rest hl => exact ⟨_, rfl, .result hl⟩
  | endStart => exact ⟨_, rfl, .end⟩
  | completeStart =>
    cases hex : s.exceptionPtr with
    | none => exact ⟨[], by simp [State.reportException, hex], .nothing fun _ => hex⟩
    | some exception => exact ⟨_, by simp [State.reportException, hex], .exception hex⟩
  | endFinish | completeFinish => exact ⟨[], by simp, .nothing (by simp)⟩
  | _ => exact ⟨[], (List.append_nil _).symm, .nothing (by simp)⟩

/-- All interleavings of one asynchronous execution. -/
def system : TransitionSystem State Label where
  start s := s = .start
  step := Step p

end NodeGemfire.ExecuteFunction
