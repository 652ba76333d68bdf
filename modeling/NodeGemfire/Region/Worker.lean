import NodeGemfire.Conversions.FromGemfire
import NodeGemfire.Region.Native

/-!
# Workers

A worker does the native part of an asynchronous call on another thread and
reports to JavaScript afterwards. A `GemfireWorker` always has a callback; a
`GemfireEventedWorker` may have none, and then reports a failure as an `error`
event on the region object.

## Main definitions

- `Worker` — a queued worker with its callback and its native part
- `Report` — what JavaScript hears of a worker
- `Worker.run` — `Execute`, then the callback
-/

namespace NodeGemfire

/-- A worker, by its base class. The native part sets an error or leaves what
    `HandleOKCallback` makes the second argument of the callback from. -/
inductive Worker (σ : Type)
  | gemfire (callback : JsValue) (executeGemfireWork : Cpp σ (Except JsError (Isolate JsValue)))
  | evented (callback : Option JsValue) (executeGemfireWork : Cpp σ (Except JsError Unit))

/-- What JavaScript hears of a worker: its callback called with these arguments,
    its callback called with `errorObject()`, or an `error` event. -/
inductive Report
  | callback (callback : JsValue) (arguments : List JsValue)
  | callbackError (callback : JsValue) (error : JsError)
  | errorEvent (error : JsError)

def Report.isFailure : Report → Bool
  | .callback _ _ => false
  | .callbackError _ _ | .errorEvent _ => true

variable {σ α : Type}

/-- `SetError` before the native part returns. -/
def setError (name message : String) : Cpp σ (Except JsError α) := pure (.error ⟨name, message⟩)

/-- `GemfireWorker::Execute`: an exception sets the error. -/
def execute (executeGemfireWork : Cpp σ (Except JsError α)) (s : Session σ) :
    Isolate (Except JsError α × Session σ) :=
  Cpp.attempt executeGemfireWork (fun exception => pure (.error (v8Error exception))) s

/-- `HandleOKCallback` and `HandleErrorCallback` of `GemfireWorker`. -/
def handleCallback (callback : JsValue) : Except JsError (Isolate JsValue) → Isolate (List Report)
  | .ok v8Result => do
    let value ← v8Result
    pure [.callback callback [.undefined, value]]
  | .error error => pure [.callbackError callback error]

/-- `HandleOKCallback` and `HandleErrorCallback` of `GemfireEventedWorker`. -/
def handleEventedCallback : Option JsValue → Except JsError Unit → List Report
  | some callback, .ok () => [.callback callback []]
  | none, .ok () => []
  | some callback, .error error => [.callbackError callback error]
  | none, .error error => [.errorEvent error]

/-- The worker executes in the session `s`, and its outcome is handled. -/
def Worker.run : Worker σ → Session σ → Isolate (List Report × Session σ)
  | .gemfire callback executeGemfireWork, s => do
    let (outcome, s') ← execute executeGemfireWork s
    let reports ← handleCallback callback outcome
    pure (reports, s')
  | .evented callback executeGemfireWork, s => do
    let (outcome, s') ← execute executeGemfireWork s
    pure (handleEventedCallback callback outcome, s')

/-- What follows a call of an asynchronous method: the worker it queued runs in
    the session `s`, or nothing happens. -/
def afterwards (call : Isolate (Option (Worker σ))) (s : Session σ) :
    Isolate (List Report × Session σ) :=
  match call.value with
  | none => pure ([], s)
  | some worker => worker.run s

end NodeGemfire
