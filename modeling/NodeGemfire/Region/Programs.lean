import NodeGemfire.Lib.Program
import NodeGemfire.Region.Refinement

/-!
# Native code, a call at a time

The native part of a worker runs on a thread of its own, and other threads may
call the client between two of its calls. Here the C++ code of the region methods
is a program of which every native call can be seen, and `interpret` runs it
against a client that nobody else calls.

## Main definitions

- `CppProgram` — C++ code with its native calls as questions
- `CppProgram.interpret` — the same code without interruption
- `ClearWorker.program` and the others — the workers and the synchronous methods

## Main results

- `AsyncMethod.call_value` — every worker that is queued runs its program
- `SyncMethod.runIn_program` — every synchronous method runs its program
- `AsyncMethod.asksAtMost_worker`, `SyncMethod.asksAtMost_program` — how many calls they make
-/

namespace NodeGemfire

variable {σ α β : Type}

/-- The client answers a call with a result or an exception. -/
abbrev NativeCall.Answer (call : NativeCall) : Type := Except GeodeException call.Result

/-- C++ code whose native calls can be seen. -/
def CppProgram (α : Type) : Type :=
  Program NativeCall NativeCall.Answer (Isolate (Except GeodeException α))

namespace CppProgram

/-- Go on when a part has returned or thrown. -/
def andThen (x : CppProgram α)
    (next : Except GeodeException α → Program NativeCall NativeCall.Answer (Isolate β)) :
    Program NativeCall NativeCall.Answer (Isolate β) :=
  Program.bind x fun i => Program.bind (next i.value) fun j => .done (i >>= fun _ => j)

protected def throw (exception : GeodeException) : CppProgram α := .done (pure (.error exception))

instance : Monad CppProgram where
  pure a := .done (pure (.ok a))
  bind x f := x.andThen fun
    | .ok a => f a
    | .error exception => CppProgram.throw exception

/-- Call V8 only. -/
def v8 (x : Isolate α) : CppProgram α := .done (x >>= fun a => pure (.ok a))

/-- Call the client. -/
def invoke (call : NativeCall) : CppProgram call.Result :=
  .ask call fun answer => .done (pure answer)

/-- Call the client for the effect only. -/
def perform (call : NativeCall) : CppProgram Unit := do
  let _ ← invoke call
  pure ()

protected def tryCatch (x : CppProgram α) (handler : GeodeException → CppProgram α) :
    CppProgram α :=
  x.andThen fun
    | .ok a => .done (pure (.ok a))
    | .error exception => handler exception

/-- `try` around all of a body that JavaScript or a worker thread calls. -/
def attempt (body : CppProgram α) (caught : GeodeException → Isolate α) :
    Program NativeCall NativeCall.Answer (Isolate α) :=
  body.andThen fun
    | .ok a => .done (pure a)
    | .error exception => .done (caught exception)

/-! ### Without interruption -/

variable (client : Client σ)

/-- Run a program against the client, and note the calls in the session. -/
def runIn (p : Program NativeCall NativeCall.Answer (Isolate α)) (s : Session σ) :
    Isolate (α × Session σ) :=
  (p.run client.native s.region).1 >>= fun a =>
    pure (a, ⟨(p.run client.native s.region).2, s.calls ++ p.asked client.native s.region⟩)

/-- The program as code in the monad of the methods. -/
def interpret (p : CppProgram α) : Cpp σ α := ExceptT.mk (runIn client p)

@[simp] theorem runIn_done (x : Isolate α) (s : Session σ) :
    runIn client (.done x) s = x >>= fun a => pure (a, s) := by
  simp [runIn, Program.run, Program.asked]

@[simp] theorem runIn_ask (call : NativeCall)
    (next : call.Answer → Program NativeCall NativeCall.Answer (Isolate α)) (s : Session σ) :
    runIn client (.ask call next) s =
      runIn client (next (client.native call s.region).1) (s.issue client call) := by
  simp [runIn, Program.run, Program.asked, Session.issue]

/-- The trace of a first part stands before that of what follows it. -/
theorem runIn_prepend (x : Isolate β) (p : Program NativeCall NativeCall.Answer (Isolate α))
    (s : Session σ) :
    runIn client (Program.bind p fun y => .done (x >>= fun _ => y)) s =
      x >>= fun _ => runIn client p s := by
  induction p generalizing s with
  | done y =>
    show runIn client (.done (x >>= fun _ => y)) s = _
    simp only [runIn_done, bind_assoc]
  | ask call next ih =>
    show runIn client (.ask call fun a => Program.bind (next a) _) s = _
    simp only [runIn_ask]
    exact ih _ _

theorem runIn_andThen (x : CppProgram α)
    (next : Except GeodeException α → Program NativeCall NativeCall.Answer (Isolate β))
    (s : Session σ) :
    runIn client (x.andThen next) s =
      runIn client x s >>= fun r => runIn client (next r.1) r.2 := by
  induction x generalizing s with
  | done x =>
    show runIn client (Program.bind (next x.value) fun j => .done (x >>= fun _ => j)) s = _
    rw [runIn_prepend, runIn_done, bind_assoc]
    -- what follows a part sees the value of that part
    rfl
  | ask call next' ih =>
    show runIn client (.ask call fun a => andThen (next' a) next) s = _
    simp only [runIn_ask]
    exact ih _ _

theorem interpret_bind (x : CppProgram α) (f : α → CppProgram β) :
    interpret client (x >>= f) = interpret client x >>= fun a => interpret client (f a) := by
  funext s
  show runIn client (x.andThen _) s =
    Cpp.runOn (interpret client x >>= fun a => interpret client (f a)) s
  rw [runIn_andThen, Cpp.runOn_bind]
  show runIn client x s >>= _ = runIn client x s >>= _
  congr 1
  funext ⟨r, s'⟩
  cases r with
  | ok a => rfl
  | error exception => exact runIn_done client _ s'

theorem interpret_tryCatch (x : CppProgram α) (handler : GeodeException → CppProgram α) :
    interpret client (x.tryCatch handler) =
      tryCatch (interpret client x) fun exception => interpret client (handler exception) := by
  funext s
  show runIn client (x.andThen _) s =
    Cpp.runOn (tryCatch (interpret client x) fun e => interpret client (handler e)) s
  rw [runIn_andThen, Cpp.runOn_tryCatch]
  show runIn client x s >>= _ = runIn client x s >>= _
  congr 1
  funext ⟨r, s'⟩
  cases r with
  | ok a => exact runIn_done client _ s'
  | error exception => rfl

theorem runIn_attempt (body : CppProgram α) (caught : GeodeException → Isolate α) (s : Session σ) :
    runIn client (body.attempt caught) s = Cpp.attempt (interpret client body) caught s := by
  rw [attempt, runIn_andThen]
  show runIn client body s >>= _ = runIn client body s >>= _
  congr 1
  funext ⟨r, s'⟩
  cases r with
  | ok a => exact runIn_done client _ s'
  | error exception => exact runIn_done client _ s'

@[simp] theorem interpret_pure (a : α) :
    interpret client (pure a : CppProgram α) = (pure a : Cpp σ α) := by
  funext s
  exact runIn_done client (pure (Except.ok a)) s

@[simp] theorem interpret_throw (exception : GeodeException) :
    interpret client (CppProgram.throw exception : CppProgram α) = (throw exception : Cpp σ α) := by
  funext s
  exact runIn_done client (pure (Except.error exception)) s

@[simp] theorem interpret_v8 (x : Isolate α) : interpret client (v8 x) = (Cpp.v8 x : Cpp σ α) := by
  funext s
  refine (runIn_done client _ s).trans ?_
  rw [bind_assoc]
  rfl

@[simp] theorem interpret_invoke (call : NativeCall) :
    interpret client (invoke call) = Cpp.invoke client call := by
  funext s
  show runIn client (.ask call fun answer => .done (pure answer)) s = _
  rw [runIn_ask, runIn_done]
  rfl

@[simp] theorem interpret_perform (call : NativeCall) :
    interpret client (perform call) = Cpp.perform client call := by
  rw [perform, interpret_bind, interpret_invoke]
  simp only [interpret_pure]
  rfl

end CppProgram

variable (client : Client σ)

open CppProgram (interpret runIn)

/-! ### The native part of the workers -/

def CppProgram.setError (name message : String) : CppProgram (Except JsError α) :=
  pure (.error ⟨name, message⟩)

def ClearWorker.program : CppProgram (Except JsError Unit) := do
  CppProgram.perform .getRegionService
  CppProgram.perform .clear
  pure (.ok ())

def PutWorker.program (keyPtr valuePtr : CacheablePtr) : CppProgram (Except JsError Unit) :=
  match keyPtr, valuePtr with
  | none, _ => CppProgram.setError "InvalidKeyError" "Invalid GemFire key."
  | some _, none => CppProgram.setError "InvalidValueError" "Invalid GemFire value."
  | some key, some value => do
    CppProgram.perform (.put key value)
    pure (.ok ())

def GetWorker.program (p : Platform) : CacheablePtr → CppProgram (Except JsError (Isolate JsValue))
  | none => CppProgram.setError "InvalidKeyError" "Invalid GemFire key."
  | some key => do
    let valuePtr ← CppProgram.invoke (.get (some key))
    pure (.ok (v8Value p valuePtr))

def GetAllWorker.program (p : Platform) :
    Option (List Cacheable) → CppProgram (Except JsError (Isolate JsValue))
  | none => CppProgram.setError "InvalidKeyError" "Invalid GemFire key."
  | some gemfireKeys =>
    if gemfireKeys.length = 0 then
      pure (.ok (v8ValueHashMap p []))
    else do
      let results ← CppProgram.invoke (.getAll gemfireKeys)
      pure (.ok (v8ValueHashMap p results))

def PutAllWorker.program : Option HashMapOfCacheable → CppProgram (Except JsError Unit)
  | none => CppProgram.setError "InvalidValueError" "Invalid GemFire value."
  | some hashMap => do
    CppProgram.perform (.putAll hashMap)
    pure (.ok ())

def RemoveWorker.program : CacheablePtr → CppProgram (Except JsError Unit)
  | none => CppProgram.setError "InvalidKeyError" "Invalid GemFire key."
  | some key =>
    CppProgram.tryCatch
      (do
        CppProgram.perform (.destroy key)
        pure (.ok ()))
      (fun exception =>
        if isEntryNotFoundException exception then
          CppProgram.setError "KeyNotFoundError" "Key not found in region."
        else CppProgram.throw exception)

def DestroyRegionWorker.program («local» : Bool) : CppProgram (Except JsError Unit) := do
  if «local» then CppProgram.perform .localDestroyRegion else CppProgram.perform .destroyRegion
  pure (.ok ())

section Interpretations

variable {client}

theorem interpret_setError (name message : String) :
    interpret client (CppProgram.setError name message) =
      (setError name message : Cpp σ (Except JsError α)) :=
  CppProgram.interpret_pure client _

theorem ClearWorker.interpret_program :
    interpret client ClearWorker.program = ClearWorker.executeGemfireWork client := by
  simp only [ClearWorker.program, CppProgram.interpret_bind, CppProgram.interpret_perform,
    CppProgram.interpret_pure]
  rfl

theorem PutWorker.interpret_program (keyPtr valuePtr : CacheablePtr) :
    interpret client (PutWorker.program keyPtr valuePtr) =
      PutWorker.executeGemfireWork client keyPtr valuePtr := by
  cases keyPtr with
  | none => exact interpret_setError _ _
  | some key =>
    cases valuePtr with
    | none => exact interpret_setError _ _
    | some value =>
      simp only [PutWorker.program, CppProgram.interpret_bind, CppProgram.interpret_perform,
        CppProgram.interpret_pure]
      rfl

theorem GetWorker.interpret_program (keyPtr : CacheablePtr) :
    interpret client (GetWorker.program client.platform keyPtr) =
      GetWorker.executeGemfireWork client keyPtr := by
  cases keyPtr with
  | none => exact interpret_setError _ _
  | some key =>
    simp only [GetWorker.program, CppProgram.interpret_bind, CppProgram.interpret_pure]
    rfl

theorem GetAllWorker.interpret_program (gemfireKeysPtr : Option (List Cacheable)) :
    interpret client (GetAllWorker.program client.platform gemfireKeysPtr) =
      GetAllWorker.executeGemfireWork client gemfireKeysPtr := by
  cases gemfireKeysPtr with
  | none => exact interpret_setError _ _
  | some gemfireKeys =>
    rw [GetAllWorker.program, GetAllWorker.executeGemfireWork]
    split
    · exact CppProgram.interpret_pure client _
    · simp only [CppProgram.interpret_bind, CppProgram.interpret_pure]
      rfl

theorem PutAllWorker.interpret_program (hashMapPtr : Option HashMapOfCacheable) :
    interpret client (PutAllWorker.program hashMapPtr) =
      PutAllWorker.executeGemfireWork client hashMapPtr := by
  cases hashMapPtr with
  | none => exact interpret_setError _ _
  | some hashMap =>
    simp only [PutAllWorker.program, CppProgram.interpret_bind, CppProgram.interpret_perform,
      CppProgram.interpret_pure]
    rfl

theorem RemoveWorker.interpret_program (keyPtr : CacheablePtr) :
    interpret client (RemoveWorker.program keyPtr) =
      RemoveWorker.executeGemfireWork client keyPtr := by
  cases keyPtr with
  | none => exact interpret_setError _ _
  | some key =>
    simp only [RemoveWorker.program, CppProgram.interpret_tryCatch, CppProgram.interpret_bind,
      CppProgram.interpret_perform, CppProgram.interpret_pure, RemoveWorker.executeGemfireWork]
    congr 1
    funext exception
    split
    · exact interpret_setError _ _
    · exact CppProgram.interpret_throw client exception

theorem DestroyRegionWorker.interpret_program («local» : Bool) :
    interpret client (DestroyRegionWorker.program «local») =
      DestroyRegionWorker.executeGemfireWork client «local» := by
  cases «local» <;>
  · simp only [DestroyRegionWorker.program, Bool.false_eq_true, if_true, if_false,
      CppProgram.interpret_bind, CppProgram.interpret_perform, CppProgram.interpret_pure]
    rfl

end Interpretations

/-! ### Queued workers -/

/-- A queued worker by its base class, as `Worker` has it, with its native part as a
    program. -/
inductive WorkerProgram
  | gemfire (callback : JsValue)
      (executeGemfireWork : CppProgram (Except JsError (Isolate JsValue)))
  | evented (callback : Option JsValue) (executeGemfireWork : CppProgram (Except JsError Unit))

namespace WorkerProgram

/-- The callback that the worker has, if it has one. -/
def callback : WorkerProgram → Option JsValue
  | .gemfire callback _ => some callback
  | .evented callback _ => callback

def toWorker : WorkerProgram → Worker σ
  | .gemfire callback executeGemfireWork =>
    .gemfire callback (interpret client executeGemfireWork)
  | .evented callback executeGemfireWork =>
    .evented callback (interpret client executeGemfireWork)

/-- `GemfireWorker::Execute`. -/
def execute (executeGemfireWork : CppProgram (Except JsError α)) :
    Program NativeCall NativeCall.Answer (Isolate (Except JsError α)) :=
  executeGemfireWork.attempt fun exception => pure (.error (v8Error exception))

/-- The native part, and what the callback makes of its outcome. -/
def reports : WorkerProgram → Program NativeCall NativeCall.Answer (List Report)
  | .gemfire callback executeGemfireWork =>
    (fun outcome => (handleCallback callback outcome.value).value) <$> execute executeGemfireWork
  | .evented callback executeGemfireWork =>
    (fun outcome => handleEventedCallback callback outcome.value) <$> execute executeGemfireWork

variable {client}

/-- Without interruption, the program reports what the worker reports, and leaves the
    region as the worker leaves it. -/
theorem run_reports (worker : WorkerProgram) (s : Session σ) :
    worker.reports.run client.native s.region =
      (((worker.toWorker client).run s).value.1,
        ((worker.toWorker client).run s).value.2.region) := by
  have hexecute {α : Type} (work : CppProgram (Except JsError α)) :
      (NodeGemfire.execute (interpret client work) s).value =
        (((execute work).run client.native s.region).1.value,
          ⟨((execute work).run client.native s.region).2,
            s.calls ++ (execute work).asked client.native s.region⟩) := by
    rw [NodeGemfire.execute, ← CppProgram.runIn_attempt]
    rfl
  cases worker with
  | gemfire callback work =>
    simp only [reports, Program.run_map, toWorker, Worker.run, Isolate.bind_value,
      Isolate.pure_value, hexecute]
  | evented callback work =>
    simp only [reports, Program.run_map, toWorker, Worker.run, Isolate.bind_value,
      Isolate.pure_value, hexecute]

end WorkerProgram

/-- The worker an asynchronous method queues when it queues one. -/
def AsyncMethod.worker (p : Platform) : AsyncMethod → List JsValue → WorkerProgram
  | .clear, info => .evented (getCallback (arg info 0)) ClearWorker.program
  | .put, info => .evented (getCallback (arg info 2))
      (PutWorker.program (gemfireKey p (arg info 0)).value (gemfireValue p (arg info 1)).value)
  | .get, info => .gemfire (arg info 1) (GetWorker.program p (gemfireKey p (arg info 0)).value)
  | .getAll, info => .gemfire (arg info 1)
      (GetAllWorker.program p (gemfireKeys p (Region.arrayElements (arg info 0))).value)
  | .putAll, info => .evented (getCallback (arg info 1))
      (PutAllWorker.program (gemfireHashMap p (arg info 0)).value)
  | .remove, info => .evented (getCallback (arg info 1))
      (RemoveWorker.program (gemfireKey p (arg info 0)).value)
  | .destroyRegion, info => .evented (getCallback (arg info 0)) (DestroyRegionWorker.program false)
  | .localDestroyRegion, info =>
    .evented (getCallback (arg info 0)) (DestroyRegionWorker.program true)

variable {client}

theorem asyncMethod_value (argumentError : Option String)
    (convert : Isolate (Option (Worker σ))) :
    (Region.asyncMethod argumentError convert).value = none ∨
      (Region.asyncMethod argumentError convert).value = convert.value := by
  cases argumentError with
  | none => exact .inr rfl
  | some message => exact .inl rfl

theorem onOpenCache_value (convert : Isolate (Worker σ)) :
    (Region.onOpenCache client convert).value = none ∨
      (Region.onOpenCache client convert).value = some convert.value := by
  rw [Region.onOpenCache, Isolate.bind_value]
  cases (getCacheFromRegion client).value with
  | false => exact .inl rfl
  | true => exact .inr rfl

theorem asyncMethod_onOpenCache_value (argumentError : Option String)
    (convert : Isolate (Worker σ)) :
    (Region.asyncMethod argumentError (Region.onOpenCache client convert)).value = none ∨
      (Region.asyncMethod argumentError (Region.onOpenCache client convert)).value =
        some convert.value := by
  rcases asyncMethod_value argumentError (Region.onOpenCache client convert) with h | h
  · exact .inl h
  · rw [h]
    exact onOpenCache_value convert

/-- A method queues no worker, or the one with its program. -/
theorem AsyncMethod.call_value (m : AsyncMethod) (info : List JsValue) :
    (m.call client info).value = none ∨
      (m.call client info).value = some ((m.worker client.platform info).toWorker client) := by
  cases m with
  | clear =>
    simp only [worker, WorkerProgram.toWorker, ClearWorker.interpret_program]
    exact asyncMethod_value _ _
  | put =>
    simp only [worker, WorkerProgram.toWorker, PutWorker.interpret_program]
    exact asyncMethod_onOpenCache_value _ _
  | get =>
    simp only [worker, WorkerProgram.toWorker, GetWorker.interpret_program]
    exact asyncMethod_onOpenCache_value _ _
  | getAll =>
    simp only [worker, WorkerProgram.toWorker, GetAllWorker.interpret_program]
    exact asyncMethod_onOpenCache_value _ _
  | putAll =>
    simp only [worker, WorkerProgram.toWorker, PutAllWorker.interpret_program]
    exact asyncMethod_onOpenCache_value _ _
  | remove =>
    simp only [worker, WorkerProgram.toWorker, RemoveWorker.interpret_program]
    exact asyncMethod_onOpenCache_value _ _
  | destroyRegion =>
    simp only [worker, WorkerProgram.toWorker, DestroyRegionWorker.interpret_program]
    exact asyncMethod_value _ _
  | localDestroyRegion =>
    simp only [worker, WorkerProgram.toWorker, DestroyRegionWorker.interpret_program]
    exact asyncMethod_value _ _

/-! ### The synchronous methods -/

section Synchronous

variable (client)

/-- `Nan::ThrowError` and a return of `undefined`. -/
def CppProgram.rejected (message : String) : CppProgram ReturnValue := do
  CppProgram.v8 (nanThrowError message)
  pure .undefined

/-- Throw what the argument checks found, or go on if the cache is open. -/
def CppProgram.syncMethod (argumentError : Option String) (body : CppProgram ReturnValue) :
    CppProgram ReturnValue :=
  match argumentError with
  | some message => CppProgram.rejected message
  | none => do
    if ← CppProgram.v8 (getCacheFromRegion client) then body else pure .undefined

def SyncMethod.putSyncBody (info : List JsValue) : CppProgram ReturnValue := do
  match ← CppProgram.v8 (gemfireKey client.platform (arg info 0)) with
  | none => CppProgram.rejected "Invalid GemFire key."
  | some key =>
    match ← CppProgram.v8 (gemfireValue client.platform (arg info 1)) with
    | none => CppProgram.rejected "Invalid GemFire value."
    | some value => do
      CppProgram.perform (.put key value)
      pure .holder

def SyncMethod.getSyncBody (info : List JsValue) : CppProgram (Option CacheablePtr) :=
  match Region.getSyncError info with
  | some message => do
    CppProgram.v8 (nanThrowError message)
    pure none
  | none => do
    if ← CppProgram.v8 (getCacheFromRegion client) then
      let keyPtr ← CppProgram.v8 (gemfireKey client.platform (arg info 0))
      let valuePtr ← CppProgram.invoke (.get keyPtr)
      pure (some valuePtr)
    else pure none

def SyncMethod.getAllSyncBody (info : List JsValue) : CppProgram ReturnValue := do
  match ← CppProgram.v8 (gemfireKeys client.platform (Region.arrayElements (arg info 0))) with
  | none => CppProgram.rejected "Invalid GemFire key."
  | some gemfireKeys =>
    if gemfireKeys.length = 0 then do
      let value ← CppProgram.v8 (v8ValueHashMap client.platform [])
      pure (.value value)
    else do
      let results ← CppProgram.invoke (.getAll gemfireKeys)
      let value ← CppProgram.v8 (v8ValueHashMap client.platform results)
      pure (.value value)

def SyncMethod.putAllSyncBody (info : List JsValue) : CppProgram ReturnValue := do
  match ← CppProgram.v8 (gemfireHashMap client.platform (arg info 0)) with
  | none => CppProgram.rejected "Invalid GemFire value."
  | some hashMap => do
    CppProgram.perform (.putAll hashMap)
    pure .holder

/-- What `getSync` does with the pointer it has at the end. -/
def SyncMethod.getSyncReturn : Option CacheablePtr → Isolate ReturnValue
  | none => pure .undefined
  | some valuePtr => do
    let value ← v8Value client.platform valuePtr
    pure (.value value)

/-- The synchronous methods, with their native calls as questions. -/
def SyncMethod.program : SyncMethod → List JsValue →
    Program NativeCall NativeCall.Answer (Isolate ReturnValue)
  | .putSync, info => (CppProgram.syncMethod client (Region.putSyncError info)
      (SyncMethod.putSyncBody client info)).attempt Region.caught
  | .getSync, info => (fun found => found >>= SyncMethod.getSyncReturn client) <$>
      (SyncMethod.getSyncBody client info).attempt fun exception => do
        throwGemfireException exception
        pure (some none)
  | .getAllSync, info => (CppProgram.syncMethod client (Region.getAllSyncError info)
      (SyncMethod.getAllSyncBody client info)).attempt Region.caught
  | .putAllSync, info => (CppProgram.syncMethod client (Region.putAllSyncError info)
      (SyncMethod.putAllSyncBody client info)).attempt Region.caught

variable {client}

theorem interpret_rejected (message : String) :
    interpret client (CppProgram.rejected message) = Region.rejected message := by
  simp only [CppProgram.rejected, CppProgram.interpret_bind, CppProgram.interpret_v8,
    CppProgram.interpret_pure]
  rfl

theorem interpret_syncMethod (argumentError : Option String) (body : CppProgram ReturnValue) :
    interpret client (CppProgram.syncMethod client argumentError body) =
      Region.syncMethod client argumentError (interpret client body) := by
  cases argumentError with
  | some message => exact interpret_rejected message
  | none =>
    simp only [CppProgram.syncMethod, CppProgram.interpret_bind, CppProgram.interpret_v8,
      Region.syncMethod]
    congr 1
    funext isOpen
    cases isOpen with
    | false => exact CppProgram.interpret_pure client _
    | true => rfl

theorem runIn_putSync (info : List JsValue) (s : Session σ) :
    runIn client (SyncMethod.program client .putSync info) s = Region.putSync client info s := by
  rw [SyncMethod.program, CppProgram.runIn_attempt, interpret_syncMethod, Region.putSync]
  congr 2
  simp only [SyncMethod.putSyncBody, CppProgram.interpret_bind, CppProgram.interpret_v8]
  congr 1
  funext keyPtr
  cases keyPtr with
  | none => exact interpret_rejected _
  | some key =>
    simp only [CppProgram.interpret_bind, CppProgram.interpret_v8]
    congr 1
    funext valuePtr
    cases valuePtr with
    | none => exact interpret_rejected _
    | some value =>
      simp only [CppProgram.interpret_bind, CppProgram.interpret_perform,
        CppProgram.interpret_pure]

theorem runIn_getAllSync (info : List JsValue) (s : Session σ) :
    runIn client (SyncMethod.program client .getAllSync info) s =
      Region.getAllSync client info s := by
  rw [SyncMethod.program, CppProgram.runIn_attempt, interpret_syncMethod, Region.getAllSync]
  congr 2
  simp only [SyncMethod.getAllSyncBody, CppProgram.interpret_bind, CppProgram.interpret_v8]
  congr 1
  funext gemfireKeysPtr
  cases gemfireKeysPtr with
  | none => exact interpret_rejected _
  | some gemfireKeys =>
    by_cases hempty : gemfireKeys.length = 0
    · simp only [if_pos hempty, CppProgram.interpret_bind, CppProgram.interpret_v8,
        CppProgram.interpret_pure]
    · simp only [if_neg hempty, CppProgram.interpret_bind, CppProgram.interpret_v8,
        CppProgram.interpret_pure]
      rfl

theorem runIn_putAllSync (info : List JsValue) (s : Session σ) :
    runIn client (SyncMethod.program client .putAllSync info) s =
      Region.putAllSync client info s := by
  rw [SyncMethod.program, CppProgram.runIn_attempt, interpret_syncMethod, Region.putAllSync]
  congr 2
  simp only [SyncMethod.putAllSyncBody, CppProgram.interpret_bind, CppProgram.interpret_v8]
  congr 1
  funext hashMapPtr
  cases hashMapPtr with
  | none => exact interpret_rejected _
  | some hashMap =>
    simp only [CppProgram.interpret_bind, CppProgram.interpret_perform, CppProgram.interpret_pure]

theorem runIn_map_bind (f : α → Isolate β)
    (p : Program NativeCall NativeCall.Answer (Isolate α)) (s : Session σ) :
    runIn client ((fun x => x >>= f) <$> p) s =
      runIn client p s >>= fun r => f r.1 >>= fun b => pure (b, r.2) := by
  simp only [runIn, Program.run_map, Program.asked_map, bind_assoc, Isolate.pure_bind]

theorem interpret_getSyncBody (info : List JsValue) :
    interpret client (SyncMethod.getSyncBody client info) =
      (match Region.getSyncError info with
        | some message => do
          Cpp.v8 (nanThrowError message)
          pure none
        | none => do
          if ← Cpp.v8 (getCacheFromRegion client) then
            let keyPtr ← Cpp.v8 (gemfireKey client.platform (arg info 0))
            let valuePtr ← Cpp.invoke client (.get keyPtr)
            pure (some valuePtr)
          else pure none) := by
  rw [SyncMethod.getSyncBody]
  cases Region.getSyncError info with
  | some message =>
    simp only [CppProgram.interpret_bind, CppProgram.interpret_v8, CppProgram.interpret_pure]
  | none =>
    simp only [CppProgram.interpret_bind, CppProgram.interpret_v8]
    congr 1
    funext isOpen
    cases isOpen with
    | false => exact CppProgram.interpret_pure client _
    | true =>
      simp only [if_true, CppProgram.interpret_bind, CppProgram.interpret_v8,
        CppProgram.interpret_pure]
      rfl

theorem runIn_getSync (info : List JsValue) (s : Session σ) :
    runIn client (SyncMethod.program client .getSync info) s = Region.getSync client info s := by
  rw [SyncMethod.program, runIn_map_bind, CppProgram.runIn_attempt, interpret_getSyncBody,
    Region.getSync]
  congr 1
  funext r
  obtain ⟨found, s'⟩ := r
  cases found with
  | none => rfl
  | some valuePtr => simp only [SyncMethod.getSyncReturn, bind_assoc, Isolate.pure_bind]

/-- Every synchronous method runs its program. -/
theorem SyncMethod.runIn_program (m : SyncMethod) (info : List JsValue) (s : Session σ) :
    runIn client (m.program client info) s = m.call client info s := by
  cases m with
  | putSync => exact runIn_putSync info s
  | getSync => exact runIn_getSync info s
  | getAllSync => exact runIn_getAllSync info s
  | putAllSync => exact runIn_putAllSync info s

end Synchronous

/-! ### How many native calls -/

namespace CppProgram

variable {x : CppProgram α} {n m : ℕ}

theorem asksAtMost_pure (a : α) : Program.AsksAtMost (pure a : CppProgram α) n :=
  Program.asksAtMost_done _ n

theorem asksAtMost_v8 (i : Isolate α) : Program.AsksAtMost (v8 i) n :=
  Program.asksAtMost_done _ n

theorem asksAtMost_andThen
    {next : Except GeodeException α → Program NativeCall NativeCall.Answer (Isolate β)}
    (hx : Program.AsksAtMost x n) (hnext : ∀ r, (next r).AsksAtMost m) :
    (x.andThen next).AsksAtMost (n + m) :=
  Program.AsksAtMost.bind hx fun i =>
    Program.AsksAtMost.bind (m := 0) (hnext i.value) fun _ => Program.asksAtMost_done _ 0

theorem asksAtMost_bind {f : α → CppProgram β} (hx : Program.AsksAtMost x n)
    (hf : ∀ a, Program.AsksAtMost (f a) m) :
    Program.AsksAtMost (x >>= f : CppProgram β) (n + m) := by
  refine asksAtMost_andThen hx fun r => ?_
  cases r with
  | ok a => exact hf a
  | error exception => exact Program.asksAtMost_done _ m

/-- What only V8 is called for comes before the call of the client. -/
theorem asksAtMost_v8_bind {i : Isolate α} {f : α → CppProgram β}
    (hf : ∀ a, Program.AsksAtMost (f a) 1) :
    Program.AsksAtMost (v8 i >>= f : CppProgram β) 1 :=
  asksAtMost_bind (n := 0) (asksAtMost_v8 i) hf

theorem asksAtMost_invoke (call : NativeCall) : Program.AsksAtMost (invoke call) 1 :=
  fun _ => Program.asksAtMost_done _ 0

/-- The client is called, and then only V8. -/
theorem asksAtMost_invoke_bind {call : NativeCall} {f : call.Result → CppProgram β}
    (hf : ∀ a, Program.AsksAtMost (f a) 0) :
    Program.AsksAtMost (invoke call >>= f : CppProgram β) 1 :=
  asksAtMost_bind (m := 0) (asksAtMost_invoke call) hf

theorem asksAtMost_perform (call : NativeCall) : Program.AsksAtMost (perform call) 1 :=
  asksAtMost_invoke_bind fun _ => asksAtMost_pure ()

/-- The client is called for the effect, and that is all. -/
theorem asksAtMost_perform_pure (call : NativeCall) (a : α) :
    Program.AsksAtMost (do perform call; pure a : CppProgram α) 1 :=
  asksAtMost_bind (m := 0) (asksAtMost_perform call) fun _ => asksAtMost_pure a

theorem asksAtMost_attempt (hx : Program.AsksAtMost x n)
    (caught : GeodeException → Isolate α) : (x.attempt caught).AsksAtMost n := by
  refine asksAtMost_andThen (m := 0) hx fun r => ?_
  cases r with
  | ok a => exact Program.asksAtMost_done _ 0
  | error exception => exact Program.asksAtMost_done _ 0

theorem asksAtMost_rejected (message : String) : Program.AsksAtMost (rejected message) n :=
  (asksAtMost_bind (n := 0) (m := 0) (asksAtMost_v8 _) fun _ => asksAtMost_pure _).mono
    (Nat.zero_le n)

theorem asksAtMost_syncMethod (argumentError : Option String) {body : CppProgram ReturnValue}
    (hbody : Program.AsksAtMost body 1) :
    Program.AsksAtMost (syncMethod client argumentError body) 1 := by
  cases argumentError with
  | some message => exact asksAtMost_rejected message
  | none =>
    refine asksAtMost_v8_bind fun isOpen => ?_
    cases isOpen with
    | false => exact asksAtMost_pure _
    | true => exact hbody

end CppProgram

open CppProgram

/-- `ClearWorker` makes two native calls, every other worker one, or none. -/
theorem AsyncMethod.asksAtMost_worker (p : Platform) (m : AsyncMethod) (info : List JsValue) :
    (m.worker p info).reports.AsksAtMost (if m = .clear then 2 else 1) := by
  cases m with
  | clear =>
    refine (asksAtMost_attempt ?_ _).map _
    exact asksAtMost_bind (n := 1) (asksAtMost_perform _) fun _ => asksAtMost_perform_pure _ _
  | put =>
    refine (asksAtMost_attempt ?_ _).map _
    rw [PutWorker.program.eq_def]
    split
    · exact asksAtMost_pure _
    · exact asksAtMost_pure _
    · exact asksAtMost_perform_pure _ _
  | get =>
    refine (asksAtMost_attempt ?_ _).map _
    rw [GetWorker.program.eq_def]
    split
    · exact asksAtMost_pure _
    · exact asksAtMost_invoke_bind fun _ => asksAtMost_pure _
  | getAll =>
    refine (asksAtMost_attempt ?_ _).map _
    rw [GetAllWorker.program.eq_def]
    split
    · exact asksAtMost_pure _
    · split
      · exact asksAtMost_pure _
      · exact asksAtMost_invoke_bind fun _ => asksAtMost_pure _
  | putAll =>
    refine (asksAtMost_attempt ?_ _).map _
    rw [PutAllWorker.program.eq_def]
    split
    · exact asksAtMost_pure _
    · exact asksAtMost_perform_pure _ _
  | remove =>
    refine (asksAtMost_attempt ?_ _).map _
    rw [RemoveWorker.program.eq_def]
    split
    · exact asksAtMost_pure _
    · -- the handler of the exception does not call the client again
      refine asksAtMost_andThen (m := 0) (asksAtMost_perform_pure _ _) fun r => ?_
      cases r with
      | ok a => exact Program.asksAtMost_done _ 0
      | error exception =>
        by_cases hnotFound : isEntryNotFoundException exception
        · simp only [if_pos hnotFound]
          exact asksAtMost_pure _
        · simp only [if_neg hnotFound]
          exact Program.asksAtMost_done _ 0
  | destroyRegion | localDestroyRegion =>
    exact (asksAtMost_attempt (asksAtMost_perform_pure _ _) _).map _

/-- A synchronous method makes one native call, or none. -/
theorem SyncMethod.asksAtMost_program (m : SyncMethod) (info : List JsValue) :
    (m.program client info).AsksAtMost 1 := by
  cases m with
  | putSync =>
    refine asksAtMost_attempt (asksAtMost_syncMethod _ ?_) _
    refine asksAtMost_v8_bind fun keyPtr => ?_
    cases keyPtr with
    | none => exact asksAtMost_rejected _
    | some key =>
      refine asksAtMost_v8_bind fun valuePtr => ?_
      cases valuePtr with
      | none => exact asksAtMost_rejected _
      | some value => exact asksAtMost_perform_pure _ _
  | getSync =>
    refine (asksAtMost_attempt ?_ _).map _
    rw [SyncMethod.getSyncBody]
    split
    · exact asksAtMost_v8_bind fun _ => asksAtMost_pure _
    · refine asksAtMost_v8_bind fun isOpen => ?_
      cases isOpen with
      | false => exact asksAtMost_pure _
      | true =>
        exact asksAtMost_v8_bind fun keyPtr => asksAtMost_invoke_bind fun _ => asksAtMost_pure _
  | getAllSync =>
    refine asksAtMost_attempt (asksAtMost_syncMethod _ ?_) _
    refine asksAtMost_v8_bind fun gemfireKeysPtr => ?_
    cases gemfireKeysPtr with
    | none => exact asksAtMost_rejected _
    | some gemfireKeys =>
      by_cases hempty : gemfireKeys.length = 0
      · simp only [if_pos hempty]
        exact asksAtMost_v8_bind fun _ => asksAtMost_pure _
      · simp only [if_neg hempty]
        refine asksAtMost_invoke_bind fun _ => ?_
        exact asksAtMost_bind (n := 0) (m := 0) (asksAtMost_v8 _) fun _ => asksAtMost_pure _
  | putAllSync =>
    refine asksAtMost_attempt (asksAtMost_syncMethod _ ?_) _
    refine asksAtMost_v8_bind fun hashMapPtr => ?_
    cases hashMapPtr with
    | none => exact asksAtMost_rejected _
    | some hashMap => exact asksAtMost_perform_pure _ _

end NodeGemfire
