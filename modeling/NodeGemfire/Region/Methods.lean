import NodeGemfire.Region.Worker

/-!
# The methods of a region

Each asynchronous method checks its arguments, most of them check that the cache
is open, the arguments are converted, and a worker is queued. Each synchronous
method does the same and the native part at once.

## Main definitions

- `Region.asyncMethod` — the common course of the asynchronous methods
- `Region.put`, `Region.putSync` and the other methods
-/

namespace NodeGemfire

variable {σ : Type} (client : Client σ)

def isFunctionOrUndefined (value : JsValue) : Bool := value.isUndefined || value.isFunction

/-- `NULL` where no callback was passed. -/
def getCallback (value : JsValue) : Option JsValue :=
  if value.isUndefined then none else some value

/-- What a method called from JavaScript returns. -/
inductive ReturnValue
  | undefined
  | holder
  | value (value : JsValue)

/-! ### The native part of the workers -/

def ClearWorker.executeGemfireWork : Cpp σ (Except JsError Unit) := do
  Cpp.perform client .getRegionService
  Cpp.perform client .clear
  pure (.ok ())

def PutWorker.executeGemfireWork (keyPtr valuePtr : CacheablePtr) : Cpp σ (Except JsError Unit) :=
  match keyPtr, valuePtr with
  | none, _ => setError "InvalidKeyError" "Invalid GemFire key."
  | some _, none => setError "InvalidValueError" "Invalid GemFire value."
  | some key, some value => do
    Cpp.perform client (.put key value)
    pure (.ok ())

def GetWorker.executeGemfireWork : CacheablePtr → Cpp σ (Except JsError (Isolate JsValue))
  | none => setError "InvalidKeyError" "Invalid GemFire key."
  | some key => do
    let valuePtr ← Cpp.invoke client (.get (some key))
    pure (.ok (v8Value client.platform valuePtr))

def GetAllWorker.executeGemfireWork :
    Option (List Cacheable) → Cpp σ (Except JsError (Isolate JsValue))
  | none => setError "InvalidKeyError" "Invalid GemFire key."
  | some gemfireKeys =>
    if gemfireKeys.length = 0 then
      pure (.ok (v8ValueHashMap client.platform []))
    else do
      let results ← Cpp.invoke client (.getAll gemfireKeys)
      pure (.ok (v8ValueHashMap client.platform results))

def PutAllWorker.executeGemfireWork : Option HashMapOfCacheable → Cpp σ (Except JsError Unit)
  | none => setError "InvalidValueError" "Invalid GemFire value."
  | some hashMap => do
    Cpp.perform client (.putAll hashMap)
    pure (.ok ())

def isEntryNotFoundException (exception : GeodeException) : Bool :=
  exception.name = "apache::geode::client::EntryNotFoundException"

def RemoveWorker.executeGemfireWork : CacheablePtr → Cpp σ (Except JsError Unit)
  | none => setError "InvalidKeyError" "Invalid GemFire key."
  | some key =>
    tryCatch
      (do
        Cpp.perform client (.destroy key)
        pure (.ok ()))
      (fun exception =>
        if isEntryNotFoundException exception then
          setError "KeyNotFoundError" "Key not found in region."
        else throw exception)

def DestroyRegionWorker.executeGemfireWork («local» : Bool) : Cpp σ (Except JsError Unit) := do
  if «local» then Cpp.perform client .localDestroyRegion else Cpp.perform client .destroyRegion
  pure (.ok ())

namespace Region

/-! ### The argument checks

What the checks at the head of a method throw, if they throw. -/

def callbackError (name : String) (value : JsValue) : Option String :=
  if isFunctionOrUndefined value then none
  else some ("You must pass a function as the callback to " ++ name ++ ".")

def putError (info : List JsValue) : Option String :=
  if info.length < 2 then some "You must pass a key and value to put()."
  else callbackError "put()" (arg info 2)

def putSyncError (info : List JsValue) : Option String :=
  if info.length ≠ 2 then some "You must pass a key and value to putSync()." else none

def getError (info : List JsValue) : Option String :=
  if info.length ≠ 2 then some "You must pass a key and a callback to get()."
  else if (arg info 1).isFunction then none
  else some "You must pass a function as the callback to get()."

def getSyncError (info : List JsValue) : Option String :=
  if info.length = 0 then some "You must pass a key to getSync()." else none

def getAllError (info : List JsValue) : Option String :=
  if info.length = 0 || !(arg info 0).isArray then
    some "You must pass an array of keys and a callback to getAll()."
  else if info.length = 1 then some "You must pass a callback to getAll()."
  else if (arg info 1).isFunction then none
  else some "You must pass a function as the callback to getAll()."

def getAllSyncError (info : List JsValue) : Option String :=
  if info.length ≠ 1 || !(arg info 0).isArray then
    some "You must pass an array of keys to getAllSync()."
  else none

def putAllError (info : List JsValue) : Option String :=
  if info.length = 0 || !(arg info 0).isObject then
    some "You must pass an object and a callback to putAll()."
  else callbackError "putAll()" (arg info 1)

def putAllSyncError (info : List JsValue) : Option String :=
  if info.length ≠ 1 || !(arg info 0).isObject then
    some "You must pass an object to putAllSync()."
  else none

def removeError (info : List JsValue) : Option String :=
  if info.length < 1 then some "You must pass a key to remove()."
  else callbackError "remove()" (arg info 1)

/-- `Local<Array>::Cast`. -/
def arrayElements : JsValue → List (Option JsValue)
  | .array elements _ => elements
  | _ => []

/-! ### The asynchronous methods -/

/-- Throw what the argument checks found, or convert and queue the worker. -/
def asyncMethod (argumentError : Option String) (convert : Isolate (Option (Worker σ))) :
    Isolate (Option (Worker σ)) :=
  match argumentError with
  | some message => do
    nanThrowError message
    pure none
  | none => convert

/-- Queue the worker if the cache is open; if not, `getCacheFromRegion` has thrown. -/
def onOpenCache (convert : Isolate (Worker σ)) : Isolate (Option (Worker σ)) := do
  if ← getCacheFromRegion client then
    let worker ← convert
    pure (some worker)
  else pure none

def clear (info : List JsValue) : Isolate (Option (Worker σ)) :=
  asyncMethod (callbackError "clear()" (arg info 0)) do
    pure (some (.evented (getCallback (arg info 0)) (ClearWorker.executeGemfireWork client)))

def put (info : List JsValue) : Isolate (Option (Worker σ)) :=
  asyncMethod (putError info) <| onOpenCache client do
    let keyPtr ← gemfireKey client.platform (arg info 0)
    let valuePtr ← gemfireValue client.platform (arg info 1)
    pure (.evented (getCallback (arg info 2)) (PutWorker.executeGemfireWork client keyPtr valuePtr))

def get (info : List JsValue) : Isolate (Option (Worker σ)) :=
  asyncMethod (getError info) <| onOpenCache client do
    let keyPtr ← gemfireKey client.platform (arg info 0)
    pure (.gemfire (arg info 1) (GetWorker.executeGemfireWork client keyPtr))

def getAll (info : List JsValue) : Isolate (Option (Worker σ)) :=
  asyncMethod (getAllError info) <| onOpenCache client do
    let gemfireKeysPtr ← gemfireKeys client.platform (arrayElements (arg info 0))
    pure (.gemfire (arg info 1) (GetAllWorker.executeGemfireWork client gemfireKeysPtr))

def putAll (info : List JsValue) : Isolate (Option (Worker σ)) :=
  asyncMethod (putAllError info) <| onOpenCache client do
    let hashMapPtr ← gemfireHashMap client.platform (arg info 0)
    pure (.evented (getCallback (arg info 1)) (PutAllWorker.executeGemfireWork client hashMapPtr))

def remove (info : List JsValue) : Isolate (Option (Worker σ)) :=
  asyncMethod (removeError info) <| onOpenCache client do
    let keyPtr ← gemfireKey client.platform (arg info 0)
    pure (.evented (getCallback (arg info 1)) (RemoveWorker.executeGemfireWork client keyPtr))

def destroyRegion (info : List JsValue) : Isolate (Option (Worker σ)) :=
  asyncMethod (callbackError "destroyRegion()" (arg info 0)) do
    pure (some (.evented (getCallback (arg info 0))
      (DestroyRegionWorker.executeGemfireWork client false)))

def localDestroyRegion (info : List JsValue) : Isolate (Option (Worker σ)) :=
  asyncMethod (callbackError "localDestroyRegion()" (arg info 0)) do
    pure (some (.evented (getCallback (arg info 0))
      (DestroyRegionWorker.executeGemfireWork client true)))

/-! ### The synchronous methods -/

/-- `Nan::ThrowError` and a return of `undefined`. -/
def rejected (message : String) : Cpp σ ReturnValue := do
  Cpp.v8 (nanThrowError message)
  pure .undefined

/-- The `catch` at the end of a synchronous method. -/
def caught (exception : GeodeException) : Isolate ReturnValue := do
  throwGemfireException exception
  pure .undefined

/-- Throw what the argument checks found, or go on if the cache is open. -/
def syncMethod (argumentError : Option String) (body : Cpp σ ReturnValue) : Cpp σ ReturnValue :=
  match argumentError with
  | some message => rejected message
  | none => do
    if ← Cpp.v8 (getCacheFromRegion client) then body else pure .undefined

def putSync (info : List JsValue) : Session σ → Isolate (ReturnValue × Session σ) :=
  Cpp.attempt
    (syncMethod client (putSyncError info) do
      match ← Cpp.v8 (gemfireKey client.platform (arg info 0)) with
      | none => rejected "Invalid GemFire key."
      | some key =>
        match ← Cpp.v8 (gemfireValue client.platform (arg info 1)) with
        | none => rejected "Invalid GemFire value."
        | some value => do
          Cpp.perform client (.put key value)
          pure .holder)
    caught

/-- The key is not compared with `NULLPTR`, and an exception leaves `valuePtr` as
    it was initialized. -/
def getSync (info : List JsValue) : Session σ → Isolate (ReturnValue × Session σ) := fun s => do
  let (found, s') ← Cpp.attempt
    (match getSyncError info with
      | some message => do
        Cpp.v8 (nanThrowError message)
        pure none
      | none => do
        if ← Cpp.v8 (getCacheFromRegion client) then
          let keyPtr ← Cpp.v8 (gemfireKey client.platform (arg info 0))
          let valuePtr ← Cpp.invoke client (.get keyPtr)
          pure (some valuePtr)
        else pure none)
    (fun exception => do
      throwGemfireException exception
      pure (some none))
    s
  match found with
  | none => pure (.undefined, s')
  | some valuePtr => do
    let value ← v8Value client.platform valuePtr
    pure (.value value, s')

def getAllSync (info : List JsValue) : Session σ → Isolate (ReturnValue × Session σ) :=
  Cpp.attempt
    (syncMethod client (getAllSyncError info) do
      match ← Cpp.v8 (gemfireKeys client.platform (arrayElements (arg info 0))) with
      | none => rejected "Invalid GemFire key."
      | some gemfireKeys =>
        if gemfireKeys.length = 0 then do
          let value ← Cpp.v8 (v8ValueHashMap client.platform [])
          pure (.value value)
        else do
          let results ← Cpp.invoke client (.getAll gemfireKeys)
          let value ← Cpp.v8 (v8ValueHashMap client.platform results)
          pure (.value value))
    caught

def putAllSync (info : List JsValue) : Session σ → Isolate (ReturnValue × Session σ) :=
  Cpp.attempt
    (syncMethod client (putAllSyncError info) do
      match ← Cpp.v8 (gemfireHashMap client.platform (arg info 0)) with
      | none => rejected "Invalid GemFire value."
      | some hashMap => do
        Cpp.perform client (.putAll hashMap)
        pure .holder)
    caught

end Region

/-! ### The methods by name -/

/-- The methods of the prototype that queue a `Worker`. -/
inductive AsyncMethod
  | clear
  | put
  | get
  | getAll
  | putAll
  | remove
  | destroyRegion
  | localDestroyRegion
  deriving DecidableEq

inductive SyncMethod
  | putSync
  | getSync
  | getAllSync
  | putAllSync
  deriving DecidableEq

open Region

def AsyncMethod.argumentError : AsyncMethod → List JsValue → Option String
  | .clear, info => callbackError "clear()" (arg info 0)
  | .put, info => putError info
  | .get, info => getError info
  | .getAll, info => getAllError info
  | .putAll, info => putAllError info
  | .remove, info => removeError info
  | .destroyRegion, info => callbackError "destroyRegion()" (arg info 0)
  | .localDestroyRegion, info => callbackError "localDestroyRegion()" (arg info 0)

def AsyncMethod.call : AsyncMethod → List JsValue → Isolate (Option (Worker σ))
  | .clear => Region.clear client
  | .put => Region.put client
  | .get => Region.get client
  | .getAll => Region.getAll client
  | .putAll => Region.putAll client
  | .remove => Region.remove client
  | .destroyRegion => Region.destroyRegion client
  | .localDestroyRegion => Region.localDestroyRegion client

def SyncMethod.argumentError : SyncMethod → List JsValue → Option String
  | .putSync => putSyncError
  | .getSync => getSyncError
  | .getAllSync => getAllSyncError
  | .putAllSync => putAllSyncError

def SyncMethod.call : SyncMethod → List JsValue → Session σ → Isolate (ReturnValue × Session σ)
  | .putSync => Region.putSync client
  | .getSync => Region.getSync client
  | .getAllSync => Region.getAllSync client
  | .putAllSync => Region.putAllSync client

/-- What a call and the worker it may queue lead to: what the call throws and
    returns, the reports that follow it, and the session in the end. -/
structure Outcome (σ : Type) where
  thrown : List JsError
  returned : ReturnValue
  reports : List Report
  session : Session σ

/-- The call, and then its worker in the session `s`. -/
def AsyncMethod.perform (m : AsyncMethod) (info : List JsValue) (s : Session σ) : Outcome σ :=
  let call := m.call client info
  let (reports, s') := (afterwards call s).value
  ⟨call.thrown, if call.value.isSome then .holder else .undefined, reports, s'⟩

def SyncMethod.perform (m : SyncMethod) (info : List JsValue) (s : Session σ) : Outcome σ :=
  let call := m.call client info s
  ⟨call.thrown, call.value.1, [], call.value.2⟩

namespace Outcome

/-- The call throws, or its worker reports an error. -/
def reportsFailure (o : Outcome σ) : Bool := !o.thrown.isEmpty || o.reports.any (·.isFailure)

/-- The worker calls the callback without an error, or nothing is heard of the
    call after it has returned without an exception. -/
def reportsSuccess (o : Outcome σ) : Bool :=
  o.reports.any (!·.isFailure) || (o.thrown.isEmpty && o.reports.isEmpty)

end Outcome

end NodeGemfire
