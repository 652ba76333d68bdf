import NodeGemfire.Conversions.Serializable

/-!
# Calls of the native client

The operations of the native client that region methods and function execution
call, as one type, and the C++ code that calls them. The client itself is a
parameter: any function from a call and a state to an outcome and a state.

## Main definitions

- `NativeCall` — the operations with their arguments
- `Client` — the native client, for one region
- `Cpp` — C++ code: native calls, GemFire exceptions, and what it asks of V8
-/

namespace NodeGemfire

/-! ### The operations -/

/-- Where a function runs, for `FunctionService::onRegion` and `onServer`. -/
inductive ExecutionTarget
  | region
  | pool (poolName : Option Bytes)
  deriving DecidableEq

/-- An `Execution` with what its builder methods have set. -/
structure Execution where
  target : ExecutionTarget
  args : CacheablePtr
  filter : Option CacheableVector
  withCollector : Bool

inductive NativeCall
  | put (key value : Cacheable)
  | get (key : CacheablePtr)
  | getAll (keys : List Cacheable)
  | putAll (entries : HashMapOfCacheable)
  | destroy (key : Cacheable)
  | getRegionService
  | clear
  | destroyRegion
  | localDestroyRegion
  | getPool (poolName : Option Bytes)
  | onTarget (target : ExecutionTarget)
  | withArgs (execution : Execution) (args : Cacheable)
  | withFilter (execution : Execution) (filter : CacheableVector)
  | withCollector (execution : Execution)
  | execute (execution : Execution) (functionName : Bytes)
  | getResult

/-- What an operation returns when it throws nothing. `getPool` tells whether the
    pool was found. -/
abbrev NativeCall.Result : NativeCall → Type
  | .get _ => CacheablePtr
  | .getAll _ => HashMapOfCacheable
  | .getPool _ => Bool
  | .onTarget _ | .withArgs _ _ | .withFilter _ _ | .withCollector _ => Execution
  | .getResult => CacheableVector
  | _ => Unit

/-- What `CacheFactory::getAnyInstance` gives and what `isClosed` says of it, or
    the `RegionDestroyedException` thrown on the way. -/
inductive AnyInstance
  | null
  | closed
  | opened
  | regionDestroyed (exception : GeodeException)
  deriving DecidableEq

/-- The native client as the methods of one region see it; `σ` is the state of
    the region and of all else the operations depend on. -/
structure Client (σ : Type) where
  platform : Platform
  anyInstance : AnyInstance
  getName : String
  native : (call : NativeCall) → σ → Except GeodeException call.Result × σ

/-- A client that keeps the entries of the region in a list and answers every
    function execution with no results. -/
def memoryClient : Client HashMapOfCacheable where
  platform := nativeClient
  anyInstance := .opened
  getName := "exampleRegion"
  native
    | .put key value, entries =>
      (.ok (), entries.filter (!sameString ·.name (some key)) ++ [⟨some key, some value⟩])
    | .get none, entries =>
      (.error ⟨"apache::geode::client::IllegalArgumentException", "Region::get: key is null"⟩,
        entries)
    | .get (some key), entries =>
      (.ok ((entries.find? (sameString ·.name (some key))).bind (·.value)), entries)
    | .getAll keys, entries =>
      (.ok ((keys.pwFilter fun key key' => !sameString (some key) (some key')).map fun key =>
        ⟨some key, (entries.find? (sameString ·.name (some key))).bind (·.value)⟩), entries)
    | .putAll hashMap, entries =>
      (.ok (), entries.filter (fun entry => !hashMap.any (sameString ·.name entry.name)) ++ hashMap)
    | .destroy key, entries =>
      if entries.any (sameString ·.name (some key)) then
        (.ok (), entries.filter (!sameString ·.name (some key)))
      else
        (.error ⟨"apache::geode::client::EntryNotFoundException", "Region::destroy: no such key"⟩,
          entries)
    | .getRegionService, entries => (.ok (), entries)
    | .clear, _ | .destroyRegion, _ | .localDestroyRegion, _ => (.ok (), [])
    | .getPool _, entries => (.ok true, entries)
    | .onTarget target, entries => (.ok ⟨target, none, none, false⟩, entries)
    | .withArgs execution args, entries => (.ok { execution with args := some args }, entries)
    | .withFilter execution filter, entries =>
      (.ok { execution with filter := some filter }, entries)
    | .withCollector execution, entries => (.ok { execution with withCollector := true }, entries)
    | .execute _ _, entries => (.ok (), entries)
    | .getResult, entries => (.ok [], entries)

/-! ### C++ code -/

/-- The state of the client, and the calls it has received, in order. -/
structure Session (σ : Type) where
  region : σ
  calls : List NativeCall

/-- The session of a client that has received no calls yet. -/
def Session.start {σ : Type} (region : σ) : Session σ := ⟨region, []⟩

/-- C++ code that calls the client, may throw a GemFire exception, and leaves
    its trace in the isolate. -/
abbrev Cpp (σ : Type) : Type → Type := ExceptT GeodeException (StateT (Session σ) Isolate)

namespace Cpp

variable {σ α β : Type}

def runOn (x : Cpp σ α) (s : Session σ) : Isolate (Except GeodeException α × Session σ) := x.run s

/-- Call V8 only. -/
def v8 (x : Isolate α) : Cpp σ α := ExceptT.mk fun s => do
  let a ← x
  pure (.ok a, s)

/-- Call the client. -/
def invoke (client : Client σ) (call : NativeCall) : Cpp σ call.Result := ExceptT.mk fun s =>
  let (result, region) := client.native call s.region
  pure (result, ⟨region, s.calls ++ [call]⟩)

/-- Call the client for the effect only. -/
def perform (client : Client σ) (call : NativeCall) : Cpp σ Unit := do
  let _ ← invoke client call
  pure ()

@[simp] theorem runOn_v8 (x : Isolate α) (s : Session σ) :
    (v8 x : Cpp σ α).runOn s = x >>= fun a => pure (.ok a, s) := rfl

@[simp] theorem runOn_invoke (client : Client σ) (call : NativeCall) (s : Session σ) :
    (invoke client call).runOn s = pure ((client.native call s.region).1,
      ⟨(client.native call s.region).2, s.calls ++ [call]⟩) := rfl

@[simp] theorem runOn_bind (x : Cpp σ α) (f : α → Cpp σ β) (s : Session σ) :
    (x >>= f).runOn s = x.runOn s >>= fun r => match r with
      | (.ok a, s') => (f a).runOn s'
      | (.error exception, s') => pure (.error exception, s') := by
  change (x.runOn s >>= fun r => ExceptT.bindCont f r.1 r.2) = _
  congr 1
  funext ⟨r, s'⟩
  cases r <;> rfl

@[simp] theorem runOn_perform (client : Client σ) (call : NativeCall) (s : Session σ) :
    (perform client call).runOn s = pure ((client.native call s.region).1.map fun _ => (),
      ⟨(client.native call s.region).2, s.calls ++ [call]⟩) := by
  rw [perform, runOn_bind, runOn_invoke, Isolate.pure_bind]
  cases (client.native call s.region).1 <;> rfl

@[simp] theorem runOn_tryCatch (x : Cpp σ α) (handler : GeodeException → Cpp σ α) (s : Session σ) :
    (tryCatch x handler).runOn s = x.runOn s >>= fun r => match r with
      | (.ok a, s') => pure (.ok a, s')
      | (.error exception, s') => (handler exception).runOn s' := by
  simp only [runOn, ExceptT.run, tryCatch, tryCatchThe, MonadExceptOf.tryCatch, ExceptT.tryCatch,
    ExceptT.mk, bind, StateT.bind]
  obtain ⟨⟨r, s'⟩, thrown, warned⟩ := x s
  cases r <;> rfl

/-- `try` around all of a body that JavaScript or a worker thread calls: nothing
    but the result and the session gets out. -/
def attempt (body : Cpp σ α) (caught : GeodeException → Isolate α) (s : Session σ) :
    Isolate (α × Session σ) := do
  match ← body.runOn s with
  | (.ok a, s') => pure (a, s')
  | (.error exception, s') => do
    let a ← caught exception
    pure (a, s')

end Cpp

/-! ### What a region method starts with -/

variable {σ : Type} (client : Client σ)

/-- Whether the pointer `getCacheFromRegion` returns is not `NULLPTR`; if it is,
    an exception has been scheduled. -/
def getCacheFromRegion : Isolate Bool :=
  match client.anyInstance with
  | .opened => pure true
  | .null | .closed => do
    nanThrowError ("Region name " ++ client.getName ++ " is invalid because the Cache is Closed.")
    pure false
  | .regionDestroyed exception => do
    throwGemfireException exception
    pure false

theorem getCacheFromRegion_of_not_opened (h : client.anyInstance ≠ .opened) :
    (getCacheFromRegion client).value = false ∧ (getCacheFromRegion client).thrown ≠ [] := by
  unfold getCacheFromRegion
  cases hc : client.anyInstance <;> simp_all

/-- `info[i]`: the arguments not passed read as `undefined`. -/
def arg (info : List JsValue) (i : ℕ) : JsValue := info.getD i .undefined

end NodeGemfire
