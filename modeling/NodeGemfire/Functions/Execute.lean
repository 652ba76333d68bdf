import NodeGemfire.Region.Methods

/-!
# Function execution

`executeFunction`, for regions and for caches: its arguments are read, converted,
and then the function is executed at once or by a worker that streams the
results to an emitter. The streaming itself is in `Functions.ResultStream`.

## Main definitions

- `FunctionOptions` — what the arguments of `executeFunction` say
- `ExecuteFunctionWorker` — the worker, with its native part
- `executeFunction`, `Region.executeFunction`, `Cache.executeFunction`
-/

namespace NodeGemfire

variable {σ : Type} (client : Client σ)

/-- `*Nan::Utf8String` as the native client reads it. -/
def utf8String (value : JsString) : Bytes := cString (Unicode.utf8OfUtf16 value)

/-! ### The arguments -/

/-- What the second argument of `executeFunction` says; the function arguments
    and the filter are `none` where they are empty or `undefined`. -/
structure FunctionOptions where
  functionArguments : Option JsValue
  functionFilter : Option (List (Option JsValue))
  synchronousFlag : Bool

/-- `none` for `undefined`. -/
def definedValue (value : JsValue) : Option JsValue :=
  if value.isUndefined then none else some value

def FunctionOptions.read (options : JsValue) : Except String FunctionOptions :=
  if options.isArray then .ok ⟨some options, none, false⟩
  else if options.isObject then
    let v8FunctionFilter := options.get (.ofAscii "filter")
    let v8SynchronousFlag := options.get (.ofAscii "synchronous")
    if !v8FunctionFilter.isArray && !v8FunctionFilter.isUndefined then
      .error "You must pass an Array of keys as the filter for executeFunction()."
    else if !v8SynchronousFlag.isBoolean && !v8SynchronousFlag.isUndefined then
      .error "You must pass true or false for the synchronous option for executeFunction()."
    else
      .ok ⟨definedValue (options.get (.ofAscii "arguments")),
        (definedValue v8FunctionFilter).map Region.arrayElements,
        match v8SynchronousFlag with
        | .boolean value => value
        | _ => false⟩
  else if !options.isUndefined then
    .error "You must pass either an Array of arguments or an options Object to executeFunction()."
  else .ok ⟨none, none, false⟩

/-- The function name and the options, or what is thrown for them. -/
def readFunctionInfo (info : List JsValue) : Except String (Bytes × FunctionOptions) :=
  match arg info 0 with
  | .string name =>
    (FunctionOptions.read (arg info 1)).map fun options => (utf8String name, options)
  | _ => .error "You must provide the name of a function to execute."

/-! ### The worker -/

structure ExecuteFunctionWorker where
  executionPtr : Execution
  functionName : Bytes
  functionArguments : CacheablePtr
  functionFilter : Option CacheableVector

/-- `withArgs` where there are arguments. -/
def applyArgs (executionPtr : Execution) : CacheablePtr → Cpp σ Execution
  | none => pure executionPtr
  | some functionArguments => Cpp.invoke client (.withArgs executionPtr functionArguments)

/-- `withFilter` where there is a filter. -/
def applyFilter (executionPtr : Execution) : Option CacheableVector → Cpp σ Execution
  | none => pure executionPtr
  | some functionFilter => Cpp.invoke client (.withFilter executionPtr functionFilter)

/-- `ExecuteFunctionWorker::Execute`: the exception it records, if any. -/
def ExecuteFunctionWorker.execute (worker : ExecuteFunctionWorker) :
    Session σ → Isolate (Option GeodeException × Session σ) :=
  Cpp.attempt
    (do
      let executionPtr ← applyArgs client worker.executionPtr worker.functionArguments
      let executionPtr ← applyFilter client executionPtr worker.functionFilter
      let executionPtr ← Cpp.invoke client (.withCollector executionPtr)
      Cpp.perform client (.execute executionPtr worker.functionName)
      pure none)
    (fun exception => pure (some exception))

/-! ### The synchronous execution -/

/-- What the native client throws when a pointer that is `NULLPTR` is used. -/
def nullPointerException : GeodeException :=
  ⟨"apache::geode::client::NullPointerException", "Null pointer"⟩

def dereference (executionPtr : Option Execution) : Cpp σ Execution :=
  match executionPtr with
  | none => throw nullPointerException
  | some execution => pure execution

/-- The pointer is set by `withArgs` only; without arguments it stays `NULLPTR`. -/
def synchronousArgs (executionPtr : Execution) : CacheablePtr → Cpp σ (Option Execution)
  | none => pure none
  | some functionArguments => do
    let execution ← Cpp.invoke client (.withArgs executionPtr functionArguments)
    pure (some execution)

def synchronousFilter (synchronousExecutionPtr : Option Execution) :
    Option CacheableVector → Cpp σ (Option Execution)
  | none => pure synchronousExecutionPtr
  | some functionFilter => do
    let execution ← dereference synchronousExecutionPtr
    let execution ← Cpp.invoke client (.withFilter execution functionFilter)
    pure (some execution)

/-- The results of a synchronous execution. An exception is recorded and then
    left alone, so that there are no results. -/
def synchronousResults (executionPtr : Execution) (functionName : Bytes)
    (functionArguments : CacheablePtr) (functionFilter : Option CacheableVector) :
    Cpp σ CacheableVector :=
  tryCatch
    (do
      let synchronousExecutionPtr ← synchronousArgs client executionPtr functionArguments
      let synchronousExecutionPtr ← synchronousFilter client synchronousExecutionPtr functionFilter
      let execution ← dereference synchronousExecutionPtr
      Cpp.perform client (.execute execution functionName)
      Cpp.invoke client .getResult)
    (fun _ => pure [])

/-! ### `executeFunction` -/

/-- What `executeFunction` returns: `undefined` after an exception, the results of
    a synchronous execution, or the emitter of the worker it has queued. -/
inductive FunctionReturn
  | undefined
  | value (value : JsValue)
  | emitter (worker : ExecuteFunctionWorker)

/-- The conversion of the function arguments, `NULLPTR` where there are none. -/
def gemfireArguments : Option JsValue → Isolate CacheablePtr
  | none => pure none
  | some v8FunctionArguments => gemfireValue client.platform v8FunctionArguments

def gemfireFilter : Option (List (Option JsValue)) → Isolate (Option CacheableVector)
  | none => pure none
  | some v8FunctionFilter => do
    let functionFilter ← gemfireVector client.platform v8FunctionFilter
    pure (some functionFilter)

/-- The results as they are returned: one by itself, any other number as an array. -/
def v8Results (returnValue : CacheableVector) : Isolate JsValue := do
  let v8Elements ← v8Elements client.platform returnValue
  match v8Elements with
  | [value] => pure value
  | values => pure (v8Array values)

def executeFunction (info : List JsValue) (executionPtr : Execution) : Cpp σ FunctionReturn :=
  match readFunctionInfo info with
  | .error message => do
    Cpp.v8 (nanThrowError message)
    pure .undefined
  | .ok (functionName, options) => do
    let functionArguments ← Cpp.v8 (gemfireArguments client options.functionArguments)
    let functionFilter ← Cpp.v8 (gemfireFilter client options.functionFilter)
    if options.synchronousFlag then
      let returnValue ←
        synchronousResults client executionPtr functionName functionArguments functionFilter
      let value ← Cpp.v8 (v8Results client returnValue)
      pure (.value value)
    else
      pure (.emitter ⟨executionPtr, functionName, functionArguments, functionFilter⟩)

/-- The `catch` around `executeFunction`. -/
def caughtFunction (exception : GeodeException) : Isolate FunctionReturn := do
  throwGemfireException exception
  pure .undefined

def Region.executeFunction (info : List JsValue) :
    Session σ → Isolate (FunctionReturn × Session σ) :=
  Cpp.attempt
    (do
      if ← Cpp.v8 (getCacheFromRegion client) then
        let executionPtr ← Cpp.invoke client (.onTarget .region)
        NodeGemfire.executeFunction client info executionPtr
      else pure .undefined)
    caughtFunction

namespace Cache

/-- The pool name among the options, or the error thrown for a filter. -/
def readPoolName (info : List JsValue) : Except String JsValue :=
  if (arg info 1).isObject && !(arg info 1).isArray then
    if !((arg info 1).get (.ofAscii "filter")).isUndefined then
      .error "You cannot pass a filter to executeFunction for a Cache."
    else .ok ((arg info 1).get (.ofAscii "poolName"))
  else .ok .undefined

/-- The name `getPool` looks for; with `undefined` it takes the first pool. -/
def poolName (poolNameValue : JsValue) : Option Bytes :=
  (definedValue poolNameValue).map fun value => utf8String (client.platform.toPropertyKey value)

/-- The text of a name in UTF-8. -/
def poolNameText (poolName : Option Bytes) : String :=
  match poolName with
  | none => "undefined"
  | some name => (String.fromUTF8? ⟨name.toArray⟩).getD ""

/-- `Cache::ExecuteFunction` on a cache that is closed or not. -/
def executeFunction (isClosed : Bool) (info : List JsValue) :
    Session σ → Isolate (FunctionReturn × Session σ) :=
  Cpp.attempt
    (if isClosed then do
      Cpp.v8 (nanThrowError "Cannot execute function; cache is closed.")
      pure .undefined
    else
      match readPoolName info with
      | .error message => do
        Cpp.v8 (nanThrowError message)
        pure .undefined
      | .ok poolNameValue => do
        let name := poolName client poolNameValue
        let found ← Cpp.invoke client (.getPool name)
        if found = true then
          let executionPtr ← Cpp.invoke client (.onTarget (.pool name))
          NodeGemfire.executeFunction client info executionPtr
        else do
          Cpp.v8 (nanThrowError
            ("executeFunction: `" ++ poolNameText name ++ "` is not a valid pool name"))
          pure .undefined)
    caughtFunction

end Cache

end NodeGemfire
