import NodeGemfire.Functions.Execute

/-!
# Queries

`Cache::ExecuteQuery` and its worker. The arguments between the query string and
the callback may be left out, and are told apart by the position of the first
function: with one argument in between, that argument is taken for the options.

## Main definitions

- `QueryClient` — the query service of the native client
- `Query.executeQuery` — the method, up to the queued worker
- `Query.ExecuteQueryWorker` — the worker, with its report to the callback
-/

namespace NodeGemfire

/-! ### The native client -/

/-- The results of a query, which `SelectResults` hands out. -/
abbrev SelectResults := List CacheablePtr

/-- The operations that queries need. A query service is given by its pool, `none` for the
    default one. -/
inductive QueryCall
  | getPool (poolName : Bytes)
  | getQueryService (poolName : Option Bytes)
  | newQuery (service : Option Bytes) (queryString : Bytes)
  | execute (service : Option Bytes) (queryString : Bytes) (params : Option CacheableVector)

/-- `getPool` tells whether the pool was found. -/
abbrev QueryCall.Result : QueryCall → Type
  | .getPool _ => Bool
  | .getQueryService _ | .newQuery _ _ => Unit
  | .execute _ _ _ => SelectResults

structure QueryClient (σ : Type) where
  platform : Platform
  isClosed : Bool
  native : (call : QueryCall) → σ → Except GeodeException call.Result × σ

/-- The state of the client, and the calls it has received, in order. -/
structure QuerySession (σ : Type) where
  state : σ
  calls : List QueryCall

namespace Query

variable {σ : Type} (client : QueryClient σ)

def invoke (call : QueryCall) (s : QuerySession σ) :
    Except GeodeException call.Result × QuerySession σ :=
  ((client.native call s.state).1, ⟨(client.native call s.state).2, s.calls ++ [call]⟩)

/-! ### The worker -/

structure ExecuteQueryWorker where
  service : Option Bytes
  queryString : Bytes
  queryParamsPtr : Option CacheableVector
  callback : JsValue

/-- What the callback is called with: the results, or `errorObject()`. -/
inductive Report
  | response (callback : JsValue) (selectResults : SelectResults)
  | error (callback : JsValue) (error : JsError)

/-- `HandleOKCallback` and `HandleErrorCallback`. -/
def handleCallback (callback : JsValue) : Except GeodeException SelectResults → Report
  | .ok selectResultsPtr => .response callback selectResultsPtr
  | .error exception => .error callback (v8Error exception)

/-- The worker executes in the session `s`, and its outcome is handled. -/
def ExecuteQueryWorker.run (worker : ExecuteQueryWorker) (s : QuerySession σ) :
    Report × QuerySession σ :=
  let (result, s') := invoke client
    (.execute worker.service worker.queryString worker.queryParamsPtr) s
  (handleCallback worker.callback result, s')

/-! ### The method -/

/-- How the method ends: with an exception scheduled, with a worker queued, or with a native
    exception that nothing catches. -/
inductive Return
  | undefined
  | queued (worker : ExecuteQueryWorker)
  | uncaught (exception : GeodeException)

/-- What the arguments are taken for. The handle of the parameters may be empty. -/
structure Arguments where
  callbackFunction : JsValue
  poolNameValue : JsValue
  queryParams : Option JsValue

/-- The option `poolName` of a value that is taken for the options. -/
def poolNameOption (value : JsValue) : JsValue :=
  if value.isObject && !value.isFunction then value.get (.ofAscii "poolName") else .undefined

def readArguments (info : List JsValue) : Except String Arguments :=
  if (arg info 1).isFunction then .ok ⟨arg info 1, .undefined, none⟩
  else if 2 < info.length && (arg info 2).isFunction then
    .ok ⟨arg info 2, poolNameOption (arg info 1), none⟩
  else if 3 < info.length && (arg info 3).isFunction then
    .ok ⟨arg info 3, poolNameOption (arg info 2),
      if (arg info 1).isArray && !(arg info 1).isFunction then some (arg info 1) else none⟩
  else .error "You must pass a function as the callback to executeQuery()."

/-- `*Nan::Utf8String(poolNameValue)`. -/
def poolName (poolNameValue : JsValue) : Bytes :=
  match poolNameValue with
  | .string name => utf8String name
  | value => utf8String (client.platform.toPropertyKey value)

/-- `getQueryService`; an exception is caught. -/
def getQueryService (service : Option Bytes) (s : QuerySession σ) :
    Isolate (Option (Option Bytes) × QuerySession σ) :=
  match invoke client (.getQueryService service) s with
  | (.ok (), s') => pure (some service, s')
  | (.error exception, s') => do
    throwGemfireException exception
    pure (none, s')

/-- The service for the pool, unless an exception has been scheduled. -/
def findQueryService (poolNameValue : JsValue) (s : QuerySession σ) :
    Isolate (Option (Option Bytes) × QuerySession σ) :=
  if poolNameValue.isUndefined then getQueryService client none s
  else
    match invoke client (.getPool (poolName client poolNameValue)) s with
    | (.ok true, s') => getQueryService client (some (poolName client poolNameValue)) s'
    | (.ok false, s') => do
      nanThrowError ("executeQuery: `" ++
        Cache.poolNameText (some (poolName client poolNameValue)) ++
        "` is not a valid pool name")
      pure (none, s')
    | (.error exception, s') => do
      throwGemfireException exception
      pure (none, s')

def gemfireParams : Option JsValue → Isolate (Option CacheableVector)
  | none => pure none
  | some queryParams =>
    if queryParams.isUndefined then pure none
    else do
      let vector ← gemfireVector client.platform (Region.arrayElements queryParams)
      pure (some vector)

/-- The part of the method after its checks. -/
def queueWorker (query : JsString) (arguments : Arguments) (s : QuerySession σ) :
    Isolate (Return × QuerySession σ) := do
  match ← findQueryService client arguments.poolNameValue s with
  | (none, s') => pure (.undefined, s')
  | (some service, s') =>
    let queryParamsPtr ← gemfireParams client arguments.queryParams
    -- outside of the `try`
    match invoke client (.newQuery service (utf8String query)) s' with
    | (.error exception, s'') => pure (.uncaught exception, s'')
    | (.ok (), s'') =>
      pure (.queued ⟨service, utf8String query, queryParamsPtr, arguments.callbackFunction⟩, s'')

def executeQuery (info : List JsValue) (s : QuerySession σ) : Isolate (Return × QuerySession σ) :=
  let thrown (message : String) : Isolate (Return × QuerySession σ) := do
    nanThrowError message
    pure (.undefined, s)
  match arg info 0 with
  | .string query =>
    if info.length < 2 then thrown "You must pass a callback to executeQuery()."
    else
      match readArguments info with
      | .error message => thrown message
      | .ok arguments =>
        if client.isClosed then thrown "Cannot execute query; cache is closed."
        else queueWorker client query arguments s
  | _ => thrown "You must pass a query string and callback to executeQuery()."

end Query

end NodeGemfire
