import NodeGemfire.Cache.Query
import NodeGemfire.Conversions.Serializable
import NodeGemfire.Conversions.Strings

/-!
# The documented forms of a query

`executeQuery(query, [parameters], [options], callback)`: what each of the four
forms asks for, and what the method makes of it. Parameters with no options
behind them are taken for the options, and are not passed on.

## Main definitions

- `Query.Request` — a call in one of the forms
- `Query.Honours` — the query is executed as asked, and the callback hears of it

## Main results

- `Query.honours_iff` — which calls are honoured
-/

namespace NodeGemfire.Query

variable {σ : Type} {client : QueryClient σ}

/-! ### Requests -/

/-- The parameters: the elements of an array, and its further properties. -/
structure Parameters where
  elements : List (Option JsValue)
  properties : List (Named JsString JsValue)

def Parameters.array (parameters : Parameters) : JsValue :=
  .array parameters.elements parameters.properties

/-- An object that is neither an array nor a function. -/
abbrev Options := {v : JsValue // v.isObject = true ∧ v.isArray = false ∧ v.isFunction = false}

structure Request where
  query : JsString
  parameters : Option Parameters
  options : Option Options
  callback : {v : JsValue // v.isFunction = true}

namespace Request

/-- The argument list. -/
def info (r : Request) : List JsValue :=
  .string r.query :: (r.parameters.map Parameters.array).toList ++
    (r.options.map Subtype.val).toList ++ [r.callback.val]

/-- The pool that the options name; `undefined` for the default service. -/
def poolNameValue (r : Request) : JsValue :=
  match r.options with
  | none => .undefined
  | some options => options.val.get (.ofAscii "poolName")

/-- The parameters as the client is to get them, each converted and in order, and
    `undefined` for a hole; none when they are left out. -/
def params (p : Platform) (r : Request) : CacheableVector :=
  match r.parameters with
  | none => []
  | some parameters => parameters.elements.map fun e => (gemfireValue p (e.getD .undefined)).value

/-- The parameters are serializable. -/
def Serializable (p : Platform) (r : Request) : Prop :=
  ∀ parameters, r.parameters = some parameters → ∀ e ∈ parameters.elements,
    NodeGemfire.Serializable p (e.getD .undefined)

end Request

/-- The operation succeeds in every state. -/
def Gives (client : QueryClient σ) (call : QueryCall) (result : call.Result) : Prop :=
  ∀ state, ∃ state', client.native call state = (.ok result, state')

/-- The cache is open, the pool exists if one is named, and the client makes queries. -/
structure Serves (client : QueryClient σ) (r : Request) : Prop where
  opened : client.isClosed = false
  pool : r.poolNameValue = .undefined ∨ ∃ name, r.poolNameValue = .string name ∧
    Gives client (.getPool (utf8String name)) true ∧
    Gives client (.getQueryService (some (utf8String name))) ()
  defaultService : Gives client (.getQueryService none) ()
  newQuery : ∀ service queryString, Gives client (.newQuery service queryString) ()

/-- The service is the one for the pool that is named, or the default one. -/
def IsServiceFor (service : Option Bytes) (poolNameValue : JsValue) : Prop :=
  match service with
  | none => poolNameValue = .undefined
  | some name => poolNameValue = .string (nanNew name)

/-- The call throws nothing and queues a worker, which executes the query with the parameters
    on the service asked for, and calls the callback with the results or with the error. -/
structure Honours (client : QueryClient σ) (r : Request) (s : QuerySession σ) : Prop where
  thrown : (executeQuery client r.info s).thrown = []
  executes : ∃ worker service queryString params s',
    (executeQuery client r.info s).value = (.queued worker, s') ∧
    nanNew queryString = r.query ∧ IsServiceFor service r.poolNameValue ∧
    params.getD [] = r.params client.platform ∧
    ∀ s'' : QuerySession σ,
      (worker.run client s'').2.calls = s''.calls ++ [.execute service queryString params] ∧
      (∀ results, (client.native (.execute service queryString params) s''.state).1 =
        .ok results → (worker.run client s'').1 = .response r.callback.val results) ∧
      ∀ exception, (client.native (.execute service queryString params) s''.state).1 =
        .error exception → (worker.run client s'').1 = .error r.callback.val (v8Error exception)

/-! ### What the arguments are taken for -/

/-- An argument between the query and the callback is taken for the options, unless there
    are two. -/
def Request.arguments (r : Request) : Arguments :=
  match r.parameters, r.options with
  | none, none => ⟨r.callback.val, .undefined, none⟩
  | none, some options => ⟨r.callback.val, options.val.get (.ofAscii "poolName"), none⟩
  | some parameters, none =>
    ⟨r.callback.val, parameters.array.get (.ofAscii "poolName"), none⟩
  | some parameters, some options =>
    ⟨r.callback.val, options.val.get (.ofAscii "poolName"), some parameters.array⟩

theorem poolNameOption_options (options : Options) :
    poolNameOption options.val = options.val.get (.ofAscii "poolName") := by
  simp [poolNameOption, options.2.1, options.2.2.2]

theorem poolNameOption_array (parameters : Parameters) :
    poolNameOption parameters.array = parameters.array.get (.ofAscii "poolName") := rfl

theorem readArguments_info (r : Request) : readArguments r.info = .ok r.arguments := by
  obtain ⟨query, parameters, options, callback⟩ := r
  have hisFunction (parameters : Parameters) : parameters.array.isFunction = false := rfl
  have hisArray (parameters : Parameters) : parameters.array.isArray = true := rfl
  cases parameters with
  | none =>
    cases options with
    | none => simp [readArguments, Request.info, Request.arguments, arg, callback.2]
    | some options =>
      simp [readArguments, Request.info, Request.arguments, arg, callback.2, options.2.2.2,
        poolNameOption_options]
  | some parameters =>
    cases options with
    | none =>
      simp [readArguments, Request.info, Request.arguments, arg, callback.2, hisFunction,
        poolNameOption_array]
    | some options =>
      simp [readArguments, Request.info, Request.arguments, arg, callback.2, hisFunction, hisArray,
        options.2.2.2, poolNameOption_options]

/-- With an open cache the method comes to its worker. -/
theorem executeQuery_info (hopened : client.isClosed = false) (r : Request) (s : QuerySession σ) :
    executeQuery client r.info s = queueWorker client r.query r.arguments s := by
  have hquery : arg r.info 0 = .string r.query := rfl
  have hlength : ¬r.info.length < 2 := by
    simp only [Request.info, List.length_append, List.length_cons, List.length_nil]
    omega
  simp only [executeQuery, hquery, if_neg hlength, readArguments_info, hopened]
  rfl

/-! ### The worker that is queued -/

/-- The service for the value that is taken for the pool name. -/
def serviceFor (client : QueryClient σ) (poolNameValue : JsValue) : Option Bytes :=
  if poolNameValue.isUndefined then none else some (poolName client poolNameValue)

def workerFor (client : QueryClient σ) (r : Request) : ExecuteQueryWorker :=
  ⟨serviceFor client r.arguments.poolNameValue, utf8String r.query,
    (gemfireParams client r.arguments.queryParams).value, r.callback.val⟩

theorem getQueryService_some {service found : Option Bytes} {s s' : QuerySession σ}
    (h : (getQueryService client service s).value = (some found, s')) : found = service := by
  rw [getQueryService] at h
  split at h
  · cases h
    rfl
  · cases h

theorem findQueryService_some {poolNameValue : JsValue} {service : Option Bytes}
    {s s' : QuerySession σ}
    (h : (findQueryService client poolNameValue s).value = (some service, s')) :
    service = serviceFor client poolNameValue := by
  rw [findQueryService] at h
  rw [serviceFor]
  split at h
  · rename_i hundefined
    rw [if_pos hundefined]
    exact getQueryService_some h
  · rename_i hdefined
    rw [if_neg hdefined]
    split at h
    · exact getQueryService_some h
    · cases h
    · cases h

theorem callbackFunction_arguments (r : Request) :
    r.arguments.callbackFunction = r.callback.val := by
  obtain ⟨query, parameters, options, callback⟩ := r
  cases parameters <;> cases options <;> rfl

/-- A worker that is queued is the one for the arguments as they were read. -/
theorem worker_of_queued {r : Request} {worker : ExecuteQueryWorker} {s s' : QuerySession σ}
    (h : (queueWorker client r.query r.arguments s).value = (.queued worker, s')) :
    worker = workerFor client r := by
  rw [queueWorker, Isolate.bind_value] at h
  split at h
  · cases h
  · rename_i service t hfound
    rw [Isolate.bind_value] at h
    split at h
    · cases h
    · cases h
      rw [workerFor, findQueryService_some hfound, callbackFunction_arguments]

/-! ### Which calls are honoured -/

/-- The strings survive, and there are options behind the parameters, or the parameters have
    neither an element nor a property `poolName`. -/
structure Clear (r : Request) : Prop where
  query : HasUtf8 r.query
  poolName : ∀ name, r.poolNameValue = .string name → HasUtf8 name
  parameters : ∀ parameters, r.parameters = some parameters → r.options = none →
    parameters.elements = [] ∧ parameters.array.get (.ofAscii "poolName") = .undefined

theorem isServiceFor_serviceFor {poolNameValue : JsValue} (hname : ∀ name,
    poolNameValue = .string name → HasUtf8 name)
    (h : poolNameValue = .undefined ∨ ∃ name, poolNameValue = .string name) :
    IsServiceFor (serviceFor client poolNameValue) poolNameValue := by
  rcases h with rfl | ⟨name, rfl⟩
  · rfl
  · have hback : nanNew (utf8String name) = name := nanNew_fieldName_eq_iff.mpr (hname name rfl)
    exact congrArg JsValue.string hback.symm

theorem Clear.arguments_poolNameValue {r : Request} (h : Clear r) :
    r.arguments.poolNameValue = r.poolNameValue := by
  obtain ⟨query, parameters, options, callback⟩ := r
  cases options with
  | some options => cases parameters <;> rfl
  | none =>
    cases parameters with
    | none => rfl
    | some parameters => exact (h.parameters parameters rfl rfl).2

theorem Clear.params {r : Request} (h : Clear r) :
    (gemfireParams client r.arguments.queryParams).value.getD [] = r.params client.platform := by
  obtain ⟨query, parameters, options, callback⟩ := r
  cases parameters with
  | none => cases options <;> rfl
  | some parameters =>
    cases options with
    | some options => exact gemfireElements_value parameters.elements
    | none =>
      have hnil : parameters.elements = [] := (h.parameters parameters rfl rfl).1
      show [] = parameters.elements.map _
      rw [hnil]
      rfl

theorem gemfireParams_thrown {r : Request} (h : r.Serializable client.platform) :
    (gemfireParams client r.arguments.queryParams).thrown = [] := by
  obtain ⟨query, parameters, options, callback⟩ := r
  cases parameters with
  | none => cases options <;> rfl
  | some parameters =>
    cases options with
    | none => rfl
    | some options =>
      have helements : (gemfireElements client.platform parameters.elements).thrown = [] := by
        rw [gemfireElements_thrown, List.flatMap_eq_nil_iff]
        intro e he
        exact (gemfireValue_thrown_eq_nil_iff _).mpr (h parameters rfl e he)
      rw [← helements]
      exact List.append_nil _

/-- The service asked for is found. -/
theorem findQueryService_of_serves {r : Request} (hserves : Serves client r)
    (s : QuerySession σ) : ∃ s', findQueryService client r.poolNameValue s =
      pure (some (serviceFor client r.poolNameValue), s') := by
  rcases hserves.pool with hundefined | ⟨name, hname, hpool, hservice⟩
  · obtain ⟨state, hdefault⟩ := hserves.defaultService s.state
    rw [hundefined]
    refine ⟨⟨state, s.calls ++ [.getQueryService none]⟩, ?_⟩
    simp only [findQueryService, serviceFor, JsValue.isUndefined, if_pos, getQueryService, invoke,
      hdefault]
  · obtain ⟨state, hfound⟩ := hpool s.state
    obtain ⟨state', hgiven⟩ := hservice state
    rw [hname]
    refine ⟨⟨state', s.calls ++ [.getPool (utf8String name)] ++
      [.getQueryService (some (utf8String name))]⟩, ?_⟩
    simp only [findQueryService, serviceFor, JsValue.isUndefined, Bool.false_eq_true, if_false,
      poolName, getQueryService, invoke, hfound, hgiven]

/-- The worker calls its callback with the results, or with the error. -/
theorem run_report (worker : ExecuteQueryWorker) (s : QuerySession σ) :
    (∀ results, (client.native (.execute worker.service worker.queryString
        worker.queryParamsPtr) s.state).1 = .ok results →
      (worker.run client s).1 = .response worker.callback results) ∧
    ∀ exception, (client.native (.execute worker.service worker.queryString
        worker.queryParamsPtr) s.state).1 = .error exception →
      (worker.run client s).1 = .error worker.callback (v8Error exception) := by
  simp only [ExecuteQueryWorker.run, invoke]
  constructor
  · intro results h
    rw [h]
    rfl
  · intro exception h
    rw [h]
    rfl

/-- What an executed query says about the call: its strings survive, and what was taken for
    the options is what was passed as the options. -/
theorem clear_of_worker {r : Request}
    (hpool : r.poolNameValue = .undefined ∨ ∃ name, r.poolNameValue = .string name)
    (hquery : nanNew (workerFor client r).queryString = r.query)
    (hservice : IsServiceFor (workerFor client r).service r.poolNameValue)
    (hparams : (workerFor client r).queryParamsPtr.getD [] = r.params client.platform) :
    Clear r where
  query := nanNew_fieldName_eq_iff.mp hquery
  poolName name hname := by
    obtain ⟨query, parameters, options, callback⟩ := r
    cases options with
    | none => cases hname
    | some options =>
      have hvalue : options.val.get (.ofAscii "poolName") = .string name := hname
      have hworker : (workerFor client ⟨query, parameters, some options, callback⟩).service =
          some (utf8String name) := by
        cases parameters <;>
          simp only [workerFor, Request.arguments, hvalue] <;> rfl
      rw [hworker, hname] at hservice
      exact nanNew_fieldName_eq_iff.mp (JsValue.string.inj hservice).symm
  parameters parameters hparameters hoptions := by
    obtain ⟨query, _, _, callback⟩ := r
    cases hparameters
    cases hoptions
    constructor
    · exact List.map_eq_nil_iff.mp hparams.symm
    · have hnone : IsServiceFor (serviceFor client (parameters.array.get (.ofAscii "poolName")))
          .undefined := hservice
      rw [serviceFor] at hnone
      split at hnone
      · rename_i hundefined
        exact JsValue.isUndefined_iff.mp hundefined
      · cases hnone

theorem Honours.clear {r : Request} {s : QuerySession σ} (hserves : Serves client r)
    (h : Honours client r s) : Clear r := by
  obtain ⟨worker, service, queryString, params, s', hqueued, hquery, hservice, hparams, hrun⟩ :=
    h.executes
  rw [executeQuery_info hserves.opened] at hqueued
  obtain rfl := worker_of_queued hqueued
  -- the one call of the worker tells what was executed
  have hcalls := List.append_cancel_left (hrun s).1
  obtain ⟨rfl, rfl, rfl⟩ := QueryCall.execute.inj (List.singleton_inj.mp hcalls)
  exact clear_of_worker (hserves.pool.imp_right fun ⟨name, hname, _⟩ => ⟨name, hname⟩) hquery
    hservice hparams

theorem Clear.honours {r : Request} (hserves : Serves client r)
    (hserializable : r.Serializable client.platform) (hclear : Clear r) (s : QuerySession σ) :
    Honours client r s := by
  obtain ⟨t, hfound⟩ := findQueryService_of_serves hserves s
  obtain ⟨state, hnew⟩ :=
    hserves.newQuery (serviceFor client r.poolNameValue) (utf8String r.query) t.state
  have hqueue : executeQuery client r.info s = (do
      let queryParamsPtr ← gemfireParams client r.arguments.queryParams
      pure (.queued ⟨serviceFor client r.poolNameValue, utf8String r.query, queryParamsPtr,
        r.callback.val⟩, ⟨state, t.calls ++ [.newQuery (serviceFor client r.poolNameValue)
          (utf8String r.query)]⟩)) := by
    simp only [executeQuery_info hserves.opened, queueWorker, hclear.arguments_poolNameValue,
      hfound, Isolate.pure_bind, invoke, hnew, callbackFunction_arguments]
  constructor
  · rw [hqueue, Isolate.bind_thrown, gemfireParams_thrown hserializable]
    rfl
  · rw [hqueue]
    refine ⟨_, _, _, _, _, rfl, nanNew_fieldName_eq_iff.mpr hclear.query, ?_, hclear.params,
      fun s'' => ⟨rfl, run_report _ s''⟩⟩
    exact isServiceFor_serviceFor hclear.poolName
      (hserves.pool.imp_right fun ⟨name, hname, _⟩ => ⟨name, hname⟩)

/-- A call with serializable parameters is honoured if and only if it is clear. -/
theorem honours_iff {r : Request} (hserves : Serves client r)
    (hserializable : r.Serializable client.platform) (s : QuerySession σ) :
    Honours client r s ↔ Clear r := by
  constructor
  · exact fun h => h.clear hserves
  · exact fun hclear => hclear.honours hserves hserializable s

/-! ### Two calls -/

/-- A client with one pool, which answers every query with no results. -/
def emptyClient : QueryClient Unit where
  platform := nativeClient
  isClosed := false
  native
    | .getPool name, _ => (.ok (name = utf8String (.ofAscii "myPool")), ())
    | .getQueryService _, _ | .newQuery _ _, _ => (.ok (), ())
    | .execute _ _ _, _ => (.ok [], ())

def callback : {v : JsValue // v.isFunction = true} := ⟨.object .function [], rfl⟩

def barParameters : Parameters := ⟨[some (.string (.ofAscii "bar"))], []⟩

def myPoolOptions : Options :=
  ⟨.object .plain [⟨.ofAscii "poolName", .string (.ofAscii "myPool")⟩], rfl, rfl, rfl⟩

theorem barParameters_serializable (options : Option Options) :
    Request.Serializable nativeClient ⟨.ofAscii "q", some barParameters, options, callback⟩ := by
  rintro parameters ⟨⟩ e he
  rw [List.mem_singleton.mp he]
  exact .string _

theorem emptyClient_serves {r : Request}
    (h : r.poolNameValue = .undefined ∨ r.poolNameValue = .string (.ofAscii "myPool")) :
    Serves emptyClient r where
  opened := rfl
  pool := h.imp_right fun hname => ⟨_, hname, fun _ => ⟨(), rfl⟩, fun _ => ⟨(), rfl⟩⟩
  defaultService _ := ⟨(), rfl⟩
  newQuery _ _ _ := ⟨(), rfl⟩

/-- `executeQuery("q", ["bar"], {poolName: "myPool"}, callback)`. -/
theorem honours_iff_myPool :
    Honours emptyClient ⟨.ofAscii "q", some barParameters, some myPoolOptions, callback⟩
      ⟨(), []⟩ := by
  have hserves := emptyClient_serves
    (r := ⟨.ofAscii "q", some barParameters, some myPoolOptions, callback⟩) (.inr rfl)
  refine (honours_iff hserves (barParameters_serializable _) _).mpr ⟨?_, ?_, ?_⟩
  · show HasUtf8 (.ofAscii "q")
    decide
  · rintro name ⟨⟩
    decide
  · rintro parameters - ⟨⟩

/-- `executeQuery("q", ["bar"], callback)` executes the query with no parameters. -/
theorem not_honours_barParameters :
    ¬∀ (client : QueryClient Unit) (r : Request) (s : QuerySession Unit), Serves client r →
      r.Serializable client.platform → Honours client r s := by
  intro h
  have hserves : Serves emptyClient ⟨.ofAscii "q", some barParameters, none, callback⟩ :=
    emptyClient_serves (.inl rfl)
  have hhonours := h emptyClient _ ⟨(), []⟩ hserves (barParameters_serializable _)
  have hclear := hhonours.clear hserves
  have hnil : barParameters.elements = [] := (hclear.parameters barParameters rfl rfl).1
  cases hnil

end NodeGemfire.Query
