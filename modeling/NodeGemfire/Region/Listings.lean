import NodeGemfire.Cache.Query
import NodeGemfire.Region.Programs

/-!
# Queries and listings of a region

The methods whose workers ask the client one question about the entries and hand
the answer to the callback, and the two that ask for notifications of all keys.
None of them converts anything for the client but the text of a predicate.

## Main definitions

- `ListingCall` — the operations of the native client
- `ListingMethod.worker` — the workers of the methods, with their native call as a question
- `SelectResults.toArray`, `SelectResults.each` — what JavaScript does with results
-/

namespace NodeGemfire

/-! ### The operations -/

inductive ListingCall
  | query (predicate : Bytes)
  | selectValue (predicate : Bytes)
  | existsValue (predicate : Bytes)
  | serverKeys
  | keys
  | values
  | entries (recursive : Bool)
  | registerAllKeys
  | unregisterAllKeys

/-- The entries of a `VectorOfRegionEntry`, each a key with its value. -/
abbrev VectorOfRegionEntry := List (Named CacheablePtr CacheablePtr)

abbrev ListingCall.Result : ListingCall → Type
  | .query _ => SelectResults
  | .selectValue _ => CacheablePtr
  | .existsValue _ => Bool
  | .serverKeys | .keys | .values => CacheableVector
  | .entries _ => VectorOfRegionEntry
  | .registerAllKeys | .unregisterAllKeys => Unit

abbrev ListingCall.Answer (call : ListingCall) : Type := Except GeodeException call.Result

/-- The native client with its operations for queries and listings. -/
structure RegionClient (σ : Type) extends Client σ where
  listing : (call : ListingCall) → σ → call.Answer × σ

/-- A table tells keys apart that are strings. -/
def tableKey : Cacheable → Option CacheableString
  | .string s => some s
  | _ => none

/-- A client that keeps the entries of the region in a table, and that has neither
    functions nor queries. -/
def tableClient : RegionClient (Option CacheableString → CacheablePtr) where
  platform := nativeClient
  anyInstance := .opened
  getName := "exampleRegion"
  native
    | .put key value, table => (.ok (), Function.update table (tableKey key) (some value))
    | .get none, table =>
      (.error ⟨"apache::geode::client::IllegalArgumentException", "Region::get: key is null"⟩,
        table)
    | .get (some key), table => (.ok (table (tableKey key)), table)
    | .getAll keys, table =>
      (.ok ((keys.pwFilter (tableKey · ≠ tableKey ·)).map fun key =>
        ⟨some key, table (tableKey key)⟩), table)
    | .putAll hashMap, table =>
      (.ok (), fun k =>
        ((hashMap.find? fun e => e.name.map tableKey = some k).map (·.value)).getD (table k))
    | .destroy key, table =>
      if (table (tableKey key)).isSome then (.ok (), Function.update table (tableKey key) none)
      else
        (.error ⟨"apache::geode::client::EntryNotFoundException", "Region::destroy: no such key"⟩,
          table)
    | .getRegionService, table => (.ok (), table)
    | .clear, _ | .destroyRegion, _ | .localDestroyRegion, _ => (.ok (), fun _ => none)
    | _, table => (.error ⟨"apache::geode::client::UnsupportedOperationException", ""⟩, table)
  listing _ table := (.error ⟨"apache::geode::client::UnsupportedOperationException", ""⟩, table)

/-! ### What the callback is called with -/

/-- A value, or an instance of `SelectResults`. -/
inductive CallbackResult
  | value (value : JsValue)
  | selectResults (selectResults : SelectResults)

/-- What the callback hears: `undefined` and a result, or `errorObject()`. -/
inductive ListingReport
  | response (callback : JsValue) (result : CallbackResult)
  | error (callback : JsValue) (error : JsError)

variable (p : Platform)

/-- `v8Value` of a `RegionEntryPtr`. -/
def v8RegionEntry (entry : Named CacheablePtr CacheablePtr) : Isolate JsValue := do
  let key ← v8Value p entry.name
  let value ← v8Value p entry.value
  pure (.object .plain [⟨.ofAscii "key", key⟩, ⟨.ofAscii "value", value⟩])

/-- The loop of `v8Value` over a `VectorOfRegionEntry`. -/
def v8RegionEntries : VectorOfRegionEntry → Isolate (List JsValue)
  | [] => pure []
  | entry :: entries => do
    let first ← v8RegionEntry p entry
    let rest ← v8RegionEntries entries
    pure (first :: rest)

/-- The overloads of `v8Value` for the results. -/
def v8ListingResult : (call : ListingCall) → call.Result → Isolate CallbackResult
  | .query _, selectResultsPtr => pure (.selectResults selectResultsPtr)
  | .selectValue _, valuePtr => do
    let value ← v8Value p valuePtr
    pure (.value value)
  | .existsValue _, value => pure (.value (.boolean value))
  | .serverKeys, vectorPtr | .keys, vectorPtr | .values, vectorPtr => do
    let elements ← v8Elements p vectorPtr
    pure (.value (v8Array elements))
  | .entries _, vectorOfRegionEntries => do
    let elements ← v8RegionEntries p vectorOfRegionEntries
    pure (.value (v8Array elements))
  | .registerAllKeys, () | .unregisterAllKeys, () => pure (.value .undefined)

/-! ### The methods -/

/-- The methods of the prototype that queue one of these workers. -/
inductive ListingMethod
  | query
  | selectValue
  | existsValue
  | serverKeys
  | keys
  | values
  | entries
  deriving DecidableEq

inductive RegistrationMethod
  | registerAllKeys
  | unregisterAllKeys
  deriving DecidableEq

namespace Region

/-- The checks of `Region::Query`. -/
def queryError (name : String) (info : List JsValue) : Option String :=
  if info.length < 2 then
    some ("You must pass a query predicate string and a callback to " ++ name ++ ".")
  else if (arg info 1).isFunction then none
  else some ("You must pass a function as the callback to " ++ name ++ ".")

/-- The checks of the methods with nothing but a callback. -/
def listingError (name : String) (info : List JsValue) : Option String :=
  if info.length = 0 then some ("You must pass a callback to " ++ name ++ ".")
  else if (arg info 0).isFunction then none
  else some ("You must pass a function as the callback to " ++ name ++ ".")

/-- `std::string queryPredicate(*Nan::Utf8String(info[0]))`. -/
def queryPredicate (info : List JsValue) : Bytes :=
  match arg info 0 with
  | .string predicate => utf8String predicate
  | value => utf8String (p.toPropertyKey value)

end Region

open Region

namespace ListingMethod

def argumentError : ListingMethod → List JsValue → Option String
  | .query, info => queryError "query()" info
  | .selectValue, info => queryError "selectValue()" info
  | .existsValue, info => queryError "existsValue()" info
  | .serverKeys, info => listingError "serverKeys()" info
  | .keys, info => listingError "keys()" info
  | .values, info => listingError "values()" info
  | .entries, info => listingError "entries()" info

def callback : ListingMethod → List JsValue → JsValue
  | .query, info | .selectValue, info | .existsValue, info => arg info 1
  | .serverKeys, info | .keys, info | .values, info | .entries, info => arg info 0

/-- The only call in the native part of the worker. -/
def nativeCall : ListingMethod → List JsValue → ListingCall
  | .query, info => .query (queryPredicate p info)
  | .selectValue, info => .selectValue (queryPredicate p info)
  | .existsValue, info => .existsValue (queryPredicate p info)
  | .serverKeys, _ => .serverKeys
  | .keys, _ => .keys
  | .values, _ => .values
  | .entries, _ => .entries true

/-- The methods with a predicate return the region; the others set no return value. -/
def returned : ListingMethod → ReturnValue
  | .query | .selectValue | .existsValue => .holder
  | .serverKeys | .keys | .values | .entries => .undefined

/-- `HandleOKCallback` and `HandleErrorCallback`. -/
def handleCallback (callback : JsValue) (call : ListingCall) : call.Answer → ListingReport
  | .ok result => .response callback (v8ListingResult p call result).value
  | .error exception => .error callback (v8Error exception)

/-- The worker, with what its callback hears in the end. -/
def worker (m : ListingMethod) (info : List JsValue) :
    Program ListingCall ListingCall.Answer ListingReport :=
  .ask (m.nativeCall p info) fun answer =>
    .done (handleCallback p (m.callback info) (m.nativeCall p info) answer)

theorem asksAtMost_worker (m : ListingMethod) (info : List JsValue) :
    (m.worker p info).AsksAtMost 1 :=
  fun _ => Program.asksAtMost_done _ 0

end ListingMethod

namespace RegistrationMethod

def nativeCall : RegistrationMethod → ListingCall
  | .registerAllKeys => .registerAllKeys
  | .unregisterAllKeys => .unregisterAllKeys

/-- The native call in its `try` block. -/
def program (m : RegistrationMethod) :
    Program ListingCall ListingCall.Answer (Isolate ReturnValue) :=
  .ask m.nativeCall fun answer =>
    match answer with
    | .ok _ => .done (pure .undefined)
    | .error exception => .done (Region.caught exception)

theorem asksAtMost_program (m : RegistrationMethod) : m.program.AsksAtMost 1 := by
  intro answer
  cases answer <;> exact Program.asksAtMost_done _ 0

end RegistrationMethod

/-! ### Select results -/

namespace SelectResults

/-- `ToArray`. -/
def toArray (selectResultsPtr : SelectResults) : Isolate JsValue := do
  let elements ← v8Elements p selectResultsPtr
  pure (v8Array elements)

/-- `Each`, with the arguments of the calls it makes, or `none` where it throws. -/
def each (selectResultsPtr : SelectResults) (info : List JsValue) :
    Isolate (Option (List JsValue)) :=
  if info.length = 0 || !(arg info 0).isFunction then do
    nanThrowError "You must pass a callback to each()"
    pure none
  else do
    let arguments ← v8Elements p selectResultsPtr
    pure (some arguments)

/-- `each` calls its function with the elements of the array of `toArray`, in order, and
    schedules the same exceptions. -/
theorem toArray_eq_each (selectResultsPtr : SelectResults) {info : List JsValue}
    (hfunction : (arg info 0).isFunction = true) :
    toArray p selectResultsPtr =
      (fun arguments => v8Array (arguments.getD [])) <$> each p selectResultsPtr info := by
  have hlength : info.length ≠ 0 := by
    intro hnil
    rw [List.length_eq_zero_iff.mp hnil] at hfunction
    cases hfunction
  rw [toArray, each, if_neg (by simp [hlength, hfunction])]
  simp

/-- `Inspect`. -/
def inspect (selectResultsPtr : SelectResults) : String :=
  "[SelectResults size=" ++ toString selectResultsPtr.length ++ "]"

end SelectResults

end NodeGemfire
