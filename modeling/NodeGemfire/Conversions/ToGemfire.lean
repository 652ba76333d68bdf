import NodeGemfire.Conversions.Leaves

/-!
# From JavaScript to native values

`gemfireValue` and what is built on it: keys, key vectors, entry maps and
vectors. A part that cannot be serialized schedules an exception and converts to
`NULLPTR`; inside an array or an object the conversion goes on past it.

## Main definitions

- `gemfireValue` — the conversion of a value
- `gemfireKey`, `gemfireKeys`, `gemfireHashMap`, `gemfireVector`
- `Serializable` — values whose conversion schedules no exception
- `NullValued` — values that convert to `NULLPTR`
-/

namespace NodeGemfire

variable (p : Platform)

/-! ### Objects -/

/-- The loop over the own properties: convert the value, then write the field.
    An exception of the factory ends the loop. -/
def writeFields (written : List (PdxField CacheablePtr)) :
    List (Named Bytes (Isolate CacheablePtr)) →
      Isolate (Except GeodeException (List (PdxField CacheablePtr)))
  | [] => pure (.ok written)
  | field :: fields => do
    let cacheablePtr ← field.value
    match p.writeObject (written.map (·.name)) field.name with
    | .error exception => pure (.error exception)
    | .ok () => writeFields (written ++ [⟨field.name, .object, cacheablePtr⟩]) fields

/-- `gemfireValue` of an object, given its class name and how each of its fields
    converts. Every exception of the client is caught and thrown in V8. -/
def gemfireObject (className : Bytes) (fields : List (Named Bytes (Isolate CacheablePtr))) :
    Isolate CacheablePtr := do
  let caught (exception : GeodeException) : Isolate CacheablePtr := do
    throwGemfireException exception
    pure none
  match p.createPdxInstanceFactory (cString className) with
  | .error exception => caught exception
  | .ok () =>
    match ← writeFields p [] fields with
    | .error exception => caught exception
    | .ok written =>
      match p.create (written.map (·.name)) with
      | .error exception => caught exception
      | .ok () => pure (some (.pdxInstance (cString className) written))

/-- The field names and array flags `getClassName` reads. -/
def shape (properties : List (Named JsString JsValue)) : List (Bytes × Bool) :=
  properties.map fun property =>
    (Unicode.utf8OfUtf16 property.name, property.value.isArray && !property.value.isString)

/-! ### Values -/

mutual

-- the arms stand in the order of the type tests; on these constructors the tests
-- exclude each other, save for `IsObject`, which comes after the other objects
def gemfireValue : JsValue → Isolate CacheablePtr
  | .string value | .object (.stringObject value) _ =>
    pure (some (.string (.create (wstringFromV8String value))))
  | .boolean value => pure (some (.boolean value))
  | .number value | .object (.numberObject value) _ => pure (some (.double value))
  | .object (.date time) _ => pure (some (.date (gemfireDate time)))
  | .array elements _ => do
    let arrayList ← gemfireElements elements
    pure (some (.arrayList arrayList))
  | .object (.booleanObject value) _ => pure (some (.boolean value))
  | .object .function _ => do
    nanThrowError "Unable to serialize to GemFire; functions are not supported."
    pure none
  | .object .plain properties | .object (.nativeError _) properties =>
    gemfireObject p (getClassName (shape properties)) (gemfireFields properties)
  | .undefined => pure (some .undefined)
  | .null => pure none
  | .symbol detail => do
    nanThrowError ("Unable to serialize to GemFire; unknown JavaScript object: " ++ detail)
    pure none

/-- The elements of an array in order; a hole reads as `undefined`. -/
def gemfireElements : List (Option JsValue) → Isolate CacheableVector
  | [] => pure []
  | none :: elements => do
    let rest ← gemfireElements elements
    pure (some .undefined :: rest)
  | some element :: elements => do
    let first ← gemfireValue element
    let rest ← gemfireElements elements
    pure (first :: rest)

/-- What the loop over the properties of an object does for each of them. -/
def gemfireFields : List (Named JsString JsValue) → List (Named Bytes (Isolate CacheablePtr))
  | [] => []
  | ⟨name, value⟩ :: properties =>
    ⟨fieldName name, gemfireValue value⟩ :: gemfireFields properties

end

theorem gemfireElements_cons (element : Option JsValue) (elements : List (Option JsValue)) :
    gemfireElements p (element :: elements) = (do
      let first ← gemfireValue p (element.getD .undefined)
      let rest ← gemfireElements p elements
      pure (first :: rest)) := by
  cases element <;> rfl

/-! ### Keys, entries and vectors -/

/-- A value that is no key fails the cast with a `ClassCastException`, which is
    caught. -/
def gemfireKey (v8Value : JsValue) : Isolate CacheablePtr := do
  match ← gemfireValue p v8Value with
  | none => pure none
  | some key => if key.isCacheableKey then pure (some key) else pure none

/-- The loop stops at the first key that is `NULLPTR`. -/
def gemfireKeys : List (Option JsValue) → Isolate (Option (List Cacheable))
  | [] => pure (some [])
  | element :: elements => do
    match ← gemfireKey p (element.getD .undefined) with
    | none => pure none
    | some key =>
      let rest ← gemfireKeys elements
      pure (rest.map (key :: ·))

/-- The loop stops at the first value that is `NULLPTR`. -/
def insertEntries (hashMap : HashMapOfCacheable) :
    List (Named JsString JsValue) → Isolate (Option HashMapOfCacheable)
  | [] => pure (some hashMap)
  | property :: properties => do
    let keyPtr ← gemfireKey p (.string property.name)
    match ← gemfireValue p property.value with
    | none => pure none
    | some value => insertEntries (p.insert hashMap keyPtr (some value)) properties

def gemfireHashMap (v8Object : JsValue) : Isolate (Option HashMapOfCacheable) :=
  insertEntries p [] v8Object.ownProperties

def gemfireVector (elements : List (Option JsValue)) : Isolate CacheableVector :=
  gemfireElements p elements

end NodeGemfire
