import NodeGemfire.Conversions.Leaves

/-!
# From native to JavaScript values

`v8Value` and the loops over containers, structs and PDX instances. A value with
an unknown type id schedules an exception and converts to `undefined`.

## Main definitions

- `v8Value` — the conversion of a `CacheablePtr`
- `v8Object`, `v8PdxInstance` — the loops that set properties
-/

namespace NodeGemfire

open JsValue (setProperty)

variable (p : Platform)

/-- An array with these elements and no further properties. -/
def v8Array (elements : List JsValue) : JsValue := .array (elements.map some) []

/-! ### Objects -/

/-- The loop over a struct: convert the value of each field, then set it. -/
def v8Struct (properties : List (Named JsString JsValue)) :
    List (Named Bytes (Isolate JsValue)) → Isolate JsValue
  | [] => pure (.object .plain properties)
  | field :: fields => do
    let value ← field.value
    v8Struct (setProperty properties (nanNew field.name) value) fields

/-- The loop over a hash map: the converted key becomes a property name. -/
def v8Object (properties : List (Named JsString JsValue)) :
    List (Named (Isolate JsValue) (Isolate JsValue)) → Isolate JsValue
  | [] => pure (.object .plain properties)
  | entry :: entries => do
    let key ← entry.name
    let value ← entry.value
    v8Object (setProperty properties (p.toPropertyKey key) value) entries

/-- The loop over the field names of a PDX instance. A field of another type
    than the two `getField` is called for ends the loop with its exception. -/
def getFields (fields : List (PdxField (Isolate JsValue)))
    (properties : List (Named JsString JsValue)) :
    List Bytes → Isolate (Except GeodeException (List (Named JsString JsValue)))
  | [] => pure (.ok properties)
  | key :: keys =>
    match fields.find? (·.name = key) with
    | some ⟨_, .object, converted⟩ | some ⟨_, .objectArray, converted⟩ => do
      let value ← converted
      getFields fields (setProperty properties (nanNew key) value) keys
    | _ => pure (.error (p.getFieldError key))

def v8PdxInstance (fields : List (PdxField (Isolate JsValue))) : Isolate JsValue :=
  match p.getFieldNames (fields.map (·.name)) with
  | none => pure (.object .plain [])
  | some gemfireKeys => do
    match ← getFields p fields [] gemfireKeys with
    | .ok properties => pure (.object .plain properties)
    | .error exception =>
      throwGemfireException exception
      pure .undefined

/-! ### Values -/

mutual

def v8Value : CacheablePtr → Isolate JsValue
  | none => pure .null
  | some value => v8Cacheable value

/-- The switch over `typeId()`. -/
def v8Cacheable : Cacheable → Isolate JsValue
  | .string value => pure (.string (v8ValueString value))
  | .boolean value => pure (.boolean value)
  | .double value | .float value => pure (.number value)
  | .int16 value => pure (.number (Number.ofInt64 value.toInt64))
  | .int32 value => pure (.number (Number.ofInt64 value.toInt64))
  | .int64 value => do
    let number ← v8ValueInt64 value
    pure (.number number)
  | .date milliseconds => pure (.object (.date (v8Date milliseconds)) [])
  | .undefined => pure .undefined
  | .struct fields => v8Struct [] (v8StructFields fields)
  | .objectArray elements | .arrayList elements | .vector elements | .hashSet elements => do
    let v8Elements ← v8Elements elements
    pure (v8Array v8Elements)
  | .hashMap entries => v8Object p [] (v8Entries entries)
  | .userFunctionExecutionException message => pure (.object (.nativeError message) [])
  -- the values with a type id above `CacheableStringHuge`
  | .pdxInstance _ fields => v8PdxInstance p (v8PdxFields fields)
  | .other typeId => do
    nanThrowError
      ("Unable to serialize value from GemFire; unknown typeId: " ++ toString typeId.val)
    pure .undefined

def v8Elements : List CacheablePtr → Isolate (List JsValue)
  | [] => pure []
  | element :: elements => do
    let first ← v8Value element
    let rest ← v8Elements elements
    pure (first :: rest)

def v8StructFields : List (Named Bytes CacheablePtr) → List (Named Bytes (Isolate JsValue))
  | [] => []
  | ⟨name, value⟩ :: fields => ⟨name, v8Value value⟩ :: v8StructFields fields

def v8Entries :
    List (Named CacheablePtr CacheablePtr) → List (Named (Isolate JsValue) (Isolate JsValue))
  | [] => []
  | ⟨key, value⟩ :: entries => ⟨v8Value key, v8Value value⟩ :: v8Entries entries

def v8PdxFields : List (PdxField CacheablePtr) → List (PdxField (Isolate JsValue))
  | [] => []
  | ⟨name, type, value⟩ :: fields => ⟨name, type, v8Value value⟩ :: v8PdxFields fields

end

/-- `v8Value` of a `HashMapOfCacheablePtr`. -/
def v8ValueHashMap (entries : HashMapOfCacheable) : Isolate JsValue :=
  v8Object p [] (v8Entries p entries)

theorem v8Elements_of_pure {elements : List CacheablePtr} {f : CacheablePtr → JsValue}
    (h : ∀ e ∈ elements, v8Value p e = pure (f e)) :
    v8Elements p elements = pure (elements.map f) := by
  induction elements with
  | nil => rfl
  | cons e elements ih =>
    have hrest := ih fun e' he' => h e' (List.mem_cons_of_mem _ he')
    simp [v8Elements, h e List.mem_cons_self, hrest]

theorem v8StructFields_eq (fields : List (Named Bytes CacheablePtr)) :
    v8StructFields p fields = fields.map fun f => ⟨f.name, v8Value p f.value⟩ := by
  induction fields with
  | nil => rfl
  | cons f fields ih =>
    obtain ⟨name, value⟩ := f
    simp [v8StructFields, ih]

theorem v8Entries_eq (entries : HashMapOfCacheable) :
    v8Entries p entries = entries.map fun e => ⟨v8Value p e.name, v8Value p e.value⟩ := by
  induction entries with
  | nil => rfl
  | cons e entries ih =>
    obtain ⟨key, value⟩ := e
    simp [v8Entries, ih]

theorem v8PdxFields_eq (fields : List (PdxField CacheablePtr)) :
    v8PdxFields p fields = fields.map fun f => ⟨f.name, f.type, v8Value p f.value⟩ := by
  induction fields with
  | nil => rfl
  | cons f fields ih =>
    obtain ⟨name, type, value⟩ := f
    simp [v8PdxFields, ih]

end NodeGemfire
