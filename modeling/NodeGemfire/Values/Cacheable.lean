import NodeGemfire.Lib.Unicode
import NodeGemfire.Values.Isolate
import NodeGemfire.Values.JsValue

/-!
# Native values

The `Cacheable` objects of the native client, as trees, and what the conversions
ask of the client and of V8 beyond building and reading them. A `CacheablePtr`
that is `NULLPTR` is `none`.

## Main definitions

- `Cacheable` — the native values, by what their `typeId()` tells apart
- `Platform` — the operations of the client and of V8 with no code here
- `nativeClient` — a platform that accepts and lists fields as the client does
-/

namespace NodeGemfire

/-- The contents of a `std::string` or of a C string. -/
abbrev Bytes := List UInt8

/-- A `wchar_t` has 32 bits on the platforms the module is built for. -/
abbrev WString := List UInt32

/-- A `CacheableString` holds wide characters or plain ones. -/
inductive CacheableString
  | wide (chars : WString)
  | ascii (chars : Bytes)
  deriving DecidableEq

/-- The field types `v8Value` tells apart; `getField` refuses the others. -/
inductive PdxFieldType
  | object
  | objectArray
  | other
  deriving DecidableEq

/-- A field of a PDX instance. -/
structure PdxField (α : Type) where
  name : Bytes
  type : PdxFieldType
  value : α

/-- `GeodeTypeIds::CacheableStringHuge`. The code takes every value with a larger type id
    for a PDX instance. -/
def cacheableStringHuge : ℤ := 89

/-- The native values. A `CacheableDate` is its milliseconds since the epoch,
    `CacheableFloat` is given as the double it widens to, and `other` is a value
    whose type id no case of `v8Value` names and which is not taken for a PDX instance. -/
inductive Cacheable
  | string (value : CacheableString)
  | boolean (value : Bool)
  | double (value : Number)
  | float (value : Number)
  | int16 (value : Int16)
  | int32 (value : Int32)
  | int64 (value : Int64)
  | date (milliseconds : ℤ)
  | undefined
  | struct (fields : List (Named Bytes (Option Cacheable)))
  | objectArray (elements : List (Option Cacheable))
  | arrayList (elements : List (Option Cacheable))
  | vector (elements : List (Option Cacheable))
  | hashMap (entries : List (Named (Option Cacheable) (Option Cacheable)))
  | hashSet (elements : List (Option Cacheable))
  | userFunctionExecutionException (message : String)
  | pdxInstance (className : Bytes) (fields : List (PdxField (Option Cacheable)))
  | other (typeId : {typeId : ℤ // typeId ≤ cacheableStringHuge})

abbrev CacheablePtr := Option Cacheable

/-- A `CacheableVectorPtr` or a `CacheableArrayListPtr` that is not `NULLPTR`. -/
abbrev CacheableVector := List CacheablePtr

/-- The entries of a `HashMapOfCacheable`, in the order of its iterator. -/
abbrev HashMapOfCacheable := List (Named CacheablePtr CacheablePtr)

/-- The values that hold other values. -/
def Cacheable.isContainer : Cacheable → Bool
  | .struct _ | .objectArray _ | .arrayList _ | .vector _ | .hashSet _ | .hashMap _ => true
  | .pdxInstance _ _ => true
  | _ => false

/-- Induction with one hypothesis for each value that a container holds. -/
@[elab_as_elim] theorem Cacheable.induction {P : CacheablePtr → Prop} (null : P none)
    (leaf : ∀ value : Cacheable, value.isContainer = false → P (some value))
    (struct : ∀ fields, (∀ f ∈ fields, P f.value) → P (some (.struct fields)))
    (objectArray : ∀ elements, (∀ e ∈ elements, P e) → P (some (.objectArray elements)))
    (arrayList : ∀ elements, (∀ e ∈ elements, P e) → P (some (.arrayList elements)))
    (vector : ∀ elements, (∀ e ∈ elements, P e) → P (some (.vector elements)))
    (hashSet : ∀ elements, (∀ e ∈ elements, P e) → P (some (.hashSet elements)))
    (hashMap : ∀ entries, (∀ e ∈ entries, P e.name) → (∀ e ∈ entries, P e.value) →
      P (some (.hashMap entries)))
    (pdxInstance : ∀ className fields, (∀ f ∈ fields, P f.value) →
      P (some (.pdxInstance className fields))) (c : CacheablePtr) : P c := by
  cases c with
  | none => exact null
  | some value =>
    refine @Cacheable.rec (fun value => P (some value)) (fun fields => ∀ f ∈ fields, P f.value)
      (fun elements => ∀ e ∈ elements, P e)
      (fun entries => (∀ e ∈ entries, P e.name) ∧ ∀ e ∈ entries, P e.value)
      (fun fields => ∀ f ∈ fields, P f.value) (fun f => P f.value) (fun e => P e)
      (fun e => P e.name ∧ P e.value) (fun f => P f.value) (fun _ => leaf _ rfl)
      (fun _ => leaf _ rfl) (fun _ => leaf _ rfl) (fun _ => leaf _ rfl) (fun _ => leaf _ rfl)
      (fun _ => leaf _ rfl) (fun _ => leaf _ rfl) (fun _ => leaf _ rfl) (leaf _ rfl) struct
      objectArray arrayList vector (fun entries h => hashMap entries h.1 h.2) hashSet
      (fun _ => leaf _ rfl) pdxInstance (fun _ => leaf _ rfl) (by simp) ?_ (by simp) ?_ (by simp)
      ?_ (by simp) ?_ (fun _ _ h => h) null (fun _ h => h) (fun _ _ h h' => ⟨h, h'⟩)
      (fun _ _ _ h => h) value
    · exact fun head tail hhead htail => List.forall_mem_cons.mpr ⟨hhead, htail⟩
    · exact fun head tail hhead htail => List.forall_mem_cons.mpr ⟨hhead, htail⟩
    · exact fun head tail hhead htail => ⟨List.forall_mem_cons.mpr ⟨hhead.1, htail.1⟩,
        List.forall_mem_cons.mpr ⟨hhead.2, htail.2⟩⟩
    · exact fun head tail hhead htail => List.forall_mem_cons.mpr ⟨hhead, htail⟩

/-- The classes that derive from `CacheableKey`. A cast of any other value to a
    `CacheableKeyPtr` throws `ClassCastException`. -/
def Cacheable.isCacheableKey : Cacheable → Bool
  | .string _ | .boolean _ | .double _ | .float _ | .int16 _ | .int32 _ | .int64 _ | .date _ => true
  | .pdxInstance _ _ => true
  | _ => false

/-- The operations of the native client and of V8 that the conversions call. A
    factory is given by the class name and by the names of the fields it holds. -/
structure Platform where
  createPdxInstanceFactory : Bytes → Except GeodeException Unit
  writeObject : List Bytes → Bytes → Except GeodeException Unit
  create : List Bytes → Except GeodeException Unit
  getFieldNames : List Bytes → Option (List Bytes)
  getFieldError : Bytes → GeodeException
  insert : HashMapOfCacheable → CacheablePtr → CacheablePtr → HashMapOfCacheable
  toPropertyKey : JsValue → JsString

/-- The factory takes the field `name` as long as it does not hold it yet. -/
def Platform.Accepts (p : Platform) (name : Bytes) : Prop :=
  ∀ written, name ∉ written → p.writeObject written name = .ok ()

/-- What the client promises about PDX instances: an open cache makes factories
    and instances, and an instance lists the fields that were written to it,
    each once; one with no fields lists none. -/
structure Platform.Faithful (p : Platform) : Prop where
  createPdxInstanceFactory : ∀ className, p.createPdxInstanceFactory className = .ok ()
  create : ∀ names, p.create names = .ok ()
  getFieldNames_nil : p.getFieldNames [] = none
  getFieldNames_perm : ∀ names, names ≠ [] → ∃ listed, p.getFieldNames names = some listed ∧
    listed.Perm names

/-- Equality of keys, where both are strings. -/
def sameString : CacheablePtr → CacheablePtr → Bool
  | some (.string s), some (.string t) => s = t
  | _, _ => false

/-- A client that refuses a field with no name or with the name of another,
    lists the fields in the order in which they were written, and keeps the
    first of two entries with one key. -/
def nativeClient : Platform where
  createPdxInstanceFactory _ := .ok ()
  writeObject written name :=
    if name = [] ∨ name ∈ written then
      .error ⟨"apache::geode::client::IllegalStateException", "field already added or empty"⟩
    else .ok ()
  create _ := .ok ()
  getFieldNames names := if names = [] then none else some names
  getFieldError _ := ⟨"apache::geode::client::IllegalStateException", "no such field"⟩
  insert entries key value :=
    if entries.any (sameString ·.name key) then entries else entries ++ [⟨key, value⟩]
  toPropertyKey
    | .string s => s
    | _ => .ofAscii "[object Object]"

theorem nativeClient_faithful : nativeClient.Faithful where
  createPdxInstanceFactory _ := rfl
  create _ := rfl
  getFieldNames_nil := rfl
  getFieldNames_perm names hne := ⟨names, by simp [nativeClient, hne], List.Perm.refl _⟩

theorem nativeClient_accepts {name : Bytes} (hne : name ≠ []) : nativeClient.Accepts name := by
  intro written hmem
  simp [nativeClient, hne, hmem]

end NodeGemfire
