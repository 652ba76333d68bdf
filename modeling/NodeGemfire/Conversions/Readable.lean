import NodeGemfire.Conversions.FromGemfire

/-!
# Which values can be read

Whether `v8Value` schedules an exception, in terms of the native value alone. As on the
way there, a part that cannot be read does not stop the conversion of the container it
stands in, so that the exception of any part is the exception of the whole.

## Main definitions

- `convertProperties` — the loop of structs, hash maps and PDX instances
- `Readable` — values whose conversion schedules no exception
-/

namespace NodeGemfire

open JsValue (setProperty)

variable {p : Platform}

/-! ### Setting properties one after the other -/

/-- The three loops that make an object: convert a name and its value, set the
    property, go on. -/
def convertProperties (ps : List (Named JsString JsValue)) :
    List (Named (Isolate JsString) (Isolate JsValue)) → Isolate (List (Named JsString JsValue))
  | [] => pure ps
  | entry :: entries => do
    let name ← entry.name
    let value ← entry.value
    convertProperties (setProperty ps name value) entries

theorem v8Struct_eq (ps : List (Named JsString JsValue))
    (fields : List (Named Bytes (Isolate JsValue))) :
    v8Struct ps fields = JsValue.object .plain <$>
      convertProperties ps (fields.map fun f => ⟨pure (nanNew f.name), f.value⟩) := by
  induction fields generalizing ps with
  | nil => rfl
  | cons f fields ih => simp [v8Struct, convertProperties, ih]

theorem v8Object_eq (ps : List (Named JsString JsValue))
    (entries : List (Named (Isolate JsValue) (Isolate JsValue))) :
    v8Object p ps entries = JsValue.object .plain <$>
      convertProperties ps (entries.map fun e => ⟨p.toPropertyKey <$> e.name, e.value⟩) := by
  induction entries generalizing ps with
  | nil => rfl
  | cons e entries ih => simp [v8Object, convertProperties, ih]

theorem convertProperties_thrown_eq_nil_iff (ps : List (Named JsString JsValue))
    (entries : List (Named (Isolate JsString) (Isolate JsValue))) :
    (convertProperties ps entries).thrown = [] ↔
      ∀ e ∈ entries, e.name.thrown = [] ∧ e.value.thrown = [] := by
  induction entries generalizing ps with
  | nil => simp [convertProperties]
  | cons e entries ih =>
    simp only [convertProperties, Isolate.bind_thrown, List.append_eq_nil_iff, ih,
      List.forall_mem_cons, and_assoc]

/-! ### The values that can be read -/

/-- The conversion of the value schedules no exception: no part of it is of an unknown
    type, and the client gives out every field that a PDX instance lists. -/
inductive Readable (p : Platform) : CacheablePtr → Prop
  | null : Readable p none
  | string (s : CacheableString) : Readable p (some (.string s))
  | boolean (b : Bool) : Readable p (some (.boolean b))
  | double (n : Number) : Readable p (some (.double n))
  | float (n : Number) : Readable p (some (.float n))
  | int16 (i : Int16) : Readable p (some (.int16 i))
  | int32 (i : Int32) : Readable p (some (.int32 i))
  | int64 (i : Int64) : Readable p (some (.int64 i))
  | date (ms : ℤ) : Readable p (some (.date ms))
  | undefined : Readable p (some .undefined)
  | userFunctionExecutionException (m : String) :
      Readable p (some (.userFunctionExecutionException m))
  | struct (fields : List (Named Bytes CacheablePtr)) (h : ∀ f ∈ fields, Readable p f.value) :
      Readable p (some (.struct fields))
  | objectArray (es : CacheableVector) (h : ∀ e ∈ es, Readable p e) :
      Readable p (some (.objectArray es))
  | arrayList (es : CacheableVector) (h : ∀ e ∈ es, Readable p e) :
      Readable p (some (.arrayList es))
  | vector (es : CacheableVector) (h : ∀ e ∈ es, Readable p e) : Readable p (some (.vector es))
  | hashSet (es : CacheableVector) (h : ∀ e ∈ es, Readable p e) : Readable p (some (.hashSet es))
  | hashMap (entries : HashMapOfCacheable) (keys : ∀ e ∈ entries, Readable p e.name)
      (h : ∀ e ∈ entries, Readable p e.value) : Readable p (some (.hashMap entries))
  | pdxInstance (className : Bytes) (fields : List (PdxField CacheablePtr))
      (types : ∀ keys, p.getFieldNames (fields.map (·.name)) = some keys → ∀ key ∈ keys,
        ∃ f, fields.find? (·.name = key) = some f ∧ f.type ≠ .other)
      (h : ∀ keys, p.getFieldNames (fields.map (·.name)) = some keys → ∀ key ∈ keys,
        ∀ f, fields.find? (·.name = key) = some f → Readable p f.value) :
      Readable p (some (.pdxInstance className fields))

theorem v8Elements_thrown_eq_nil_iff (es : CacheableVector) :
    (v8Elements p es).thrown = [] ↔ ∀ e ∈ es, (v8Value p e).thrown = [] := by
  induction es with
  | nil => simp [v8Elements]
  | cons e es ih =>
    simp only [v8Elements, Isolate.bind_thrown, Isolate.pure_thrown, List.append_nil,
      List.append_eq_nil_iff, ih, List.forall_mem_cons]

theorem thrown_v8Array (elements : Isolate (List JsValue)) :
    (elements >>= fun es => pure (v8Array es)).thrown = elements.thrown :=
  List.append_nil _

/-- The loop over the listed fields ends well if and only if each of them is of a type
    that is read and its value can be read. -/
theorem getFields_quiet_iff (fields : List (PdxField (Isolate JsValue)))
    (ps : List (Named JsString JsValue)) (keys : List Bytes) :
    ((getFields p fields ps keys).thrown = [] ∧
        ∃ ps', (getFields p fields ps keys).value = .ok ps') ↔
      ∀ key ∈ keys, ∃ f, fields.find? (·.name = key) = some f ∧ f.type ≠ .other ∧
        f.value.thrown = [] := by
  induction keys generalizing ps with
  | nil => simp [getFields]
  | cons key keys ih =>
    rw [List.forall_mem_cons]
    cases hfind : fields.find? (·.name = key) with
    | none => simp [getFields, hfind]
    | some f =>
      obtain ⟨name, type, value⟩ := f
      cases type with
      | other => simp [getFields, hfind]
      | object | objectArray =>
        simp only [getFields, hfind, Isolate.bind_thrown, Isolate.bind_value,
          List.append_eq_nil_iff, and_assoc, ih]
        simp

theorem v8PdxInstance_thrown_eq_nil_iff (fields : List (PdxField (Isolate JsValue))) :
    (v8PdxInstance p fields).thrown = [] ↔
      ∀ keys, p.getFieldNames (fields.map (·.name)) = some keys → ∀ key ∈ keys,
        ∃ f, fields.find? (·.name = key) = some f ∧ f.type ≠ .other ∧ f.value.thrown = [] := by
  rw [v8PdxInstance]
  cases p.getFieldNames (fields.map (·.name)) with
  | none => simp
  | some keys =>
    simp only [Option.some.injEq, forall_eq']
    rw [← getFields_quiet_iff (p := p) fields [] keys, Isolate.bind_thrown,
      List.append_eq_nil_iff]
    refine and_congr_right fun _ => ?_
    cases (getFields p fields [] keys).value with
    | ok ps => simp
    | error exception => simp

/-- `v8Value` schedules no exception exactly on the readable values. -/
theorem v8Value_thrown_eq_nil_iff (c : CacheablePtr) :
    (v8Value p c).thrown = [] ↔ Readable p c := by
  induction c using Cacheable.induction with
  | null => exact iff_of_true rfl .null
  | leaf value h =>
    cases value with
    | string s => exact iff_of_true rfl (.string s)
    | boolean b => exact iff_of_true rfl (.boolean b)
    | double n => exact iff_of_true rfl (.double n)
    | float n => exact iff_of_true rfl (.float n)
    | int16 i => exact iff_of_true rfl (.int16 i)
    | int32 i => exact iff_of_true rfl (.int32 i)
    | int64 i =>
      refine iff_of_true ?_ (.int64 i)
      have hquiet : (v8ValueInt64 i).thrown = [] := by
        unfold v8ValueInt64
        split_ifs <;> rfl
      simp [v8Value, v8Cacheable, hquiet]
    | date ms => exact iff_of_true rfl (.date ms)
    | undefined => exact iff_of_true rfl .undefined
    | userFunctionExecutionException m =>
      exact iff_of_true rfl (.userFunctionExecutionException m)
    | other typeId => exact iff_of_false (List.cons_ne_nil _ _) nofun
    | _ => cases h
  | struct fields ih =>
    rw [v8Value, v8Cacheable, v8StructFields_eq, v8Struct_eq, Isolate.map_thrown,
      convertProperties_thrown_eq_nil_iff]
    simp only [List.forall_mem_map, Isolate.pure_thrown, true_and]
    rw [forall₂_congr ih]
    exact ⟨.struct fields, fun | .struct _ h => h⟩
  | objectArray elements ih =>
    rw [v8Value, v8Cacheable, thrown_v8Array, v8Elements_thrown_eq_nil_iff, forall₂_congr ih]
    exact ⟨.objectArray elements, fun | .objectArray _ h => h⟩
  | arrayList elements ih =>
    rw [v8Value, v8Cacheable, thrown_v8Array, v8Elements_thrown_eq_nil_iff, forall₂_congr ih]
    exact ⟨.arrayList elements, fun | .arrayList _ h => h⟩
  | vector elements ih =>
    rw [v8Value, v8Cacheable, thrown_v8Array, v8Elements_thrown_eq_nil_iff, forall₂_congr ih]
    exact ⟨.vector elements, fun | .vector _ h => h⟩
  | hashSet elements ih =>
    rw [v8Value, v8Cacheable, thrown_v8Array, v8Elements_thrown_eq_nil_iff, forall₂_congr ih]
    exact ⟨.hashSet elements, fun | .hashSet _ h => h⟩
  | hashMap entries ihkeys ih =>
    rw [v8Value, v8Cacheable, v8Entries_eq, v8Object_eq, Isolate.map_thrown,
      convertProperties_thrown_eq_nil_iff]
    simp only [List.forall_mem_map, Isolate.map_thrown, forall₂_and]
    rw [forall₂_congr ihkeys, forall₂_congr ih]
    exact ⟨fun h => .hashMap entries h.1 h.2, fun | .hashMap _ keys h => ⟨keys, h⟩⟩
  | pdxInstance className fields ih =>
    rw [v8Value, v8Cacheable, v8PdxFields_eq, v8PdxInstance_thrown_eq_nil_iff]
    have hfind (key : Bytes) : (fields.map fun f : PdxField CacheablePtr =>
          (⟨f.name, f.type, v8Value p f.value⟩ : PdxField (Isolate JsValue))).find?
            (·.name = key) = (fields.find? (·.name = key)).map
              fun f => ⟨f.name, f.type, v8Value p f.value⟩ := by
      rw [List.find?_map]
      rfl
    have hread {key : Bytes} {f : PdxField CacheablePtr}
        (h : fields.find? (·.name = key) = some f) :
        (v8Value p f.value).thrown = [] ↔ Readable p f.value := ih f (List.mem_of_find?_eq_some h)
    simp only [List.map_map, Function.comp_def, hfind, Option.map_eq_some_iff]
    constructor
    · intro h
      refine .pdxInstance className fields ?_ ?_
      · intro keys hkeys key hkey
        obtain ⟨_, ⟨f, hf, rfl⟩, htype, -⟩ := h keys hkeys key hkey
        exact ⟨f, hf, htype⟩
      · intro keys hkeys key hkey f hf
        obtain ⟨_, ⟨f', hf', rfl⟩, -, hthrown⟩ := h keys hkeys key hkey
        obtain rfl := Option.some.inj (hf.symm.trans hf')
        exact (hread hf).mp hthrown
    · rintro (_ | _) keys hkeys key hkey
      rename_i types h
      obtain ⟨f, hf, htype⟩ := types keys hkeys key hkey
      exact ⟨_, ⟨f, hf, rfl⟩, htype, (hread hf).mpr (h keys hkeys key hkey f hf)⟩

end NodeGemfire
