import NodeGemfire.Conversions.Dates
import NodeGemfire.Conversions.Readable
import NodeGemfire.Conversions.RoundTrip
import NodeGemfire.Conversions.Strings

/-!
# Reading a value and storing it again

A program that reads an entry and puts what it read back does not store what was
there: integers come back as doubles, sets, vectors and arrays as lists, hash maps
and structs as PDX instances. What JavaScript sees stays the same nevertheless,
however often the value is read and stored again.

## Main definitions

- `Restorable` — the native values that JavaScript can read and store again
- `restored` — a native value after so many rounds of `v8Value` and `gemfireValue`
-/

namespace NodeGemfire

open JsValue (setProperty)

variable {p : Platform}

/-- The native values that JavaScript can read and store again: no exception object
    and no value of an unknown type is in them, their dates are those of a time point
    in nanoseconds, and the names of fields are names the client takes. The fields of
    PDX instances are of the two types the code reads, and the keys of hash maps, which
    need not be strings, convert without an exception to the text of a name that converts
    there and back, so that there is no lone surrogate in it. -/
inductive Restorable (p : Platform) : CacheablePtr → Prop
  | null : Restorable p none
  | string (s : CacheableString) : Restorable p (some (.string s))
  | boolean (b : Bool) : Restorable p (some (.boolean b))
  | double (n : Number) : Restorable p (some (.double n))
  | float (n : Number) : Restorable p (some (.float n))
  | int16 (i : Int16) : Restorable p (some (.int16 i))
  | int32 (i : Int32) : Restorable p (some (.int32 i))
  | int64 (i : Int64) : Restorable p (some (.int64 i))
  | date (ms : ℤ) (h : FitsNanoseconds ms) : Restorable p (some (.date ms))
  | undefined : Restorable p (some .undefined)
  | struct (fields : List (Named Bytes CacheablePtr))
      (names : ∀ f ∈ fields, p.Accepts (fieldName (nanNew f.name)))
      (h : ∀ f ∈ fields, Restorable p f.value) : Restorable p (some (.struct fields))
  | objectArray (es : CacheableVector) (h : ∀ e ∈ es, Restorable p e) :
      Restorable p (some (.objectArray es))
  | arrayList (es : CacheableVector) (h : ∀ e ∈ es, Restorable p e) :
      Restorable p (some (.arrayList es))
  | vector (es : CacheableVector) (h : ∀ e ∈ es, Restorable p e) : Restorable p (some (.vector es))
  | hashSet (es : CacheableVector) (h : ∀ e ∈ es, Restorable p e) :
      Restorable p (some (.hashSet es))
  | hashMap (entries : HashMapOfCacheable) (keys : ∀ e ∈ entries, (v8Value p e.name).thrown = [])
      (names : ∀ e ∈ entries, NameSurvives p (p.toPropertyKey (v8Value p e.name).value))
      (h : ∀ e ∈ entries, Restorable p e.value) : Restorable p (some (.hashMap entries))
  | pdxInstance (className : Bytes) (fields : List (PdxField CacheablePtr))
      (types : ∀ f ∈ fields, f.type ≠ .other)
      (names : ∀ f ∈ fields, p.Accepts (fieldName (nanNew f.name)))
      (h : ∀ f ∈ fields, Restorable p f.value) :
      Restorable p (some (.pdxInstance className fields))

/-! ### Strings that were read -/

theorem zero_not_mem_v8ValueString (s : CacheableString) : 0 ∉ v8ValueString s := by
  cases s with
  | wide chars => exact zero_not_mem_cString _
  | ascii chars => exact (hasUtf8_nanNew chars).1

theorem stringSurvives_v8ValueString (s : CacheableString) : StringSurvives (v8ValueString s) := by
  rw [StringSurvives, v8ValueString_create, cString_eq_self_iff]
  exact zero_not_mem_v8ValueString s

theorem nameSurvives_nanNew {chars : Bytes} (h : p.Accepts (fieldName (nanNew chars))) :
    NameSurvives p (nanNew chars) :=
  ⟨h, nanNew_fieldName_eq_iff.mpr (hasUtf8_nanNew chars)⟩

/-! ### Dates that were read -/

theorem gemfireDate_v8Date {ms : ℤ} (h : FitsNanoseconds ms) : gemfireDate (v8Date ms) = ms := by
  have hle : |ms| ≤ 8640000000000000 := le_trans h (by decide)
  rw [v8Date, dif_pos hle]
  exact (gemfireDate_eq_iff ⟨ms, hle⟩).mpr h

/-! ### Setting properties one after the other -/

/-- A value that converts there and back, and is in normal form already. -/
def Steady (p : Platform) (v : JsValue) : Prop := Survives p v ∧ v.norm = v

/-- The properties of an object that converts there and back. -/
structure SteadyProperties (p : Platform) (ps : List (Named JsString JsValue)) : Prop where
  distinct : (ps.map (·.name)).Nodup
  names : ∀ q ∈ ps, NameSurvives p q.name
  proto : ∀ q ∈ ps, q.name ≠ .ofAscii "__proto__"
  values : ∀ q ∈ ps, Steady p q.value

theorem SteadyProperties.nil : SteadyProperties p [] := by
  refine ⟨List.nodup_nil, ?_, ?_, ?_⟩ <;> simp

/-- Names that survive are told apart as field names. -/
theorem SteadyProperties.steady {ps : List (Named JsString JsValue)} (h : SteadyProperties p ps) :
    Steady p (.object .plain ps) := by
  have hdistinct : (ps.map (fieldName ·.name)).Nodup := by
    have hback : (ps.map (fieldName ·.name)).map nanNew = ps.map (·.name) := by
      rw [List.map_map]
      exact List.map_congr_left fun q hq => (h.names q hq).2
    refine List.Nodup.of_map nanNew ?_
    rw [hback]
    exact h.distinct
  refine ⟨.plain ps hdistinct h.names h.proto fun q hq => (h.values q hq).1, ?_⟩
  rw [JsValue.norm, JsValue.normProperties_eq]
  congr 1
  conv_rhs => rw [← List.map_id ps]
  refine List.map_congr_left fun q hq => ?_
  rw [(h.values q hq).2]
  rfl

theorem SteadyProperties.setProperty {ps : List (Named JsString JsValue)}
    (h : SteadyProperties p ps) {name : JsString} {value : JsValue} (hname : NameSurvives p name)
    (hvalue : Steady p value) : SteadyProperties p (setProperty ps name value) := by
  by_cases hproto : name = .ofAscii "__proto__"
  · rw [JsValue.setProperty, if_pos hproto]
    exact h
  by_cases hany : ps.any (·.name = name) = true
  · -- the names stay as they are
    have hnames : ((ps.map fun q => if q.name = name then ⟨name, value⟩ else q).map (·.name)) =
        ps.map (·.name) := by
      rw [List.map_map]
      refine List.map_congr_left fun q _ => ?_
      by_cases hq : q.name = name <;> simp [hq]
    rw [JsValue.setProperty, if_neg hproto, if_pos hany]
    refine ⟨hnames ▸ h.distinct, ?_, ?_, ?_⟩
    all_goals
      intro q' hq'
      obtain ⟨q, hq, rfl⟩ := List.mem_map.mp hq'
      split
    · exact hname
    · exact h.names q hq
    · exact hproto
    · exact h.proto q hq
    · exact hvalue
    · exact h.values q hq
  · have hnew : name ∉ ps.map (·.name) := by
      intro hmem
      obtain ⟨q, hq, rfl⟩ := List.mem_map.mp hmem
      exact hany (List.any_eq_true.mpr ⟨q, hq, by simp⟩)
    rw [JsValue.setProperty_of_not_mem hproto hnew]
    refine ⟨?_, ?_, ?_, ?_⟩
    · rw [List.map_append, List.nodup_append_comm]
      exact List.nodup_cons.mpr ⟨hnew, h.distinct⟩
    all_goals
      intro q hq
      rcases List.mem_append.mp hq with hq | hq
    · exact h.names q hq
    · obtain rfl := List.mem_singleton.mp hq
      exact hname
    · exact h.proto q hq
    · obtain rfl := List.mem_singleton.mp hq
      exact hproto
    · exact h.values q hq
    · obtain rfl := List.mem_singleton.mp hq
      exact hvalue

/-- A conversion without an exception, to a value that converts there and back. -/
def ReadsSteady (p : Platform) (conversion : Isolate JsValue) : Prop :=
  conversion.thrown = [] ∧ Steady p conversion.value

/-- Where every key names a field of a type that is read, the loop sets them all. -/
theorem getFields_eq {fields : List (PdxField (Isolate JsValue))}
    (types : ∀ f ∈ fields, f.type ≠ .other) {keys : List Bytes}
    (hkeys : ∀ key ∈ keys, key ∈ fields.map (·.name)) :
    ∃ entries : List (Named (Isolate JsString) (Isolate JsValue)),
      (∀ ps, getFields p fields ps keys = Except.ok <$> convertProperties ps entries) ∧
      ∀ e ∈ entries, ∃ f ∈ fields, e = ⟨pure (nanNew f.name), f.value⟩ := by
  induction keys with
  | nil => exact ⟨[], fun _ => rfl, by simp⟩
  | cons key keys ih =>
    obtain ⟨entries, hloop, hentries⟩ := ih fun key' h => hkeys key' (List.mem_cons_of_mem _ h)
    obtain ⟨f, hf, rfl⟩ := List.mem_map.mp (hkeys key List.mem_cons_self)
    obtain ⟨g, hg⟩ : ∃ g, fields.find? (·.name = f.name) = some g := by
      rw [← Option.isSome_iff_exists, List.find?_isSome]
      exact ⟨f, hf, by simp⟩
    have hname : g.name = f.name := by simpa using List.find?_some hg
    have hmem : g ∈ fields := List.mem_of_find?_eq_some hg
    refine ⟨⟨pure (nanNew g.name), g.value⟩ :: entries, fun ps => ?_, ?_⟩
    · obtain ⟨name, type, value⟩ := g
      cases type with
      | other => exact absurd rfl (types _ hmem)
      | _ =>
        obtain rfl := hname
        simp [getFields, hg, convertProperties, hloop]
    · intro e he
      rcases List.mem_cons.mp he with rfl | he
      · exact ⟨g, hmem, rfl⟩
      · exact hentries e he

theorem convertProperties_steady {entries : List (Named (Isolate JsString) (Isolate JsValue))}
    (h : ∀ e ∈ entries, e.name.thrown = [] ∧ NameSurvives p e.name.value ∧ ReadsSteady p e.value)
    {ps : List (Named JsString JsValue)} (hps : SteadyProperties p ps) :
    (convertProperties ps entries).thrown = [] ∧
      SteadyProperties p (convertProperties ps entries).value := by
  induction entries generalizing ps with
  | nil => exact ⟨rfl, hps⟩
  | cons e entries ih =>
    obtain ⟨hquiet, hname, hvalue⟩ := h e List.mem_cons_self
    obtain ⟨hthrown, hsteady⟩ := ih (fun e' he' => h e' (List.mem_cons_of_mem _ he'))
      (hps.setProperty hname hvalue.2)
    simp only [convertProperties, Isolate.bind_thrown, Isolate.bind_value]
    rw [hquiet, hvalue.1, hthrown]
    exact ⟨rfl, hsteady⟩

/-- An object made by such a loop converts there and back. -/
theorem readsSteady_object {entries : List (Named (Isolate JsString) (Isolate JsValue))}
    (h : ∀ e ∈ entries, e.name.thrown = [] ∧ NameSurvives p e.name.value ∧
      ReadsSteady p e.value) :
    ReadsSteady p (JsValue.object .plain <$> convertProperties [] entries) := by
  obtain ⟨hthrown, hsteady⟩ := convertProperties_steady h SteadyProperties.nil
  refine ⟨?_, ?_⟩
  · rw [Isolate.map_thrown]
    exact hthrown
  · rw [Isolate.map_value]
    exact hsteady.steady

/-! ### Reading what can be restored -/

/-- A list reads as an array without holes. -/
theorem readsSteady_elements {es : CacheableVector} (h : ∀ e ∈ es, ReadsSteady p (v8Value p e)) :
    ReadsSteady p (v8Array <$> v8Elements p es) := by
  have helements : (v8Elements p es).thrown = [] ∧
      (v8Elements p es).value = es.map fun e => (v8Value p e).value := by
    induction es with
    | nil => exact ⟨rfl, rfl⟩
    | cons e es ih =>
      obtain ⟨hthrown, hvalue⟩ := ih fun e' he' => h e' (List.mem_cons_of_mem _ he')
      simp [v8Elements, (h e List.mem_cons_self).1, hthrown, hvalue]
  refine ⟨?_, ?_⟩
  · rw [Isolate.map_thrown]
    exact helements.1
  rw [Isolate.map_value, helements.2, v8Array]
  constructor
  · refine .array _ _ fun v hv => ?_
    obtain ⟨e, he, rfl⟩ : ∃ e ∈ es, (v8Value p e).value = v := by simpa using hv
    exact (h e he).2.1
  · simp only [JsValue.norm, JsValue.normElements_eq, List.map_map]
    congr 1
    refine List.map_congr_left fun e he => ?_
    exact congrArg some (h e he).2.2

/-- A PDX instance whose fields are all of the types that are read. -/
theorem readsSteady_pdxInstance (hp : p.Faithful) {fields : List (PdxField (Isolate JsValue))}
    (types : ∀ f ∈ fields, f.type ≠ .other)
    (h : ∀ f ∈ fields, NameSurvives p (nanNew f.name) ∧ ReadsSteady p f.value) :
    ReadsSteady p (v8PdxInstance p fields) := by
  by_cases hnil : fields = []
  · rw [hnil, v8PdxInstance, List.map_nil, hp.getFieldNames_nil]
    exact ⟨rfl, SteadyProperties.nil.steady⟩
  obtain ⟨listed, hlisted, hperm⟩ := hp.getFieldNames_perm (fields.map (·.name)) (by simpa)
  obtain ⟨entries, hloop, hentries⟩ := getFields_eq (p := p) types
    (fun key hkey => hperm.mem_iff.mp hkey)
  have hobject :
      v8PdxInstance p fields = JsValue.object .plain <$> convertProperties [] entries := by
    rw [v8PdxInstance, hlisted]
    simp [hloop]
  rw [hobject]
  refine readsSteady_object fun e he => ?_
  obtain ⟨f, hf, rfl⟩ := hentries e he
  exact ⟨rfl, (h f hf).1, (h f hf).2⟩

/-- Reading a restorable value schedules no exception and gives a value that
    converts there and back. -/
theorem Restorable.readsSteady (hp : p.Faithful) {c : CacheablePtr} (hc : Restorable p c) :
    ReadsSteady p (v8Value p c) := by
  induction hc with
  | null => exact ⟨rfl, .null, rfl⟩
  | string s => exact ⟨rfl, .string _ (stringSurvives_v8ValueString s), rfl⟩
  | boolean b => exact ⟨rfl, .boolean b, rfl⟩
  | double n => exact ⟨rfl, .number n, rfl⟩
  | float n => exact ⟨rfl, .number n, rfl⟩
  | int16 i => exact ⟨rfl, .number _, rfl⟩
  | int32 i => exact ⟨rfl, .number _, rfl⟩
  | int64 i =>
    have hquiet : (v8ValueInt64 i).thrown = [] := by
      unfold v8ValueInt64
      split_ifs <;> rfl
    refine ⟨?_, .number _, rfl⟩
    simp [v8Value, v8Cacheable, hquiet]
  | date ms h =>
    refine ⟨rfl, .date _ _ ?_, rfl⟩
    rw [DateSurvives, gemfireDate_v8Date h]
  | undefined => exact ⟨rfl, .undefined, rfl⟩
  | struct fields names _ ih =>
    rw [v8Value, v8Cacheable, v8StructFields_eq, v8Struct_eq, List.map_map]
    refine readsSteady_object fun e he => ?_
    obtain ⟨f, hf, rfl⟩ := List.mem_map.mp he
    exact ⟨rfl, nameSurvives_nanNew (names f hf), ih f hf⟩
  | objectArray es _ ih => exact readsSteady_elements ih
  | arrayList es _ ih => exact readsSteady_elements ih
  | vector es _ ih => exact readsSteady_elements ih
  | hashSet es _ ih => exact readsSteady_elements ih
  | hashMap entries keys names _ ih =>
    rw [v8Value, v8Cacheable, v8Entries_eq, v8Object_eq, List.map_map]
    refine readsSteady_object fun e he => ?_
    obtain ⟨entry, hentry, rfl⟩ := List.mem_map.mp he
    refine ⟨?_, names entry hentry, ih entry hentry⟩
    simp [keys entry hentry]
  | pdxInstance className fields types names _ ih =>
    rw [v8Value, v8Cacheable, v8PdxFields_eq]
    refine readsSteady_pdxInstance hp ?_ ?_
    all_goals
      intro f' hf'
      obtain ⟨f, hf, rfl⟩ := List.mem_map.mp hf'
    · exact types f hf
    · exact ⟨nameSurvives_nanNew (names f hf), ih f hf⟩

/-! ### Storing what survives -/

theorem restorable_of_properties (hp : p.Faithful) {ps : List (Named JsString JsValue)}
    (hdistinct : (ps.map (fieldName ·.name)).Nodup) (hnames : ∀ q ∈ ps, NameSurvives p q.name)
    (hvalues : ∀ q ∈ ps, Restorable p (gemfireValue p q.value).value) :
    Restorable p (gemfireValue p (.object .plain ps)).value := by
  rw [gemfireValue, (gemfireObject_of_builds (builds_of_survives hp hdistinct hnames)).1]
  refine .pdxInstance _ _ ?_ ?_ ?_
  all_goals
    intro f hf
    obtain ⟨q, hq, rfl⟩ := List.mem_map.mp hf
  · exact PdxFieldType.noConfusion
  · rw [(hnames q hq).2]
    exact (hnames q hq).1
  · exact hvalues q hq

theorem Survives.restorable (hp : p.Faithful) {v : JsValue} (hv : Survives p v) :
    Restorable p (gemfireValue p v).value := by
  induction hv with
  | undefined => exact .undefined
  | null => exact .null
  | boolean b => exact .boolean b
  | number n => exact .double n
  | string s _ => exact .string _
  | date t ps => exact .date _ (fitsNanoseconds_gemfireDate t)
  | stringObject s ps _ => exact .string _
  | numberObject n ps => exact .double n
  | booleanObject b ps => exact .boolean b
  | array es ps _ ih =>
    refine .arrayList _ fun c hc => ?_
    rw [gemfireElements_value] at hc
    obtain ⟨e, he, rfl⟩ := List.mem_map.mp hc
    cases e with
    | none => exact .undefined
    | some e => exact ih e he
  | plain ps distinct names _ _ ih => exact restorable_of_properties hp distinct names ih
  | nativeError m ps distinct names _ _ ih => exact restorable_of_properties hp distinct names ih

/-! ### Any number of rounds -/

/-- What is stored after `n` rounds in which the value is read and put again. -/
def restored (p : Platform) (c : CacheablePtr) : ℕ → CacheablePtr
  | 0 => c
  | n + 1 => (gemfireValue p (v8Value p (restored p c n)).value).value

theorem restorable_restored (hp : p.Faithful) {c : CacheablePtr} (hc : Restorable p c) (n : ℕ) :
    Restorable p (restored p c n) := by
  induction n with
  | zero => exact hc
  | succ n ih => exact (ih.readsSteady hp).2.1.restorable hp

/-- **Reading and storing again**: however often a value is read and put again, no
    conversion schedules an exception, and what is read is what was read at first,
    up to the order of the fields of objects. -/
theorem v8Value_restored (hp : p.Faithful) {c : CacheablePtr} (hc : Restorable p c) (n : ℕ) :
    (v8Value p (restored p c n)).thrown = [] ∧
      (gemfireValue p (v8Value p (restored p c n)).value).thrown = [] ∧
      (v8Value p (restored p c n)).value.sortFields = (v8Value p c).value.sortFields := by
  obtain ⟨hthrown, hsurvives, -⟩ := (restorable_restored hp hc n).readsSteady hp
  refine ⟨hthrown, (gemfireValue_thrown_eq_nil_iff _).mpr (hsurvives.serializable hp), ?_⟩
  induction n with
  | zero => rfl
  | succ n ih =>
    obtain ⟨hthrown', hsurvives', hnorm⟩ := (restorable_restored hp hc n).readsSteady hp
    have hround := (returned_eq hp hsurvives').2
    rw [hnorm] at hround
    exact hround.trans (ih hthrown' hsurvives')

/-- A struct of a 64-bit integer, a set with a null in it and a hash map. -/
def nativeRecord : CacheablePtr :=
  some (.struct [⟨.ofAscii "id", some (.int64 5)⟩,
    ⟨.ofAscii "tags", some (.hashSet [some (.string (.ascii (.ofAscii "x"))), none])⟩,
    ⟨.ofAscii "sizes", some (.hashMap [⟨some (.string (.ascii (.ofAscii "s"))),
      some (.int32 7)⟩])⟩])

theorem nativeRecord_restorable : Restorable nativeClient nativeRecord := by
  refine .struct _ ?_ ?_
  · intro f hf
    have hne : fieldName (nanNew f.name) ≠ [] := by revert f; decide
    exact nativeClient_accepts hne
  · intro f hf
    simp only [List.mem_cons, List.not_mem_nil, or_false] at hf
    rcases hf with rfl | rfl | rfl
    · exact .int64 5
    · refine .hashSet _ fun e he => ?_
      simp only [List.mem_cons, List.not_mem_nil, or_false] at he
      rcases he with rfl | rfl
      · exact .string _
      · exact .null
    · refine .hashMap _ ?_ ?_ ?_
      all_goals
        intro e he
        obtain rfl := List.mem_singleton.mp he
      · rfl
      · exact ⟨nativeClient_accepts (by decide), by decide⟩
      · exact .int32 7

theorem v8Value_restored_nativeRecord :
    (v8Value nativeClient (restored nativeClient nativeRecord 3)).thrown = [] ∧
      (gemfireValue nativeClient
        (v8Value nativeClient (restored nativeClient nativeRecord 3)).value).thrown = [] ∧
      (v8Value nativeClient (restored nativeClient nativeRecord 3)).value.sortFields =
        (v8Value nativeClient nativeRecord).value.sortFields :=
  v8Value_restored nativeClient_faithful nativeRecord_restorable 3

end NodeGemfire
