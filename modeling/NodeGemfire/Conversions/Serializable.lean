import NodeGemfire.Conversions.ToGemfire

/-!
# Which values serialize

What `gemfireValue` and its callers return and what they schedule, in terms of
the JavaScript value alone: `Serializable` for no exception, `NullValued` for
`NULLPTR`, `KeyValued` for a key. The last two look at the outermost constructor
only, so that a part that cannot be serialized is noticed there and nowhere
deeper.
-/

namespace NodeGemfire

variable {p : Platform}

/-! ### Building an instance -/

/-- The calls that write fields with these names, in order. -/
def Platform.writeNames (p : Platform) (written : List Bytes) :
    List Bytes → Except GeodeException Unit
  | [] => .ok ()
  | name :: names =>
    match p.writeObject written name with
    | .error exception => .error exception
    | .ok () => p.writeNames (written ++ [name]) names

/-- The calls that make an instance of a class with these fields. -/
def Platform.build (p : Platform) (className : Bytes) (names : List Bytes) :
    Except GeodeException Unit :=
  match p.createPdxInstanceFactory className with
  | .error exception => .error exception
  | .ok () =>
    match p.writeNames [] names with
    | .error exception => .error exception
    | .ok () => p.create names

/-- The client makes an instance of the class of an object with these properties. -/
def Builds (p : Platform) (properties : List (Named JsString JsValue)) : Prop :=
  p.build (cString (getClassName (shape properties))) (properties.map (fieldName ·.name)) = .ok ()

/-- The fields an object writes when no exception stops it. -/
def pdxFields (fields : List (Named Bytes (Isolate CacheablePtr))) : List (PdxField CacheablePtr) :=
  fields.map fun field => ⟨field.name, .object, field.value.value⟩

@[simp] theorem pdxFields_names (fields : List (Named Bytes (Isolate CacheablePtr))) :
    (pdxFields fields).map (·.name) = fields.map (·.name) := by
  simp [pdxFields]

/-- `writeFields` stops where `writeNames` does. -/
theorem writeFields_value (written : List (PdxField CacheablePtr))
    (fields : List (Named Bytes (Isolate CacheablePtr))) :
    (writeFields p written fields).value =
      (p.writeNames (written.map (·.name)) (fields.map (·.name))).map
        fun _ => written ++ pdxFields fields := by
  induction fields generalizing written with
  | nil => simp [writeFields, Platform.writeNames, pdxFields, Except.map]
  | cons field fields ih =>
    simp only [writeFields, List.map_cons, Platform.writeNames, Isolate.bind_value]
    cases p.writeObject (written.map (·.name)) field.name with
    | error exception => rfl
    | ok =>
      simp only [ih, List.map_append, List.map_cons, List.map_nil]
      congr 1
      funext
      simp [pdxFields]

theorem writeFields_thrown {written : List (PdxField CacheablePtr)}
    {fields : List (Named Bytes (Isolate CacheablePtr))}
    (h : p.writeNames (written.map (·.name)) (fields.map (·.name)) = .ok ()) :
    (writeFields p written fields).thrown = fields.flatMap (·.value.thrown) := by
  induction fields generalizing written with
  | nil => rfl
  | cons field fields ih =>
    simp only [List.map_cons, Platform.writeNames] at h
    simp only [writeFields, Isolate.bind_thrown, List.flatMap_cons]
    cases hw : p.writeObject (written.map (·.name)) field.name with
    | error exception => simp [hw] at h
    | ok =>
      let written' : List (PdxField CacheablePtr) :=
        written ++ [⟨field.name, .object, field.value.value⟩]
      have hnames : p.writeNames (written'.map (·.name)) (fields.map (·.name)) = .ok () := by
        simpa [hw, written'] using h
      rw [← ih hnames]

theorem gemfireObject_of_build {className : Bytes}
    {fields : List (Named Bytes (Isolate CacheablePtr))}
    (h : p.build (cString className) (fields.map (·.name)) = .ok ()) :
    (gemfireObject p className fields).value =
        some (.pdxInstance (cString className) (pdxFields fields)) ∧
      (gemfireObject p className fields).thrown = fields.flatMap (·.value.thrown) := by
  unfold Platform.build at h
  unfold gemfireObject
  cases hf : p.createPdxInstanceFactory (cString className) with
  | error exception => simp [hf] at h
  | ok =>
    cases hw : p.writeNames [] (fields.map (·.name)) with
    | error exception => simp [hf, hw] at h
    | ok =>
      have hvalue := writeFields_value (p := p) [] fields
      have hthrown : (writeFields p [] fields).thrown = fields.flatMap (·.value.thrown) :=
        writeFields_thrown hw
      simp only [hf, hw, List.map_nil, Except.map, List.nil_append] at h hvalue
      simp [hvalue, hthrown, h]

theorem gemfireObject_of_not_build {className : Bytes}
    {fields : List (Named Bytes (Isolate CacheablePtr))}
    (h : p.build (cString className) (fields.map (·.name)) ≠ .ok ()) :
    (gemfireObject p className fields).value = none ∧
      (gemfireObject p className fields).thrown ≠ [] := by
  unfold Platform.build at h
  unfold gemfireObject
  cases hf : p.createPdxInstanceFactory (cString className) with
  | error exception => simp
  | ok =>
    have hvalue := writeFields_value (p := p) [] fields
    cases hw : p.writeNames [] (fields.map (·.name)) with
    | error exception =>
      simp only [hw, List.map_nil, Except.map] at hvalue
      simp [hvalue]
    | ok =>
      simp only [hf, hw, List.map_nil, Except.map, List.nil_append] at h hvalue
      cases hc : p.create (fields.map (·.name)) with
      | error exception => simp [hvalue, hc]
      | ok => exact absurd hc h

/-! ### Values -/

/-- The conversion of `v` schedules no exception: no function and no symbol in
    any part that is read, and the client takes every object. -/
inductive Serializable (p : Platform) : JsValue → Prop
  | undefined : Serializable p .undefined
  | null : Serializable p .null
  | boolean (b : Bool) : Serializable p (.boolean b)
  | number (n : Number) : Serializable p (.number n)
  | string (s : JsString) : Serializable p (.string s)
  | array (es : List (Option JsValue)) (ps : List (Named JsString JsValue))
      (h : ∀ e, some e ∈ es → Serializable p e) : Serializable p (.array es ps)
  | date (t : TimeValue) (ps : List (Named JsString JsValue)) :
    Serializable p (.object (.date t) ps)
  | stringObject (s : JsString) (ps : List (Named JsString JsValue)) :
      Serializable p (.object (.stringObject s) ps)
  | numberObject (n : Number) (ps : List (Named JsString JsValue)) :
      Serializable p (.object (.numberObject n) ps)
  | booleanObject (b : Bool) (ps : List (Named JsString JsValue)) :
      Serializable p (.object (.booleanObject b) ps)
  | plain (ps : List (Named JsString JsValue)) (hb : Builds p ps)
      (h : ∀ q ∈ ps, Serializable p q.value) : Serializable p (.object .plain ps)
  | nativeError (m : String) (ps : List (Named JsString JsValue)) (hb : Builds p ps)
      (h : ∀ q ∈ ps, Serializable p q.value) : Serializable p (.object (.nativeError m) ps)

/-- The values that convert to `NULLPTR`: `null`, a function, a symbol, or an
    object the client does not take. -/
def NullValued (p : Platform) : JsValue → Prop
  | .null | .symbol _ | .object .function _ => True
  | .object .plain ps | .object (.nativeError _) ps => ¬Builds p ps
  | _ => False

/-- The values that convert to a key. -/
def KeyValued (p : Platform) : JsValue → Prop
  | .string _ | .boolean _ | .number _ => True
  | .object (.stringObject _) _ | .object (.numberObject _) _ | .object (.booleanObject _) _ => True
  | .object (.date _) _ => True
  | .object .plain ps | .object (.nativeError _) ps => Builds p ps
  | _ => False

theorem gemfireElements_value (es : List (Option JsValue)) :
    (gemfireElements p es).value = es.map fun e => (gemfireValue p (e.getD .undefined)).value := by
  induction es with
  | nil => rfl
  | cons e es ih => simp [gemfireElements_cons, ih]

theorem gemfireElements_thrown (es : List (Option JsValue)) :
    (gemfireElements p es).thrown =
      es.flatMap fun e => (gemfireValue p (e.getD .undefined)).thrown := by
  induction es with
  | nil => rfl
  | cons e es ih => simp [gemfireElements_cons, ih]

theorem gemfireFields_eq (ps : List (Named JsString JsValue)) :
    gemfireFields p ps = ps.map fun q => ⟨fieldName q.name, gemfireValue p q.value⟩ := by
  induction ps with
  | nil => rfl
  | cons q ps ih =>
    obtain ⟨name, value⟩ := q
    simp [gemfireFields, ih]

theorem builds_iff (ps : List (Named JsString JsValue)) :
    Builds p ps ↔ p.build (cString (getClassName (shape ps)))
      ((gemfireFields p ps).map (·.name)) = .ok () := by
  simp only [Builds, gemfireFields_eq, List.map_map, Function.comp_def]

/-- An object the client takes keeps every field, in order. -/
theorem gemfireObject_of_builds {ps : List (Named JsString JsValue)} (hb : Builds p ps) :
    (gemfireObject p (getClassName (shape ps)) (gemfireFields p ps)).value =
        some (.pdxInstance (cString (getClassName (shape ps)))
          (ps.map fun q => ⟨fieldName q.name, .object, (gemfireValue p q.value).value⟩)) ∧
      (gemfireObject p (getClassName (shape ps)) (gemfireFields p ps)).thrown =
        ps.flatMap fun q => (gemfireValue p q.value).thrown := by
  obtain ⟨hvalue, hthrown⟩ := gemfireObject_of_build ((builds_iff ps).mp hb)
  rw [hvalue, hthrown]
  simp [gemfireFields_eq, pdxFields, List.flatMap_map]

theorem gemfireObject_of_not_builds {ps : List (Named JsString JsValue)} (hb : ¬Builds p ps) :
    (gemfireObject p (getClassName (shape ps)) (gemfireFields p ps)).value = none ∧
      (gemfireObject p (getClassName (shape ps)) (gemfireFields p ps)).thrown ≠ [] :=
  gemfireObject_of_not_build (mt (builds_iff ps).mpr hb)

/-- `gemfireValue` never hides an exception: it schedules none exactly on the
    serializable values. -/
theorem gemfireValue_thrown_eq_nil_iff (v : JsValue) :
    (gemfireValue p v).thrown = [] ↔ Serializable p v := by
  induction v using JsValue.induction with
  | undefined => simp [gemfireValue, Serializable.undefined]
  | null => simp [gemfireValue, Serializable.null]
  | boolean b => simp [gemfireValue, Serializable.boolean]
  | number n => simp [gemfireValue, Serializable.number]
  | string s => simp [gemfireValue, Serializable.string]
  | symbol d =>
    simp only [gemfireValue, Isolate.bind_thrown, nanThrowError_thrown]
    constructor
    · simp
    · rintro ⟨⟩
  | array es ps hes _ =>
    simp only [gemfireValue, Isolate.bind_thrown, Isolate.pure_thrown, List.append_nil,
      gemfireElements_thrown, List.flatMap_eq_nil_iff]
    constructor
    · intro h
      exact .array es ps fun e he => (hes e he).mp (h (some e) he)
    · intro h e he
      cases h with
      | array _ _ h =>
        cases e with
        | none => rfl
        | some e => exact (hes e he).mpr (h e he)
  | object k ps hps =>
    -- an object without a special kind converts field by field
    have hobject : (gemfireObject p (getClassName (shape ps)) (gemfireFields p ps)).thrown = [] ↔
        Builds p ps ∧ ∀ q ∈ ps, Serializable p q.value := by
      by_cases hb : Builds p ps
      · rw [(gemfireObject_of_builds hb).2, List.flatMap_eq_nil_iff]
        simp only [hb, true_and]
        exact forall₂_congr hps
      · simp [(gemfireObject_of_not_builds hb).2, hb]
    cases k with
    | plain =>
      rw [gemfireValue, hobject]
      constructor
      · rintro ⟨hb, h⟩
        exact .plain ps hb h
      · rintro ⟨⟩
        exact ⟨‹_›, ‹_›⟩
    | nativeError m =>
      rw [gemfireValue, hobject]
      constructor
      · rintro ⟨hb, h⟩
        exact .nativeError m ps hb h
      · rintro ⟨⟩
        exact ⟨‹_›, ‹_›⟩
    | function =>
      simp only [gemfireValue, Isolate.bind_thrown, nanThrowError_thrown]
      constructor
      · simp
      · rintro ⟨⟩
    | date t => simp [gemfireValue, Serializable.date]
    | stringObject s => simp [gemfireValue, Serializable.stringObject]
    | numberObject n => simp [gemfireValue, Serializable.numberObject]
    | booleanObject b => simp [gemfireValue, Serializable.booleanObject]

theorem gemfireObject_value_eq_none_iff (ps : List (Named JsString JsValue)) :
    (gemfireObject p (getClassName (shape ps)) (gemfireFields p ps)).value = none ↔
      ¬Builds p ps := by
  by_cases hb : Builds p ps
  · simp [(gemfireObject_of_builds hb).1, hb]
  · simp [(gemfireObject_of_not_builds hb).1, hb]

theorem gemfireValue_value_eq_none_iff (v : JsValue) :
    (gemfireValue p v).value = none ↔ NullValued p v := by
  cases v with
  | object k ps =>
    cases k with
    | plain => exact gemfireObject_value_eq_none_iff ps
    | nativeError m => exact gemfireObject_value_eq_none_iff ps
    | _ => simp [gemfireValue, NullValued]
  | _ => simp [gemfireValue, NullValued]

/-! ### Keys and entries -/

theorem gemfireKey_thrown (v : JsValue) : (gemfireKey p v).thrown = (gemfireValue p v).thrown := by
  simp only [gemfireKey, Isolate.bind_thrown]
  cases (gemfireValue p v).value with
  | none => simp
  | some key => cases h : key.isCacheableKey <;> simp [h]

theorem gemfireKey_value (v : JsValue) :
    (gemfireKey p v).value = (gemfireValue p v).value.filter (·.isCacheableKey) := by
  simp only [gemfireKey, Isolate.bind_value]
  cases (gemfireValue p v).value with
  | none => rfl
  | some key => cases h : key.isCacheableKey <;> simp [h, Option.filter]

theorem gemfireKey_value_ne_none_iff (v : JsValue) :
    (gemfireKey p v).value ≠ none ↔ KeyValued p v := by
  have hobject (ps : List (Named JsString JsValue)) :
      (gemfireObject p (getClassName (shape ps)) (gemfireFields p ps)).value.filter
        (·.isCacheableKey) ≠ none ↔ Builds p ps := by
    by_cases hb : Builds p ps
    · simp [(gemfireObject_of_builds hb).1, hb, Option.filter, Cacheable.isCacheableKey]
    · simp [(gemfireObject_of_not_builds hb).1, hb]
  rw [gemfireKey_value]
  cases v with
  | object k ps =>
    cases k with
    | plain => exact hobject ps
    | nativeError m => exact hobject ps
    | _ => simp [gemfireValue, KeyValued, Option.filter, Cacheable.isCacheableKey]
  | _ => simp [gemfireValue, KeyValued, Option.filter, Cacheable.isCacheableKey]

end NodeGemfire
