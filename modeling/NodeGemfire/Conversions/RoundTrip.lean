import NodeGemfire.Conversions.FromGemfire
import NodeGemfire.Conversions.Serializable
import NodeGemfire.Lib.SortOn

/-!
# The value round trip

What is put comes back: `v8Value` undoes `gemfireValue` up to `norm`, on every
value whose leaves survive their own conversions. A PDX instance may list its
fields in any order, so that objects are compared with `sortFields`.

## Main definitions

- `norm` — unwrap boxed primitives, fill holes, drop what is not serialized
- `sortFields` — the same value, the fields of its objects in order of name
- `Survives` — the leaves and the field names convert there and back
-/

namespace NodeGemfire

variable {p : Platform}

namespace JsValue

mutual

def norm : JsValue → JsValue
  | .object (.stringObject s) _ => .string s
  | .object (.numberObject n) _ => .number n
  | .object (.booleanObject b) _ => .boolean b
  | .object (.date t) _ => .object (.date t) []
  | .object .plain ps | .object (.nativeError _) ps => .object .plain (normProperties ps)
  | .array es _ => .array (normElements es) []
  | v => v

def normElements : List (Option JsValue) → List (Option JsValue)
  | [] => []
  | none :: es => some .undefined :: normElements es
  | some e :: es => some (norm e) :: normElements es

def normProperties : List (Named JsString JsValue) → List (Named JsString JsValue)
  | [] => []
  | ⟨name, value⟩ :: ps => ⟨name, norm value⟩ :: normProperties ps

end

mutual

/-- The same value with the fields of every object sorted by name: two values
    agree on it exactly when they differ in the order of fields only. -/
def sortFields : JsValue → JsValue
  | .array es ps => .array (sortElements es) ps
  | .object k ps => .object k (sortOn (·.name) (sortProperties ps))
  | v => v

def sortElements : List (Option JsValue) → List (Option JsValue)
  | [] => []
  | none :: es => none :: sortElements es
  | some e :: es => some (sortFields e) :: sortElements es

def sortProperties : List (Named JsString JsValue) → List (Named JsString JsValue)
  | [] => []
  | ⟨name, value⟩ :: ps => ⟨name, sortFields value⟩ :: sortProperties ps

end

theorem normElements_eq (es : List (Option JsValue)) :
    normElements es = es.map fun e => some (e.getD .undefined).norm := by
  induction es with
  | nil => rfl
  | cons e es ih => cases e <;> simp [normElements, ih, norm]

theorem normProperties_eq (ps : List (Named JsString JsValue)) :
    normProperties ps = ps.map fun q => ⟨q.name, q.value.norm⟩ := by
  induction ps with
  | nil => rfl
  | cons q ps ih =>
    obtain ⟨name, value⟩ := q
    simp [normProperties, ih]

theorem sortElements_eq (es : List (Option JsValue)) :
    sortElements es = es.map (·.map sortFields) := by
  induction es with
  | nil => rfl
  | cons e es ih => cases e <;> simp [sortElements, ih]

theorem sortProperties_eq (ps : List (Named JsString JsValue)) :
    sortProperties ps = ps.map fun q => ⟨q.name, q.value.sortFields⟩ := by
  induction ps with
  | nil => rfl
  | cons q ps ih =>
    obtain ⟨name, value⟩ := q
    simp [sortProperties, ih]

/-- A new name goes to the end. -/
theorem setProperty_of_not_mem {ps : List (Named JsString JsValue)} {name : JsString}
    (hproto : name ≠ .ofAscii "__proto__") (hnew : name ∉ ps.map (·.name)) (value : JsValue) :
    setProperty ps name value = ps ++ [⟨name, value⟩] := by
  have hany : ps.any (·.name = name) = false := by
    simp only [List.any_eq_false, decide_eq_true_eq]
    intro q hq heq
    exact hnew (List.mem_map.mpr ⟨q, hq, heq⟩)
  simp [setProperty, hproto, hany]

end JsValue

/-! ### Survival of the leaves -/

/-- The string leaf `s` converts there and back. -/
def StringSurvives (s : JsString) : Prop :=
  v8ValueString (.create (wstringFromV8String s)) = s

/-- The Date leaf `t` converts there and back. -/
def DateSurvives (t : TimeValue) : Prop := v8Date (gemfireDate t) = t

/-- The client takes the field `name`, and its name converts there and back. -/
def NameSurvives (p : Platform) (name : JsString) : Prop :=
  p.Accepts (fieldName name) ∧ nanNew (fieldName name) = name

/-- Values without functions and symbols whose leaves and field names survive,
    the field names of each object staying distinct. That the client takes the field
    names is part of what is assumed of PDX instances: they return what was put in. -/
inductive Survives (p : Platform) : JsValue → Prop
  | undefined : Survives p .undefined
  | null : Survives p .null
  | boolean (b : Bool) : Survives p (.boolean b)
  | number (n : Number) : Survives p (.number n)
  | string (s : JsString) (h : StringSurvives s) : Survives p (.string s)
  | date (t : TimeValue) (ps : List (Named JsString JsValue)) (h : DateSurvives t) :
      Survives p (.object (.date t) ps)
  | stringObject (s : JsString) (ps : List (Named JsString JsValue)) (h : StringSurvives s) :
      Survives p (.object (.stringObject s) ps)
  | numberObject (n : Number) (ps : List (Named JsString JsValue)) :
      Survives p (.object (.numberObject n) ps)
  | booleanObject (b : Bool) (ps : List (Named JsString JsValue)) :
      Survives p (.object (.booleanObject b) ps)
  | array (es : List (Option JsValue)) (ps : List (Named JsString JsValue))
      (h : ∀ e, some e ∈ es → Survives p e) : Survives p (.array es ps)
  | plain (ps : List (Named JsString JsValue)) (distinct : (ps.map (fieldName ·.name)).Nodup)
      (names : ∀ q ∈ ps, NameSurvives p q.name)
      (proto : ∀ q ∈ ps, q.name ≠ .ofAscii "__proto__")
      (h : ∀ q ∈ ps, Survives p q.value) : Survives p (.object .plain ps)
  | nativeError (m : String) (ps : List (Named JsString JsValue))
      (distinct : (ps.map (fieldName ·.name)).Nodup) (names : ∀ q ∈ ps, NameSurvives p q.name)
      (proto : ∀ q ∈ ps, q.name ≠ .ofAscii "__proto__")
      (h : ∀ q ∈ ps, Survives p q.value) : Survives p (.object (.nativeError m) ps)

theorem writeNames_of_accepts {written names : List Bytes} (hdistinct : (written ++ names).Nodup)
    (haccepts : ∀ name ∈ names, p.Accepts name) : p.writeNames written names = .ok () := by
  induction names generalizing written with
  | nil => rfl
  | cons name names ih =>
    have hnew : name ∉ written := fun hmem =>
      List.disjoint_of_nodup_append hdistinct hmem List.mem_cons_self
    rw [Platform.writeNames, haccepts name List.mem_cons_self written hnew]
    refine ih ?_ fun name' hmem => haccepts name' (List.mem_cons_of_mem _ hmem)
    simpa using hdistinct

/-- A faithful client makes the instance of an object whose names survive. -/
theorem builds_of_survives (hp : p.Faithful) {ps : List (Named JsString JsValue)}
    (hdistinct : (ps.map (fieldName ·.name)).Nodup) (hnames : ∀ q ∈ ps, NameSurvives p q.name) :
    Builds p ps := by
  have hwrite : p.writeNames [] (ps.map (fieldName ·.name)) = .ok () := by
    refine writeNames_of_accepts (by simpa using hdistinct) fun name hmem => ?_
    obtain ⟨q, hq, rfl⟩ := List.mem_map.mp hmem
    exact (hnames q hq).1
  simp [Builds, Platform.build, hp.createPdxInstanceFactory, hwrite, hp.create]

theorem Survives.serializable (hp : p.Faithful) {v : JsValue} (hv : Survives p v) :
    Serializable p v := by
  induction hv with
  | undefined => exact .undefined
  | null => exact .null
  | boolean b => exact .boolean b
  | number n => exact .number n
  | string s _ => exact .string s
  | date t ps _ => exact .date t ps
  | stringObject s ps _ => exact .stringObject s ps
  | numberObject n ps => exact .numberObject n ps
  | booleanObject b ps => exact .booleanObject b ps
  | array es ps _ ih => exact .array es ps ih
  | plain ps distinct names _ _ ih => exact .plain ps (builds_of_survives hp distinct names) ih
  | nativeError m ps distinct names _ _ ih =>
    exact .nativeError m ps (builds_of_survives hp distinct names) ih

/-! ### The loop over the listed fields -/

section Fields

variable {ps : List (Named JsString JsValue)}

/-- What comes back for a value: the conversion there, then back. -/
def returned (p : Platform) (v : JsValue) : Isolate JsValue := v8Value p (gemfireValue p v).value

/-- The fields `v8Value` reads from the instance of an object. -/
def returnedFields (p : Platform) (ps : List (Named JsString JsValue)) :
    List (PdxField (Isolate JsValue)) :=
  ps.map fun q => ⟨fieldName q.name, .object, returned p q.value⟩

theorem returnedFields_names :
    (returnedFields p ps).map (·.name) = ps.map (fieldName ·.name) := by
  simp [returnedFields]

/-- Where the field names differ, so do the names. -/
theorem names_nodup (hdistinct : (ps.map (fieldName ·.name)).Nodup) :
    (ps.map (·.name)).Nodup := by
  have hmap : ((ps.map (·.name)).map fieldName).Nodup := by
    rw [List.map_map]
    exact hdistinct
  exact hmap.of_map

/-- Reading the fields of `qs` sets their properties, in that order. -/
theorem getFields_returnedFields (hdistinct : (ps.map (fieldName ·.name)).Nodup)
    (hsurvive : ∀ q ∈ ps, NameSurvives p q.name ∧ q.name ≠ .ofAscii "__proto__" ∧
      returned p q.value = pure (returned p q.value).value)
    (qs set : List (Named JsString JsValue)) (hqs : ∀ q ∈ qs, q ∈ ps)
    (hset : (set.map (·.name) ++ qs.map (·.name)).Nodup) :
    getFields p (returnedFields p ps) set (qs.map (fieldName ·.name)) =
      pure (.ok (set ++ qs.map fun q => ⟨q.name, (returned p q.value).value⟩)) := by
  induction qs generalizing set with
  | nil => simp [getFields]
  | cons q qs ih =>
    have hq := hqs q List.mem_cons_self
    obtain ⟨hname, hproto, hpure⟩ := hsurvive q hq
    have hfind : (returnedFields p ps).find? (·.name = fieldName q.name) =
        some ⟨fieldName q.name, .object, returned p q.value⟩ := by
      have hkeys : ((returnedFields p ps).map (·.name)).Nodup := by
        rwa [returnedFields_names]
      exact find?_of_nodup_keys hkeys (List.mem_map.mpr ⟨q, hq, rfl⟩)
    have hnew : q.name ∉ set.map (·.name) := fun hmem =>
      List.disjoint_of_nodup_append hset hmem (by simp)
    have hrest := ih (set ++ [⟨q.name, (returned p q.value).value⟩])
      (fun q' hq' => hqs q' (List.mem_cons_of_mem _ hq')) (by simpa using hset)
    simp only [List.map_cons, getFields, hfind]
    rw [hpure, Isolate.pure_bind, hname.2, JsValue.setProperty_of_not_mem hproto hnew, hrest]
    simp

/-- The instance of an object comes back as an object with the same fields, in
    the order in which the client lists them. -/
theorem v8PdxInstance_returnedFields (hp : p.Faithful)
    (hdistinct : (ps.map (fieldName ·.name)).Nodup)
    (hsurvive : ∀ q ∈ ps, NameSurvives p q.name ∧ q.name ≠ .ofAscii "__proto__" ∧
      returned p q.value = pure (returned p q.value).value) :
    ∃ qs : List (Named JsString JsValue), qs.Perm ps ∧
      v8PdxInstance p (returnedFields p ps) =
        pure (.object .plain (qs.map fun q => ⟨q.name, (returned p q.value).value⟩)) := by
  unfold v8PdxInstance
  rw [returnedFields_names]
  cases ps with
  | nil =>
    refine ⟨[], List.Perm.refl _, ?_⟩
    simp [hp.getFieldNames_nil]
  | cons q ps =>
    obtain ⟨listed, hlisted, hperm⟩ :=
      hp.getFieldNames_perm ((q :: ps).map (fieldName ·.name)) (by simp)
    obtain ⟨qs, hqs, rfl⟩ := exists_perm_of_map_perm
      (fun q : Named JsString JsValue => fieldName q.name) hperm
    refine ⟨qs, hqs, ?_⟩
    have hnames : (qs.map (·.name)).Nodup :=
      names_nodup ((hqs.map _).nodup_iff.mpr hdistinct)
    have hget := getFields_returnedFields hdistinct hsurvive qs [] (fun q hq => hqs.mem_iff.mp hq)
      (by simpa using hnames)
    rw [hlisted]
    simp only [hget, Isolate.pure_bind, List.nil_append]

end Fields

/-! ### The round trip -/

theorem sortFields_object_eq {ps qs : List (Named JsString JsValue)} {f g : JsValue → JsValue}
    (hperm : qs.Perm ps) (hnames : (ps.map (·.name)).Nodup)
    (h : ∀ q ∈ ps, (f q.value).sortFields = (g q.value).sortFields) :
    JsValue.sortFields (.object .plain (qs.map fun q => ⟨q.name, f q.value⟩)) =
      JsValue.sortFields (.object .plain (ps.map fun q => ⟨q.name, g q.value⟩)) := by
  simp only [JsValue.sortFields, JsValue.sortProperties_eq, List.map_map, Function.comp_def]
  congr 1
  have hmap : (ps.map fun q => (⟨q.name, (g q.value).sortFields⟩ : Named JsString JsValue)) =
      ps.map fun q => ⟨q.name, (f q.value).sortFields⟩ := by
    refine List.map_congr_left fun q hq => ?_
    rw [h q hq]
  rw [hmap]
  refine sortOn_eq_of_perm ?_ (hperm.map _)
  rw [List.map_map]
  exact (hperm.map _).nodup_iff.mpr hnames

/-- The round trip of an array is the array of the round trips. -/
theorem returned_array {es : List (Option JsValue)} (ps : List (Named JsString JsValue))
    (hes : ∀ e ∈ es, returned p (e.getD .undefined) =
      pure (returned p (e.getD .undefined)).value) :
    returned p (.array es ps) =
      pure (v8Array (es.map fun e => (returned p (e.getD .undefined)).value)) := by
  have hpure : ∀ c ∈ es.map fun e => (gemfireValue p (e.getD .undefined)).value,
      v8Value p c = pure (v8Value p c).value := by
    intro c hc
    obtain ⟨e, he, rfl⟩ := List.mem_map.mp hc
    exact hes e he
  have helements : v8Elements p (gemfireElements p es).value =
      pure (es.map fun e => (returned p (e.getD .undefined)).value) := by
    rw [gemfireElements_value, v8Elements_of_pure p hpure, List.map_map]
    rfl
  simp [returned, gemfireValue, v8Value, v8Cacheable, helements]

/-- The round trip of an object reads the fields of the instance that was built. -/
theorem returned_plain {ps : List (Named JsString JsValue)} (hbuilds : Builds p ps) :
    returned p (.object .plain ps) = v8PdxInstance p (returnedFields p ps) := by
  rw [returned, gemfireValue, (gemfireObject_of_builds hbuilds).1]
  simp only [v8Value, v8Cacheable, v8PdxFields_eq, List.map_map, Function.comp_def]
  rfl

/-- The round trip of an object gives back its properties when that of their values does. -/
theorem returned_eq_of_properties (hp : p.Faithful) {ps : List (Named JsString JsValue)}
    (hdistinct : (ps.map (fieldName ·.name)).Nodup) (hnames : ∀ q ∈ ps, NameSurvives p q.name)
    (hproto : ∀ q ∈ ps, q.name ≠ .ofAscii "__proto__")
    (hvalues : ∀ q ∈ ps, returned p q.value = pure (returned p q.value).value ∧
      (returned p q.value).value.sortFields = q.value.norm.sortFields) :
    returned p (.object .plain ps) = pure (returned p (.object .plain ps)).value ∧
      (returned p (.object .plain ps)).value.sortFields =
        (JsValue.object .plain ps).norm.sortFields := by
  have hsurvive : ∀ q ∈ ps, NameSurvives p q.name ∧ q.name ≠ .ofAscii "__proto__" ∧
      returned p q.value = pure (returned p q.value).value :=
    fun q hq => ⟨hnames q hq, hproto q hq, (hvalues q hq).1⟩
  obtain ⟨qs, hperm, hinstance⟩ := v8PdxInstance_returnedFields hp hdistinct hsurvive
  have hbuilds := builds_of_survives hp hdistinct hnames
  have hreturned := (returned_plain hbuilds).trans hinstance
  rw [hreturned]
  refine ⟨rfl, ?_⟩
  simp only [Isolate.pure_value, JsValue.norm, JsValue.normProperties_eq]
  exact sortFields_object_eq (f := fun v => (returned p v).value) (g := JsValue.norm) hperm
    (names_nodup hdistinct) fun q hq => (hvalues q hq).2

/-- The round trip of a value that survives runs through without an exception
    and gives back its normal form. -/
theorem returned_eq (hp : p.Faithful) {v : JsValue} (hv : Survives p v) :
    returned p v = pure (returned p v).value ∧
      (returned p v).value.sortFields = v.norm.sortFields := by
  induction hv with
  | undefined => exact ⟨rfl, rfl⟩
  | null => exact ⟨rfl, rfl⟩
  | boolean b => exact ⟨rfl, rfl⟩
  | number n => exact ⟨rfl, rfl⟩
  | string s h =>
    have hreturned : returned p (.string s) = pure (.string s) := by
      change pure (JsValue.string (v8ValueString (.create (wstringFromV8String s)))) = _
      rw [h]
    rw [hreturned]
    exact ⟨rfl, rfl⟩
  | date t ps h =>
    have hreturned : returned p (.object (.date t) ps) = pure (.object (.date t) []) := by
      change pure (JsValue.object (.date (v8Date (gemfireDate t))) []) = _
      rw [h]
    rw [hreturned]
    exact ⟨rfl, rfl⟩
  | stringObject s ps h =>
    have hreturned : returned p (.object (.stringObject s) ps) = pure (.string s) := by
      change pure (JsValue.string (v8ValueString (.create (wstringFromV8String s)))) = _
      rw [h]
    rw [hreturned]
    exact ⟨rfl, rfl⟩
  | numberObject n ps => exact ⟨rfl, rfl⟩
  | booleanObject b ps => exact ⟨rfl, rfl⟩
  | array es ps _ ih =>
    -- a hole has been written as `undefined`
    have hes : ∀ e ∈ es, returned p (e.getD .undefined) =
          pure (returned p (e.getD .undefined)).value ∧
        (returned p (e.getD .undefined)).value.sortFields =
          (e.getD .undefined).norm.sortFields := by
      intro e he
      cases e with
      | none => exact ⟨rfl, rfl⟩
      | some e => exact ih e he
    have hreturned := returned_array ps fun e he => (hes e he).1
    rw [hreturned]
    refine ⟨rfl, ?_⟩
    simp only [Isolate.pure_value, v8Array, JsValue.norm, JsValue.sortFields,
      JsValue.sortElements_eq, JsValue.normElements_eq, List.map_map]
    congr 1
    refine List.map_congr_left fun e he => ?_
    simp [(hes e he).2]
  | plain ps distinct names proto _ ih => exact returned_eq_of_properties hp distinct names proto ih
  | nativeError m ps distinct names proto _ ih =>
    -- an Error object is written as its enumerable properties and comes back as a plain object
    exact returned_eq_of_properties hp distinct names proto ih

/-- **Value round trip**: neither conversion schedules an exception, and
    `v8Value` gives back the normal form of what was put, up to the order of the
    fields of objects. -/
theorem v8Value_gemfireValue (hp : p.Faithful) (v : JsValue) (hv : Survives p v) :
    (gemfireValue p v).thrown = [] ∧
      ∃ r, v8Value p (gemfireValue p v).value = pure r ∧ r.sortFields = v.norm.sortFields :=
  ⟨(gemfireValue_thrown_eq_nil_iff v).mpr (hv.serializable hp), _, (returned_eq hp hv).1,
    (returned_eq hp hv).2⟩

/-- `[, Object("x"), {"a": null, "b": [undefined, true]}, {}, error]`, where `error` is an
    `Error` with the property `code`. -/
def nestedValue : JsValue :=
  .array [none, some (.object (.stringObject (.ofAscii "x")) []),
    some (.object .plain [⟨.ofAscii "a", .null⟩,
      ⟨.ofAscii "b", .array [some .undefined, some (.boolean true)] []⟩]),
    some (.object .plain []),
    some (.object (.nativeError "failed") [⟨.ofAscii "code", .string (.ofAscii "E")⟩])] []

theorem nestedValue_survives : Survives nativeClient nestedValue := by
  refine .array _ _ ?_
  intro e he
  simp only [List.mem_cons, Option.some.injEq, List.not_mem_nil, or_false, reduceCtorEq,
    false_or] at he
  have hname {name : JsString} (hne : fieldName name ≠ [])
      (hback : nanNew (fieldName name) = name) : NameSurvives nativeClient name :=
    ⟨nativeClient_accepts hne, hback⟩
  rcases he with rfl | rfl | rfl | rfl
  · exact .stringObject _ _ (show _ = _ by decide)
  · refine .plain _ (by decide) ?_ (by decide) ?_
    · intro q hq
      exact hname (by revert q; decide) (by revert q; decide)
    · intro q hq
      simp only [List.mem_cons, List.not_mem_nil, or_false] at hq
      rcases hq with rfl | rfl
      · exact .null
      · refine .array _ _ ?_
        intro e he
        simp only [List.mem_cons, Option.some.injEq, List.not_mem_nil, or_false] at he
        rcases he with rfl | rfl
        · exact .undefined
        · exact .boolean true
  · exact .plain _ List.nodup_nil (by simp) (by simp) (by simp)
  · refine .nativeError _ _ (by decide) ?_ (by decide) ?_
    · intro q hq
      exact hname (by revert q; decide) (by revert q; decide)
    · intro q hq
      rw [List.mem_singleton.mp hq]
      exact .string _ (show _ = _ by decide)

theorem v8Value_gemfireValue_nestedValue :
    (gemfireValue nativeClient nestedValue).thrown = [] ∧
      ∃ r, v8Value nativeClient (gemfireValue nativeClient nestedValue).value = pure r ∧
        r.sortFields = nestedValue.norm.sortFields :=
  v8Value_gemfireValue nativeClient_faithful nestedValue nestedValue_survives

end NodeGemfire
