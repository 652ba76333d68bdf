import NodeGemfire.Lib.Decoding
import NodeGemfire.Conversions.FromGemfire
import NodeGemfire.Conversions.Serializable

/-!
# Strings across the boundary

A string crosses as wide characters, where it is a value or a key, or as UTF-8,
where it names a field. Both ways go through a buffer that is read up to the
first NUL; UTF-8 has no place for a lone surrogate either.

## Main definitions

- `StringUse` — the places where a string crosses
- `StringUse.Survives` — the string comes back as it was
- `StringUse.Carries` — what the way a string takes has room for
-/

namespace NodeGemfire

variable {p : Platform}

/-! ### The two ways -/

theorem wstringFromV8String_eq (s : JsString) :
    wstringFromV8String s = (cString s).map (·.toUInt32) := by
  have hzero (u : UInt16) : u.toUInt32 = 0 ↔ u = 0 := by
    rw [← UInt32.toNat_inj, ← UInt16.toNat_inj]
    simp
  rw [wstringFromV8String, cString_append_zero, cString_map hzero]

theorem v8StringFromWstring_map (s : JsString) :
    v8StringFromWstring (s.map (·.toUInt32)) = cString s := by
  rw [v8StringFromWstring, cString_append_zero, List.map_map]
  have hid : (fun u : UInt32 => u.toUInt16) ∘ (fun u : UInt16 => u.toUInt32) = id := by
    funext u
    simp
  rw [hid, List.map_id]

/-- As wide characters, a string comes back up to its first NUL. -/
theorem v8ValueString_create (s : JsString) :
    v8ValueString (.create (wstringFromV8String s)) = cString s := by
  have hcut : cString (wstringFromV8String s) = wstringFromV8String s := by
    rw [wstringFromV8String, cString_cString]
  rw [CacheableString.create, v8ValueString, hcut, hcut, wstringFromV8String_eq,
    v8StringFromWstring_map, cString_cString]

/-- What was read of a stored string is stored in the same way. -/
theorem wstringFromV8String_v8ValueString (s : JsString) :
    wstringFromV8String (v8ValueString (.create (wstringFromV8String s))) =
      wstringFromV8String s := by
  rw [v8ValueString_create, wstringFromV8String_eq, wstringFromV8String_eq, cString_cString]

/-- As a field name, it comes back up to its first NUL with lone surrogates replaced. -/
theorem nanNew_fieldName (s : JsString) :
    nanNew (fieldName s) = Unicode.toWellFormed (cString s) := by
  rw [nanNew, fieldName, cString_cString, Unicode.utf16OfUtf8_cString_utf8OfUtf16]

/-- A NUL-terminated text in UTF-8 has room for the string: no NUL and no lone surrogate. -/
def HasUtf8 (s : JsString) : Prop := 0 ∉ s ∧ Unicode.isWellFormed s = true

instance (s : JsString) : Decidable (HasUtf8 s) := inferInstanceAs (Decidable (_ ∧ _))

theorem nanNew_fieldName_eq_iff {s : JsString} : nanNew (fieldName s) = s ↔ HasUtf8 s := by
  rw [nanNew_fieldName]
  exact Unicode.toWellFormed_cString_eq_self_iff

/-- A name that was read has no NUL and no lone surrogate. -/
theorem hasUtf8_nanNew (chars : Bytes) : HasUtf8 (nanNew chars) :=
  Unicode.utf16OfUtf8_wellFormed (zero_not_mem_cString chars)

/-- Read back and written again, a field name is what it was. -/
theorem fieldName_nanNew_fieldName (s : JsString) :
    fieldName (nanNew (fieldName s)) = fieldName s := by
  rw [nanNew_fieldName, fieldName, Unicode.utf8OfUtf16_toWellFormed, ← Unicode.cString_utf8OfUtf16,
    cString_cString, fieldName]

/-! ### The uses of a string -/

/-- A value, the key of an entry, the key that `gemfireHashMap` makes of a property
    name, and the name of a PDX field. -/
inductive StringUse
  | value
  | key
  | entryKey
  | fieldName

/-- What the native client gets. -/
inductive NativeString
  | cacheable (value : CacheablePtr)
  | pdxField (name : Bytes)

namespace StringUse

/-- The conversion to a native string. -/
def convert (p : Platform) (s : JsString) : StringUse → NativeString
  | .value => .cacheable (gemfireValue p (.string s)).value
  | .key | .entryKey => .cacheable (gemfireKey p (.string s)).value
  | .fieldName => .pdxField (NodeGemfire.fieldName s)

end StringUse

/-- The conversion back. -/
def NativeString.v8Value (p : Platform) : NativeString → JsValue
  | .cacheable value => (NodeGemfire.v8Value p value).value
  | .pdxField name => .string (nanNew name)

namespace StringUse

def Survives (p : Platform) (use : StringUse) (s : JsString) : Prop :=
  (use.convert p s).v8Value p = .string s

/-- No NUL, and in a field name no lone surrogate. -/
def Carries (s : JsString) : StringUse → Prop
  | .value | .key | .entryKey => 0 ∉ s
  | .fieldName => 0 ∉ s ∧ Unicode.isWellFormed s = true

/-- A string used as a key is converted as a value is. -/
theorem convert_key (s : JsString) : key.convert p s = value.convert p s := by
  rw [convert, convert, gemfireKey_value]
  rfl

theorem convert_entryKey (s : JsString) : entryKey.convert p s = value.convert p s := convert_key s

theorem survives_value_iff {s : JsString} : value.Survives p s ↔ 0 ∉ s := by
  have hback : (value.convert p s).v8Value p = .string (cString s) := by
    rw [← v8ValueString_create s]
    rfl
  rw [Survives, hback, JsValue.string.injEq, cString_eq_self_iff]

theorem survives_iff {use : StringUse} {s : JsString} : use.Survives p s ↔ use.Carries s := by
  cases use with
  | value => exact survives_value_iff
  | key => rw [Survives, convert_key]; exact survives_value_iff
  | entryKey => rw [Survives, convert_entryKey]; exact survives_value_iff
  | fieldName =>
    have hback : (fieldName.convert p s).v8Value p =
        .string (Unicode.toWellFormed (cString s)) := by
      rw [← nanNew_fieldName s]
      rfl
    rw [Survives, hback, JsValue.string.injEq, Unicode.toWellFormed_cString_eq_self_iff]
    rfl

/-! ### Where the uses occur -/

/-- The keys that `gemfireHashMap` inserts are the property names, converted. -/
theorem convert_entryKey_of_insertEntries {ps : List (Named JsString JsValue)}
    {hashMap entries : HashMapOfCacheable}
    (hinsert : ∀ entries key value, p.insert entries key value = entries ++ [⟨key, value⟩])
    (h : (insertEntries p hashMap ps).value = some entries) :
    entries.map (NativeString.cacheable ·.name) =
      hashMap.map (NativeString.cacheable ·.name) ++ ps.map fun q => entryKey.convert p q.name := by
  induction ps generalizing hashMap with
  | nil =>
    obtain rfl : hashMap = entries := by simpa [insertEntries] using h
    simp
  | cons q ps ih =>
    simp only [insertEntries, Isolate.bind_value] at h
    cases hvalue : (gemfireValue p q.value).value with
    | none => simp [hvalue] at h
    | some value =>
      simp only [hvalue, hinsert] at h
      rw [ih h]
      simp [convert]

/-- The fields of the instance made of an object have its property names, converted. -/
theorem convert_fieldName_of_builds {ps : List (Named JsString JsValue)} (hb : Builds p ps) :
    ∃ className fields, (gemfireValue p (.object .plain ps)).value =
        some (.pdxInstance className fields) ∧
      fields.map (NativeString.pdxField ·.name) = ps.map fun q => fieldName.convert p q.name := by
  refine ⟨_, _, by rw [gemfireValue, (gemfireObject_of_builds hb).1], ?_⟩
  simp [convert]

/-! ### Which strings survive -/

/-- Two strings come back as they were, and are different for the client if they are
    different, if and only if there is room for both. -/
theorem survive_iff (p : Platform) (use : StringUse) (s t : JsString) :
    (use.Survives p s ∧ use.Survives p t ∧ (use.convert p s = use.convert p t → s = t)) ↔
      use.Carries s ∧ use.Carries t := by
  rw [← survives_iff (p := p), ← survives_iff (p := p)]
  constructor
  · rintro ⟨hs, ht, -⟩
    exact ⟨hs, ht⟩
  · rintro ⟨hs, ht⟩
    refine ⟨hs, ht, fun heq => ?_⟩
    have hback : JsValue.string s = .string t := by
      rw [← hs, ← ht, heq]
    exact JsValue.string.inj hback

/-- `"a\x00b"` as a key is the key `"a"`. -/
theorem not_survive_nul : ¬∀ (p : Platform) (use : StringUse) (s t : JsString),
    use.Survives p s ∧ use.Survives p t ∧ (use.convert p s = use.convert p t → s = t) := by
  intro h
  have hinj := (h nativeClient .key [97, 0, 98] [97]).2.2 rfl
  exact absurd hinj (by decide)

end StringUse

end NodeGemfire
