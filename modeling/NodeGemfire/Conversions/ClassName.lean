import NodeGemfire.Conversions.ToGemfire
import NodeGemfire.Lib.OrderedSet
import NodeGemfire.Lib.PrefixCode

/-!
# The PDX class of an object

`getClassName` writes each field name with the characters that have a meaning
escaped, marks arrays and ends the name with a comma, and puts what it has
written in order. The names so written form a prefix code, so that the class
name tells which they were.

## Main definitions

- `FieldCode` — what `fullFieldName` writes
- `getClassName_eq_iff` — the class name identifies the shape of the object
-/

namespace NodeGemfire

/-! ### One field name -/

/-- The characters that are escaped. -/
def isSpecial (c : UInt8) : Prop := c ∈ Bytes.ofAscii ",[]\\"

instance (c : UInt8) : Decidable (isSpecial c) := inferInstanceAs (Decidable (_ ∈ _))

theorem escapeChar_of_special {c : UInt8} (h : isSpecial c) : escapeChar c = [92, c] := if_pos h

theorem escapeChar_of_not_special {c : UInt8} (h : ¬isSpecial c) : escapeChar c = [c] := if_neg h

/-- What ends a field name. -/
def fieldEnd (isArray : Bool) : Bytes :=
  (if isArray then Bytes.ofAscii "[]" else []) ++ Bytes.ofAscii ","

theorem fullFieldName_eq (name : Bytes) (isArray : Bool) :
    fullFieldName name isArray = name.flatMap escapeChar ++ fieldEnd isArray := by
  rw [fullFieldName, fieldEnd, List.append_assoc]

/-- An escaped character ends no field name. -/
theorem fieldEnd_append_ne (isArray : Bool) (c : UInt8) (rest rest' : Bytes) :
    fieldEnd isArray ++ rest ≠ escapeChar c ++ rest' := by
  intro h
  by_cases hc : isSpecial c
  · rw [escapeChar_of_special hc] at h
    cases isArray <;> simp [fieldEnd, Bytes.ofAscii] at h
  · rw [escapeChar_of_not_special hc] at h
    have hfirst : c = 91 ∨ c = 44 := by
      cases isArray <;> simp [fieldEnd, Bytes.ofAscii] at h
      · exact .inr h.1.symm
      · exact .inl h.1.symm
    apply hc
    rcases hfirst with rfl | rfl <;> decide

theorem escapeChar_append_inj {c c' : UInt8} {rest rest' : Bytes}
    (h : escapeChar c ++ rest = escapeChar c' ++ rest') : c = c' ∧ rest = rest' := by
  have hbackslash : isSpecial 92 := by decide
  by_cases hc : isSpecial c <;> by_cases hc' : isSpecial c'
  · simpa [escapeChar_of_special, hc, hc'] using h
  · -- an escape begins with a backslash, which stands for itself nowhere
    simp only [escapeChar_of_special hc, escapeChar_of_not_special hc', List.cons_append,
      List.cons.injEq] at h
    exact absurd (h.1 ▸ hbackslash) hc'
  · simp only [escapeChar_of_not_special hc, escapeChar_of_special hc', List.cons_append,
      List.cons.injEq] at h
    exact absurd (h.1 ▸ hbackslash) hc
  · simpa [escapeChar_of_not_special, hc, hc'] using h

theorem fieldEnd_append_inj {isArray isArray' : Bool} {rest rest' : Bytes}
    (h : fieldEnd isArray ++ rest = fieldEnd isArray' ++ rest') :
    isArray = isArray' ∧ rest = rest' := by
  cases isArray <;> cases isArray' <;> simp_all [fieldEnd, Bytes.ofAscii]

/-- Where one field name ends, and what it is, can be read off whatever follows. -/
theorem fullFieldName_append_inj {name name' rest rest' : Bytes} {isArray isArray' : Bool}
    (h : fullFieldName name isArray ++ rest = fullFieldName name' isArray' ++ rest') :
    name = name' ∧ isArray = isArray' ∧ rest = rest' := by
  rw [fullFieldName_eq, fullFieldName_eq, List.append_assoc, List.append_assoc] at h
  induction name generalizing name' with
  | nil =>
    cases name' with
    | nil =>
      obtain ⟨harray, hrest⟩ := fieldEnd_append_inj h
      exact ⟨rfl, harray, hrest⟩
    | cons c' name' =>
      rw [List.flatMap_cons, List.append_assoc] at h
      exact absurd h (fieldEnd_append_ne _ _ _ _)
  | cons c name ih =>
    cases name' with
    | nil =>
      rw [List.flatMap_cons, List.append_assoc] at h
      exact absurd h.symm (fieldEnd_append_ne _ _ _ _)
    | cons c' name' =>
      rw [List.flatMap_cons, List.flatMap_cons, List.append_assoc, List.append_assoc] at h
      obtain ⟨rfl, hrest⟩ := escapeChar_append_inj h
      obtain ⟨rfl, harray, hrest⟩ := ih hrest
      exact ⟨rfl, harray, hrest⟩

/-- What `fullFieldName` writes. -/
def FieldCode : Set Bytes := {w | ∃ name isArray, w = fullFieldName name isArray}

theorem fieldCode_prefixFree : PrefixFree FieldCode where
  nonempty := by
    rintro w ⟨name, isArray, rfl⟩ hnil
    simp [fullFieldName, Bytes.ofAscii] at hnil
  eq_of_prefix := by
    rintro w ⟨name, isArray, rfl⟩ w' ⟨name', isArray', rfl⟩ ⟨rest, hrest⟩
    rw [← List.append_nil (fullFieldName name' isArray')] at hrest
    obtain ⟨rfl, rfl, -⟩ := fullFieldName_append_inj hrest
    rfl

theorem fullFieldName_injective : Function.Injective fun f : Bytes × Bool =>
    fullFieldName f.1 f.2 := by
  rintro ⟨name, isArray⟩ ⟨name', isArray'⟩ h
  have happend : fullFieldName name isArray ++ [] = fullFieldName name' isArray' ++ [] :=
    congrArg (· ++ []) h
  obtain ⟨rfl, rfl, -⟩ := fullFieldName_append_inj happend
  rfl

/-! ### The set of field names -/

/-- The order of `std::string`. -/
local instance : LinearOrder Bytes where
  le a b := a ≤ b
  lt a b := a < b
  le_refl _ := Std.le_refl _
  le_trans _ _ _ := Std.le_trans
  le_antisymm _ _ := Std.le_antisymm
  le_total _ _ := Std.le_total
  lt_iff_le_not_ge _ _ := Std.lt_iff_le_and_not_ge
  toDecidableLE a b := inferInstanceAs (Decidable (a ≤ b))
  toDecidableLT a b := inferInstanceAs (Decidable (a < b))
  toOrd := { compare := fun a b : Bytes => compareOfLessAndEq a b }
  compare_eq_compareOfLessAndEq _ _ := rfl

theorem setInsert_eq (x : Bytes) (names : List Bytes) :
    setInsert x names = OrderedSet.insertList id x names := by
  induction names with
  | nil => rfl
  | cons y ys ih =>
    rw [setInsert, OrderedSet.insertList, ih]
    rfl

/-- The field names as they stand in the set. -/
def fieldNames (fields : List (Bytes × Bool)) : OrderedSet (id : Bytes → Bytes) :=
  .ofList id (fields.map fun f => fullFieldName f.1 f.2)

theorem getClassName_eq (fields : List (Bytes × Bool)) :
    getClassName fields = Bytes.ofAscii "JSON: " ++ (fieldNames fields).toList.flatten := by
  have hfold (names : OrderedSet (id : Bytes → Bytes)) :
      fields.foldl (fun names f => setInsert (fullFieldName f.1 f.2) names) names.toList =
        ((fields.map fun f => fullFieldName f.1 f.2).foldl OrderedSet.insert names).toList := by
    induction fields generalizing names with
    | nil => rfl
    | cons f fields ih =>
      rw [List.foldl_cons, List.map_cons, List.foldl_cons, setInsert_eq]
      exact ih (names.insert (fullFieldName f.1 f.2))
  exact congrArg (fun names => Bytes.ofAscii "JSON: " ++ names.flatten) (hfold (.empty id))

theorem mem_fieldNames_iff {w : Bytes} {fields : List (Bytes × Bool)} :
    w ∈ (fieldNames fields).toList ↔ ∃ f ∈ fields, fullFieldName f.1 f.2 = w := by
  rw [fieldNames, OrderedSet.mem_ofList_iff Function.injective_id, List.mem_map]

/-- The class name tells which fields there are, and which of them are arrays. -/
theorem getClassName_eq_iff_mem {fields fields' : List (Bytes × Bool)} :
    getClassName fields = getClassName fields' ↔ ∀ f, f ∈ fields ↔ f ∈ fields' := by
  have hcode (fields : List (Bytes × Bool)) : ∀ w ∈ (fieldNames fields).toList, w ∈ FieldCode := by
    intro w hw
    obtain ⟨f, -, rfl⟩ := mem_fieldNames_iff.mp hw
    exact ⟨f.1, f.2, rfl⟩
  have hmem (fields : List (Bytes × Bool)) (f : Bytes × Bool) :
      fullFieldName f.1 f.2 ∈ (fieldNames fields).toList ↔ f ∈ fields := by
    rw [mem_fieldNames_iff]
    constructor
    · rintro ⟨f', hf', heq⟩
      exact fullFieldName_injective heq ▸ hf'
    · intro hf
      exact ⟨f, hf, rfl⟩
  rw [getClassName_eq, getClassName_eq]
  constructor
  · intro h f
    have hnames := fieldCode_prefixFree.flatten_injective (hcode fields) (hcode fields')
      (List.append_cancel_left h)
    rw [← hmem fields f, ← hmem fields' f, hnames]
  · intro h
    have hnames : (fieldNames fields).toList = (fieldNames fields').toList := by
      refine OrderedSet.toList_eq_of_mem_iff fun w => ?_
      rw [mem_fieldNames_iff, mem_fieldNames_iff]
      exact exists_congr fun f => and_congr_left fun _ => h f
    rw [hnames]

/-! ### The shape of an object -/

/-- What `getClassName` reads of an object with these fields. -/
def fieldFlags (fields : List (Named Bytes JsValue)) : List (Bytes × Bool) :=
  fields.map fun f => (f.name, f.value.isArray && !f.value.isString)

theorem mem_fieldFlags_iff {name : Bytes} {isArray : Bool} {fields : List (Named Bytes JsValue)} :
    (name, isArray) ∈ fieldFlags fields ↔
      ∃ f ∈ fields, f.name = name ∧ f.value.isArray = isArray := by
  have harray (v : JsValue) : (v.isArray && !v.isString) = v.isArray := by cases v <;> rfl
  simp [fieldFlags, harray]

theorem shape_eq (properties : List (Named JsString JsValue)) :
    shape properties =
      fieldFlags (properties.map fun q => ⟨Unicode.utf8OfUtf16 q.name, q.value⟩) := by
  simp [shape, fieldFlags]

/-- **The class name identifies the shape**: two objects have the same class name
    if and only if they have the same field names, with arrays under the same of
    them. -/
theorem getClassName_eq_iff (fields fields' : List (Named Bytes JsValue)) :
    getClassName (fieldFlags fields) = getClassName (fieldFlags fields') ↔
      ∀ name isArray, (∃ f ∈ fields, f.name = name ∧ f.value.isArray = isArray) ↔
        ∃ f ∈ fields', f.name = name ∧ f.value.isArray = isArray := by
  rw [getClassName_eq_iff_mem]
  constructor
  · intro h name isArray
    rw [← mem_fieldFlags_iff, ← mem_fieldFlags_iff]
    exact h (name, isArray)
  · rintro h ⟨name, isArray⟩
    rw [mem_fieldFlags_iff, mem_fieldFlags_iff]
    exact h name isArray

end NodeGemfire
