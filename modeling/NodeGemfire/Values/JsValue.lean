import NodeGemfire.Lib.Double

/-!
# JavaScript values

The values the conversions distinguish, as finite trees. An own data property
is a name with a value; the properties of an object stand in the order in which
V8 enumerates them. The elements of an array are a list in which a hole is
`none`; further named properties of an array stand beside them.
-/

namespace NodeGemfire

/-- A JavaScript string: any sequence of 16-bit code units. -/
abbrev JsString := List UInt16

/-- The string with the characters of an ASCII literal. -/
def JsString.ofAscii (s : String) : JsString := s.toList.map fun c => UInt16.ofNat c.toNat

/-- A JavaScript number: the values of a double. -/
inductive Number
  | nan
  | infinity (negative : Bool)
  | negativeZero
  | finite (value : Double)

/-- The time value of a Date: a whole number of milliseconds within 10^8 days of
    the epoch, or `none` for an invalid Date. -/
abbrev TimeValue := Option {ms : ℤ // |ms| ≤ 8640000000000000}

/-- A named value: an own data property, or a field of a native object. -/
structure Named (ν α : Type) where
  name : ν
  value : α

/-- What the type tests of V8 tell apart among the objects that are not arrays. -/
inductive ObjectKind
  | plain
  | function
  | date (time : TimeValue)
  | stringObject (value : JsString)
  | numberObject (value : Number)
  | booleanObject (value : Bool)
  | nativeError (message : String)

/-- A JavaScript value. `symbol` stands for every primitive with no conversion,
    with the text `ToDetailString` gives for it. -/
inductive JsValue
  | undefined
  | null
  | boolean (value : Bool)
  | number (value : Number)
  | string (value : JsString)
  | symbol (detail : String)
  | array (elements : List (Option JsValue)) (properties : List (Named JsString JsValue))
  | object (kind : ObjectKind) (properties : List (Named JsString JsValue))

namespace JsValue

/-- Induction with one hypothesis for each element and for each property. -/
@[elab_as_elim] theorem induction {P : JsValue → Prop} (undefined : P .undefined) (null : P .null)
    (boolean : ∀ b, P (.boolean b)) (number : ∀ n, P (.number n)) (string : ∀ s, P (.string s))
    (symbol : ∀ d, P (.symbol d))
    (array : ∀ es ps, (∀ e, some e ∈ es → P e) → (∀ p ∈ ps, P p.value) → P (.array es ps))
    (object : ∀ k ps, (∀ p ∈ ps, P p.value) → P (.object k ps)) (v : JsValue) : P v := by
  refine @JsValue.rec P (fun es => ∀ e, some e ∈ es → P e) (fun ps => ∀ p ∈ ps, P p.value)
    (fun e => ∀ e', e = some e' → P e') (fun p => P p.value) undefined null boolean number string
    symbol array object ?_ ?_ ?_ ?_ ?_ ?_ ?_ v
  · simp
  · intro head tail hhead htail e he
    rcases List.mem_cons.mp he with h | h
    · exact hhead e h.symm
    · exact htail e h
  · simp
  · intro head tail hhead htail p hp
    rcases List.mem_cons.mp hp with h | h
    · rw [h]
      exact hhead
    · exact htail p h
  · simp
  · intro val hval e' he
    cases he
    exact hval
  · intro name value hvalue
    exact hvalue

/-! ### The type tests -/

def isUndefined : JsValue → Bool
  | .undefined => true
  | _ => false

def isString : JsValue → Bool
  | .string _ => true
  | _ => false

def isBoolean : JsValue → Bool
  | .boolean _ => true
  | _ => false

def isNumber : JsValue → Bool
  | .number _ => true
  | _ => false

def isNull : JsValue → Bool
  | .null => true
  | _ => false

def isArray : JsValue → Bool
  | .array _ _ => true
  | _ => false

def isFunction : JsValue → Bool
  | .object .function _ => true
  | _ => false

def isObject : JsValue → Bool
  | .array _ _ | .object _ _ => true
  | _ => false

def isNativeError : JsValue → Bool
  | .object (.nativeError _) _ => true
  | _ => false

theorem isUndefined_iff {v : JsValue} : v.isUndefined = true ↔ v = .undefined := by
  cases v <;> simp [isUndefined]

theorem isString_iff {v : JsValue} : v.isString = true ↔ ∃ s, v = .string s := by
  cases v <;> simp [isString]

theorem isBoolean_iff {v : JsValue} : v.isBoolean = true ↔ ∃ b, v = .boolean b := by
  cases v <;> simp [isBoolean]

theorem isNumber_iff {v : JsValue} : v.isNumber = true ↔ ∃ n, v = .number n := by
  cases v <;> simp [isNumber]

/-! ### Properties -/

/-- The name of the array index `i`. -/
def indexName (i : ℕ) : JsString := (Nat.toDigits 10 i).map fun c => UInt16.ofNat c.toNat

/-- The elements that are present, named by their index from `i` on. -/
def elementProperties (i : ℕ) : List (Option JsValue) → List (Named JsString JsValue)
  | [] => []
  | none :: es => elementProperties (i + 1) es
  | some e :: es => ⟨indexName i, e⟩ :: elementProperties (i + 1) es

/-- `GetOwnPropertyNames` with the value of each name: the own enumerable
    properties under string names. -/
def ownProperties : JsValue → List (Named JsString JsValue)
  | .array es ps => elementProperties 0 es ++ ps
  | .object (.stringObject s) ps =>
    elementProperties 0 (s.map fun u => some (.string [u])) ++ ps
  | .object _ ps => ps
  | _ => []

/-- `Get` of an own property; a name that is missing reads as `undefined`. -/
def get (v : JsValue) (name : JsString) : JsValue :=
  match v.ownProperties.find? (·.name = name) with
  | some p => p.value
  | none => .undefined

/-- `Nan::Set` on an object under construction: replace or add the property.
    Setting `__proto__` adds none. -/
def setProperty (ps : List (Named JsString JsValue)) (name : JsString) (value : JsValue) :
    List (Named JsString JsValue) :=
  if name = .ofAscii "__proto__" then ps
  else if ps.any (·.name = name) then
    ps.map fun p => if p.name = name then ⟨name, value⟩ else p
  else ps ++ [⟨name, value⟩]

end JsValue

end NodeGemfire
