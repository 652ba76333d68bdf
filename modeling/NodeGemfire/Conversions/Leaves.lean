import NodeGemfire.Values.Cacheable

/-!
# Conversion of strings, dates and class names

The parts of `conversions.cpp` that work on characters and on machine integers:
the two ways a string crosses the boundary, the name of the PDX class of an
object, the milliseconds of a Date, and the number delivered for a 64-bit
integer.
-/

namespace NodeGemfire

def Bytes.ofAscii (s : String) : Bytes := s.toList.map fun c => UInt8.ofNat c.toNat

/-! ### Strings -/

/-- The code units go to a buffer of `wchar_t` with a terminator, and the
    `std::wstring` is made from the pointer alone. -/
def wstringFromV8String (v8String : JsString) : WString :=
  cString (v8String.map (·.toUInt32) ++ [0])

/-- Each `wchar_t` is cut to 16 bits, and the string is made from the pointer. -/
def v8StringFromWstring (wideString : WString) : JsString :=
  cString (wideString.map (·.toUInt16) ++ [0])

/-- `CacheableString::create` on a NUL-terminated wide string. -/
def CacheableString.create (chars : WString) : CacheableString := .wide (cString chars)

/-- `Nan::New` on a NUL-terminated `char *`. -/
def nanNew (chars : Bytes) : JsString := Unicode.utf16OfUtf8 (cString chars)

def v8ValueString : CacheableString → JsString
  | .wide chars => v8StringFromWstring (cString chars)
  | .ascii chars => nanNew chars

/-- `*Nan::Utf8String(v8Key)` as the native client reads it. -/
def fieldName (v8Key : JsString) : Bytes := cString (Unicode.utf8OfUtf16 v8Key)

/-! ### The PDX class of an object -/

/-- Commas, brackets and backslashes are escaped. -/
def escapeChar (c : UInt8) : Bytes :=
  if c ∈ Bytes.ofAscii ",[]\\" then Bytes.ofAscii "\\" ++ [c] else [c]

def fullFieldName (name : Bytes) (isArray : Bool) : Bytes :=
  name.flatMap escapeChar ++ (if isArray then Bytes.ofAscii "[]" else []) ++ Bytes.ofAscii ","

/-- `std::set<std::string>::insert`, on the members in increasing order. -/
def setInsert (x : Bytes) : List Bytes → List Bytes
  | [] => [x]
  | y :: ys => if x < y then x :: y :: ys else if y < x then y :: setInsert x ys else y :: ys

/-- The class name of an object with these field names, each with whether its
    value is an array. -/
def getClassName (fields : List (Bytes × Bool)) : Bytes :=
  let fieldNames := fields.foldl (fun names f => setInsert (fullFieldName f.1 f.2) names) []
  Bytes.ofAscii "JSON: " ++ fieldNames.flatten

/-- The class name does not depend on the order of the fields. -/
example : getClassName [(Bytes.ofAscii "b", true), (Bytes.ofAscii "a,", false)] =
    Bytes.ofAscii "JSON: a\\,,b[]," := by decide

/-! ### Dates -/

/-- `long int millisecondsSinceEpoch = v8Date->NumberValue()`; a NaN converts to
    the least `long`. -/
def millisecondsSinceEpoch : TimeValue → ℤ
  | some ms => ms
  | none => -2 ^ 63

/-- A `system_clock` time point counts nanoseconds in a signed 64-bit integer,
    and `CacheableDate` keeps its milliseconds. -/
def gemfireDate (v8Date : TimeValue) : ℤ :=
  ((millisecondsSinceEpoch v8Date * 1000000).bmod (2 ^ 64)).tdiv 1000000

/-- The time value of `Nan::New<Date>(epochMillis)`. -/
def v8Date (epochMillis : ℤ) : TimeValue :=
  if h : |epochMillis| ≤ 8640000000000000 then some ⟨epochMillis, h⟩ else none

/-! ### Integers -/

theorem natAbs_lt_of_int64 (value : Int64) : value.toInt.natAbs < 2 ^ 64 := by
  have hlt := value.toInt_lt
  have hle := value.le_toInt
  omega

/-- `Nan::New<Number>(value)` of an `int64_t`. -/
def Number.ofInt64 (value : Int64) : Number :=
  .finite (Double.ofInt value.toInt (natAbs_lt_of_int64 value))

def maxSafeInteger : ℤ := 2 ^ 53 - 1

def minSafeInteger : ℤ := -1 * maxSafeInteger

def v8ValueInt64 (value : Int64) : Isolate Number := do
  if maxSafeInteger < value.toInt then
    consoleWarn
      "Received 64 bit integer from GemFire greater than Number.MAX_SAFE_INTEGER (2^53 - 1)"
  else if value.toInt < minSafeInteger then
    consoleWarn
      "Received 64 bit integer from GemFire less than Number.MIN_SAFE_INTEGER (-1 * 2^53 + 1)"
  pure (Number.ofInt64 value)

end NodeGemfire
