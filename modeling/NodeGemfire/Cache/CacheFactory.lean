import NodeGemfire.Functions.Execute

/-!
# The builder methods of a cache factory

`addLocator`, `addServer`, `set` and the setters of `CacheFactory`. Each of them
tests its arguments, converts some of them, and calls the method of the same
name on the native factory. The tests are joined so that a call is rejected only
for the number of its arguments, and only if those tested have the right types;
and most setters read the argument after the one they test.

## Main definitions

- `CacheFactory.Method` — the methods
- `CacheFactory.builder` — what they have in common
- `CacheFactory.Method.call` — a call of a method
-/

namespace NodeGemfire

/-! ### Conversions to the types of the native factory -/

/-- `ToNumber` and `ToString` of V8 where they run a script or go by a format of numbers;
    `none` where they throw. -/
structure Coercions where
  toNumber : JsValue → Option Number
  toText : JsValue → Option JsString

namespace Coercions

variable (c : Coercions)

def number : JsValue → Option Number
  | .undefined => some .nan
  | .null => some (.ofInt64 0)
  | .boolean value => some (.ofInt64 (if value then 1 else 0))
  | .number value => some value
  | .symbol _ => none
  | value => c.toNumber value

def text : JsValue → Option JsString
  | .undefined => some (.ofAscii "undefined")
  | .null => some (.ofAscii "null")
  | .boolean value => some (.ofAscii (if value then "true" else "false"))
  | .string value => some value
  | .symbol _ => none
  | value => c.toText value

end Coercions

/-- The value of a number that is not NaN and not infinite. -/
def Number.toRat : Number → Option ℚ
  | .finite value => some value
  | .negativeZero => some 0
  | _ => none

/-- The integer part. -/
def Number.truncated : Number → ℤ
  | .finite value => value.val.num.tdiv value.val.den
  | _ => 0

theorem Number.truncated_of_toRat {number : Number} {i : ℤ}
    (h : number.toRat = some (i : ℚ)) : number.truncated = i := by
  cases number with
  | nan | infinity => cases h
  | negativeZero =>
    have hzero : (i : ℚ) = 0 := (Option.some.inj h).symm
    exact (Int.cast_eq_zero.mp hzero).symm
  | finite value =>
    have hvalue : value.val = i := Option.some.inj h
    rw [Number.truncated, hvalue]
    simp

/-- `ToInt32`. -/
def Number.toInt32 (number : Number) : ℤ := number.truncated.bmod (2 ^ 32)

/-- `IntegerValue`, which stops at the least and the greatest `int64_t`. -/
def Number.toInt64 : Number → ℤ
  | .infinity negative => if negative then -2 ^ 63 else 2 ^ 63 - 1
  | number => max (-2 ^ 63) (min (2 ^ 63 - 1) number.truncated)

/-- `ToBoolean`. -/
def JsValue.toBoolean : JsValue → Bool
  | .undefined | .null => false
  | .boolean value => value
  | .number .nan | .number .negativeZero => false
  | .number (.infinity _) => true
  | .number (.finite value) => value.val ≠ 0
  | .string value => value ≠ []
  | _ => true

namespace CacheFactory

/-- An argument of the native factory. A text is a `char *`, `NULL` for `none`. -/
inductive NativeArgument
  | text (chars : Option Bytes)
  | int (value : ℤ)
  | long (value : ℤ)
  | bool (value : Bool)
  deriving DecidableEq

inductive NativeType
  | text
  | int
  | long
  | bool

/-- `*Nan::Utf8String(value)` and `Nan::To<...>(value).FromJust()`; with nothing to
    unwrap, `FromJust` aborts the process. -/
def read (c : Coercions) (value : JsValue) : NativeType → Option NativeArgument
  | .text => some (.text ((c.text value).map utf8String))
  | .int => (c.number value).map fun number => .int number.toInt32
  | .long => (c.number value).map fun number => .long number.toInt64
  | .bool => some (.bool value.toBoolean)

/-! ### What the methods have in common -/

inductive Method
  | addLocator
  | addServer
  | set
  | setFreeConnectionTimeout
  | setIdleTimeout
  | setLoadConditioningInterval
  | setMaxConnections
  | setMinConnections
  | setPdxIgnoreUnreadFields
  | setPingInterval
  | setPRSingleHopEnabled
  | setReadTimeout
  | setRetryAttempts
  | setServerGroup
  | setSocketBufferSize
  | setStatisticInterval
  | setSubscriptionAckInterval
  | setSubscriptionEnabled
  | setSubscriptionMessageTrackingTimeout
  | setSubscriptionRedundancy
  | setThreadLocalConnections
  | setUpdateLocatorListInterval
  deriving DecidableEq

/-- A call that the native factory has received. -/
structure NativeBuilderCall where
  method : Method
  arguments : List NativeArgument
  deriving DecidableEq

/-- How a call ends: with an exception, with the factory itself, or not at all. -/
inductive Result
  | threw (message : String)
  | factory
  | aborted
  deriving DecidableEq

/-- A call with arguments, and the native calls before it and after it. -/
abbrev Builder :=
  Coercions → List JsValue → List NativeBuilderCall → Result × List NativeBuilderCall

/-- `IsString`, `IsNumber` and `IsBoolean`. -/
inductive TypeTest
  | string
  | number
  | boolean

def TypeTest.passes : TypeTest → JsValue → Bool
  | .string => JsValue.isString
  | .number => JsValue.isNumber
  | .boolean => JsValue.isBoolean

/-- The first arguments pass the tests; the others do not matter. -/
def passAll : List TypeTest → List JsValue → Bool
  | [], _ => true
  | test :: tests, info => test.passes (arg info 0) && passAll tests info.tail

/-- A method that throws `message` if it has not as many arguments as there are tests and
    passes these, and that reads its arguments at the given positions otherwise. -/
def builder (method : Method) (message : String) (tests : List TypeTest)
    (reads : List (ℕ × NativeType)) : Builder := fun c info received =>
  if info.length ≠ tests.length ∧ passAll tests info = true then (.threw message, received)
  else
    match reads.mapM fun position => read c (arg info position.1) position.2 with
    | none => (.aborted, received)
    | some arguments => (.factory, received ++ [⟨method, arguments⟩])

/-! ### The methods -/

/-- The setters of an `int`. -/
def setInt (method : Method) : Builder :=
  builder method "You must pass an integer value." [.number] [(1, .int)]

/-- The setters of a `long`. -/
def setLong (method : Method) : Builder :=
  builder method "You must pass an long value." [.number] [(1, .long)]

/-- The setters of a `bool`. -/
def setBool (method : Method) : Builder :=
  builder method "You must pass an bool value." [.boolean] [(1, .bool)]

def addLocator : Builder :=
  builder .addLocator "You must pass the address and the port of the locator."
    [.string, .number] [(0, .text), (1, .int)]

def addServer : Builder :=
  builder .addServer "You must pass the address and the port of the server."
    [.string, .number] [(0, .text), (1, .int)]

def set : Builder :=
  builder .set "You must pass the property name and the property value."
    [.string, .string] [(0, .text), (1, .text)]

def setFreeConnectionTimeout : Builder := setInt .setFreeConnectionTimeout

def setIdleTimeout : Builder := setInt .setIdleTimeout

def setLoadConditioningInterval : Builder := setInt .setLoadConditioningInterval

def setMaxConnections : Builder := setInt .setMaxConnections

def setMinConnections : Builder := setInt .setMinConnections

def setPdxIgnoreUnreadFields : Builder := setBool .setPdxIgnoreUnreadFields

def setPingInterval : Builder := setLong .setPingInterval

def setPRSingleHopEnabled : Builder := setBool .setPRSingleHopEnabled

def setReadTimeout : Builder := setInt .setReadTimeout

def setRetryAttempts : Builder := setInt .setRetryAttempts

-- the one setter that reads the argument it tests
def setServerGroup : Builder :=
  builder .setServerGroup "You must pass the server group name as a string."
    [.string] [(0, .text)]

def setSocketBufferSize : Builder := setInt .setSocketBufferSize

def setStatisticInterval : Builder := setInt .setStatisticInterval

def setSubscriptionAckInterval : Builder := setInt .setSubscriptionAckInterval

def setSubscriptionEnabled : Builder := setBool .setSubscriptionEnabled

def setSubscriptionMessageTrackingTimeout : Builder := setInt .setSubscriptionMessageTrackingTimeout

def setSubscriptionRedundancy : Builder := setInt .setSubscriptionRedundancy

def setThreadLocalConnections : Builder := setBool .setThreadLocalConnections

def setUpdateLocatorListInterval : Builder := setLong .setUpdateLocatorListInterval

/-- The method that `Init` installs under the name. -/
def Method.call : Method → Builder
  | .addLocator => CacheFactory.addLocator
  | .addServer => CacheFactory.addServer
  | .set => CacheFactory.set
  | .setFreeConnectionTimeout => CacheFactory.setFreeConnectionTimeout
  | .setIdleTimeout => CacheFactory.setIdleTimeout
  | .setLoadConditioningInterval => CacheFactory.setLoadConditioningInterval
  | .setMaxConnections => CacheFactory.setMaxConnections
  | .setMinConnections => CacheFactory.setMinConnections
  | .setPdxIgnoreUnreadFields => CacheFactory.setPdxIgnoreUnreadFields
  | .setPingInterval => CacheFactory.setPingInterval
  | .setPRSingleHopEnabled => CacheFactory.setPRSingleHopEnabled
  | .setReadTimeout => CacheFactory.setReadTimeout
  | .setRetryAttempts => CacheFactory.setRetryAttempts
  | .setServerGroup => CacheFactory.setServerGroup
  | .setSocketBufferSize => CacheFactory.setSocketBufferSize
  | .setStatisticInterval => CacheFactory.setStatisticInterval
  | .setSubscriptionAckInterval => CacheFactory.setSubscriptionAckInterval
  | .setSubscriptionEnabled => CacheFactory.setSubscriptionEnabled
  | .setSubscriptionMessageTrackingTimeout => CacheFactory.setSubscriptionMessageTrackingTimeout
  | .setSubscriptionRedundancy => CacheFactory.setSubscriptionRedundancy
  | .setThreadLocalConnections => CacheFactory.setThreadLocalConnections
  | .setUpdateLocatorListInterval => CacheFactory.setUpdateLocatorListInterval

/-- A number is set one argument too late. -/
example (c : Coercions) :
    setIdleTimeout c [.number (.ofInt64 5000)] [] = (.factory, [⟨.setIdleTimeout, [.int 0]⟩]) := rfl

end CacheFactory

end NodeGemfire
