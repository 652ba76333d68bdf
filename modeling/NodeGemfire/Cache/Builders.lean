import NodeGemfire.Cache.CacheFactory
import NodeGemfire.Conversions.Strings
import Mathlib.Data.List.Forall2

/-!
# What the builder methods reject and record

Against the documentation of the cache factory: the number and the types of the
arguments of each method, and the values that the native factory is to be told.

## Main results

- `rejects_iff` — which argument lists are rejected as they are to be
- `recorded_iff` — which calls are recorded as they were made
-/

namespace NodeGemfire.CacheFactory

variable {c : Coercions} {m : Method} {info : List JsValue}

/-! ### The kinds of methods -/

inductive Kind
  | endpoint
  | property
  | serverGroup
  | int
  | long
  | bool

def Method.kind : Method → Kind
  | .addLocator | .addServer => .endpoint
  | .set => .property
  | .setServerGroup => .serverGroup
  | .setPingInterval | .setUpdateLocatorListInterval => .long
  | .setPdxIgnoreUnreadFields | .setPRSingleHopEnabled | .setSubscriptionEnabled
  | .setThreadLocalConnections => .bool
  | _ => .int

namespace Kind

def tests : Kind → List TypeTest
  | .endpoint => [.string, .number]
  | .property => [.string, .string]
  | .serverGroup => [.string]
  | .int | .long => [.number]
  | .bool => [.boolean]

def reads : Kind → List (ℕ × NativeType)
  | .endpoint => [(0, .text), (1, .int)]
  | .property => [(0, .text), (1, .text)]
  | .serverGroup => [(0, .text)]
  | .int => [(1, .int)]
  | .long => [(1, .long)]
  | .bool => [(1, .bool)]

/-- The types of the documented arguments. The server group may be `null`. -/
def documented : Kind → List (JsValue → Bool)
  | .endpoint => [JsValue.isString, JsValue.isNumber]
  | .property => [JsValue.isString, JsValue.isString]
  | .serverGroup => [fun value => value.isString || value.isNull]
  | .int | .long => [JsValue.isNumber]
  | .bool => [JsValue.isBoolean]

theorem length_documented (kind : Kind) : kind.documented.length = kind.tests.length := by
  cases kind <;> rfl

end Kind

/-- Each method is what methods of its kind are. -/
theorem call_eq (m : Method) : ∃ message, m.call = builder m message m.kind.tests m.kind.reads := by
  cases m <;> exact ⟨_, rfl⟩

/-! ### Rejection -/

/-- As many arguments as documented, each of the documented type. -/
def Documented (m : Method) (info : List JsValue) : Prop :=
  List.Forall₂ (fun type value => type value = true) m.kind.documented info

/-- The call throws and the native factory is not called. -/
def Rejects (c : Coercions) (m : Method) (info : List JsValue) : Prop :=
  ∀ received, ∃ message, m.call c info received = (.threw message, received)

/-- The arguments are too many or too few, and those that are tested pass. -/
def PassesGuard (m : Method) (info : List JsValue) : Prop :=
  info.length ≠ m.kind.tests.length ∧ passAll m.kind.tests info = true

theorem Documented.length_eq (h : Documented m info) : info.length = m.kind.tests.length := by
  rw [← m.kind.length_documented]
  exact (List.Forall₂.length_eq h).symm

theorem Documented.not_passesGuard (h : Documented m info) : ¬PassesGuard m info :=
  fun hguard => hguard.1 h.length_eq

theorem rejects_iff_passesGuard : Rejects c m info ↔ PassesGuard m info := by
  obtain ⟨message, hcall⟩ := call_eq m
  constructor
  · intro h
    obtain ⟨thrown, hthrown⟩ := h []
    rw [hcall, builder] at hthrown
    split at hthrown
    · assumption
    · split at hthrown <;> cases hthrown
  · intro h received
    rw [PassesGuard] at h
    rw [hcall, builder, if_pos h]
    exact ⟨message, rfl⟩

/-- A call is rejected exactly if its arguments are not those documented, if and only if
    they are, or are too many or too few with those that are tested of the right types. -/
theorem rejects_iff (c : Coercions) (m : Method) (info : List JsValue) :
    (Rejects c m info ↔ ¬Documented m info) ↔ Documented m info ∨ PassesGuard m info := by
  rw [rejects_iff_passesGuard]
  constructor
  · intro h
    by_cases hdocumented : Documented m info
    · exact .inl hdocumented
    · exact .inr (h.mpr hdocumented)
  · rintro (hdocumented | hguard)
    · exact iff_of_false hdocumented.not_passesGuard (not_not.mpr hdocumented)
    · exact iff_of_true hguard fun hdocumented => hdocumented.not_passesGuard hguard

/-- `addLocator("localhost")` calls the native factory with the port 0. -/
theorem not_rejects_missingPort :
    ¬∀ (c : Coercions) (m : Method) (info : List JsValue),
      Rejects c m info ↔ ¬Documented m info := by
  intro h
  have hrejects := h ⟨fun _ => none, fun _ => none⟩ .addLocator [.string (.ofAscii "localhost")]
  have hmalformed : ¬Documented .addLocator [.string (.ofAscii "localhost")] :=
    fun hdocumented => absurd hdocumented.length_eq (by decide)
  have hguard := rejects_iff_passesGuard.mp (hrejects.mpr hmalformed)
  exact absurd hguard.2 (by decide)

/-! ### What a call tells the native factory -/

/-- The native factory gets the value that JavaScript passed: the characters of a string, or
    the value of a number. -/
def Conveys : JsValue → NativeArgument → Prop
  | .string value, .text (some chars) => nanNew chars = value
  | .null, .text none => True
  | .number number, .int value | .number number, .long value => number.toRat = some (value : ℚ)
  | .boolean value, .bool value' => value = value'
  | _, _ => False

/-- A string that a native text has room for. -/
def IsCarried (value : JsValue) : Prop := ∃ s, value = .string s ∧ HasUtf8 s

/-- A number that is an integer of 32 bits. -/
def IsInt32 (value : JsValue) : Prop :=
  ∃ number, value = .number number ∧
    ∃ i : ℤ, -2 ^ 31 ≤ i ∧ i < 2 ^ 31 ∧ number.toRat = some (i : ℚ)

/-- The number 0. -/
def IsZero (value : JsValue) : Prop := ∃ number, value = .number number ∧ number.toRat = some 0

/-- Strings are carried, ports are integers of 32 bits, and what the setters are told is what
    an argument that is missing converts to. -/
def Kind.Faithful : Kind → List JsValue → Prop
  | .endpoint, info => IsCarried (arg info 0) ∧ IsInt32 (arg info 1)
  | .property, info => IsCarried (arg info 0) ∧ IsCarried (arg info 1)
  | .serverGroup, info => IsCarried (arg info 0)
  | .int, info | .long, info => IsZero (arg info 0)
  | .bool, info => arg info 0 = .boolean false

theorem conveys_string_iff {s : JsString} :
    Conveys (.string s) (.text (some (utf8String s))) ↔ IsCarried (.string s) := by
  have hback : nanNew (utf8String s) = s ↔ HasUtf8 s := nanNew_fieldName_eq_iff
  rw [Conveys, hback]
  constructor
  · exact fun h => ⟨s, rfl, h⟩
  · rintro ⟨_, heq, h⟩
    cases heq
    exact h

theorem conveys_int_iff {number : Number} :
    Conveys (.number number) (.int number.toInt32) ↔ IsInt32 (.number number) := by
  rw [Conveys]
  constructor
  · intro h
    have hle : -2 ^ 31 ≤ number.toInt32 := Int.le_bmod (by decide)
    have hlt : number.toInt32 < 2 ^ 31 := Int.bmod_lt (by decide)
    exact ⟨number, rfl, _, hle, hlt, h⟩
  · rintro ⟨_, heq, i, hle, hlt, hi⟩
    cases heq
    have hint : number.toInt32 = i := by
      rw [Number.toInt32, Number.truncated_of_toRat hi]
      exact Int.bmod_eq_of_le_mul_two (by omega) (by omega)
    rw [hint]
    exact hi

theorem isZero_number {number : Number} :
    IsZero (.number number) ↔ number.toRat = some ((0 : ℤ) : ℚ) := by
  rw [Int.cast_zero]
  constructor
  · rintro ⟨_, heq, h⟩
    cases heq
    exact h
  · exact fun h => ⟨number, rfl, h⟩

/-! ### One call -/

/-- What a method of this kind passes to the native factory. -/
def Kind.nativeArguments (kind : Kind) (c : Coercions) (info : List JsValue) :
    Option (List NativeArgument) :=
  kind.reads.mapM fun position => read c (arg info position.1) position.2

theorem conveys_pair {v w : JsValue} {a b : NativeArgument} :
    List.Forall₂ Conveys [v, w] [a, b] ↔ Conveys v a ∧ Conveys w b := by
  simp

theorem conveys_single {v : JsValue} {a : NativeArgument} :
    List.Forall₂ Conveys [v] [a] ↔ Conveys v a := by
  simp

/-- With documented arguments, what is passed on is what was passed if and only if the
    arguments are those that come through. -/
theorem conveys_iff_faithful (c : Coercions) {kind : Kind}
    (h : List.Forall₂ (fun type value => type value = true) kind.documented info) :
    ∃ arguments, kind.nativeArguments c info = some arguments ∧
      (List.Forall₂ Conveys info arguments ↔ kind.Faithful info) := by
  cases kind with
  | endpoint =>
    obtain _ | ⟨hhost, _ | ⟨hport, _ | _⟩⟩ := h
    obtain ⟨host, rfl⟩ := JsValue.isString_iff.mp hhost
    obtain ⟨port, rfl⟩ := JsValue.isNumber_iff.mp hport
    exact ⟨[_, _], rfl, conveys_pair.trans (and_congr conveys_string_iff conveys_int_iff)⟩
  | property =>
    obtain _ | ⟨hname, _ | ⟨hvalue, _ | _⟩⟩ := h
    obtain ⟨name, rfl⟩ := JsValue.isString_iff.mp hname
    obtain ⟨value, rfl⟩ := JsValue.isString_iff.mp hvalue
    exact ⟨[_, _], rfl, conveys_pair.trans (and_congr conveys_string_iff conveys_string_iff)⟩
  | serverGroup =>
    obtain _ | ⟨hgroup, _ | _⟩ := h
    rename_i group
    cases group with
    | string name => exact ⟨[_], rfl, conveys_single.trans conveys_string_iff⟩
    | null =>
      refine ⟨[_], rfl, conveys_single.trans (iff_of_false id ?_)⟩
      rintro ⟨name, hname, -⟩
      cases hname
    | _ => cases hgroup
  | int =>
    obtain _ | ⟨hnumber, _ | _⟩ := h
    obtain ⟨number, rfl⟩ := JsValue.isNumber_iff.mp hnumber
    exact ⟨[.int 0], rfl, conveys_single.trans isZero_number.symm⟩
  | long =>
    obtain _ | ⟨hnumber, _ | _⟩ := h
    obtain ⟨number, rfl⟩ := JsValue.isNumber_iff.mp hnumber
    exact ⟨[.long 0], rfl, conveys_single.trans isZero_number.symm⟩
  | bool =>
    obtain _ | ⟨hboolean, _ | _⟩ := h
    obtain ⟨b, rfl⟩ := JsValue.isBoolean_iff.mp hboolean
    refine ⟨[.bool false], rfl, conveys_single.trans ?_⟩
    exact (JsValue.boolean.injEq b false).symm.to_iff

/-! ### Sequences of calls -/

/-- A call of a method with its arguments. -/
abbrev Call := Method × List JsValue

/-- What the native factory has received after the calls. -/
def run (c : Coercions) (calls : List Call) (received : List NativeBuilderCall) :
    List NativeBuilderCall :=
  calls.foldl (fun received call => (call.1.call c call.2 received).2) received

/-- The native factory has received the call with the values passed in it. -/
structure Received (call : Call) (native : NativeBuilderCall) : Prop where
  method : native.method = call.1
  arguments : List.Forall₂ Conveys call.2 native.arguments

/-- What a factory is set to: a property by its name, or an attribute of the pool by the
    method for it. -/
inductive Setting
  | property (name : JsString)
  | pool (method : Method)

/-- The string that a value is. -/
def stringOf : JsValue → Option JsString
  | .string value => some value
  | _ => none

/-- The string that a native text stands for. -/
def stringOfNative : NativeArgument → Option JsString
  | .text (some chars) => some (nanNew chars)
  | _ => none

namespace Setting

/-- The value that the call gives to the setting. -/
def given : Setting → Call → Option JsValue
  | .property name, (.set, [name', value]) =>
    if stringOf name' = some name then some value else none
  | .pool method, (method', [value]) => if method' = method then some value else none
  | _, _ => none

/-- The value for the setting in a call that the native factory received. -/
def received : Setting → NativeBuilderCall → Option NativeArgument
  | .property name, ⟨.set, [name', value]⟩ =>
    if stringOfNative name' = some name then some value else none
  | .pool method, ⟨method', [value]⟩ => if method' = method then some value else none
  | _, _ => none

end Setting

/-- The native factory has received all calls in order as they were made, so that each
    setting is the last value given for it. -/
structure Recorded (c : Coercions) (calls : List Call) : Prop where
  received : List.Forall₂ Received calls (run c calls [])
  settings : ∀ setting : Setting, Option.Rel Conveys (calls.filterMap setting.given).getLast?
    ((run c calls []).filterMap setting.received).getLast?

/-- The native call for a call with documented arguments. -/
def nativeCall (c : Coercions) (call : Call) : NativeBuilderCall :=
  ⟨call.1, (call.1.kind.nativeArguments c call.2).getD []⟩

theorem call_of_documented {call : Call} (h : Documented call.1 call.2)
    (received : List NativeBuilderCall) :
    call.1.call c call.2 received = (.factory, received ++ [nativeCall c call]) := by
  obtain ⟨message, hcall⟩ := call_eq call.1
  obtain ⟨arguments, harguments, -⟩ := conveys_iff_faithful c h
  have hguard : ¬(call.2.length ≠ call.1.kind.tests.length ∧
      passAll call.1.kind.tests call.2 = true) := h.not_passesGuard
  rw [nativeCall, harguments, hcall, builder, if_neg hguard, ← Kind.nativeArguments, harguments]
  rfl

theorem run_of_documented {calls : List Call} (h : ∀ call ∈ calls, Documented call.1 call.2)
    (received : List NativeBuilderCall) :
    run c calls received = received ++ calls.map (nativeCall c) := by
  induction calls generalizing received with
  | nil => exact (List.append_nil received).symm
  | cons call calls ih =>
    rw [List.forall_mem_cons] at h
    rw [run, List.foldl_cons, call_of_documented h.1, ← run, ih h.2, List.append_assoc]
    rfl

theorem received_iff_faithful {call : Call} (h : Documented call.1 call.2) :
    Received call (nativeCall c call) ↔ call.1.kind.Faithful call.2 := by
  obtain ⟨arguments, harguments, hiff⟩ := conveys_iff_faithful c h
  have hnative : (nativeCall c call).arguments = arguments := by
    rw [nativeCall, harguments]
    rfl
  rw [← hiff, ← hnative]
  constructor
  · exact fun hreceived => hreceived.arguments
  · exact fun harguments => ⟨rfl, harguments⟩

/-! ### Settings -/

theorem getLast?_rel {α β : Type} {R : α → β → Prop} {l : List α} {l' : List β}
    (h : List.Forall₂ R l l') : Option.Rel R l.getLast? l'.getLast? := by
  have hreverse : List.Forall₂ R l.reverse l'.reverse := List.forall₂_reverse_iff.mpr h
  rw [← List.head?_reverse, ← List.head?_reverse]
  generalize l.reverse = r at hreverse ⊢
  generalize l'.reverse = r' at hreverse ⊢
  cases hreverse with
  | nil => exact .none
  | cons hhead _ => exact .some hhead

theorem stringOf_eq_of_conveys {v : JsValue} {a : NativeArgument} (h : Conveys v a) :
    stringOf v = stringOfNative a := by
  unfold Conveys at h
  split at h
  · exact congrArg some h.symm
  · rfl
  · rfl
  · rfl
  · rfl
  · exact h.elim

theorem rel_ite {P : Prop} [Decidable P] {v : JsValue} {a : NativeArgument} (h : Conveys v a) :
    Option.Rel Conveys (if P then some v else none) (if P then some a else none) := by
  split
  · exact .some h
  · exact .none

/-- The value given in a call is the one in the call received. -/
theorem given_rel_received (setting : Setting) {call : Call} {native : NativeBuilderCall}
    (h : Received call native) :
    Option.Rel Conveys (setting.given call) (setting.received native) := by
  obtain ⟨method, info⟩ := call
  obtain ⟨method', arguments⟩ := native
  obtain ⟨rfl, hconveys⟩ := h
  cases setting with
  | pool method =>
    obtain _ | ⟨hvalue, _ | _⟩ := hconveys
    · exact .none
    · exact rel_ite hvalue
    · exact .none
  | property name =>
    cases method' with
    | set =>
      obtain _ | ⟨hname, _ | ⟨hvalue, _ | _⟩⟩ := hconveys
      · exact .none
      · exact .none
      · simp only [Setting.given, Setting.received, stringOf_eq_of_conveys hname]
        exact rel_ite hvalue
      · exact .none
    | _ => exact .none

/-- Calls are recorded as they were made if and only if each of them passes what comes
    through. -/
theorem recorded_iff (c : Coercions) (calls : List Call)
    (hdocumented : ∀ call ∈ calls, Documented call.1 call.2) :
    Recorded c calls ↔ ∀ call ∈ calls, call.1.kind.Faithful call.2 := by
  have hrun : run c calls [] = calls.map (nativeCall c) := run_of_documented hdocumented []
  have hreceived : List.Forall₂ Received calls (run c calls []) ↔
      ∀ call ∈ calls, call.1.kind.Faithful call.2 := by
    rw [hrun, List.forall₂_map_right_iff, List.forall₂_same]
    exact forall₂_congr fun call hmem => received_iff_faithful (hdocumented call hmem)
  constructor
  · exact fun h => hreceived.mp h.received
  · intro hfaithful
    have h := hreceived.mpr hfaithful
    refine ⟨h, fun setting => getLast?_rel ?_⟩
    exact List.rel_filterMap (fun _ _ hcall => given_rel_received setting hcall) h

/-- A number that is a small integer. -/
def smallNumber (i : ℤ) (h : |i| < 2 ^ 53) : Number :=
  .finite ⟨i, i, 0, h, by decide, by decide, by simp⟩

/-- `addLocator("localhost", 10334)` and `set("log-level", "info")`. -/
theorem recorded_iff_locator : Recorded ⟨fun _ => none, fun _ => none⟩
    [(.addLocator, [.string (.ofAscii "localhost"), .number (smallNumber 10334 (by decide))]),
      (.set, [.string (.ofAscii "log-level"), .string (.ofAscii "info")])] := by
  refine (recorded_iff _ _ ?_).mpr ?_
  · simp [Documented, Method.kind, Kind.documented, JsValue.isString, JsValue.isNumber]
  · refine List.forall_mem_cons.mpr ⟨⟨?_, ?_⟩, List.forall_mem_singleton.mpr ⟨?_, ?_⟩⟩
    · exact ⟨_, rfl, by decide⟩
    · exact ⟨_, rfl, 10334, by decide, by decide, rfl⟩
    · exact ⟨_, rfl, by decide⟩
    · exact ⟨_, rfl, by decide⟩

/-- `setIdleTimeout(5000)` sets the idle timeout to 0. -/
theorem not_recorded_idleTimeout :
    ¬∀ (c : Coercions) (calls : List Call),
      (∀ call ∈ calls, Documented call.1 call.2) → Recorded c calls := by
  intro h
  have hrecorded := h ⟨fun _ => none, fun _ => none⟩
    [(.setIdleTimeout, [.number (smallNumber 5000 (by decide))])]
    (List.forall_mem_singleton.mpr (.cons rfl .nil))
  obtain _ | ⟨hreceived, -⟩ := hrecorded.received
  obtain _ | ⟨hconveys, -⟩ := hreceived.arguments
  have hzero : ((5000 : ℤ) : ℚ) = ((0 : ℤ) : ℚ) := Option.some.inj hconveys
  norm_num at hzero

end NodeGemfire.CacheFactory
