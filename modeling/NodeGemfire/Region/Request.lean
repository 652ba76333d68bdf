import NodeGemfire.Conversions.FromGemfire
import NodeGemfire.Region.Native
import NodeGemfire.Lib.MapM

/-!
# Requests to a region

What the methods of a region are for, stated without the methods: a request is
invalid, and then asks nothing of the client, or it asks for native calls on
converted keys and values, made one after the other up to the first that fails.

## Main definitions

- `Request` — what a method is asked to do
- `Request.calls` — the native calls a request asks for
- `Request.session`, `Request.fails` — what the request leads to
-/

namespace NodeGemfire

variable {σ : Type} {p : Platform} (client : Client σ)

/-! ### What the conversion loops return -/

theorem gemfireKeys_value (es : List (Option JsValue)) :
    (gemfireKeys p es).value = es.mapM fun e => (gemfireKey p (e.getD .undefined)).value := by
  induction es with
  | nil => rfl
  | cons e es ih =>
    simp only [gemfireKeys, Isolate.bind_value, List.mapM_cons]
    cases (gemfireKey p (e.getD .undefined)).value with
    | none => rfl
    | some key =>
      rw [Isolate.bind_value, ih]
      cases es.mapM fun e => (gemfireKey p (e.getD .undefined)).value <;> rfl

/-- One step of the loop over entries. -/
def insertEntry (p : Platform) (hashMap : HashMapOfCacheable) (q : Named JsString JsValue) :
    Option HashMapOfCacheable :=
  (gemfireValue p q.value).value.map fun value =>
    p.insert hashMap (gemfireKey p (.string q.name)).value (some value)

theorem insertEntries_value (hashMap : HashMapOfCacheable) (ps : List (Named JsString JsValue)) :
    (insertEntries p hashMap ps).value = ps.foldlM (insertEntry p) hashMap := by
  induction ps generalizing hashMap with
  | nil => rfl
  | cons q ps ih =>
    simp only [insertEntries, Isolate.bind_value, List.foldlM_cons, insertEntry]
    cases (gemfireValue p q.value).value with
    | none => rfl
    | some value => exact ih _

/-! ### Requests -/

inductive Request
  | clear
  | put (key value : JsValue)
  | get (key : JsValue)
  | getAll (keys : List (Option JsValue))
  | putAll (entries : JsValue)
  | remove (key : JsValue)
  | destroyRegion
  | localDestroyRegion

namespace Request

/-- Every key is a key, and no value is `NULLPTR`. -/
def Valid (p : Platform) : Request → Prop
  | .put key value => KeyValued p key ∧ ¬NullValued p value
  | .get key | .remove key => KeyValued p key
  | .getAll keys => ∀ e ∈ keys, KeyValued p (e.getD .undefined)
  | .putAll entries => ∀ q ∈ entries.ownProperties, ¬NullValued p q.value
  | .clear | .destroyRegion | .localDestroyRegion => True

/-- The native calls of a request, on the converted keys and values. A request
    that is not valid asks for nothing, and an empty array of keys for no call. -/
def calls (p : Platform) : Request → Option (List NativeCall)
  | .clear => some [.getRegionService, .clear]
  | .put key value => do
    let keyPtr ← (gemfireKey p key).value
    let valuePtr ← (gemfireValue p value).value
    some [.put keyPtr valuePtr]
  | .get key => do
    let keyPtr ← (gemfireKey p key).value
    some [.get (some keyPtr)]
  | .getAll keys => do
    let gemfireKeys ← keys.mapM fun e => (gemfireKey p (e.getD .undefined)).value
    if gemfireKeys.length = 0 then some [] else some [.getAll gemfireKeys]
  | .putAll entries => do
    let hashMap ← entries.ownProperties.foldlM (insertEntry p) []
    some [.putAll hashMap]
  | .remove key => do
    let keyPtr ← (gemfireKey p key).value
    some [.destroy keyPtr]
  | .destroyRegion => some [.destroyRegion]
  | .localDestroyRegion => some [.localDestroyRegion]

end Request

theorem foldlM_insertEntry_eq_none_iff (ps : List (Named JsString JsValue))
    (hashMap : HashMapOfCacheable) :
    ps.foldlM (insertEntry p) hashMap = none ↔ ∃ q ∈ ps, NullValued p q.value := by
  induction ps generalizing hashMap with
  | nil => simp
  | cons q ps ih =>
    rw [List.foldlM_cons, List.exists_mem_cons_iff, ← gemfireValue_value_eq_none_iff, insertEntry]
    cases (gemfireValue p q.value).value with
    | none => simp
    | some value => simpa using ih _

/-- The requests that ask for nothing are those with an invalid part. -/
theorem Request.calls_eq_none_iff (r : Request) : r.calls p = none ↔ ¬r.Valid p := by
  have hkey (key : JsValue) : (gemfireKey p key).value = none ↔ ¬KeyValued p key := by
    rw [← gemfireKey_value_ne_none_iff, not_not]
  have hkeyed (key : JsValue) (call : Cacheable → NativeCall) :
      (do let keyPtr ← (gemfireKey p key).value; some [call keyPtr]) = none ↔ ¬KeyValued p key := by
    rw [← hkey]
    cases (gemfireKey p key).value <;> simp
  cases r with
  | clear | destroyRegion | localDestroyRegion => simp [calls, Valid]
  | get key => exact hkeyed key (.get ∘ some)
  | remove key => exact hkeyed key .destroy
  | put key value =>
    rw [Valid, not_and_or, not_not, ← hkey, ← gemfireValue_value_eq_none_iff, calls]
    cases (gemfireKey p key).value <;> cases (gemfireValue p value).value <;> simp
  | getAll keys =>
    have hnone := mapM_eq_none_iff (fun e => (gemfireKey p (e.getD .undefined)).value) keys
    have hvalid : ¬(Request.getAll keys).Valid p ↔
        ∃ e ∈ keys, (gemfireKey p (e.getD .undefined)).value = none := by
      simp only [Valid, hkey]
      push Not
      rfl
    rw [hvalid, ← hnone, calls]
    cases keys.mapM fun e => (gemfireKey p (e.getD .undefined)).value with
    | none => simp
    | some gemfireKeys => cases gemfireKeys <;> simp
  | putAll entries =>
    have hvalid : ¬(Request.putAll entries).Valid p ↔
        ∃ q ∈ entries.ownProperties, NullValued p q.value := by
      simp only [Valid]
      push Not
      rfl
    rw [hvalid, ← foldlM_insertEntry_eq_none_iff _ [], calls]
    cases entries.ownProperties.foldlM (insertEntry p) [] <;> simp

/-! ### What the conversion of a request schedules -/

/-- The keys converted, those up to the first that is no key, are serializable. -/
def SerializableKeys (p : Platform) : List (Option JsValue) → Prop
  | [] => True
  | e :: es => Serializable p (e.getD .undefined) ∧
      (KeyValued p (e.getD .undefined) → SerializableKeys p es)

/-- The values converted, those up to the first `NULLPTR`, are serializable. -/
def SerializableEntries (p : Platform) : List (Named JsString JsValue) → Prop
  | [] => True
  | q :: qs => Serializable p q.value ∧ (¬NullValued p q.value → SerializableEntries p qs)

theorem gemfireKey_thrown_eq_nil_iff (key : JsValue) :
    (gemfireKey p key).thrown = [] ↔ Serializable p key := by
  rw [gemfireKey_thrown, gemfireValue_thrown_eq_nil_iff]

theorem gemfireKeys_thrown_eq_nil_iff (es : List (Option JsValue)) :
    (gemfireKeys p es).thrown = [] ↔ SerializableKeys p es := by
  induction es with
  | nil => exact iff_of_true rfl trivial
  | cons e es ih =>
    simp only [gemfireKeys, Isolate.bind_thrown, List.append_eq_nil_iff,
      gemfireKey_thrown_eq_nil_iff, SerializableKeys, ← gemfireKey_value_ne_none_iff]
    cases (gemfireKey p (e.getD .undefined)).value with
    | none => simp
    | some key => simp [ih]

theorem insertEntries_thrown_eq_nil_iff (hashMap : HashMapOfCacheable)
    (ps : List (Named JsString JsValue)) :
    (insertEntries p hashMap ps).thrown = [] ↔ SerializableEntries p ps := by
  induction ps generalizing hashMap with
  | nil => exact iff_of_true rfl trivial
  | cons q ps ih =>
    have hname : (gemfireKey p (.string q.name)).thrown = [] :=
      (gemfireKey_thrown_eq_nil_iff _).mpr (.string q.name)
    simp only [insertEntries, Isolate.bind_thrown, hname, List.nil_append, List.append_eq_nil_iff,
      gemfireValue_thrown_eq_nil_iff, SerializableEntries, ← gemfireValue_value_eq_none_iff]
    cases (gemfireValue p q.value).value with
    | none => simp
    | some value => simp [ih]

/-- Every part of the request that is converted is serializable. -/
def Request.Serializable (p : Platform) : Request → Prop
  | .put key value => NodeGemfire.Serializable p key ∧ NodeGemfire.Serializable p value
  | .get key | .remove key => NodeGemfire.Serializable p key
  | .getAll keys => SerializableKeys p keys
  | .putAll entries => SerializableEntries p entries.ownProperties
  | .clear | .destroyRegion | .localDestroyRegion => True

/-! ### What a request leads to -/

/-- The session after one more call, as the client answers it. -/
def Session.issue (s : Session σ) (call : NativeCall) : Session σ :=
  ⟨(client.native call s.region).2, s.calls ++ [call]⟩

/-- Make the calls up to the first that throws: its exception, and the session. -/
def Client.invokeAll : List NativeCall → Session σ → Option GeodeException × Session σ
  | [], s => (none, s)
  | call :: calls, s =>
    match (client.native call s.region).1 with
    | .error exception => (some exception, s.issue client call)
    | .ok _ => Client.invokeAll calls (s.issue client call)

/-- Whether a request that asks for these calls fails, because it is invalid or
    because a call throws, and the session it leads to. -/
def Client.carryOut : Option (List NativeCall) → Session σ → Bool × Session σ
  | none, s => (true, s)
  | some calls, s => ((client.invokeAll calls s).1.isSome, (client.invokeAll calls s).2)

namespace Request

def fails (r : Request) (s : Session σ) : Bool := (client.carryOut (r.calls client.platform) s).1

def session (r : Request) (s : Session σ) : Session σ :=
  (client.carryOut (r.calls client.platform) s).2

/-- The conversion of what the request reads, if it succeeds. -/
def result (s : Session σ) : Request → Isolate JsValue
  | .get key =>
    match (gemfireKey client.platform key).value with
    | some keyPtr =>
      match (client.native (.get (some keyPtr)) s.region).1 with
      | .ok valuePtr => v8Value client.platform valuePtr
      | .error _ => pure .undefined
    | none => pure .undefined
  | .getAll keys =>
    match keys.mapM fun e => (gemfireKey client.platform (e.getD .undefined)).value with
    | some (key :: keys) =>
      match (client.native (.getAll (key :: keys)) s.region).1 with
      | .ok results => v8ValueHashMap client.platform results
      | .error _ => pure .undefined
    | _ => v8ValueHashMap client.platform []
  | _ => pure .undefined

/-- What a callback without an error is called with. -/
def arguments (r : Request) (s : Session σ) : List JsValue :=
  match r with
  | .get _ | .getAll _ => [.undefined, (r.result client s).value]
  | _ => []

end Request

end NodeGemfire
