import NodeGemfire.Region.Refinement

/-!
# Invalid keys and values

A request with an invalid part makes no native call and is reported as a
failure; any other makes one call, with all of its keys and values.

## Main definitions

- `Request.Asks` — the native call of a request, on all that it converts
- `Checked` — the methods whose keys and values are all checked
-/

namespace NodeGemfire

variable {σ : Type} {p : Platform}

/-! ### The call of a valid request -/

namespace Request

/-- The request is for this one call: on the converted key and value, on the
    converted keys in order, or on the map made by inserting the converted
    entries in order. -/
def Asks (p : Platform) : Request → NativeCall → Prop
  | .put key value, .put keyPtr valuePtr =>
    (gemfireKey p key).value = some keyPtr ∧ (gemfireValue p value).value = some valuePtr
  | .get key, .get keyPtr => (gemfireKey p key).value = keyPtr
  | .remove key, .destroy keyPtr => (gemfireKey p key).value = some keyPtr
  | .getAll keys, .getAll keyPtrs =>
    keys.map (fun e => (gemfireKey p (e.getD .undefined)).value) = keyPtrs.map some
  | .putAll entries, .putAll hashMap =>
    hashMap = entries.ownProperties.foldl (fun hashMap q =>
      p.insert hashMap (gemfireKey p (.string q.name)).value (gemfireValue p q.value).value) []
  | .destroyRegion, .destroyRegion => True
  | .localDestroyRegion, .localDestroyRegion => True
  | _, _ => False

end Request

theorem foldl_eq_of_foldlM_insertEntry {ps : List (Named JsString JsValue)}
    {hashMap result : HashMapOfCacheable} (h : ps.foldlM (insertEntry p) hashMap = some result) :
    result = ps.foldl (fun hashMap q =>
      p.insert hashMap (gemfireKey p (.string q.name)).value (gemfireValue p q.value).value)
        hashMap := by
  induction ps generalizing hashMap with
  | nil => exact (Option.some.inj h).symm
  | cons q ps ih =>
    rw [List.foldlM_cons, insertEntry] at h
    cases hv : (gemfireValue p q.value).value with
    | none => simp [hv] at h
    | some value =>
      rw [hv] at h
      rw [List.foldl_cons, hv]
      exact ih h

namespace Request

/-- A valid request asks for one call, unless it is for no keys at all. -/
theorem calls_of_valid {r : Request} (hr : r ≠ .clear) (h : r.Valid p) :
    (r = .getAll [] ∧ r.calls p = some []) ∨ ∃ call, r.Asks p call ∧ r.calls p = some [call] := by
  have hsome : r.calls p ≠ none := fun hnone => (calls_eq_none_iff r).mp hnone h
  cases r with
  | clear => exact absurd rfl hr
  | destroyRegion => exact .inr ⟨.destroyRegion, trivial, rfl⟩
  | localDestroyRegion => exact .inr ⟨.localDestroyRegion, trivial, rfl⟩
  | put key value =>
    rw [calls] at hsome ⊢
    cases hk : (gemfireKey p key).value with
    | none => simp [hk] at hsome
    | some keyPtr =>
      cases hv : (gemfireValue p value).value with
      | none => simp [hk, hv] at hsome
      | some valuePtr => exact .inr ⟨.put keyPtr valuePtr, ⟨hk, hv⟩, rfl⟩
  | get key =>
    rw [calls] at hsome ⊢
    cases hk : (gemfireKey p key).value with
    | none => simp [hk] at hsome
    | some keyPtr => exact .inr ⟨.get (some keyPtr), hk, rfl⟩
  | remove key =>
    rw [calls] at hsome ⊢
    cases hk : (gemfireKey p key).value with
    | none => simp [hk] at hsome
    | some keyPtr => exact .inr ⟨.destroy keyPtr, hk, rfl⟩
  | getAll keys =>
    rw [calls] at hsome ⊢
    cases hk : keys.mapM fun e => (gemfireKey p (e.getD .undefined)).value with
    | none => simp [hk] at hsome
    | some keyPtrs =>
      have hmap := map_eq_of_mapM_eq_some hk
      cases keyPtrs with
      | nil =>
        obtain rfl : keys = [] := List.map_eq_nil_iff.mp hmap
        exact .inl ⟨rfl, rfl⟩
      | cons keyPtr keyPtrs => exact .inr ⟨.getAll (keyPtr :: keyPtrs), hmap, rfl⟩
  | putAll entries =>
    rw [calls] at hsome ⊢
    cases hm : entries.ownProperties.foldlM (insertEntry p) [] with
    | none => simp [hm] at hsome
    | some hashMap =>
      exact .inr ⟨.putAll hashMap, foldl_eq_of_foldlM_insertEntry hm, rfl⟩

end Request

/-! ### The checked methods -/

/-- The methods that check each key and each value before the native call. -/
inductive Checked
  | put
  | putSync
  | remove
  | putAll
  | putAllSync
  | getAll
  | getAllSync
  deriving DecidableEq

namespace Checked

/-- The method itself, asynchronous or synchronous. -/
def method : Checked → AsyncMethod ⊕ SyncMethod
  | .put => .inl .put
  | .putSync => .inr .putSync
  | .remove => .inl .remove
  | .putAll => .inl .putAll
  | .putAllSync => .inr .putAllSync
  | .getAll => .inl .getAll
  | .getAllSync => .inr .getAllSync

def argumentError (m : Checked) : List JsValue → Option String :=
  m.method.elim AsyncMethod.argumentError SyncMethod.argumentError

def request (m : Checked) : List JsValue → Request :=
  m.method.elim AsyncMethod.request SyncMethod.request

def perform (client : Client σ) (m : Checked) : List JsValue → Session σ → Outcome σ :=
  m.method.elim (AsyncMethod.perform client) (SyncMethod.perform client)

variable {client : Client σ} {m : Checked} {info : List JsValue}

/-- The call does to the session what its request asks for, and a request that
    fails is reported. -/
theorem perform_carriesOut (hopen : client.anyInstance = .opened)
    (hargs : m.argumentError info = none) (s : Session σ) :
    (m.perform client info s).session = (m.request info).session client s ∧
      ((m.request info).fails client s = true →
        (m.perform client info s).reportsFailure = true) := by
  have hasync (m : AsyncMethod) (hargs : m.argumentError info = none) :
      (m.perform client info s).session = (m.request info).session client s ∧
        ((m.request info).fails client s = true →
          (m.perform client info s).reportsFailure = true) := by
    have haccepted : ¬m.Rejected client info :=
      (m.not_rejected_iff info).mpr ⟨hargs, fun _ => hopen⟩
    obtain ⟨hsession, -, hreported⟩ := AsyncMethod.perform_of_accepted haccepted s
    refine ⟨hsession, fun hfails => ?_⟩
    rw [hfails] at hreported
    cases hc : m.callback info <;>
      · rw [hc] at hreported
        obtain ⟨error, hreports⟩ := hreported
        simp [Outcome.reportsFailure, hreports, Report.isFailure]
  have hsync (m : SyncMethod)
      (hcarries : m.CarriesOut client (m.request info) s (m.call client info s)) :
      (m.perform client info s).session = (m.request info).session client s ∧
        ((m.request info).fails client s = true →
          (m.perform client info s).reportsFailure = true) := by
    refine ⟨hcarries.session, fun hfails => ?_⟩
    have hthrown : (m.call client info s).thrown ≠ [] := by
      rw [ne_eq, hcarries.thrown, hfails]
      simp
    simp [Outcome.reportsFailure, SyncMethod.perform, hthrown]
  cases m with
  | put => exact hasync .put hargs
  | remove => exact hasync .remove hargs
  | putAll => exact hasync .putAll hargs
  | getAll => exact hasync .getAll hargs
  | putSync => exact hsync .putSync (SyncMethod.putSync_carriesOut hopen hargs s)
  | putAllSync => exact hsync .putAllSync (SyncMethod.putAllSync_carriesOut hopen hargs s)
  | getAllSync => exact hsync .getAllSync (SyncMethod.getAllSync_carriesOut hopen hargs s)

theorem request_ne_clear : m.request info ≠ .clear := by
  cases m <;> exact Request.noConfusion

/-- **All or nothing**: a call with an invalid key or value makes no native call,
    leaves the region as it is and reports a failure; any other makes one native
    call, with all of its keys and values, or none if it has no keys. -/
theorem rejects_or_invokes (hopen : client.anyInstance = .opened)
    (hargs : m.argumentError info = none) (s : Session σ) :
    (¬(m.request info).Valid client.platform →
      (m.perform client info s).session = s ∧ (m.perform client info s).reportsFailure = true) ∧
    ((m.request info).Valid client.platform →
      (m.request info = .getAll [] ∧ (m.perform client info s).session = s) ∨
      ∃ call, (m.request info).Asks client.platform call ∧
        (m.perform client info s).session = s.issue client call) := by
  obtain ⟨hsession, hfailure⟩ := perform_carriesOut hopen hargs s
  rw [Request.session] at hsession
  rw [Request.fails] at hfailure
  constructor
  · intro hinvalid
    have hcalls := (Request.calls_eq_none_iff (p := client.platform) _).mpr hinvalid
    rw [hcalls] at hsession hfailure
    exact ⟨hsession, hfailure rfl⟩
  · intro hvalid
    rcases Request.calls_of_valid request_ne_clear hvalid with
      ⟨hnone, hcalls⟩ | ⟨call, hasks, hcalls⟩
    · rw [hcalls] at hsession
      exact .inl ⟨hnone, hsession⟩
    · rw [hcalls, carryOut_singleton] at hsession
      exact .inr ⟨call, hasks, hsession⟩

/-- `region.getAll(["foo", null], callback)` -/
theorem rejects_getAll_null :
    (getAll.perform memoryClient [.array [some (.string (.ofAscii "foo")), some .null] [],
      .object .function []] (.start [])).session = .start [] := by
  have hinvalid : ¬(Request.getAll [some (.string (.ofAscii "foo")), some .null]).Valid
      memoryClient.platform := fun hvalid => hvalid (some .null) (by simp)
  exact ((rejects_or_invokes rfl rfl _).1 hinvalid).1

end Checked

end NodeGemfire
