import NodeGemfire.Region.Refinement

/-!
# Synchronous and asynchronous variants

Both variants of a method carry out the same request, so that they agree where
both do so and where neither has anything to add: a part that is not
serializable lets the synchronous variant fail after its native call, and the
asynchronous one report a success besides its exception.

## Main definitions

- `Pair` — a method in both variants
- `Outcome.Agrees` — the same session, and the same report
- `Pair.Aligned` — when the variants agree
-/

namespace NodeGemfire

variable {σ : Type}

/-- The methods with a synchronous variant. -/
inductive Pair
  | put
  | get
  | getAll
  | putAll
  deriving DecidableEq

namespace Pair

def async : Pair → AsyncMethod
  | .put => .put
  | .get => .get
  | .getAll => .getAll
  | .putAll => .putAll

def sync : Pair → SyncMethod
  | .put => .putSync
  | .get => .getSync
  | .getAll => .getAllSync
  | .putAll => .putAllSync

/-- The two variants are passed the same keys and values. -/
def SameArguments : Pair → List JsValue → List JsValue → Prop
  | .put, info, info' => arg info 0 = arg info' 0 ∧ arg info 1 = arg info' 1
  | _, info, info' => arg info 0 = arg info' 0

theorem request_eq {pair : Pair} {info info' : List JsValue} (h : pair.SameArguments info info') :
    pair.sync.request info' = pair.async.request info := by
  cases pair with
  | put =>
    obtain ⟨hkey, hvalue⟩ := h
    show Request.put _ _ = Request.put _ _
    rw [hkey, hvalue]
  | get => exact congrArg Request.get (Eq.symm h)
  | getAll => exact congrArg (fun v => Request.getAll (Region.arrayElements v)) (Eq.symm h)
  | putAll => exact congrArg Request.putAll (Eq.symm h)

end Pair

namespace Outcome

/-- The value a call hands over, by returning it or to its callback. -/
def result (o : Outcome σ) : Option JsValue :=
  match o.reports, o.returned with
  | [.callback _ [_, value]], _ => some value
  | _, .value value => some value
  | _, _ => none

/-- Success is reported, and no failure. -/
def Succeeds (o : Outcome σ) : Prop := o.reportsSuccess = true ∧ o.reportsFailure = false

/-- Failure is reported, and no success. -/
def Fails (o : Outcome σ) : Prop := o.reportsFailure = true ∧ o.reportsSuccess = false

/-- Both calls made the same native calls and left the same region, and both
    report failure or both report success with the same result. -/
def Agrees (o o' : Outcome σ) : Prop :=
  o.session = o'.session ∧
    ((o.Fails ∧ o'.Fails) ∨ (o.Succeeds ∧ o'.Succeeds ∧ o.result = o'.result))

end Outcome

/-! ### What an outcome reports -/

section Reports

variable {o : Outcome σ} {arguments : List JsValue} {callback : Option JsValue} {failed : Bool}

theorem Outcome.fails_iff (h : Reported arguments callback failed o.reports) :
    o.Fails ↔ failed = true ∨ (callback = none ∧ o.thrown ≠ []) := by
  obtain ⟨thrown, returned, reports, session⟩ := o
  simp only [Fails, reportsFailure, reportsSuccess]
  cases callback with
  | none =>
    cases failed with
    | false =>
      obtain rfl : reports = [] := h
      simp
    | true =>
      obtain ⟨error, rfl⟩ := h
      simp [Report.isFailure]
  | some callback =>
    cases failed with
    | false =>
      obtain rfl : reports = [.callback callback arguments] := h
      simp [Report.isFailure]
    | true =>
      obtain ⟨error, rfl⟩ := h
      simp [Report.isFailure]

theorem Outcome.succeeds_iff (h : Reported arguments callback failed o.reports) :
    o.Succeeds ↔ failed = false ∧ o.thrown = [] := by
  obtain ⟨thrown, returned, reports, session⟩ := o
  simp only [Succeeds, reportsFailure, reportsSuccess]
  cases callback with
  | none =>
    cases failed with
    | false =>
      obtain rfl : reports = [] := h
      simp
    | true =>
      obtain ⟨error, rfl⟩ := h
      simp [Report.isFailure]
  | some callback =>
    cases failed with
    | false =>
      obtain rfl : reports = [.callback callback arguments] := h
      simp [Report.isFailure]
    | true =>
      obtain ⟨error, rfl⟩ := h
      simp [Report.isFailure]

end Reports

/-! ### The variants -/

namespace Pair

variable {client : Client σ} {pair : Pair} {info info' : List JsValue}

/-- `getSync` is passed a key. -/
def Keyed (client : Client σ) (pair : Pair) (info : List JsValue) : Prop :=
  pair = .get → KeyValued client.platform (arg info 0)

/-- The request fails; or all of it is serializable and its result is converted
    without an exception; or the exception of a part that is not serializable is
    all that is heard of the call. And `getSync` is passed a key. -/
def Aligned (client : Client σ) (pair : Pair) (info : List JsValue) (s : Session σ) : Prop :=
  let r := pair.async.request info
  pair.Keyed client info ∧
    (r.fails client s = true ∨
      (r.Serializable client.platform ∧ (r.result client s).thrown = []) ∨
      (pair.async.callback info = none ∧ ¬r.Serializable client.platform))

theorem sync_carriesOut (hopen : client.anyInstance = .opened)
    (hargs : pair.sync.argumentError info' = none)
    (hkeyed : pair.Keyed client info') (s : Session σ) :
    pair.sync.CarriesOut client (pair.sync.request info') s (pair.sync.call client info' s) := by
  cases pair with
  | put => exact SyncMethod.putSync_carriesOut hopen hargs s
  | get => exact SyncMethod.getSync_carriesOut hopen hargs (hkeyed rfl) s
  | getAll => exact SyncMethod.getAllSync_carriesOut hopen hargs s
  | putAll => exact SyncMethod.putAllSync_carriesOut hopen hargs s

theorem not_rejected (hopen : client.anyInstance = .opened)
    (hargs : pair.async.argumentError info = none) : ¬pair.async.Rejected client info :=
  (AsyncMethod.not_rejected_iff _ _).mpr ⟨hargs, fun _ => hopen⟩

/-- A null key is got by `getSync` only. -/
theorem getSync_session_ne (hopen : client.anyInstance = .opened)
    (hargs : Region.getSyncError info' = none)
    (hkeyed : ¬KeyValued client.platform (arg info' 0)) (s : Session σ) :
    (SyncMethod.getSync.perform client info' s).session = s.issue client (.get none) := by
  have hk : (gemfireKey client.platform (arg info' 0)).value = none := by
    rw [← gemfireKey_value_ne_none_iff, not_not] at hkeyed
    exact hkeyed
  simp only [SyncMethod.perform, SyncMethod.call]
  cases hn : (client.native (.get none) s.region).1 with
  | ok valuePtr => rw [(SyncMethod.getSync_of_ok hopen hargs hk hn).1]
  | error exception => rw [(SyncMethod.getSync_of_error hopen hargs hk hn).1]

theorem result_eq (hopen : client.anyInstance = .opened)
    (hargs : pair.async.argumentError info = none) {s : Session σ} {o' : Outcome σ}
    (hok : (pair.async.request info).fails client s = false) (hreports : o'.reports = [])
    (hreturned : o'.returned =
      pair.sync.returned ((pair.async.request info).result client s).value) :
    (pair.async.perform client info s).result = o'.result := by
  obtain ⟨-, -, hreported⟩ := AsyncMethod.perform_of_accepted (not_rejected hopen hargs) s
  have hholder : (pair.async.perform client info s).returned = .holder := by
    obtain ⟨worker, hworker, -⟩ := AsyncMethod.call_of_accepted (not_rejected hopen hargs)
    simp [AsyncMethod.perform, hworker]
  rw [hok] at hreported
  rw [Outcome.result, Outcome.result, hholder, hreports, hreturned]
  cases hc : pair.async.callback info with
  | none =>
    rw [hc] at hreported
    rw [show (pair.async.perform client info s).reports = [] from hreported]
    cases pair <;> first | rfl | cases hc
  | some callback =>
    rw [hc] at hreported
    rw [show (pair.async.perform client info s).reports = _ from hreported]
    cases pair <;> rfl

/-- On a key that is not one, `get` issues no native call, and `getSync` issues one. -/
theorem not_agrees_of_not_keyed (hopen : client.anyInstance = .opened)
    (hargs : pair.async.argumentError info = none)
    (hargs' : pair.sync.argumentError info' = none) (hsame : pair.SameArguments info info')
    (s : Session σ) (hkeyed : ¬ pair.Keyed client info) :
    ¬ (pair.async.perform client info s).Agrees (pair.sync.perform client info' s) := by
  intro hagrees
  obtain ⟨rfl, hinvalid⟩ := Classical.not_imp.mp hkeyed
  obtain ⟨hsession, -⟩ := AsyncMethod.perform_of_accepted (not_rejected hopen hargs) s
  have hcalls : (Request.get (arg info 0)).calls client.platform = none :=
    (Request.calls_eq_none_iff _).mpr hinvalid
  have hasync : (AsyncMethod.get.perform client info s).session = s := by
    refine hsession.trans ?_
    show (client.carryOut ((Request.get (arg info 0)).calls client.platform) s).2 = s
    rw [hcalls]
    rfl
  have hsync : (SyncMethod.getSync.perform client info' s).session = s.issue client (.get none) :=
    getSync_session_ne hopen hargs'
      (by rwa [← show arg info 0 = arg info' 0 from hsame]) s
  have heq : s = s.issue client (.get none) := hasync.symm.trans (hagrees.1.trans hsync)
  have hlength := congrArg (fun s : Session σ => s.calls.length) heq
  simp [Session.issue] at hlength

/-- On an open cache, the two variants of a method agree on the same keys and
    values if and only if they are aligned. -/
theorem agrees_iff (hopen : client.anyInstance = .opened)
    (hargs : pair.async.argumentError info = none)
    (hargs' : pair.sync.argumentError info' = none) (hsame : pair.SameArguments info info')
    (s : Session σ) :
    (pair.async.perform client info s).Agrees (pair.sync.perform client info' s) ↔
      pair.Aligned client info s := by
  obtain ⟨hsession, hthrown, hreported⟩ :=
    AsyncMethod.perform_of_accepted (not_rejected hopen hargs) s
  by_cases hkeyed : pair.Keyed client info
  · have hkeyed' : pair.Keyed client info' := by
      rintro rfl
      rw [← show arg info 0 = arg info' 0 from hsame]
      exact hkeyed rfl
    obtain ⟨hsession', hthrown', hreturned'⟩ := sync_carriesOut hopen hargs' hkeyed' s
    rw [request_eq hsame] at hsession' hthrown' hreturned'
    have hreported' : Reported [] none false (pair.sync.perform client info' s).reports := rfl
    have hsessions : (pair.async.perform client info s).session =
        (pair.sync.perform client info' s).session := hsession.trans hsession'.symm
    have hresult (hok : (pair.async.request info).fails client s = false) :
        (pair.async.perform client info s).result = (pair.sync.perform client info' s).result :=
      result_eq hopen hargs hok rfl (hreturned' hok)
    have hsync : (pair.sync.perform client info' s).thrown = [] ↔
        (pair.async.request info).Serializable client.platform ∧
          (pair.async.request info).fails client s = false ∧
          ((pair.async.request info).result client s).thrown = [] := hthrown'
    simp only [Outcome.Agrees, Aligned, hsessions, true_and, Outcome.fails_iff hreported,
      Outcome.fails_iff hreported', Outcome.succeeds_iff hreported, Outcome.succeeds_iff hreported',
      ne_eq, hthrown, hsync]
    cases hfails : (pair.async.request info).fails client s with
    | true => simp [hkeyed]
    | false =>
      rw [hresult hfails]
      by_cases hserializable : (pair.async.request info).Serializable client.platform <;>
        simp [hserializable, hkeyed]
  · have hnot := not_agrees_of_not_keyed hopen hargs hargs' hsame s hkeyed
    exact iff_of_false hnot fun haligned => hkeyed haligned.1

/-- The arguments of `region.put("foo", "bar")`. -/
def putStringInfo : List JsValue := [.string (.ofAscii "foo"), .string (.ofAscii "bar")]

theorem agrees_putStringInfo :
    (Pair.put.async.perform memoryClient putStringInfo (.start [])).Agrees
      (Pair.put.sync.perform memoryClient putStringInfo (.start [])) :=
  (agrees_iff rfl rfl rfl
    (show put.SameArguments putStringInfo putStringInfo from ⟨rfl, rfl⟩) _).mpr
      ⟨nofun, .inr (.inl ⟨⟨.string _, .string _⟩, rfl⟩)⟩

/-- `region.get(null, callback)` reports an invalid key; `region.getSync(null)`
    asks the client for the key `NULLPTR`. -/
theorem not_agrees_get_null :
    ¬(Pair.get.async.perform memoryClient [.null, .object .function []] (.start [])).Agrees
      (Pair.get.sync.perform memoryClient [.null] (.start [])) := by
  intro hagrees
  have hcalls := congrArg (fun s : Session HashMapOfCacheable => s.calls.length) hagrees.1
  exact absurd hcalls (by decide)

end Pair

end NodeGemfire
