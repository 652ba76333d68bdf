import NodeGemfire.Region.Methods
import NodeGemfire.Region.Request

/-!
# The methods carry out their requests

Every worker, and every synchronous method but `getSync` on an invalid key, does
to the session what its request asks for, and fails exactly when the request does.

## Main definitions

- `AsyncMethod.request`, `SyncMethod.request` — what the arguments ask for
- `Worker.CarriesOut` — a worker does what a request asks for
-/

namespace NodeGemfire

variable {σ α : Type} {client : Client σ}

open Region

/-! ### The course of a call -/

theorem attempt_pure (a : α) (caught : GeodeException → Isolate α) (s : Session σ) :
    Cpp.attempt (pure a : Cpp σ α) caught s = pure (a, s) := rfl

theorem attempt_invoke (call : NativeCall) (f : call.Result → Cpp σ α)
    (caught : GeodeException → Isolate α) (s : Session σ) :
    Cpp.attempt (Cpp.invoke client call >>= f) caught s =
      match (client.native call s.region).1 with
      | .ok r => Cpp.attempt (f r) caught (s.issue client call)
      | .error exception => caught exception >>= fun a => pure (a, s.issue client call) := by
  simp only [Cpp.attempt, Cpp.runOn_bind, Cpp.runOn_invoke, Isolate.pure_bind, Session.issue]
  cases (client.native call s.region).1 <;> rfl

theorem attempt_perform (call : NativeCall) (f : Unit → Cpp σ α)
    (caught : GeodeException → Isolate α) (s : Session σ) :
    Cpp.attempt (Cpp.perform client call >>= f) caught s =
      match (client.native call s.region).1 with
      | .ok _ => Cpp.attempt (f ()) caught (s.issue client call)
      | .error exception => caught exception >>= fun a => pure (a, s.issue client call) := by
  simp only [Cpp.attempt, Cpp.runOn_bind, Cpp.runOn_perform, Isolate.pure_bind, Session.issue]
  cases (client.native call s.region).1 <;> rfl

theorem attempt_tryCatch_perform (call : NativeCall) (a : α) (handler : GeodeException → Cpp σ α)
    (caught : GeodeException → Isolate α) (s : Session σ) :
    Cpp.attempt (tryCatch (Cpp.perform client call >>= fun _ => pure a) handler) caught s =
      match (client.native call s.region).1 with
      | .ok _ => pure (a, s.issue client call)
      | .error exception => Cpp.attempt (handler exception) caught (s.issue client call) := by
  simp only [Cpp.attempt, Cpp.runOn_tryCatch, Cpp.runOn_bind, Cpp.runOn_perform, Isolate.pure_bind,
    Session.issue]
  cases (client.native call s.region).1 <;> rfl

theorem attempt_v8 {β : Type} (x : Isolate β) (f : β → Cpp σ α)
    (caught : GeodeException → Isolate α) (s : Session σ) :
    Cpp.attempt (Cpp.v8 x >>= f) caught s = x >>= fun b => Cpp.attempt (f b) caught s := by
  simp only [Cpp.attempt, Cpp.runOn_bind, Cpp.runOn_v8, bind_assoc, Isolate.pure_bind]

theorem attempt_rejected (message : String) (s : Session σ) :
    Cpp.attempt (rejected message) caught s =
      nanThrowError message >>= fun _ => pure (.undefined, s) := rfl

theorem getCacheFromRegion_of_opened (h : client.anyInstance = .opened) :
    getCacheFromRegion client = pure true := by
  rw [getCacheFromRegion, h]

theorem onOpenCache_of_opened (h : client.anyInstance = .opened) (convert : Isolate (Worker σ)) :
    onOpenCache client convert = some <$> convert := by
  rw [onOpenCache, getCacheFromRegion_of_opened h]
  rfl

theorem attempt_syncMethod (h : client.anyInstance = .opened) (body : Cpp σ ReturnValue)
    (s : Session σ) :
    Cpp.attempt (syncMethod client none body) caught s = Cpp.attempt body caught s := by
  rw [syncMethod, attempt_v8, getCacheFromRegion_of_opened h]
  rfl

/-! ### The workers -/

/-- What the native part of a worker does: whether it ends with an error set, and
    the session. -/
def Worker.execution : Worker σ → Session σ → Bool × Session σ
  | .gemfire _ executeGemfireWork, s =>
    let (outcome, s') := (execute executeGemfireWork s).value
    (!outcome.toBool, s')
  | .evented _ executeGemfireWork, s =>
    let (outcome, s') := (execute executeGemfireWork s).value
    (!outcome.toBool, s')

def Worker.callback : Worker σ → Option JsValue
  | .gemfire callback _ => some callback
  | .evented callback _ => callback

/-- What `HandleOKCallback` calls the callback with. -/
def Worker.arguments : Worker σ → Session σ → List JsValue
  | .gemfire _ executeGemfireWork, s =>
    match (execute executeGemfireWork s).value.1 with
    | .ok v8Result => [.undefined, v8Result.value]
    | .error _ => []
  | .evented _ _, _ => []

/-- In every session, the worker does what the request asks for. -/
structure Worker.CarriesOut (worker : Worker σ) (client : Client σ) (r : Request) : Prop where
  execution (s : Session σ) : worker.execution s = client.carryOut (r.calls client.platform) s
  arguments (s : Session σ) : r.fails client s = false → worker.arguments s = r.arguments client s

theorem execute_perform (call : NativeCall) (s : Session σ) :
    execute (Cpp.perform client call >>= fun _ => pure (.ok ())) s =
      pure (match (client.native call s.region).1 with
        | .ok _ => .ok ()
        | .error exception => .error (v8Error exception), s.issue client call) := by
  rw [execute, attempt_perform]
  cases (client.native call s.region).1 <;> rfl

theorem execute_invoke (call : NativeCall) (f : call.Result → α) (s : Session σ) :
    execute (Cpp.invoke client call >>= fun r => pure (.ok (f r))) s =
      pure (match (client.native call s.region).1 with
        | .ok r => .ok (f r)
        | .error exception => .error (v8Error exception), s.issue client call) := by
  rw [execute, attempt_invoke]
  cases (client.native call s.region).1 <;> rfl

theorem carryOut_singleton (call : NativeCall) (s : Session σ) :
    client.carryOut (some [call]) s =
      (!(client.native call s.region).1.toBool, s.issue client call) := by
  simp only [Client.carryOut, Client.invokeAll]
  cases (client.native call s.region).1 <;> rfl

theorem afterwards_of_none {call : Isolate (Option (Worker σ))} (h : call.value = none)
    (s : Session σ) : afterwards call s = pure ([], s) := by
  simp only [afterwards, h]

theorem afterwards_of_some {call : Isolate (Option (Worker σ))} {worker : Worker σ}
    (h : call.value = some worker) (s : Session σ) : afterwards call s = worker.run s := by
  simp only [afterwards, h]

theorem Worker.run_session (worker : Worker σ) (s : Session σ) :
    (worker.run s).value.2 = (worker.execution s).2 := by
  cases worker <;> rfl

/-- The reports of a worker with this callback whose native part fails or not:
    through the callback if there is one, else an event for a failure only. -/
def Reported (arguments : List JsValue) : Option JsValue → Bool → List Report → Prop
  | some callback, false, reports => reports = [.callback callback arguments]
  | some callback, true, reports => ∃ error, reports = [.callbackError callback error]
  | none, false, reports => reports = []
  | none, true, reports => ∃ error, reports = [.errorEvent error]

/-- Every worker reports once. -/
theorem Worker.run_reported (worker : Worker σ) (s : Session σ) :
    Reported (worker.arguments s) worker.callback (worker.execution s).1
      (worker.run s).value.1 := by
  cases worker with
  | gemfire callback executeGemfireWork =>
    simp only [Worker.callback, Worker.arguments, execution, run, Isolate.bind_value,
      Isolate.pure_value]
    cases (execute executeGemfireWork s).value.1 with
    | error error => exact ⟨error, rfl⟩
    | ok v8Result => rfl
  | evented callback executeGemfireWork =>
    simp only [Worker.callback, execution, run, Isolate.bind_value, Isolate.pure_value]
    cases (execute executeGemfireWork s).value.1 with
    | error error => cases callback <;> exact ⟨error, rfl⟩
    | ok => cases callback <;> rfl

section Workers

variable (callback : Option JsValue) (callback' : JsValue)

theorem execution_evented_perform (call : NativeCall) (s : Session σ) :
    (Worker.evented callback (Cpp.perform client call >>= fun _ => pure (.ok ()))).execution s =
      client.carryOut (some [call]) s := by
  rw [Worker.execution, execute_perform, carryOut_singleton]
  cases (client.native call s.region).1 <;> rfl

theorem execution_gemfire_invoke (call : NativeCall) (f : call.Result → Isolate JsValue)
    (s : Session σ) :
    (Worker.gemfire callback' (Cpp.invoke client call >>= fun r => pure (.ok (f r)))).execution s =
      client.carryOut (some [call]) s := by
  rw [Worker.execution, execute_invoke call f, carryOut_singleton]
  cases (client.native call s.region).1 <;> rfl

theorem arguments_gemfire_invoke (call : NativeCall) (f : call.Result → Isolate JsValue)
    (s : Session σ) :
    (Worker.gemfire callback' (Cpp.invoke client call >>= fun r => pure (.ok (f r)))).arguments s =
      match (client.native call s.region).1 with
      | .ok r => [.undefined, (f r).value]
      | .error _ => [] := by
  rw [Worker.arguments, execute_invoke call f]
  cases (client.native call s.region).1 <;> rfl

theorem ClearWorker.carriesOut :
    (Worker.evented callback (ClearWorker.executeGemfireWork client)).CarriesOut client .clear := by
  refine ⟨fun s => ?_, fun _ _ => rfl⟩
  rw [Worker.execution, ClearWorker.executeGemfireWork, execute, attempt_perform]
  simp only [Request.calls, Client.carryOut, Client.invokeAll]
  cases (client.native .getRegionService s.region).1 with
  | error exception => rfl
  | ok => exact execution_evented_perform callback .clear (s.issue client .getRegionService)

theorem PutWorker.carriesOut (key value : JsValue) :
    (Worker.evented callback (PutWorker.executeGemfireWork client
      (gemfireKey client.platform key).value (gemfireValue client.platform value).value)).CarriesOut
        client (.put key value) := by
  refine ⟨fun s => ?_, fun _ _ => rfl⟩
  rw [Request.calls]
  cases (gemfireKey client.platform key).value with
  | none => rfl
  | some keyPtr =>
    cases (gemfireValue client.platform value).value with
    | none => rfl
    | some valuePtr => exact execution_evented_perform callback (.put keyPtr valuePtr) s

theorem GetWorker.carriesOut (key : JsValue) :
    (Worker.gemfire callback' (GetWorker.executeGemfireWork client
      (gemfireKey client.platform key).value)).CarriesOut client (.get key) := by
  constructor
  · intro s
    rw [Request.calls]
    cases (gemfireKey client.platform key).value with
    | none => rfl
    | some keyPtr =>
      exact execution_gemfire_invoke callback' (.get (some keyPtr)) (v8Value client.platform) s
  · intro s hok
    rw [Request.fails, Request.calls] at hok
    rw [Request.arguments, Request.result]
    cases hk : (gemfireKey client.platform key).value with
    | none =>
      rw [hk] at hok
      cases hok
    | some keyPtr =>
      have hone : (client.carryOut (some [.get (some keyPtr)]) s).1 = false := by
        rw [hk] at hok
        exact hok
      refine (arguments_gemfire_invoke callback' (.get (some keyPtr)) (v8Value client.platform)
        s).trans ?_
      rw [carryOut_singleton] at hone
      cases hn : (client.native (.get (some keyPtr)) s.region).1 with
      | ok => simp [hn]
      | error =>
        rw [hn] at hone
        cases hone

theorem GetAllWorker.carriesOut (keys : List (Option JsValue)) :
    (Worker.gemfire callback' (GetAllWorker.executeGemfireWork client
      (gemfireKeys client.platform keys).value)).CarriesOut client (.getAll keys) := by
  constructor
  · intro s
    rw [Request.calls, ← gemfireKeys_value]
    cases (gemfireKeys client.platform keys).value with
    | none => rfl
    | some keyPtrs =>
      cases keyPtrs with
      | nil => rfl
      | cons key rest =>
        exact execution_gemfire_invoke callback' (.getAll (key :: rest))
          (v8ValueHashMap client.platform) s
  · intro s hok
    rw [Request.fails, Request.calls, ← gemfireKeys_value] at hok
    rw [Request.arguments, Request.result, ← gemfireKeys_value]
    cases hk : (gemfireKeys client.platform keys).value with
    | none =>
      rw [hk] at hok
      cases hok
    | some keyPtrs =>
      cases keyPtrs with
      | nil => rfl
      | cons key rest =>
        have hone : (client.carryOut (some [.getAll (key :: rest)]) s).1 = false := by
          rw [hk] at hok
          exact hok
        refine (arguments_gemfire_invoke callback' (.getAll (key :: rest))
          (v8ValueHashMap client.platform) s).trans ?_
        rw [carryOut_singleton] at hone
        cases hn : (client.native (.getAll (key :: rest)) s.region).1 with
        | ok => simp [hn]
        | error =>
          rw [hn] at hone
          cases hone

theorem PutAllWorker.carriesOut (entries : JsValue) :
    (Worker.evented callback (PutAllWorker.executeGemfireWork client
      (gemfireHashMap client.platform entries).value)).CarriesOut client (.putAll entries) := by
  refine ⟨fun s => ?_, fun _ _ => rfl⟩
  rw [Request.calls, ← insertEntries_value, ← gemfireHashMap]
  cases (gemfireHashMap client.platform entries).value with
  | none => rfl
  | some hashMap => exact execution_evented_perform callback (.putAll hashMap) s

/-- An entry that is not found is an error with a name of its own. -/
theorem RemoveWorker.carriesOut (key : JsValue) :
    (Worker.evented callback (RemoveWorker.executeGemfireWork client
      (gemfireKey client.platform key).value)).CarriesOut client (.remove key) := by
  refine ⟨fun s => ?_, fun _ _ => rfl⟩
  rw [Request.calls]
  cases (gemfireKey client.platform key).value with
  | none => rfl
  | some keyPtr =>
    show Worker.execution _ s = client.carryOut (some [.destroy keyPtr]) s
    rw [carryOut_singleton, Worker.execution, execute, RemoveWorker.executeGemfireWork,
      attempt_tryCatch_perform]
    cases (client.native (.destroy keyPtr) s.region).1 with
    | ok => rfl
    | error exception =>
      by_cases h : isEntryNotFoundException exception = true
      · simp only [if_pos h]
        rfl
      · simp only [if_neg h]
        rfl

theorem DestroyRegionWorker.carriesOut («local» : Bool) :
    (Worker.evented callback (DestroyRegionWorker.executeGemfireWork client «local»)).CarriesOut
      client (if «local» then .localDestroyRegion else .destroyRegion) := by
  cases «local»
  · exact ⟨execution_evented_perform callback .destroyRegion, fun _ _ => rfl⟩
  · exact ⟨execution_evented_perform callback .localDestroyRegion, fun _ _ => rfl⟩

end Workers

/-! ### The asynchronous methods -/

namespace AsyncMethod

/-- What a call with these arguments asks for. -/
def request : AsyncMethod → List JsValue → Request
  | .clear, _ => .clear
  | .put, info => .put (arg info 0) (arg info 1)
  | .get, info => .get (arg info 0)
  | .getAll, info => .getAll (arrayElements (arg info 0))
  | .putAll, info => .putAll (arg info 0)
  | .remove, info => .remove (arg info 0)
  | .destroyRegion, _ => .destroyRegion
  | .localDestroyRegion, _ => .localDestroyRegion

/-- The callback a call with these arguments passes. -/
def callback : AsyncMethod → List JsValue → Option JsValue
  | .clear, info | .destroyRegion, info | .localDestroyRegion, info => getCallback (arg info 0)
  | .put, info => getCallback (arg info 2)
  | .get, info | .getAll, info => some (arg info 1)
  | .putAll, info | .remove, info => getCallback (arg info 1)

/-- The methods that call `getCacheFromRegion`. -/
def checksCache : AsyncMethod → Bool
  | .clear | .destroyRegion | .localDestroyRegion => false
  | .put | .get | .getAll | .putAll | .remove => true

/-- The arguments are not those of the method, or the cache is not open. -/
def Rejected (m : AsyncMethod) (client : Client σ) (info : List JsValue) : Prop :=
  m.argumentError info ≠ none ∨ (m.checksCache = true ∧ client.anyInstance ≠ .opened)

theorem call_of_argumentError {m : AsyncMethod} {info : List JsValue} {message : String}
    (h : m.argumentError info = some message) :
    m.call client info = nanThrowError message >>= fun _ => pure none := by
  cases m <;>
    simp only [argumentError] at h <;>
    simp only [call, Region.clear, Region.put, Region.get, Region.getAll, Region.putAll,
      Region.remove, Region.destroyRegion, Region.localDestroyRegion, asyncMethod, h]

theorem onOpenCache_of_not_opened (h : client.anyInstance ≠ .opened)
    (convert : Isolate (Worker σ)) :
    (onOpenCache client convert).value = none ∧ (onOpenCache client convert).thrown ≠ [] := by
  obtain ⟨hvalue, hthrown⟩ := getCacheFromRegion_of_not_opened client h
  simp [onOpenCache, hvalue, hthrown]

/-- A rejected call throws and queues nothing. -/
theorem call_of_rejected {m : AsyncMethod} {info : List JsValue} (h : m.Rejected client info) :
    (m.call client info).value = none ∧ (m.call client info).thrown ≠ [] := by
  cases herror : m.argumentError info with
  | some message =>
    rw [call_of_argumentError herror]
    simp
  | none =>
    obtain ⟨hchecks, hopen⟩ : m.checksCache = true ∧ client.anyInstance ≠ .opened :=
      h.resolve_left fun hne => hne herror
    cases m <;> simp only [checksCache, reduceCtorEq] at hchecks <;>
      simp only [argumentError] at herror <;>
      simp only [call, Region.put, Region.get, Region.getAll, Region.putAll, Region.remove,
        asyncMethod, herror] <;>
      exact onOpenCache_of_not_opened hopen _

theorem not_rejected_iff (m : AsyncMethod) (info : List JsValue) :
    ¬m.Rejected client info ↔
      m.argumentError info = none ∧ (m.checksCache = true → client.anyInstance = .opened) := by
  rw [Rejected, not_or, not_not, not_and, not_not]

/-- Any other call queues the worker that carries out its request, and throws when
    a part of the request is not serializable. -/
theorem call_of_accepted {m : AsyncMethod} {info : List JsValue} (h : ¬m.Rejected client info) :
    ∃ worker, (m.call client info).value = some worker ∧ worker.callback = m.callback info ∧
      worker.CarriesOut client (m.request info) ∧
      ((m.call client info).thrown = [] ↔ (m.request info).Serializable client.platform) := by
  obtain ⟨hargs, hopen⟩ := (not_rejected_iff m info).mp h
  cases m with
  | clear =>
    rw [call, Region.clear, show callbackError "clear()" (arg info 0) = none from hargs]
    exact ⟨_, rfl, rfl, ClearWorker.carriesOut _, iff_of_true rfl trivial⟩
  | destroyRegion =>
    rw [call, Region.destroyRegion,
      show callbackError "destroyRegion()" (arg info 0) = none from hargs]
    exact ⟨_, rfl, rfl, DestroyRegionWorker.carriesOut _ false, iff_of_true rfl trivial⟩
  | localDestroyRegion =>
    rw [call, Region.localDestroyRegion,
      show callbackError "localDestroyRegion()" (arg info 0) = none from hargs]
    exact ⟨_, rfl, rfl, DestroyRegionWorker.carriesOut _ true, iff_of_true rfl trivial⟩
  | put =>
    rw [call, Region.put, show putError info = none from hargs, asyncMethod,
      onOpenCache_of_opened (hopen rfl)]
    refine ⟨_, rfl, rfl, PutWorker.carriesOut _ _ _, ?_⟩
    simp [Request.Serializable, request, gemfireKey_thrown_eq_nil_iff,
      gemfireValue_thrown_eq_nil_iff]
  | get =>
    rw [call, Region.get, show getError info = none from hargs, asyncMethod,
      onOpenCache_of_opened (hopen rfl)]
    refine ⟨_, rfl, rfl, GetWorker.carriesOut _ _, ?_⟩
    simp [Request.Serializable, request, gemfireKey_thrown_eq_nil_iff]
  | getAll =>
    rw [call, Region.getAll, show getAllError info = none from hargs, asyncMethod,
      onOpenCache_of_opened (hopen rfl)]
    refine ⟨_, rfl, rfl, GetAllWorker.carriesOut _ _, ?_⟩
    simp [Request.Serializable, request, gemfireKeys_thrown_eq_nil_iff]
  | putAll =>
    rw [call, Region.putAll, show putAllError info = none from hargs, asyncMethod,
      onOpenCache_of_opened (hopen rfl)]
    refine ⟨_, rfl, rfl, PutAllWorker.carriesOut _ _, ?_⟩
    simp [Request.Serializable, request, gemfireHashMap, insertEntries_thrown_eq_nil_iff]
  | remove =>
    rw [call, Region.remove, show removeError info = none from hargs, asyncMethod,
      onOpenCache_of_opened (hopen rfl)]
    refine ⟨_, rfl, rfl, RemoveWorker.carriesOut _ _, ?_⟩
    simp [Request.Serializable, request, gemfireKey_thrown_eq_nil_iff]

/-- What an accepted call leads to. -/
theorem perform_of_accepted {m : AsyncMethod} {info : List JsValue} (h : ¬m.Rejected client info)
    (s : Session σ) :
    (m.perform client info s).session = (m.request info).session client s ∧
      ((m.perform client info s).thrown = [] ↔ (m.request info).Serializable client.platform) ∧
      Reported ((m.request info).arguments client s) (m.callback info)
        ((m.request info).fails client s) (m.perform client info s).reports := by
  obtain ⟨worker, hworker, hcallback, hcarries, hthrown⟩ := call_of_accepted h
  simp only [perform, afterwards_of_some hworker]
  refine ⟨?_, hthrown, ?_⟩
  · rw [worker.run_session, hcarries.execution s]
    rfl
  · have hreported := worker.run_reported s
    rw [hcallback, hcarries.execution s] at hreported
    cases hfails : (m.request info).fails client s with
    | false =>
      rw [hcarries.arguments s hfails, ← Request.fails, hfails] at hreported
      exact hreported
    | true =>
      rw [← Request.fails, hfails] at hreported
      cases hc : m.callback info <;>
        · rw [hc] at hreported
          exact hreported

/-- What a rejected call leads to. -/
theorem perform_of_rejected {m : AsyncMethod} {info : List JsValue} (h : m.Rejected client info)
    (s : Session σ) :
    (m.perform client info s).session = s ∧ (m.perform client info s).thrown ≠ [] ∧
      (m.perform client info s).reports = [] := by
  obtain ⟨hvalue, hthrown⟩ := call_of_rejected h
  simp only [perform, afterwards_of_none hvalue]
  exact ⟨rfl, hthrown, rfl⟩

end AsyncMethod

/-! ### The synchronous methods -/

namespace SyncMethod

def request : SyncMethod → List JsValue → Request
  | .putSync, info => .put (arg info 0) (arg info 1)
  | .getSync, info => .get (arg info 0)
  | .getAllSync, info => .getAll (arrayElements (arg info 0))
  | .putAllSync, info => .putAll (arg info 0)

/-- What a successful call returns, given the result of its request. -/
def returned : SyncMethod → JsValue → ReturnValue
  | .putSync, _ | .putAllSync, _ => .holder
  | .getSync, value | .getAllSync, value => .value value

/-- The arguments are not those of the method, or the cache is not open. -/
def Rejected (m : SyncMethod) (client : Client σ) (info : List JsValue) : Prop :=
  m.argumentError info ≠ none ∨ client.anyInstance ≠ .opened

/-- A synchronous call with this outcome does what the request asks for. -/
structure CarriesOut (m : SyncMethod) (client : Client σ) (r : Request) (s : Session σ)
    (call : Isolate (ReturnValue × Session σ)) : Prop where
  session : call.value.2 = r.session client s
  thrown : call.thrown = [] ↔
    r.Serializable client.platform ∧ r.fails client s = false ∧ (r.result client s).thrown = []
  returned : r.fails client s = false → call.value.1 = m.returned (r.result client s).value

theorem not_rejected_iff (m : SyncMethod) (info : List JsValue) :
    ¬m.Rejected client info ↔ m.argumentError info = none ∧ client.anyInstance = .opened := by
  rw [Rejected, not_or, not_not, not_not]

theorem attempt_syncMethod_of_rejected {argumentError : Option String}
    (h : argumentError ≠ none ∨ client.anyInstance ≠ .opened) (body : Cpp σ ReturnValue)
    (s : Session σ) :
    (Cpp.attempt (syncMethod client argumentError body) caught s).value = (.undefined, s) := by
  cases argumentError with
  | some message => rfl
  | none =>
    have hopen := h.resolve_left fun hne => hne rfl
    rw [syncMethod, attempt_v8, Isolate.bind_value,
      (getCacheFromRegion_of_not_opened client hopen).1]
    rfl

/-- A rejected call leaves the session as it is. -/
theorem session_of_rejected (m : SyncMethod) {info : List JsValue} (h : m.Rejected client info)
    (s : Session σ) : (m.call client info s).value.2 = s := by
  cases m with
  | putSync => exact congrArg Prod.snd (attempt_syncMethod_of_rejected h _ s)
  | getAllSync => exact congrArg Prod.snd (attempt_syncMethod_of_rejected h _ s)
  | putAllSync => exact congrArg Prod.snd (attempt_syncMethod_of_rejected h _ s)
  | getSync =>
    cases hargs : getSyncError info with
    | some message =>
      simp only [call, Region.getSync, hargs]
      rfl
    | none =>
      have hopen := h.resolve_left fun hne => hne hargs
      simp only [call, Region.getSync, hargs, attempt_v8, Isolate.bind_value,
        (getCacheFromRegion_of_not_opened client hopen).1]
      rfl

theorem putSync_carriesOut (hopen : client.anyInstance = .opened) {info : List JsValue}
    (hargs : putSyncError info = none) (s : Session σ) :
    putSync.CarriesOut client (putSync.request info) s (Region.putSync client info s) := by
  have hkey := gemfireKey_thrown_eq_nil_iff (p := client.platform) (arg info 0)
  have hvalue := gemfireValue_thrown_eq_nil_iff (p := client.platform) (arg info 1)
  rw [Region.putSync, hargs, attempt_syncMethod hopen, attempt_v8, request]
  cases hk : (gemfireKey client.platform (arg info 0)).value with
  | none =>
    constructor <;>
      simp [Request.session, Request.fails, Request.calls, Client.carryOut, hk, attempt_rejected]
  | some key =>
    cases hv : (gemfireValue client.platform (arg info 1)).value with
    | none =>
      constructor <;>
        simp [Request.session, Request.fails, Request.calls, Client.carryOut, hk, hv, attempt_v8,
          attempt_rejected]
    | some value =>
      cases hn : (client.native (.put key value) s.region).1 with
      | error exception =>
        constructor <;>
          simp [-bind_pure_comp, Request.session, Request.fails, Request.calls, hk, hv, hn,
            carryOut_singleton, attempt_v8, attempt_perform, caught, Except.toBool]
      | ok =>
        constructor <;>
          simp [-bind_pure_comp, Request.session, Request.fails, Request.calls, Request.result,
            Request.Serializable, hk, hv, hn, hkey, hvalue, carryOut_singleton, attempt_v8,
            attempt_perform, attempt_pure, Except.toBool, returned]

theorem getAllSync_carriesOut (hopen : client.anyInstance = .opened) {info : List JsValue}
    (hargs : getAllSyncError info = none) (s : Session σ) :
    getAllSync.CarriesOut client (getAllSync.request info) s (Region.getAllSync client info s) := by
  have hkeys := gemfireKeys_thrown_eq_nil_iff (p := client.platform) (arrayElements (arg info 0))
  have hvalue := gemfireKeys_value (p := client.platform) (arrayElements (arg info 0))
  rw [Region.getAllSync, hargs, attempt_syncMethod hopen, attempt_v8, request]
  cases hk : (gemfireKeys client.platform (arrayElements (arg info 0))).value with
  | none =>
    constructor <;>
      simp [Request.session, Request.fails, Request.calls, Client.carryOut, hk, ← hvalue,
        attempt_rejected]
  | some keys =>
    cases keys with
    | nil =>
      constructor <;>
        simp [-bind_pure_comp, Request.session, Request.fails, Request.calls, Request.result,
          Request.Serializable, Client.carryOut, Client.invokeAll, hk, hkeys, ← hvalue, attempt_v8,
          attempt_pure, returned]
    | cons key keys =>
      cases hn : (client.native (.getAll (key :: keys)) s.region).1 with
      | error exception =>
        constructor <;>
          simp [-bind_pure_comp, Request.session, Request.fails, Request.calls, hk, hn, ← hvalue,
            carryOut_singleton, attempt_invoke (.getAll (key :: keys)), caught, Except.toBool]
      | ok results =>
        constructor <;>
          simp [-bind_pure_comp, Request.session, Request.fails, Request.calls, Request.result,
            Request.Serializable, hk, hn, hkeys, ← hvalue, carryOut_singleton, attempt_v8,
            attempt_invoke (.getAll (key :: keys)), attempt_pure, Except.toBool, returned]

theorem putAllSync_carriesOut (hopen : client.anyInstance = .opened) {info : List JsValue}
    (hargs : putAllSyncError info = none) (s : Session σ) :
    putAllSync.CarriesOut client (putAllSync.request info) s (Region.putAllSync client info s) := by
  have hentries := insertEntries_thrown_eq_nil_iff (p := client.platform) []
    (arg info 0).ownProperties
  have hvalue := insertEntries_value (p := client.platform) [] (arg info 0).ownProperties
  rw [Region.putAllSync, hargs, attempt_syncMethod hopen, attempt_v8, request, gemfireHashMap]
  cases hm : (insertEntries client.platform [] (arg info 0).ownProperties).value with
  | none =>
    constructor <;>
      simp [Request.session, Request.fails, Request.calls, Client.carryOut, hm, ← hvalue,
        attempt_rejected]
  | some hashMap =>
    cases hn : (client.native (.putAll hashMap) s.region).1 with
    | error exception =>
      constructor <;>
        simp [-bind_pure_comp, Request.session, Request.fails, Request.calls, hm, hn, ← hvalue,
          carryOut_singleton, attempt_perform, caught, Except.toBool]
    | ok =>
      constructor <;>
        simp [-bind_pure_comp, Request.session, Request.fails, Request.calls, Request.result,
          Request.Serializable, hm, hn, hentries, ← hvalue, carryOut_singleton, attempt_perform,
          attempt_pure, Except.toBool, returned]

theorem getSync_eq (hopen : client.anyInstance = .opened) {info : List JsValue}
    (hargs : getSyncError info = none) (s : Session σ) :
    Region.getSync client info s = gemfireKey client.platform (arg info 0) >>= fun keyPtr =>
      match (client.native (.get keyPtr) s.region).1 with
      | .ok valuePtr => v8Value client.platform valuePtr >>= fun value =>
          pure (.value value, s.issue client (.get keyPtr))
      | .error exception => throwGemfireException exception >>= fun _ =>
          pure (.value .null, s.issue client (.get keyPtr)) := by
  rw [Region.getSync, hargs, attempt_v8, getCacheFromRegion_of_opened hopen, Isolate.pure_bind,
    if_pos rfl, attempt_v8, bind_assoc]
  congr 1
  funext keyPtr
  rw [attempt_invoke]
  cases (client.native (.get keyPtr) s.region).1 <;> rfl

theorem getSync_of_ok (hopen : client.anyInstance = .opened) {info : List JsValue}
    (hargs : getSyncError info = none) {s : Session σ} {keyPtr valuePtr : CacheablePtr}
    (hk : (gemfireKey client.platform (arg info 0)).value = keyPtr)
    (hn : (client.native (.get keyPtr) s.region).1 = .ok valuePtr) :
    (Region.getSync client info s).value =
        (.value (v8Value client.platform valuePtr).value, s.issue client (.get keyPtr)) ∧
      (Region.getSync client info s).thrown =
        (gemfireKey client.platform (arg info 0)).thrown ++
          (v8Value client.platform valuePtr).thrown := by
  subst hk
  rw [getSync_eq hopen hargs, Isolate.bind_value, Isolate.bind_thrown, hn]
  simp

theorem getSync_of_error (hopen : client.anyInstance = .opened) {info : List JsValue}
    (hargs : getSyncError info = none) {s : Session σ} {keyPtr : CacheablePtr}
    {exception : GeodeException}
    (hk : (gemfireKey client.platform (arg info 0)).value = keyPtr)
    (hn : (client.native (.get keyPtr) s.region).1 = .error exception) :
    (Region.getSync client info s).value = (.value .null, s.issue client (.get keyPtr)) ∧
      (Region.getSync client info s).thrown ≠ [] := by
  subst hk
  rw [getSync_eq hopen hargs, Isolate.bind_value, Isolate.bind_thrown, hn]
  simp

/-- On a key, `getSync` does what `get` does. -/
theorem getSync_carriesOut (hopen : client.anyInstance = .opened) {info : List JsValue}
    (hargs : getSyncError info = none) (hkeyed : KeyValued client.platform (arg info 0))
    (s : Session σ) :
    getSync.CarriesOut client (getSync.request info) s (Region.getSync client info s) := by
  have hkey := gemfireKey_thrown_eq_nil_iff (p := client.platform) (arg info 0)
  obtain ⟨key, hk⟩ := Option.ne_none_iff_exists'.mp ((gemfireKey_value_ne_none_iff _).mpr hkeyed)
  rw [request]
  cases hn : (client.native (.get (some key)) s.region).1 with
  | error exception =>
    obtain ⟨hvalue, hthrown⟩ := getSync_of_error hopen hargs hk hn
    constructor <;>
      simp [Request.session, Request.fails, Request.calls, hk, hn, carryOut_singleton,
        Except.toBool, hvalue, hthrown]
  | ok valuePtr =>
    obtain ⟨hvalue, hthrown⟩ := getSync_of_ok hopen hargs hk hn
    constructor <;>
      simp [Request.session, Request.fails, Request.calls, Request.result, Request.Serializable, hk,
        hn, hkey, carryOut_singleton, Except.toBool, returned, hvalue, hthrown]

end SyncMethod

end NodeGemfire
