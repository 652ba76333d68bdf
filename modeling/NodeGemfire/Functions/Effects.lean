import NodeGemfire.Functions.Execute
import NodeGemfire.Region.Validation

/-!
# The effects of a call that throws

A part that cannot be serialized leaves an exception pending, but the conversion
of the array or object it stands in goes on, and so does the caller. Whether the
call has an effect all the same depends on whether `NULLPTR` reaches a check.

## Main definitions

- `Session.Untouched` — no put, putAll or execution, and the same region
- `Entry` — the calls that convert values and then act on them
- `Entry.Stops` — the call is given up before it acts
- `Harmless` — a call that throws for a part of its arguments has no effect

## Main results

- `harmless_iff` — a call is harmless if and only if its parts are serializable or it stops
-/

namespace NodeGemfire

variable {σ α β : Type} {client : Client σ}

/-! ### Sessions without effects -/

/-- The calls that put something or execute a function. -/
def NativeCall.isEffect : NativeCall → Bool
  | .put _ _ | .putAll _ | .execute _ _ => true
  | _ => false

def Session.effects (s : Session σ) : List NativeCall := s.calls.filter (·.isEffect)

/-- From `s` to `s'` there is no effect, and the region is as it was. -/
def Session.Untouched (s s' : Session σ) : Prop := s'.effects = s.effects ∧ s'.region = s.region

theorem Session.Untouched.refl (s : Session σ) : s.Untouched s := ⟨rfl, rfl⟩

theorem Session.Untouched.trans {s s' s'' : Session σ} (h : s.Untouched s')
    (h' : s'.Untouched s'') :
    s.Untouched s'' := ⟨h'.1.trans h.1, h'.2.trans h.2⟩

theorem Session.Untouched.symm {s s' : Session σ} (h : s.Untouched s') : s'.Untouched s :=
  ⟨h.1.symm, h.2.symm⟩

theorem Session.effects_issue (s : Session σ) (call : NativeCall) :
    (s.issue client call).effects = s.effects ++ if call.isEffect then [call] else [] := by
  rw [effects, issue, List.filter_append, effects]
  cases h : call.isEffect <;> simp [h]

theorem Session.not_untouched_issue {call : NativeCall} (h : call.isEffect = true) (s : Session σ) :
    ¬s.Untouched (s.issue client call) := by
  rintro ⟨heffects, -⟩
  rw [effects_issue, if_pos h] at heffects
  simp at heffects

/-! ### Code without effects -/

/-- The calls that look for a pool and prepare an execution. -/
def NativeCall.isPreparation : NativeCall → Bool
  | .getPool _ | .onTarget _ | .withArgs _ _ | .withFilter _ _ | .withCollector _ => true
  | _ => false

theorem NativeCall.isEffect_of_isPreparation {call : NativeCall}
    (h : call.isPreparation = true) : call.isEffect = false := by
  cases call <;> first | rfl | cases h

/-- Preparing an execution leaves the region as it is, whether the client throws or not. -/
def Client.PreparesApart (client : Client σ) : Prop :=
  ∀ call r, call.isPreparation = true → (client.native call r).2 = r

/-- The code has no effect, and its outcome is that of the region as it stands. -/
def Prepares (x : Cpp σ α) (outcome : σ → Except GeodeException α) : Prop :=
  ∀ s, ∃ s', (x.runOn s).value = (outcome s.region, s') ∧ s.Untouched s'

/-- The code has an effect. -/
def Acts (x : Cpp σ α) : Prop := ∀ s, (x.runOn s).value.2.effects ≠ s.effects

theorem Session.untouched_issue {s : Session σ} {call : NativeCall} (hcall : call.isEffect = false)
    (h : (client.native call s.region).2 = s.region) : s.Untouched (s.issue client call) := by
  constructor
  · rw [effects_issue, hcall]
    simp
  · exact h

theorem prepares_pure (a : α) : Prepares (pure a : Cpp σ α) fun _ => .ok a :=
  fun s => ⟨s, rfl, .refl s⟩

theorem prepares_invoke (hclient : client.PreparesApart) {call : NativeCall}
    (hcall : call.isPreparation = true) :
    Prepares (Cpp.invoke client call) fun r => (client.native call r).1 := fun s =>
  ⟨s.issue client call, rfl, Session.untouched_issue
    (NativeCall.isEffect_of_isPreparation hcall) (hclient call s.region hcall)⟩

theorem Prepares.bind {x : Cpp σ α} {f : α → Cpp σ β} {outcome : σ → Except GeodeException α}
    {outcome' : α → σ → Except GeodeException β} (hx : Prepares x outcome)
    (hf : ∀ a, Prepares (f a) (outcome' a)) :
    Prepares (x >>= f) fun r => outcome r >>= fun a => outcome' a r := by
  intro s
  obtain ⟨s', hrun, huntouched⟩ := hx s
  rw [Cpp.runOn_bind, Isolate.bind_value, hrun]
  dsimp only
  cases outcome s.region with
  | error exception => exact ⟨s', rfl, huntouched⟩
  | ok a =>
    obtain ⟨s'', hrun', huntouched'⟩ := hf a s'
    refine ⟨s'', ?_, huntouched.trans huntouched'⟩
    rw [huntouched.2] at hrun'
    exact hrun'

/-- What acts once it is prepared is without effect only where the preparation fails. -/
theorem Prepares.untouched_bind_iff {x : Cpp σ α} {f : α → Cpp σ β}
    {outcome : σ → Except GeodeException α} (hx : Prepares x outcome) (hf : ∀ a, Acts (f a))
    (s : Session σ) :
    s.Untouched ((x >>= f).runOn s).value.2 ↔ ∃ exception, outcome s.region = .error exception := by
  obtain ⟨s', hrun, huntouched⟩ := hx s
  rw [Cpp.runOn_bind, Isolate.bind_value, hrun]
  cases outcome s.region with
  | error exception => exact iff_of_true huntouched ⟨exception, rfl⟩
  | ok a =>
    refine iff_of_false (fun h => hf a s' ?_) nofun
    exact h.1.trans huntouched.1.symm

/-- Once a function has been executed, reading the result does not undo it. -/
theorem acts_execute (execution : Execution) (functionName : Bytes) {f : Unit → Cpp σ α}
    (hf : ∀ s, ((f ()).runOn s).value.2.effects = s.effects) :
    Acts (Cpp.perform client (.execute execution functionName) >>= f) := by
  intro s heffects
  have hissue : (s.issue client (.execute execution functionName)).effects = s.effects := by
    rw [Cpp.runOn_bind, Cpp.runOn_perform, Isolate.pure_bind] at heffects
    cases h : (client.native (.execute execution functionName) s.region).1 with
    | error exception =>
      rw [h] at heffects
      exact heffects
    | ok =>
      rw [h] at heffects
      exact (hf _).symm.trans heffects
  rw [Session.effects_issue] at hissue
  simp [NativeCall.isEffect] at hissue

/-! ### Code that leaves the session alone -/

theorem attempt_session (x : Cpp σ α) (caught : GeodeException → Isolate α) (s : Session σ) :
    (Cpp.attempt x caught s).value.2 = (x.runOn s).value.2 := by
  rw [Cpp.attempt, Isolate.bind_value]
  obtain ⟨r, s'⟩ := (x.runOn s).value
  cases r <;> rfl

theorem tryCatch_session (x : Cpp σ α) (a : α) (s : Session σ) :
    ((tryCatch x fun _ => pure a).runOn s).value.2 = (x.runOn s).value.2 := by
  rw [Cpp.runOn_tryCatch, Isolate.bind_value]
  obtain ⟨r, s'⟩ := (x.runOn s).value
  cases r <;> rfl

/-- What V8 makes of a result comes after all calls. -/
theorem bind_v8_session (x : Cpp σ α) (f : α → Isolate β) (g : β → FunctionReturn)
    (s : Session σ) :
    ((x >>= fun a => Cpp.v8 (f a) >>= fun b => pure (g b)).runOn s).value.2 =
      (x.runOn s).value.2 := by
  rw [Cpp.runOn_bind, Isolate.bind_value]
  obtain ⟨r, s'⟩ := (x.runOn s).value
  cases r <;> rfl

/-! ### Function execution -/

/-- The execution with the arguments and the filter, where there are any. -/
def builtExecution (client : Client σ) (executionPtr : Execution) (functionArguments : CacheablePtr)
    (functionFilter : Option CacheableVector) : Cpp σ Execution := do
  let executionPtr ← applyArgs client executionPtr functionArguments
  applyFilter client executionPtr functionFilter

/-- The execution as the worker does it, but with the results waited for. -/
def nativeExecution (client : Client σ) (executionPtr : Execution) (functionName : Bytes)
    (functionArguments : CacheablePtr) (functionFilter : Option CacheableVector) :
    Cpp σ CacheableVector := do
  let executionPtr ← builtExecution client executionPtr functionArguments functionFilter
  Cpp.perform client (.execute executionPtr functionName)
  Cpp.invoke client .getResult

/-- With arguments the pointer is set, and the execution is as the worker's. -/
theorem synchronousResults_some (executionPtr : Execution) (functionName : Bytes)
    (functionArguments : Cacheable) (functionFilter : Option CacheableVector) :
    synchronousResults client executionPtr functionName (some functionArguments) functionFilter =
      tryCatch
        (nativeExecution client executionPtr functionName (some functionArguments) functionFilter)
        (fun _ => pure []) := by
  rw [synchronousResults, nativeExecution, builtExecution]
  congr 1
  cases functionFilter <;>
    simp [synchronousArgs, synchronousFilter, applyArgs, applyFilter, dereference]

/-- Without arguments the null pointer is used before any call. -/
theorem synchronousResults_none (executionPtr : Execution) (functionName : Bytes)
    (functionFilter : Option CacheableVector) (s : Session σ) :
    (synchronousResults client executionPtr functionName none functionFilter).runOn s =
      pure (.ok [], s) := by
  cases functionFilter <;> rfl

/-- What the client says to the arguments, where there are any. -/
def Client.withArgs (client : Client σ) (r : σ) (execution : Execution) :
    CacheablePtr → Except GeodeException Execution
  | none => .ok execution
  | some args => (client.native (.withArgs execution args) r).1

/-- What the client says to the filter, where there is one. -/
def Client.withFilter (client : Client σ) (r : σ) (execution : Execution) :
    Option CacheableVector → Except GeodeException Execution
  | none => .ok execution
  | some filter => (client.native (.withFilter execution filter) r).1

/-- What the client says to the arguments and then to the filter. -/
def Client.prepare (client : Client σ) (r : σ) (execution : Execution) (args : CacheablePtr)
    (filter : Option CacheableVector) : Except GeodeException Execution := do
  let execution ← client.withArgs r execution args
  client.withFilter r execution filter

section Execution

variable (hclient : client.PreparesApart)

include hclient

theorem prepares_builtExecution (execution : Execution) (args : CacheablePtr)
    (filter : Option CacheableVector) : Prepares (builtExecution client execution args filter)
      fun r => client.prepare r execution args filter := by
  have hargs : Prepares (applyArgs client execution args)
      fun r => client.withArgs r execution args := by
    cases args with
    | none => exact prepares_pure _
    | some args => exact prepares_invoke hclient rfl
  refine hargs.bind fun execution' => ?_
  cases filter with
  | none => exact prepares_pure _
  | some filter => exact prepares_invoke hclient rfl

/-- The worker executes the function, unless the client refuses what it is to be
    executed with. -/
theorem untouched_execute_iff (worker : ExecuteFunctionWorker) (s : Session σ) :
    s.Untouched (worker.execute client s).value.2 ↔ ∃ exception,
      (client.prepare s.region worker.executionPtr worker.functionArguments
          worker.functionFilter >>= fun execution =>
        (client.native (.withCollector execution) s.region).1) = .error exception := by
  have hbody : (do
      let executionPtr ← applyArgs client worker.executionPtr worker.functionArguments
      let executionPtr ← applyFilter client executionPtr worker.functionFilter
      let executionPtr ← Cpp.invoke client (.withCollector executionPtr)
      Cpp.perform client (.execute executionPtr worker.functionName)
      pure (none : Option GeodeException)) = (do
      let executionPtr ← (builtExecution client worker.executionPtr worker.functionArguments
        worker.functionFilter >>= fun executionPtr =>
          Cpp.invoke client (.withCollector executionPtr))
      Cpp.perform client (.execute executionPtr worker.functionName)
      pure none) := by
    simp only [builtExecution, bind_assoc]
  rw [ExecuteFunctionWorker.execute, attempt_session, hbody]
  have hcollector (execution : Execution) : Prepares (Cpp.invoke client (.withCollector execution))
      fun r => (client.native (.withCollector execution) r).1 := prepares_invoke hclient rfl
  exact ((prepares_builtExecution hclient _ _ _).bind hcollector).untouched_bind_iff
    (fun execution => acts_execute (f := fun _ => pure none) _ _ fun s => rfl) s

/-- With arguments, the function is executed at once, unless the client refuses. -/
theorem untouched_synchronousResults_iff (execution : Execution) (functionName : Bytes)
    (args : Cacheable) (filter : Option CacheableVector) (s : Session σ) :
    s.Untouched ((synchronousResults client execution functionName (some args) filter).runOn
        s).value.2 ↔
      ∃ exception, client.prepare s.region execution (some args) filter = .error exception := by
  have hresult (s : Session σ) : ((Cpp.invoke client .getResult).runOn s).value.2.effects =
      s.effects := by
    show (s.issue client .getResult).effects = s.effects
    rw [Session.effects_issue]
    exact List.append_nil _
  rw [synchronousResults_some, tryCatch_session]
  exact (prepares_builtExecution hclient _ _ _).untouched_bind_iff
    (fun execution' => acts_execute _ _ hresult) s

end Execution

/-! ### The parts of a function call -/

namespace FunctionOptions

/-- The values that are converted: the function arguments, and the keys of the
    filter. -/
def parts (options : FunctionOptions) : List JsValue :=
  options.functionArguments.toList ++ (options.functionFilter.getD []).map (·.getD .undefined)

/-- The exceptions their conversion schedules. -/
def thrown (client : Client σ) (options : FunctionOptions) : List JsError :=
  (NodeGemfire.gemfireArguments client options.functionArguments).thrown ++
    (NodeGemfire.gemfireFilter client options.functionFilter).thrown

theorem thrown_eq_nil_iff (options : FunctionOptions) :
    options.thrown client = [] ↔ ∀ v ∈ options.parts, Serializable client.platform v := by
  have hargs : (NodeGemfire.gemfireArguments client options.functionArguments).thrown = [] ↔
      ∀ v ∈ options.functionArguments.toList, Serializable client.platform v := by
    cases options.functionArguments with
    | none => simp [NodeGemfire.gemfireArguments]
    | some v => simp [NodeGemfire.gemfireArguments, gemfireValue_thrown_eq_nil_iff]
  have hfilter : (NodeGemfire.gemfireFilter client options.functionFilter).thrown = [] ↔
      ∀ v ∈ (options.functionFilter.getD []).map (·.getD .undefined),
        Serializable client.platform v := by
    cases options.functionFilter with
    | none => simp [NodeGemfire.gemfireFilter]
    | some es =>
      simp [NodeGemfire.gemfireFilter, gemfireVector, gemfireElements_thrown,
        gemfireValue_thrown_eq_nil_iff]
  rw [thrown, parts, List.append_eq_nil_iff, hargs, hfilter, List.forall_mem_append]

/-- The arguments as the client gets them. -/
def gemfireArguments (client : Client σ) (options : FunctionOptions) : CacheablePtr :=
  (NodeGemfire.gemfireArguments client options.functionArguments).value

def gemfireFilter (client : Client σ) (options : FunctionOptions) : Option CacheableVector :=
  (NodeGemfire.gemfireFilter client options.functionFilter).value

/-- Nothing is executed: an execution that is synchronous has arguments that are missing or
    `NULLPTR`, or ones that the client refuses, or it refuses the filter, and one that is
    not will be refused in whatever state the worker finds the region. -/
def Stops (client : Client σ) (execution : Execution) (options : FunctionOptions) (r : σ) : Prop :=
  (options.synchronousFlag = true ∧
      ((∀ v, options.functionArguments = some v → NullValued client.platform v) ∨
        ∃ exception, client.prepare r execution (options.gemfireArguments client)
          (options.gemfireFilter client) = .error exception)) ∨
    options.synchronousFlag = false ∧ ∀ r', ∃ exception,
      (client.prepare r' execution (options.gemfireArguments client)
          (options.gemfireFilter client) >>= fun execution =>
        (client.native (.withCollector execution) r').1) = .error exception

theorem gemfireArguments_eq_none_iff (options : FunctionOptions) :
    options.gemfireArguments client = none ↔
      ∀ v, options.functionArguments = some v → NullValued client.platform v := by
  rw [gemfireArguments]
  cases options.functionArguments with
  | none => simp [NodeGemfire.gemfireArguments]
  | some v => simp [NodeGemfire.gemfireArguments, gemfireValue_value_eq_none_iff]

end FunctionOptions

/-- What follows a function call: its worker runs in the session `s`, if there is one. -/
def FunctionReturn.afterwards (client : Client σ) : FunctionReturn → Session σ → Session σ
  | .emitter worker, s => (worker.execute client s).value.2
  | _, s => s

/-- A synchronous execution leaves nothing for later. -/
theorem afterwards_attempt_value (x : Cpp σ JsValue) (s s' : Session σ) :
    (Cpp.attempt (x >>= fun value => pure (FunctionReturn.value value)) caughtFunction
      s).value.1.afterwards client s' = s' := by
  rw [Cpp.attempt, Isolate.bind_value, Cpp.runOn_bind, Isolate.bind_value]
  obtain ⟨r, s''⟩ := (x.runOn s).value
  cases r <;> rfl

/-- A call with arguments it can read throws what the conversions schedule, and
    has an effect, at once or later, unless it stops. -/
theorem executeFunction_spec (hclient : client.PreparesApart) {info : List JsValue}
    {functionName : Bytes} {options : FunctionOptions}
    (hread : readFunctionInfo info = .ok (functionName, options)) (execution : Execution)
    (s : Session σ) {call : Isolate (FunctionReturn × Session σ)}
    (hcall : call = Cpp.attempt (executeFunction client info execution) caughtFunction s) :
    (∃ rest, call.thrown = options.thrown client ++ rest) ∧
      ((s.Untouched call.value.2 ∧
        ∀ s' : Session σ, s'.Untouched (call.value.1.afterwards client s')) ↔
      options.Stops client execution s.region) := by
  subst hcall
  simp only [executeFunction, hread, attempt_v8, Isolate.bind_thrown, Isolate.bind_value,
    FunctionOptions.thrown, FunctionOptions.Stops,
    ← FunctionOptions.gemfireArguments_eq_none_iff]
  refine ⟨⟨_, (List.append_assoc _ _ _).symm⟩, ?_⟩
  rw [← FunctionOptions.gemfireArguments, ← FunctionOptions.gemfireFilter]
  cases options.synchronousFlag with
  | false =>
    simp only [Bool.false_eq_true, if_false, false_and, false_or, true_and, attempt_pure,
      Isolate.pure_value, FunctionReturn.afterwards, untouched_execute_iff hclient]
    exact ⟨fun h r' => h.2 (.start r'), fun h => ⟨.refl s, fun s' => h s'.region⟩⟩
  | true =>
    have hlater (args : CacheablePtr) (filter : Option CacheableVector) (s' : Session σ) :
        (Cpp.attempt (synchronousResults client execution functionName args filter >>= fun r =>
          Cpp.v8 (v8Results client r) >>= fun value => pure (FunctionReturn.value value))
            caughtFunction s).value.1.afterwards client s' = s' := by
      rw [← bind_assoc]
      exact afterwards_attempt_value _ s s'
    simp only [if_true, true_and, Bool.true_eq_false, false_and, or_false, hlater, attempt_session,
      bind_v8_session]
    simp only [Session.Untouched.refl, implies_true, and_true]
    cases options.gemfireArguments client with
    | none =>
      rw [synchronousResults_none]
      exact iff_of_true (.refl s) (.inl rfl)
    | some args => simp [untouched_synchronousResults_iff hclient]

/-! ### The calls that act on what they convert -/

/-- What a call leads to: what it throws, the session it returns in, and what its
    queued worker makes of a later session. -/
structure Pending (σ : Type) where
  thrown : List JsError
  session : Session σ
  later : Session σ → Session σ

inductive Entry
  | put
  | putSync
  | putAll
  | putAllSync
  | executeFunction
  | cacheExecuteFunction (isClosed : Bool)

namespace Entry

/-- The calls that execute a function. -/
def isExecution : Entry → Bool
  | .executeFunction | .cacheExecuteFunction _ => true
  | _ => false

def ofAsync (client : Client σ) (m : AsyncMethod) (info : List JsValue) (s : Session σ) :
    Pending σ :=
  ⟨(m.call client info).thrown, s, fun s' => (afterwards (m.call client info) s').value.2⟩

def ofSync (client : Client σ) (m : SyncMethod) (info : List JsValue) (s : Session σ) : Pending σ :=
  ⟨(m.call client info s).thrown, (m.call client info s).value.2, fun s' => s'⟩

def ofFunction (client : Client σ) (call : Isolate (FunctionReturn × Session σ)) : Pending σ :=
  ⟨call.thrown, call.value.2, call.value.1.afterwards client⟩

def call (client : Client σ) : Entry → List JsValue → Session σ → Pending σ
  | .put, info, s => ofAsync client .put info s
  | .putSync, info, s => ofSync client .putSync info s
  | .putAll, info, s => ofAsync client .putAll info s
  | .putAllSync, info, s => ofSync client .putAllSync info s
  | .executeFunction, info, s => ofFunction client (Region.executeFunction client info s)
  | .cacheExecuteFunction isClosed, info, s =>
    ofFunction client (Cache.executeFunction client isClosed info s)

/-- The keys, values, function arguments and filter keys among the arguments. -/
def parts : Entry → List JsValue → List JsValue
  | .put, info | .putSync, info => [arg info 0, arg info 1]
  | .putAll, info | .putAllSync, info => (arg info 0).ownProperties.map (·.value)
  | .executeFunction, info | .cacheExecuteFunction _, info =>
    match readFunctionInfo info with
    | .ok (_, options) => options.parts
    | .error _ => []

/-- The client makes no execution for the target, or nothing is executed with it. -/
def StopsOn (client : Client σ) (target : ExecutionTarget) (info : List JsValue) (r : σ) : Prop :=
  ∀ execution, (client.native (.onTarget target) r).1 = .ok execution →
    ∀ name options, readFunctionInfo info = .ok (name, options) →
      options.Stops client execution r

/-- The call is given up before it acts: it is rejected, or a check finds
    `NULLPTR`, or a synchronous execution is left without arguments, or the client
    finds no pool or refuses to make an execution or to give it what is passed. -/
def Stops (client : Client σ) : Entry → List JsValue → Session σ → Prop
  | .put, info, _ =>
    AsyncMethod.put.Rejected client info ∨ ¬(AsyncMethod.put.request info).Valid client.platform
  | .putSync, info, _ =>
    SyncMethod.putSync.Rejected client info ∨
      ¬(SyncMethod.putSync.request info).Valid client.platform
  | .putAll, info, _ =>
    AsyncMethod.putAll.Rejected client info ∨
      ¬(AsyncMethod.putAll.request info).Valid client.platform
  | .putAllSync, info, _ =>
    SyncMethod.putAllSync.Rejected client info ∨
      ¬(SyncMethod.putAllSync.request info).Valid client.platform
  | .executeFunction, info, s => client.anyInstance ≠ .opened ∨ StopsOn client .region info s.region
  | .cacheExecuteFunction isClosed, info, s =>
    isClosed = true ∨ ∀ v, Cache.readPoolName info = .ok v →
      (client.native (.getPool (Cache.poolName client v)) s.region).1 = .ok true →
        StopsOn client (.pool (Cache.poolName client v)) info s.region

end Entry

/-- If the call throws because of a part that is not serializable, neither it nor
    its worker ever puts anything or executes a function. -/
def Harmless (client : Client σ) (entry : Entry) (info : List JsValue) (s : Session σ) : Prop :=
  let pending := entry.call client info s
  (∃ v ∈ entry.parts info, ¬Serializable client.platform v) → pending.thrown ≠ [] →
    s.Untouched pending.session ∧ ∀ s' : Session σ, s'.Untouched (pending.later s')

/-- The call has no effect if it stops; if it does not, it throws and has one. -/
def Pending.ActsUnless (pending : Pending σ) (s : Session σ) (stops : Prop) : Prop :=
  (¬stops → pending.thrown ≠ []) ∧
    ((s.Untouched pending.session ∧ ∀ s' : Session σ, s'.Untouched (pending.later s')) ↔ stops)

section Entries

variable {info : List JsValue} {s : Session σ}

/-- The two disjuncts of the condition, for arguments with a bad part. -/
theorem harmless_iff_of_bad {entry : Entry}
    (h : (∃ v ∈ entry.parts info, ¬Serializable client.platform v) →
      (entry.call client info s).ActsUnless s (entry.Stops client info s)) :
    Harmless client entry info s ↔
      (∀ v ∈ entry.parts info, Serializable client.platform v) ∨ entry.Stops client info s := by
  by_cases hparts : ∀ v ∈ entry.parts info, Serializable client.platform v
  · refine iff_of_true ?_ (.inl hparts)
    rintro ⟨v, hv, hnot⟩
    exact absurd (hparts v hv) hnot
  · have hbad : ∃ v ∈ entry.parts info, ¬Serializable client.platform v := by
      push Not at hparts
      exact hparts
    obtain ⟨hthrown, heffect⟩ := h hbad
    simp only [Harmless, hbad, true_implies, heffect, hparts, false_or]
    constructor
    · intro himp
      by_contra hstops
      exact hstops (himp (hthrown hstops))
    · exact fun hstops _ => hstops

/-- A request that is served is not fully serializable if a part of it is not. -/
theorem Request.not_serializable_of_bad {r : Request} {parts : List JsValue}
    (hr : (∃ key value, r = .put key value ∧ parts = [key, value]) ∨
      ∃ entries, r = .putAll entries ∧ parts = entries.ownProperties.map (·.value))
    (hvalid : r.Valid client.platform)
    (hbad : ∃ v ∈ parts, ¬NodeGemfire.Serializable client.platform v) :
    ¬r.Serializable client.platform := by
  obtain ⟨v, hv, hnot⟩ := hbad
  rcases hr with ⟨key, value, rfl, rfl⟩ | ⟨entries, rfl, rfl⟩
  · rintro ⟨hkey, hvalue⟩
    rcases List.mem_pair.mp hv with rfl | rfl
    · exact hnot hkey
    · exact hnot hvalue
  · intro hall
    obtain ⟨q, hq, rfl⟩ := List.mem_map.mp hv
    have hentries (ps : List (Named JsString JsValue))
        (hps : ∀ q ∈ ps, ¬NullValued client.platform q.value)
        (hser : SerializableEntries client.platform ps) :
        ∀ q ∈ ps, NodeGemfire.Serializable client.platform q.value := by
      induction ps with
      | nil => simp
      | cons q ps ih =>
        obtain ⟨hq, hrest⟩ := hser
        obtain ⟨hnull, hnulls⟩ := List.forall_mem_cons.mp hps
        exact List.forall_mem_cons.mpr ⟨hq, ih hnulls (hrest hnull)⟩
    exact hnot (hentries _ hvalid hall q hq)

/-- A valid request to put something has an effect, any other has none. -/
theorem Request.untouched_session_iff {r : Request}
    (hr : (∃ key value, r = .put key value) ∨ ∃ entries, r = .putAll entries) :
    s.Untouched (r.session client s) ↔ ¬r.Valid client.platform := by
  by_cases hvalid : r.Valid client.platform
  · refine iff_of_false ?_ (not_not.mpr hvalid)
    have hne : r ≠ .clear := by
      rcases hr with ⟨key, value, rfl⟩ | ⟨entries, rfl⟩ <;> exact Request.noConfusion
    rcases calls_of_valid hne hvalid with ⟨hnone, -⟩ | ⟨call, hasks, hcalls⟩
    · rcases hr with ⟨key, value, rfl⟩ | ⟨entries, rfl⟩ <;> cases hnone
    · have heffect : call.isEffect = true := by
        rcases hr with ⟨key, value, rfl⟩ | ⟨entries, rfl⟩ <;>
          cases call <;> first | rfl | exact False.elim hasks
      rw [session, hcalls, carryOut_singleton]
      exact Session.not_untouched_issue heffect s
  · refine iff_of_true ?_ hvalid
    rw [session, (calls_eq_none_iff r).mpr hvalid]
    exact .refl s

/-- `put` and `putAll`. -/
theorem ofAsync_actsUnless {m : AsyncMethod} {parts : List JsValue}
    (hr : (∃ key value, m.request info = .put key value ∧ parts = [key, value]) ∨
      ∃ entries, m.request info = .putAll entries ∧ parts = entries.ownProperties.map (·.value))
    (hbad : ∃ v ∈ parts, ¬Serializable client.platform v) :
    (Entry.ofAsync client m info s).ActsUnless s
      (m.Rejected client info ∨ ¬(m.request info).Valid client.platform) := by
  have hput : (∃ key value, m.request info = .put key value) ∨
      ∃ entries, m.request info = .putAll entries := by
    rcases hr with ⟨key, value, h, -⟩ | ⟨entries, h, -⟩
    · exact .inl ⟨key, value, h⟩
    · exact .inr ⟨entries, h⟩
  by_cases hrejected : m.Rejected client info
  · obtain ⟨hvalue, hthrown⟩ := AsyncMethod.call_of_rejected hrejected
    refine ⟨fun _ => hthrown, iff_of_true ⟨.refl s, fun s' => ?_⟩ (.inl hrejected)⟩
    show s'.Untouched (afterwards (m.call client info) s').value.2
    rw [afterwards_of_none hvalue]
    exact .refl s'
  · obtain ⟨worker, hvalue, -, hcarries, hthrown⟩ := AsyncMethod.call_of_accepted hrejected
    have hlater (s' : Session σ) : (Entry.ofAsync client m info s).later s' =
        (m.request info).session client s' := by
      show (afterwards (m.call client info) s').value.2 = _
      rw [afterwards_of_some hvalue]
      exact (worker.run_session s').trans (congrArg Prod.snd (hcarries.execution s'))
    simp only [Pending.ActsUnless, hrejected, false_or, not_not, hlater,
      Request.untouched_session_iff hput]
    refine ⟨fun hvalid => mt hthrown.mp (Request.not_serializable_of_bad hr hvalid hbad), ?_⟩
    exact ⟨fun h => h.2 s, fun h => ⟨.refl s, fun _ => h⟩⟩

/-- `putSync` and `putAllSync`. -/
theorem ofSync_actsUnless {m : SyncMethod} {parts : List JsValue}
    (hr : (∃ key value, m.request info = .put key value ∧ parts = [key, value]) ∨
      ∃ entries, m.request info = .putAll entries ∧ parts = entries.ownProperties.map (·.value))
    (hrejected : m.Rejected client info → (m.call client info s).value.2 = s)
    (hcarries : ¬m.Rejected client info →
      m.CarriesOut client (m.request info) s (m.call client info s))
    (hbad : ∃ v ∈ parts, ¬Serializable client.platform v) :
    (Entry.ofSync client m info s).ActsUnless s
      (m.Rejected client info ∨ ¬(m.request info).Valid client.platform) := by
  have hput : (∃ key value, m.request info = .put key value) ∨
      ∃ entries, m.request info = .putAll entries := by
    rcases hr with ⟨key, value, h, -⟩ | ⟨entries, h, -⟩
    · exact .inl ⟨key, value, h⟩
    · exact .inr ⟨entries, h⟩
  have hlater (s' : Session σ) : s'.Untouched ((Entry.ofSync client m info s).later s') := .refl s'
  by_cases h : m.Rejected client info
  · refine ⟨fun hnot => absurd (.inl h) hnot, iff_of_true ⟨?_, hlater⟩ (.inl h)⟩
    rw [Entry.ofSync, hrejected h]
    exact .refl s
  · obtain ⟨hsession, hthrown, -⟩ := hcarries h
    have hreturned : (Entry.ofSync client m info s).session = (m.request info).session client s :=
      hsession
    simp only [Pending.ActsUnless, h, false_or, not_not, hlater, implies_true, and_true, hreturned,
      Request.untouched_session_iff hput]
    intro hvalid hnil
    exact Request.not_serializable_of_bad hr hvalid hbad (hthrown.mp hnil).1

/-- A function call that gets to `executeFunction`, with a bad part. -/
theorem ofFunction_actsUnless (hclient : client.PreparesApart) {functionName : Bytes}
    {options : FunctionOptions} (hread : readFunctionInfo info = .ok (functionName, options))
    (hbad : ∃ v ∈ options.parts, ¬Serializable client.platform v) {execution : Execution}
    {s' : Session σ} (huntouched : s.Untouched s') {call : Isolate (FunctionReturn × Session σ)}
    (hcall : call = Cpp.attempt (executeFunction client info execution) caughtFunction s') :
    (Entry.ofFunction client call).ActsUnless s (options.Stops client execution s.region) := by
  obtain ⟨⟨rest, hthrown⟩, heffect⟩ := executeFunction_spec hclient hread execution s' hcall
  constructor
  · intro _ hnil
    have hall : ∀ v ∈ options.parts, Serializable client.platform v := by
      rw [← options.thrown_eq_nil_iff]
      exact (List.append_eq_nil_iff.mp (hthrown.symm.trans hnil)).1
    obtain ⟨v, hv, hnot⟩ := hbad
    exact hnot (hall v hv)
  · rw [← huntouched.2, ← heffect]
    exact and_congr_left fun _ => ⟨huntouched.symm.trans, huntouched.trans⟩

/-- A function call that returns before it gets there. -/
theorem ofFunction_of_undefined {s' : Session σ} {stops : Prop} (hstops : stops)
    (huntouched : s.Untouched s') {call : Isolate (FunctionReturn × Session σ)}
    (hvalue : call.value = (.undefined, s')) :
    (Entry.ofFunction client call).ActsUnless s stops := by
  refine ⟨fun hnot => absurd hstops hnot, iff_of_true ⟨?_, fun s'' => ?_⟩ hstops⟩
  · show s.Untouched call.value.2
    rw [hvalue]
    exact huntouched
  · show s''.Untouched (call.value.1.afterwards client s'')
    rw [hvalue]
    exact .refl s''

theorem bad_options {parts : FunctionOptions → List JsValue}
    (hbad : ∃ v ∈ (match readFunctionInfo info with
      | .ok (_, options) => parts options
      | .error _ => []), ¬Serializable client.platform v) :
    ∃ name options, readFunctionInfo info = .ok (name, options) ∧
      ∃ v ∈ parts options, ¬Serializable client.platform v := by
  cases hread : readFunctionInfo info with
  | error message =>
    rw [hread] at hbad
    simp at hbad
  | ok read =>
    obtain ⟨name, options⟩ := read
    rw [hread] at hbad
    exact ⟨name, options, rfl, hbad⟩

/-- With arguments that can be read and an execution, stopping is a matter of the options. -/
theorem Entry.stopsOn_iff {target : ExecutionTarget} {r : σ} {execution : Execution}
    (hexecution : (client.native (.onTarget target) r).1 = .ok execution) {name : Bytes}
    {options : FunctionOptions} (hread : readFunctionInfo info = .ok (name, options)) :
    Entry.StopsOn client target info r ↔ options.Stops client execution r := by
  constructor
  · exact fun h => h execution hexecution name options hread
  · intro hstops execution' hexecution' name' options' hread'
    obtain rfl := Except.ok.inj (hexecution.symm.trans hexecution')
    cases hread.symm.trans hread'
    exact hstops

/-- A call that asks the client for an execution and goes on with it. -/
theorem onTarget_actsUnless (hclient : client.PreparesApart) {name : Bytes}
    {options : FunctionOptions} (hread : readFunctionInfo info = .ok (name, options))
    (hbad : ∃ v ∈ options.parts, ¬Serializable client.platform v) {target : ExecutionTarget}
    {s' : Session σ} (huntouched : s.Untouched s') {call : Isolate (FunctionReturn × Session σ)}
    (hcall : call = Cpp.attempt (Cpp.invoke client (.onTarget target) >>=
      executeFunction client info) caughtFunction s') :
    (Entry.ofFunction client call).ActsUnless s (Entry.StopsOn client target info s.region) := by
  have huntouched' : s.Untouched (s'.issue client (.onTarget target)) :=
    huntouched.trans (Session.untouched_issue rfl (hclient _ s'.region rfl))
  rw [attempt_invoke] at hcall
  cases hexecution : (client.native (.onTarget target) s'.region).1 with
  | error exception =>
    rw [hexecution] at hcall
    rw [huntouched.2] at hexecution
    have hstops : Entry.StopsOn client target info s.region := fun execution hok =>
      nomatch hexecution.symm.trans hok
    refine ofFunction_of_undefined hstops huntouched' ?_
    rw [hcall]
    rfl
  | ok execution =>
    rw [hexecution] at hcall
    rw [huntouched.2] at hexecution
    rw [Entry.stopsOn_iff hexecution hread]
    exact ofFunction_actsUnless hclient hread hbad huntouched' hcall

theorem executeFunction_actsUnless (hclient : client.PreparesApart) {name : Bytes}
    {options : FunctionOptions} (hread : readFunctionInfo info = .ok (name, options))
    (hbad : ∃ v ∈ options.parts, ¬Serializable client.platform v) :
    (Entry.executeFunction.call client info s).ActsUnless s
      (Entry.executeFunction.Stops client info s) := by
  by_cases hopen : client.anyInstance = .opened
  · have hcall : Region.executeFunction client info s = Cpp.attempt
        (Cpp.invoke client (.onTarget .region) >>= executeFunction client info) caughtFunction
          s := by
      rw [Region.executeFunction, attempt_v8, getCacheFromRegion_of_opened hopen,
        Isolate.pure_bind, if_pos rfl]
    simp only [Entry.Stops, hopen, ne_eq, not_true, false_or]
    exact onTarget_actsUnless hclient hread hbad (.refl s) hcall
  · refine ofFunction_of_undefined (.inl hopen) (.refl s) ?_
    rw [Region.executeFunction, attempt_v8, Isolate.bind_value,
      (getCacheFromRegion_of_not_opened client hopen).1]
    rfl

theorem cacheExecuteFunction_actsUnless (hclient : client.PreparesApart) (isClosed : Bool)
    {name : Bytes} {options : FunctionOptions}
    (hread : readFunctionInfo info = .ok (name, options))
    (hbad : ∃ v ∈ options.parts, ¬Serializable client.platform v) :
    ((Entry.cacheExecuteFunction isClosed).call client info s).ActsUnless s
      ((Entry.cacheExecuteFunction isClosed).Stops client info s) := by
  cases isClosed with
  | true => exact ofFunction_of_undefined (.inl rfl) (.refl s) rfl
  | false =>
    cases hpool : Cache.readPoolName info with
    | error message =>
      have hstops : (Entry.cacheExecuteFunction false).Stops client info s :=
        .inr fun v hv => nomatch hpool.symm.trans hv
      refine ofFunction_of_undefined hstops (.refl s) ?_
      simp only [Cache.executeFunction, hpool]
      rfl
    | ok poolNameValue =>
      -- on an open cache the pool is looked up first
      let name := Cache.poolName client poolNameValue
      have huntouched : s.Untouched (s.issue client (.getPool name)) :=
        Session.untouched_issue rfl (hclient _ s.region rfl)
      have hstops : (Entry.cacheExecuteFunction false).Stops client info s ↔
          ((client.native (.getPool name) s.region).1 = .ok true →
            Entry.StopsOn client (.pool name) info s.region) := by
        simp [Entry.Stops, hpool, name]
      have hcall : Cache.executeFunction client false info s = Cpp.attempt
          (Cpp.invoke client (.getPool name) >>= fun found =>
            if found = true then
              Cpp.invoke client (.onTarget (.pool name)) >>= NodeGemfire.executeFunction client info
            else do
              Cpp.v8 (nanThrowError
                ("executeFunction: `" ++ Cache.poolNameText name ++ "` is not a valid pool name"))
              pure .undefined) caughtFunction s := by
        simp only [Cache.executeFunction, hpool, Bool.false_eq_true, if_false]
        rfl
      rw [attempt_invoke] at hcall
      rw [hstops]
      cases hfound : (client.native (.getPool name) s.region).1 with
      | error exception =>
        rw [hfound] at hcall
        refine ofFunction_of_undefined nofun huntouched ?_
        rw [hcall]
        rfl
      | ok found =>
        rw [hfound] at hcall
        cases found with
        | false =>
          refine ofFunction_of_undefined nofun huntouched ?_
          rw [hcall]
          rfl
        | true =>
          rw [eq_self_iff_true, true_implies]
          exact onTarget_actsUnless hclient hread hbad huntouched hcall

/-- **A call that throws has no effect** if and only if all its parts are
    serializable or it is given up before it acts. -/
theorem harmless_iff (entry : Entry)
    (hclient : entry.isExecution = true → client.PreparesApart) (info : List JsValue)
    (s : Session σ) :
    Harmless client entry info s ↔
      (∀ v ∈ entry.parts info, Serializable client.platform v) ∨ entry.Stops client info s := by
  refine harmless_iff_of_bad fun hbad => ?_
  cases entry with
  | put => exact ofAsync_actsUnless (.inl ⟨_, _, rfl, rfl⟩) hbad
  | putAll => exact ofAsync_actsUnless (.inr ⟨_, rfl, rfl⟩) hbad
  | putSync =>
    refine ofSync_actsUnless (.inl ⟨_, _, rfl, rfl⟩) (fun h => ?_) (fun h => ?_) hbad
    · exact SyncMethod.session_of_rejected .putSync h s
    · obtain ⟨hargs, hopen⟩ := (SyncMethod.not_rejected_iff _ _).mp h
      exact SyncMethod.putSync_carriesOut hopen hargs s
  | putAllSync =>
    refine ofSync_actsUnless (.inr ⟨_, rfl, rfl⟩) (fun h => ?_) (fun h => ?_) hbad
    · exact SyncMethod.session_of_rejected .putAllSync h s
    · obtain ⟨hargs, hopen⟩ := (SyncMethod.not_rejected_iff _ _).mp h
      exact SyncMethod.putAllSync_carriesOut hopen hargs s
  | executeFunction =>
    obtain ⟨name, options, hread, hbad⟩ := bad_options hbad
    exact executeFunction_actsUnless (hclient rfl) hread hbad
  | cacheExecuteFunction isClosed =>
    obtain ⟨name, options, hread, hbad⟩ := bad_options hbad
    exact cacheExecuteFunction_actsUnless (hclient rfl) isClosed hread hbad

end Entries

/-- The client of a region without a pool: it makes no executions on the region. -/
def poollessClient : Client HashMapOfCacheable :=
  { memoryClient with
    native
      | .onTarget .region, entries =>
        (.error ⟨"apache::geode::client::IllegalArgumentException", "Pool name not found"⟩, entries)
      | call, entries => memoryClient.native call entries }

theorem poollessClient_preparesApart : poollessClient.PreparesApart := by
  intro call r hcall
  cases call with
  | onTarget target => cases target <;> rfl
  | getPool | withArgs | withFilter | withCollector => rfl
  | _ => cases hcall

/-- `region.put("foo", function () {})`, and `region.executeFunction("f", [function () {}])`
    on a region without a pool. -/
theorem harmless_functions :
    Harmless memoryClient .put [.string (.ofAscii "foo"), .object .function []] (.start []) ∧
      Harmless poollessClient .executeFunction
        [.string (.ofAscii "f"), .array [some (.object .function [])] []] (.start []) :=
  ⟨(harmless_iff .put nofun _ _).mpr (.inr (.inr fun h => h.2 trivial)),
    (harmless_iff .executeFunction (fun _ => poollessClient_preparesApart) _ _).mpr
      (.inr (.inr nofun))⟩

/-- The arguments of `region.put("foo", [function () {}])`. -/
def putFunctionArrayInfo : List JsValue :=
  [.string (.ofAscii "foo"), .array [some (.object .function [])] []]

/-- The call throws, and its worker puts an array with `NULLPTR` in it. -/
theorem not_harmless_put_array : ¬Harmless memoryClient .put putFunctionArrayInfo (.start []) := by
  intro h
  have hthrown : (Entry.put.call memoryClient putFunctionArrayInfo (.start [])).thrown =
      [⟨"Error", "Unable to serialize to GemFire; functions are not supported."⟩] := rfl
  have hbad : ∃ v ∈ Entry.put.parts putFunctionArrayInfo,
      ¬Serializable memoryClient.platform v := by
    refine ⟨arg putFunctionArrayInfo 1, by simp [Entry.parts], fun hserializable => ?_⟩
    have hnil := (gemfireValue_thrown_eq_nil_iff _).mpr hserializable
    exact absurd hnil (List.cons_ne_nil _ _)
  have huntouched := (h hbad (hthrown ▸ List.cons_ne_nil _ _)).2 (.start [])
  exact absurd (congrArg List.length huntouched.1) (by decide)

end NodeGemfire
