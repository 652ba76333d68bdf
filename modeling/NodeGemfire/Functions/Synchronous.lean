import NodeGemfire.Conversions.Readable
import NodeGemfire.Functions.Effects

/-!
# Synchronous and asynchronous execution

A function is executed either by a worker or, with `synchronous: true`, before
`executeFunction` returns. The two build the execution each in its own way: the
worker starts from the execution it is given, the synchronous code from a null
pointer, which only the arguments replace. And the synchronous code keeps the
exception of the client to itself.

## Main results

- `matches_iff` — the two agree if and only if there are arguments, all that is passed can
  be serialized, the client throws nothing, and the results can be read
-/

namespace NodeGemfire

variable {σ : Type} {client : Client σ}

/-! ### The native execution -/

/-- The calls that tell how a function is executed. Where its results go is left out. -/
def NativeCall.invocation : NativeCall → Option NativeCall
  | .withCollector _ | .getResult => none
  | .execute execution functionName =>
    some (.execute { execution with withCollector := false } functionName)
  | call => some call

def Session.invocations (s : Session σ) : List NativeCall := s.calls.filterMap (·.invocation)

theorem Session.invocations_issue (client : Client σ) (s : Session σ) (call : NativeCall) :
    (s.issue client call).invocations = s.invocations ++ call.invocation.toList := by
  rw [invocations, issue, List.filterMap_append, invocations]
  cases h : call.invocation <;> simp [h]

/-- The client makes an execution with a collector of any execution. -/
def Client.Collects (client : Client σ) : Prop :=
  ∀ execution r, client.native (.withCollector execution) r =
    (.ok { execution with withCollector := true }, r)

theorem Cpp.value_bind {α β : Type} (x : Cpp σ α) (f : α → Cpp σ β) (s : Session σ) :
    ((x >>= f).runOn s).value = match (x.runOn s).value with
      | (.ok a, s') => ((f a).runOn s').value
      | (.error exception, s') => (.error exception, s') := by
  rw [Cpp.runOn_bind, Isolate.bind_value]
  obtain ⟨r, s'⟩ := (x.runOn s).value
  cases r <;> rfl

/-- The session of an execution: that of its building, and then of its start and, where that
    succeeds, of the wait for its results. -/
theorem invocations_nativeExecution (executionPtr : Execution) (functionName : Bytes)
    (functionArguments : CacheablePtr) (functionFilter : Option CacheableVector) (s : Session σ) :
    ((nativeExecution client executionPtr functionName functionArguments functionFilter).runOn
        s).value.2.invocations =
      match ((builtExecution client executionPtr functionArguments functionFilter).runOn
          s).value with
      | (.ok execution, s') =>
        s'.invocations ++ (NativeCall.execute execution functionName).invocation.toList
      | (.error _, s') => s'.invocations := by
  rw [nativeExecution, Cpp.value_bind]
  obtain ⟨built, s'⟩ :=
    ((builtExecution client executionPtr functionArguments functionFilter).runOn s).value
  cases built with
  | error exception => rfl
  | ok execution =>
    dsimp only
    rw [Cpp.value_bind, Cpp.runOn_perform, ← Session.invocations_issue client]
    cases hresult : (client.native (.execute execution functionName) s'.region).1 with
    | error exception =>
      simp only [Isolate.pure_value, Except.map]
      rfl
    | ok =>
      simp only [Isolate.pure_value, Except.map]
      have hwait := Session.invocations_issue client
        (s'.issue client (.execute execution functionName)) .getResult
      exact hwait.trans (List.append_nil _)

/-- The worker executes the function alike. -/
theorem invocations_worker (hcollects : client.Collects) (worker : ExecuteFunctionWorker)
    (s : Session σ) :
    (worker.execute client s).value.2.invocations =
      ((nativeExecution client worker.executionPtr worker.functionName worker.functionArguments
        worker.functionFilter).runOn s).value.2.invocations := by
  have hbody : (do
      let executionPtr ← applyArgs client worker.executionPtr worker.functionArguments
      let executionPtr ← applyFilter client executionPtr worker.functionFilter
      let executionPtr ← Cpp.invoke client (.withCollector executionPtr)
      Cpp.perform client (.execute executionPtr worker.functionName)
      pure (none : Option GeodeException)) = (do
      let executionPtr ← builtExecution client worker.executionPtr worker.functionArguments
        worker.functionFilter
      let executionPtr ← Cpp.invoke client (.withCollector executionPtr)
      Cpp.perform client (.execute executionPtr worker.functionName)
      pure none) := by
    simp only [builtExecution, bind_assoc]
  rw [ExecuteFunctionWorker.execute, attempt_session, hbody, invocations_nativeExecution,
    Cpp.value_bind]
  obtain ⟨built, s'⟩ := ((builtExecution client worker.executionPtr worker.functionArguments
    worker.functionFilter).runOn s).value
  cases built with
  | error exception => rfl
  | ok execution =>
    -- the collector changes neither the state nor what else is executed
    have hcollected : (s'.issue client (.withCollector execution)).invocations =
        s'.invocations := (Session.invocations_issue client s' _).trans (List.append_nil _)
    have hissued : s'.issue client (.withCollector execution) =
        ⟨s'.region, s'.calls ++ [.withCollector execution]⟩ := by
      rw [Session.issue, hcollects]
    rw [hissued] at hcollected
    dsimp only
    rw [Cpp.value_bind, Cpp.runOn_invoke, Isolate.pure_value, hcollects]
    dsimp only
    rw [Cpp.value_bind, Cpp.runOn_perform, Isolate.pure_value, ← hcollected]
    refine Eq.trans ?_ (Session.invocations_issue client _
      (.execute { execution with withCollector := true } worker.functionName))
    cases (client.native (.execute { execution with withCollector := true } worker.functionName)
      s'.region).1 <;> rfl

/-! ### The two calls -/

section Calls

variable {info : List JsValue} {functionName : Bytes} {options : FunctionOptions}

/-- The native execution that a call with these options is for. -/
def FunctionOptions.outcome (client : Client σ) (executionPtr : Execution) (functionName : Bytes)
    (options : FunctionOptions) (s : Session σ) :
    Except GeodeException CacheableVector × Session σ :=
  ((nativeExecution client executionPtr functionName (options.gemfireArguments client)
    (options.gemfireFilter client)).runOn s).value

/-- A call of `executeFunction`, as the methods of regions and caches make it. -/
def functionCall (client : Client σ) (executionPtr : Execution) (info : List JsValue)
    (s : Session σ) : Isolate (FunctionReturn × Session σ) :=
  Cpp.attempt (executeFunction client info executionPtr) caughtFunction s

theorem functionCall_asynchronous (client : Client σ) (executionPtr : Execution) (s : Session σ)
    (hread : readFunctionInfo info =
      .ok (functionName, { options with synchronousFlag := false })) :
    (functionCall client executionPtr info s).value =
      (.emitter ⟨executionPtr, functionName, options.gemfireArguments client,
        options.gemfireFilter client⟩, s) := by
  simp only [functionCall, executeFunction, hread, attempt_v8, Isolate.bind_value]
  rfl

theorem functionCall_synchronous_some (executionPtr : Execution) (s : Session σ)
    (hread : readFunctionInfo info = .ok (functionName, { options with synchronousFlag := true }))
    (hargs : options.gemfireArguments client ≠ none) :
    (functionCall client executionPtr info s).value =
      match options.outcome client executionPtr functionName s with
      | (.ok results, s') => (.value (v8Results client results).value, s')
      | (.error _, s') => (.value (v8Results client []).value, s') := by
  obtain ⟨functionArguments, hsome⟩ := Option.ne_none_iff_exists'.mp hargs
  rw [FunctionOptions.gemfireArguments] at hsome
  simp only [functionCall, executeFunction, hread, attempt_v8, Isolate.bind_value, hsome]
  rw [synchronousResults_some, if_pos trivial, Cpp.attempt, Isolate.bind_value, Cpp.value_bind,
    Cpp.runOn_tryCatch, Isolate.bind_value, FunctionOptions.outcome,
    FunctionOptions.gemfireArguments, hsome, FunctionOptions.gemfireFilter]
  obtain ⟨results, s'⟩ := ((nativeExecution client executionPtr functionName
    (some functionArguments) (NodeGemfire.gemfireFilter client options.functionFilter).value).runOn
      s).value
  cases results <;> rfl

theorem functionCall_synchronous_none (executionPtr : Execution) (s : Session σ)
    (hread : readFunctionInfo info = .ok (functionName, { options with synchronousFlag := true }))
    (hargs : options.gemfireArguments client = none) :
    (functionCall client executionPtr info s).value =
      (.value (v8Results client []).value, s) := by
  rw [FunctionOptions.gemfireArguments] at hargs
  simp only [functionCall, executeFunction, hread, attempt_v8, Isolate.bind_value, hargs]
  rw [if_pos trivial, Cpp.attempt, Isolate.bind_value, Cpp.value_bind, synchronousResults_none]
  rfl

/-! ### What the synchronous call throws -/

theorem thrown_bind {α β : Type} {x : Cpp σ α} {f : α → Cpp σ β}
    (hx : ∀ s, (x.runOn s).thrown = []) (hf : ∀ a s, ((f a).runOn s).thrown = []) (s : Session σ) :
    ((x >>= f).runOn s).thrown = [] := by
  rw [Cpp.runOn_bind, Isolate.bind_thrown, hx s]
  obtain ⟨r, s'⟩ := (x.runOn s).value
  cases r with
  | ok a => exact hf a s'
  | error exception => rfl

theorem thrown_invoke (call : NativeCall) (s : Session σ) :
    ((Cpp.invoke client call).runOn s).thrown = [] := rfl

/-- The client does not schedule exceptions in V8. -/
theorem nativeExecution_thrown (executionPtr : Execution) (functionName : Bytes)
    (functionArguments : CacheablePtr) (functionFilter : Option CacheableVector) (s : Session σ) :
    ((nativeExecution client executionPtr functionName functionArguments functionFilter).runOn
      s).thrown = [] := by
  refine thrown_bind (thrown_bind (fun s => ?_) fun execution s => ?_) (fun execution => ?_) s
  · cases functionArguments <;> rfl
  · cases functionFilter <;> rfl
  · exact thrown_bind (thrown_bind (thrown_invoke _) fun _ _ => rfl) fun _ => thrown_invoke _

theorem v8Results_thrown_eq_nil_iff (results : CacheableVector) :
    (v8Results client results).thrown = [] ↔ ∀ c ∈ results, Readable client.platform c := by
  have hreturn : (v8Results client results).thrown =
      (v8Elements client.platform results).thrown := by
    rw [v8Results, Isolate.bind_thrown]
    cases (v8Elements client.platform results).value with
    | nil => exact List.append_nil _
    | cons value values => cases values <;> exact List.append_nil _
  rw [hreturn, v8Elements_thrown_eq_nil_iff]
  exact forall₂_congr fun c _ => v8Value_thrown_eq_nil_iff c

/-- An execution that returns leaves the exceptions of the conversions: those of the
    arguments and of the filter, and those of the results. -/
theorem functionCall_thrown {executionPtr : Execution} {s : Session σ}
    (hread : readFunctionInfo info = .ok (functionName, { options with synchronousFlag := true }))
    (hargs : options.gemfireArguments client ≠ none) {results : CacheableVector}
    (hresults : (options.outcome client executionPtr functionName s).1 = .ok results) :
    (functionCall client executionPtr info s).thrown =
      options.thrown client ++ (v8Results client results).thrown := by
  obtain ⟨functionArguments, hsome⟩ := Option.ne_none_iff_exists'.mp hargs
  rw [FunctionOptions.outcome, hsome, FunctionOptions.gemfireFilter] at hresults
  rw [FunctionOptions.gemfireArguments] at hsome
  simp only [functionCall, executeFunction, hread, attempt_v8, Isolate.bind_thrown, hsome]
  rw [synchronousResults_some, if_pos trivial, Cpp.attempt, Isolate.bind_thrown, Cpp.runOn_bind,
    Isolate.bind_thrown, Isolate.bind_value, Cpp.runOn_tryCatch, Isolate.bind_thrown,
    Isolate.bind_value, nativeExecution_thrown]
  revert hresults
  obtain ⟨outcome, s'⟩ := ((nativeExecution client executionPtr functionName
    (some functionArguments) (NodeGemfire.gemfireFilter client options.functionFilter).value).runOn
      s).value
  intro hresults
  obtain rfl : outcome = .ok results := hresults
  simp [FunctionOptions.thrown, -bind_pure_comp]
  exact ⟨rfl, rfl⟩

/-! ### Agreement -/

/-- The results are returned in order: a single one by itself, or an array of all. -/
def Carries (value : JsValue) (v8Elements : List JsValue) : Prop :=
  v8Elements = [value] ∨ value = v8Array v8Elements

theorem carries_v8Results (results : CacheableVector) :
    Carries (v8Results client results).value (v8Elements client.platform results).value := by
  rw [v8Results, Isolate.bind_value]
  cases (v8Elements client.platform results).value with
  | nil => exact .inr rfl
  | cons element elements =>
    cases elements with
    | nil => exact .inl rfl
    | cons => exact .inr rfl

variable (client) in
/-- The synchronous call `info` executes the function as the asynchronous call `info'`
    does, reports the exception of that execution, and returns its results. -/
structure Matches (executionPtr : Execution) (functionName : Bytes) (options : FunctionOptions)
    (info info' : List JsValue) (s : Session σ) : Prop where
  invocations :
    let call := (functionCall client executionPtr info s).value
    let call' := (functionCall client executionPtr info' s).value
    (call.1.afterwards client call.2).invocations = (call'.1.afterwards client call'.2).invocations
  reported : ∀ exception,
    (options.outcome client executionPtr functionName s).1 = .error exception →
    let call := functionCall client executionPtr info s
    call.value.1 = .undefined ∧ v8Error exception ∈ call.thrown
  results : ∀ results, (options.outcome client executionPtr functionName s).1 = .ok results →
    let call := functionCall client executionPtr info s
    call.thrown = [] ∧ ∃ value, call.value.1 = .value value ∧
      Carries value (v8Elements client.platform results).value

/-- An execution that is built and started is at least one call. -/
theorem outcome_invocations_ne (executionPtr : Execution) (s : Session σ)
    (hargs : options.gemfireArguments client = none) :
    (options.outcome client executionPtr functionName s).2.invocations ≠ s.invocations := by
  rw [FunctionOptions.outcome, invocations_nativeExecution, hargs]
  cases options.gemfireFilter client with
  | none =>
    have hbuilt : ((builtExecution client executionPtr none none).runOn s).value =
        (.ok executionPtr, s) := rfl
    rw [hbuilt]
    simp [NativeCall.invocation]
  | some functionFilter =>
    have hbuilt : ((builtExecution client executionPtr none (some functionFilter)).runOn s).value =
        ((client.native (.withFilter executionPtr functionFilter) s.region).1,
          s.issue client (.withFilter executionPtr functionFilter)) := rfl
    have hissued := Session.invocations_issue client s
      (.withFilter executionPtr functionFilter)
    rw [hbuilt]
    cases (client.native (.withFilter executionPtr functionFilter) s.region).1 with
    | error exception =>
      simp [hissued, NativeCall.invocation]
    | ok execution =>
      simp [hissued, NativeCall.invocation]

/-- Without arguments the synchronous call does not get as far as the client. -/
theorem not_matches_of_none (hcollects : client.Collects) (executionPtr : Execution)
    (info' : List JsValue) (s : Session σ)
    (hread : readFunctionInfo info = .ok (functionName, { options with synchronousFlag := true }))
    (hread' : readFunctionInfo info' =
      .ok (functionName, { options with synchronousFlag := false }))
    (hargs : options.gemfireArguments client = none) :
    ¬Matches client executionPtr functionName options info info' s := by
  intro hmatches
  have hworker := invocations_worker hcollects ⟨executionPtr, functionName,
    options.gemfireArguments client, options.gemfireFilter client⟩ s
  have hinvocations := hmatches.invocations
  simp only [functionCall_synchronous_none executionPtr s hread hargs,
    functionCall_asynchronous client executionPtr s hread', FunctionReturn.afterwards]
    at hinvocations
  exact outcome_invocations_ne executionPtr s hargs (hworker.symm.trans hinvocations.symm)

/-- The synchronous call matches the asynchronous one if and only if there are arguments,
    which do not convert to `NULLPTR`, they and the keys of the filter can be serialized,
    the native execution throws no exception, and its results can be read. -/
theorem matches_iff (hcollects : client.Collects) (executionPtr : Execution) (info' : List JsValue)
    (s : Session σ)
    (hread : readFunctionInfo info = .ok (functionName, { options with synchronousFlag := true }))
    (hread' : readFunctionInfo info' =
      .ok (functionName, { options with synchronousFlag := false })) :
    Matches client executionPtr functionName options info info' s ↔
      options.gemfireArguments client ≠ none ∧
        (∀ v ∈ options.parts, Serializable client.platform v) ∧
        ∃ results, (options.outcome client executionPtr functionName s).1 = .ok results ∧
          ∀ c ∈ results, Readable client.platform c := by
  by_cases hargs : options.gemfireArguments client = none
  · refine iff_of_false ?_ (fun h => h.1 hargs)
    exact not_matches_of_none hcollects executionPtr info' s hread hread' hargs
  · have hcall := functionCall_synchronous_some executionPtr s hread hargs
    obtain ⟨outcome, s', houtcome⟩ : ∃ outcome s',
        options.outcome client executionPtr functionName s = (outcome, s') := ⟨_, _, rfl⟩
    rw [houtcome] at hcall
    cases outcome with
    | error exception =>
      refine iff_of_false ?_ ?_
      · intro hmatches
        have hreported := (hmatches.reported exception (by rw [houtcome])).1
        rw [hcall] at hreported
        cases hreported
      · rintro ⟨-, -, results, hresults, -⟩
        rw [houtcome] at hresults
        cases hresults
    | ok results =>
      have hresults : (options.outcome client executionPtr functionName s).1 = .ok results := by
        rw [houtcome]
      have hthrown := functionCall_thrown hread hargs hresults
      have hquiet : (functionCall client executionPtr info s).thrown = [] ↔
          (∀ v ∈ options.parts, Serializable client.platform v) ∧
            ∀ c ∈ results, Readable client.platform c := by
        rw [hthrown, List.append_eq_nil_iff, options.thrown_eq_nil_iff,
          v8Results_thrown_eq_nil_iff]
      constructor
      · intro hmatches
        obtain ⟨hserializable, hreadable⟩ := hquiet.mp (hmatches.results results hresults).1
        exact ⟨hargs, hserializable, results, hresults, hreadable⟩
      rintro ⟨-, hserializable, results', hresults', hreadable⟩
      obtain rfl := Except.ok.inj (hresults.symm.trans hresults')
      refine ⟨?_, ?_, ?_⟩
      · simp only [hcall, functionCall_asynchronous client executionPtr s hread',
          FunctionReturn.afterwards]
        rw [invocations_worker hcollects]
        exact congrArg (fun outcome => outcome.2.invocations) houtcome.symm
      · intro exception hexception
        rw [houtcome] at hexception
        cases hexception
      · intro results' hresults'
        obtain rfl := Except.ok.inj (hresults.symm.trans hresults')
        exact ⟨hquiet.mpr ⟨hserializable, hreadable⟩, _, by rw [hcall], carries_v8Results results⟩

end Calls

theorem memoryClient_collects : memoryClient.Collects := fun _ _ => rfl

/-- `executeFunction("f", options)` with the options and the flag given. -/
def functionInfo (options : List (Named JsString JsValue)) (synchronous : Bool) : List JsValue :=
  [.string (.ofAscii "f"),
    .object .plain (options ++ [⟨.ofAscii "synchronous", .boolean synchronous⟩])]

/-- A client whose functions return `true` and then `"x"`. -/
def twoResultsClient : Client HashMapOfCacheable :=
  { memoryClient with
    native
      | .getResult, entries =>
        (.ok [some (.boolean true), some (.string (.ascii (.ofAscii "x")))], entries)
      | call, entries => memoryClient.native call entries }

theorem twoResultsClient_collects : twoResultsClient.Collects := fun _ _ => rfl

/-- The options of `{arguments: ["foo", null], filter: ["key"]}`. -/
def twoArguments : List (Named JsString JsValue) :=
  [⟨.ofAscii "arguments", .array [some (.string (.ofAscii "foo")), some .null] []⟩,
    ⟨.ofAscii "filter", .array [some (.string (.ofAscii "key"))] []⟩]

theorem matches_iff_twoArguments :
    Matches twoResultsClient ⟨.region, none, none, false⟩ (utf8String (.ofAscii "f"))
      ⟨some (.array [some (.string (.ofAscii "foo")), some .null] []),
        some [some (.string (.ofAscii "key"))], false⟩
      (functionInfo twoArguments true) (functionInfo twoArguments false) (.start []) := by
  refine (matches_iff twoResultsClient_collects _ _ _ rfl rfl).mpr ⟨nofun, ?_, _, rfl, ?_⟩
  · intro v hv
    rcases List.mem_pair.mp hv with rfl | rfl
    · refine .array _ _ fun e he => ?_
      rcases List.mem_pair.mp he with h | h
      · rw [Option.some.inj h]
        exact .string _
      · rw [Option.some.inj h]
        exact .null
    · exact .string _
  · intro c hc
    rcases List.mem_pair.mp hc with rfl | rfl
    · exact .boolean true
    · exact .string _

/-- `executeFunction("f", {synchronous: true})` executes nothing. -/
theorem not_matches_noArguments :
    ¬∀ (executionPtr : Execution) (functionName : Bytes) (options : FunctionOptions)
      (info info' : List JsValue) (s : Session HashMapOfCacheable),
      readFunctionInfo info = .ok (functionName, { options with synchronousFlag := true }) →
      readFunctionInfo info' = .ok (functionName, { options with synchronousFlag := false }) →
      Matches memoryClient executionPtr functionName options info info' s := by
  intro h
  have hmatches := h ⟨.region, none, none, false⟩ (utf8String (.ofAscii "f")) ⟨none, none, false⟩
    (functionInfo [] true) (functionInfo [] false) (.start []) rfl rfl
  exact not_matches_of_none memoryClient_collects _ _ _ rfl rfl rfl hmatches

end NodeGemfire
