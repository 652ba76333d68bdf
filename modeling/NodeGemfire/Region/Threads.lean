import NodeGemfire.Lib.WorkQueue
import NodeGemfire.Region.Listings

/-!
# Region methods on the thread pool

The main thread calls the methods of a region in any order. A synchronous method
runs to its end there; an asynchronous one queues a worker, and the threads of the
pool make the native calls of several workers in turns. The callbacks run on the
main thread again, one after the other.

## Main definitions

- `MethodCall` — a call of a method with its arguments
- `Region.host` — the methods as programs, for the event loop with its thread pool
- `MethodCall.perform` — a call and its worker, with nothing in between
- `Region.Undisturbed` — what a worker has been told is still true at its next native call

## Main results

- `Region.linearizable` — the calls have the outcomes they would have one by one
- `Region.callbacks_called_once` — every callback is called, and once
-/

namespace NodeGemfire

variable {σ α β : Type}

/-! ### Clear workers -/

/-- Asking for the region service changes nothing. -/
def Client.ServiceReads (client : Client σ) : Prop :=
  ∀ region, (client.native .getRegionService region).2 = region

namespace ClearWorker

/-- The only worker that calls the client twice. -/
theorem execute_program : WorkerProgram.execute program =
    .ask .getRegionService fun service => match service with
      | .error exception => .done (pure (.error (v8Error exception)))
      | .ok () => .ask .clear fun answer => .done (pure (answer.mapError v8Error)) := by
  refine congrArg (Program.ask NativeCall.getRegionService) (funext fun service => ?_)
  cases service with
  | error exception => rfl
  | ok =>
    refine congrArg (Program.ask NativeCall.clear) (funext fun answer => ?_)
    cases answer <;> rfl

theorem readsFirst_execute {client : Client σ} (hservice : client.ServiceReads) :
    (WorkerProgram.execute program).ReadsFirst client.native := by
  rw [execute_program]
  intro region
  cases h : (client.native .getRegionService region).1 with
  | error exception => exact .inr ⟨_, rfl⟩
  | ok => exact .inl ⟨hservice region, fun _ => .inr ⟨_, rfl⟩⟩

end ClearWorker

/-! ### Calls -/

/-- A call of a method of the prototype. -/
inductive MethodCall
  | async (m : AsyncMethod) (info : List JsValue)
  | sync (m : SyncMethod) (info : List JsValue)
  | listing (m : ListingMethod) (info : List JsValue)
  | registration (m : RegistrationMethod)

/-- The callback that a report calls; an `error` event calls none. -/
def heardBy : Report ⊕ ListingReport → Option JsValue
  | .inl (.callback callback _) | .inl (.callbackError callback _) => some callback
  | .inl (.errorEvent _) => none
  | .inr (.response callback _) | .inr (.error callback _) => some callback

/-- A worker with a callback calls it once, with what the client has answered or with the
    exception. -/
theorem AsyncMethod.yields_worker (p : Platform) (m : AsyncMethod) (info : List JsValue) :
    (m.worker p info).reports.Yields fun reports => ∀ callback, m.callback info = some callback →
      ∃ report, reports = [report] ∧ heardBy (.inl report) = some callback := by
  have hcallback : m.callback info = (m.worker p info).callback := by cases m <;> rfl
  rw [hcallback]
  cases m.worker p info with
  | gemfire callback work =>
    refine (Program.yields_of_forall (P := fun _ => True) (fun _ => trivial) _).map ?_
    rintro outcome - _ ⟨⟩
    cases houtcome : outcome.value <;> exact ⟨_, rfl, rfl⟩
  | evented callback? work =>
    refine (Program.yields_of_forall (P := fun _ => True) (fun _ => trivial) _).map ?_
    rintro outcome - callback rfl
    cases houtcome : outcome.value <;> exact ⟨_, rfl, rfl⟩

/-- What JavaScript hears of a call: what it throws and returns, and what its worker
    reports. -/
structure Heard where
  thrown : List JsError
  returned : ReturnValue
  reports : List (Report ⊕ ListingReport)

namespace MethodCall

variable (client : RegionClient σ)

/-- Whether the call queues a worker. -/
def queues : MethodCall → Bool
  | async m info => (m.call client.toClient info).value.isSome
  | listing m info => (m.argumentError info).isNone
  | sync _ _ | registration _ => false

/-- The native calls of a method or of its worker, and what JavaScript hears. -/
def program : MethodCall →
    Program (NativeCall ⊕ ListingCall) (Sum.elim NativeCall.Answer ListingCall.Answer) Heard
  | async m info =>
    let call := m.call client.toClient info
    if call.value.isSome then
      (fun reports => ⟨call.thrown, .holder, reports.map .inl⟩) <$>
        (m.worker client.platform info).reports.inl
    else .done ⟨call.thrown, .undefined, []⟩
  | sync m info => (fun x => ⟨x.thrown, x.value, []⟩) <$> (m.program client.toClient info).inl
  | listing m info =>
    match m.argumentError info with
    | some message => .done ⟨(nanThrowError message).thrown, .undefined, []⟩
    | none =>
      (fun report => ⟨[], m.returned, [.inr report]⟩) <$> (m.worker client.platform info).inr
  | registration m => (fun x => ⟨x.thrown, x.value, []⟩) <$> m.program.inr

/-- A call, and its worker if it queues one, with nothing in between. -/
def perform : MethodCall → σ → Heard × σ
  | async m info, region =>
    let outcome := m.perform client.toClient info (.start region)
    (⟨outcome.thrown, outcome.returned, outcome.reports.map .inl⟩, outcome.session.region)
  | sync m info, region =>
    let outcome := m.perform client.toClient info (.start region)
    (⟨outcome.thrown, outcome.returned, []⟩, outcome.session.region)
  | listing m info, region =>
    match m.argumentError info with
    | some message => (⟨(nanThrowError message).thrown, .undefined, []⟩, region)
    | none =>
      let call := m.nativeCall client.platform info
      let (answer, region') := client.listing call region
      (⟨[], m.returned, [.inr (ListingMethod.handleCallback client.platform (m.callback info) call
        answer)]⟩, region')
  | registration m, region =>
    match client.listing m.nativeCall region with
    | (.ok _, region') => (⟨[], .undefined, []⟩, region')
    | (.error exception, region') => (⟨[v8Error exception], .undefined, []⟩, region')

/-- The callback that is to hear of the call: there is a worker for it. -/
def callback : MethodCall → Option JsValue
  | async m info => if (m.call client.toClient info).value.isSome then m.callback info else none
  | listing m info => if (m.argumentError info).isNone then some (m.callback info) else none
  | sync _ _ | registration _ => none

variable {client}

/-- Without interruption, the program does what the call and its worker do. -/
theorem run_program (call : MethodCall) (region : σ) :
    (call.program client).run (Program.either client.native client.listing) region =
      call.perform client region := by
  cases call with
  | async m info =>
    rcases @AsyncMethod.call_value σ client.toClient m info with h | h
    · simp only [program, perform, AsyncMethod.perform, h]
      rw [afterwards_of_none h]
      rfl
    · have hrun := @WorkerProgram.run_reports σ client.toClient (m.worker client.platform info)
        (.start region)
      simp only [program, perform, AsyncMethod.perform, h, Option.isSome_some, if_true,
        Program.run_map, Program.run_inl]
      rw [afterwards_of_some h]
      simp only [Session.start] at hrun ⊢
      rw [hrun]
  | sync m info =>
    simp only [program, perform, SyncMethod.perform, Program.run_map, Program.run_inl]
    rw [← SyncMethod.runIn_program]
    simp only [CppProgram.runIn, Session.start, Isolate.bind_thrown, Isolate.bind_value,
      Isolate.pure_thrown, Isolate.pure_value, List.append_nil]
  | listing m info =>
    simp only [program, perform]
    cases m.argumentError info with
    | some message => rfl
    | none =>
      simp only [Program.run_map, Program.run_inr]
      rfl
  | registration m =>
    simp only [program, perform, Program.run_map, Program.run_inr, RegistrationMethod.program,
      Program.run]
    obtain ⟨answer, region'⟩ := client.listing m.nativeCall region
    cases answer <;> rfl

theorem asksAtMost_program {call : MethodCall} (h : ∀ info, call ≠ .async .clear info) :
    (call.program client).AsksAtMost 1 := by
  cases call with
  | async m info =>
    simp only [program]
    split
    · have hone := m.asksAtMost_worker client.platform info
      rw [if_neg fun heq : m = .clear => h info (heq ▸ rfl)] at hone
      exact hone.inl.map _
    · exact Program.asksAtMost_done _ 1
  | sync m info => exact (m.asksAtMost_program info).inl.map _
  | listing m info =>
    simp only [program]
    split
    · exact Program.asksAtMost_done _ 1
    · exact (m.asksAtMost_worker client.platform info).inr.map _
  | registration m => exact m.asksAtMost_program.inr.map _

theorem readsFirst_program (hservice : client.toClient.ServiceReads) (call : MethodCall) :
    (call.program client).ReadsFirst (Program.either client.native client.listing) := by
  by_cases h : ∀ info, call ≠ .async .clear info
  · exact (asksAtMost_program h).readsFirst
  · push Not at h
    obtain ⟨info, rfl⟩ := h
    simp only [program]
    split
    · exact ((ClearWorker.readsFirst_execute hservice).map _).inl.map _
    · trivial

/-- Whatever the client answers, a call with a callback for its worker leads to one report,
    to this callback. -/
theorem yields_program (call : MethodCall) :
    (call.program client).Yields fun heard => ∀ callback, call.callback client = some callback →
      ∃ report, heard.reports = [report] ∧ heardBy report = some callback := by
  cases call with
  | async m info =>
    simp only [program]
    split
    case isTrue hqueued =>
      refine (m.yields_worker client.platform info).inl.map fun reports hreports callback h => ?_
      simp only [MethodCall.callback, if_pos hqueued] at h
      obtain ⟨report, rfl, hreport⟩ := hreports callback h
      exact ⟨.inl report, rfl, hreport⟩
    case isFalse hqueued =>
      intro callback h
      simp only [MethodCall.callback, if_neg hqueued] at h
      cases h
  | sync m info => exact Program.yields_of_forall (fun _ _ h => nomatch h) _
  | listing m info =>
    simp only [program, MethodCall.callback]
    cases m.argumentError info with
    | some message => exact fun callback h => nomatch h
    | none =>
      intro answer callback h
      refine ⟨_, rfl, ?_⟩
      obtain rfl := Option.some.inj h
      cases answer <;> rfl
  | registration m => exact Program.yields_of_forall (fun _ _ h => nomatch h) _

end MethodCall

/-! ### The event loop -/

namespace Region

/-- The event loop while it runs calls of region methods. -/
abbrev Loop (σ : Type) : Type :=
  WorkQueue σ MethodCall (NativeCall ⊕ ListingCall)
    (Sum.elim NativeCall.Answer ListingCall.Answer) Heard

/-- The methods of a region on the event loop, with so many threads in the pool. -/
def host (client : RegionClient σ) (threads : ℕ) :
    Host σ MethodCall (NativeCall ⊕ ListingCall) (Sum.elim NativeCall.Answer ListingCall.Answer)
      Heard where
  program call := call.program client
  answer := Program.either client.native client.listing
  queues call := call.queues client
  threads := threads

/-- The calls one after the other, each with its worker. -/
def OneByOne (client : RegionClient σ) (region : σ) (call : MethodCall) (heard : Heard)
    (region' : σ) : Prop :=
  call.perform client region = (heard, region')

theorem host_spec (client : RegionClient σ) (threads : ℕ) :
    (host client threads).spec = OneByOne client := by
  funext region call heard region'
  rw [OneByOne, ← MethodCall.run_program]
  rfl

/-- All interleavings, from this state of the region on. -/
abbrev loop (client : RegionClient σ) (threads : ℕ) (region : σ) :
    TransitionSystem (Loop σ) (WorkQueue.Label MethodCall) :=
  WorkQueue.system (host client threads) region

variable {client : RegionClient σ} {threads : ℕ} {region : σ} {w : Loop σ}

/-- `region.put("foo", true, callback)`. -/
def putCall : MethodCall :=
  .async .put [.string (.ofAscii "foo"), .boolean true, .object .function []]

/-- `region.clear(callback)`. -/
def clearCall : MethodCall := .async .clear [.object .function []]

/-- The workers that are between two native calls have had answers that are still true: for
    `ClearWorker`, the cache has not been closed and the region not destroyed since. -/
def Undisturbed (client : RegionClient σ) (threads : ℕ) :
    Loop σ → WorkQueue.Label MethodCall → Prop :=
  WorkQueue.Repeatable (host client threads)

theorem tableClient_serviceReads : tableClient.toClient.ServiceReads := fun _ => rfl

theorem undisturbed_of_jobs {t t' : Job MethodCall (NativeCall ⊕ ListingCall)
      (Sum.elim NativeCall.Answer ListingCall.Answer) Heard} {l : WorkQueue.Label MethodCall}
    (hjobs : w.jobs = [t, t'])
    (ht : (t.op.program client).Repeats (host client threads).answer t.program w.object)
    (ht' : (t'.op.program client).Repeats (host client threads).answer t'.program w.object) :
    Undisturbed client threads w l := by
  intro t'' hmem
  rw [hjobs] at hmem
  rcases List.mem_pair.mp hmem with rfl | rfl
  · exact ht
  · exact ht'

/-- Two threads take the workers of `putCall` and `clearCall`. The entry is put between the
    two native calls of the second, which then clears it again. -/
theorem putAndClear_reachable : ∃ w heard heard',
    ((loop tableClient 2 fun _ => none).restrict (Undisturbed tableClient 2)).Reachable w ∧
    w.Idle ∧ w.history = [.called 0 putCall, .called 1 clearCall, .returned 0 heard,
      .returned 1 heard'] := by
  let T := (loop tableClient 2 fun _ => none).restrict (Undisturbed tableClient 2)
  have hput := TransitionSystem.Reachable.step (.start rfl : T.Reachable _)
    ⟨List.forall_mem_nil _, .queue _ putCall rfl rfl⟩
  have hclear := hput.step ⟨List.forall_mem_singleton.mpr (Program.Leads.refl _),
    .queue _ clearCall rfl rfl⟩
  have hstart := hclear.step ⟨undisturbed_of_jobs rfl (Program.Leads.refl _)
    (Program.Leads.refl _), .start _ _ _ rfl Nat.two_pos⟩
  have hstart' := hstart.step ⟨undisturbed_of_jobs rfl (Program.Leads.refl _)
    (Program.Leads.refl _), .start _ _ _ rfl Nat.one_lt_two⟩
  have hservice := hstart'.step ⟨undisturbed_of_jobs rfl (Program.Leads.refl _)
    (Program.Leads.refl _), .ask _ [_] [] 1 clearCall _ _ rfl⟩
  have hentry := hservice.step ⟨undisturbed_of_jobs rfl (Program.Leads.refl _)
    (Program.Leads.ask _ _ _ rfl (Program.Leads.refl _)), .ask _ [] [_] 0 putCall _ _ rfl⟩
  have hcleared := hentry.step ⟨undisturbed_of_jobs rfl trivial
    (Program.Leads.ask _ _ _ rfl (Program.Leads.refl _)), .ask _ [_] [] 1 clearCall _ _ rfl⟩
  have hfinish := hcleared.step ⟨undisturbed_of_jobs rfl trivial trivial,
    .finish _ [] [_] 0 putCall _ rfl⟩
  have hfinish' := hfinish.step ⟨List.forall_mem_singleton.mpr trivial,
    .finish _ [] [] 1 clearCall _ rfl⟩
  have hdeliver := hfinish'.step ⟨List.forall_mem_nil _, .deliver _ _ _ rfl rfl⟩
  have hdeliver' := hdeliver.step ⟨List.forall_mem_nil _, .deliver _ _ [] rfl rfl⟩
  exact ⟨_, _, _, hdeliver', ⟨rfl, rfl⟩, rfl⟩

/-- However the threads interleave, the calls have the outcomes they would have one by
    one, in an order in which a call made after the callback of another comes later. -/
theorem linearizable (hservice : client.toClient.ServiceReads)
    (hw : ((loop client threads region).restrict (Undisturbed client threads)).Reachable w) :
    ∃ order, Linearizes (OneByOne client) region w.history order w.object := by
  rw [← host_spec client threads]
  exact WorkQueue.exists_linearizes_of_readsFirst hw fun call => call.readsFirst_program hservice

theorem linearizable_putAndClear : ∃ (w : Loop (Option CacheableString → CacheablePtr)) (order : _),
    .called 0 putCall ∈ w.history ∧ .called 1 clearCall ∈ w.history ∧
    Linearizes (OneByOne tableClient) (fun _ => none) w.history order w.object := by
  obtain ⟨w, heard, heard', hw, -, hhistory⟩ := putAndClear_reachable
  obtain ⟨order, h⟩ := linearizable tableClient_serviceReads hw
  exact ⟨w, order, by simp [hhistory], by simp [hhistory], h⟩

/-- However the threads are scheduled, the work on the calls made so far comes to an end,
    and when there is none left, every callback has been called, and once. -/
theorem callbacks_called_once (hthreads : 0 < threads)
    (hw : (loop client threads region).Reachable w) :
    Acc (fun w' w => WorkQueue.Step (host client threads) w .work w') w ∧
      ((∀ w', ¬WorkQueue.Step (host client threads) w .work w') →
        ∀ i call callback, .called i call ∈ w.history → call.callback client = some callback →
          ∃ heard report, w.history.filter (WorkQueue.returnedId · == some i) =
            [.returned i heard] ∧ heard.reports = [report] ∧ heardBy report = some callback) := by
  refine ⟨WorkQueue.wellFounded_work.apply w, fun hrest i call callback hcalled hcallback => ?_⟩
  obtain ⟨heard, hfilter⟩ := WorkQueue.returned_once hthreads hw hrest hcalled
  have hreturned : .returned i heard ∈ w.history := by
    have hmem : .returned i heard ∈ w.history.filter (WorkQueue.returnedId · == some i) :=
      hfilter ▸ List.mem_singleton_self _
    exact (List.mem_filter.mp hmem).1
  obtain ⟨report, hreports, hheard⟩ := WorkQueue.yields_of_returned hw
    (fun call => call.yields_program) hcalled hreturned callback hcallback
  exact ⟨heard, report, hfilter, hreports, hheard⟩

theorem callbacks_called_once_putAndClear :
    ∃ w, (loop tableClient 2 (fun _ => none)).Reachable w ∧
    (∃ heard report, w.history.filter (WorkQueue.returnedId · == some 0) = [.returned 0 heard] ∧
      heard.reports = [report] ∧ heardBy report = some (.object .function [])) ∧
    ∃ heard report, w.history.filter (WorkQueue.returnedId · == some 1) = [.returned 1 heard] ∧
      heard.reports = [report] ∧ heardBy report = some (.object .function []) := by
  obtain ⟨w, heard, heard', hw, hidle, hhistory⟩ := putAndClear_reachable
  obtain ⟨-, honce⟩ := callbacks_called_once Nat.two_pos hw.of_restrict
  have hrest : ∀ w', ¬WorkQueue.Step (host tableClient 2) w .work w' :=
    fun _ => WorkQueue.not_work_of_idle hidle
  exact ⟨w, hw.of_restrict, honce hrest 0 putCall _ (by simp [hhistory]) rfl,
    honce hrest 1 clearCall _ (by simp [hhistory]) rfl⟩

end Region

end NodeGemfire
