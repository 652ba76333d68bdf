import NodeGemfire.Events.Publishing
import NodeGemfire.Region.Listings

/-!
# The life of Region objects

The collector deletes a `Region` whose JavaScript object scripts can no longer reach,
and the destructor takes it out of the registry of region events. Three kinds of
workers keep a plain pointer to the `Region` of their call, which a thread of the pool
follows while scripts and the collector go on. What keeps the `Region` alive for them is
the persistent handle that every `GemfireEventedWorker` has to the JavaScript object.

## Main definitions

- `RegionObjects.Worker` — a worker, with what it keeps of its region
- `RegionObjects.system` — scripts, the collector, the thread pool and the region events
- `RegionObjects.Kept` — what is referenced or saved is alive

## Main results

- `RegionObjects.asksAtMost_reads` — how often the programs of the workers follow a pointer
- `RegionObjects.workers_safe` — no worker follows a dangling pointer
- `RegionObjects.objects_settle` — in the end only what scripts refer to is alive
-/

namespace NodeGemfire.RegionObjects

open RegionEventRegistry (Region Published)

variable (p : Platform) {ρ : Type}

/-! ### What workers keep of their region -/

/-- The methods that queue a worker. -/
inductive WorkerMethod
  | async (method : AsyncMethod)
  | listing (method : ListingMethod)
  deriving DecidableEq

/-- `ClearWorker`, `PutWorker` and `DestroyRegionWorker` have a `Region *`, the other
    workers a `RegionPtr`. -/
def WorkerMethod.keepsPointer : WorkerMethod → Bool
  | .async .clear | .async .put | .async .destroyRegion | .async .localDestroyRegion => true
  | _ => false

/-- `SaveToPersistent`, in the constructor of `GemfireEventedWorker`. -/
def WorkerMethod.savesObject : WorkerMethod → Bool
  | .async .get | .async .getAll | .listing _ => false
  | .async _ => true

/-- How often the native part follows the pointer at most. -/
def WorkerMethod.reads : WorkerMethod → ℕ
  | .async .clear => 2
  | _ => 1

theorem savesObject_of_keepsPointer {method : WorkerMethod} (h : method.keepsPointer = true) :
    method.savesObject = true := by
  cases method with
  | listing => cases h
  | async method => cases method <;> first | rfl | cases h

/-- The workers that save the object are the `GemfireEventedWorker`s. -/
theorem savesObject_iff_evented {method : AsyncMethod} (info : List JsValue) :
    (WorkerMethod.async method).savesObject = true ↔
      ∃ callback work, method.worker p info = .evented callback work := by
  cases method <;> simp [WorkerMethod.savesObject, AsyncMethod.worker]

/-- The native part of a worker follows its pointer for native calls, and `reads` bounds
    them, whatever the client answers. -/
theorem asksAtMost_reads (method : AsyncMethod) (info : List JsValue) :
    (method.worker p info).reports.AsksAtMost (WorkerMethod.async method).reads := by
  cases method <;> exact AsyncMethod.asksAtMost_worker p _ info

theorem asksAtMost_reads_listing (method : ListingMethod) (info : List JsValue) :
    (method.worker p info).AsksAtMost (WorkerMethod.listing method).reads :=
  method.asksAtMost_worker p info

/-- Where a worker is: `reads` is how often it may still follow the pointer, and while it
    is `reporting` its callback or the handlers of its `error` event run. -/
inductive Stage
  | queued
  | executing (reads : ℕ)
  | executed (failed : Bool)
  | reporting (failed : Bool)

def Stage.isReporting : Stage → Bool
  | .reporting _ => true
  | _ => false

/-- `object` is the `Region` whose method was called, as it was then. -/
structure Worker (ρ : Type) where
  method : WorkerMethod
  object : Region ρ
  hasCallback : Bool
  stage : Stage

/-- A worker for `object` has found the native region `found`, or a dangling pointer. -/
structure Access (ρ : Type) where
  object : Region ρ
  found : Option ρ

/-! ### The system -/

/-- `referenced` are the addresses of the objects that scripts can reach; `accesses` and
    `errorEvents` are the history of the run. -/
structure State (ρ : Type) where
  registry : RegionEventRegistry.State ρ
  referenced : List ℕ
  workers : List (Worker ρ)
  accesses : List (Access ρ)
  errorEvents : List (Region ρ)

def State.start : State ρ := ⟨.start, [], [], [], []⟩

namespace State

/-- The `Region`s that have not been deleted: all are registered. -/
def alive (s : State ρ) : List (Region ρ) := s.registry.regionSet.toList

/-- What a pointer points to. -/
def deref (s : State ρ) (address : ℕ) : Option (Region ρ) := s.alive.find? (·.address = address)

/-- The callbacks of one worker are called at a time. -/
def Reports (s : State ρ) : Prop := ∃ w ∈ s.workers, w.stage.isReporting = true

/-- The event loop has a handle to the object: it publishes an event on it, or hands a
    worker's error over to its handlers. -/
def HasHandle (s : State ρ) (region : Region ρ) : Prop :=
  region.address ∈ s.registry.held ∨
    ∃ w ∈ s.workers, w.method.savesObject = true ∧ w.stage.isReporting = true ∧ w.object = region

end State

/-- `region->regionPtr` or `regionPtr`, whichever the worker has. -/
def Worker.target (w : Worker ρ) (s : State ρ) : Option ρ :=
  if w.method.keepsPointer then (s.deref w.object.address).map (·.regionPtr)
  else some w.object.regionPtr

/-- `emitError`, if the worker has failed and there is no callback. -/
def Worker.errorEvent (w : Worker ρ) (failed : Bool) : List (Region ρ) :=
  if failed && !w.hasCallback then [w.object] else []

/-- Not a step of scripts or of the collector. -/
def publishes : RegionEventRegistry.Label ρ → Prop
  | .add _ | .remove _ => False
  | _ => True

inductive Label (ρ : Type)
  | publishing (label : RegionEventRegistry.Label ρ)
  | newInstance (region : Region ρ)
  | forget (address : ℕ)
  | refer (region : Region ρ)
  | collect (region : Region ρ)
  | call (method : WorkerMethod) (region : Region ρ) (hasCallback : Bool)
  | execute
  | read
  | executed (failed : Bool)
  | report
  | delete

inductive Step : State ρ → Label ρ → State ρ → Prop
  | publishing (s : State ρ) (label : RegionEventRegistry.Label ρ)
      (registry : RegionEventRegistry.State ρ) (hlabel : publishes label)
      (hfree : label = .publishEvents → ¬s.Reports)
      (hs : RegionEventRegistry.Step p s.registry label registry) :
    Step s (.publishing label) { s with registry := registry }
  -- `Region::NewInstance`, for a script
  | newInstance (s : State ρ) (region : Region ρ) (registry : RegionEventRegistry.State ρ)
      (hs : RegionEventRegistry.Step p s.registry (.add region) registry) :
    Step s (.newInstance region)
      { s with registry := registry, referenced := region.address :: s.referenced }
  -- the last reference of a script is gone
  | forget (s : State ρ) (address : ℕ) :
    Step s (.forget address) { s with referenced := s.referenced.filter (· ≠ address) }
  -- handlers get the object as `this`
  | refer (s : State ρ) (region : Region ρ) (hmem : region ∈ s.alive) (h : s.HasHandle region) :
    Step s (.refer region) { s with referenced := region.address :: s.referenced }
  -- `~Region`
  | collect (s : State ρ) (region : Region ρ) (registry : RegionEventRegistry.State ρ)
      (hmem : region ∈ s.alive) (hreferenced : region.address ∉ s.referenced)
      (hsaved : ∀ w ∈ s.workers, w.method.savesObject = true → w.object.address ≠ region.address)
      (hs : RegionEventRegistry.Step p s.registry (.remove region) registry) :
    Step s (.collect region) { s with registry := registry }
  -- a call that queues a worker; a `GemfireWorker` has a callback
  | call (s : State ρ) (method : WorkerMethod) (region : Region ρ) (hasCallback : Bool)
      (hmem : region ∈ s.alive) (hreferenced : region.address ∈ s.referenced)
      (hscript : s.registry.loop.RunsScript)
      (hcallback : method.savesObject = false → hasCallback = true) :
    Step s (.call method region hasCallback)
      { s with workers := s.workers ++ [⟨method, region, hasCallback, .queued⟩] }
  | execute (s : State ρ) (before after : List (Worker ρ)) (w : Worker ρ)
      (hworkers : s.workers = before ++ w :: after) (h : w.stage = .queued) :
    Step s .execute
      { s with workers := before ++ { w with stage := .executing w.method.reads } :: after }
  | read (s : State ρ) (before after : List (Worker ρ)) (w : Worker ρ) (reads : ℕ)
      (hworkers : s.workers = before ++ w :: after) (h : w.stage = .executing (reads + 1)) :
    Step s .read
      { s with
        workers := before ++ { w with stage := .executing reads } :: after
        accesses := s.accesses ++ [⟨w.object, w.target s⟩] }
  -- the native part has returned, or thrown, or found nothing to do
  | executed (s : State ρ) (before after : List (Worker ρ)) (w : Worker ρ) (reads : ℕ)
      (failed : Bool) (hworkers : s.workers = before ++ w :: after)
      (h : w.stage = .executing reads) :
    Step s (.executed failed)
      { s with workers := before ++ { w with stage := .executed failed } :: after }
  -- `HandleOKCallback`, `HandleErrorCallback`
  | report (s : State ρ) (before after : List (Worker ρ)) (w : Worker ρ) (failed : Bool)
      (hworkers : s.workers = before ++ w :: after) (h : w.stage = .executed failed)
      (hidle : s.registry.loop = .idle) (hfree : ¬s.Reports) :
    Step s .report
      { s with
        workers := before ++ { w with stage := .reporting failed } :: after
        errorEvents := s.errorEvents ++ w.errorEvent failed }
  -- `~AsyncWorker` gives up the persistent handle
  | delete (s : State ρ) (before after : List (Worker ρ)) (w : Worker ρ) (failed : Bool)
      (hworkers : s.workers = before ++ w :: after) (h : w.stage = .reporting failed) :
    Step s .delete { s with workers := before ++ after }

/-- All interleavings of the main thread, the thread pool and the listener's threads. -/
def system : TransitionSystem (State ρ) (Label ρ) where
  start s := s = .start
  step := Step p

variable {p} {s s' : State ρ} {l : Label ρ}

/-! ### What is alive -/

/-- Apart from scripts and the collector nobody changes the registry. -/
theorem regionSet_of_publishes {r r' : RegionEventRegistry.State ρ}
    {label : RegionEventRegistry.Label ρ} (hlabel : publishes label)
    (hs : RegionEventRegistry.Step p r label r') : r'.regionSet = r.regionSet := by
  cases hs with
  | add | remove => exact hlabel.elim
  | _ => rfl

theorem mem_alive_of_add {r r' : RegionEventRegistry.State ρ} {region other : Region ρ}
    (hs : RegionEventRegistry.Step p r (.add region) r') :
    other ∈ r'.regionSet.toList ↔ other = region ∨ other ∈ r.regionSet.toList := by
  cases hs with
  | add _ hscript hnew =>
    exact (OrderedSet.perm_insertList hnew).mem_iff.trans List.mem_cons

theorem mem_alive_of_remove {r r' : RegionEventRegistry.State ρ} {region other : Region ρ}
    (hs : RegionEventRegistry.Step p r (.remove region) r') :
    other ∈ r'.regionSet.toList ↔ other ∈ r.regionSet.toList ∧ other.address ≠ region.address := by
  cases hs with
  | remove _ hscript hfree => exact OrderedSet.mem_erase_iff

theorem deref_of_mem {region : Region ρ} (h : region ∈ s.alive) :
    s.deref region.address = some region := OrderedSet.find?_of_mem h

/-- Whatever scripts can reach and whatever a worker has saved is alive, and each worker
    has found the region of its object. -/
structure Kept (s : State ρ) : Prop where
  referenced : ∀ address ∈ s.referenced, ∃ region ∈ s.alive, region.address = address
  saved : ∀ w ∈ s.workers, w.method.savesObject = true → w.object ∈ s.alive
  callbacks : ∀ w ∈ s.workers, w.method.savesObject = false → w.hasCallback = true
  accesses : ∀ a ∈ s.accesses, a.found = some a.object.regionPtr

theorem Kept.target (h : Kept s) {w : Worker ρ} (hw : w ∈ s.workers) :
    w.target s = some w.object.regionPtr := by
  unfold Worker.target
  split
  · rename_i hpointer
    rw [deref_of_mem (h.saved w hw (savesObject_of_keepsPointer hpointer))]
    rfl
  · rfl

/-- A step of a worker that keeps its object. -/
theorem Kept.advance (h : Kept s) {before after : List (Worker ρ)} {w : Worker ρ}
    (hworkers : s.workers = before ++ w :: after) (stage : Stage) :
    Kept { s with workers := before ++ { w with stage := stage } :: after } := by
  have hsaved := h.saved
  have hcallbacks := h.callbacks
  rw [hworkers, List.forall_mem_append, List.forall_mem_cons] at hsaved hcallbacks
  refine { h with saved := ?_, callbacks := ?_ }
  · exact List.forall_mem_append.mpr
      ⟨hsaved.1, List.forall_mem_cons.mpr ⟨hsaved.2.1, hsaved.2.2⟩⟩
  · exact List.forall_mem_append.mpr
      ⟨hcallbacks.1, List.forall_mem_cons.mpr ⟨hcallbacks.2.1, hcallbacks.2.2⟩⟩

theorem mem_workers {before after : List (Worker ρ)} {w : Worker ρ}
    (hworkers : s.workers = before ++ w :: after) : w ∈ s.workers := by
  rw [hworkers]
  exact List.mem_append_right _ List.mem_cons_self

theorem kept_step (h : Kept s) (hs : Step p s l s') : Kept s' := by
  cases hs with
  | publishing label registry hlabel hfree hs =>
    have halive : ({ s with registry := registry } : State ρ).alive = s.alive :=
      congrArg OrderedSet.toList (regionSet_of_publishes hlabel hs)
    refine ⟨?_, ?_, h.callbacks, h.accesses⟩
    · rw [halive]
      exact h.referenced
    · rw [halive]
      exact h.saved
  | newInstance region registry hs =>
    have hmem (other : Region ρ) : other ∈ registry.regionSet.toList ↔
        other = region ∨ other ∈ s.alive := mem_alive_of_add hs
    refine ⟨?_, ?_, h.callbacks, h.accesses⟩
    · intro address haddress
      rcases List.mem_cons.mp haddress with rfl | haddress
      · exact ⟨region, (hmem region).mpr (.inl rfl), rfl⟩
      · obtain ⟨other, halive, hother⟩ := h.referenced address haddress
        exact ⟨other, (hmem other).mpr (.inr halive), hother⟩
    · intro w hw hsaves
      exact (hmem w.object).mpr (.inr (h.saved w hw hsaves))
  | forget address =>
    refine { h with referenced := fun other hother => ?_ }
    exact h.referenced other (List.mem_of_mem_filter hother)
  | refer region hmem =>
    refine { h with referenced := fun address haddress => ?_ }
    rcases List.mem_cons.mp haddress with rfl | haddress
    · exact ⟨region, hmem, rfl⟩
    · exact h.referenced address haddress
  | collect region registry hmem hreferenced hsaved hs =>
    have hkept (other : Region ρ) : other ∈ registry.regionSet.toList ↔
        other ∈ s.alive ∧ other.address ≠ region.address := mem_alive_of_remove hs
    refine ⟨?_, ?_, h.callbacks, h.accesses⟩
    · intro address haddress
      obtain ⟨other, halive, hother⟩ := h.referenced address haddress
      refine ⟨other, (hkept other).mpr ⟨halive, ?_⟩, hother⟩
      rw [hother]
      rintro rfl
      exact hreferenced haddress
    · intro w hw hsaves
      exact (hkept w.object).mpr ⟨h.saved w hw hsaves, hsaved w hw hsaves⟩
  | call method region hasCallback hmem hreferenced hscript hcallback =>
    refine { h with saved := ?_, callbacks := ?_ }
    · exact List.forall_mem_append.mpr
        ⟨h.saved, List.forall_mem_singleton.mpr fun _ => hmem⟩
    · exact List.forall_mem_append.mpr ⟨h.callbacks, List.forall_mem_singleton.mpr hcallback⟩
  | execute before after w hworkers hstage => exact h.advance hworkers _
  | read before after w reads hworkers hstage =>
    refine { h.advance hworkers (.executing reads) with accesses := ?_ }
    refine List.forall_mem_append.mpr ⟨h.accesses, List.forall_mem_singleton.mpr ?_⟩
    exact h.target (mem_workers hworkers)
  | executed before after w reads failed hworkers hstage => exact h.advance hworkers _
  | report before after w failed hworkers hstage =>
    exact { h.advance hworkers (.reporting failed) with }
  | delete before after w failed hworkers hstage =>
    have hsub : ∀ v ∈ before ++ after, v ∈ s.workers := by
      intro v hv
      rw [hworkers]
      rcases List.mem_append.mp hv with hv | hv
      · exact List.mem_append_left _ hv
      · exact List.mem_append_right _ (List.mem_cons_of_mem _ hv)
    refine { h with saved := ?_, callbacks := ?_ }
    · exact fun v hv => h.saved v (hsub v hv)
    · exact fun v hv => h.callbacks v (hsub v hv)

theorem kept_of_reachable (hr : (system p).Reachable s) : Kept s := by
  refine hr.invariant Kept (fun s h => ?_) fun _ _ _ _ => kept_step
  subst h
  constructor <;> simp [State.start]

/-- **No dangling pointers**: whatever scripts and the collector do, every worker has found
    and would find the native region of the object whose method was called; while a worker
    that may have to emit an `error` event has not been deleted, this object is
    registered for region events; and `error` events are emitted on registered objects. -/
theorem workers_safe (hr : (system p).Reachable s) :
    (∀ w ∈ s.workers, w.target s = some w.object.regionPtr) ∧
    (∀ a ∈ s.accesses, a.found = some a.object.regionPtr) ∧
    (∀ w ∈ s.workers, w.hasCallback = false → w.object ∈ s.registry.regionSet.toList) ∧
    ∀ l s', Step p s l s' → ∃ objects, s'.errorEvents = s.errorEvents ++ objects ∧
      ∀ object ∈ objects, object ∈ s.registry.regionSet.toList := by
  have h := kept_of_reachable hr
  have hregistered : ∀ w ∈ s.workers, w.hasCallback = false →
      w.object ∈ s.registry.regionSet.toList := by
    intro w hw hnone
    refine h.saved w hw ?_
    by_contra hsaves
    have hsome := h.callbacks w hw (Bool.eq_false_iff.mpr hsaves)
    rw [hnone] at hsome
    cases hsome
  refine ⟨fun w hw => h.target hw, h.accesses, hregistered, fun l s' hs => ?_⟩
  cases hs with
  | report before after w failed hworkers =>
    refine ⟨_, rfl, fun object hobject => ?_⟩
    unfold Worker.errorEvent at hobject
    split at hobject
    · rename_i hnone
      simp only [Bool.and_eq_true, Bool.not_eq_true'] at hnone
      rw [List.mem_singleton.mp hobject]
      exact hregistered w (mem_workers hworkers) hnone.2
    · cases hobject
  | _ => exact ⟨[], (List.append_nil _).symm, fun _ hmem => absurd hmem List.not_mem_nil⟩

/-- A script has called `put` without a callback and dropped the region; the worker has
    read its pointer. -/
def putWorker : Worker ℕ := ⟨.async .put, ⟨1, 7⟩, false, .executing 0⟩

def putInFlight : State ℕ where
  registry :=
    { RegionEventRegistry.State.start with regionSet := (OrderedSet.empty _).insert ⟨1, 7⟩ }
  referenced := []
  workers := [putWorker]
  accesses := [⟨⟨1, 7⟩, some 7⟩]
  errorEvents := []

theorem putInFlight_reachable : (system nativeClient).Reachable putInFlight := by
  have h₁ := (TransitionSystem.Reachable.start rfl :
    (system nativeClient).Reachable (State.start : State ℕ)).step
    (.newInstance _ ⟨1, 7⟩ _ (.add _ ⟨1, 7⟩ trivial (by simp [State.start,
      RegionEventRegistry.State.start, OrderedSet.empty])))
  have h₂ := h₁.step (.call _ (.async .put) ⟨1, 7⟩ false List.mem_cons_self List.mem_cons_self
    trivial (by simp [WorkerMethod.savesObject]))
  have h₃ := h₂.step (.forget _ 1)
  have h₄ := h₃.step (.execute _ [] [] { putWorker with stage := .queued } rfl rfl)
  exact h₄.step (.read _ [] [] { putWorker with stage := .executing 1 } 0 rfl rfl)

theorem workers_safe_putInFlight : putWorker.target putInFlight = some 7 :=
  (workers_safe putInFlight_reachable).1 putWorker List.mem_cons_self

/-! ### Several new objects -/

/-- The steps with which a script gets new objects. -/
def Makes (_ : State ρ) : Label ρ → Prop
  | .newInstance _ => True
  | _ => False

/-- A script that runs can get any objects that have addresses of their own. -/
theorem leads_newInstances {objects : List (Region ρ)} (hscript : s.registry.loop.RunsScript)
    (hnew : (objects.map (·.address) ++ s.alive.map (·.address)).Nodup) :
    ∃ s', (system p).Leads Makes s s' ∧ s'.alive.Perm (objects ++ s.alive) ∧
      ∀ address, address ∈ s'.referenced ↔
        address ∈ objects.map (·.address) ∨ address ∈ s.referenced := by
  induction objects generalizing s with
  | nil => exact ⟨s, .refl s, .refl _, fun _ => by simp⟩
  | cons region objects ih =>
    rw [List.map_cons, List.cons_append, List.nodup_cons, List.mem_append, not_or] at hnew
    have hfresh : ∀ r ∈ s.alive, r.address ≠ region.address :=
      fun r hr heq => hnew.1.2 (List.mem_map.mpr ⟨r, hr, heq⟩)
    have hstep : (system p).step s (.newInstance region) _ :=
      .newInstance s region _ (.add s.registry region hscript hfresh)
    generalize hs₁ : ({ s with
      registry := { s.registry with regionSet := s.registry.regionSet.insert region }
      referenced := region.address :: s.referenced } : State ρ) = s₁ at hstep
    have halive : s₁.alive.Perm (region :: s.alive) := by
      rw [← hs₁]
      exact OrderedSet.perm_insertList hfresh
    have hnew₁ : (objects.map (·.address) ++ s₁.alive.map (·.address)).Nodup := by
      refine (((halive.map _).append_left _).nodup_iff).mpr ?_
      rw [List.map_cons, List.nodup_middle, List.nodup_cons, List.mem_append, not_or]
      exact hnew
    obtain ⟨s', hleads, hperm, hreferenced⟩ := ih (by rw [← hs₁]; exact hscript) hnew₁
    have hmakes : Makes s (.newInstance region) := trivial
    refine ⟨s', hleads.head hmakes hstep, ?_, fun address => ?_⟩
    · exact hperm.trans ((halive.append_left objects).trans List.perm_middle)
    · rw [hreferenced, ← hs₁, List.map_cons, List.mem_cons, List.mem_cons]
      tauto

/-! ### The region events -/

/-- Scripts, the collector and workers do nothing to the registry that it does not
    provide for. -/
def registrySimulation (p : Platform) :
    Simulation (system p : TransitionSystem (State ρ) (Label ρ))
      (RegionEventRegistry.system p : TransitionSystem (RegionEventRegistry.State ρ) _) where
  abs := State.registry
  start s h := by
    subst h
    rfl
  step s l s' _ hs := by
    cases hs with
    | publishing label registry _ _ hs => exact .inr ⟨_, hs⟩
    | newInstance region registry hs => exact .inr ⟨_, hs⟩
    | collect region registry _ _ _ hs => exact .inr ⟨_, hs⟩
    | _ => exact .inl rfl

theorem registry_reachable (hr : (system p).Reachable s) :
    (RegionEventRegistry.system p).Reachable s.registry := (registrySimulation p).reachable hr

/-- Between callbacks the event loop has no handles. -/
theorem held_of_idle {r : RegionEventRegistry.State ρ}
    (hr : (RegionEventRegistry.system p).Reachable r) (hidle : r.loop = .idle) : r.held = [] := by
  have hinvariant : r.loop = .idle ∨ r.loop = .started → r.held = [] := by
    refine hr.invariant (fun r => r.loop = .idle ∨ r.loop = .started → r.held = [])
      (fun r h => ?_) fun r label r' _ ih hs => ?_
    · subst h
      exact fun _ => rfl
    · cases hs with
      | emit | send | add | remove => exact ih
      | publishEvents hl => exact fun _ => ih (.inl hl)
      | finish => exact fun _ => rfl
      | _ => simp
  exact hinvariant (.inl hidle)

/-! ### What is left to do -/

/-- What the listener, the thread pool, the event loop and the collector have to do; not
    what scripts do, and not what the native client reports. -/
def Works (s : State ρ) : Label ρ → Prop
  | .publishing label => RegionEventRegistry.Works s.registry label
  | .newInstance _ | .forget _ | .refer _ | .call _ _ _ => False
  | _ => True

def Worker.left (w : Worker ρ) : ℕ :=
  match w.stage with
  | .queued => w.method.reads + 4
  | .executing reads => reads + 3
  | .executed _ => 2
  | .reporting _ => 1

def State.left (s : State ρ) : ℕ :=
  s.registry.left + s.alive.length + (s.workers.map Worker.left).sum

theorem sum_left {before after : List (Worker ρ)} {w : Worker ρ} :
    ((before ++ w :: after).map Worker.left).sum =
      w.left + ((before ++ after).map Worker.left).sum := by
  simp only [List.map_append, List.map_cons, List.sum_append, List.sum_cons]
  omega

/-- To go through fewer objects is less to do. -/
theorem registry_left_remove_le {r r' : RegionEventRegistry.State ρ} {region : Region ρ}
    (hs : RegionEventRegistry.Step p r (.remove region) r') : r'.left ≤ r.left := by
  cases hs with
  | remove _ hscript hfree =>
    have hset : (r.regionSet.erase region.address).toList.length ≤ r.regionSet.toList.length :=
      List.length_filter_le _ _
    have hafter (cursor : Option ℕ) : ((r.regionSet.erase region.address).after cursor).length ≤
        (r.regionSet.after cursor).length := by
      rw [OrderedSet.after_erase]
      exact List.length_filter_le _ _
    have hevents (n : ℕ) : n * (2 * (r.regionSet.erase region.address).toList.length + 2) ≤
        n * (2 * r.regionSet.toList.length + 2) := Nat.mul_le_mul_left _ (by omega)
    have hvector := hevents r.eventVector.length
    have hrest := hevents r.loop.rest.length
    cases hl : r.loop with
    | idle | started | events rest =>
      simp only [RegionEventRegistry.State.left, RegionEventRegistry.State.loopLeft,
        RegionEventRegistry.State.dispatchLeft, RegionEventRegistry.Loop.rest, hl] at hrest ⊢
      omega
    | regions event rest cursor =>
      have hcursor := hafter cursor
      simp only [RegionEventRegistry.State.left, RegionEventRegistry.State.loopLeft,
        RegionEventRegistry.State.dispatchLeft, RegionEventRegistry.Loop.rest, hl] at hrest ⊢
      omega
    | handling event rest current =>
      have hcursor := hafter (some current.address)
      simp only [RegionEventRegistry.State.left, RegionEventRegistry.State.loopLeft,
        RegionEventRegistry.State.dispatchLeft, RegionEventRegistry.Loop.rest, hl] at hrest ⊢
      omega

/-- Every step that works leaves less to do. -/
theorem left_lt (hl : Works s l) (hs : Step p s l s') : s'.left < s.left := by
  cases hs with
  | newInstance | forget | refer | call => exact hl.elim
  | publishing label registry hlabel hfree hs =>
    have hlength : registry.regionSet.toList.length = s.registry.regionSet.toList.length := by
      rw [regionSet_of_publishes hlabel hs]
    have hless := RegionEventRegistry.left_lt hl hs
    simp only [State.left, State.alive, hlength]
    omega
  | collect region registry hmem hreferenced hsaved hs =>
    have hle := registry_left_remove_le hs
    have hlt : registry.regionSet.toList.length < s.registry.regionSet.toList.length := by
      cases hs with
      | remove => exact OrderedSet.length_erase_lt hmem
    simp only [State.left, State.alive]
    omega
  | execute before after w hworkers hstage | read before after w reads hworkers hstage
  | executed before after w reads failed hworkers hstage
  | report before after w failed hworkers hstage
  | delete before after w failed hworkers hstage =>
    simp only [State.left, State.alive, hworkers, sum_left, Worker.left, hstage]
    omega

/-! ### When nothing is left to do -/

section AtRest

variable (h : (system p).AtRest Works s)
include h

theorem not_reports_of_atRest : ¬s.Reports := by
  rintro ⟨w, hw, hreporting⟩
  obtain ⟨before, after, hworkers⟩ := List.append_of_mem hw
  cases hstage : w.stage with
  | reporting failed => exact h .delete _ trivial (.delete s before after w failed hworkers hstage)
  | _ => simp [hstage, Stage.isReporting] at hreporting

theorem registry_atRest : (RegionEventRegistry.system p).AtRest
    RegionEventRegistry.Works s.registry := by
  intro label registry hl hs
  have hpublishes : publishes label := by
    cases label with
    | add | remove => exact hl
    | _ => trivial
  exact h (.publishing label) _ hl
    (.publishing s label registry hpublishes (fun _ => not_reports_of_atRest h) hs)

theorem idle_of_atRest : s.registry.loop = .idle :=
  (RegionEventRegistry.Stuck.of_atRest (registry_atRest h)).idle

theorem workers_of_atRest : s.workers = [] := by
  refine List.eq_nil_iff_forall_not_mem.mpr fun w hw => ?_
  obtain ⟨before, after, hworkers⟩ := List.append_of_mem hw
  cases hstage : w.stage with
  | queued => exact h .execute _ trivial (.execute s before after w hworkers hstage)
  | executing reads =>
    exact h (.executed false) _ trivial (.executed s before after w reads false hworkers hstage)
  | executed failed =>
    exact h .report _ trivial (.report s before after w failed hworkers hstage (idle_of_atRest h)
      (not_reports_of_atRest h))
  | reporting failed => exact h .delete _ trivial (.delete s before after w failed hworkers hstage)

end AtRest

/-- **Nothing leaks**: what is under way comes to an end, and then all workers have been
    deleted, all events are published, and the `Region`s that are alive are those whose
    objects scripts can reach. -/
theorem objects_settle (hr : (system p).Reachable s) :
    (system p).Settles Works s ∧
    ((system p).AtRest Works s → s.workers = [] ∧ Published s.registry ∧
      ∀ address, address ∈ s.referenced ↔
        ∃ region ∈ s.registry.regionSet.toList, region.address = address) := by
  refine ⟨TransitionSystem.settles_of_lt State.left (fun _ _ _ hl hs => left_lt hl hs) s,
    fun h => ?_⟩
  have hworkers := workers_of_atRest h
  have hidle := idle_of_atRest h
  have hregistry := registry_reachable hr
  refine ⟨hworkers, RegionEventRegistry.published_of_atRest hregistry (registry_atRest h),
    fun address => ⟨fun haddress => (kept_of_reachable hr).referenced address haddress, ?_⟩⟩
  rintro ⟨region, hmem, rfl⟩
  by_contra hreferenced
  -- otherwise the collector could delete it
  have hstep : RegionEventRegistry.Step p s.registry (.remove region) _ :=
    .remove s.registry region (by rw [hidle]; trivial) (by simp [held_of_idle hregistry hidle])
  exact h (.collect region) _ trivial
    (.collect s region _ hmem hreferenced (by simp [hworkers]) hstep)

/-- The worker is deleted, and then the `Region`, which scripts cannot reach. -/
theorem objects_settle_putInFlight : (system nativeClient).Settles Works putInFlight ∧
    ∃ s, (system nativeClient).Leads Works putInFlight s ∧ s.workers = [] ∧
      Published s.registry ∧ ∀ address, address ∈ s.referenced ↔
        ∃ region ∈ s.registry.regionSet.toList, region.address = address := by
  have hsettles := (objects_settle putInFlight_reachable).1
  obtain ⟨s, hleads, hrest⟩ := hsettles.exists_atRest
  have hreachable := putInFlight_reachable.of_leads hleads
  exact ⟨hsettles, s, hleads, (objects_settle hreachable).2 hrest⟩

end NodeGemfire.RegionObjects
