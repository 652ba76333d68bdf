import NodeGemfire.Lib.TransitionSystem
import NodeGemfire.Region.Refinement

/-!
# Clearing a region while the cache is being closed

`clear()` must not reach the native region where the cache is closed. So
`ClearWorker` asks for the region's service first, which throws there, and
clears the region in a second call. Worker threads make these calls while the
main thread may call `Cache::Close`, also between the two calls of one worker.

## Main definitions

- `NativeCache` — the native client, and whether the cache is closed
- `ClearWorker.system` — all interleavings of the workers and of `Cache::Close`
- `ClearWorker.Progress.Proper` — cleared an open cache, or reported an error

## Main results

- `ClearWorker.clears_open_cache_iff` — when every worker is proper
-/

namespace NodeGemfire

variable {σ : Type}

/-! ### The cache -/

/-- The native client with the cache it belongs to. -/
structure NativeCache (σ : Type) where
  client : Client σ
  isClosed : σ → Bool
  close : σ → σ

/-- What the native client promises: where the cache is closed, there is no region
    service, and only `close` closes it. -/
structure NativeCache.Documented (cache : NativeCache σ) : Prop where
  getRegionService_throws (region : σ) (h : cache.isClosed region = true) :
    ∃ exception, (cache.client.native .getRegionService region).1 = .error exception
  getRegionService_isClosed (region : σ) :
    cache.isClosed (cache.client.native .getRegionService region).2 = cache.isClosed region
  clear_isClosed (region : σ) :
    cache.isClosed (cache.client.native .clear region).2 = cache.isClosed region
  close_isClosed (region : σ) : cache.isClosed (cache.close region) = true

/-- `Cache::close`. -/
def Cache.close (cache : NativeCache σ) (region : σ) : σ :=
  if !cache.isClosed region then cache.close region else region

theorem Cache.isClosed_close {cache : NativeCache σ} (hcache : cache.Documented) (region : σ) :
    cache.isClosed (Cache.close cache region) = true := by
  rw [Cache.close]
  cases h : cache.isClosed region with
  | false => exact hcache.close_isClosed region
  | true => exact h

namespace ClearWorker

/-! ### The state -/

/-- How far a worker is: queued, after `getRegionService` and before `clear`, or done.
    `clearedIn` is the state in which it has invoked `clear`. -/
inductive Progress (σ : Type)
  | queued (callback : Option JsValue)
  | probed (callback : Option JsValue)
  | done (clearedIn : Option σ) (reports : List Report)

def Progress.isProbed : Progress σ → Bool
  | .probed _ => true
  | _ => false

structure State (σ : Type) where
  region : σ
  workers : List (Progress σ)

/-! ### The steps -/

inductive Label
  | queue (info : List JsValue)
  | getRegionService
  | clear
  | close
  | others

variable (cache : NativeCache σ)

inductive Step : State σ → Label → State σ → Prop
  -- `Region::Clear`, also where the cache is closed
  | queue (s : State σ) (info : List JsValue) (callback : Option JsValue)
      (h : (Region.clear cache.client info).value =
        some (.evented callback (executeGemfireWork cache.client))) :
    Step s (.queue info) { s with workers := s.workers ++ [.queued callback] }
  -- `ExecuteGemfireWork`, a call at a time
  | getRegionService (s : State σ) (before after : List (Progress σ)) (callback : Option JsValue)
      (h : s.workers = before ++ .queued callback :: after)
      (hreturn : (cache.client.native .getRegionService s.region).1 = .ok ()) :
    Step s .getRegionService
      { region := (cache.client.native .getRegionService s.region).2
        workers := before ++ .probed callback :: after }
  | throw (s : State σ) (before after : List (Progress σ)) (callback : Option JsValue)
      (exception : GeodeException) (h : s.workers = before ++ .queued callback :: after)
      (hthrow : (cache.client.native .getRegionService s.region).1 = .error exception) :
    Step s .getRegionService
      { region := (cache.client.native .getRegionService s.region).2
        workers :=
          before ++ .done none (handleEventedCallback callback (.error (v8Error exception))) ::
            after }
  -- also where the cache has been closed in the meantime
  | clear (s : State σ) (before after : List (Progress σ)) (callback : Option JsValue)
      (h : s.workers = before ++ .probed callback :: after) :
    Step s .clear
      { region := (cache.client.native .clear s.region).2
        workers :=
          before ++ .done (some s.region) (handleEventedCallback callback
            ((cache.client.native .clear s.region).1.mapError v8Error)) :: after }
  -- `Cache::Close`, on the main thread
  | close (s : State σ) : Step s .close { s with region := Cache.close cache s.region }
  -- whatever else the client does, it does not close the cache
  | others (s : State σ) (region : σ) (h : cache.isClosed region = cache.isClosed s.region) :
    Step s .others { s with region := region }

/-- All interleavings of the workers and the main thread. -/
def system : TransitionSystem (State σ) Label where
  start s := s.workers = []
  step := Step cache

/-! ### What the workers promise -/

/-- The worker has not invoked `clear` where the cache is closed, and reports an error
    where it has not invoked it. -/
def Progress.Proper : Progress σ → Prop
  | .queued _ | .probed _ => True
  | .done (some region) _ => cache.isClosed region = false
  | .done none reports => ∃ report ∈ reports, report.isFailure = true

/-- `Cache::Close` does not close the cache while a worker is between its two calls. -/
def ClosesApart (s : State σ) : Label → Prop
  | .close => cache.isClosed s.region = true ∨ ∀ worker ∈ s.workers, worker.isProbed = false
  | _ => True

/-- The workers are proper so far, and none is about to clear where the cache is closed. -/
structure Kept (s : State σ) : Prop where
  proper : ∀ worker ∈ s.workers, worker.Proper cache
  apart : cache.isClosed s.region = true → ∀ worker ∈ s.workers, worker.isProbed = false

variable {cache} {s s' : State σ} {l : Label}

namespace Kept

/-- One worker is another one, and the cache is as open as before. -/
theorem replace (h : Kept cache s) {before after : List (Progress σ)} {old new : Progress σ}
    (hold : s.workers = before ++ old :: after) (hnew : s'.workers = before ++ new :: after)
    (hclosed : cache.isClosed s'.region = cache.isClosed s.region) (hproper : new.Proper cache)
    (hprobed : cache.isClosed s'.region = true → new.isProbed = false) : Kept cache s' := by
  obtain ⟨hworkers, hapart⟩ := h
  rw [hold, List.forall_mem_append, List.forall_mem_cons] at hworkers
  rw [hold, List.forall_mem_append, List.forall_mem_cons] at hapart
  constructor
  · rw [hnew, List.forall_mem_append, List.forall_mem_cons]
    exact ⟨hworkers.1, hproper, hworkers.2.2⟩
  · intro hs'
    have hbefore := hapart (hclosed ▸ hs')
    rw [hnew, List.forall_mem_append, List.forall_mem_cons]
    exact ⟨hbefore.1, hprobed hs', hbefore.2.2⟩

theorem queue_iff (callback : Option JsValue) :
    Kept cache { s with workers := s.workers ++ [.queued callback] } ↔ Kept cache s := by
  constructor
  · rintro ⟨hworkers, hapart⟩
    simp only [List.forall_mem_append] at hworkers hapart
    exact ⟨hworkers.1, fun hclosed => (hapart hclosed).1⟩
  · rintro ⟨hworkers, hapart⟩
    constructor <;> simp only [List.forall_mem_append, List.forall_mem_singleton]
    · exact ⟨hworkers, trivial⟩
    · exact fun hclosed => ⟨hapart hclosed, rfl⟩

theorem region_iff {region : σ} (hclosed : cache.isClosed region = cache.isClosed s.region) :
    Kept cache { s with region := region } ↔ Kept cache s := by
  constructor <;> rintro ⟨hworkers, hapart⟩ <;> refine ⟨hworkers, fun h => hapart ?_⟩
  · exact hclosed.trans h
  · exact hclosed.symm.trans h

end Kept

theorem kept_start (h : s.workers = []) : Kept cache s := by
  constructor <;> simp [h]

/-- A worker is between its two calls only where the cache was open at the first. -/
theorem isClosed_of_getRegionService (hcache : cache.Documented)
    (hreturn : (cache.client.native .getRegionService s.region).1 = .ok ()) :
    cache.isClosed s.region = false := by
  by_contra hclosed
  obtain ⟨exception, hthrow⟩ :=
    hcache.getRegionService_throws s.region (by simpa using hclosed)
  rw [hthrow] at hreturn
  cases hreturn

theorem reports_failure (callback : Option JsValue) (error : JsError) :
    ∃ report ∈ handleEventedCallback callback (.error error), report.isFailure = true := by
  cases callback <;> exact ⟨_, List.mem_singleton_self _, rfl⟩

theorem kept_step (hcache : cache.Documented) (h : Kept cache s) (hguard : ClosesApart cache s l)
    (hs : Step cache s l s') : Kept cache s' := by
  cases hs with
  | queue info callback => exact (Kept.queue_iff callback).mpr h
  | getRegionService before after callback hworkers hreturn =>
    have hopen := isClosed_of_getRegionService hcache hreturn
    have hregion := hcache.getRegionService_isClosed s.region
    exact h.replace hworkers rfl hregion trivial (by simp [hregion, hopen])
  | throw before after callback exception hworkers =>
    have hregion := hcache.getRegionService_isClosed s.region
    exact h.replace hworkers rfl hregion (reports_failure callback _) fun _ => rfl
  | clear before after callback hworkers =>
    have hopen : cache.isClosed s.region = false := by
      by_contra hclosed
      have hprobed := h.apart (by simpa using hclosed) (.probed callback) (by simp [hworkers])
      cases hprobed
    exact h.replace hworkers rfl (hcache.clear_isClosed s.region) hopen fun _ => rfl
  | close =>
    rcases hguard with hclosed | hprobed
    · exact (Kept.region_iff ((Cache.isClosed_close hcache s.region).trans hclosed.symm)).mpr h
    · exact ⟨h.proper, fun _ => hprobed⟩
  | others region hclosed => exact (Kept.region_iff hclosed).mpr h

/-- What holds after a step tells of the step. -/
theorem kept_of_step (hcache : cache.Documented) (hs : Step cache s l s') (h : Kept cache s') :
    Kept cache s ∧ ClosesApart cache s l := by
  cases hs with
  | queue info callback => exact ⟨(Kept.queue_iff callback).mp h, trivial⟩
  | getRegionService before after callback hworkers =>
    have hregion := hcache.getRegionService_isClosed s.region
    exact ⟨h.replace rfl hworkers hregion.symm trivial fun _ => rfl, trivial⟩
  | throw before after callback exception hworkers =>
    have hregion := hcache.getRegionService_isClosed s.region
    exact ⟨h.replace rfl hworkers hregion.symm trivial fun _ => rfl, trivial⟩
  | clear before after callback hworkers =>
    have hopen : cache.isClosed s.region = false :=
      h.proper _ (List.mem_append_right before List.mem_cons_self)
    have hregion := hcache.clear_isClosed s.region
    exact ⟨h.replace rfl hworkers hregion.symm trivial (by simp [hopen]), trivial⟩
  | close =>
    have hprobed := h.apart (Cache.isClosed_close hcache s.region)
    exact ⟨⟨h.proper, fun _ => hprobed⟩, .inr hprobed⟩
  | others region hclosed => exact ⟨(Kept.region_iff hclosed).mp h, trivial⟩

theorem kept_iff (hcache : cache.Documented) (hr : (system cache).Reachable s) :
    Kept cache s ↔ ((system cache).restrict (ClosesApart cache)).Reachable s :=
  hr.iff_restrict (Kept cache) (fun _ => kept_start)
    (fun _ _ _ _ h hguard hs => kept_step hcache h hguard hs)
    fun _ _ _ _ hs h => kept_of_step hcache hs h

/-! ### What the workers do next -/

/-- The calls of the workers that are queued. -/
def WorkersCall (_ : State σ) : Label → Prop
  | .getRegionService | .clear => True
  | _ => False

theorem WorkersCall.closesApart (h : WorkersCall s l) : ClosesApart cache s l := by
  cases l <;> trivial

/-- A worker between its two calls clears, and nothing stops it. -/
theorem leads_clear (cache : NativeCache σ) {before after : List (Progress σ)}
    {callback : Option JsValue} (h : s.workers = before ++ .probed callback :: after) :
    ∃ s' reports, (system cache).Leads WorkersCall s s' ∧
      .done (some s.region) reports ∈ s'.workers := by
  have hstep : (system cache).step s .clear _ := .clear s before after callback h
  have hleads : (system cache).Leads WorkersCall s _ :=
    .head (.refl _) (show WorkersCall s .clear from trivial) hstep
  exact ⟨_, _, hleads, List.mem_append_right before List.mem_cons_self⟩

/-- **When `clear()` does not reach a closed cache**: the workers are proper, whatever
    they do next, exactly after the runs in which the cache is closed while no worker is
    between its two calls. -/
theorem clears_open_cache_iff (hcache : cache.Documented) :
    ((system cache).restrict (ClosesApart cache)).Reachable s ↔
      (system cache).Reachable s ∧ ∀ s', (system cache).Leads WorkersCall s s' →
        ∀ worker ∈ s'.workers, worker.Proper cache := by
  constructor
  · intro hr
    refine ⟨hr.of_restrict, fun s' hleads => ?_⟩
    have hr' := hr.leads hleads fun _ _ => WorkersCall.closesApart
    exact ((kept_iff hcache hr'.of_restrict).mpr hr').proper
  · rintro ⟨hr, hproper⟩
    refine (kept_iff hcache hr).mp ⟨hproper s (.refl s), fun hclosed worker hworker => ?_⟩
    cases worker with
    | queued | done => rfl
    | probed callback =>
      obtain ⟨before, after, hworkers⟩ := List.append_of_mem hworker
      obtain ⟨s', reports, hleads, hdone⟩ := leads_clear cache hworkers
      have hopen : cache.isClosed s.region = false := hproper s' hleads _ hdone
      rw [hopen] at hclosed
      cases hclosed

/-! ### A worker that is not interrupted -/

theorem execute_executeGemfireWork (client : Client σ) (s : Session σ) :
    execute (executeGemfireWork client) s =
      match (client.native .getRegionService s.region).1 with
      | .ok _ =>
        let s' := s.issue client .getRegionService
        pure ((client.native .clear s'.region).1.mapError v8Error, s'.issue client .clear)
      | .error exception =>
        pure (.error (v8Error exception), s.issue client .getRegionService) := by
  rw [executeGemfireWork, execute, attempt_perform]
  cases (client.native .getRegionService s.region).1 with
  | error exception => rfl
  | ok =>
    refine (execute_perform .clear (s.issue client .getRegionService)).trans ?_
    dsimp only
    cases (client.native .clear (s.issue client .getRegionService).region).1 <;> rfl

/-- The two calls one after the other are `Worker.run`. -/
theorem leads_run {before after : List (Progress σ)} {callback : Option JsValue}
    (h : s.workers = before ++ .queued callback :: after) (calls : List NativeCall) :
    ∃ clearedIn, (system cache).Leads WorkersCall s
      { region := ((Worker.evented callback (executeGemfireWork cache.client)).run
          ⟨s.region, calls⟩).value.2.region
        workers := before ++ .done clearedIn ((Worker.evented callback
          (executeGemfireWork cache.client)).run ⟨s.region, calls⟩).value.1 :: after } := by
  rw [Worker.run, execute_executeGemfireWork]
  cases hcall : (cache.client.native .getRegionService s.region).1 with
  | error exception =>
    have hthrow : (system cache).step s .getRegionService _ :=
      .throw s before after callback exception h hcall
    exact ⟨none, .head (.refl _) (show WorkersCall s .getRegionService from trivial) hthrow⟩
  | ok =>
    have hreturn : (system cache).step s .getRegionService _ :=
      .getRegionService s before after callback h hcall
    have hclear : (system cache).step ⟨(cache.client.native .getRegionService s.region).2,
        before ++ .probed callback :: after⟩ .clear _ := .clear _ before after callback rfl
    have hleads : (system cache).Leads WorkersCall _ _ :=
      .head (.refl _) (show WorkersCall _ .clear from trivial) hclear
    exact ⟨_, hleads.head (show WorkersCall s .getRegionService from trivial) hreturn⟩

end ClearWorker

/-! ### A cache in memory -/

/-- `memoryClient` with a cache that may be closed. -/
def memoryCache : NativeCache (Bool × HashMapOfCacheable) where
  client :=
    { platform := nativeClient
      anyInstance := .opened
      getName := "exampleRegion"
      native := fun
        | .getRegionService, (true, entries) =>
          (.error ⟨"apache::geode::client::RegionDestroyedException",
            "LocalRegion::getRegionService: region /exampleRegion destroyed"⟩, true, entries)
        | call, (closed, entries) =>
          let (result, entries) := memoryClient.native call entries
          (result, closed, entries) }
  isClosed region := region.1
  close region := (true, region.2)

theorem memoryCache_documented : memoryCache.Documented where
  getRegionService_throws := by
    rintro ⟨_, entries⟩ rfl
    exact ⟨_, rfl⟩
  getRegionService_isClosed := by
    rintro ⟨closed, entries⟩
    cases closed <;> rfl
  clear_isClosed _ := rfl
  close_isClosed _ := rfl

namespace ClearWorker

/-- `clear()` has been called, and the worker has asked for the region service. -/
theorem probed_reachable : ((system memoryCache).restrict (ClosesApart memoryCache)).Reachable
    ⟨(false, []), [.probed none]⟩ := by
  have hstart : ((system memoryCache).restrict (ClosesApart memoryCache)).Reachable
    ⟨(false, []), []⟩ := .start rfl
  have hqueued := hstart.guarded (.queue _ [] none rfl) trivial
  exact hqueued.guarded (.getRegionService _ [] [] none rfl rfl) trivial

/-- The cache is closed between the two calls. -/
theorem not_clears_open_cache : ¬ ∀ cache : NativeCache (Bool × HashMapOfCacheable),
    cache.Documented → ∀ s, (system cache).Reachable s →
      ∀ worker ∈ s.workers, worker.Proper cache := by
  intro hproper
  have hclosed := probed_reachable.of_restrict.step (.close _)
  have hcleared := hclosed.step (.clear _ [] [] none rfl)
  have h := hproper memoryCache memoryCache_documented _ hcleared _ List.mem_cons_self
  exact Bool.noConfusion h

/-- The cache is closed after the worker has cleared the region. -/
theorem cleared_reachable : ((system memoryCache).restrict (ClosesApart memoryCache)).Reachable
    ⟨(true, []), [.done (some (false, [])) []]⟩ := by
  have hcleared := probed_reachable.guarded (.clear _ [] [] none rfl) trivial
  exact hcleared.guarded (.close _) (.inr (List.forall_mem_singleton.mpr rfl))

theorem clears_open_cache_memoryCache :
    Progress.Proper memoryCache (.done (some (false, [])) []) := by
  have h := (clears_open_cache_iff memoryCache_documented).mp cleared_reachable
  exact h.2 _ (.refl _) _ (List.mem_singleton_self _)

end ClearWorker

end NodeGemfire
