import NodeGemfire.Lib.TransitionSystem
import NodeGemfire.Values.Isolate
import Mathlib.Data.List.Nodup

/-!
# The cache singleton

`configure`, `createCacheFactory` and `getCache` of `binding.js`, with `create` of
the factories and `close` of the caches they return. The guard against a second
cache stands where a factory is made; each factory's `create` installs the cache
it makes without looking.

## Main definitions

- `Binding.State` — the singleton, and the objects a script has obtained
- `Binding.call` — what a call returns or throws, and what it leaves behind
- `Binding.SingletonKept` — `getCache` returns whatever was installed

## Main results

- `Binding.singletonKept_iff_restrict` — when the singleton is kept
-/

namespace NodeGemfire.Binding

/-! ### The state -/

/-- A native cache. -/
abbrev CachePtr := ℕ

/-- A JavaScript `Cache` object: how many were made before it. -/
abbrev CacheObject := ℕ

/-- The variable `cacheSingleton`, the number of factories obtained so far, the
    native cache of each `Cache` object made so far, and the native caches that
    are closed. `installed` are the objects that were assigned to `cacheSingleton`. -/
structure State where
  cacheSingleton : Option CacheObject
  factories : ℕ
  caches : List CachePtr
  closed : List CachePtr
  installed : List CacheObject

def State.start : State := ⟨none, 0, [], [], []⟩

inductive Returned
  | undefined
  | factory (factory : ℕ)
  | cache (cache : CacheObject)

/-- How a call ends: it returns, `binding.js` throws a text, or the native client throws an
    exception, which nothing catches, so that the process ends. -/
inductive Reply
  | returned (returned : Returned)
  | thrown (message : String)
  | uncaught (exception : GeodeException)

/-! ### The calls -/

/-- `Cache::NewInstance`. -/
def newInstance (s : State) (cachePtr : CachePtr) : CacheObject × State :=
  (s.caches.length, { s with caches := s.caches ++ [cachePtr] })

/-- The callback that `binding.js` gives to every factory. -/
def install (s : State) (cacheInstance : CacheObject) : State :=
  { s with
    cacheSingleton := some cacheInstance
    installed := s.installed ++ [cacheInstance] }

/-- `CacheFactory::Create`, where `created` is what the native factory's `create`
    returns or throws. -/
def create (s : State) (created : Except GeodeException CachePtr) :
    Reply × State :=
  match created with
  | .error exception => (.uncaught exception, s)
  | .ok cachePtr =>
    let (cache, s) := newInstance s cachePtr
    (.returned (.cache cache), install s cache)

/-- `configure`, where `created` is what the native factory returns or throws. -/
def configure (s : State) (created : Except GeodeException CachePtr) :
    Reply × State :=
  match s.cacheSingleton with
  | some _ =>
    (.thrown ("gemfire: configure() can only be called once per process. " ++
      "Please call configure() once in an application initializer. " ++
      "Afterwards, you can call getCache() multiple times to get the cache singleton object."), s)
  | none =>
    match create s created with
    | (.returned _, s) => (.returned .undefined, s)
    | (reply, s) => (reply, s)

/-- `createCacheFactory`, where `made` is what the native client returns or throws. -/
def createCacheFactory (s : State) (made : Except GeodeException Unit) :
    Reply × State :=
  match s.cacheSingleton with
  | some _ =>
    (.thrown (
      "gemfire: configure() or createCacheFactory() can only be called once per process. " ++
      "Please call configure() or createCacheFactory() after a create() once in an application " ++
      "initializer. " ++
      "Afterwards, you can call getCache() multiple times to get the cache singleton object."), s)
  | none =>
    match made with
    | .error exception => (.uncaught exception, s)
    | .ok _ => (.returned (.factory s.factories), { s with factories := s.factories + 1 })

def getCache (s : State) : Reply :=
  match s.cacheSingleton with
  | none => .thrown "gemfire: You must call configure() before calling getCache()."
  | some cache => .returned (.cache cache)

/-- `Cache::Close`. -/
def close (s : State) (cachePtr : CachePtr) : State :=
  if cachePtr ∈ s.closed then s else { s with closed := cachePtr :: s.closed }

inductive Call
  | configure (created : Except GeodeException CachePtr)
  | createCacheFactory (made : Except GeodeException Unit)
  | create (factory : ℕ) (created : Except GeodeException CachePtr)
  | close (cache : CacheObject)
  | getCache

/-- A call on an object that the script has not obtained is not made. -/
def call (s : State) : Call → Option (Reply × State)
  | .configure created => some (configure s created)
  | .createCacheFactory made => some (createCacheFactory s made)
  | .create factory created => if factory < s.factories then some (create s created) else none
  | .close cache =>
    (s.caches[cache]?).map fun cachePtr => (.returned .undefined, close s cachePtr)
  | .getCache => some (getCache s, s)

/-- All sequences of calls. None follows a call that ends the process. -/
def system : TransitionSystem State Call where
  start s := s = .start
  step s c s' :=
    ∃ reply, call s c = some (reply, s') ∧ ∀ exception, reply ≠ .uncaught exception

/-! ### What a call does to the singleton -/

variable {s s' : State} {c : Call} {reply : Reply}

structure Unchanged (s s' : State) : Prop where
  cacheSingleton : s'.cacheSingleton = s.cacheSingleton
  caches : s'.caches = s.caches
  installed : s'.installed = s.installed

/-- A new `Cache` object is assigned to the singleton. -/
structure Installs (s s' : State) : Prop where
  cacheSingleton : s'.cacheSingleton = some s.caches.length
  caches : s'.caches.length = s.caches.length + 1
  installed : s'.installed = s.installed ++ [s.caches.length]

theorem Unchanged.refl (s : State) : Unchanged s s := ⟨rfl, rfl, rfl⟩

theorem installs_create (s : State) (cachePtr : CachePtr) :
    (create s (.ok cachePtr)).1 = .returned (.cache s.caches.length) ∧
      Installs s (create s (.ok cachePtr)).2 := by
  refine ⟨rfl, rfl, ?_, rfl⟩
  simp [create, newInstance, install]

theorem unchanged_close (s : State) (cachePtr : CachePtr) : Unchanged s (close s cachePtr) := by
  unfold close
  split <;> exact ⟨rfl, rfl, rfl⟩

theorem unchanged_createCacheFactory (s : State) (made : Except GeodeException Unit) :
    Unchanged s (createCacheFactory s made).2 := by
  unfold createCacheFactory
  split
  · exact .refl s
  · cases made <;> exact ⟨rfl, rfl, rfl⟩

/-- `configure` installs a cache only where there is none. -/
theorem configure_cases (s : State) (created : Except GeodeException CachePtr) :
    Unchanged s (configure s created).2 ∨
      s.cacheSingleton = none ∧ (configure s created).1 = .returned .undefined ∧
        Installs s (configure s created).2 := by
  unfold configure
  split
  · exact .inl (.refl s)
  · rename_i hnone
    cases created with
    | error exception => exact .inl (.refl s)
    | ok cachePtr => exact .inr ⟨hnone, rfl, (installs_create s cachePtr).2⟩

/-- A call leaves the singleton alone, or it returns and installs a new cache; then
    it is a `create`, or there was no cache before. -/
theorem call_cases (h : call s c = some (reply, s')) :
    Unchanged s s' ∨
      Installs s s' ∧ (∃ returned, reply = .returned returned) ∧
        (s.cacheSingleton = none ∨ ∃ factory cachePtr, c = .create factory (.ok cachePtr)) := by
  cases c with
  | configure created =>
    obtain ⟨rfl, rfl⟩ := Prod.mk.inj (Option.some.inj h)
    rcases configure_cases s created with hsame | ⟨hnone, hreply, hinstalls⟩
    · exact .inl hsame
    · exact .inr ⟨hinstalls, ⟨_, hreply⟩, .inl hnone⟩
  | createCacheFactory made =>
    obtain ⟨rfl, rfl⟩ := Prod.mk.inj (Option.some.inj h)
    exact .inl (unchanged_createCacheFactory s made)
  | create factory created =>
    rw [call] at h
    split at h
    · obtain ⟨rfl, rfl⟩ := Prod.mk.inj (Option.some.inj h)
      cases created with
      | error exception => exact .inl (.refl s)
      | ok cachePtr =>
        obtain ⟨hreply, hinstalls⟩ := installs_create s cachePtr
        exact .inr ⟨hinstalls, ⟨_, hreply⟩, .inr ⟨factory, cachePtr, rfl⟩⟩
    · cases h
  | close cache =>
    obtain ⟨cachePtr, -, heq⟩ := Option.map_eq_some_iff.mp h
    obtain ⟨rfl, rfl⟩ := Prod.mk.inj heq
    exact .inl (unchanged_close s cachePtr)
  | getCache =>
    obtain ⟨rfl, rfl⟩ := Prod.mk.inj (Option.some.inj h)
    exact .inl (.refl s)

theorem installs_of_create {factory : ℕ} {cachePtr : CachePtr}
    (h : call s (.create factory (.ok cachePtr)) = some (reply, s')) : Installs s s' := by
  rw [call] at h
  split at h
  · obtain ⟨rfl, rfl⟩ := Prod.mk.inj (Option.some.inj h)
    exact (installs_create s cachePtr).2
  · cases h

/-- A call that does not return leaves the singleton as it was. -/
theorem unchanged_of_thrown (h : call s c = some (reply, s'))
    (hthrown : ∀ returned, reply ≠ .returned returned) : Unchanged s s' := by
  rcases call_cases h with hsame | ⟨-, ⟨returned, hreply⟩, -⟩
  · exact hsame
  · exact absurd hreply (hthrown returned)

/-! ### The singleton over a whole run -/

/-- The singleton is what was installed last, and each object is installed once. -/
structure History (s : State) : Prop where
  last : s.cacheSingleton = s.installed.getLast?
  nodup : s.installed.Nodup
  made : ∀ cache ∈ s.installed, cache < s.caches.length

theorem history_step (h : History s) (hs : system.step s c s') : History s' := by
  obtain ⟨reply, hcall, -⟩ := hs
  rcases call_cases hcall with hsame | ⟨hinstalls, -, -⟩
  · constructor
    · rw [hsame.cacheSingleton, hsame.installed]
      exact h.last
    · rw [hsame.installed]
      exact h.nodup
    · rw [hsame.installed, hsame.caches]
      exact h.made
  · constructor
    · rw [hinstalls.cacheSingleton, hinstalls.installed, List.getLast?_append]
      rfl
    · rw [hinstalls.installed, List.nodup_append]
      refine ⟨h.nodup, List.nodup_singleton _, ?_⟩
      intro cache hmem cache' hmem'
      rw [List.mem_singleton.mp hmem']
      exact Nat.ne_of_lt (h.made cache hmem)
    · rw [hinstalls.installed, hinstalls.caches]
      intro cache hmem
      rcases List.mem_append.mp hmem with hmem | hmem
      · exact Nat.lt_succ_of_lt (h.made cache hmem)
      · rw [List.mem_singleton.mp hmem]
        exact Nat.lt_succ_self _

theorem history_of_reachable (hr : system.Reachable s) : History s := by
  refine hr.invariant History (fun s h => ?_) fun _ _ _ _ => history_step
  subst h
  constructor <;> simp [State.start]

/-- `getCache` returns every object that was installed, so that there is only one;
    and a call that throws, or ends the process, leaves the singleton as it is. -/
def SingletonKept (s : State) : Prop :=
  (∀ cache ∈ s.installed, getCache s = .returned (.cache cache)) ∧
  ∀ c reply s', call s c = some (reply, s') → (∀ returned, reply ≠ .returned returned) →
    s'.cacheSingleton = s.cacheSingleton

/-- A factory's `create` succeeds only where no cache is installed. -/
def CreatesFirst (s : State) (c : Call) : Prop :=
  ∀ factory cachePtr, c = .create factory (.ok cachePtr) → s.cacheSingleton = none

theorem History.singletonKept_iff (h : History s) :
    SingletonKept s ↔ s.installed.length ≤ 1 := by
  constructor
  · rintro ⟨hkept, -⟩
    -- two objects in the list would both be what `getCache` returns
    match hinstalled : s.installed with
    | [] | [_] => simp
    | first :: second :: rest =>
      have hfirst := hkept first (by simp [hinstalled])
      have hsecond := hkept second (by simp [hinstalled])
      have heq : first = second := by
        rw [hfirst] at hsecond
        simpa using hsecond
      have hnodup := h.nodup
      simp [hinstalled, heq] at hnodup
  · intro hlength
    have hthrown : ∀ c reply s', call s c = some (reply, s') →
        (∀ returned, reply ≠ .returned returned) → s'.cacheSingleton = s.cacheSingleton := by
      intro c reply s' hcall hreply
      exact (unchanged_of_thrown hcall hreply).cacheSingleton
    refine ⟨fun cache hmem => ?_, hthrown⟩
    have hinstalled : s.installed = [cache] := by
      match hlist : s.installed with
      | [] => simp [hlist] at hmem
      | [first] =>
        rw [hlist] at hmem
        rw [List.mem_singleton.mp hmem]
      | _ :: _ :: _ => simp [hlist] at hlength
    have hlast := h.last
    rw [hinstalled] at hlast
    simp [getCache, hlast]

theorem installed_eq_nil (h : History s) (hnone : s.cacheSingleton = none) :
    s.installed = [] := by
  rw [h.last] at hnone
  exact List.getLast?_eq_none_iff.mp hnone

theorem length_installed_step (h : History s) (hlength : s.installed.length ≤ 1)
    (hguard : CreatesFirst s c) (hs : system.step s c s') : s'.installed.length ≤ 1 := by
  obtain ⟨reply, hcall, -⟩ := hs
  rcases call_cases hcall with hsame | ⟨hinstalls, -, hcase⟩
  · rw [hsame.installed]
    exact hlength
  · have hnone : s.cacheSingleton = none := by
      rcases hcase with hnone | ⟨factory, cachePtr, hc⟩
      · exact hnone
      · exact hguard factory cachePtr hc
    rw [hinstalls.installed, installed_eq_nil h hnone]
    simp

theorem length_installed_of_step (h : History s) (hs : system.step s c s')
    (hlength : s'.installed.length ≤ 1) : s.installed.length ≤ 1 ∧ CreatesFirst s c := by
  obtain ⟨reply, hcall, -⟩ := hs
  constructor
  · rcases call_cases hcall with hsame | ⟨hinstalls, -, -⟩
    · rwa [hsame.installed] at hlength
    · rw [hinstalls.installed, List.length_append] at hlength
      omega
  · rintro factory cachePtr rfl
    have hinstalls := installs_of_create hcall
    rw [hinstalls.installed, List.length_append, List.length_singleton] at hlength
    have hnil : s.installed = [] := List.eq_nil_of_length_eq_zero (by omega)
    rw [h.last, hnil]
    rfl

/-- In every reachable state the singleton is kept if and only if no `create` has
    succeeded where a cache was installed already. -/
theorem singletonKept_iff_restrict (hr : system.Reachable s) :
    SingletonKept s ↔ (system.restrict CreatesFirst).Reachable s := by
  rw [(history_of_reachable hr).singletonKept_iff]
  refine hr.iff_restrict (fun s => s.installed.length ≤ 1) (fun s h => ?_) ?_ ?_
  · subst h
    simp [State.start]
  · intro s c s' hr hlength hguard hs
    exact length_installed_step (history_of_reachable hr) hlength hguard hs
  · intro s c s' hr hs hlength
    exact length_installed_of_step (history_of_reachable hr) hs hlength

/-- Two factories were obtained, and then both made a cache. -/
def twoFactories : State := ⟨some 1, 2, [0, 0], [], [0, 1]⟩

theorem twoFactories_reachable : system.Reachable twoFactories := by
  have h₁ := (TransitionSystem.Reachable.start rfl : system.Reachable .start)
  have h₂ := h₁.step (⟨.returned _, rfl, nofun⟩ : system.step _ (.createCacheFactory (.ok ())) _)
  have h₃ := h₂.step (⟨.returned _, rfl, nofun⟩ : system.step _ (.createCacheFactory (.ok ())) _)
  have h₄ := h₃.step (⟨.returned _, rfl, nofun⟩ : system.step _ (.create 0 (.ok 0)) _)
  exact h₄.step (⟨.returned _, rfl, nofun⟩ : system.step _ (.create 1 (.ok 0)) _)

theorem singletonKept_iff_restrict_twoFactories :
    SingletonKept twoFactories ↔ (system.restrict CreatesFirst).Reachable twoFactories :=
  singletonKept_iff_restrict twoFactories_reachable

theorem not_singletonKept_twoFactories : ¬ ∀ s, system.Reachable s → SingletonKept s := by
  intro h
  have hkept := (h twoFactories twoFactories_reachable).1 0 (by decide)
  simp [getCache, twoFactories] at hkept

end NodeGemfire.Binding
