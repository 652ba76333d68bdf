import NodeGemfire.Cache.Binding

/-!
# The life of Cache objects

The destructor of a `Cache` closes its native cache. `binding.js` keeps a reference to
the singleton, so that the collector leaves it alone, but not to a `Cache` that another
one has replaced; and the two may be for one native cache.

## Main definitions

- `CacheObjects.system` — scripts and the collector
- `CacheObjects.Accounted` — who has closed a native cache

## Main results

- `CacheObjects.singleton_closed_iff` — when the cache that `getCache` returns is closed
-/

namespace NodeGemfire.CacheObjects

open Binding (CacheObject CachePtr Reply History SingletonKept)

/-! ### The system -/

/-- `referenced` are the objects that scripts can reach other than through `getCache`;
    `closeCalls` and `collected` are the history of the run. -/
structure State where
  binding : Binding.State
  referenced : List CacheObject
  closeCalls : List CacheObject
  collected : List CacheObject

def State.start : State := ⟨.start, [], [], []⟩

/-- The objects that a script gets from a call. -/
def handedOut : Reply → List CacheObject
  | .returned (.cache cache) => [cache]
  | _ => []

/-- The objects whose `close` is called. -/
def closeCall : Binding.Call → List CacheObject
  | .close cache => [cache]
  | _ => []

inductive Label
  | call (call : Binding.Call)
  | forget (cache : CacheObject)
  | collect (cache : CacheObject)

inductive Step : State → Label → State → Prop
  | call (s : State) (c : Binding.Call) (reply : Reply) (binding : Binding.State)
      (hreferenced : ∀ cache ∈ closeCall c, cache ∈ s.referenced)
      (h : Binding.call s.binding c = some (reply, binding))
      (hcaught : ∀ exception, reply ≠ .uncaught exception) :
    Step s (.call c)
      { s with
        binding := binding
        referenced := handedOut reply ++ s.referenced
        closeCalls := closeCall c ++ s.closeCalls }
  -- the last reference of a script is gone
  | forget (s : State) (cache : CacheObject) :
    Step s (.forget cache) { s with referenced := s.referenced.filter (· ≠ cache) }
  -- `~Cache`
  | collect (s : State) (cache : CacheObject) (cachePtr : CachePtr)
      (hreferenced : cache ∉ s.referenced) (hsingleton : s.binding.cacheSingleton ≠ some cache)
      (halive : cache ∉ s.collected) (hptr : s.binding.caches[cache]? = some cachePtr) :
    Step s (.collect cache)
      { s with
        binding := Binding.close s.binding cachePtr
        collected := cache :: s.collected }

def system : TransitionSystem State Label where
  start s := s = .start
  step := Step

variable {s s' : State} {l : Label}

/-- The collector does nothing that a script could not do with `close`. -/
def bindingSimulation : Simulation system Binding.system where
  abs := State.binding
  start s h := by
    subst h
    rfl
  step s l s' _ hs := by
    cases hs with
    | call c reply binding _ h hcaught => exact .inr ⟨c, reply, h, hcaught⟩
    | forget => exact .inl rfl
    | collect cache cachePtr _ _ _ hptr =>
      refine .inr ⟨.close cache, .returned .undefined, ?_, nofun⟩
      rw [Binding.call, hptr]
      rfl

theorem binding_reachable (hr : system.Reachable s) : Binding.system.Reachable s.binding :=
  bindingSimulation.reachable hr

/-! ### Which objects there are -/

/-- Every `Cache` object has been assigned to the singleton. -/
theorem installed_eq_range {b : Binding.State} (hr : Binding.system.Reachable b) :
    b.installed = List.range b.caches.length := by
  refine hr.invariant (fun b => b.installed = List.range b.caches.length) (fun b h => ?_)
    fun b c b' _ ih hs => ?_
  · subst h
    rfl
  · obtain ⟨reply, hcall, -⟩ := hs
    rcases Binding.call_cases hcall with hsame | ⟨hinstalls, -, -⟩
    · rw [hsame.installed, hsame.caches]
      exact ih
    · rw [hinstalls.installed, hinstalls.caches, List.range_succ, ih]

/-- If the singleton is kept there is only one object. -/
theorem eq_of_singletonKept {b : Binding.State} (hr : Binding.system.Reachable b)
    (hkept : SingletonKept b) {cache other : CacheObject} (hcache : cache < b.caches.length)
    (hother : other < b.caches.length) : cache = other := by
  have hlength := (Binding.history_of_reachable hr).singletonKept_iff.mp hkept
  rw [installed_eq_range hr, List.length_range] at hlength
  have hzero {c : CacheObject} (hc : c < b.caches.length) : c = 0 :=
    Nat.lt_one_iff.mp (Nat.lt_of_lt_of_le hc hlength)
  rw [hzero hcache, hzero hother]

/-! ### Who has closed a cache -/

/-- The caches that are closed are those of the objects whose `close` was called or which
    have been collected; and the singleton has not been collected. -/
structure Accounted (s : State) : Prop where
  closed : ∀ cachePtr, cachePtr ∈ s.binding.closed ↔
    ∃ cache, s.binding.caches[cache]? = some cachePtr ∧
      (cache ∈ s.closeCalls ∨ cache ∈ s.collected)
  singleton : ∀ cache ∈ s.collected, s.binding.cacheSingleton ≠ some cache
  made : ∀ cache, cache ∈ s.closeCalls ∨ cache ∈ s.collected → cache < s.binding.caches.length

/-- `isClosed` guards `close`. -/
theorem mem_closed_close {b : Binding.State} {cachePtr other : CachePtr} :
    other ∈ (Binding.close b cachePtr).closed ↔ other = cachePtr ∨ other ∈ b.closed := by
  unfold Binding.close
  split
  · rename_i hclosed
    refine ⟨.inr, ?_⟩
    rintro (rfl | hmem)
    · exact hclosed
    · exact hmem
  · exact List.mem_cons

theorem caches_close (b : Binding.State) (cachePtr : CachePtr) :
    (Binding.close b cachePtr).caches = b.caches :=
  (Binding.unchanged_close b cachePtr).caches

/-- No cache is closed, and the objects are those that were and perhaps a new one. -/
structure Keeps (b b' : Binding.State) : Prop where
  closed : b'.closed = b.closed
  caches : ∃ made, b'.caches = b.caches ++ made

theorem Keeps.refl (b : Binding.State) : Keeps b b := ⟨rfl, [], (List.append_nil _).symm⟩

theorem keeps_create (b : Binding.State) (created : Except GeodeException CachePtr) :
    Keeps b (Binding.create b created).2 := by
  cases created with
  | error exception => exact .refl b
  | ok cachePtr => exact ⟨rfl, [cachePtr], rfl⟩

theorem keeps_configure (b : Binding.State) (created : Except GeodeException CachePtr) :
    Keeps b (Binding.configure b created).2 := by
  have hcreate := keeps_create b created
  unfold Binding.configure
  split
  · exact .refl b
  · generalize Binding.create b created = x at hcreate
    obtain ⟨reply, b'⟩ := x
    cases reply <;> exact hcreate

theorem keeps_createCacheFactory (b : Binding.State) (made : Except GeodeException Unit) :
    Keeps b (Binding.createCacheFactory b made).2 := by
  unfold Binding.createCacheFactory
  split
  · exact .refl b
  · cases made <;> exact ⟨rfl, [], (List.append_nil _).symm⟩

/-- A call of `close` closes one cache; every other call closes none. -/
theorem call_closes {b b' : Binding.State} {c : Binding.Call} {reply : Reply}
    (h : Binding.call b c = some (reply, b')) :
    (∃ cache cachePtr, c = .close cache ∧ b.caches[cache]? = some cachePtr ∧
      b' = Binding.close b cachePtr) ∨ closeCall c = [] ∧ Keeps b b' := by
  cases c with
  | close cache =>
    obtain ⟨cachePtr, hptr, heq⟩ := Option.map_eq_some_iff.mp h
    obtain ⟨rfl, rfl⟩ := Prod.mk.inj heq
    exact .inl ⟨cache, cachePtr, rfl, hptr, rfl⟩
  | configure created =>
    have hkeeps := keeps_configure b created
    rw [Option.some.inj h] at hkeeps
    exact .inr ⟨rfl, hkeeps⟩
  | createCacheFactory made =>
    have hkeeps := keeps_createCacheFactory b made
    rw [Option.some.inj h] at hkeeps
    exact .inr ⟨rfl, hkeeps⟩
  | create factory created =>
    have hkeeps := keeps_create b created
    rw [Binding.call] at h
    split at h
    · rw [Option.some.inj h] at hkeeps
      exact .inr ⟨rfl, hkeeps⟩
    · cases h
  | getCache =>
    obtain ⟨rfl, rfl⟩ := Prod.mk.inj (Option.some.inj h)
    exact .inr ⟨rfl, .refl _⟩

/-- A call leaves the singleton or installs a new object. -/
theorem singleton_of_call {b b' : Binding.State} {c : Binding.Call}
    {reply : Reply} (h : Binding.call b c = some (reply, b'))
    {cache : CacheObject} (hmade : cache < b.caches.length) (hne : b.cacheSingleton ≠ some cache) :
    b'.cacheSingleton ≠ some cache := by
  rcases Binding.call_cases h with hsame | ⟨hinstalls, -, -⟩
  · rw [hsame.cacheSingleton]
    exact hne
  · rw [hinstalls.cacheSingleton]
    intro heq
    rw [Option.some.inj heq] at hmade
    exact Nat.lt_irrefl _ hmade

theorem accounted_step (h : Accounted s) (hs : Step s l s') : Accounted s' := by
  cases hs with
  | forget cache => exact { h with }
  | collect cache cachePtr hreferenced hsingleton halive hptr =>
    refine ⟨fun other => ?_, ?_, ?_⟩
    · rw [mem_closed_close, caches_close, h.closed other]
      constructor
      · rintro (rfl | ⟨owner, howner, hclosed | hcollected⟩)
        · exact ⟨cache, hptr, .inr List.mem_cons_self⟩
        · exact ⟨owner, howner, .inl hclosed⟩
        · exact ⟨owner, howner, .inr (List.mem_cons_of_mem _ hcollected)⟩
      · rintro ⟨owner, howner, hclosed | hcollected⟩
        · exact .inr ⟨owner, howner, .inl hclosed⟩
        · rcases List.mem_cons.mp hcollected with rfl | hcollected
          · exact .inl (Option.some.inj (howner.symm.trans hptr))
          · exact .inr ⟨owner, howner, .inr hcollected⟩
    · intro owner howner
      rw [(Binding.unchanged_close s.binding cachePtr).cacheSingleton]
      rcases List.mem_cons.mp howner with rfl | howner
      · exact hsingleton
      · exact h.singleton owner howner
    · intro owner howner
      rw [caches_close]
      rcases howner with hclosed | hcollected
      · exact h.made owner (.inl hclosed)
      · rcases List.mem_cons.mp hcollected with rfl | hcollected
        · exact (List.getElem?_eq_some_iff.mp hptr).1
        · exact h.made owner (.inr hcollected)
  | call c reply binding hreferenced hcall _ =>
    have hsingleton : ∀ cache ∈ s.collected, binding.cacheSingleton ≠ some cache :=
      fun cache hcache => singleton_of_call hcall (h.made cache (.inr hcache))
        (h.singleton cache hcache)
    rcases call_closes hcall with ⟨cache, cachePtr, rfl, hptr, rfl⟩ | ⟨hnone, hclosed, made, hmade⟩
    · refine ⟨fun other => ?_, hsingleton, ?_⟩
      · rw [mem_closed_close, caches_close, h.closed other]
        constructor
        · rintro (rfl | ⟨owner, howner, hclosed | hcollected⟩)
          · exact ⟨cache, hptr, .inl List.mem_cons_self⟩
          · exact ⟨owner, howner, .inl (List.mem_cons_of_mem _ hclosed)⟩
          · exact ⟨owner, howner, .inr hcollected⟩
        · rintro ⟨owner, howner, hclosed | hcollected⟩
          · rcases List.mem_cons.mp hclosed with rfl | hclosed
            · exact .inl (Option.some.inj (howner.symm.trans hptr))
            · exact .inr ⟨owner, howner, .inl hclosed⟩
          · exact .inr ⟨owner, howner, .inr hcollected⟩
      · intro owner howner
        rw [caches_close]
        rcases howner with hclosed | hcollected
        · rcases List.mem_cons.mp hclosed with rfl | hclosed
          · exact (List.getElem?_eq_some_iff.mp hptr).1
          · exact h.made owner (.inl hclosed)
        · exact h.made owner (.inr hcollected)
    · rw [hnone, List.nil_append]
      -- the objects that were there are still for the same caches
      have hsame : ∀ owner, owner ∈ s.closeCalls ∨ owner ∈ s.collected →
          binding.caches[owner]? = s.binding.caches[owner]? := by
        intro owner howner
        rw [hmade, List.getElem?_append_left (h.made owner howner)]
      refine ⟨fun other => ?_, hsingleton, fun owner howner => ?_⟩
      · rw [hclosed, h.closed other]
        refine exists_congr fun owner => and_congr_left fun howner => ?_
        rw [hsame owner howner]
      · rw [hmade, List.length_append]
        exact Nat.lt_add_right _ (h.made owner howner)

theorem accounted_of_reachable (hr : system.Reachable s) : Accounted s := by
  refine hr.invariant Accounted (fun s h => ?_) fun _ _ _ _ => accounted_step
  subst h
  constructor <;> simp [State.start, Binding.State.start]

/-- **When the singleton's cache is closed**: its native cache is closed if and only if a
    script has called `close` on an object for it, or the collector has taken one that
    another has replaced. As long as the singleton is kept, only a script can close it. -/
theorem singleton_closed_iff (hr : system.Reachable s) {cache : CacheObject}
    {cachePtr : CachePtr} (hsingleton : Binding.getCache s.binding = .returned (.cache cache))
    (hptr : s.binding.caches[cache]? = some cachePtr) :
    (cachePtr ∈ s.binding.closed ↔ ∃ other, s.binding.caches[other]? = some cachePtr ∧
      (other ∈ s.closeCalls ∨ other ∈ s.collected ∧ other ≠ cache)) ∧
    (SingletonKept s.binding → (cachePtr ∈ s.binding.closed ↔ cache ∈ s.closeCalls)) := by
  have h := accounted_of_reachable hr
  have hcurrent : s.binding.cacheSingleton = some cache := by
    unfold Binding.getCache at hsingleton
    split at hsingleton
    · cases hsingleton
    · rename_i hsome
      cases hsingleton
      exact hsome
  have hclosed : cachePtr ∈ s.binding.closed ↔ ∃ other,
      s.binding.caches[other]? = some cachePtr ∧
        (other ∈ s.closeCalls ∨ other ∈ s.collected ∧ other ≠ cache) := by
    rw [h.closed cachePtr]
    refine exists_congr fun other => and_congr_right fun _ => or_congr_right ?_
    refine ⟨fun hcollected => ⟨hcollected, ?_⟩, And.left⟩
    rintro rfl
    exact h.singleton other hcollected hcurrent
  refine ⟨hclosed, fun hkept => ?_⟩
  have hmade := (List.getElem?_eq_some_iff.mp hptr).1
  rw [hclosed]
  constructor
  · rintro ⟨other, hother, hby⟩
    have hlt := (List.getElem?_eq_some_iff.mp hother).1
    have heq := eq_of_singletonKept (binding_reachable hr) hkept hlt hmade
    rcases hby with hcalled | ⟨-, hne⟩
    · exact heq ▸ hcalled
    · exact absurd heq hne
  · intro hcalled
    exact ⟨cache, hptr, .inl hcalled⟩

/-- Two factories have made a `Cache` each for one native cache, and a script has dropped
    the first; the collector has taken it. -/
def replaced : State := ⟨⟨some 1, 2, [0, 0], [0], [0, 1]⟩, [1], [], [0]⟩

theorem replaced_reachable : system.Reachable replaced := by
  have h₁ := (TransitionSystem.Reachable.start rfl : system.Reachable .start).step
    (.call _ (.createCacheFactory (.ok ())) _ _ (by simp [closeCall]) rfl nofun)
  have h₂ := h₁.step (.call _ (.createCacheFactory (.ok ())) _ _ (by simp [closeCall]) rfl nofun)
  have h₃ := h₂.step (.call _ (.create 0 (.ok 0)) _ _ (by simp [closeCall]) rfl nofun)
  have h₄ := h₃.step (.call _ (.create 1 (.ok 0)) _ _ (by simp [closeCall]) rfl nofun)
  have h₅ := h₄.step (.forget _ 0)
  exact h₅.step (.collect _ 0 0 (by decide) (by decide) (by decide) rfl)

/-- `getCache` returns a `Cache` that is closed, though nobody has called `close`. -/
theorem singleton_closed_iff_replaced : 0 ∈ replaced.binding.closed ↔
    ∃ other, replaced.binding.caches[other]? = some 0 ∧
      (other ∈ replaced.closeCalls ∨ other ∈ replaced.collected ∧ other ≠ 1) :=
  (singleton_closed_iff replaced_reachable rfl rfl).1

end NodeGemfire.CacheObjects
