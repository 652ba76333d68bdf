import NodeGemfire.Cache.Query
import NodeGemfire.Conversions.Strings
import NodeGemfire.Region.Lifetimes

/-!
# The regions of a cache

`createRegion`, `getRegion` and `rootRegions` of a `Cache`. To JavaScript the regions
form a directory under their names. Every call hands out new `Region` objects, also for
a region for which there are some already, and registers them for its events.

## Main definitions

- `RegionService` — the operations of the native client on its regions
- `Cache.createRegion`, `Cache.getRegion`, `Cache.rootRegions` — the methods
- `RegionDirectory` — what the client documents of its regions
- `CacheMethod.effect` — the methods, on a directory

## Main results

- `CacheMethod.behaves_as_directory` — the methods are operations on one directory
- `CacheMethod.objects_of_call` — the objects they hand out
-/

namespace NodeGemfire

/-! ### The native client -/

inductive RegionShortcut
  | proxy
  | cachingProxy
  | cachingProxyEntryLru
  | localRegion
  | localEntryLru
  deriving DecidableEq

/-- `none` is `invalidRegionShortcut`. -/
def getRegionShortcut (regionShortcutName : Bytes) : Option RegionShortcut :=
  if regionShortcutName = .ofAscii "PROXY" then some .proxy
  else if regionShortcutName = .ofAscii "CACHING_PROXY" then some .cachingProxy
  else if regionShortcutName = .ofAscii "CACHING_PROXY_ENTRY_LRU" then some .cachingProxyEntryLru
  else if regionShortcutName = .ofAscii "LOCAL" then some .localRegion
  else if regionShortcutName = .ofAscii "LOCAL_ENTRY_LRU" then some .localEntryLru
  else none

/-- The operations of a cache, of a region factory and of a region that the methods call. -/
inductive RegionServiceCall (ρ : Type)
  | createRegionFactory (regionShortcut : RegionShortcut)
  | setPoolName (poolName : Bytes)
  | create (name : Bytes)
  | getRegion (name : Bytes)
  | rootRegions
  | setCacheListener (regionPtr : ρ)

abbrev RegionServiceCall.Result {ρ : Type} : RegionServiceCall ρ → Type
  | .createRegionFactory _ | .setPoolName _ | .setCacheListener _ => Unit
  | .create _ => ρ
  | .getRegion _ => Option ρ
  | .rootRegions => List ρ

structure RegionService (σ ρ : Type) where
  platform : Platform
  native : (call : RegionServiceCall ρ) → σ → Except GeodeException call.Result × σ

/-- The state of the client, and the calls it has received, in order. -/
structure ServiceSession (σ ρ : Type) where
  state : σ
  calls : List (RegionServiceCall ρ)

namespace Cache

variable {σ ρ α β : Type} (client : RegionService σ ρ)

/-! ### C++ code -/

/-- A result or an exception, and the session it leaves. -/
abbrev Outcome (σ ρ α : Type) : Type := Except GeodeException α × ServiceSession σ ρ

def invoke (call : RegionServiceCall ρ) (s : ServiceSession σ ρ) : Outcome σ ρ call.Result :=
  ((client.native call s.state).1, ⟨(client.native call s.state).2, s.calls ++ [call]⟩)

def Outcome.andThen (x : Outcome σ ρ α) (next : α → ServiceSession σ ρ → Outcome σ ρ β) :
    Outcome σ ρ β :=
  match x with
  | (.ok a, s) => next a s
  | (.error exception, s) => (.error exception, s)

/-- `*Nan::Utf8String(value)`. -/
def textOf (value : JsValue) : Bytes :=
  match value with
  | .string text => utf8String text
  | value => utf8String (client.platform.toPropertyKey value)

/-! ### The methods -/

/-- How a method ends: with an exception scheduled or nothing to return, with `Region`
    objects for these native regions, or with an exception that nothing catches. -/
inductive RegionsReturn (ρ : Type)
  | undefined
  | region (regionPtr : ρ)
  | regions (regionPtrs : List ρ)
  | uncaught (exception : GeodeException)

def RegionsReturn.made : RegionsReturn ρ → List ρ
  | .region regionPtr => [regionPtr]
  | .regions regionPtrs => regionPtrs
  | .undefined | .uncaught _ => []

/-- `Region::NewInstance` for each of the regions: `RegionEventRegistry::add` sets the
    listener of the native region before it inserts the object. -/
def setCacheListeners : List ρ → ServiceSession σ ρ → Outcome σ ρ Unit
  | [], s => (.ok (), s)
  | regionPtr :: regionPtrs, s =>
    (invoke client (.setCacheListener regionPtr) s).andThen fun _ s =>
      setCacheListeners regionPtrs s

def newInstances (returned : RegionsReturn ρ) (s : ServiceSession σ ρ) :
    RegionsReturn ρ × ServiceSession σ ρ :=
  match setCacheListeners client returned.made s with
  | (.ok (), s) => (returned, s)
  | (.error exception, s) => (.uncaught exception, s)

/-- What `createRegion` reads from its arguments. -/
structure RegionConfiguration where
  name : JsString
  regionShortcut : RegionShortcut
  poolName : Option Bytes

def readConfiguration (info : List JsValue) : Except String RegionConfiguration :=
  if info.length < 1 then
    .error ("createRegion: You must pass the name of a GemFire region to create " ++
      "and a region configuration object.")
  else
    match arg info 0 with
    | .string name =>
      if (arg info 1).isObject then
        let regionType := (arg info 1).get (.ofAscii "type")
        let regionPoolName := (arg info 1).get (.ofAscii "poolName")
        if regionType.isUndefined then
          .error "createRegion: The region configuration object must have a type property."
        else
          match getRegionShortcut (textOf client regionType) with
          | none => .error "createRegion: This type is not a valid GemFire client region type"
          | some regionShortcut =>
            .ok ⟨name, regionShortcut,
              if regionPoolName.isUndefined then none else some (textOf client regionPoolName)⟩
      else .error "createRegion: You must pass a configuration object as the second argument."
    | _ => .error "createRegion: You must pass a string as the name of a GemFire region."

def setPoolName (poolName : Option Bytes) (s : ServiceSession σ ρ) : Outcome σ ρ Unit :=
  match poolName with
  | none => (.ok (), s)
  | some poolName => invoke client (.setPoolName poolName) s

/-- The native calls of `createRegion`, inside the `try`. -/
def createNative (configuration : RegionConfiguration) (s : ServiceSession σ ρ) : Outcome σ ρ ρ :=
  (invoke client (.createRegionFactory configuration.regionShortcut) s).andThen fun _ s =>
    (setPoolName client configuration.poolName s).andThen fun _ s =>
      invoke client (.create (utf8String configuration.name)) s

def createRegion (info : List JsValue) (s : ServiceSession σ ρ) :
    Isolate (RegionsReturn ρ × ServiceSession σ ρ) :=
  match readConfiguration client info with
  | .error message => do
    nanThrowError message
    pure (.undefined, s)
  | .ok configuration =>
    match createNative client configuration s with
    | (.error exception, s) => do
      throwGemfireException exception
      pure (.undefined, s)
    | (.ok regionPtr, s) => pure (newInstances client (.region regionPtr) s)

/-- The native `getRegion` is called outside of any `try`. -/
def getRegion (info : List JsValue) (s : ServiceSession σ ρ) :
    Isolate (RegionsReturn ρ × ServiceSession σ ρ) :=
  if info.length ≠ 1 then do
    nanThrowError "You must pass the name of a GemFire region to getRegion."
    pure (.undefined, s)
  else
    match arg info 0 with
    | .string name =>
      match invoke client (.getRegion (utf8String name)) s with
      | (.error exception, s) => pure (.uncaught exception, s)
      | (.ok none, s) => pure (.undefined, s)
      | (.ok (some regionPtr), s) => pure (newInstances client (.region regionPtr) s)
    | _ => do
      nanThrowError "You must pass a string as the name of a GemFire region to getRegion."
      pure (.undefined, s)

def rootRegions (s : ServiceSession σ ρ) : Isolate (RegionsReturn ρ × ServiceSession σ ρ) :=
  match invoke client .rootRegions s with
  | (.error exception, s) => pure (.uncaught exception, s)
  | (.ok regions, s) => pure (newInstances client (.regions regions) s)

end Cache

inductive CacheMethod
  | createRegion
  | getRegion
  | rootRegions

def CacheMethod.call {σ ρ : Type} (client : RegionService σ ρ) (method : CacheMethod)
    (info : List JsValue) (s : ServiceSession σ ρ) :
    Isolate (Cache.RegionsReturn ρ × ServiceSession σ ρ) :=
  match method with
  | .createRegion => Cache.createRegion client info s
  | .getRegion => Cache.getRegion client info s
  | .rootRegions => Cache.rootRegions client s

/-! ### Regions as a directory -/

/-- Names under which the client keeps regions: they fit into a NUL-terminated text in
    UTF-8, and are not paths. -/
def IsRegionName (name : JsString) : Prop := HasUtf8 name ∧ 0x2F ∉ utf8String name

abbrev RegionName : Type := {name : JsString // IsRegionName name}

/-- The name a string stands for: up to its first NUL, and with lone surrogates replaced. -/
def regionName (name : JsString) : Option RegionName :=
  if h : 0x2F ∈ utf8String name then none
  else some ⟨nanNew (utf8String name), hasUtf8_nanNew _, by
    rwa [show utf8String (nanNew (utf8String name)) = utf8String name from
      fieldName_nanNew_fieldName name]⟩

theorem utf8String_regionName {name : JsString} {n : RegionName} (h : regionName name = some n) :
    utf8String n = utf8String name := by
  unfold regionName at h
  split at h
  · cases h
  · obtain rfl := Option.some.inj h
    exact fieldName_nanNew_fieldName name

theorem utf8String_injective {n m : RegionName} (h : utf8String n = utf8String m) : n = m := by
  have hback (n : RegionName) : nanNew (utf8String n) = n := nanNew_fieldName_eq_iff.mpr n.2.1
  rw [Subtype.ext_iff, ← hback n, ← hback m, h]

/-- What the client documents of its regions: `find` is what it has under a name or a
    path. A region that is created was not there, and is a root region; where `create`
    throws, and apart from it, nothing changes. -/
structure RegionDirectory {σ ρ : Type} (client : RegionService σ ρ) where
  find : σ → Bytes → Option ρ
  roots : σ → Set ρ
  unchanged : ∀ call state, (∀ name, call ≠ .create name) →
    find (client.native call state).2 = find state ∧
      roots (client.native call state).2 = roots state
  getRegion : ∀ name state found, (client.native (.getRegion name) state).1 = .ok found →
    found = find state name
  rootRegions : ∀ state regions, (client.native .rootRegions state).1 = .ok regions →
    ∀ region, region ∈ regions ↔ region ∈ roots state
  created : ∀ name state region, (client.native (.create name) state).1 = .ok region →
    find state name = none ∧ find (client.native (.create name) state).2 name = some region ∧
      (∀ other, 0x2F ∉ other → other ≠ name →
        find (client.native (.create name) state).2 other = find state other) ∧
      roots (client.native (.create name) state).2 = insert region (roots state)
  notCreated : ∀ name state exception, (client.native (.create name) state).1 = .error exception →
    find (client.native (.create name) state).2 = find state ∧
      roots (client.native (.create name) state).2 = roots state

/-- Regions by name. -/
structure Directory (ρ : Type) where
  find : RegionName → Option ρ
  roots : Set ρ

/-- A new root region. -/
def Directory.add {ρ : Type} (d : Directory ρ) (name : Option RegionName) (region : ρ) :
    Directory ρ where
  find n := if name = some n then some region else d.find n
  roots := insert region d.roots

namespace CacheMethod

variable {σ ρ : Type}

/-- The string under which a method creates or finds a region. -/
def nameArgument (info : List JsValue) : Option RegionName :=
  match arg info 0 with
  | .string name => regionName name
  | _ => none

/-- A region that `createRegion` returns is new in the directory. -/
def effect (d : Directory ρ) (method : CacheMethod) (info : List JsValue) :
    Cache.RegionsReturn ρ → Directory ρ
  | .region regionPtr =>
    match method with
    | .createRegion => d.add (nameArgument info) regionPtr
    | _ => d
  | _ => d

/-- What a method that schedules no exception tells of the directory. -/
def Agrees (d : Directory ρ) (method : CacheMethod) (info : List JsValue) :
    Cache.RegionsReturn ρ → Prop
  | .region regionPtr => ∀ n, nameArgument info = some n →
    d.find n = match method with
      | .createRegion => none
      | _ => some regionPtr
  | .regions regionPtrs => ∀ regionPtr, regionPtr ∈ regionPtrs ↔ regionPtr ∈ d.roots
  | .undefined => method ≠ .createRegion ∧ ∀ n, nameArgument info = some n → d.find n = none
  | .uncaught _ => True

end CacheMethod

variable {σ ρ : Type} {client : RegionService σ ρ}

namespace RegionDirectory

variable (D : RegionDirectory client)

/-- The client has the same regions in both states. -/
structure Same (state state' : σ) : Prop where
  find : D.find state' = D.find state
  roots : D.roots state' = D.roots state

/-- The client has the regions of the directory. -/
structure Shows (d : Directory ρ) (state : σ) : Prop where
  find : ∀ n : RegionName, D.find state (utf8String n) = d.find n
  roots : D.roots state = d.roots

variable {D} {d : Directory ρ} {state state' state'' : σ}

theorem Same.refl (state : σ) : D.Same state state := ⟨rfl, rfl⟩

theorem Same.trans (h : D.Same state state') (h' : D.Same state' state'') :
    D.Same state state'' := ⟨h'.find.trans h.find, h'.roots.trans h.roots⟩

theorem Shows.of_same (h : D.Shows d state) (hsame : D.Same state state') : D.Shows d state' where
  find n := by
    rw [hsame.find]
    exact h.find n
  roots := hsame.roots.trans h.roots

end RegionDirectory

namespace Cache

open RegionDirectory

variable {D : RegionDirectory client} {d : Directory ρ} {s : ServiceSession σ ρ}

theorem same_invoke {call : RegionServiceCall ρ} (h : ∀ name, call ≠ .create name)
    (s : ServiceSession σ ρ) : D.Same s.state (invoke client call s).2.state :=
  ⟨(D.unchanged call s.state h).1, (D.unchanged call s.state h).2⟩

theorem same_andThen {α β : Type} {x : Outcome σ ρ α}
    {next : α → ServiceSession σ ρ → Outcome σ ρ β} (hx : D.Same s.state x.2.state)
    (hnext : ∀ a s', D.Same s'.state (next a s').2.state) :
    D.Same s.state (x.andThen next).2.state := by
  obtain ⟨result, s'⟩ := x
  cases result with
  | ok a => exact hx.trans (hnext a s')
  | error exception => exact hx

theorem same_setCacheListeners (regionPtrs : List ρ) (s : ServiceSession σ ρ) :
    D.Same s.state (setCacheListeners client regionPtrs s).2.state := by
  induction regionPtrs generalizing s with
  | nil => exact .refl _
  | cons regionPtr regionPtrs ih => exact same_andThen (same_invoke (by simp) s) fun _ => ih

/-- The listener is set, or the process ends. -/
theorem newInstances_cases (returned : RegionsReturn ρ) (s : ServiceSession σ ρ) :
    D.Same s.state (newInstances client returned s).2.state ∧
      ((newInstances client returned s).1 = returned ∨
        ∃ exception, (newInstances client returned s).1 = .uncaught exception) := by
  have hsame : D.Same s.state (setCacheListeners client returned.made s).2.state :=
    same_setCacheListeners returned.made s
  unfold newInstances
  split
  · rename_i s' heq
    rw [heq] at hsame
    exact ⟨hsame, .inl rfl⟩
  · rename_i exception s' heq
    rw [heq] at hsame
    exact ⟨hsame, .inr ⟨exception, rfl⟩⟩

theorem same_setPoolName (poolName : Option Bytes) (s : ServiceSession σ ρ) :
    D.Same s.state (setPoolName client poolName s).2.state := by
  cases poolName with
  | none => exact .refl _
  | some poolName => exact same_invoke (by simp) s

/-- A region that was made was not there before, and is found from then on. -/
theorem shows_created (h : D.Shows d s.state) {name : JsString} {region : ρ}
    (hcreate : (client.native (.create (utf8String name)) s.state).1 = .ok region) :
    (∀ n, regionName name = some n → d.find n = none) ∧
      D.Shows (d.add (regionName name) region)
        (client.native (.create (utf8String name)) s.state).2 := by
  obtain ⟨hnone, hsome, hothers, hroots⟩ := D.created _ _ _ hcreate
  refine ⟨fun n hn => ?_, fun n => ?_, ?_⟩
  · rw [← h.find, utf8String_regionName hn]
    exact hnone
  · by_cases hn : regionName name = some n
    · simp only [Directory.add, if_pos hn, utf8String_regionName hn]
      exact hsome
    · simp only [Directory.add, if_neg hn]
      rw [← h.find]
      refine hothers _ n.2.2 fun heq => hn ?_
      -- a name with the same text is the same name
      have hplain : 0x2F ∉ utf8String name := heq ▸ n.2.2
      obtain ⟨m, hm⟩ : ∃ m, regionName name = some m := by
        rw [regionName, dif_neg hplain]
        exact ⟨_, rfl⟩
      rw [hm, utf8String_injective ((utf8String_regionName hm).trans heq.symm)]
  · rw [hroots, h.roots]
    rfl

/-- The native calls of `createRegion` make the region, or leave all as it was. -/
theorem createNative_cases (configuration : RegionConfiguration) (h : D.Shows d s.state) :
    (∃ exception s', createNative client configuration s = (.error exception, s') ∧
      D.Shows d s'.state) ∨
    ∃ region s', createNative client configuration s = (.ok region, s') ∧
      (∀ n, regionName configuration.name = some n → d.find n = none) ∧
      D.Shows (d.add (regionName configuration.name) region) s'.state := by
  unfold createNative
  have hfactory : D.Same s.state
      (invoke client (.createRegionFactory configuration.regionShortcut) s).2.state :=
    same_invoke (by simp) s
  generalize invoke client (.createRegionFactory configuration.regionShortcut) s = x at hfactory ⊢
  obtain ⟨exception | ⟨⟩, s₁⟩ := x
  · exact .inl ⟨exception, s₁, rfl, h.of_same hfactory⟩
  have hpool : D.Same s₁.state (setPoolName client configuration.poolName s₁).2.state :=
    same_setPoolName configuration.poolName s₁
  simp only [Outcome.andThen]
  generalize setPoolName client configuration.poolName s₁ = y at hpool ⊢
  obtain ⟨exception | ⟨⟩, s₂⟩ := y
  · exact .inl ⟨exception, s₂, rfl, h.of_same (hfactory.trans hpool)⟩
  have h₂ : D.Shows d s₂.state := h.of_same (hfactory.trans hpool)
  cases hcreate : (client.native (.create (utf8String configuration.name)) s₂.state).1 with
  | error exception =>
    obtain ⟨hfind, hroots⟩ := D.notCreated _ _ _ hcreate
    refine .inl ⟨exception, (invoke client (.create (utf8String configuration.name)) s₂).2, ?_,
      h₂.of_same ⟨hfind, hroots⟩⟩
    simp only [invoke, hcreate]
  | ok region =>
    obtain ⟨hnone, hshows⟩ := shows_created h₂ hcreate
    refine .inr ⟨region, (invoke client (.create (utf8String configuration.name)) s₂).2, ?_,
      hnone, hshows⟩
    simp only [invoke, hcreate]

end Cache

namespace CacheMethod

open RegionDirectory

variable {D : RegionDirectory client} {d d' : Directory ρ} {s s' : ServiceSession σ ρ}

/-- What a call leaves, unless an exception nothing catches ends the process. -/
structure Carried (D : RegionDirectory client) (d : Directory ρ) (method : CacheMethod)
    (info : List JsValue) (result : Isolate (Cache.RegionsReturn ρ × ServiceSession σ ρ)) :
    Prop where
  shows : (∀ exception, result.value.1 ≠ .uncaught exception) →
    D.Shows (method.effect d info result.value.1) result.value.2.state
  agrees : result.thrown = [] → method.Agrees d info result.value.1
  undefined : result.thrown ≠ [] → result.value.1 = .undefined

theorem carried_thrown (h : D.Shows d s.state) (method : CacheMethod) (info : List JsValue)
    {x : Isolate Unit} (hx : x.thrown ≠ []) :
    Carried D d method info (x >>= fun _ => pure (.undefined, s)) where
  shows _ := h
  agrees hthrown := by
    rw [Isolate.bind_thrown, Isolate.pure_thrown, List.append_nil] at hthrown
    exact absurd hthrown hx
  undefined _ := rfl

theorem carried_uncaught (method : CacheMethod) (info : List JsValue) (exception : GeodeException)
    (s : ServiceSession σ ρ) : Carried D d method info (pure (.uncaught exception, s)) where
  shows h := absurd rfl (h exception)
  agrees _ := trivial
  undefined h := absurd rfl h

theorem carried_newInstances {method : CacheMethod} {info : List JsValue}
    (returned : Cache.RegionsReturn ρ) (h : D.Shows (method.effect d info returned) s.state)
    (hagrees : method.Agrees d info returned) :
    Carried D d method info (pure (Cache.newInstances client returned s)) := by
  obtain ⟨hsame, hreturned | ⟨exception, huncaught⟩⟩ :=
    Cache.newInstances_cases (D := D) returned s
  · refine ⟨fun _ => ?_, fun _ => ?_, fun hthrown => absurd rfl hthrown⟩
    · rw [Isolate.pure_value, hreturned]
      exact h.of_same hsame
    · rw [Isolate.pure_value, hreturned]
      exact hagrees
  · refine ⟨fun hnone => absurd huncaught (hnone exception), fun _ => ?_,
      fun hthrown => absurd rfl hthrown⟩
    rw [Isolate.pure_value, huncaught]
    trivial

theorem readConfiguration_name {info : List JsValue} {configuration : Cache.RegionConfiguration}
    (h : Cache.readConfiguration client info = .ok configuration) :
    nameArgument info = regionName configuration.name := by
  unfold Cache.readConfiguration at h
  split at h
  · cases h
  · split at h
    · rename_i name harg
      split at h
      · simp only at h
        split at h
        · cases h
        · split at h
          · cases h
          · cases h
            rw [nameArgument, harg]
      · cases h
    · cases h

theorem carried_createRegion (h : D.Shows d s.state) (info : List JsValue) :
    Carried D d .createRegion info (Cache.createRegion client info s) := by
  unfold Cache.createRegion
  split
  · exact carried_thrown h _ _ (by simp)
  · rename_i configuration hconfiguration
    have hname := readConfiguration_name hconfiguration
    obtain ⟨exception, s', hnative, hshows⟩ | ⟨region, s', hnative, hnew, hshows⟩ :=
      Cache.createNative_cases configuration h
    · rw [hnative]
      exact carried_thrown hshows _ _ (by simp)
    · rw [hnative]
      rw [← hname] at hnew hshows
      exact carried_newInstances (.region region) hshows hnew

theorem carried_getRegion (h : D.Shows d s.state) (info : List JsValue) :
    Carried D d .getRegion info (Cache.getRegion client info s) := by
  unfold Cache.getRegion
  split
  · exact carried_thrown h _ _ (by simp)
  · split
    · rename_i name harg
      have hname : nameArgument info = regionName name := by rw [nameArgument, harg]
      have hsame : D.Same s.state (Cache.invoke client (.getRegion (utf8String name)) s).2.state :=
        Cache.same_invoke (by simp) s
      have hfind := D.getRegion (utf8String name) s.state
      -- what is found is what the directory has under the name
      have hlookup {found : Option ρ}
          (hfound : (Cache.invoke client (.getRegion (utf8String name)) s).1 = .ok found)
          (n : RegionName) (hn : nameArgument info = some n) : d.find n = found := by
        rw [← h.find, utf8String_regionName (hname ▸ hn)]
        exact (hfind found hfound).symm
      generalize Cache.invoke client (.getRegion (utf8String name)) s = x at hsame hlookup
      obtain ⟨exception | _ | region, s'⟩ := x
      · exact carried_uncaught _ _ _ _
      · exact
          { shows := fun _ => h.of_same hsame
            agrees := fun _ => ⟨CacheMethod.noConfusion, hlookup rfl⟩
            undefined := fun hthrown => absurd rfl hthrown }
      · exact carried_newInstances (.region region) (h.of_same hsame) (hlookup rfl)
    · exact carried_thrown h _ _ (by simp)

theorem carried_rootRegions (h : D.Shows d s.state) (info : List JsValue) :
    Carried D d .rootRegions info (Cache.rootRegions client s) := by
  unfold Cache.rootRegions
  have hsame : D.Same s.state (Cache.invoke client .rootRegions s).2.state :=
    Cache.same_invoke (by simp) s
  have hroots := D.rootRegions s.state
  have hlist {regions : List ρ} (hok : (Cache.invoke client .rootRegions s).1 = .ok regions)
      (region : ρ) : region ∈ regions ↔ region ∈ d.roots := by
    rw [← h.roots]
    exact hroots regions hok region
  generalize Cache.invoke client .rootRegions s = x at hsame hlist
  obtain ⟨exception | regions, s'⟩ := x
  · exact carried_uncaught _ _ _ _
  · exact carried_newInstances (.regions regions) (h.of_same hsame) (hlist rfl)

theorem carried_call (h : D.Shows d s.state) (method : CacheMethod) (info : List JsValue) :
    Carried D d method info (method.call client info s) := by
  cases method with
  | createRegion => exact carried_createRegion h info
  | getRegion => exact carried_getRegion h info
  | rootRegions => exact carried_rootRegions h info

/-- The calls of a script, one after the other, on the directory and on the client. -/
def after (client : RegionService σ ρ) :
    List (CacheMethod × List JsValue) → Directory ρ → ServiceSession σ ρ →
      Option (Directory ρ × ServiceSession σ ρ)
  | [], d, s => some (d, s)
  | (method, info) :: calls, d, s =>
    match (method.call client info s).value with
    | (.uncaught _, _) => none
    | (returned, s') => after client calls (method.effect d info returned) s'

theorem shows_after (h : D.Shows d s.state) {calls : List (CacheMethod × List JsValue)}
    (hafter : after client calls d s = some (d', s')) : D.Shows d' s'.state := by
  induction calls generalizing d s with
  | nil =>
    cases hafter
    exact h
  | cons call calls ih =>
    obtain ⟨method, info⟩ := call
    have hshows := (carried_call h method info).shows
    rw [after] at hafter
    split at hafter
    · cases hafter
    · rename_i returned s₁ hreturned heq
      rw [heq] at hshows
      exact ih (hshows hreturned) hafter

/-- **One directory**: whatever calls a script has made, the next call tells of the regions
    what the directory says that those calls have made of it: `createRegion` returns a
    region only under a name that was free, and it is found under this name from then on;
    `getRegion` returns what is found under the name, or `undefined` where nothing is; and
    `rootRegions` returns the root regions. A call that schedules an exception changes
    nothing. -/
theorem behaves_as_directory (D : RegionDirectory client) (h : D.Shows d s.state)
    {calls : List (CacheMethod × List JsValue)} (hafter : after client calls d s = some (d', s'))
    (method : CacheMethod) (info : List JsValue) :
    ((method.call client info s').thrown = [] →
      method.Agrees d' info (method.call client info s').value.1) ∧
    ((∀ exception, (method.call client info s').value.1 ≠ .uncaught exception) →
      D.Shows (method.effect d' info (method.call client info s').value.1)
        (method.call client info s').value.2.state) ∧
    ((method.call client info s').thrown ≠ [] →
      method.effect d' info (method.call client info s').value.1 = d') := by
  obtain ⟨hshows, hagrees, hundefined⟩ := carried_call (shows_after h hafter) method info
  refine ⟨hagrees, hshows, fun hthrown => ?_⟩
  rw [hundefined hthrown]
  rfl

end CacheMethod

/-! ### The objects that are handed out -/

namespace Cache

/-- The native regions whose listener has been set, in order. -/
def listened (s : ServiceSession σ ρ) : List ρ :=
  s.calls.filterMap fun
    | .setCacheListener regionPtr => some regionPtr
    | _ => none

variable {s : ServiceSession σ ρ}

theorem listened_invoke {call : RegionServiceCall ρ}
    (h : ∀ regionPtr, call ≠ .setCacheListener regionPtr) :
    listened (invoke client call s).2 = listened s := by
  cases call with
  | setCacheListener regionPtr => exact absurd rfl (h regionPtr)
  | _ => simp [listened, invoke]

theorem listened_andThen {α β : Type} {x : Outcome σ ρ α}
    {next : α → ServiceSession σ ρ → Outcome σ ρ β} (hx : listened x.2 = listened s)
    (hnext : ∀ a s', listened (next a s').2 = listened s') :
    listened (x.andThen next).2 = listened s := by
  obtain ⟨result, s'⟩ := x
  cases result with
  | ok a => exact (hnext a s').trans hx
  | error exception => exact hx

theorem listened_createNative (configuration : RegionConfiguration) :
    listened (createNative client configuration s).2 = listened s := by
  refine listened_andThen (listened_invoke (by simp)) fun _ s => ?_
  refine listened_andThen ?_ fun _ s => listened_invoke (by simp)
  cases configuration.poolName with
  | none => rfl
  | some poolName => exact listened_invoke (by simp)

theorem listened_setCacheListeners {regionPtrs : List ρ}
    (h : (setCacheListeners client regionPtrs s).1 = .ok ()) :
    listened (setCacheListeners client regionPtrs s).2 = listened s ++ regionPtrs := by
  induction regionPtrs generalizing s with
  | nil => exact (List.append_nil _).symm
  | cons regionPtr regionPtrs ih =>
    have hset : listened (invoke client (.setCacheListener regionPtr) s).2 =
        listened s ++ [regionPtr] := by
      simp [listened, invoke]
    rw [setCacheListeners] at h ⊢
    generalize invoke client (.setCacheListener regionPtr) s = x at h hset ⊢
    obtain ⟨exception | ⟨⟩, s'⟩ := x
    · cases h
    · rw [Outcome.andThen] at h ⊢
      rw [ih h, hset, List.append_assoc, List.singleton_append]

theorem listened_newInstances {returned : RegionsReturn ρ}
    (h : ∀ exception, (newInstances client returned s).1 ≠ .uncaught exception) :
    listened (newInstances client returned s).2 =
      listened s ++ (newInstances client returned s).1.made := by
  have hset : (setCacheListeners client returned.made s).1 = .ok () →
      listened (setCacheListeners client returned.made s).2 = listened s ++ returned.made :=
    listened_setCacheListeners
  unfold newInstances at h ⊢
  generalize setCacheListeners client returned.made s = x at h hset ⊢
  obtain ⟨exception | ⟨⟩, s'⟩ := x
  · exact absurd rfl (h exception)
  · exact hset rfl

/-- What the call of a method has set the listener of, unless the process has ended. -/
def Listens (s : ServiceSession σ ρ) (result : RegionsReturn ρ × ServiceSession σ ρ) : Prop :=
  (∀ exception, result.1 ≠ .uncaught exception) → listened result.2 = listened s ++ result.1.made

theorem listens_undefined {s' : ServiceSession σ ρ} (h : listened s' = listened s) :
    Listens s (.undefined, s') := fun _ => h.trans (List.append_nil _).symm

theorem listens_uncaught {s' : ServiceSession σ ρ} (exception : GeodeException) :
    Listens s (.uncaught exception, s') := fun h => absurd rfl (h exception)

theorem listens_newInstances {s' : ServiceSession σ ρ} (h : listened s' = listened s)
    (returned : RegionsReturn ρ) : Listens s (newInstances client returned s') := by
  intro hreturned
  rw [← h]
  exact listened_newInstances hreturned

theorem listens_createRegion (info : List JsValue) :
    Listens s (createRegion client info s).value := by
  unfold createRegion
  split
  · exact listens_undefined rfl
  · rename_i configuration hconfiguration
    have hnative : listened (createNative client configuration s).2 = listened s :=
      listened_createNative configuration
    generalize createNative client configuration s = x at hnative ⊢
    obtain ⟨exception | regionPtr, s'⟩ := x
    · exact listens_undefined hnative
    · exact listens_newInstances hnative _

theorem listens_getRegion (info : List JsValue) : Listens s (getRegion client info s).value := by
  unfold getRegion
  split
  · exact listens_undefined rfl
  · split
    · rename_i name harg
      have hnative : listened (invoke client (.getRegion (utf8String name)) s).2 = listened s :=
        listened_invoke (by simp)
      generalize invoke client (.getRegion (utf8String name)) s = x at hnative ⊢
      obtain ⟨exception | _ | region, s'⟩ := x
      · exact listens_uncaught _
      · exact listens_undefined hnative
      · exact listens_newInstances hnative _
    · exact listens_undefined rfl

theorem listens_rootRegions : Listens s (rootRegions client s).value := by
  unfold rootRegions
  have hnative : listened (invoke client .rootRegions s).2 = listened s :=
    listened_invoke (by simp)
  generalize invoke client .rootRegions s = x at hnative ⊢
  obtain ⟨exception | regions, s'⟩ := x
  · exact listens_uncaught _
  · exact listens_newInstances hnative _

end Cache

theorem CacheMethod.listens_call (method : CacheMethod) (info : List JsValue)
    (s : ServiceSession σ ρ) : Cache.Listens s (method.call client info s).value := by
  cases method with
  | createRegion => exact Cache.listens_createRegion info
  | getRegion => exact Cache.listens_getRegion info
  | rootRegions => exact Cache.listens_rootRegions

/-- **New objects**: a script that runs may call a method of the cache in every state that
    scripts, the collector, the thread pool and the region events have reached. Unless an
    exception ends the process, the call sets the listener of the regions it returns
    objects for, and of no others; and wherever these objects are allocated, they are
    registered beside those that were, and the script can reach them. -/
theorem CacheMethod.objects_of_call {p : Platform} {state : RegionObjects.State ρ}
    (hr : (RegionObjects.system p).Reachable state) (hscript : state.registry.loop.RunsScript)
    (method : CacheMethod) (info : List JsValue) (s : ServiceSession σ ρ)
    (hreturned : ∀ exception, (method.call client info s).value.1 ≠ .uncaught exception)
    {objects : List (RegionEventRegistry.Region ρ)}
    (hobjects : objects.map (·.regionPtr) = (method.call client info s).value.1.made)
    (hnew : (objects.map (·.address) ++ state.alive.map (·.address)).Nodup) :
    Cache.listened (method.call client info s).value.2 =
        Cache.listened s ++ objects.map (·.regionPtr) ∧
      ∃ state', (RegionObjects.system p).Reachable state' ∧
        state'.alive.Perm (objects ++ state.alive) ∧
        ∀ address, address ∈ state'.referenced ↔
          address ∈ objects.map (·.address) ∨ address ∈ state.referenced := by
  obtain ⟨state', hleads, halive, hreferenced⟩ :=
    RegionObjects.leads_newInstances hscript hnew
  refine ⟨?_, state', hr.of_leads hleads, halive, hreferenced⟩
  rw [hobjects]
  exact method.listens_call info s hreturned

/-- A client that keeps its regions in the order in which they were made. -/
def memoryService : RegionService (List (Bytes × ℕ)) ℕ where
  platform := nativeClient
  native
    | .create name, table =>
      if 0x2F ∈ name then
        (.error ⟨"apache::geode::client::IllegalArgumentException", "a path"⟩, table)
      else if (table.lookup name).isSome then
        (.error ⟨"apache::geode::client::RegionExistsException", "region exists in local cache"⟩,
          table)
      else (.ok table.length, table ++ [(name, table.length)])
    | .getRegion name, table => (.ok (table.lookup name), table)
    | .rootRegions, table => (.ok (table.map (·.2)), table)
    | .createRegionFactory _, table | .setPoolName _, table | .setCacheListener _, table =>
      (.ok (), table)

theorem lookup_append {table : List (Bytes × ℕ)} {name : Bytes} (region : ℕ) (other : Bytes)
    (hnone : table.lookup name = none) :
    (table ++ [(name, region)]).lookup other =
      if other = name then some region else table.lookup other := by
  induction table with
  | nil =>
    by_cases h : other = name
    · simp [h]
    · simp [h, beq_false_of_ne h, List.lookup_cons]
  | cons entry table ih =>
    obtain ⟨key, value⟩ := entry
    have hne : name ≠ key := by
      rintro rfl
      simp at hnone
    have hrest : table.lookup name = none := by
      rwa [List.lookup_cons, beq_false_of_ne hne] at hnone
    rw [List.cons_append, List.lookup_cons, List.lookup_cons, ih hrest]
    by_cases h : other = key
    · simp [h, hne.symm]
    · simp [beq_false_of_ne h]

/-- It documents its regions as the client does. -/
def memoryDirectory : RegionDirectory memoryService where
  find table name := table.lookup name
  roots table := {region | region ∈ table.map (·.2)}
  unchanged call table h := by
    cases call with
    | create name => exact absurd rfl (h name)
    | _ => exact ⟨rfl, rfl⟩
  getRegion name table found h := (Except.ok.inj h).symm
  rootRegions table regions h region := by
    rw [← Except.ok.inj h]
    rfl
  created name table region h := by
    simp only [memoryService] at h ⊢
    split_ifs at h with hpath hsome
    obtain rfl := Except.ok.inj h
    have hnone : table.lookup name = none := Option.not_isSome_iff_eq_none.mp hsome
    rw [if_neg hpath, if_neg hsome]
    refine ⟨hnone, ?_, fun other _ hne => ?_, ?_⟩
    · rw [lookup_append _ _ hnone, if_pos rfl]
    · rw [lookup_append _ _ hnone, if_neg hne]
    · ext region
      simp [or_comm]
  notCreated name table exception h := by
    simp only [memoryService] at h ⊢
    split_ifs at h ⊢ <;> exact ⟨rfl, rfl⟩

namespace CacheMethod

/-- `["exampleRegion", {type: "LOCAL"}]` -/
def localRegion : List JsValue :=
  [.string (.ofAscii "exampleRegion"),
    .object .plain [⟨.ofAscii "type", .string (.ofAscii "LOCAL")⟩]]

theorem behaves_as_directory_localRegion :
    (getRegion.call memoryService [.string (.ofAscii "exampleRegion")]
        (createRegion.call memoryService localRegion ⟨[], []⟩).value.2).thrown = [] ∧
      getRegion.Agrees (createRegion.effect ⟨fun _ => none, ∅⟩ localRegion (.region 0))
        [.string (.ofAscii "exampleRegion")] (.region 0) :=
  ⟨rfl, (behaves_as_directory memoryDirectory
    (⟨fun _ => rfl, by ext; simp [memoryDirectory]⟩ : memoryDirectory.Shows ⟨fun _ => none, ∅⟩ [])
    (rfl : after memoryService [(.createRegion, localRegion)] _ ⟨[], []⟩ = some _)
    .getRegion [.string (.ofAscii "exampleRegion")]).1 rfl⟩

/-- A cache with two regions, for which no objects have been made yet. -/
def twoRegions : ServiceSession (List (Bytes × ℕ)) ℕ :=
  ⟨[(.ofAscii "a", 0), (.ofAscii "b", 1)], []⟩

def twoObjects : List (RegionEventRegistry.Region ℕ) := [⟨8, 0⟩, ⟨4, 1⟩]

theorem objects_of_call_twoRegions :
    Cache.listened (rootRegions.call memoryService [] twoRegions).value.2 =
      Cache.listened twoRegions ++ twoObjects.map (·.regionPtr) :=
  (objects_of_call (.start rfl : (RegionObjects.system nativeClient).Reachable .start) trivial
    rootRegions [] twoRegions (fun exception h => by cases h) rfl (by decide)).1

end CacheMethod

end NodeGemfire
