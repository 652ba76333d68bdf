import NodeGemfire.Conversions.Restore
import NodeGemfire.Events.Listening
import NodeGemfire.Region.Store

/-!
# Following a region by its events

The name of an event tells what has happened to an entry, and its payload has the key
and the new value. A script that keeps a map by the events of a region object has, as
far as the events have been dispatched, what they leave of the entries.

## Main definitions

- `EntryMap.reported`, `EntryMap.followed` — what an event does to the entries and the map
- `EntryMap.Addressable` — keys that JavaScript reads and passes back

## Main results

- `EntryMap.mirrored` — the map shows the entries
-/

namespace NodeGemfire.EntryMap

open RegionEventRegistry (Event Emission Region StaysRegistered emission heard own system Works)

variable {σ κ ρ : Type} [DecidableEq κ] (map : EntryMap σ κ) (p : Platform)

/-! ### Events about entries -/

/-- The entries after the event. -/
def reported (contents : κ → CacheablePtr) (event : Event ρ) : κ → CacheablePtr :=
  match event.entryEvent.key with
  | none => contents
  | some key =>
    Function.update contents (map.keyOf key)
      (if event.eventName = "destroy" then none else event.entryEvent.newValue)

/-- The map after a handler has set or deleted what is under the key of the payload. -/
def followed (m : κ → Option JsValue) (emission : Emission ρ) : κ → Option JsValue :=
  match map.key? p (emission.eventPayload.get (.ofAscii "key")) with
  | none => m
  | some k =>
    Function.update m k
      (if emission.eventName = "destroy" then none
        else some (emission.eventPayload.get (.ofAscii "newValue")).sortFields)

/-- What JavaScript reads of the key addresses the same entry. -/
def Addressable (key : Cacheable) : Prop :=
  ∃ v, v8Cacheable p key = pure v ∧ map.key? p v = some (map.keyOf key)

/-- An event that can be read, and whose key can be passed back. -/
structure Followable (event : Event ρ) : Prop where
  key : ∃ key, event.entryEvent.key = some key ∧ map.Addressable p key
  oldValue : (v8Value p event.entryEvent.oldValue).thrown = []
  newValue : event.eventName ≠ "destroy" →
    ∃ c v, event.entryEvent.newValue = some c ∧ v8Cacheable p c = pure v

variable {map} {p}

/-- By its name, an event says of the entry what the callback of the listener says of it. -/
theorem reported_of_callback (contents : κ → CacheablePtr) (serial : ℕ)
    (callback : RegionEventRegistry.ListenerCallback)
    {entryEvent : RegionEventRegistry.EntryEvent ρ} {key : Cacheable}
    (hkey : entryEvent.key = some key) :
    map.reported contents ⟨serial, callback.eventName, entryEvent⟩ =
      Function.update contents (map.keyOf key)
        (if callback = .afterDestroy then none else entryEvent.newValue) := by
  simp only [reported, hkey, callback.eventName_eq_iff.2.2]

/-- The strings, numbers, booleans and Dates among the values, and the objects that wrap
    one of them. -/
def isLeaf : JsValue → Bool
  | .string _ | .number _ | .boolean _ => true
  | .object (.date _) _ | .object (.stringObject _) _ | .object (.numberObject _) _
  | .object (.booleanObject _) _ => true
  | _ => false

omit [DecidableEq κ] in
/-- What scripts have stored under a key of this kind is addressed by what they read of the
    key, even where a string has been cut or a Date has wrapped. -/
theorem addressable_of_leaf {v : JsValue} {key : Cacheable} (hleaf : isLeaf v = true)
    (hkey : (gemfireKey p v).value = some key) : map.Addressable p key := by
  have hstring (s : JsString) :
      map.Addressable p (.string (.create (wstringFromV8String s))) := by
    refine ⟨.string (v8ValueString (.create (wstringFromV8String s))), rfl, ?_⟩
    rw [key?, gemfireKey_value, gemfireValue, wstringFromV8String_v8ValueString]
    rfl
  have hdate (t : TimeValue) : map.Addressable p (.date (gemfireDate t)) := by
    refine ⟨.object (.date (v8Date (gemfireDate t))) [], rfl, ?_⟩
    rw [key?, gemfireKey_value, gemfireValue, gemfireDate_v8Date (fitsNanoseconds_gemfireDate t)]
    rfl
  cases v with
  | string s =>
    obtain rfl := Option.some.inj hkey
    exact hstring s
  | number n =>
    obtain rfl := Option.some.inj hkey
    exact ⟨.number n, rfl, rfl⟩
  | boolean b =>
    obtain rfl := Option.some.inj hkey
    exact ⟨.boolean b, rfl, rfl⟩
  | object kind ps =>
    cases kind with
    | date t =>
      obtain rfl := Option.some.inj hkey
      exact hdate t
    | stringObject s =>
      obtain rfl := Option.some.inj hkey
      exact hstring s
    | numberObject n =>
      obtain rfl := Option.some.inj hkey
      exact ⟨.number n, rfl, rfl⟩
    | booleanObject b =>
      obtain rfl := Option.some.inj hkey
      exact ⟨.boolean b, rfl, rfl⟩
    | plain | nativeError | function => cases hleaf
  | undefined | null | symbol | array => cases hleaf

/-- The payload has what `v8Value` makes of the key and of the new value. -/
theorem eventPayload_get (event : Event ρ) (region : Region ρ) :
    (emission p event region).eventPayload.get (.ofAscii "key") =
        (v8Value p event.entryEvent.key).value ∧
      (emission p event region).eventPayload.get (.ofAscii "newValue") =
        (v8Value p event.entryEvent.newValue).value := by
  rw [show (emission p event region).eventPayload = _ from event.v8Object_value p]
  exact ⟨rfl, rfl⟩

/-- The map goes on to show the entries. -/
theorem reads_followed {contents : κ → CacheablePtr} {m : κ → Option JsValue}
    (h : ∀ k, Reads p (contents k) (m k)) {event : Event ρ} (hevent : map.Followable p event)
    (region : Region ρ) (k : κ) :
    Reads p (map.reported contents event k) (map.followed p m (emission p event region) k) := by
  obtain ⟨key, hkey, v, hv, haddress⟩ := hevent.key
  obtain ⟨hpayloadKey, hpayloadValue⟩ := eventPayload_get (p := p) event region
  rw [hkey, v8Value, hv, Isolate.pure_value] at hpayloadKey
  have hname : (emission p event region).eventName = event.eventName := rfl
  simp only [reported, followed, hkey, hpayloadKey, hpayloadValue, haddress, hname]
  refine Reads.update h (map.keyOf key) ?_ k
  by_cases hdestroy : event.eventName = "destroy"
  · simp only [hdestroy, if_true]
    exact .absent
  · obtain ⟨c, r, hc, hr⟩ := hevent.newValue hdestroy
    simp only [hdestroy, if_false, hc, v8Value, hr]
    exact .present c r hr

theorem reads_foldl_followed {contents : κ → CacheablePtr} {m : κ → Option JsValue}
    (h : ∀ k, Reads p (contents k) (m k)) {events : List (Event ρ)}
    (hevents : ∀ event ∈ events, map.Followable p event) (region : Region ρ) :
    ∀ k, Reads p (events.foldl map.reported contents k)
      ((events.map (emission p · region)).foldl (map.followed p) m k) := by
  rw [List.foldl_map]
  refine List.foldl_rel
    (r := fun (contents : κ → CacheablePtr) (m : κ → Option JsValue) =>
      ∀ k, Reads p (contents k) (m k)) h ?_
  intro event hevent contents m h
  exact reads_followed h (hevents event hevent) region

/-! ### The map of a script -/

/-- **A script can follow a region by its events**: a map that showed the entries when the
    script began to listen, and that it changes with every event it hears, shows them as
    the events dispatched so far leave them. These are the first of those reported, and
    when nothing is left to do all of them: if they tell what has happened to the entries,
    the map shows the region. -/
theorem mirrored [DecidableEq ρ] {s₀ s : RegionEventRegistry.State ρ} {region : Region ρ}
    (hr : (system p).Reachable s₀) (hregion : region ∈ s₀.regionSet.toList)
    (hrun : (system p).Leads (StaysRegistered region) s₀ s) (hidle₀ : s₀.loop = .idle)
    (hidle : s.loop = .idle) (hevents : ∀ event ∈ own region s.dispatched, map.Followable p event)
    {initial : κ → CacheablePtr} {m : κ → Option JsValue}
    (hm : ∀ k, Reads p ((own region s₀.dispatched).foldl map.reported initial k) (m k)) :
    ∃ heardSince, heard region s.emitted = heard region s₀.emitted ++ heardSince ∧
      (∀ k, Reads p ((own region s.dispatched).foldl map.reported initial k)
        (heardSince.foldl (map.followed p) m k)) ∧
      s.dispatched <+: s.pushed ∧
      ((system p).AtRest Works s → ∀ entries : σ,
        map.contents entries = (own region s.pushed).foldl map.reported initial →
        map.Shows p entries (heardSince.foldl (map.followed p) m)) := by
  have hr' := hr.of_leads hrun
  obtain ⟨begun, hsince⟩ := RegionEventRegistry.heardSince_of_leads hregion hrun
  have hsplit : own region s.dispatched = own region s₀.dispatched ++ own region begun := by
    rw [hsince.dispatched, RegionEventRegistry.own_append]
  have hshows : ∀ k, Reads p ((own region s.dispatched).foldl map.reported initial k)
      (((own region begun).map (emission p · region)).foldl (map.followed p) m k) := by
    rw [hsplit] at hevents ⊢
    rw [List.foldl_append]
    exact reads_foldl_followed hm
      (fun event hevent => hevents event (List.mem_append_right _ hevent)) region
  refine ⟨(own region begun).map (emission p · region), hsince.emitted hidle₀ hidle, hshows, ?_, ?_⟩
  · exact Channel.delivered_prefix ((RegionEventRegistry.eventSimulation p ρ).reachable hr')
  · intro hrest entries hentries k
    rw [hentries, ← (RegionEventRegistry.published_of_atRest hr' hrest).dispatched]
    exact hshows k

/-- The key of `"foo"`. -/
def fooKey : Cacheable := .string (.create (wstringFromV8String (.ofAscii "foo")))

def fooCreated : RegionEventRegistry.State ℕ :=
  RegionEventRegistry.listened (some fooKey) (some (.boolean true))

theorem fooCreated_followable :
    ∀ event ∈ own ⟨16, 0⟩ fooCreated.dispatched, tableMap.Followable nativeClient event := by
  intro event hevent
  obtain rfl : event = RegionEventRegistry.created (some fooKey) (some (.boolean true)) :=
    List.mem_singleton.mp hevent
  have hkey : tableMap.Addressable nativeClient fooKey :=
    addressable_of_leaf (v := .string (.ofAscii "foo")) rfl rfl
  exact ⟨⟨fooKey, rfl, hkey⟩, rfl, fun _ => ⟨.boolean true, .boolean true, rfl, rfl⟩⟩

/-- `region.put("foo", true)` has been reported, and the handler has heard it. -/
theorem mirrored_listened :
    ∃ heardSince, heard ⟨16, 0⟩ fooCreated.emitted =
        heard ⟨16, 0⟩ RegionEventRegistry.listening.emitted ++ heardSince ∧
      ∀ k, Reads nativeClient
        ((own ⟨16, 0⟩ fooCreated.dispatched).foldl tableMap.reported (fun _ => none) k)
        (heardSince.foldl (tableMap.followed nativeClient) (fun _ => none) k) := by
  obtain ⟨heardSince, hheard, hshows, -⟩ :=
    mirrored RegionEventRegistry.listening_reachable List.mem_cons_self
      (RegionEventRegistry.leads_listened _ _) rfl rfl fooCreated_followable (fun _ => .absent)
  exact ⟨heardSince, hheard, hshows⟩

end NodeGemfire.EntryMap
