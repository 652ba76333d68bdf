import NodeGemfire.Region.Agreement
import NodeGemfire.Region.BatchReads
import NodeGemfire.Region.Threads

/-!
# A region as a map

Below the methods there is a client that keeps entries, above them JavaScript sees
keys and values. Here the entries are read as one map from keys to values in normal
form, and every call, from whatever thread its native calls are made, reads and
changes this map at one moment. A native call that throws may have taken effect in
part.

## Main definitions

- `EntryMap` — how entries are read off the state of the client
- `EntryMap.Documented` — what the client promises about them
- `EntryMap.MapSpec` — the calls as operations on the map

## Main results

- `EntryMap.behaves_as_map` — all interleavings are linearizable with respect to it
-/

namespace NodeGemfire

variable {σ κ : Type} [DecidableEq κ]

/-! ### Entries -/

/-- How the entries of a region are read off the state of its client, each under what
    the client compares of its key. -/
structure EntryMap (σ κ : Type) where
  keyOf : Cacheable → κ
  contents : σ → κ → CacheablePtr

namespace EntryMap

variable (map : EntryMap σ κ) (p : Platform)

/-- The value of the first entry with this key. -/
def lookup (entries : HashMapOfCacheable) (k : κ) : Option CacheablePtr :=
  (entries.find? fun e => e.name.map map.keyOf = some k).map (·.value)

/-- An operation that returns changes the entries in this way. One that throws may have
    changed some of them. -/
structure Writes (client : Client σ) (call : NativeCall)
    (effect : (κ → CacheablePtr) → κ → CacheablePtr) : Prop where
  returned : ∀ region, (client.native call region).1.toBool = true →
    map.contents (client.native call region).2 = effect (map.contents region)
  thrown : ∀ region k,
    map.contents (client.native call region).2 k = map.contents region k ∨
      map.contents (client.native call region).2 k = effect (map.contents region) k

/-- The answer to a batch: one entry for each of the keys that has a value. A key without
    one may be missing or have a null entry. -/
structure Batch (keys : List Cacheable) (contents : κ → CacheablePtr)
    (results : HashMapOfCacheable) : Prop where
  distinct : (results.map (·.name.map map.keyOf)).Nodup
  entry : ∀ e ∈ results, ∃ key ∈ keys, e.name.map map.keyOf = some (map.keyOf key) ∧
    e.value = contents (map.keyOf key)
  complete : ∀ key ∈ keys, contents (map.keyOf key) ≠ none →
    ∃ e ∈ results, e.name.map map.keyOf = some (map.keyOf key)

/-- What the client promises. Keys that it takes for equal read the same, and a hash map
    keeps the first of two entries with one key. -/
structure Documented (client : RegionClient σ) : Prop where
  put : ∀ key value, map.Writes client.toClient (.put key value)
    fun contents => Function.update contents (map.keyOf key) (some value)
  putAll : ∀ entries, map.Writes client.toClient (.putAll entries)
    fun contents k => (map.lookup entries k).getD (contents k)
  destroy : ∀ key, map.Writes client.toClient (.destroy key)
    fun contents => Function.update contents (map.keyOf key) none
  destroyed : ∀ key region, (client.native (.destroy key) region).1.toBool = true →
    map.contents region (map.keyOf key) ≠ none
  clear : map.Writes client.toClient .clear fun _ _ => none
  destroyRegion : map.Writes client.toClient .destroyRegion fun _ _ => none
  localDestroyRegion : map.Writes client.toClient .localDestroyRegion fun _ _ => none
  getRegionService : map.Writes client.toClient .getRegionService id
  get : ∀ keyPtr, map.Writes client.toClient (.get keyPtr) id
  found : ∀ key region valuePtr, (client.native (.get (some key)) region).1 = .ok valuePtr →
    valuePtr = map.contents region (map.keyOf key)
  getAll : ∀ keys, map.Writes client.toClient (.getAll keys) id
  batch : ∀ keys region results, (client.native (.getAll keys) region).1 = .ok results →
    map.Batch keys (map.contents region) results
  listing : ∀ call region, map.contents (client.listing call region).2 = map.contents region
  insert : ∀ entries (s : CacheableString) valuePtr k,
    map.lookup (client.platform.insert entries (some (.string s)) valuePtr) k =
      (map.lookup entries k).or (if map.keyOf (.string s) = k then some valuePtr else none)
  named : ∀ key key', map.keyOf key = map.keyOf key' →
    propertyName client.platform (some key) = propertyName client.platform (some key')

/-! ### What JavaScript reads -/

/-- The key that JavaScript passes, if it is one. -/
def key? (v : JsValue) : Option κ := (gemfireKey p v).value.map map.keyOf

/-- What is stored reads as this value, up to the order of the fields of objects. -/
inductive Reads (p : Platform) : CacheablePtr → Option JsValue → Prop
  | absent : Reads p none none
  | present (c : Cacheable) (r : JsValue) (h : v8Cacheable p c = pure r) :
      Reads p (some c) (some r.sortFields)

/-- The region holds these values. -/
def Shows (region : σ) (m : κ → Option JsValue) : Prop := ∀ k, Reads p (map.contents region k) (m k)

variable {p}

theorem Reads.v8Value {c : CacheablePtr} {v : Option JsValue} (h : Reads p c v) :
    (NodeGemfire.v8Value p c).value.sortFields = v.getD .null := by
  cases h with
  | absent => rfl
  | present c r h => simp only [NodeGemfire.v8Value, h, Isolate.pure_value, Option.getD_some]

theorem Reads.eq_none_iff {c : CacheablePtr} {v : Option JsValue} (h : Reads p c v) :
    c = none ↔ v = none := by
  cases h <;> simp

/-- An entry is written, and what it reads as. -/
theorem Reads.update {contents : κ → CacheablePtr} {m : κ → Option JsValue}
    (hm : ∀ k, Reads p (contents k) (m k)) (k₀ : κ) {c : CacheablePtr} {v : Option JsValue}
    (h : Reads p c v) (k : κ) :
    Reads p (Function.update contents k₀ c k) (Function.update m k₀ v k) := by
  by_cases hk : k = k₀
  · subst hk
    simpa only [Function.update_self] using h
  · simpa only [Function.update_of_ne hk] using hm k

/-- A value that survives is stored as one that reads as its normal form. -/
theorem Reads.gemfireValue (hp : p.Faithful) {v : JsValue} (hv : Survives p v)
    (hvalue : (NodeGemfire.gemfireValue p v).value ≠ none) :
    Reads p (NodeGemfire.gemfireValue p v).value (some v.norm.sortFields) := by
  obtain ⟨c, hc⟩ := Option.ne_none_iff_exists'.mp hvalue
  obtain ⟨hpure, hsort⟩ := returned_eq hp hv
  rw [← hsort, hc]
  refine .present c _ ?_
  rw [returned, hc] at hpure
  rw [returned, hc]
  exact hpure

end EntryMap

/-! ### Requests as operations on the map -/

namespace Request

variable (map : EntryMap σ κ) (p : Platform)

/-- The map after a request that succeeds. -/
def effect (m : κ → Option JsValue) : Request → κ → Option JsValue
  | .put key value =>
    match map.key? p key with
    | some k => Function.update m k (some value.norm.sortFields)
    | none => m
  | .putAll entries => fun k =>
    match entries.ownProperties.find? fun q => map.key? p (.string q.name) = some k with
    | some q => some q.value.norm.sortFields
    | none => m k
  | .remove key =>
    match map.key? p key with
    | some k => Function.update m k none
    | none => m
  | .clear | .destroyRegion | .localDestroyRegion => fun _ => none
  | .get _ | .getAll _ => m

/-- Whether a request that succeeds answers with a value. -/
def answers : Request → Bool
  | .get _ | .getAll _ => true
  | _ => false

/-- The keys have different names as properties, and none is `__proto__`. -/
def Separate (keys : List Cacheable) : Prop :=
  (∀ key ∈ keys, ∀ key' ∈ keys, propertyName p (some key) = propertyName p (some key') →
    map.keyOf key = map.keyOf key') ∧
  ∀ key ∈ keys, propertyName p (some key) ≠ .ofAscii "__proto__"

/-- What a request that succeeds says about the map, by its answer or by its success. An
    absent key reads as null, or is missing from the answer to a batch. -/
def Observes (m : κ → Option JsValue) (answer : JsValue) : Request → Prop
  | .get key => ∀ k, map.key? p key = some k → answer.sortFields = (m k).getD .null
  | .getAll keys => ∀ keyPtrs, (gemfireKeys p keys).value = some keyPtrs →
    Separate map p keyPtrs → ∀ key ∈ keyPtrs,
      (answer.get (propertyName p (some key))).sortFields = (m (map.keyOf key)).getD .null ∨
        m (map.keyOf key) = none ∧ answer.get (propertyName p (some key)) = .undefined
  | .remove key => ∀ k, map.key? p key = some k → m k ≠ none
  | _ => True

/-- The values to be written survive. -/
def Storable : Request → Prop
  | .put _ value => Survives p value
  | .putAll entries => ∀ q ∈ entries.ownProperties, Survives p q.value
  | _ => True

end Request

/-! ### What a request does to the entries -/

section Requests

variable {map : EntryMap σ κ} {client : RegionClient σ} {m m₁ : κ → Option JsValue}

open EntryMap

omit [DecidableEq κ] in
/-- After an operation every key reads as before or as the operation leaves it, and as
    the operation leaves it if it returns. -/
theorem EntryMap.Writes.shows {call : NativeCall} {effect : (κ → CacheablePtr) → κ → CacheablePtr}
    (h : map.Writes client.toClient call effect) {region : σ}
    (hm : map.Shows client.platform region m)
    (hm₁ : ∀ k, Reads client.platform (effect (map.contents region) k) (m₁ k)) :
    ∃ m', (∀ k, m' k = m k ∨ m' k = m₁ k) ∧
      ((client.native call region).1.toBool = true → m' = m₁) ∧
      map.Shows client.platform (client.native call region).2 m' := by
  by_cases hok : (client.native call region).1.toBool = true
  · refine ⟨m₁, fun k => .inr rfl, fun _ => rfl, fun k => ?_⟩
    rw [h.returned region hok]
    exact hm₁ k
  · -- each key for itself
    have hone : ∀ k, ∃ v, (v = m k ∨ v = m₁ k) ∧
        Reads client.platform (map.contents (client.native call region).2 k) v := by
      intro k
      rcases h.thrown region k with heq | heq
      · exact ⟨m k, .inl rfl, heq ▸ hm k⟩
      · exact ⟨m₁ k, .inr rfl, heq ▸ hm₁ k⟩
    choose m' hm' hreads using hone
    exact ⟨m', hm', fun hok' => absurd hok' hok, hreads⟩

omit [DecidableEq κ] in
/-- An operation that changes no entry. -/
theorem EntryMap.Writes.contents {call : NativeCall} (h : map.Writes client.toClient call id)
    (region : σ) : map.contents (client.native call region).2 = map.contents region :=
  funext fun k => (h.thrown region k).elim id id

/-- The value written for a key: that of the first property with this key. -/
def written (map : EntryMap σ κ) (p : Platform) (ps : List (Named JsString JsValue)) (k : κ) :
    Option CacheablePtr :=
  (ps.find? fun q => map.key? p (.string q.name) = some k).map fun q =>
    (gemfireValue p q.value).value

theorem lookup_insertEntries (hmap : map.Documented client) {ps : List (Named JsString JsValue)}
    {entries hashMap : HashMapOfCacheable}
    (h : ps.foldlM (insertEntry client.platform) entries = some hashMap) (k : κ) :
    map.lookup hashMap k = (map.lookup entries k).or (written map client.platform ps k) := by
  induction ps generalizing entries with
  | nil =>
    obtain rfl : entries = hashMap := Option.some.inj h
    exact Option.or_none.symm
  | cons q ps ih =>
    rw [List.foldlM_cons, insertEntry] at h
    cases hvalue : (gemfireValue client.platform q.value).value with
    | none =>
      rw [hvalue] at h
      cases h
    | some value =>
      rw [hvalue] at h
      rw [ih h]
      have hkey : (gemfireKey client.platform (.string q.name)).value =
          some (.string (.create (wstringFromV8String q.name))) := rfl
      have hkey? : map.key? client.platform (.string q.name) =
          some (map.keyOf (.string (.create (wstringFromV8String q.name)))) := rfl
      rw [hkey, hmap.insert, Option.or_assoc]
      congr 1
      by_cases hk : map.keyOf (.string (.create (wstringFromV8String q.name))) = k
      · simp [written, hkey?, hk, hvalue]
      · simp [written, hkey?, hk]

theorem carryOut_clear (s : Session σ) :
    client.carryOut (Request.clear.calls client.platform) s =
      match (client.native .getRegionService s.region).1 with
      | .error _ => (true, s.issue client.toClient .getRegionService)
      | .ok _ => client.carryOut (some [.clear]) (s.issue client.toClient .getRegionService) := by
  show client.carryOut (some [.getRegionService, .clear]) s = _
  simp only [Client.carryOut, Client.invokeAll]
  cases (client.native .getRegionService s.region).1 <;> rfl

omit [DecidableEq κ] in
/-- The outcome of a request that asks for one native call. -/
theorem carriesOut_of_writes {r : Request} {call : NativeCall}
    {effect : (κ → CacheablePtr) → κ → CacheablePtr}
    (hcalls : r.calls client.platform = some [call]) (h : map.Writes client.toClient call effect)
    {s : Session σ} (hm : map.Shows client.platform s.region m)
    (hm₁ : ∀ k, Reads client.platform (effect (map.contents s.region) k) (m₁ k)) :
    ∃ m', (∀ k, m' k = m k ∨ m' k = m₁ k) ∧ (r.fails client.toClient s = false → m' = m₁) ∧
      map.Shows client.platform (r.session client.toClient s).region m' := by
  obtain ⟨m', hm', hok, hshows⟩ := h.shows hm hm₁
  refine ⟨m', hm', fun hfails => hok ?_, ?_⟩
  · rw [Request.fails, hcalls, carryOut_singleton] at hfails
    simpa using hfails
  · rw [Request.session, hcalls, carryOut_singleton]
    exact hshows

theorem reads_written (hp : client.platform.Faithful) {entries : JsValue}
    (hvalid : (Request.putAll entries).Valid client.platform)
    (hstorable : (Request.putAll entries).Storable client.platform) {contents : κ → CacheablePtr}
    (hm : ∀ k, Reads client.platform (contents k) (m k)) (k : κ) :
    Reads client.platform ((written map client.platform entries.ownProperties k).getD (contents k))
      ((Request.putAll entries).effect map client.platform m k) := by
  simp only [written, Request.effect]
  cases hfind : entries.ownProperties.find? fun q =>
      map.key? client.platform (.string q.name) = some k with
  | none => simpa using hm k
  | some q =>
    have hq := List.mem_of_find?_eq_some hfind
    have hvalue : (gemfireValue client.platform q.value).value ≠ none := by
      rw [ne_eq, gemfireValue_value_eq_none_iff]
      exact hvalid q hq
    exact Reads.gemfireValue hp (hstorable q hq) hvalue

/-- A valid request changes the map as it says if it succeeds, and at most so much if
    it fails. -/
theorem Request.shows_session (hp : client.platform.Faithful) (hmap : map.Documented client)
    {r : Request} (hvalid : r.Valid client.platform) (hstorable : r.Storable client.platform)
    {s : Session σ} (hm : map.Shows client.platform s.region m) :
    ∃ m', (∀ k, m' k = m k ∨ m' k = r.effect map client.platform m k) ∧
      (r.fails client.toClient s = false → m' = r.effect map client.platform m) ∧
      map.Shows client.platform (r.session client.toClient s).region m' := by
  cases r with
  | put key value =>
    obtain ⟨hkey, hvalue⟩ := hvalid
    rw [← gemfireValue_value_eq_none_iff] at hvalue
    obtain ⟨keyPtr, hk⟩ := Option.ne_none_iff_exists'.mp ((gemfireKey_value_ne_none_iff _).mpr hkey)
    have hreads := Reads.gemfireValue hp hstorable hvalue
    obtain ⟨valuePtr, hv⟩ := Option.ne_none_iff_exists'.mp hvalue
    rw [hv] at hreads
    have heffect : (Request.put key value).effect map client.platform m =
        Function.update m (map.keyOf keyPtr) (some value.norm.sortFields) := by
      simp [effect, key?, hk]
    rw [heffect]
    exact carriesOut_of_writes (by simp [calls, hk, hv]) (hmap.put keyPtr valuePtr) hm
      (Reads.update hm _ hreads)
  | remove key =>
    obtain ⟨keyPtr, hk⟩ :=
      Option.ne_none_iff_exists'.mp ((gemfireKey_value_ne_none_iff _).mpr hvalid)
    have heffect : (Request.remove key).effect map client.platform m =
        Function.update m (map.keyOf keyPtr) none := by
      simp [effect, key?, hk]
    rw [heffect]
    exact carriesOut_of_writes (by simp [calls, hk]) (hmap.destroy keyPtr) hm
      (Reads.update hm _ .absent)
  | putAll entries =>
    cases hhashMap : entries.ownProperties.foldlM (insertEntry client.platform) [] with
    | none =>
      obtain ⟨q, hq, hnull⟩ := (foldlM_insertEntry_eq_none_iff _ _).mp hhashMap
      exact absurd hnull (hvalid q hq)
    | some hashMap =>
      refine carriesOut_of_writes (by simp [calls, hhashMap]) (hmap.putAll hashMap) hm fun k => ?_
      rw [lookup_insertEntries hmap hhashMap]
      exact reads_written hp hvalid hstorable hm k
  | get key =>
    obtain ⟨keyPtr, hk⟩ :=
      Option.ne_none_iff_exists'.mp ((gemfireKey_value_ne_none_iff _).mpr hvalid)
    exact carriesOut_of_writes (by simp [calls, hk]) (hmap.get (some keyPtr)) hm hm
  | getAll keys =>
    cases hkeys : keys.mapM fun e => (gemfireKey client.platform (e.getD .undefined)).value with
    | none => exact absurd hvalid ((calls_eq_none_iff _).mp (by simp [calls, hkeys]))
    | some keyPtrs =>
      cases keyPtrs with
      | nil =>
        have hcalls : (Request.getAll keys).calls client.platform = some [] := by
          simp [calls, hkeys]
        refine ⟨m, fun k => .inl rfl, fun _ => rfl, ?_⟩
        rw [session, hcalls]
        exact hm
      | cons keyPtr keyPtrs =>
        exact carriesOut_of_writes (by simp [calls, hkeys]) (hmap.getAll (keyPtr :: keyPtrs)) hm hm
  | destroyRegion => exact carriesOut_of_writes rfl hmap.destroyRegion hm fun _ => .absent
  | localDestroyRegion => exact carriesOut_of_writes rfl hmap.localDestroyRegion hm fun _ => .absent
  | clear =>
    have hservice : map.Shows client.platform
        (s.issue client.toClient .getRegionService).region m := by
      intro k
      rw [Session.issue, hmap.getRegionService.contents]
      exact hm k
    rw [fails, session, carryOut_clear]
    cases (client.native .getRegionService s.region).1 with
    | error exception => exact ⟨m, fun k => .inl rfl, fun h => absurd h (by simp), hservice⟩
    | ok =>
      have hnone : ∀ k : κ, Reads client.platform none ((fun _ => none : κ → Option JsValue) k) :=
        fun _ => .absent
      obtain ⟨m', hm', hok, hshows⟩ := hmap.clear.shows hservice hnone
      simp only [carryOut_singleton]
      exact ⟨m', hm', fun hfails => hok (by simpa using hfails), hshows⟩

/-! ### What a request finds -/

/-- An entry of the answer to a batch goes by the name of one of the keys. -/
theorem EntryMap.Batch.name (hmap : map.Documented client) {keys : List Cacheable}
    {contents : κ → CacheablePtr} {results : HashMapOfCacheable}
    (hbatch : map.Batch keys contents results) {e : Named CacheablePtr CacheablePtr}
    (he : e ∈ results) :
    ∃ key ∈ keys, e.name.map map.keyOf = some (map.keyOf key) ∧
      propertyName client.platform e.name = propertyName client.platform (some key) ∧
      e.value = contents (map.keyOf key) := by
  obtain ⟨key, hkey, heq, hvalue⟩ := hbatch.entry e he
  refine ⟨key, hkey, heq, ?_, hvalue⟩
  obtain ⟨c, hc, hkeyOf⟩ := Option.map_eq_some_iff.mp heq
  rw [hc]
  exact hmap.named c key hkeyOf

theorem EntryMap.Batch.distinctNames (hmap : map.Documented client) {keys : List Cacheable}
    {contents : κ → CacheablePtr} {results : HashMapOfCacheable}
    (hbatch : map.Batch keys contents results)
    (hseparate : Request.Separate map client.platform keys) :
    DistinctNames client.platform results := by
  constructor
  · have hdistinct := hbatch.distinct
    rw [List.Nodup, List.pairwise_map] at hdistinct ⊢
    refine hdistinct.imp_of_mem fun {e e'} he he' hne heq => hne ?_
    obtain ⟨key, hkey, hk, hname, -⟩ := hbatch.name hmap he
    obtain ⟨key', hkey', hk', hname', -⟩ := hbatch.name hmap he'
    rw [hname, hname'] at heq
    rw [hk, hk', hseparate.1 key hkey key' hkey' heq]
  · intro hproto
    obtain ⟨e, he, heq⟩ := List.mem_map.mp hproto
    obtain ⟨key, hkey, -, hname, -⟩ := hbatch.name hmap he
    exact hseparate.2 key hkey (hname.symm.trans heq)

/-- The object made of the answer to a batch holds, under the name of each key, what is
    stored under the key, or nothing if nothing is. -/
theorem EntryMap.Batch.get (hmap : map.Documented client) {keys : List Cacheable}
    {contents : κ → CacheablePtr} {results : HashMapOfCacheable}
    (hbatch : map.Batch keys contents results)
    (hseparate : Request.Separate map client.platform keys) {key : Cacheable} (hkey : key ∈ keys) :
    (v8ValueHashMap client.platform results).value.get (propertyName client.platform (some key)) =
        (v8Value client.platform (contents (map.keyOf key))).value ∨
      contents (map.keyOf key) = none ∧ (v8ValueHashMap client.platform results).value.get
        (propertyName client.platform (some key)) = .undefined := by
  have hdistinct := hbatch.distinctNames hmap hseparate
  by_cases hentry : ∃ e ∈ results, e.name.map map.keyOf = some (map.keyOf key)
  · obtain ⟨e, he, hk⟩ := hentry
    obtain ⟨key', hkey', hk', hname, hvalue⟩ := hbatch.name hmap he
    have hkeyOf : map.keyOf key' = map.keyOf key := Option.some.inj (hk'.symm.trans hk)
    left
    rw [← hkeyOf, ← hvalue, ← hmap.named key' key hkeyOf, ← hname]
    exact ((lossless_iff results).mpr hdistinct).lookup e he
  · right
    refine ⟨?_, ?_⟩
    · by_contra hne
      exact hentry (hbatch.complete key hkey hne)
    -- no entry goes by this name
    · have hnone : (v8ValueHashMap client.platform results).value.ownProperties.find?
          (·.name = propertyName client.platform (some key)) = none := by
        rw [List.find?_eq_none, v8ValueHashMap_value]
        intro q hq heq
        have hset : setProperties [] (entryProperties client.platform results) =
            entryProperties client.platform results := by
          refine setProperties_eq_append ?_ ?_
          · rw [List.map_nil, List.nil_append, entryProperties_names]
            exact hdistinct.1
          · rw [entryProperties_names]
            exact hdistinct.2
        rw [hset] at hq
        obtain ⟨e, he, rfl⟩ := List.mem_map.mp hq
        obtain ⟨key', hkey', hk', hname, -⟩ := hbatch.name hmap he
        have hkeyOf := hseparate.1 key' hkey' key hkey
          (hname.symm.trans (of_decide_eq_true heq))
        exact hentry ⟨e, he, hk'.trans (congrArg some hkeyOf)⟩
      rw [JsValue.get, hnone]

/-- A client that keeps its promises answers batches in the way that `Client.Answers` asks
    for, if it has an entry for every key, null ones included. -/
theorem EntryMap.Documented.answers (hmap : map.Documented client) {keys : List Cacheable}
    {s : Session σ} {results : HashMapOfCacheable}
    (hresults : (client.native (.getAll keys) s.region).1 = .ok results)
    (hentry : ∀ key ∈ keys, ∃ e ∈ results, e.name.map map.keyOf = some (map.keyOf key))
    (hget : ∀ key ∈ keys, ∃ valuePtr, (client.native (.get (some key)) s.region).1 = .ok valuePtr) :
    client.Answers keys s results := by
  refine ⟨hresults, fun key hkey => ?_⟩
  obtain ⟨e, he, hk⟩ := hentry key hkey
  obtain ⟨key', -, hk', hname, hvalue⟩ := (hmap.batch _ _ _ hresults).name hmap he
  obtain ⟨valuePtr, hanswer⟩ := hget key hkey
  have hkeyOf : map.keyOf key' = map.keyOf key := Option.some.inj (hk'.symm.trans hk)
  refine ⟨e, he, hname.trans (hmap.named key' key hkeyOf), ?_⟩
  rw [hanswer, hmap.found key s.region valuePtr hanswer, hvalue, hkeyOf]

/-- A request that succeeds has found what the map holds. -/
theorem Request.observes_result (hmap : map.Documented client) {r : Request}
    (hvalid : r.Valid client.platform) {s : Session σ}
    (hm : map.Shows client.platform s.region m) (hfails : r.fails client.toClient s = false) :
    r.Observes map client.platform m (r.result client.toClient s).value := by
  cases r with
  | get key =>
    obtain ⟨keyPtr, hk⟩ :=
      Option.ne_none_iff_exists'.mp ((gemfireKey_value_ne_none_iff _).mpr hvalid)
    have hcalls : (Request.get key).calls client.platform = some [.get (some keyPtr)] := by
      simp [calls, hk]
    rw [fails, hcalls, carryOut_singleton] at hfails
    intro k hkey?
    obtain rfl : map.keyOf keyPtr = k := by simpa [key?, hk] using hkey?
    cases hanswer : (client.native (.get (some keyPtr)) s.region).1 with
    | error exception =>
      rw [hanswer] at hfails
      cases hfails
    | ok valuePtr =>
      simp only [result, hk, hanswer]
      rw [hmap.found keyPtr s.region valuePtr hanswer]
      exact (hm (map.keyOf keyPtr)).v8Value
  | getAll keys =>
    intro keyPtrs hkeys hseparate key hkey
    rw [gemfireKeys_value] at hkeys
    obtain ⟨keyPtr, rest, rfl⟩ := List.exists_cons_of_ne_nil (List.ne_nil_of_mem hkey)
    have hcalls : (Request.getAll keys).calls client.platform =
        some [.getAll (keyPtr :: rest)] := by
      simp [calls, hkeys]
    rw [fails, hcalls, carryOut_singleton] at hfails
    cases hanswer : (client.native (.getAll (keyPtr :: rest)) s.region).1 with
    | error exception =>
      rw [hanswer] at hfails
      cases hfails
    | ok results =>
      simp only [result, hkeys, hanswer]
      rcases (hmap.batch _ _ _ hanswer).get hmap hseparate hkey with hget | ⟨hnone, hget⟩
      · rw [hget]
        exact .inl (hm (map.keyOf key)).v8Value
      · exact .inr ⟨(hm (map.keyOf key)).eq_none_iff.mp hnone, hget⟩
  | remove key =>
    obtain ⟨keyPtr, hk⟩ :=
      Option.ne_none_iff_exists'.mp ((gemfireKey_value_ne_none_iff _).mpr hvalid)
    have hcalls : (Request.remove key).calls client.platform = some [.destroy keyPtr] := by
      simp [calls, hk]
    rw [fails, hcalls, carryOut_singleton] at hfails
    intro k hkey? hnone
    obtain rfl : map.keyOf keyPtr = k := by simpa [key?, hk] using hkey?
    exact hmap.destroyed keyPtr s.region (by simpa using hfails)
      ((hm (map.keyOf keyPtr)).eq_none_iff.mpr hnone)
  | clear | put _ _ | putAll _ | destroyRegion | localDestroyRegion => trivial

end Requests

/-! ### Calls as operations on the map -/

namespace MethodCall

/-- What a call asks for, unless it is rejected or a key or value is invalid. Queries,
    listings and registrations ask for nothing of this kind. -/
def request (client : RegionClient σ) (call : MethodCall) : Option Request :=
  let request : Option Request :=
    match call with
    | .async m info =>
      if (m.call client.toClient info).value.isSome then some (m.request info) else none
    | .sync m info =>
      if m.argumentError info = none ∧ client.anyInstance = .opened then some (m.request info)
      else none
    | .listing _ _ | .registration _ => none
  request.filter fun r => (r.calls client.platform).isSome

/-- JavaScript hears of no failure: from a worker no error, and of a synchronous call no
    exception. -/
def Succeeded (heard : Heard) : MethodCall → Prop
  | .sync _ _ => heard.thrown = []
  | .async _ _ | .listing _ _ | .registration _ =>
    ∀ report, .inl report ∈ heard.reports → report.isFailure = false

end MethodCall

/-- The call hands over this value, by returning it or to its callback. -/
def Heard.Gives (heard : Heard) (value : JsValue) : Prop :=
  heard.returned = .value value ∨
    ∃ callback, .inl (.callback callback [.undefined, value]) ∈ heard.reports

namespace EntryMap

variable (map : EntryMap σ κ) (client : RegionClient σ)

/-- A call as an operation on the map: one that succeeds hands over what the map holds
    and leaves the map as its request says, and one that fails may have written some of
    the entries. -/
def MapSpec (m : κ → Option JsValue) (call : MethodCall) (heard : Heard)
    (m' : κ → Option JsValue) : Prop :=
  match call.request client with
  | none => m' = m
  | some r =>
    (∀ k, m' k = m k ∨ m' k = r.effect map client.platform m k) ∧
      (call.Succeeded heard → m' = r.effect map client.platform m ∧
        ∃ answer, (r.answers = true → heard.Gives answer) ∧
          r.Observes map client.platform m answer)

/-- The values that a call writes survive. -/
def Storable (call : MethodCall) : Prop :=
  ∀ r, call.request client = some r → r.Storable client.platform

variable {map client} {m : κ → Option JsValue} {call : MethodCall} {heard : Heard} {region : σ}

theorem mapSpec_of_none (h : call.request client = none) : map.MapSpec client m call heard m := by
  simp only [MapSpec, h]

omit [DecidableEq κ] in
theorem Shows.of_contents {region' : σ} (hm : map.Shows client.platform region m)
    (h : map.contents region' = map.contents region) : map.Shows client.platform region' m := by
  intro k
  rw [h]
  exact hm k

theorem valid_of_request {r : Request} (h : call.request client = some r) :
    r.Valid client.platform := by
  obtain ⟨-, hcalls⟩ := Option.filter_eq_some_iff.mp h
  by_contra hinvalid
  rw [(Request.calls_eq_none_iff r).mpr hinvalid] at hcalls
  cases hcalls

/-- A call that carries out its request is an operation on the map. -/
theorem exists_mapSpec (hp : client.platform.Faithful) (hmap : map.Documented client)
    (hstorable : Storable client call) (hm : map.Shows client.platform region m) {r : Request}
    (hrequest : call.request client = some r)
    (hsucceeded : call.Succeeded heard → r.fails client.toClient (.start region) = false ∧
      (r.answers = true → heard.Gives (r.result client.toClient (.start region)).value)) :
    ∃ m', map.MapSpec client m call heard m' ∧
      map.Shows client.platform (r.session client.toClient (.start region)).region m' := by
  have hvalid := valid_of_request hrequest
  obtain ⟨m', hm', heffect, hshows⟩ := Request.shows_session hp hmap hvalid (hstorable r hrequest)
    (s := .start region) hm
  refine ⟨m', ?_, hshows⟩
  simp only [MapSpec, hrequest]
  refine ⟨hm', fun hheard => ?_⟩
  obtain ⟨hfails, hanswer⟩ := hsucceeded hheard
  have hobserves := Request.observes_result hmap hvalid (s := .start region) hm hfails
  exact ⟨heffect hfails, _, hanswer, hobserves⟩

theorem failed_eq_false {arguments : List JsValue} {callback : Option JsValue} {failed : Bool}
    {reports : List Report} (h : Reported arguments callback failed reports)
    (hok : ∀ report ∈ reports, report.isFailure = false) : failed = false := by
  cases failed with
  | false => rfl
  | true =>
    cases callback <;>
    · obtain ⟨error, rfl⟩ := h
      exact absurd (hok _ (List.mem_singleton_self _)) (by simp [Report.isFailure])

/-- The methods that answer with a value have a callback for it. -/
theorem gives_result {method : AsyncMethod} {info : List JsValue} {s : Session σ}
    (hanswers : (method.request info).answers = true) {reports : List Report}
    (h : Reported ((method.request info).arguments client.toClient s) (method.callback info) false
      reports) (thrown : List JsError) (returned : ReturnValue) :
    Heard.Gives ⟨thrown, returned, reports.map .inl⟩
      ((method.request info).result client.toClient s).value := by
  cases method with
  | get | getAll =>
    obtain rfl : reports = [.callback (arg info 1) _] := h
    exact .inr ⟨_, List.mem_singleton_self _⟩
  | clear | put | putAll | remove | destroyRegion | localDestroyRegion => cases hanswers

/-- A request that asks for nothing leaves the session as it is. -/
theorem session_of_calls_eq_none {r : Request} (h : r.calls client.platform = none)
    (s : Session σ) : r.session client.toClient s = s := by
  rw [Request.session, h]
  rfl

theorem exists_mapSpec_async (hp : client.platform.Faithful) (hmap : map.Documented client)
    {method : AsyncMethod} {info : List JsValue}
    (hstorable : Storable client (.async method info))
    (hm : map.Shows client.platform region m) :
    ∃ m', map.MapSpec client m (.async method info)
        ((MethodCall.async method info).perform client region).1 m' ∧
      map.Shows client.platform ((MethodCall.async method info).perform client region).2 m' := by
  by_cases hrejected : method.Rejected client.toClient info
  · have hnone : (MethodCall.async method info).request client = none := by
      simp [MethodCall.request, (AsyncMethod.call_of_rejected hrejected).1]
    have hsession := (AsyncMethod.perform_of_rejected hrejected (.start region)).1
    refine ⟨m, mapSpec_of_none hnone, ?_⟩
    simp only [MethodCall.perform, hsession]
    exact hm
  · obtain ⟨worker, hworker, -⟩ := AsyncMethod.call_of_accepted hrejected
    obtain ⟨hsession, -, hreported⟩ := AsyncMethod.perform_of_accepted hrejected (.start region)
    simp only [MethodCall.perform, hsession]
    cases hcalls : (method.request info).calls client.platform with
    | none =>
      have hnone : (MethodCall.async method info).request client = none := by
        simp [MethodCall.request, hworker, hcalls]
      rw [session_of_calls_eq_none hcalls]
      exact ⟨m, mapSpec_of_none hnone, hm⟩
    | some calls =>
      have hrequest :
          (MethodCall.async method info).request client = some (method.request info) := by
        simp [MethodCall.request, hworker, hcalls]
      refine exists_mapSpec hp hmap hstorable hm hrequest fun hsucceeded => ?_
      have hfails : (method.request info).fails client.toClient (.start region) = false :=
        failed_eq_false hreported fun report hreport =>
          hsucceeded report (List.mem_map_of_mem hreport)
      rw [hfails] at hreported
      exact ⟨hfails, fun hanswers => gives_result hanswers hreported _ _⟩

theorem sync_carriesOut {method : SyncMethod} {info : List JsValue}
    (haccepted : method.argumentError info = none ∧ client.anyInstance = .opened)
    (hkeyed : method = .getSync → KeyValued client.platform (arg info 0)) (s : Session σ) :
    method.CarriesOut client.toClient (method.request info) s
      (method.call client.toClient info s) := by
  obtain ⟨hargs, hopen⟩ := haccepted
  cases method with
  | putSync => exact SyncMethod.putSync_carriesOut hopen hargs s
  | getSync => exact SyncMethod.getSync_carriesOut hopen hargs (hkeyed rfl) s
  | getAllSync => exact SyncMethod.getAllSync_carriesOut hopen hargs s
  | putAllSync => exact SyncMethod.putAllSync_carriesOut hopen hargs s

/-- A synchronous call with an invalid key or value changes no entry. `getSync` asks the
    client all the same. -/
theorem contents_of_invalid (hmap : map.Documented client) {method : SyncMethod}
    {info : List JsValue}
    (haccepted : method.argumentError info = none ∧ client.anyInstance = .opened)
    (hcalls : (method.request info).calls client.platform = none) (s : Session σ) :
    map.contents (method.perform client.toClient info s).session.region =
      map.contents s.region := by
  by_cases hget : method = .getSync
  · subst hget
    rw [Pair.getSync_session_ne haccepted.2 haccepted.1 ((Request.calls_eq_none_iff _).mp hcalls)]
    exact (hmap.get none).contents s.region
  · have hcarries := sync_carriesOut haccepted (fun h => absurd h hget) s
    rw [SyncMethod.perform, hcarries.session, session_of_calls_eq_none hcalls]

theorem exists_mapSpec_sync (hp : client.platform.Faithful) (hmap : map.Documented client)
    {method : SyncMethod} {info : List JsValue}
    (hstorable : Storable client (.sync method info))
    (hm : map.Shows client.platform region m) :
    ∃ m', map.MapSpec client m (.sync method info)
        ((MethodCall.sync method info).perform client region).1 m' ∧
      map.Shows client.platform ((MethodCall.sync method info).perform client region).2 m' := by
  by_cases hrejected : method.Rejected client.toClient info
  · have hnone : (MethodCall.sync method info).request client = none := by
      have hnot := mt (SyncMethod.not_rejected_iff method info).mpr (not_not.mpr hrejected)
      simp [MethodCall.request, if_neg hnot]
    have hsession := method.session_of_rejected hrejected (.start region)
    refine ⟨m, mapSpec_of_none hnone, ?_⟩
    simp only [MethodCall.perform, SyncMethod.perform, hsession]
    exact hm
  · have haccepted := (SyncMethod.not_rejected_iff method info).mp hrejected
    cases hcalls : (method.request info).calls client.platform with
    | none =>
      have hnone : (MethodCall.sync method info).request client = none := by
        simp [MethodCall.request, hcalls]
      refine ⟨m, mapSpec_of_none hnone, ?_⟩
      exact hm.of_contents (contents_of_invalid hmap haccepted hcalls _)
    | some calls =>
      have hrequest :
          (MethodCall.sync method info).request client = some (method.request info) := by
        simp [MethodCall.request, haccepted, hcalls]
      have hcarries : method.CarriesOut client.toClient (method.request info) (.start region)
          (method.call client.toClient info (.start region)) := by
        refine sync_carriesOut haccepted (fun hget => ?_) _
        subst hget
        exact valid_of_request hrequest
      simp only [MethodCall.perform, SyncMethod.perform, hcarries.session]
      refine exists_mapSpec hp hmap hstorable hm hrequest fun hsucceeded => ?_
      obtain ⟨-, hfails, -⟩ := hcarries.thrown.mp hsucceeded
      refine ⟨hfails, fun hanswers => .inl ?_⟩
      rw [hcarries.returned hfails]
      cases method with
      | getSync | getAllSync => rfl
      | putSync | putAllSync => cases hanswers

theorem exists_mapSpec_perform (hp : client.platform.Faithful) (hmap : map.Documented client)
    (hstorable : Storable client call) (hm : map.Shows client.platform region m) :
    ∃ m', map.MapSpec client m call (call.perform client region).1 m' ∧
      map.Shows client.platform (call.perform client region).2 m' := by
  cases call with
  | async method info => exact exists_mapSpec_async hp hmap hstorable hm
  | sync method info => exact exists_mapSpec_sync hp hmap hstorable hm
  | listing method info =>
    refine ⟨m, mapSpec_of_none rfl, hm.of_contents ?_⟩
    simp only [MethodCall.perform]
    cases method.argumentError info with
    | some message => rfl
    | none => exact hmap.listing _ region
  | registration method =>
    refine ⟨m, mapSpec_of_none rfl, hm.of_contents ?_⟩
    have hcontents := hmap.listing method.nativeCall region
    simp only [MethodCall.perform]
    rcases hlisting : client.listing method.nativeCall region with ⟨answer, region'⟩
    rw [hlisting] at hcontents
    cases answer <;> exact hcontents

/-- What a clear worker makes of the map and reports: it clears all, or reports a failure. -/
theorem mapSpec_clear {info : List JsValue} {m' : κ → Option JsValue} {callback : Option JsValue}
    {thrown : List JsError} {returned : ReturnValue} (outcome : Except JsError Unit)
    (hcalled : (AsyncMethod.clear.call client.toClient info).value.isSome = true)
    (hm' : ∀ k, m' k = m k ∨ m' k = none) (hok : outcome.toBool = true → m' = fun _ => none) :
    map.MapSpec client m (.async .clear info)
      ⟨thrown, returned, (handleEventedCallback callback outcome).map .inl⟩ m' := by
  have hrequest : (MethodCall.async .clear info).request client = some .clear := by
    simp only [MethodCall.request, hcalled, if_true]
    rfl
  simp only [MapSpec, hrequest]
  refine ⟨hm', fun hsucceeded => ⟨hok ?_, .undefined, fun hanswers => ?_, trivial⟩⟩
  case refine_2 => cases hanswers
  cases outcome with
  | ok => rfl
  | error error =>
    -- a failure is reported, with or without a callback
    cases callback with
    | none => cases hsucceeded (.errorEvent error) (List.mem_singleton_self _)
    | some callback => cases hsucceeded (.callbackError callback error) (List.mem_singleton_self _)

/-- `ClearWorker` changes the map with its second call, whatever has become of the cache
    since the first. -/
theorem implements_clear (hmap : map.Documented client) (info : List JsValue) :
    ((MethodCall.async .clear info).program client).Implements
      (Program.either client.native client.listing) (fun _ _ => True)
      (map.Shows client.platform) fun m heard m' => map.MapSpec client m (.async .clear info)
        heard m' := by
  simp only [MethodCall.program, AsyncMethod.worker, WorkerProgram.reports,
    ClearWorker.execute_program]
  by_cases hcalled : (AsyncMethod.clear.call client.toClient info).value.isSome = true
  · simp only [if_pos hcalled]
    simp only [Program.map_ask, Program.inl, Program.Implements]
    intro region m _ hm
    have hservice : map.Shows client.platform (client.native .getRegionService region).2 m :=
      hm.of_contents (hmap.getRegionService.contents region)
    cases (Program.either client.native client.listing (.inl .getRegionService) region).1 with
    | error exception =>
      exact .inr ⟨_, m, rfl, mapSpec_clear (.error (v8Error exception)) hcalled
        (fun k => .inl rfl) fun hok => absurd hok Bool.false_ne_true, hservice⟩
    | ok =>
      refine .inl ⟨hservice, fun region m _ hm => .inr ?_⟩
      obtain ⟨m', hm', hok, hshows⟩ := hmap.clear.shows hm
        (fun _ => (.absent : Reads client.platform none (none : Option JsValue)))
      refine ⟨_, m', rfl, mapSpec_clear ((client.native .clear region).1.mapError v8Error)
        hcalled hm' fun hcleared => hok ?_, hshows⟩
      cases hclear : (client.native .clear region).1 with
      | ok => rfl
      | error exception =>
        rw [hclear] at hcleared
        cases hcleared
  · simp only [if_neg hcalled]
    have hnone : (MethodCall.async .clear info).request client = none := by
      simp [MethodCall.request, hcalled]
    exact fun region m hm => ⟨m, mapSpec_of_none hnone, hm⟩

/-- Every call implements its operation on the map. -/
theorem implements_program (hp : client.platform.Faithful) (hmap : map.Documented client)
    (hstorable : Storable client call) :
    (call.program client).Implements (Program.either client.native client.listing)
      (fun _ _ => True) (map.Shows client.platform) fun m heard m' =>
        map.MapSpec client m call heard m' := by
  by_cases h : ∀ info, call ≠ .async .clear info
  · refine (MethodCall.asksAtMost_program h).implements fun region m hm => ?_
    rw [MethodCall.run_program]
    exact exists_mapSpec_perform hp hmap hstorable hm
  · push Not at h
    obtain ⟨info, rfl⟩ := h
    exact implements_clear hmap info

/-- **One map**: however the threads interleave, every call reads and changes one map
    from keys to values at one moment between its call and its callback, and the region
    holds what this map holds. Where each callback is awaited, that is in the order of
    the calls. -/
theorem behaves_as_map {threads : ℕ} {w : Region.Loop σ} {m₀ : κ → Option JsValue}
    (hp : client.platform.Faithful) (hmap : map.Documented client)
    (hw : (Region.loop client threads region).Reachable w)
    (hm₀ : map.Shows client.platform region m₀)
    (hstorable : ∀ i call, .called i call ∈ w.history → Storable client call) :
    ∃ order m, Linearizes (map.MapSpec client) m₀ w.history order m ∧
      map.Shows client.platform w.object m ∧ ∀ cs, w.history = awaited cs → order = cs := by
  have hguarded : ((Region.loop client threads region).restrict
      (WorkQueue.Guarded fun _ _ _ => True)).Reachable w :=
    hw.restrict fun _ _ _ _ => trivial
  obtain ⟨order, m, hm, hshows⟩ := WorkQueue.exists_linearizes hguarded hm₀
    fun i call hcalled => implements_program hp hmap (hstorable i call hcalled)
  refine ⟨order, m, hm, hshows, fun cs hcs => ?_⟩
  rw [hcs] at hm
  exact hm.eq_of_awaited (WorkQueue.nodup_of_awaited hw hcs)

end EntryMap

/-! ### A client that keeps its promises -/

def tableMap : EntryMap (Option CacheableString → CacheablePtr) (Option CacheableString) where
  keyOf := tableKey
  contents := id

theorem v8Struct_value (ps : List (Named JsString JsValue))
    (fields : List (Named Bytes (Isolate JsValue))) :
    ∃ qs, (v8Struct ps fields).value = .object .plain qs := by
  induction fields generalizing ps with
  | nil => exact ⟨ps, rfl⟩
  | cons field fields ih => exact ih _

/-- What is no string reads as no string. -/
theorem isString_v8Cacheable (p : Platform) {key : Cacheable} (h : tableKey key = none) :
    (v8Cacheable p key).value.isString = false := by
  cases key with
  | string s => cases h
  | struct fields =>
    obtain ⟨qs, hqs⟩ := v8Struct_value [] (v8StructFields p fields)
    rw [v8Cacheable, hqs]
    rfl
  | hashMap entries =>
    rw [v8Cacheable, v8Object_value]
    rfl
  | pdxInstance className fields =>
    rw [v8Cacheable, v8PdxInstance]
    cases p.getFieldNames ((v8PdxFields p fields).map (·.name)) with
    | none => rfl
    | some names =>
      simp only [Isolate.bind_value]
      cases (getFields p (v8PdxFields p fields) [] names).value <;> rfl
  | boolean | double | float | int16 | int32 | int64 | date | undefined | objectArray | arrayList |
    vector | hashSet | userFunctionExecutionException | other => rfl

/-- What is no string has no text of its own in this table. -/
theorem propertyName_of_tableKey {key : Cacheable} (h : tableKey key = none) :
    propertyName nativeClient (some key) = .ofAscii "[object Object]" := by
  have hstring := isString_v8Cacheable nativeClient h
  rw [propertyName, v8Value]
  cases hvalue : (v8Cacheable nativeClient key).value with
  | string s =>
    rw [hvalue] at hstring
    cases hstring
  | undefined | null | boolean | number | symbol | array | object => rfl

theorem tableMap_documented : tableMap.Documented tableClient where
  put key value := ⟨fun _ _ => rfl, fun _ _ => .inr rfl⟩
  putAll entries := ⟨fun _ _ => rfl, fun _ _ => .inr rfl⟩
  destroy key := by
    constructor
    · intro table h
      simp only [tableClient] at h ⊢
      split
      · rfl
      · next hnone =>
        rw [if_neg hnone] at h
        cases h
    · intro table k
      simp only [tableClient]
      split
      · exact .inr rfl
      · exact .inl rfl
  destroyed key table h := by
    simp only [tableClient] at h
    split at h
    · next hsome => exact Option.isSome_iff_ne_none.mp hsome
    · cases h
  clear := ⟨fun _ _ => rfl, fun _ _ => .inr rfl⟩
  destroyRegion := ⟨fun _ _ => rfl, fun _ _ => .inr rfl⟩
  localDestroyRegion := ⟨fun _ _ => rfl, fun _ _ => .inr rfl⟩
  getRegionService := ⟨fun _ _ => rfl, fun _ _ => .inr rfl⟩
  get keyPtr := by
    cases keyPtr <;> exact ⟨fun _ _ => rfl, fun _ _ => .inl rfl⟩
  found key table valuePtr h := (Except.ok.inj h).symm
  getAll keys := ⟨fun _ _ => rfl, fun _ _ => .inr rfl⟩
  batch keys table results h := by
    obtain rfl := Except.ok.inj h
    constructor
    · rw [List.Nodup, List.pairwise_map, List.pairwise_map]
      exact (List.pairwise_pwFilter keys).imp fun {key key'} hne heq => hne (Option.some.inj heq)
    · intro e he
      obtain ⟨key, hkey, rfl⟩ := List.mem_map.mp he
      exact ⟨key, List.pwFilter_subset keys hkey, rfl, rfl⟩
    · intro key hkey hne
      -- one key stands for all that the table takes for equal
      obtain ⟨key', hkey', heq⟩ : ∃ key' ∈ keys.pwFilter (tableKey · ≠ tableKey ·),
          tableKey key = tableKey key' := by
        by_contra hall
        push Not at hall
        refine (List.forall_mem_pwFilter ?_ key keys).mp hall key hkey rfl
        intro a b c hac
        by_contra hboth
        push Not at hboth
        exact hac (hboth.1.trans hboth.2)
      exact ⟨_, List.mem_map_of_mem hkey', congrArg some heq.symm⟩
  listing _ _ := rfl
  insert entries s valuePtr k := by
    have hsame : ∀ e : Named CacheablePtr CacheablePtr,
        sameString e.name (some (.string s)) = decide (e.name.map tableKey = some (some s)) := by
      rintro ⟨name, value⟩
      rcases name with _ | key
      · rfl
      · cases key <;> simp [sameString, tableKey]
    have hany : entries.any (sameString ·.name (some (.string s))) =
        (tableMap.lookup entries (some s)).isSome := by
      simp only [hsame, EntryMap.lookup, Option.isSome_map, List.isSome_find?]
      rfl
    show tableMap.lookup (if entries.any (sameString ·.name (some (.string s))) then entries
      else entries ++ [⟨some (.string s), valuePtr⟩]) k =
        (tableMap.lookup entries k).or (if some s = k then some valuePtr else none)
    rw [hany]
    by_cases hsome : (tableMap.lookup entries (some s)).isSome = true
    · rw [if_pos hsome]
      obtain ⟨found, hfound⟩ := Option.isSome_iff_exists.mp hsome
      by_cases hk : some s = k
      · rw [← hk, hfound]
        rfl
      · rw [if_neg hk, Option.or_none]
    · rw [if_neg hsome, EntryMap.lookup, List.find?_append, Option.map_or]
      congr 1
      by_cases hk : some s = k <;> simp [tableMap, tableKey, hk]
  named key key' h := by
    cases hkey : tableKey key with
    | none =>
      rw [show tableClient.platform = nativeClient from rfl, propertyName_of_tableKey hkey,
        propertyName_of_tableKey (h.symm.trans hkey)]
    | some s =>
      cases key <;> cases hkey
      cases key' <;> cases h
      rfl

/-- `region.put("foo", true, callback)` and `region.clear(callback)` on an empty region. -/
theorem EntryMap.behaves_as_map_putAndClear :
    ∃ (w : Region.Loop (Option CacheableString → CacheablePtr))
      (order : List (Completed MethodCall Heard)) (m : Option CacheableString → Option JsValue),
      .called 0 Region.putCall ∈ w.history ∧ .called 1 Region.clearCall ∈ w.history ∧
      Linearizes (tableMap.MapSpec tableClient) (fun _ => none) w.history order m ∧
      tableMap.Shows nativeClient w.object m := by
  obtain ⟨w, heard, heard', hw, -, hhistory⟩ := Region.putAndClear_reachable
  have hstorable : ∀ i call, .called i call ∈ w.history → EntryMap.Storable tableClient call := by
    intro i call hcalled r hr
    rw [hhistory] at hcalled
    obtain ⟨rfl, rfl⟩ | ⟨rfl, rfl⟩ : i = 0 ∧ call = Region.putCall ∨
        i = 1 ∧ call = Region.clearCall := by simpa using hcalled
    · obtain rfl : Request.put (.string (.ofAscii "foo")) (.boolean true) = r := Option.some.inj hr
      exact .boolean true
    · obtain rfl : Request.clear = r := Option.some.inj hr
      trivial
  obtain ⟨order, m, hlinearizes, hshows, -⟩ := behaves_as_map nativeClient_faithful
    tableMap_documented hw.of_restrict (fun _ => .absent) hstorable
  exact ⟨w, order, m, by simp [hhistory], by simp [hhistory], hlinearizes, hshows⟩

end NodeGemfire
