import NodeGemfire.Conversions.RoundTrip
import NodeGemfire.Region.Validation

/-!
# Batch reads

`getAll` answers with an object that has a property for each entry, under the
text of its key. Keys of different types can have the same text, and a property
named `__proto__` cannot be set; apart from that nothing is lost.

## Main definitions

- `propertyName` — the name of the property that `v8Object` sets for a key
- `Lossless` — every entry is found in the object
- `DistinctNames` — no two keys have the same name, and none is `__proto__`
-/

namespace NodeGemfire

open JsValue (setProperty)

/-! ### Setting properties one after the other -/

/-- The loop of `v8Object` on converted keys and values. -/
def setProperties (ps qs : List (Named JsString JsValue)) : List (Named JsString JsValue) :=
  qs.foldl (fun ps q => setProperty ps q.name q.value) ps

theorem setProperty_names_of_mem {ps : List (Named JsString JsValue)} {name : JsString}
    (h : name = .ofAscii "__proto__" ∨ name ∈ ps.map (·.name)) (value : JsValue) :
    (setProperty ps name value).map (·.name) = ps.map (·.name) := by
  unfold setProperty
  split
  · rfl
  · rename_i hproto
    obtain ⟨q, hq, hname⟩ := List.mem_map.mp (h.resolve_left hproto)
    have hany : ps.any (·.name = name) = true := by
      simp only [List.any_eq_true, decide_eq_true_eq]
      exact ⟨q, hq, hname⟩
    rw [if_pos hany, List.map_map]
    refine List.map_congr_left fun q _ => ?_
    by_cases hq : q.name = name <;> simp [hq]

theorem setProperties_names_length_le (ps qs : List (Named JsString JsValue)) :
    (setProperties ps qs).length ≤ ps.length + qs.length := by
  induction qs generalizing ps with
  | nil => simp [setProperties]
  | cons q qs ih =>
    have hstep : (setProperty ps q.name q.value).length ≤ ps.length + 1 := by
      by_cases h : q.name = .ofAscii "__proto__" ∨ q.name ∈ ps.map (·.name)
      · have hlength := congrArg List.length (setProperty_names_of_mem h q.value)
        simp only [List.length_map] at hlength
        omega
      · obtain ⟨hproto, hnew⟩ := not_or.mp h
        rw [JsValue.setProperty_of_not_mem hproto hnew]
        simp
    have hrest := ih (setProperty ps q.name q.value)
    simp only [setProperties, List.foldl_cons, List.length_cons] at hrest ⊢
    omega

/-- Names that are new and not `__proto__` go to the end. -/
theorem setProperties_eq_append {ps qs : List (Named JsString JsValue)}
    (hnames : (ps.map (·.name) ++ qs.map (·.name)).Nodup)
    (hproto : JsString.ofAscii "__proto__" ∉ qs.map (·.name)) : setProperties ps qs = ps ++ qs := by
  induction qs generalizing ps with
  | nil => simp [setProperties]
  | cons q qs ih =>
    obtain ⟨hq, hqs⟩ := not_or.mp (mt List.mem_cons.mpr hproto)
    have hnew : q.name ∉ ps.map (·.name) := fun hmem =>
      List.disjoint_of_nodup_append hnames hmem List.mem_cons_self
    have hset := JsValue.setProperty_of_not_mem (Ne.symm hq) hnew q.value
    have hnames' : ((ps ++ [q]).map (·.name) ++ qs.map (·.name)).Nodup := by simpa using hnames
    have hrest := ih hnames' hqs
    rw [setProperties, List.foldl_cons, hset]
    simpa [setProperties] using hrest

/-- A property is added for each of `qs` only where their names are new, and none of
    them is `__proto__`. -/
theorem setProperties_length_eq_iff (ps qs : List (Named JsString JsValue))
    (hps : (ps.map (·.name)).Nodup) :
    (setProperties ps qs).length = ps.length + qs.length ↔
      (ps.map (·.name) ++ qs.map (·.name)).Nodup ∧
        JsString.ofAscii "__proto__" ∉ qs.map (·.name) := by
  refine ⟨fun h => ?_, fun h => by rw [setProperties_eq_append h.1 h.2, List.length_append]⟩
  induction qs generalizing ps with
  | nil => simpa using hps
  | cons q qs ih =>
    rw [setProperties, List.foldl_cons, List.length_cons] at h
    have hle := setProperties_names_length_le (setProperty ps q.name q.value) qs
    rw [setProperties] at hle
    by_cases hmem : q.name = .ofAscii "__proto__" ∨ q.name ∈ ps.map (·.name)
    · -- nothing is added for `q`, and too little for the others
      have hlength := congrArg List.length (setProperty_names_of_mem hmem q.value)
      simp only [List.length_map] at hlength
      omega
    · obtain ⟨hproto, hnew⟩ := not_or.mp hmem
      rw [JsValue.setProperty_of_not_mem hproto hnew] at h
      have hps' : ((ps ++ [q]).map (·.name)).Nodup := by
        rw [List.map_append, List.nodup_append]
        refine ⟨hps, List.nodup_singleton _, ?_⟩
        rintro name hname _ hq rfl
        rw [List.mem_singleton.mp hq] at hname
        exact hnew hname
      obtain ⟨hnodup, hrest⟩ := ih (ps ++ [q]) hps' (by
        rw [setProperties, h, List.length_append]
        simp
        omega)
      refine ⟨by simpa using hnodup, ?_⟩
      rw [List.map_cons, List.mem_cons, not_or]
      exact ⟨Ne.symm hproto, hrest⟩

/-! ### The object made of a hash map -/

variable {σ : Type} {p : Platform}

/-- The name of the property for a key. -/
def propertyName (p : Platform) (keyPtr : CacheablePtr) : JsString :=
  p.toPropertyKey (v8Value p keyPtr).value

/-- The properties that are set for the entries, in order. -/
def entryProperties (p : Platform) (entries : HashMapOfCacheable) : List (Named JsString JsValue) :=
  entries.map fun e => ⟨propertyName p e.name, (v8Value p e.value).value⟩

theorem v8Object_value (ps : List (Named JsString JsValue)) (entries : HashMapOfCacheable) :
    (v8Object p ps (v8Entries p entries)).value =
      .object .plain (setProperties ps (entryProperties p entries)) := by
  rw [v8Entries_eq]
  induction entries generalizing ps with
  | nil => rfl
  | cons e entries ih =>
    simp only [List.map_cons, v8Object, Isolate.bind_value, ih]
    rfl

theorem v8ValueHashMap_value (entries : HashMapOfCacheable) :
    (v8ValueHashMap p entries).value =
      .object .plain (setProperties [] (entryProperties p entries)) := v8Object_value [] entries

/-- The object has as many properties as there are entries, and each of them is
    found under the name of its key. -/
structure Lossless (p : Platform) (entries : HashMapOfCacheable) : Prop where
  size : (v8ValueHashMap p entries).value.ownProperties.length = entries.length
  lookup : ∀ e ∈ entries,
    (v8ValueHashMap p entries).value.get (propertyName p e.name) = (v8Value p e.value).value

/-- The keys have different names, and `__proto__` is not among them. -/
def DistinctNames (p : Platform) (entries : HashMapOfCacheable) : Prop :=
  (entries.map (propertyName p ·.name)).Nodup ∧
    JsString.ofAscii "__proto__" ∉ entries.map (propertyName p ·.name)

theorem entryProperties_names (entries : HashMapOfCacheable) :
    (entryProperties p entries).map (·.name) = entries.map (propertyName p ·.name) := by
  simp [entryProperties]

theorem lossless_iff (entries : HashMapOfCacheable) :
    Lossless p entries ↔ DistinctNames p entries := by
  have hsize : (v8ValueHashMap p entries).value.ownProperties.length = entries.length ↔
      DistinctNames p entries := by
    have hlength := setProperties_length_eq_iff [] (entryProperties p entries) List.nodup_nil
    rw [entryProperties_names] at hlength
    simpa [v8ValueHashMap_value, JsValue.ownProperties, entryProperties, DistinctNames]
      using hlength
  refine ⟨fun h => hsize.mp h.size, fun h => ⟨hsize.mpr h, fun e he => ?_⟩⟩
  have hnames : ((entryProperties p entries).map (·.name)).Nodup := by
    rw [entryProperties_names]
    exact h.1
  have hset : setProperties [] (entryProperties p entries) = entryProperties p entries := by
    refine setProperties_eq_append (by simpa using hnames) ?_
    rw [entryProperties_names]
    exact h.2
  have hfind := find?_of_nodup_keys hnames (List.mem_map.mpr ⟨e, he, rfl⟩)
  rw [v8ValueHashMap_value, hset, JsValue.get]
  simp only [JsValue.ownProperties]
  rw [hfind]

/-! ### Batches of a region -/

section Batches

variable {client : Client σ}

/-- How the client answers a batch: the map has an entry for each key, under this
    key or one that reads the same, with the value that `get` returns for it. -/
structure Client.Answers (client : Client σ) (keys : List Cacheable) (s : Session σ)
    (entries : HashMapOfCacheable) : Prop where
  getAll : (client.native (.getAll keys) s.region).1 = .ok entries
  get : ∀ key ∈ keys, ∃ e ∈ entries,
    propertyName client.platform e.name = propertyName client.platform (some key) ∧
      (client.native (.get (some key)) s.region).1 = .ok e.value

/-- What the callback of a call that does not fail is called with. -/
theorem reports_of_not_fails {m : AsyncMethod} {info : List JsValue} {callback : JsValue}
    (h : ¬m.Rejected client info) (hc : m.callback info = some callback) {s : Session σ}
    (hok : (m.request info).fails client s = false) :
    (m.perform client info s).reports =
      [.callback callback ((m.request info).arguments client s)] := by
  obtain ⟨-, -, hreported⟩ := AsyncMethod.perform_of_accepted h s
  rw [hc, hok] at hreported
  exact hreported

theorem fails_singleton {r : Request} (call : NativeCall) {result : call.Result} {s : Session σ}
    (hcalls : r.calls client.platform = some [call])
    (h : (client.native call s.region).1 = .ok result) : r.fails client s = false := by
  rw [Request.fails, hcalls, carryOut_singleton, h]
  rfl

theorem get_reports (hopen : client.anyInstance = .opened) {key callback : JsValue}
    (hcallback : callback.isFunction = true) {keyPtr : Cacheable} {valuePtr : CacheablePtr}
    {s : Session σ} (hkey : (gemfireKey client.platform key).value = some keyPtr)
    (hget : (client.native (.get (some keyPtr)) s.region).1 = .ok valuePtr) :
    (AsyncMethod.get.perform client [key, callback] s).reports =
      [.callback callback [.undefined, (v8Value client.platform valuePtr).value]] := by
  have haccepted : ¬AsyncMethod.get.Rejected client [key, callback] := by
    rw [AsyncMethod.not_rejected_iff]
    refine ⟨?_, fun _ => hopen⟩
    simp [AsyncMethod.argumentError, Region.getError, arg, hcallback]
  have hok : (AsyncMethod.get.request [key, callback]).fails client s = false := by
    refine fails_singleton (.get (some keyPtr)) ?_ hget
    simp [AsyncMethod.request, Request.calls, arg, hkey]
  rw [reports_of_not_fails haccepted rfl hok]
  simp [AsyncMethod.request, Request.arguments, Request.result, arg, hkey, hget]

theorem getAll_reports (hopen : client.anyInstance = .opened) {keys : List (Option JsValue)}
    {properties : List (Named JsString JsValue)} {callback : JsValue}
    (hcallback : callback.isFunction = true) {ks : List Cacheable} (hne : ks ≠ [])
    (hkeys : (keys.mapM fun e => (gemfireKey client.platform (e.getD .undefined)).value) = some ks)
    {entries : HashMapOfCacheable} {s : Session σ}
    (hgetAll : (client.native (.getAll ks) s.region).1 = .ok entries) :
    (AsyncMethod.getAll.perform client [.array keys properties, callback] s).reports =
      [.callback callback [.undefined, (v8ValueHashMap client.platform entries).value]] := by
  have haccepted : ¬AsyncMethod.getAll.Rejected client [.array keys properties, callback] := by
    rw [AsyncMethod.not_rejected_iff]
    refine ⟨?_, fun _ => hopen⟩
    simp [AsyncMethod.argumentError, Region.getAllError, arg, hcallback, JsValue.isArray]
  have hok : (AsyncMethod.getAll.request [.array keys properties, callback]).fails client s =
      false := by
    refine fails_singleton (.getAll ks) ?_ hgetAll
    simp [AsyncMethod.request, Request.calls, arg, Region.arrayElements, hkeys, hne]
  rw [reports_of_not_fails haccepted rfl hok]
  obtain ⟨k, ks, rfl⟩ := List.exists_cons_of_ne_nil hne
  simp [AsyncMethod.request, Request.arguments, Request.result, arg, Region.arrayElements, hkeys,
    hgetAll]

end Batches

/-- A batch loses nothing if and only if the keys have different names, none of them
    `__proto__`; and then `getAll` hands over for each key what `get` does. -/
theorem batch_lossless (client : Client σ) :
    (∀ entries, Lossless client.platform entries ↔ DistinctNames client.platform entries) ∧
    ∀ (keys : List (Option JsValue)) (properties : List (Named JsString JsValue))
      (callback : JsValue) (s : Session σ) (ks : List Cacheable) (entries : HashMapOfCacheable),
      client.anyInstance = .opened → callback.isFunction = true →
      (gemfireKeys client.platform keys).value = some ks → client.Answers ks s entries →
      DistinctNames client.platform entries → ∀ e ∈ keys, ∃ values value,
        (AsyncMethod.getAll.perform client [.array keys properties, callback] s).reports =
          [.callback callback [.undefined, values]] ∧
        (AsyncMethod.get.perform client [e.getD .undefined, callback] s).reports =
          [.callback callback [.undefined, value]] ∧
        values.get (propertyName client.platform
          (gemfireKey client.platform (e.getD .undefined)).value) = value := by
  refine ⟨lossless_iff, ?_⟩
  intro keys properties callback s ks entries hopen hcallback hkeys hanswers hdistinct e he
  rw [gemfireKeys_value] at hkeys
  have hmem := List.mem_map_of_mem (f := fun e =>
    (gemfireKey client.platform (e.getD .undefined)).value) he
  rw [map_eq_of_mapM_eq_some hkeys] at hmem
  obtain ⟨k, hk, hkey⟩ := List.mem_map.mp hmem
  obtain ⟨entry, hentry, hname, hget⟩ := hanswers.get k hk
  refine ⟨_, _, getAll_reports hopen hcallback (List.ne_nil_of_mem hk) hkeys hanswers.getAll,
    get_reports hopen hcallback hkey.symm hget, ?_⟩
  rw [← hkey, ← hname]
  exact ((lossless_iff entries).mpr hdistinct).lookup entry hentry

def fooString : Cacheable := .string (.create (wstringFromV8String (.ofAscii "foo")))

def barString : Cacheable := .string (.create (wstringFromV8String (.ofAscii "bar")))

def bazString : Cacheable := .string (.create (wstringFromV8String (.ofAscii "baz")))

/-- `"foo"` has the value `"bar"`, and `"bar"` has the value `"foo"`. -/
def fooBarEntries : HashMapOfCacheable :=
  [⟨some fooString, some barString⟩, ⟨some barString, some fooString⟩]

/-- The keys `"foo"`, `"bar"` and `"baz"`, of which the last is absent. -/
def fooBarKeys : List (Option JsValue) :=
  [some (.string (.ofAscii "foo")), some (.string (.ofAscii "bar")),
    some (.string (.ofAscii "baz"))]

theorem memoryClient_answers : memoryClient.Answers [fooString, barString, bazString]
    (.start fooBarEntries) (fooBarEntries ++ [⟨some bazString, none⟩]) := by
  refine ⟨rfl, fun key hkey => ?_⟩
  simp only [List.mem_cons, List.not_mem_nil, or_false] at hkey
  rcases hkey with rfl | rfl | rfl
  · exact ⟨⟨some fooString, some barString⟩, by simp [fooBarEntries], rfl, rfl⟩
  · exact ⟨⟨some barString, some fooString⟩, by simp [fooBarEntries], rfl, rfl⟩
  · exact ⟨⟨some bazString, none⟩, by simp, rfl, rfl⟩

/-- `region.getAll(["foo", "bar", "baz"], callback)` and `region.get` of `"bar"` and of
    `"baz"`. -/
theorem batch_lossless_fooBar :
    (∃ values value,
      (AsyncMethod.getAll.perform memoryClient [.array fooBarKeys [], .object .function []]
        (.start fooBarEntries)).reports =
          [.callback (.object .function []) [.undefined, values]] ∧
      (AsyncMethod.get.perform memoryClient [.string (.ofAscii "bar"), .object .function []]
        (.start fooBarEntries)).reports =
          [.callback (.object .function []) [.undefined, value]] ∧
      values.get (propertyName nativeClient
        (gemfireKey nativeClient (.string (.ofAscii "bar"))).value) = value) ∧
    ∃ values value,
      (AsyncMethod.getAll.perform memoryClient [.array fooBarKeys [], .object .function []]
        (.start fooBarEntries)).reports =
          [.callback (.object .function []) [.undefined, values]] ∧
      (AsyncMethod.get.perform memoryClient [.string (.ofAscii "baz"), .object .function []]
        (.start fooBarEntries)).reports =
          [.callback (.object .function []) [.undefined, value]] ∧
      values.get (propertyName nativeClient
        (gemfireKey nativeClient (.string (.ofAscii "baz"))).value) = value := by
  have hread := (batch_lossless memoryClient).2 fooBarKeys [] (.object .function [])
    (.start fooBarEntries) _ _ rfl rfl rfl memoryClient_answers ⟨by decide, by decide⟩
  exact ⟨hread (some (.string (.ofAscii "bar"))) (by simp [fooBarKeys]),
    hread (some (.string (.ofAscii "baz"))) (by simp [fooBarKeys])⟩

/-- The text of a key other than a number or a Date. -/
def keyText : JsValue → JsString
  | .undefined => .ofAscii "undefined"
  | .null => .ofAscii "null"
  | .boolean true => .ofAscii "true"
  | .boolean false => .ofAscii "false"
  | .string s => s
  | _ => .ofAscii "[object Object]"

/-- The keys `true` and `"true"` are two entries of a region and one property of an
    object. -/
theorem not_lossless_true : ¬∀ (p : Platform) (entries : HashMapOfCacheable),
    (entries.map (·.name)).Nodup → Lossless p entries := by
  intro h
  have hlossless := h { nativeClient with toPropertyKey := keyText }
    [⟨some (.boolean true), some barString⟩,
      ⟨some (.string (.create (wstringFromV8String (.ofAscii "true")))), some fooString⟩] (by simp)
  exact absurd ((lossless_iff _).mp hlossless).1 (by decide)

end NodeGemfire
