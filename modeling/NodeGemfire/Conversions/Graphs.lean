import NodeGemfire.Conversions.ToGemfire
import NodeGemfire.Lib.Descent
import NodeGemfire.Lib.MapM

/-!
# Serialization of object graphs

JavaScript objects refer to one another, and may do so in a circle. Over a heap
of objects the recursion of `gemfireValue` follows the references, and keeps no
record of where it has been: it is given here with fuel for the depth of its
calls, and is still running when the fuel is used up.

## Main definitions

- `Heap` — finitely many arrays and objects that refer to one another
- `Heap.gemfireValue` — the conversion of a value of the heap
- `Heap.Visits` — what the conversion of one object converts next
- `Heap.unfold` — the tree that a value of the heap stands for
-/

namespace NodeGemfire

/-- A value as a heap holds it: a primitive, or the address of an object. -/
inductive HeapValue (α : Type)
  | undefined
  | null
  | boolean (value : Bool)
  | number (value : Number)
  | string (value : JsString)
  | symbol (detail : String)
  | reference (address : α)

inductive HeapObject (α : Type)
  | array (elements : List (Option (HeapValue α)))
      (properties : List (Named JsString (HeapValue α)))
  | object (kind : ObjectKind) (properties : List (Named JsString (HeapValue α)))

theorem HeapValue.reference_or_primitive {α : Type} (v : HeapValue α) :
    (∃ address, v = .reference address) ∨ ∀ address, v ≠ .reference address := by
  cases v with
  | reference address => exact .inl ⟨address, rfl⟩
  | _ => exact .inr nofun

/-- Finitely many objects, each at its address. -/
structure Heap where
  size : ℕ
  objects : Fin size → HeapObject (Fin size)

abbrev Heap.Value (heap : Heap) : Type := HeapValue (Fin heap.size)

abbrev Heap.Properties (heap : Heap) : Type := List (Named JsString heap.Value)

/-! ### A conversion that may be running still -/

/-- The computation has a result. -/
def Returned {α : Type} (x : OptionT Isolate α) : Prop := x.run.value.isSome

section Returned

variable {α β : Type}

@[simp] theorem returned_pure (a : α) : Returned (pure a : OptionT Isolate α) := rfl

@[simp] theorem not_returned_failure : ¬Returned (failure : OptionT Isolate α) := nofun

theorem returned_bind {x : OptionT Isolate α} {f : α → OptionT Isolate β} :
    Returned (x >>= f) ↔ ∃ a, x.run.value = some a ∧ Returned (f a) := by
  rw [Returned, OptionT.run_bind, Option.elimM, Isolate.bind_value]
  cases x.run.value with
  | none =>
    constructor
    · exact nofun
    · rintro ⟨a, ha, -⟩
      cases ha
  | some a =>
    constructor
    · exact fun h => ⟨a, rfl, h⟩
    · rintro ⟨_, ha, h⟩
      cases ha
      exact h

@[simp] theorem returned_lift_bind {x : Isolate α} {f : α → OptionT Isolate β} :
    Returned ((liftM x : OptionT Isolate α) >>= f) ↔ Returned (f x.value) := by
  rw [returned_bind]
  constructor
  · rintro ⟨a, ha, h⟩
    cases ha
    exact h
  · exact fun h => ⟨x.value, rfl, h⟩

/-- What follows always returns. -/
theorem returned_bind_of_forall {x : OptionT Isolate α} {f : α → OptionT Isolate β}
    (hf : ∀ a, Returned (f a)) : Returned (x >>= f) ↔ Returned x := by
  rw [returned_bind, Returned, Option.isSome_iff_exists]
  exact exists_congr fun a => and_iff_left (hf a)

/-- One that returned is followed by the rest. -/
theorem returned_seq {x : OptionT Isolate α} {f : α → OptionT Isolate β} {P : Prop}
    (hf : ∀ a, Returned (f a) ↔ P) : Returned (x >>= f) ↔ Returned x ∧ P := by
  rw [returned_bind, Returned, Option.isSome_iff_exists]
  simp only [hf, exists_and_right]

theorem returned_mapM {f : α → OptionT Isolate β} {l : List α} :
    Returned (l.mapM f) ↔ ∀ a ∈ l, Returned (f a) := by
  induction l with
  | nil => simp
  | cons a l ih =>
    have hrest (b : β) : Returned (do let bs ← l.mapM f; pure (b :: bs)) ↔
        ∀ a ∈ l, Returned (f a) := by
      rw [returned_bind_of_forall fun _ => returned_pure _]
      exact ih
    rw [List.mapM_cons, returned_seq hrest, List.forall_mem_cons]

end Returned

namespace Heap

variable (p : Platform) (heap : Heap)

/-! ### The conversion -/

/-- The loop over the own properties, as in the conversion of a tree. -/
def writeFields (convert : heap.Value → OptionT Isolate CacheablePtr)
    (written : List (PdxField CacheablePtr)) :
    heap.Properties → OptionT Isolate (Except GeodeException (List (PdxField CacheablePtr)))
  | [] => pure (.ok written)
  | property :: properties => do
    let cacheablePtr ← convert property.value
    match p.writeObject (written.map (·.name)) (fieldName property.name) with
    | .error exception => pure (.error exception)
    | .ok () =>
      writeFields convert (written ++ [⟨fieldName property.name, .object, cacheablePtr⟩]) properties

/-- What `catch` does with an exception of the client. -/
def caught (exception : GeodeException) : OptionT Isolate CacheablePtr := do
  throwGemfireException exception
  pure none

def gemfireObject (className : Bytes) (convert : heap.Value → OptionT Isolate CacheablePtr)
    (properties : heap.Properties) : OptionT Isolate CacheablePtr := do
  match p.createPdxInstanceFactory (cString className) with
  | .error exception => caught exception
  | .ok () =>
    match ← heap.writeFields p convert [] properties with
    | .error exception => caught exception
    | .ok written =>
      match p.create (written.map (·.name)) with
      | .error exception => caught exception
      | .ok () => pure (some (.pdxInstance (cString className) written))

def isArray : heap.Value → Bool
  | .reference address =>
    match heap.objects address with
    | .array _ _ => true
    | .object _ _ => false
  | _ => false

def shape (properties : heap.Properties) : List (Bytes × Bool) :=
  properties.map fun property => (Unicode.utf8OfUtf16 property.name, heap.isArray property.value)

-- fuel is used up by following a reference, since nothing else calls deeper
def gemfireValue : ℕ → heap.Value → OptionT Isolate CacheablePtr
  | _, .undefined => pure (some .undefined)
  | _, .null => pure none
  | _, .boolean value => pure (some (.boolean value))
  | _, .number value => pure (some (.double value))
  | _, .string value => pure (some (.string (.create (wstringFromV8String value))))
  | _, .symbol detail => do
    nanThrowError ("Unable to serialize to GemFire; unknown JavaScript object: " ++ detail)
    pure none
  | 0, .reference _ => failure
  | fuel + 1, .reference address =>
    match heap.objects address with
    | .array elements _ => do
      let arrayList ← elements.mapM fun element => gemfireValue fuel (element.getD .undefined)
      pure (some (.arrayList arrayList))
    | .object .plain properties | .object (.nativeError _) properties =>
      heap.gemfireObject p (getClassName (heap.shape properties)) (gemfireValue fuel) properties
    | .object (.stringObject value) _ =>
      pure (some (.string (.create (wstringFromV8String value))))
    | .object (.numberObject value) _ => pure (some (.double value))
    | .object (.booleanObject value) _ => pure (some (.boolean value))
    | .object (.date time) _ => pure (some (.date (gemfireDate time)))
    | .object .function _ => do
      nanThrowError "Unable to serialize to GemFire; functions are not supported."
      pure none

/-! ### What a conversion visits -/

/-- The values converted by the loop over the properties: up to the first field that the
    factory refuses, with it. -/
def convertedValues (written : List Bytes) : heap.Properties → List heap.Value
  | [] => []
  | property :: properties =>
    property.value ::
      match p.writeObject written (fieldName property.name) with
      | .error _ => []
      | .ok () => convertedValues (written ++ [fieldName property.name]) properties

/-- There is no loop without a factory. -/
def fieldValues (properties : heap.Properties) : List heap.Value :=
  match p.createPdxInstanceFactory (cString (getClassName (heap.shape properties))) with
  | .error _ => []
  | .ok () => heap.convertedValues p [] properties

/-- The values that the conversion of an object converts. -/
def visited (address : Fin heap.size) : List heap.Value :=
  match heap.objects address with
  | .array elements _ => elements.map (·.getD .undefined)
  | .object .plain properties | .object (.nativeError _) properties =>
    heap.fieldValues p properties
  | .object _ _ => []

/-- The conversion of one object converts the other. -/
def Visits (address next : Fin heap.size) : Prop := .reference next ∈ heap.visited p address

variable {p heap}

theorem returned_writeFields {convert : heap.Value → OptionT Isolate CacheablePtr}
    {written : List (PdxField CacheablePtr)} {properties : heap.Properties} :
    Returned (heap.writeFields p convert written properties) ↔
      ∀ v ∈ heap.convertedValues p (written.map (·.name)) properties, Returned (convert v) := by
  induction properties generalizing written with
  | nil => simp [writeFields, convertedValues]
  | cons property properties ih =>
    rw [writeFields, convertedValues, List.forall_mem_cons]
    apply returned_seq
    intro cacheablePtr
    cases p.writeObject (written.map (·.name)) (fieldName property.name) with
    | error exception => simp
    | ok =>
      dsimp only
      rw [ih, List.map_append]
      rfl

theorem returned_caught (exception : GeodeException) : Returned (caught exception) :=
  returned_lift_bind.mpr (returned_pure none)

theorem returned_gemfireObject {convert : heap.Value → OptionT Isolate CacheablePtr}
    {properties : heap.Properties} :
    Returned (heap.gemfireObject p (getClassName (heap.shape properties)) convert properties) ↔
      ∀ v ∈ heap.fieldValues p properties, Returned (convert v) := by
  rw [gemfireObject, fieldValues]
  cases p.createPdxInstanceFactory (cString (getClassName (heap.shape properties))) with
  | error exception => simpa using returned_caught exception
  | ok =>
    refine Iff.trans (returned_bind_of_forall ?_) returned_writeFields
    rintro (exception | written)
    · exact returned_caught exception
    · dsimp only
      cases p.create (written.map (·.name)) with
      | error exception => exact returned_caught exception
      | ok => exact returned_pure _

/-- The conversion of an object returns when those of what it visits do. -/
theorem returned_reference {fuel : ℕ} {address : Fin heap.size} :
    Returned (heap.gemfireValue p (fuel + 1) (.reference address)) ↔
      ∀ v ∈ heap.visited p address, Returned (heap.gemfireValue p fuel v) := by
  rw [gemfireValue, visited]
  cases heap.objects address with
  | array elements properties =>
    dsimp only
    rw [returned_bind_of_forall fun _ => returned_pure _, returned_mapM, List.forall_mem_map]
  | object kind properties =>
    cases kind with
    | plain => exact returned_gemfireObject
    | nativeError message => exact returned_gemfireObject
    | function =>
      exact iff_of_true (returned_lift_bind.mpr (returned_pure none)) (List.forall_mem_nil _)
    | _ => simp

/-- A primitive needs no fuel. -/
theorem returned_primitive {fuel : ℕ} {v : heap.Value} (h : ∀ address, v ≠ .reference address) :
    Returned (heap.gemfireValue p fuel v) := by
  cases v with
  | reference address => exact absurd rfl (h address)
  | symbol detail => cases fuel <;> exact returned_lift_bind.mpr (returned_pure none)
  | _ => cases fuel <;> exact returned_pure _

theorem returned_iff_within {fuel : ℕ} {address : Fin heap.size} :
    Returned (heap.gemfireValue p fuel (.reference address)) ↔
      Within (heap.Visits p) fuel address := by
  induction fuel generalizing address with
  | zero => exact iff_of_false not_returned_failure id
  | succ fuel ih =>
    rw [returned_reference]
    constructor
    · intro h next hnext
      exact ih.mp (h _ hnext)
    · intro h v hv
      rcases v.reference_or_primitive with ⟨next, rfl⟩ | hprimitive
      · exact ih.mpr (h next hv)
      · exact returned_primitive hprimitive

/-! ### The fuel does not matter -/

theorem writeFields_congr {f g : heap.Value → OptionT Isolate CacheablePtr}
    {written : List (PdxField CacheablePtr)} {properties : heap.Properties}
    (h : ∀ v ∈ heap.convertedValues p (written.map (·.name)) properties, f v = g v) :
    heap.writeFields p f written properties = heap.writeFields p g written properties := by
  induction properties generalizing written with
  | nil => rfl
  | cons property properties ih =>
    rw [convertedValues, List.forall_mem_cons] at h
    rw [writeFields, writeFields, h.1]
    congr 1
    funext cacheablePtr
    have hrest := h.2
    revert hrest
    cases p.writeObject (written.map (·.name)) (fieldName property.name) with
    | error exception => exact fun _ => rfl
    | ok =>
      intro hrest
      apply ih
      rw [List.map_append]
      exact hrest

theorem gemfireObject_congr {f g : heap.Value → OptionT Isolate CacheablePtr}
    {properties : heap.Properties} (h : ∀ v ∈ heap.fieldValues p properties, f v = g v) :
    heap.gemfireObject p (getClassName (heap.shape properties)) f properties =
      heap.gemfireObject p (getClassName (heap.shape properties)) g properties := by
  rw [fieldValues] at h
  rw [gemfireObject, gemfireObject]
  revert h
  cases p.createPdxInstanceFactory (cString (getClassName (heap.shape properties))) with
  | error exception => exact fun _ => rfl
  | ok =>
    intro h
    dsimp only
    rw [writeFields_congr h]

/-- An object is converted alike when everything it visits is. -/
theorem gemfireValue_congr {fuel fuel' : ℕ} {address : Fin heap.size}
    (h : ∀ v ∈ heap.visited p address, heap.gemfireValue p fuel v = heap.gemfireValue p fuel' v) :
    heap.gemfireValue p (fuel + 1) (.reference address) =
      heap.gemfireValue p (fuel' + 1) (.reference address) := by
  rw [visited] at h
  rw [gemfireValue, gemfireValue]
  revert h
  cases heap.objects address with
  | array elements properties =>
    intro h
    rw [List.forall_mem_map] at h
    dsimp only
    rw [mapM_congr h]
  | object kind properties =>
    cases kind with
    | plain => exact gemfireObject_congr
    | nativeError message => exact gemfireObject_congr
    | _ => exact fun _ => rfl

/-- A conversion that returns does the same with more fuel. -/
theorem gemfireValue_mono {fuel fuel' : ℕ} {v : heap.Value}
    (h : Returned (heap.gemfireValue p fuel v)) (hle : fuel ≤ fuel') :
    heap.gemfireValue p fuel' v = heap.gemfireValue p fuel v := by
  induction fuel generalizing v fuel' with
  | zero =>
    cases v with
    | reference address => exact absurd h not_returned_failure
    | _ => cases fuel' <;> rfl
  | succ fuel ih =>
    obtain ⟨fuel', rfl⟩ := Nat.exists_eq_add_one_of_ne_zero (Nat.ne_zero_of_lt hle)
    rcases v.reference_or_primitive with ⟨address, rfl⟩ | hprimitive
    · apply gemfireValue_congr
      intro v hv
      exact ih (returned_reference.mp h v hv) (Nat.le_of_succ_le_succ hle)
    · cases v with
      | reference address => exact absurd rfl (hprimitive address)
      | _ => rfl

/-! ### The tree behind a value -/

variable (heap) in
/-- The tree that is seen from a value when references are followed to some depth. -/
def unfold : ℕ → heap.Value → Option JsValue
  | _, .undefined => some .undefined
  | _, .null => some .null
  | _, .boolean value => some (.boolean value)
  | _, .number value => some (.number value)
  | _, .string value => some (.string value)
  | _, .symbol detail => some (.symbol detail)
  | 0, .reference _ => none
  | fuel + 1, .reference address =>
    let unfoldProperties (properties : heap.Properties) : Option (List (Named JsString JsValue)) :=
      properties.mapM fun property => (unfold fuel property.value).map (⟨property.name, ·⟩)
    match heap.objects address with
    | .array elements properties => do
      let trees ← elements.mapM fun
        | none => some none
        | some element => (unfold fuel element).map some
      let named ← unfoldProperties properties
      pure (.array trees named)
    | .object kind properties => do
      let named ← unfoldProperties properties
      pure (.object kind named)

/-- A property of the heap and one of a tree: the same name, and the value unfolded. -/
def UnfoldsTo (fuel : ℕ) (property : Named JsString heap.Value) (tree : Named JsString JsValue) :
    Prop :=
  tree.name = property.name ∧ heap.unfold fuel property.value = some tree.value

theorem unfold_isArray {fuel : ℕ} {v : heap.Value} {tree : JsValue}
    (h : heap.unfold fuel v = some tree) :
    (tree.isArray && !tree.isString) = heap.isArray v := by
  cases v with
  | reference address =>
    cases fuel with
    | zero => cases h
    | succ fuel =>
      rw [unfold] at h
      rw [isArray]
      revert h
      cases heap.objects address with
      | array elements properties =>
        intro h
        obtain ⟨trees, -, hrest⟩ := Option.bind_eq_some_iff.mp h
        obtain ⟨named, -, hpure⟩ := Option.bind_eq_some_iff.mp hrest
        cases hpure
        rfl
      | object kind properties =>
        intro h
        obtain ⟨named, -, hpure⟩ := Option.bind_eq_some_iff.mp h
        cases hpure
        rfl
  | _ =>
    cases fuel <;> cases h <;> rfl

theorem shape_unfold {fuel : ℕ} {properties : heap.Properties}
    {trees : List (Named JsString JsValue)} (h : List.Forall₂ (UnfoldsTo fuel) properties trees) :
    NodeGemfire.shape trees = heap.shape properties := by
  induction h with
  | nil => rfl
  | cons hhead _ ih =>
    obtain ⟨hname, hvalue⟩ := hhead
    rw [NodeGemfire.shape, List.map_cons, ← NodeGemfire.shape, ih, hname, unfold_isArray hvalue]
    rfl

private theorem forall₂_elements {fuel : ℕ} {elements : List (Option heap.Value)}
    {trees : List (Option JsValue)}
    (h : (elements.mapM fun
      | none => some none
      | some element => (heap.unfold fuel element).map some) = some trees) :
    List.Forall₂ (fun (element : Option heap.Value) tree =>
      heap.unfold fuel (element.getD .undefined) = some (tree.getD .undefined)) elements trees := by
  refine (mapM_eq_some_iff.mp h).imp ?_
  intro element tree heq
  cases element with
  | none =>
    cases heq
    cases fuel <;> rfl
  | some element =>
    obtain ⟨_, hunfold, rfl⟩ := Option.map_eq_some_iff.mp heq
    exact hunfold

private theorem forall₂_properties {fuel : ℕ} {properties : heap.Properties}
    {trees : List (Named JsString JsValue)}
    (h : (properties.mapM fun property =>
      (heap.unfold fuel property.value).map (Named.mk property.name)) = some trees) :
    List.Forall₂ (UnfoldsTo fuel) properties trees := by
  refine (mapM_eq_some_iff.mp h).imp ?_
  intro property tree heq
  obtain ⟨_, hunfold, rfl⟩ := Option.map_eq_some_iff.mp heq
  exact ⟨rfl, hunfold⟩

section Agreement

variable (heap) in
/-- The conversion of the values of a heap agrees with the one of the trees they unfold to. -/
def Agrees (p : Platform) (fuel : ℕ) : Prop :=
  ∀ (v : heap.Value) (tree : JsValue), heap.unfold fuel v = some tree →
    heap.gemfireValue p fuel v = liftM (NodeGemfire.gemfireValue p tree)

variable {fuel : ℕ}

theorem Agrees.elements (hagrees : heap.Agrees p fuel)
    {elements : List (Option heap.Value)} {trees : List (Option JsValue)}
    (h : List.Forall₂ (fun (element : Option heap.Value) tree =>
      heap.unfold fuel (element.getD .undefined) = some (tree.getD .undefined)) elements trees) :
    (elements.mapM fun element => heap.gemfireValue p fuel (element.getD .undefined)) =
      liftM (gemfireElements p trees) := by
  induction h with
  | nil => simp [gemfireElements]
  | @cons element tree elements trees hhead _ ih =>
    rw [List.mapM_cons, hagrees _ _ hhead, ih, gemfireElements_cons]
    simp only [liftM_bind, liftM_pure]

theorem Agrees.writeFields (hagrees : heap.Agrees p fuel)
    {written : List (PdxField CacheablePtr)} {properties : heap.Properties}
    {trees : List (Named JsString JsValue)} (h : List.Forall₂ (UnfoldsTo fuel) properties trees) :
    heap.writeFields p (heap.gemfireValue p fuel) written properties =
      liftM (NodeGemfire.writeFields p written (gemfireFields p trees)) := by
  induction h generalizing written with
  | nil => simp [Heap.writeFields, gemfireFields, NodeGemfire.writeFields]
  | @cons property tree properties trees hhead _ ih =>
    obtain ⟨hname, hvalue⟩ := hhead
    rw [Heap.writeFields, gemfireFields, NodeGemfire.writeFields, hagrees _ _ hvalue, hname]
    simp only [liftM_bind]
    congr 1
    funext cacheablePtr
    cases p.writeObject (written.map (·.name)) (fieldName property.name) with
    | error exception => simp
    | ok => exact ih

theorem Agrees.gemfireObject (hagrees : heap.Agrees p fuel) {className : Bytes}
    {properties : heap.Properties} {trees : List (Named JsString JsValue)}
    (h : List.Forall₂ (UnfoldsTo fuel) properties trees) :
    heap.gemfireObject p className (heap.gemfireValue p fuel) properties =
      liftM (NodeGemfire.gemfireObject p className (gemfireFields p trees)) := by
  rw [Heap.gemfireObject, NodeGemfire.gemfireObject]
  cases p.createPdxInstanceFactory (cString className) with
  | error exception => simp [caught]
  | ok =>
    simp only [hagrees.writeFields h, liftM_bind]
    congr 1
    funext written
    cases written with
    | error exception => simp [caught]
    | ok written =>
      dsimp only
      cases p.create (written.map (·.name)) with
      | error exception => simp [caught]
      | ok => simp

theorem agrees_primitive {v : heap.Value} {tree : JsValue}
    (hprimitive : ∀ address, v ≠ .reference address) (h : heap.unfold fuel v = some tree) :
    heap.gemfireValue p fuel v = liftM (NodeGemfire.gemfireValue p tree) := by
  cases v with
  | reference address => exact absurd rfl (hprimitive address)
  | symbol detail =>
    cases fuel <;> cases h <;> simp [Heap.gemfireValue, NodeGemfire.gemfireValue]
  | _ =>
    cases fuel <;> cases h <;> rfl

theorem Agrees.reference (hagrees : heap.Agrees p fuel) {address : Fin heap.size}
    {tree : JsValue} (h : heap.unfold (fuel + 1) (.reference address) = some tree) :
    heap.gemfireValue p (fuel + 1) (.reference address) =
      liftM (NodeGemfire.gemfireValue p tree) := by
  rw [unfold] at h
  rw [Heap.gemfireValue]
  revert h
  cases heap.objects address with
  | array elements properties =>
    intro h
    obtain ⟨trees, htrees, hrest⟩ := Option.bind_eq_some_iff.mp h
    obtain ⟨named, -, hpure⟩ := Option.bind_eq_some_iff.mp hrest
    cases hpure
    simp only [hagrees.elements (forall₂_elements htrees), NodeGemfire.gemfireValue, liftM_bind,
      liftM_pure]
  | object kind properties =>
    intro h
    obtain ⟨named, hnamed, hpure⟩ := Option.bind_eq_some_iff.mp h
    cases hpure
    have hunfolds : List.Forall₂ (UnfoldsTo fuel) properties named := forall₂_properties hnamed
    cases kind with
    | plain =>
      rw [NodeGemfire.gemfireValue, shape_unfold hunfolds]
      exact hagrees.gemfireObject hunfolds
    | nativeError message =>
      rw [NodeGemfire.gemfireValue, shape_unfold hunfolds]
      exact hagrees.gemfireObject hunfolds
    | function => simp [NodeGemfire.gemfireValue]
    | _ => rfl

/-- **Agreement**: a value that unfolds to a tree is converted as that tree is. -/
theorem agrees (p : Platform) (fuel : ℕ) : heap.Agrees p fuel := by
  induction fuel with
  | zero =>
    intro v tree h
    apply agrees_primitive _ h
    rintro address rfl
    cases h
  | succ fuel ih =>
    intro v tree h
    rcases v.reference_or_primitive with ⟨address, rfl⟩ | hprimitive
    · exact ih.reference h
    · exact agrees_primitive hprimitive h

end Agreement

/-! ### Termination -/

/-- The recursion of `gemfireValue` ends, with a value or with what it schedules, if and
    only if it can follow no references in a circle. -/
theorem gemfireValue_returns_iff (p : Platform) (heap : Heap) (v : heap.Value) :
    (∃ fuel, Returned (heap.gemfireValue p fuel v)) ↔
      ∀ address, v = .reference address → ¬ReachesCycle (heap.Visits p) address := by
  constructor
  · rintro ⟨fuel, h⟩ address rfl
    exact exists_within_iff.mp ⟨fuel, returned_iff_within.mp h⟩
  · intro h
    rcases v.reference_or_primitive with ⟨address, rfl⟩ | hprimitive
    · obtain ⟨fuel, hwithin⟩ := exists_within_iff.mpr (h address rfl)
      exact ⟨fuel, returned_iff_within.mpr hwithin⟩
    · exact ⟨0, returned_primitive hprimitive⟩

/-- An array that is its own element, as `array.push(array)` makes it. -/
def selfContained : Heap := ⟨1, fun _ => .array [some (.reference 0)] []⟩

theorem not_returns_selfContained :
    ¬∀ (p : Platform) (heap : Heap) (v : heap.Value),
      ∃ fuel, Returned (heap.gemfireValue p fuel v) := by
  intro h
  obtain ⟨fuel, hreturned⟩ := h nativeClient selfContained (.reference (0 : Fin 1))
  have hself : selfContained.Visits nativeClient (0 : Fin 1) (0 : Fin 1) :=
    List.mem_singleton.mpr rfl
  have hcycle : ReachesCycle (selfContained.Visits nativeClient) (0 : Fin 1) :=
    ⟨_, .refl, .single hself⟩
  exact not_reachesCycle_of_acc (returned_iff_within.mp hreturned).acc hcycle

end Heap

end NodeGemfire
