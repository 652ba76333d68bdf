import NodeGemfire.Conversions.Graphs
import NodeGemfire.Conversions.RoundTrip

/-!
# Shared objects

An object that is reached in two ways is converted twice. So the conversion cannot tell
it from two objects that look alike, and what comes back has copies: a value without
circles is converted as the tree it unfolds to.

## Main definitions

- `Heap.Bisimulation` — a relation between objects that look alike
- `Heap.Refers` — the references of an object

## Main results

- `Heap.gemfireValue_alike` — what looks alike is converted alike
- `Heap.converted_as_tree` — a value without circles is converted as a tree
-/

namespace NodeGemfire

/-! ### Values that look alike -/

section Alike

variable {α β : Type}

/-- Equal primitives, or references to related objects. -/
inductive HeapValue.Alike (R : α → β → Prop) : HeapValue α → HeapValue β → Prop
  | undefined : Alike R .undefined .undefined
  | null : Alike R .null .null
  | boolean (value : Bool) : Alike R (.boolean value) (.boolean value)
  | number (value : Number) : Alike R (.number value) (.number value)
  | string (value : JsString) : Alike R (.string value) (.string value)
  | symbol (detail : String) : Alike R (.symbol detail) (.symbol detail)
  | reference {a : α} {b : β} (h : R a b) : Alike R (.reference a) (.reference b)

/-- One name, and values that look alike. -/
def AlikeProperty (R : α → β → Prop) (property : Named JsString (HeapValue α))
    (other : Named JsString (HeapValue β)) : Prop :=
  other.name = property.name ∧ property.value.Alike R other.value

/-- Arrays with elements, or objects of one kind with properties, that look alike one by
    one; holes look like holes. -/
inductive HeapObject.Alike (R : α → β → Prop) : HeapObject α → HeapObject β → Prop
  | array {elements : List (Option (HeapValue α))} {others : List (Option (HeapValue β))}
      {properties : List (Named JsString (HeapValue α))}
      {otherProperties : List (Named JsString (HeapValue β))}
      (helements : List.Forall₂ (Option.Rel (HeapValue.Alike R)) elements others)
      (hproperties : List.Forall₂ (AlikeProperty R) properties otherProperties) :
      Alike R (.array elements properties) (.array others otherProperties)
  | object (kind : ObjectKind) {properties : List (Named JsString (HeapValue α))}
      {otherProperties : List (Named JsString (HeapValue β))}
      (hproperties : List.Forall₂ (AlikeProperty R) properties otherProperties) :
      Alike R (.object kind properties) (.object kind otherProperties)

end Alike

namespace Heap

variable {p : Platform} {heap heap' : Heap} {R : Fin heap.size → Fin heap'.size → Prop}

/-- Related objects look alike, and so does all that they refer to. -/
def Bisimulation (R : Fin heap.size → Fin heap'.size → Prop) : Prop :=
  ∀ address other, R address other → (heap.objects address).Alike R (heap'.objects other)

theorem isArray_alike (hR : Bisimulation R) {v : heap.Value} {v' : heap'.Value}
    (h : v.Alike R v') : heap'.isArray v' = heap.isArray v := by
  cases h with
  | @reference address other hrelated =>
    have hobject := hR address other hrelated
    simp only [isArray]
    generalize heap.objects address = o at hobject
    generalize heap'.objects other = o' at hobject
    cases hobject <;> rfl
  | _ => rfl

theorem shape_alike (hR : Bisimulation R) {properties : heap.Properties}
    {others : heap'.Properties} (h : List.Forall₂ (AlikeProperty R) properties others) :
    heap'.shape others = heap.shape properties := by
  induction h with
  | nil => rfl
  | cons hhead _ ih =>
    obtain ⟨hname, hvalue⟩ := hhead
    rw [shape, List.map_cons, ← shape, ih, hname, isArray_alike hR hvalue]
    rfl

/-- The conversions of the two heaps agree on what looks alike. -/
def AgreesAlike (p : Platform) (R : Fin heap.size → Fin heap'.size → Prop) (fuel : ℕ) : Prop :=
  ∀ (v : heap.Value) (v' : heap'.Value), v.Alike R v' →
    heap.gemfireValue p fuel v = heap'.gemfireValue p fuel v'

variable {fuel : ℕ}

theorem AgreesAlike.elements (hagrees : AgreesAlike p R fuel)
    {elements : List (Option heap.Value)} {others : List (Option heap'.Value)}
    (h : List.Forall₂ (Option.Rel (HeapValue.Alike R)) elements others) :
    (elements.mapM fun element => heap.gemfireValue p fuel (element.getD .undefined)) =
      others.mapM fun element => heap'.gemfireValue p fuel (element.getD .undefined) := by
  induction h with
  | nil => rfl
  | @cons element other elements others hhead _ ih =>
    have hhead' : (element.getD .undefined).Alike R (other.getD .undefined) := by
      cases hhead with
      | some h => exact h
      | none => exact .undefined
    rw [List.mapM_cons, List.mapM_cons, hagrees _ _ hhead', ih]

theorem AgreesAlike.writeFields (hagrees : AgreesAlike p R fuel)
    {written : List (PdxField CacheablePtr)} {properties : heap.Properties}
    {others : heap'.Properties} (h : List.Forall₂ (AlikeProperty R) properties others) :
    heap.writeFields p (heap.gemfireValue p fuel) written properties =
      heap'.writeFields p (heap'.gemfireValue p fuel) written others := by
  induction h generalizing written with
  | nil => rfl
  | @cons property other properties others hhead _ ih =>
    obtain ⟨hname, hvalue⟩ := hhead
    rw [Heap.writeFields, Heap.writeFields, hagrees _ _ hvalue, hname]
    congr 1
    funext cacheablePtr
    cases p.writeObject (written.map (·.name)) (fieldName property.name) with
    | error exception => rfl
    | ok => exact ih

theorem AgreesAlike.gemfireObject (hagrees : AgreesAlike p R fuel) (hR : Bisimulation R)
    {properties : heap.Properties} {others : heap'.Properties}
    (h : List.Forall₂ (AlikeProperty R) properties others) :
    heap.gemfireObject p (getClassName (heap.shape properties)) (heap.gemfireValue p fuel)
        properties =
      heap'.gemfireObject p (getClassName (heap'.shape others)) (heap'.gemfireValue p fuel)
        others := by
  rw [shape_alike hR h, Heap.gemfireObject, Heap.gemfireObject, hagrees.writeFields h]

/-- **What looks alike is converted alike**: with any fuel, the conversions of values that a
    bisimulation relates give one result, or both are running still. -/
theorem gemfireValue_alike (p : Platform) (hR : Bisimulation R) {v : heap.Value}
    {v' : heap'.Value} (h : v.Alike R v') (fuel : ℕ) :
    heap.gemfireValue p fuel v = heap'.gemfireValue p fuel v' := by
  have hagrees : AgreesAlike p R fuel := by
    clear h
    induction fuel with
    | zero =>
      intro v v' h
      cases h <;> rfl
    | succ fuel ih =>
      intro v v' h
      cases h with
      | @reference address other hrelated =>
        have hobject := hR address other hrelated
        rw [gemfireValue, gemfireValue]
        generalize heap.objects address = o at hobject
        generalize heap'.objects other = o' at hobject
        cases hobject with
        | array helements _ =>
          dsimp only
          rw [ih.elements helements]
        | object kind hproperties =>
          cases kind with
          | plain => exact ih.gemfireObject hR hproperties
          | nativeError message => exact ih.gemfireObject hR hproperties
          | _ => rfl
      | _ => rfl
  exact hagrees v v' h

/-- `var x = []; {"a": x, "b": x}` -/
def shared : Heap where
  size := 2
  objects address :=
    if address = 0 then .object .plain [⟨.ofAscii "a", .reference 1⟩, ⟨.ofAscii "b", .reference 1⟩]
    else .array [] []

/-- `{"a": [], "b": []}` -/
def copied : Heap where
  size := 3
  objects address :=
    if address = 0 then .object .plain [⟨.ofAscii "a", .reference 1⟩, ⟨.ofAscii "b", .reference 2⟩]
    else .array [] []

/-- The objects look alike, and so do the arrays. -/
def sharedOrCopied (address : Fin shared.size) (other : Fin copied.size) : Prop :=
  address = (0 : Fin 2) ↔ other = (0 : Fin 3)

theorem bisimulation_sharedOrCopied : Bisimulation sharedOrCopied := by
  intro address other h
  by_cases hzero : address = (0 : Fin 2)
  · have hother : other = (0 : Fin 3) := h.mp hzero
    subst hzero hother
    refine .object .plain (.cons ⟨rfl, .reference ?_⟩ (.cons ⟨rfl, .reference ?_⟩ .nil))
    · exact (by decide : (1 : Fin 2) = 0 ↔ (1 : Fin 3) = 0)
    · exact (by decide : (1 : Fin 2) = 0 ↔ (2 : Fin 3) = 0)
  · have haddress : shared.objects address = .array [] [] := if_neg hzero
    have hother : copied.objects other = .array [] [] := if_neg fun heq => hzero (h.mpr heq)
    rw [haddress, hother]
    exact .array .nil .nil

theorem gemfireValue_alike_shared :
    shared.gemfireValue nativeClient 2 (.reference (0 : Fin 2)) =
      copied.gemfireValue nativeClient 2 (.reference (0 : Fin 3)) :=
  gemfireValue_alike nativeClient bisimulation_sharedOrCopied
    (.reference (iff_of_true rfl rfl)) 2

/-! ### Values without circles -/

/-- The values of the elements and properties. -/
def values {α : Type} : HeapObject α → List (HeapValue α)
  | .array elements properties => elements.filterMap id ++ properties.map (·.value)
  | .object _ properties => properties.map (·.value)

/-- One object has a reference to the other. -/
def Refers (heap : Heap) (address next : Fin heap.size) : Prop :=
  .reference next ∈ values (heap.objects address)

/-- An object unfolds when its values do. -/
theorem exists_unfold_reference {address : Fin heap.size}
    (h : ∀ v ∈ values (heap.objects address), ∃ tree, heap.unfold fuel v = some tree) :
    ∃ tree, heap.unfold (fuel + 1) (.reference address) = some tree := by
  have hproperties {properties : heap.Properties}
      (h : ∀ property ∈ properties, ∃ tree, heap.unfold fuel property.value = some tree) :
      ∃ named, (properties.mapM fun property =>
        (heap.unfold fuel property.value).map (Named.mk property.name)) = some named := by
    refine exists_mapM_eq_some fun property hproperty => ?_
    obtain ⟨tree, htree⟩ := h property hproperty
    exact ⟨⟨property.name, tree⟩, by rw [htree]; rfl⟩
  rw [unfold]
  revert h
  cases heap.objects address with
  | array elements properties =>
    intro h
    have hnamed := hproperties fun property hproperty =>
      h property.value (List.mem_append_right _ (List.mem_map_of_mem hproperty))
    refine exists_bind_eq_some (exists_mapM_eq_some fun element helement => ?_)
      fun trees => exists_bind_eq_some hnamed fun named => ⟨_, rfl⟩
    cases element with
    | none => exact ⟨none, rfl⟩
    | some element =>
      have hmem : element ∈ values (.array elements properties) :=
        List.mem_append_left _ (List.mem_filterMap.mpr ⟨some element, helement, rfl⟩)
      obtain ⟨tree, htree⟩ := h element hmem
      exact ⟨some tree, by simp [htree]⟩
  | object kind properties =>
    intro h
    have hnamed := hproperties fun property hproperty =>
      h property.value (List.mem_map_of_mem hproperty)
    exact exists_bind_eq_some hnamed fun named => ⟨_, rfl⟩

theorem exists_unfold_primitive {v : heap.Value} (h : ∀ address, v ≠ .reference address)
    (fuel : ℕ) : ∃ tree, heap.unfold fuel v = some tree := by
  cases v with
  | reference address => exact absurd rfl (h address)
  | _ => cases fuel <;> exact ⟨_, rfl⟩

theorem exists_unfold_of_within {address : Fin heap.size} (h : Within heap.Refers fuel address) :
    ∃ tree, heap.unfold fuel (.reference address) = some tree := by
  induction fuel generalizing address with
  | zero => exact h.elim
  | succ fuel ih =>
    refine exists_unfold_reference fun v hv => ?_
    rcases v.reference_or_primitive with ⟨next, rfl⟩ | hprimitive
    · exact ih (h next hv)
    · exact exists_unfold_primitive hprimitive fuel

/-- **A value without circles is converted as a tree**: it unfolds to one at some depth,
    with that much fuel or more its conversion is the one of the tree, and if the leaves
    and names of the tree survive, its normal form comes back. -/
theorem converted_as_tree (hp : p.Faithful) {v : heap.Value}
    (hacyclic : ∀ address, v = .reference address → ¬ReachesCycle heap.Refers address) :
    ∃ depth tree, heap.unfold depth v = some tree ∧
      (∀ fuel, depth ≤ fuel →
        heap.gemfireValue p fuel v = liftM (NodeGemfire.gemfireValue p tree)) ∧
      (Survives p tree → (NodeGemfire.gemfireValue p tree).thrown = [] ∧
        ∃ r, v8Value p (NodeGemfire.gemfireValue p tree).value = pure r ∧
          r.sortFields = tree.norm.sortFields) := by
  obtain ⟨depth, tree, hunfold⟩ : ∃ depth tree, heap.unfold depth v = some tree := by
    rcases v.reference_or_primitive with ⟨address, rfl⟩ | hprimitive
    · obtain ⟨depth, hwithin⟩ := exists_within_iff.mpr (hacyclic address rfl)
      exact ⟨depth, exists_unfold_of_within hwithin⟩
    · exact ⟨0, exists_unfold_primitive hprimitive 0⟩
  refine ⟨depth, tree, hunfold, fun fuel hle => ?_, fun hsurvives => ?_⟩
  · have hconverted := agrees p depth v tree hunfold
    have hreturned : Returned (heap.gemfireValue p depth v) := by
      rw [hconverted]
      rfl
    rw [gemfireValue_mono hreturned hle, hconverted]
  · obtain ⟨hpure, hnorm⟩ := returned_eq hp hsurvives
    exact ⟨(gemfireValue_thrown_eq_nil_iff tree).mpr (hsurvives.serializable hp), _, hpure, hnorm⟩

/-- The array that is shared comes back twice. -/
theorem converted_as_tree_shared : ∃ depth tree,
    shared.unfold depth (.reference (0 : Fin 2)) = some tree ∧
      ∀ fuel, depth ≤ fuel → shared.gemfireValue nativeClient fuel (.reference (0 : Fin 2)) =
        liftM (NodeGemfire.gemfireValue nativeClient tree) := by
  have hwithin : Within shared.Refers 2 (0 : Fin 2) := by
    intro next hnext third hthird
    have hmem : HeapValue.reference next ∈ [.reference (1 : Fin 2), .reference (1 : Fin 2)] := hnext
    obtain rfl : next = (1 : Fin 2) := by
      rcases List.mem_cons.mp hmem with heq | hmem
      · exact HeapValue.reference.inj heq
      · exact HeapValue.reference.inj (List.mem_singleton.mp hmem)
    exact absurd hthird List.not_mem_nil
  obtain ⟨depth, tree, hunfold, hconverted, -⟩ :=
    converted_as_tree nativeClient_faithful (v := (.reference (0 : Fin 2) : shared.Value))
      fun address heq => by
        cases heq
        exact not_reachesCycle_of_acc hwithin.acc
  exact ⟨depth, tree, hunfold, hconverted⟩

end Heap

end NodeGemfire
