import NodeGemfire.Events.RegionEventRegistry

/-!
# What a dispatch is still to emit

A dispatch emits its event on the regions that the iterator is still to come to.
What has been emitted, with what is due, changes by a whole dispatch when one
begins, and otherwise only when a handler changes the registry in front of the
iterator.

## Main definitions

- `State.due` — what the dispatch under way still emits
- `State.Delivered` — the deliveries are those of the beginnings of the dispatches
- `RecipientsKept`, `NoneAhead` — what handlers leave alone in front of the iterator
-/

namespace NodeGemfire.RegionEventRegistry

variable {p : Platform} {ρ : Type} [DecidableEq ρ] {s s' : State ρ} {l : Label ρ}

/-! ### The recipients -/

/-- What an event is emitted on: the regions for its native region, in their order. -/
def emissions (p : Platform) (event : Event ρ) (regions : List (Region ρ)) : List (Emission ρ) :=
  (regions.filter (·.regionPtr = event.region)).map (emission p event)

/-- The emissions of a whole dispatch. -/
def Dispatch.emissions (p : Platform) (d : Dispatch ρ) : List (Emission ρ) :=
  RegionEventRegistry.emissions p d.event d.regionSet.toList

/-- The event is emitted once on each region that is registered for its native
    region and on no other, under its own name, with its key and values as the payload. -/
structure EmittedTo (p : Platform) (event : Event ρ) (regionSet : RegionSet ρ)
    (emissions : List (Emission ρ)) : Prop where
  once : (emissions.map Emission.region).Nodup
  recipients : ∀ region, region ∈ emissions.map Emission.region ↔
    region ∈ regionSet.toList ∧ region.regionPtr = event.region
  named : ∀ emission ∈ emissions, emission.eventName = event.eventName
  payload : ∀ emission ∈ emissions, emission.eventPayload = .object .plain
    [⟨.ofAscii "key", (v8Value p event.entryEvent.key).value⟩,
      ⟨.ofAscii "oldValue", (v8Value p event.entryEvent.oldValue).value⟩,
      ⟨.ofAscii "newValue", (v8Value p event.entryEvent.newValue).value⟩]

theorem map_region_emissions (event : Event ρ) (regions : List (Region ρ)) :
    (emissions p event regions).map Emission.region =
      regions.filter (·.regionPtr = event.region) := by
  rw [emissions, List.map_map]
  exact List.map_id _

theorem Dispatch.emittedTo (d : Dispatch ρ) :
    EmittedTo p d.event d.regionSet (d.emissions p) where
  once := by
    rw [Dispatch.emissions, map_region_emissions]
    exact d.regionSet.nodup.filter _
  recipients region := by
    rw [Dispatch.emissions, map_region_emissions]
    simp
  named emission hmem := by
    obtain ⟨region, -, rfl⟩ := List.mem_map.mp hmem
    rfl
  payload emission hmem := by
    obtain ⟨region, -, rfl⟩ := List.mem_map.mp hmem
    exact d.event.v8Object_value p

/-- What the dispatch under way still emits, if the registry stays as it is. -/
def State.due (p : Platform) (s : State ρ) : List (Emission ρ) :=
  match s.loop with
  | .regions event _ cursor => RegionEventRegistry.emissions p event (s.regionSet.after cursor)
  | .handling event _ region =>
    RegionEventRegistry.emissions p event (s.regionSet.after (some region.address))
  | _ => []

theorem due_of_regions {event : Event ρ} {rest : List (Event ρ)} {cursor : Option ℕ}
    (hl : s.loop = .regions event rest cursor) :
    s.due p = emissions p event (s.regionSet.after cursor) := by
  simp only [State.due, hl]

theorem emissions_cons (event : Event ρ) (region : Region ρ) (regions : List (Region ρ)) :
    emissions p event (region :: regions) =
      if region.regionPtr = event.region then emission p event region :: emissions p event regions
      else emissions p event regions := by
  by_cases h : region.regionPtr = event.region <;> simp [emissions, h]

/-! ### In front of the iterator -/

/-- The iterator at `current` is still to come to `region`, and the event is emitted on it. -/
def IsAhead (event : Event ρ) (current region : Region ρ) : Prop :=
  current.address < region.address ∧ region.regionPtr = event.region

instance (event : Event ρ) (current region : Region ρ) :
    Decidable (IsAhead event current region) :=
  inferInstanceAs (Decidable (_ ∧ _))

/-- The registered objects that are ahead. -/
def ahead (event : Event ρ) (current : Region ρ) (regionSet : RegionSet ρ) : List (Region ρ) :=
  regionSet.toList.filter (IsAhead event current)

theorem emissions_after (event : Event ρ) (current : Region ρ) (regionSet : RegionSet ρ) :
    emissions p event (regionSet.after (some current.address)) =
      (ahead event current regionSet).map (emission p event) := by
  rw [emissions, OrderedSet.after, List.filter_filter, ahead]
  congr 1
  apply List.filter_congr
  intro region _
  rw [← Bool.decide_and, decide_eq_decide]
  exact and_comm

/-- No object ahead is collected before its turn. -/
def RecipientsKept (s : State ρ) : Label ρ → Prop
  | .remove region =>
    match s.loop with
    | .handling event _ current =>
      ∀ other ∈ s.regionSet.toList, other.address = region.address → ¬IsAhead event current other
    | _ => True
  | _ => True

/-- No object that a handler makes is ahead. -/
def NoneAhead (s : State ρ) : Label ρ → Prop
  | .add region =>
    match s.loop with
    | .handling event _ current => ¬IsAhead event current region
    | _ => True
  | _ => True

theorem ahead_insert_of_not {event : Event ρ} {current region : Region ρ}
    (h : ¬IsAhead event current region) (regionSet : RegionSet ρ) :
    ahead event current (regionSet.insert region) = ahead event current regionSet :=
  OrderedSet.filter_insertList_of_not (q := fun other => decide (IsAhead event current other))
    (decide_eq_false h) regionSet.toList

theorem ahead_insert_of {event : Event ρ} {current region : Region ρ} {regionSet : RegionSet ρ}
    (h : IsAhead event current region)
    (hnew : ∀ r ∈ regionSet.toList, r.address ≠ region.address) :
    (ahead event current regionSet).Sublist (ahead event current (regionSet.insert region)) ∧
      (ahead event current (regionSet.insert region)).length =
        (ahead event current regionSet).length + 1 := by
  constructor
  · exact (OrderedSet.sublist_insertList region regionSet.toList).filter _
  · have hperm : (regionSet.insert region).toList.Perm (region :: regionSet.toList) :=
      OrderedSet.perm_insertList hnew
    have hahead := hperm.filter fun other => decide (IsAhead event current other)
    rw [List.filter_cons, if_pos (decide_eq_true h)] at hahead
    exact hahead.length_eq

theorem ahead_erase {event : Event ρ} {current : Region ρ} {regionSet : RegionSet ρ} {address : ℕ}
    (h : ∀ other ∈ regionSet.toList, other.address = address → ¬IsAhead event current other) :
    ahead event current (regionSet.erase address) = ahead event current regionSet := by
  rw [ahead, OrderedSet.erase, List.filter_filter]
  apply List.filter_congr
  intro other hmem
  by_cases haddress : other.address = address
  · simp [h other hmem haddress]
  · simp [haddress]

/-! ### What a step does to the deliveries -/

/-- The emissions of the regions registered when the dispatches began. -/
def State.expected (p : Platform) (s : State ρ) : List (Emission ρ) :=
  s.dispatches.flatMap (Dispatch.emissions p)

/-- What has been emitted, and what the dispatch under way goes on to emit. -/
def State.outlook (p : Platform) (s : State ρ) : List (Emission ρ) := s.emitted ++ s.due p

/-- The same dispatches begun, and as much emitted and due. -/
theorem outlook_kept (hdispatches : s'.dispatches = s.dispatches)
    (hemitted : s'.emitted = s.emitted) (hdue : s'.due p = s.due p) :
    ∃ new, s'.expected p = s.expected p ++ new ∧ s'.outlook p = s.outlook p ++ new := by
  refine ⟨[], ?_, ?_⟩
  · rw [State.expected, hdispatches, State.expected, List.append_nil]
  · rw [State.outlook, hemitted, hdue, State.outlook, List.append_nil]

/-- A step that makes no object ahead adds to what is emitted and due the emissions of the
    dispatch that it begins. -/
theorem outlook_of_noneAhead (hkept : RecipientsKept s l) (hnone : NoneAhead s l)
    (hs : Step p s l s') :
    ∃ new, s'.expected p = s.expected p ++ new ∧ s'.outlook p = s.outlook p ++ new := by
  cases hs with
  | emit | send => exact outlook_kept rfl rfl rfl
  | publishEvents hl | nextEvents hl | finish hl =>
    exact outlook_kept rfl rfl (by simp only [State.due, hl])
  | handled event rest region hl => exact outlook_kept rfl rfl (by simp only [State.due, hl])
  | beginEvent event rest hl =>
    refine ⟨emissions p event s.regionSet.toList, ?_, ?_⟩
    · simp only [State.expected, List.flatMap_append, List.flatMap_singleton]
      rfl
    · have hdue : s.due p = [] := by simp only [State.due, hl]
      rw [State.outlook, State.outlook, hdue, List.append_nil]
      rfl
  | visitOwn event rest cursor region hl hnext hregion =>
    refine ⟨[], (List.append_nil _).symm, ?_⟩
    rw [State.outlook, State.outlook, due_of_regions hl, OrderedSet.after_eq_cons hnext,
      emissions_cons, if_pos hregion, List.append_nil, List.append_assoc]
    rfl
  | visitOther event rest cursor region hl hnext hregion =>
    refine outlook_kept rfl rfl ?_
    rw [due_of_regions hl, OrderedSet.after_eq_cons hnext, emissions_cons, if_neg hregion]
    rfl
  | deleteEvent event rest cursor hl hnext =>
    refine outlook_kept rfl rfl ?_
    rw [due_of_regions hl, OrderedSet.after_eq_nil hnext]
    rfl
  | add region hscript hnew =>
    refine outlook_kept rfl rfl ?_
    cases hl : s.loop with
    | handling event rest current =>
      simp only [NoneAhead, hl] at hnone
      simp only [State.due, hl, emissions_after, ahead_insert_of_not hnone]
    | idle | started | events => simp only [State.due, hl]
    | regions => simp only [hl, Loop.RunsScript] at hscript
  | remove region hscript hfree =>
    refine outlook_kept rfl rfl ?_
    cases hl : s.loop with
    | handling event rest current =>
      simp only [RecipientsKept, hl] at hkept
      simp only [State.due, hl, emissions_after, ahead_erase hkept]
    | idle | started | events => simp only [State.due, hl]
    | regions => simp only [hl, Loop.RunsScript] at hscript

/-- An object made ahead is one more delivery. -/
theorem outlook_of_ahead (hahead : ¬NoneAhead s l) (hs : Step p s l s') :
    s'.expected p = s.expected p ∧ (s.outlook p).Sublist (s'.outlook p) ∧
      (s'.outlook p).length = (s.outlook p).length + 1 := by
  cases hs with
  | add region hscript hnew =>
    cases hl : s.loop with
    | handling event rest current =>
      simp only [NoneAhead, hl, not_not] at hahead
      obtain ⟨hsublist, hlength⟩ := ahead_insert_of hahead hnew
      refine ⟨rfl, ?_, ?_⟩
      · simp only [State.outlook, State.due, hl, emissions_after]
        exact (hsublist.map _).append_left _
      · simp only [State.outlook, State.due, hl, emissions_after, List.length_append,
          List.length_map, hlength]
        omega
    | _ => simp [NoneAhead, hl] at hahead
  | _ => exact absurd trivial hahead

/-- The objects that receive the events are those that were registered when the
    dispatches began, each once for each event. -/
def State.Delivered (p : Platform) (s : State ρ) : Prop := s.outlook p = s.expected p

theorem State.Delivered.step (h : s.Delivered p) (hkept : RecipientsKept s l)
    (hnone : NoneAhead s l) (hs : Step p s l s') : s'.Delivered p := by
  obtain ⟨new, hexpected, houtlook⟩ := outlook_of_noneAhead hkept hnone hs
  rw [State.Delivered, hexpected, houtlook, h]

end NodeGemfire.RegionEventRegistry
