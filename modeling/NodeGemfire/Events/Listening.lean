import NodeGemfire.Events.Publishing

/-!
# Listening on a region object

Handlers make and drop `Region` objects while `publishEvents` goes through the set of
them. Whatever they do, an object that stays registered itself hears every event for
its native region once, in the order of the reports.

## Main definitions

- `StaysRegistered` — the collector leaves the object alone
- `heard`, `own` — what is emitted on an object, and what should be

## Main results

- `heard_once` — an object that stays registered hears its events once and in order
-/

namespace NodeGemfire.RegionEventRegistry

variable {p : Platform} {ρ : Type} {s₀ s s' : State ρ} {l : Label ρ} {region : Region ρ}

/-! ### One object -/

/-- The object is not collected. -/
def StaysRegistered (region : Region ρ) (_ : State ρ) : Label ρ → Prop
  | .remove other => other.address ≠ region.address
  | _ => True

section Heard

variable [DecidableEq ρ]

/-- What is emitted on the object. -/
def heard (region : Region ρ) (emissions : List (Emission ρ)) : List (Emission ρ) :=
  emissions.filter (·.region = region)

/-- The events for the native region of the object. -/
def own (region : Region ρ) (events : List (Event ρ)) : List (Event ρ) :=
  events.filter (·.region = region.regionPtr)

theorem heard_append (es es' : List (Emission ρ)) :
    heard region (es ++ es') = heard region es ++ heard region es' := List.filter_append _ _

theorem own_append (events events' : List (Event ρ)) :
    own region (events ++ events') = own region events ++ own region events' :=
  List.filter_append _ _

/-- Of the emissions of an event on different objects, one is on this object if it is
    among them and the event is for its region. -/
theorem heard_emissions (event : Event ρ) {regions : List (Region ρ)} (hnodup : regions.Nodup) :
    heard region (emissions p event regions) =
      if region ∈ regions then (own region [event]).map (emission p · region) else [] := by
  induction regions with
  | nil => rfl
  | cons other regions ih =>
    obtain ⟨hnew, hnodup⟩ := List.nodup_cons.mp hnodup
    rw [emissions_cons]
    by_cases heq : other = region
    · subst heq
      have hnone := ih hnodup
      rw [if_neg hnew] at hnone
      rw [if_pos List.mem_cons_self]
      by_cases hown : other.regionPtr = event.region
      · rw [if_pos hown, heard, List.filter_cons_of_pos (by simp [emission])]
        rw [heard] at hnone
        simp [hnone, own, hown]
      · rw [if_neg hown, hnone]
        simp [own, Ne.symm hown]
    · have hskip : heard region (emission p event other :: emissions p event regions) =
          heard region (emissions p event regions) :=
        List.filter_cons_of_neg (by simp [emission, heq])
      have hmem : region ∈ other :: regions ↔ region ∈ regions := by
        simp [Ne.symm heq]
      simp only [hmem]
      rw [← ih hnodup]
      split
      · exact hskip
      · rfl

omit [DecidableEq ρ] in
theorem mem_after_iff {regionSet regionSet' : RegionSet ρ}
    (h : region ∈ regionSet.toList ↔ region ∈ regionSet'.toList) (cursor : Option ℕ) :
    region ∈ regionSet.after cursor ↔ region ∈ regionSet'.after cursor := by
  cases cursor with
  | none => exact h
  | some k => simp [OrderedSet.after, h]

/-- What the object is still to hear does not depend on the other objects. -/
theorem heard_due {regionSet : RegionSet ρ} (h : region ∈ s.regionSet.toList)
    (h' : region ∈ regionSet.toList) :
    heard region ({ s with regionSet := regionSet }.due p) = heard region (s.due p) := by
  have hmem (cursor : Option ℕ) : region ∈ regionSet.after cursor ↔
      region ∈ s.regionSet.after cursor := mem_after_iff (iff_of_true h' h) cursor
  have hnodup (regionSet : RegionSet ρ) (cursor : Option ℕ) : (regionSet.after cursor).Nodup :=
    (regionSet.after_sublist cursor).nodup regionSet.nodup
  cases hl : s.loop with
  | regions event rest cursor =>
    simp only [State.due, hl]
    rw [heard_emissions event (hnodup _ _), heard_emissions event (hnodup _ _)]
    simp only [hmem]
  | handling event rest current =>
    simp only [State.due, hl]
    rw [heard_emissions event (hnodup _ _), heard_emissions event (hnodup _ _)]
    simp only [hmem]
  | idle | started | events => simp only [State.due, hl]

/-! ### What a step does to it -/

/-- From one state to the other dispatches of these events have begun, and the object has
    heard, or is to hear, those of its own. -/
structure HeardSince (p : Platform) (region : Region ρ) (s₀ s : State ρ)
    (begun : List (Event ρ)) : Prop where
  registered : region ∈ s.regionSet.toList
  dispatched : s.dispatched = s₀.dispatched ++ begun
  heard : heard region (s.outlook p) =
    heard region (s₀.outlook p) ++ (own region begun).map (emission p · region)

theorem HeardSince.refl (h : region ∈ s.regionSet.toList) : HeardSince p region s s [] where
  registered := h
  dispatched := (List.append_nil _).symm
  heard := (List.append_nil _).symm

theorem HeardSince.trans {s'' : State ρ} {begun begun' : List (Event ρ)}
    (h : HeardSince p region s s' begun) (h' : HeardSince p region s' s'' begun') :
    HeardSince p region s s'' (begun ++ begun') where
  registered := h'.registered
  dispatched := by rw [h'.dispatched, h.dispatched, List.append_assoc]
  heard := by rw [h'.heard, h.heard, own_append, List.map_append, List.append_assoc]

/-- The registry changes, but not for the object. -/
theorem heardSince_of_registry {regionSet : RegionSet ρ} (h : region ∈ s.regionSet.toList)
    (h' : region ∈ regionSet.toList) :
    HeardSince p region s { s with regionSet := regionSet } [] where
  registered := h'
  dispatched := (List.append_nil _).symm
  heard := by
    rw [State.outlook, heard_append, heard_due h h', State.outlook, heard_append]
    exact (List.append_nil _).symm

/-- A step that leaves the registry alone dispatches to all objects in it. -/
theorem heardSince_of_dispatch (begun : List (Event ρ)) (h : region ∈ s.regionSet.toList)
    (hs : Step p s l s') (hkept : RecipientsKept s l) (hnone : NoneAhead s l)
    (hregistry : s'.regionSet = s.regionSet)
    (hdispatches : s'.dispatches = s.dispatches ++ begun.map fun event => ⟨event, s.regionSet⟩) :
    HeardSince p region s s' begun where
  registered := by rwa [hregistry]
  dispatched := by simp [State.dispatched, hdispatches, Function.comp_def]
  heard := by
    obtain ⟨new, hexpected, houtlook⟩ := outlook_of_noneAhead hkept hnone hs
    have hnew : new = begun.flatMap fun event => emissions p event s.regionSet.toList := by
      rw [State.expected, hdispatches, List.flatMap_append] at hexpected
      rw [← List.append_cancel_left hexpected, List.flatMap_map]
      rfl
    rw [houtlook, heard_append, hnew]
    congr 1
    clear hnew hdispatches
    induction begun with
    | nil => rfl
    | cons event begun ih =>
      rw [List.flatMap_cons, heard_append, heard_emissions event s.regionSet.nodup, if_pos h, ih]
      rw [← List.map_append, ← own_append]
      rfl

theorem heardSince_step (h : region ∈ s.regionSet.toList) (hstays : StaysRegistered region s l)
    (hs : Step p s l s') : ∃ begun, HeardSince p region s s' begun := by
  have hdispatch (begun : List (Event ρ)) := heardSince_of_dispatch begun h hs
  cases hs with
  | add other hscript hnew =>
    have hsublist : s.regionSet.toList.Sublist (s.regionSet.insert other).toList :=
      OrderedSet.sublist_insertList other s.regionSet.toList
    exact ⟨[], heardSince_of_registry h (hsublist.subset h)⟩
  | remove other hscript hfree =>
    exact ⟨[], heardSince_of_registry h (OrderedSet.mem_erase_iff.mpr ⟨h, Ne.symm hstays⟩)⟩
  | beginEvent event rest hl => exact ⟨[event], hdispatch [event] trivial trivial rfl rfl⟩
  | _ => exact ⟨[], hdispatch [] trivial trivial rfl (List.append_nil _).symm⟩

/-- A run adds up what its steps do. -/
theorem heardSince_of_leads (h : region ∈ s₀.regionSet.toList)
    (hrun : (system p).Leads (StaysRegistered region) s₀ s) :
    ∃ begun, HeardSince p region s₀ s begun := by
  induction hrun with
  | refl => exact ⟨[], .refl h⟩
  | tail _ hstep ih =>
    obtain ⟨begun, hsince⟩ := ih
    obtain ⟨l, hstays, hs⟩ := hstep
    obtain ⟨begun', hsince'⟩ := heardSince_step hsince.registered hstays hs
    exact ⟨begun ++ begun', hsince.trans hsince'⟩

/-- Outside of `publishEvents` all that was begun has been heard. -/
theorem HeardSince.emitted {begun : List (Event ρ)} (h : HeardSince p region s₀ s begun)
    (hidle₀ : s₀.loop = .idle) (hidle : s.loop = .idle) :
    RegionEventRegistry.heard region s.emitted =
      RegionEventRegistry.heard region s₀.emitted ++
        (own region begun).map (emission p · region) := by
  have hnone {s : State ρ} (hidle : s.loop = .idle) : s.outlook p = s.emitted := by
    simp only [State.outlook, State.due, hidle, List.append_nil]
  have hheard := h.heard
  rwa [hnone hidle₀, hnone hidle] at hheard

/-- **An object that stays registered hears every event once**: whatever handlers and the
    collector do to other objects, the events for its region whose dispatches begin are
    emitted on it (or about to be), each once and in the order of the reports; and when
    nothing is left to do these are all that were reported. -/
theorem heard_once (hr : (system p).Reachable s₀) (hregion : region ∈ s₀.regionSet.toList)
    (hrun : (system p).Leads (StaysRegistered region) s₀ s) :
    ∃ begun, s.dispatched = s₀.dispatched ++ begun ∧ s.dispatched <+: s.pushed ∧
      heard region (s.outlook p) =
        heard region (s₀.outlook p) ++ (own region begun).map (emission p · region) ∧
      (s₀.loop = .idle → s.loop = .idle → heard region s.emitted =
        heard region s₀.emitted ++ (own region begun).map (emission p · region)) ∧
      ((system p).AtRest Works s → s₀.dispatched ++ begun = s.pushed) := by
  have hr' := hr.of_leads hrun
  obtain ⟨begun, hsince⟩ := heardSince_of_leads hregion hrun
  refine ⟨begun, hsince.dispatched, ?_, hsince.heard, hsince.emitted, fun hrest => ?_⟩
  · exact Channel.delivered_prefix ((eventSimulation p ρ).reachable hr')
  · rw [← hsince.dispatched]
    exact (published_of_atRest hr' hrest).dispatched

end Heard

/-! ### A run -/

/-- One object is registered. -/
def listening : State ℕ :=
  { State.start with regionSet := (OrderedSet.empty _).insert ⟨16, 0⟩ }

theorem listening_reachable : (system nativeClient).Reachable listening :=
  (TransitionSystem.Reachable.start rfl).step (.add _ ⟨16, 0⟩ trivial (by decide))

/-- An entry of the native region 0 was created. -/
def created (key newValue : CacheablePtr) : Event ℕ := ⟨0, "create", ⟨0, key, none, newValue⟩⟩

/-- The handler of the object has made another one for the region and dropped it. -/
def listened (key newValue : CacheablePtr) : State ℕ :=
  { listening with
    pushed := [created key newValue]
    dispatches := [⟨created key newValue, (OrderedSet.empty _).insert ⟨16, 0⟩⟩]
    emitted := [emission nativeClient (created key newValue) ⟨16, 0⟩]
    deleted := [created key newValue] }

theorem leads_listened (key newValue : CacheablePtr) :
    (system nativeClient).Leads (StaysRegistered ⟨16, 0⟩) listening (listened key newValue) := by
  refine .head ?_ (by trivial) (.emit _ .afterCreate ⟨0, key, none, newValue⟩)
  refine .head ?_ (by trivial) (.send _ (Nat.succ_pos 0))
  refine .head ?_ (by trivial) (.publishEvents _ rfl)
  refine .head ?_ (by trivial) (.nextEvents _ rfl)
  refine .head ?_ (by trivial) (.beginEvent _ (created key newValue) [] rfl)
  refine .head ?_ (by trivial) (.visitOwn _ (created key newValue) [] none ⟨16, 0⟩ rfl rfl rfl)
  refine .head ?_ (by trivial) (.add _ ⟨32, 0⟩ trivial
    (by decide : ∀ r ∈ listening.regionSet.toList, r.address ≠ 32))
  refine .head ?_ (by simp [StaysRegistered]) (.remove _ ⟨32, 0⟩ trivial (by decide : 32 ∉ [16]))
  refine .head ?_ (by trivial) (.handled _ (created key newValue) [] ⟨16, 0⟩ rfl)
  refine .head ?_ (by trivial) (.deleteEvent _ (created key newValue) [] (some 16) rfl rfl)
  exact .head (.refl _) (by trivial) (.finish _ rfl)

theorem heard_once_listened : ∃ begun,
    (listened none none).dispatched = listening.dispatched ++ begun ∧
    heard ⟨16, 0⟩ (listened none none).emitted =
      heard ⟨16, 0⟩ listening.emitted ++
        (own ⟨16, 0⟩ begun).map (emission nativeClient · ⟨16, 0⟩) := by
  obtain ⟨begun, hdispatched, -, -, hheard, -⟩ :=
    heard_once listening_reachable List.mem_cons_self (leads_listened none none)
  exact ⟨begun, hdispatched, hheard rfl rfl⟩

end NodeGemfire.RegionEventRegistry
