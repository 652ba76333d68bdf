import NodeGemfire.Events.EventStream

/-!
# Publishing

`publishEvents` goes through a set of pointers while handlers add to it and the
collector takes from it, and it deletes the events it has taken off the stream. The
objects whose handles it has made are not collected before it returns, so that its
iterators stay valid. And it takes off and dispatches all events, unless handlers keep
making objects in front of the iterator.

## Main definitions

- `Holding` — the objects with a handle are registered
- `Works` — the steps that bring events to the handlers

## Main results

- `publishing_safe` — no object and no event is used after it has been deleted
- `publishing_settles` — every event is dispatched in the end
-/

namespace NodeGemfire.RegionEventRegistry

variable {p : Platform} {ρ : Type} {s s' : State ρ} {l : Label ρ}

/-! ### Pointers -/

/-- The objects with a handle in the scope of `publishEvents` are registered, and so is
    the one that the iterator points to, which is for the region of the event. -/
structure Holding (s : State ρ) : Prop where
  registered : ∀ address ∈ s.held, ∃ region ∈ s.regionSet.toList, region.address = address
  current : ∀ event rest region, s.loop = .handling event rest region →
    region ∈ s.regionSet.toList ∧ region.address ∈ s.held ∧ region.regionPtr = event.region

/-- The event loop moves on to a point outside of the handlers. -/
theorem Holding.loop (h : Holding s) {loop : Loop ρ}
    (hloop : ∀ event rest region, loop ≠ .handling event rest region) :
    Holding { s with loop := loop } where
  registered := h.registered
  current event rest region hl := absurd hl (hloop event rest region)

theorem mem_of_next? {regionSet : RegionSet ρ} {cursor : Option ℕ} {region : Region ρ}
    (h : regionSet.next? cursor = some region) : region ∈ regionSet.toList :=
  (regionSet.after_sublist cursor).subset (List.mem_of_head? h)

theorem holding_step (h : Holding s) (hs : Step p s l s') : Holding s' := by
  cases hs with
  | emit | send => exact { h with }
  | publishEvents hl => exact { h.loop (by simp : ∀ _ _ _, (Loop.started : Loop ρ) ≠ _) with }
  | nextEvents hl =>
    exact { h.loop (by simp : ∀ _ _ _, (Loop.events s.eventVector) ≠ _) with }
  | beginEvent event rest hl =>
    exact { h.loop (by simp : ∀ _ _ _, (Loop.regions event rest none) ≠ _) with }
  | handled event rest region hl => exact h.loop (by simp)
  | deleteEvent event rest cursor hl hnext =>
    exact { h.loop (by simp : ∀ _ _ _, (Loop.events rest) ≠ _) with }
  | finish hl =>
    exact
      { registered := fun _ hheld => absurd hheld List.not_mem_nil
        current := by simp }
  | visitOwn event rest cursor region hl hnext hregion =>
    have hmem := mem_of_next? hnext
    constructor
    · intro address hheld
      rcases List.mem_cons.mp hheld with rfl | hheld
      · exact ⟨region, hmem, rfl⟩
      · exact h.registered address hheld
    · rintro _ _ _ ⟨⟩
      exact ⟨hmem, List.mem_cons_self, hregion⟩
  | visitOther event rest cursor region hl hnext hregion =>
    constructor
    · intro address hheld
      rcases List.mem_cons.mp hheld with rfl | hheld
      · exact ⟨region, mem_of_next? hnext, rfl⟩
      · exact h.registered address hheld
    · simp
  | add region hscript hnew =>
    have hsublist : s.regionSet.toList.Sublist (s.regionSet.insert region).toList :=
      OrderedSet.sublist_insertList region s.regionSet.toList
    constructor
    · intro address hheld
      obtain ⟨other, hmem, haddress⟩ := h.registered address hheld
      exact ⟨other, hsublist.subset hmem, haddress⟩
    · intro event rest current hl
      obtain ⟨hmem, hheld, hregion⟩ := h.current event rest current hl
      exact ⟨hsublist.subset hmem, hheld, hregion⟩
  | remove region hscript hfree =>
    -- what has a handle is not what is collected
    have hkept : ∀ other ∈ s.regionSet.toList, other.address ∈ s.held →
        other ∈ (s.regionSet.erase region.address).toList := by
      intro other hmem hheld
      refine OrderedSet.mem_erase_iff.mpr ⟨hmem, ?_⟩
      rintro haddress
      exact hfree (haddress ▸ hheld)
    constructor
    · intro address hheld
      obtain ⟨other, hmem, haddress⟩ := h.registered address hheld
      exact ⟨other, hkept other hmem (haddress ▸ hheld), haddress⟩
    · intro event rest current hl
      obtain ⟨hmem, hheld, hregion⟩ := h.current event rest current hl
      exact ⟨hkept current hmem hheld, hheld, hregion⟩

theorem holding_of_reachable (hr : (system p).Reachable s) : Holding s := by
  refine hr.invariant Holding (fun s h => ?_) fun _ _ _ _ => holding_step
  subst h
  exact ⟨fun _ hheld => absurd hheld List.not_mem_nil, by simp [State.start]⟩

/-- Every event that was pushed is in one place. -/
theorem nodup_events (h : Conserved s) :
    (s.deleted ++ s.loop.current ++ (s.loop.rest ++ s.eventVector)).Nodup := by
  rw [h.deleted, h.pushed]
  refine List.Nodup.of_map Event.serial ?_
  rw [h.serials]
  exact List.nodup_range

/-- **No dangling pointers**: an event that is dispatched or to be dispatched has not been
    deleted, and none is deleted twice; the object that the iterator points to while its
    handlers run is registered, so that the iterator can go on; and events are emitted on
    registered objects only. -/
theorem publishing_safe (hr : (system p).Reachable s) :
    (s.deleted ++ s.loop.current ++ (s.loop.rest ++ s.eventVector)).Nodup ∧
    (∀ event rest region, s.loop = .handling event rest region →
      region ∈ s.regionSet.toList ∧ region.regionPtr = event.region) ∧
    ∀ l s', Step p s l s' → ∃ emissions, s'.emitted = s.emitted ++ emissions ∧
      ∀ emission ∈ emissions, emission.region ∈ s.regionSet.toList := by
  refine ⟨nodup_events (conserved_of_reachable hr), fun event rest region hl => ?_,
    fun l s' hs => ?_⟩
  · obtain ⟨hmem, -, hregion⟩ := (holding_of_reachable hr).current event rest region hl
    exact ⟨hmem, hregion⟩
  · cases hs with
    | visitOwn event rest cursor region hl hnext =>
      refine ⟨_, rfl, fun emission hmem => ?_⟩
      rw [List.mem_singleton.mp hmem]
      exact mem_of_next? hnext
    | _ => exact ⟨[], (List.append_nil _).symm, fun _ hmem => absurd hmem List.not_mem_nil⟩

theorem publishing_safe_oneHandled :
    (oneHandled.deleted ++ oneHandled.loop.current ++
      (oneHandled.loop.rest ++ oneHandled.eventVector)).Nodup :=
  (publishing_safe oneHandled_reachable.of_restrict).1

/-! ### What is left to do -/

/-- Not what the listener reports and what scripts and the collector do to the registry,
    and not a callback that nobody has sent for. -/
def Works (s : State ρ) : Label ρ → Prop
  | .emit _ _ | .add _ | .remove _ => False
  | .publishEvents => s.pending = true
  | _ => True

namespace State

/-- The steps of a dispatch, at most two for each object, and its beginning and end. -/
def dispatchLeft (s : State ρ) : ℕ := 2 * s.regionSet.toList.length + 2

def loopLeft (s : State ρ) : ℕ :=
  match s.loop with
  | .idle => 0
  | .started => 2
  | .events rest => 1 + rest.length * s.dispatchLeft
  | .regions _ rest cursor =>
    2 + 2 * (s.regionSet.after cursor).length + rest.length * s.dispatchLeft
  | .handling _ rest region =>
    3 + 2 * (s.regionSet.after (some region.address)).length + rest.length * s.dispatchLeft

def left (s : State ρ) : ℕ :=
  4 * s.unsent + (if s.pending then 3 else 0) + s.eventVector.length * s.dispatchLeft + s.loopLeft

end State

/-- Every step that works leaves less to do. -/
theorem left_lt (hl : Works s l) (hs : Step p s l s') : s'.left < s.left := by
  cases hs with
  | emit | add | remove => exact hl.elim
  | send h =>
    simp only [State.left, State.loopLeft, State.dispatchLeft, if_true]
    split <;> omega
  | publishEvents h =>
    have hpending : s.pending = true := hl
    simp only [State.left, State.loopLeft, State.dispatchLeft, h, hpending, if_true,
      Bool.false_eq_true, if_false]
    omega
  | nextEvents h =>
    simp only [State.left, State.loopLeft, State.dispatchLeft, h, List.length_nil, Nat.zero_mul]
    omega
  | beginEvent event rest h =>
    have hlength : (s.regionSet.after none).length = s.regionSet.toList.length := rfl
    simp only [State.left, State.loopLeft, State.dispatchLeft, h, hlength, List.length_cons,
      Nat.succ_mul]
    omega
  | visitOwn event rest cursor region h hnext =>
    have hafter := congrArg List.length (OrderedSet.after_eq_cons hnext)
    rw [List.length_cons] at hafter
    simp only [State.left, State.loopLeft, State.dispatchLeft, h, hafter]
    omega
  | visitOther event rest cursor region h hnext =>
    have hafter := congrArg List.length (OrderedSet.after_eq_cons hnext)
    rw [List.length_cons] at hafter
    simp only [State.left, State.loopLeft, State.dispatchLeft, h, hafter]
    omega
  | handled event rest region h =>
    simp only [State.left, State.loopLeft, State.dispatchLeft, h]
    omega
  | deleteEvent event rest cursor h hnext =>
    simp only [State.left, State.loopLeft, State.dispatchLeft, h]
    omega
  | finish h =>
    simp only [State.left, State.loopLeft, State.dispatchLeft, h, List.length_nil]
    omega

/-! ### When nothing is left to do -/

/-- The step with which the event loop enters the callback. -/
def Label.enters : Label ρ → Bool
  | .publishEvents => true
  | _ => false

/-- Nothing can go on, unless the event loop enters the callback. -/
def Stuck (p : Platform) (s : State ρ) : Prop :=
  ∀ l s', Works s l → l.enters = false → ¬Step p s l s'

theorem Stuck.of_atRest (h : (system p).AtRest Works s) : Stuck p s :=
  fun l s' hl _ => h l s' hl

theorem Stuck.idle (h : Stuck p s) : s.loop = .idle := by
  cases hl : s.loop with
  | idle => rfl
  | started => exact absurd (.nextEvents s hl) (h .nextEvents _ trivial rfl)
  | events rest =>
    cases rest with
    | nil => exact absurd (.finish s hl) (h .finish _ trivial rfl)
    | cons event rest => exact absurd (.beginEvent s event rest hl) (h .beginEvent _ trivial rfl)
  | handling event rest region =>
    exact absurd (.handled s event rest region hl) (h .handled _ trivial rfl)
  | regions event rest cursor =>
    cases hnext : s.regionSet.next? cursor with
    | none =>
      exact absurd (.deleteEvent s event rest cursor hl hnext) (h .deleteEvent _ trivial rfl)
    | some region =>
      by_cases hregion : region.regionPtr = event.region
      · exact absurd (.visitOwn s event rest cursor region hl hnext hregion)
          (h .visit _ trivial rfl)
      · exact absurd (.visitOther s event rest cursor region hl hnext hregion)
          (h .visit _ trivial rfl)

section AtRest

variable (h : (system p).AtRest Works s)
include h

theorem unsent_of_atRest : s.unsent = 0 := by
  by_contra hunsent
  exact h .send _ trivial (.send s (Nat.pos_of_ne_zero hunsent))

theorem pending_of_atRest : s.pending = false := by
  by_contra hpending
  exact h .publishEvents _ (by simpa [Works] using hpending)
    (.publishEvents s (Stuck.of_atRest h).idle)

theorem eventVector_of_atRest (hr : (system p).Reachable s) : s.eventVector = [] := by
  by_contra hevents
  have hattended : s.stream.mailbox.Attended :=
    Mailbox.attended_of_reachable
      ((EventStream.mailboxSimulation _).reachable (stream_reachable hr))
  have hleft := hattended hevents
  simp [State.stream, EventStream.State.mailbox, EventStream.State.owed, EventStream.State.looking,
    unsent_of_atRest h, pending_of_atRest h, (Stuck.of_atRest h).idle, Loop.stream] at hleft

end AtRest

/-- Nothing is left to do for the events: the event loop is idle, every event that was
    reported has been dispatched and deleted, in the order of the reports, and the handle
    no longer keeps the process alive. -/
structure Published (s : State ρ) : Prop where
  idle : s.loop = .idle
  dispatched : s.dispatched = s.pushed
  deleted : s.deleted = s.pushed
  unreferenced : s.referenced = false

theorem published_of_atRest (hr : (system p).Reachable s) (h : (system p).AtRest Works s) :
    Published s := by
  have hc := conserved_of_reachable hr
  have hl := (Stuck.of_atRest h).idle
  have hempty := eventVector_of_atRest h hr
  have hdispatched : s.dispatched = s.pushed := by
    have hstaged := hc.staged (by rw [hl]; rfl : s.loop.rest = [])
    rw [← hstaged.append_buffer, hempty, List.append_nil]
  have hdeleted : s.deleted = s.dispatched := by
    have hcurrent := hc.deleted_append (by rw [hl]; rfl : s.loop.current = [])
    rwa [List.append_nil] at hcurrent
  have htracked : s.stream.Tracked := EventStream.guarded_of_reachable (stream_reachable hr)
  refine ⟨hl, hdispatched, hdeleted.trans hdispatched, ?_⟩
  by_contra hreferenced
  exact htracked.mp (by simpa [State.stream] using hreferenced) hempty

/-- **Every event is dispatched in the end**: while nothing more is reported and handlers
    leave the registry alone, what is under way comes to an end, and then all events are
    published. -/
theorem publishing_settles (hr : (system p).Reachable s) :
    (system p).Settles Works s ∧ ((system p).AtRest Works s → Published s) :=
  ⟨TransitionSystem.settles_of_lt State.left (fun _ _ _ hl hs => left_lt hl hs) s,
    published_of_atRest hr⟩

/-- The second object handles the event, and then it has been published. -/
theorem publishing_settles_oneHandled : (system nativeClient).Settles Works oneHandled ∧
    ∃ s, (system nativeClient).Leads Works oneHandled s ∧ Published s := by
  have hreachable := oneHandled_reachable.of_restrict
  have hsettles := (publishing_settles hreachable).1
  obtain ⟨s, hleads, hrest⟩ := hsettles.exists_atRest
  exact ⟨hsettles, s, hleads, (publishing_settles (hreachable.of_leads hleads)).2 hrest⟩

end NodeGemfire.RegionEventRegistry
