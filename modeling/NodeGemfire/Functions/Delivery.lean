import NodeGemfire.Functions.ResultStream
import NodeGemfire.Lib.Channel

/-!
# Delivery of function results

Seen from outside, the buffer, the batch `Data` works on and the wake-ups of
the handle are a channel: what a thread pushes is emitted once, in the order of
the pushes. Where no result is added after `endResults` was called, "end" comes
after all of them.

## Main results

- `streamSimulation` — the stream simulates a channel
- `results_prefix_and_end_last` — results in order, then "end"
-/

namespace NodeGemfire.ExecuteFunction

variable {p : Platform} {s s' : State} {l : Label}

/-! ### The stream is a channel -/

/-- Every result pushed is delivered, in the batch, or in the buffer. -/
def Conserved (s : State) : Prop :=
  Channel.Staged s.pushed s.delivered s.loop.batch s.resultsPtr

theorem conserved_start : Conserved .start := rfl

theorem Conserved.staged (h : Conserved s) {batch : CacheableVector} (hl : s.loop.batch = batch) :
    Channel.Staged s.pushed s.delivered batch s.resultsPtr := by
  rw [← hl]
  exact h

/-- Outside the loop of `Data` nothing is delivered. -/
theorem Conserved.of_batch_nil (h : Conserved s) (hl : s.loop.batch = [])
    (hl' : s'.loop.batch = []) (hdelivered : s'.delivered = s.delivered)
    (hbuffer : s'.resultsPtr = s.resultsPtr) (hpushed : s'.pushed = s.pushed) : Conserved s' := by
  rw [Conserved, hl', hdelivered, hbuffer, hpushed]
  exact h.staged hl

theorem conserved_step (h : Conserved s) (hs : Step p s l s') : Conserved s' := by
  cases hs with
  | push resultPtr => exact Channel.Staged.push h resultPtr
  | nextResults hl =>
    have hstaged := h.staged (by rw [hl]; rfl : s.loop.batch = [])
    exact hstaged.take
  | emit resultPtr rest hl =>
    have hstaged := h.staged (by rw [hl]; rfl : s.loop.batch = resultPtr :: rest)
    have hdelivered : resultsOf (s.emitted ++ [resultEmission p resultPtr]) =
        s.delivered ++ [resultPtr] := by
      rw [resultsOf_append, resultsOf_resultEmission]
      rfl
    show Channel.Staged s.pushed (resultsOf (s.emitted ++ [_])) rest s.resultsPtr
    rw [hdelivered]
    exact hstaged.deliver
  | send | callEnd | lock | checkEmpty | checkNonempty | wait | wake | unlock | sendEnd
  | executeReturn | executeThrow => exact h
  | data hl | emitted hl | lockProcessed hl | signal hl | unlockProcessed hl =>
    exact h.of_batch_nil (by rw [hl]; rfl) rfl rfl rfl rfl
  | endStart hl =>
    exact h.of_batch_nil (by rw [hl]; rfl) rfl (by simp [State.delivered]) rfl rfl
  | completeStart hl | endFinish hl | completeFinish hl =>
    exact h.of_batch_nil (by rw [hl]; rfl) rfl (by simp [State.delivered]) (by simp) (by simp)

theorem conserved_of_reachable (hr : (system p).Reachable s) : Conserved s :=
  hr.invariant Conserved (fun _ h => h ▸ conserved_start) fun _ _ _ _ => conserved_step

/-- The stream, with its buffer, its batch and its wake-ups left out. -/
def streamSimulation (p : Platform) : Simulation (system p) (Channel.system CacheablePtr) where
  abs s := ⟨s.pushed, s.delivered⟩
  start s h := by
    subst h
    rfl
  step s l s' hr hs := by
    cases hs with
    | push resultPtr => exact .inr ⟨_, .push _ resultPtr⟩
    | emit resultPtr rest hl =>
      have hstaged := (conserved_of_reachable hr).staged
        (by rw [hl]; rfl : s.loop.batch = resultPtr :: rest)
      refine .inr ⟨.deliver, ?_⟩
      show Channel.Step ⟨s.pushed, s.delivered⟩ .deliver
        ⟨s.pushed, resultsOf (s.emitted ++ [resultEmission p resultPtr])⟩
      rw [resultsOf_append, resultsOf_resultEmission]
      exact hstaged.step
    | completeStart | endStart | endFinish | completeFinish =>
      left
      ext1 <;> simp [State.delivered]
    | _ => exact .inl rfl

/-! ### The events -/

/-- What the emitter is called with is a result, the exception or the end. -/
def Faithful (p : Platform) (emission : Emission) : Prop :=
  (∃ resultPtr, emission = resultEmission p resultPtr) ∨
    (∃ exception, emission = exceptionEmission exception) ∨ emission = endEmission

theorem filter_isSome_eq_map {emitted : List Emission} (h : ∀ e ∈ emitted, Faithful p e) :
    emitted.filter (·.resultPtr?.isSome) = (resultsOf emitted).map (handedOver p) := by
  induction emitted with
  | nil => rfl
  | cons emission emitted ih =>
    have hrest := ih fun e he => h e (List.mem_cons_of_mem _ he)
    rcases h emission List.mem_cons_self with ⟨resultPtr, rfl⟩ | ⟨exception, rfl⟩ | rfl
    · simpa [resultsOf, ← resultEmission_eq] using hrest
    · simpa [resultsOf, List.filterMap_cons] using hrest
    · simpa [resultsOf, List.filterMap_cons] using hrest

theorem faithful_of_emits {emissions : List Emission} (h : Emits p s l emissions) :
    ∀ emission ∈ emissions, Faithful p emission := by
  intro emission hmem
  cases h with
  | nothing => cases hmem
  | result => exact .inl ⟨_, List.mem_singleton.mp hmem⟩
  | exception => exact .inr (.inl ⟨_, List.mem_singleton.mp hmem⟩)
  | «end» => exact .inr (.inr (List.mem_singleton.mp hmem))

theorem faithful_of_reachable (hr : (system p).Reachable s) :
    ∀ emission ∈ s.emitted, Faithful p emission := by
  refine hr.invariant (fun s => ∀ emission ∈ s.emitted, Faithful p emission) (fun s h => ?_)
    (fun s l s' _ h hs => ?_)
  · subst h
    simp [State.start]
  · obtain ⟨emissions, hemitted, hemits⟩ := hs.emits
    intro emission hmem
    rw [hemitted, List.mem_append] at hmem
    rcases hmem with hmem | hmem
    · exact h emission hmem
    · exact faithful_of_emits hemits emission hmem

/-! ### The end -/

/-- A list ends in `x` and holds an `a`: the `a` is that `x`, or in what is before it. -/
theorem append_singleton_eq_append_cons {α : Type} {xs before after : List α} {x a : α}
    (h : xs ++ [x] = before ++ a :: after) :
    xs = before ∧ x = a ∨ ∃ after', xs = before ++ a :: after' := by
  rcases List.eq_nil_or_concat after with rfl | ⟨after', y, rfl⟩
  · have h' := List.append_inj' h rfl
    exact .inl ⟨h'.1, by simpa using h'.2⟩
  · have h' : xs ++ [x] = before ++ a :: after' ++ [y] := by simpa using h
    exact .inr ⟨after', (List.append_inj' h' rfl).1⟩

/-- `ResultStream::end` has seen the buffer empty. -/
def EndCall.drained : EndCall → Bool
  | .unlocking | .sending | .returned => true
  | _ => false

/-- No result is added once `endResults` was called. -/
def EndsLast (s : State) : Label → Prop
  | .push _ => s.endCall = .notCalled
  | _ => True

/-- The invariant of the end, where it is called last. -/
structure EndInvariant (s : State) : Prop where
  drained : s.endCall.drained → s.resultsPtr = []
  pending : s.endPending = true → s.endCall = .returned ∧ endEmission ∉ s.emitted
  ended : endEmission ∈ s.emitted →
    s.endCall = .returned ∧ s.endPending = false ∧ s.loop.batch = []
  before : ∀ before after, s.emitted = before ++ endEmission :: after →
    resultsOf before = s.pushed ∧ endEmission ∉ before

theorem endInvariant_start : EndInvariant .start := by
  constructor <;> simp [State.start]

namespace EndInvariant

theorem not_ended (h : EndInvariant s) (hcall : s.endCall ≠ .returned) :
    endEmission ∉ s.emitted ∧ s.endPending = false := by
  constructor
  · intro hmem
    exact hcall (h.ended hmem).1
  · by_contra hpending
    exact hcall (h.pending (by simpa using hpending)).1

/-- Before "end" is emitted, `before` holds of whatever is emitted and pushed. -/
theorem before_of_not_mem {emitted : List Emission} (hmem : endEmission ∉ emitted)
    (pushed : CacheableVector) (before after : List Emission)
    (heq : emitted = before ++ endEmission :: after) :
    resultsOf before = pushed ∧ endEmission ∉ before := by
  refine absurd ?_ hmem
  rw [heq]
  simp

/-- The thread in `end` moves on to a point where, if it has seen the buffer
    empty, the buffer is empty. -/
theorem move (h : EndInvariant s) (hcall : s.endCall ≠ .returned) {endCall : EndCall}
    (hdrained : endCall.drained → s.resultsPtr = []) :
    EndInvariant { s with endCall := endCall } where
  drained := hdrained
  pending hpending := absurd hpending (by simp [(h.not_ended hcall).2])
  ended hmem := absurd hmem (h.not_ended hcall).1
  before := h.before

/-- The event loop moves on to a point where there is no batch. -/
theorem loop (h : EndInvariant s) {loop : Loop} (hbatch : loop.batch = []) :
    EndInvariant { s with loop := loop } :=
  { h with ended := fun hmem => ⟨(h.ended hmem).1, (h.ended hmem).2.1, hbatch⟩ }

/-- An emission other than "end"; a result is in a batch until it is emitted, so
    that none is emitted after an "end". -/
theorem emit (h : EndInvariant s) {emission : Emission} (hne : emission ≠ endEmission)
    {loop : Loop} (hbatch : endEmission ∈ s.emitted → loop.batch = []) :
    EndInvariant { s with loop := loop, emitted := s.emitted ++ [emission] } := by
  have hmem : endEmission ∈ s.emitted ++ [emission] → endEmission ∈ s.emitted := by
    simp [hne.symm]
  refine ⟨h.drained, ?_, ?_, ?_⟩
  · intro hpending
    obtain ⟨hcall, hnot⟩ := h.pending hpending
    exact ⟨hcall, fun hend => hnot (hmem hend)⟩
  · intro hend
    obtain ⟨hcall, hpending, -⟩ := h.ended (hmem hend)
    exact ⟨hcall, hpending, hbatch (hmem hend)⟩
  · intro before after heq
    rcases append_singleton_eq_append_cons heq with ⟨-, hx⟩ | ⟨after', heq'⟩
    · exact absurd hx hne
    · exact h.before before after' heq'

/-- `End` runs when `end` has returned, so that everything pushed is delivered. -/
theorem endStart (h : EndInvariant s) (hconserved : Conserved s) (hl : s.loop = .idle)
    (hpending : s.endPending = true) :
    EndInvariant
      { s with loop := .ending, endPending := false, emitted := s.emitted ++ [endEmission] } := by
  obtain ⟨hcall, hmem⟩ := h.pending hpending
  have hempty : s.resultsPtr = [] := h.drained (by simp [hcall, EndCall.drained])
  have hpushed : s.delivered = s.pushed := by
    have hstaged := hconserved.staged (by rw [hl]; rfl : s.loop.batch = [])
    rw [← hstaged.append_buffer, hempty, List.append_nil]
  refine ⟨h.drained, by simp, fun _ => ⟨hcall, rfl, rfl⟩, ?_⟩
  intro before after heq
  rcases append_singleton_eq_append_cons heq with ⟨heq', -⟩ | ⟨after', heq'⟩
  · rw [← heq']
    exact ⟨hpushed, hmem⟩
  · refine absurd ?_ hmem
    rw [heq']
    simp

theorem completeStart (h : EndInvariant s) :
    EndInvariant { s.reportException with loop := .completing, request := .served } := by
  cases hex : s.exceptionPtr with
  | none =>
    have hreport : s.reportException = s := by simp [State.reportException, hex]
    rw [hreport]
    exact { h.loop (rfl : Loop.completing.batch = []) with }
  | some exception =>
    have hreport : s.reportException =
        { s with emitted := s.emitted ++ [exceptionEmission exception], ended := true } := by
      simp [State.reportException, hex]
    rw [hreport]
    have hne : exceptionEmission exception ≠ endEmission := by
      simp [exceptionEmission, endEmission]
    exact { h.emit hne (fun _ => (rfl : Loop.completing.batch = [])) with }

theorem finish (h : EndInvariant s) (finished : List Callback) :
    EndInvariant { s.teardownIfReady with loop := .idle, finished := finished } := by
  refine ⟨?_, ?_, ?_, ?_⟩
  · simpa using h.drained
  · simpa using h.pending
  · intro hend
    have hended := h.ended (by simpa using hend)
    exact ⟨by simpa using hended.1, by simpa using hended.2.1, rfl⟩
  · simpa using h.before

theorem signal (h : EndInvariant s) :
    EndInvariant { s with loop := .unlockingProcessed, endCall := s.endCall.signalled } := by
  have h' := h.loop (rfl : Loop.unlockingProcessed.batch = [])
  by_cases hcall : s.endCall = .waiting
  · have hsignalled : s.endCall.signalled = .locking := by simp [hcall, EndCall.signalled]
    rw [hsignalled]
    exact h'.move (by simp [hcall]) (by simp [EndCall.drained])
  · have hsignalled : s.endCall.signalled = s.endCall := by
      unfold EndCall.signalled
      split <;> simp_all
    rw [hsignalled]
    exact h'

end EndInvariant

theorem endInvariant_step (hconserved : Conserved s) (h : EndInvariant s)
    (hguard : EndsLast s l) (hs : Step p s l s') : EndInvariant s' := by
  cases hs with
  | push resultPtr =>
    have hcall : s.endCall = .notCalled := hguard
    obtain ⟨hmem, hpending⟩ := h.not_ended (by simp [hcall])
    constructor
    · simp [hcall, EndCall.drained]
    · simp [hpending]
    · intro hend
      exact absurd hend hmem
    · exact EndInvariant.before_of_not_mem hmem _
  | send | executeReturn | executeThrow => exact { h with }
  | callEnd _ hcall => exact h.move (by simp [hcall]) (by simp [EndCall.drained])
  | lock hcall => exact h.move (by simp [hcall]) (by simp [EndCall.drained])
  | checkEmpty hcall hsize => exact h.move (by simp [hcall]) fun _ => hsize
  | checkNonempty hcall => exact h.move (by simp [hcall]) (by simp [EndCall.drained])
  | wait hcall => exact h.move (by simp [hcall]) (by simp [EndCall.drained])
  | wake hcall => exact h.move (by simp [hcall]) (by simp [EndCall.drained])
  | unlock hcall =>
    have hempty := h.drained (by simp [hcall, EndCall.drained])
    exact h.move (by simp [hcall]) fun _ => hempty
  | sendEnd hcall =>
    obtain ⟨hmem, -⟩ := h.not_ended (by simp [hcall])
    have hempty := h.drained (by simp [hcall, EndCall.drained])
    exact
      { h.move (by simp [hcall]) (fun _ => hempty : EndCall.returned.drained → _) with
        pending := fun _ => ⟨rfl, hmem⟩
        ended := fun hend => absurd hend hmem }
  | data => exact { h.loop (rfl : Loop.dataStarted.batch = []) with }
  | nextResults => 
    exact
      { h with
        drained := fun _ => rfl
        ended := fun hend =>
          have hcall := (h.ended hend).1
          ⟨hcall, (h.ended hend).2.1, h.drained (by simp [hcall, EndCall.drained])⟩ }
  | emit resultPtr rest hl =>
    refine { h.emit (resultEmission_ne_endEmission p resultPtr) (fun hend => ?_) with }
    have hbatch := (h.ended hend).2.2
    simp [hl, Loop.batch] at hbatch
  | emitted => exact h.loop rfl
  | lockProcessed => exact h.loop rfl
  | signal => exact h.signal
  | unlockProcessed => exact { h.loop (rfl : Loop.idle.batch = []) with }
  | endStart hl _ hpending => exact h.endStart hconserved hl hpending
  | completeStart => exact h.completeStart
  | endFinish =>
    have h' : EndInvariant { s with ended := true } := { h with }
    exact h'.finish _
  | completeFinish =>
    have h' : EndInvariant { s with executeCompleted := true } := { h with }
    exact h'.finish _

theorem endInvariant_of_reachable (hr : ((system p).restrict EndsLast).Reachable s) :
    EndInvariant s :=
  hr.invariant EndInvariant (fun _ h => h ▸ endInvariant_start) fun _ _ _ hr h hs =>
    endInvariant_step (conserved_of_reachable hr.of_restrict) h hs.1 hs.2

/-- The end is announced under its name only. -/
theorem eq_of_end_mem (hr : (system p).Reachable s) {event : String}
    (h : .end event ∈ s.emitted) : event = "end" := by
  rcases faithful_of_reachable hr _ h with ⟨resultPtr, heq⟩ | ⟨exception, heq⟩ | heq
  · rw [resultEmission_eq] at heq
    cases heq
  · rw [exceptionEmission_eq] at heq
    cases heq
  · rw [endEmission_eq] at heq
    exact Emission.end.inj heq

/-- The results emitted are at every moment a prefix of those pushed, an `Error` under
    `error` and any other under `data`; when "end" is emitted they are all of them, and
    no "end" was emitted before. -/
theorem results_prefix_and_end_last (hr : ((system p).restrict EndsLast).Reachable s) :
    s.emitted.filter (·.resultPtr?.isSome) <+: s.pushed.map (handedOver p) ∧
    (∀ event, .end event ∈ s.emitted → event = "end") ∧
    ∀ before after, s.emitted = before ++ .end "end" :: after →
      before.filter (·.resultPtr?.isSome) = s.pushed.map (handedOver p) ∧
        .end "end" ∉ before := by
  have hfaithful := faithful_of_reachable hr.of_restrict
  refine ⟨?_, fun event => eq_of_end_mem hr.of_restrict, ?_⟩
  · rw [filter_isSome_eq_map hfaithful]
    have hdelivered : s.delivered <+: s.pushed :=
      Channel.delivered_prefix ((streamSimulation p).reachable hr.of_restrict)
    exact hdelivered.map _
  · intro before after heq
    obtain ⟨hpushed, hmem⟩ := (endInvariant_of_reachable hr).before before after heq
    refine ⟨?_, hmem⟩
    rw [filter_isSome_eq_map fun e he => hfaithful e (by simp [heq, he]), hpushed]

/-- What a function returns that fails after its first result. -/
def partialResults : CacheableVector :=
  [some (.boolean true), some (.userFunctionExecutionException "failed")]

/-- The two results were added and emitted, one by one, then `end` was called, and `End`
    has started. -/
def resultsThenEnd : State :=
  { State.start with
    resultsPending := true
    endCall := .returned
    loop := .ending
    pushed := partialResults
    emitted := partialResults.map (resultEmission nativeClient) ++ [endEmission]
    finished := [.data, .data] }

theorem resultsThenEnd_reachable :
    ((system nativeClient).restrict EndsLast).Reachable resultsThenEnd := by
  have h₁ := (TransitionSystem.Reachable.start rfl :
    ((system nativeClient).restrict EndsLast).Reachable .start)
  have h₂ := (h₁.guarded (.push _ (some (.boolean true)) rfl) rfl).guarded (.data _ rfl rfl) trivial
  have h₃ := (h₂.guarded (.nextResults _ rfl) trivial).guarded (.emit _ _ [] rfl) trivial
  have h₄ := (h₃.guarded (.emitted _ rfl) trivial).guarded (.lockProcessed _ rfl rfl) trivial
  have h₅ := (h₄.guarded (.signal _ rfl) trivial).guarded (.unlockProcessed _ rfl) trivial
  have h₆ := (h₅.guarded (.push _ (some (.userFunctionExecutionException "failed")) rfl)
    rfl).guarded (.data _ rfl rfl) trivial
  have h₇ := (h₆.guarded (.nextResults _ rfl) trivial).guarded (.emit _ _ [] rfl) trivial
  have h₈ := (h₇.guarded (.emitted _ rfl) trivial).guarded (.lockProcessed _ rfl rfl) trivial
  have h₉ := (h₈.guarded (.signal _ rfl) trivial).guarded (.unlockProcessed _ rfl) trivial
  have h₁₀ := (h₉.guarded (.send _ (by decide)) trivial).guarded (.send _ (by decide)) trivial
  have h₁₁ := (h₁₀.guarded (.callEnd _ rfl rfl) trivial).guarded (.lock _ rfl rfl) trivial
  have h₁₂ := (h₁₁.guarded (.checkEmpty _ rfl rfl) trivial).guarded (.unlock _ rfl) trivial
  exact (h₁₂.guarded (.sendEnd _ rfl) trivial).guarded (.endStart _ rfl rfl rfl) trivial

theorem results_prefix_and_end_last_resultsThenEnd :
    (partialResults.map (resultEmission nativeClient)).filter (·.resultPtr?.isSome) =
        [.result (some (.boolean true)) "data" (.boolean true),
          .result (some (.userFunctionExecutionException "failed")) "error"
            (.object (.nativeError "failed") [])] ∧
      .end "end" ∉ partialResults.map (resultEmission nativeClient) :=
  (results_prefix_and_end_last resultsThenEnd_reachable).2.2 _ [] rfl

end NodeGemfire.ExecuteFunction
