import NodeGemfire.Functions.Delivery
import NodeGemfire.Functions.Teardown

/-!
# Failure after results

When `execute` throws, `ResultStream::end` has not waited for the buffer to be
drained, and `ExecuteComplete` deletes the worker together with what is in the
buffer. The results that came before the failure are all emitted exactly where
`Data` has taken them before `ExecuteComplete` is served.

## Main results

- `reports_of_reachable` — what has been emitted besides "end"
- `reported_iff_restrict` — when the results and then the error are reported
-/

namespace NodeGemfire.ExecuteFunction

variable {p : Platform} {s s' : State} {l : Label}

/-! ### What is emitted besides "end" -/

def Emission.isEnd : Emission → Bool
  | .end _ => true
  | _ => false

/-- What has been emitted, without "end". -/
def State.reports (s : State) : List Emission := s.emitted.filter (!·.isEnd)

/-- What `ExecuteComplete` has emitted, once it is served. -/
def State.failure (s : State) : List Emission :=
  if s.request = .served then s.exceptionPtr.toList.map exceptionEmission else []

@[simp] theorem isEnd_resultEmission (resultPtr : CacheablePtr) :
    (resultEmission p resultPtr).isEnd = false := by
  rw [resultEmission_eq]
  rfl

@[simp] theorem isEnd_exceptionEmission (exception : GeodeException) :
    (exceptionEmission exception).isEnd = false := rfl

@[simp] theorem isEnd_endEmission : endEmission.isEnd = true := rfl

/-- `ExecuteComplete` has been served with an exception. -/
structure State.Settled (s : State) : Prop where
  threw : s.exceptionPtr.isSome
  served : s.request = .served

/-- With an exception recorded, `ExecuteComplete` is the last callback. -/
theorem Teardown.settled (h : Teardown s) (hsettled : s.Settled) :
    s.loop = .completing ∨ s.loop = .idle ∧ s.closed = true := by
  obtain ⟨hex, hserved⟩ := hsettled
  by_cases hl : s.loop = .completing
  · exact .inl hl
  · have hready : s.ready = true := by
      simp [State.ready, h.threw hex hserved, h.served hserved hl]
    right
    constructor
    · by_contra hbusy
      have hnot := h.idle hbusy
      simp [hready] at hnot
    · rw [h.closed, hready]

/-- After that nothing more is emitted, and the buffer stays as it is. -/
theorem Teardown.settled_step (h : Teardown s) (hsettled : s.Settled) (hs : Step p s l s') :
    s'.emitted = s.emitted ∧ s'.resultsPtr = s.resultsPtr ∧ s'.exceptionPtr = s.exceptionPtr ∧
      s'.request = .served := by
  have hserved := hsettled.served
  have hsettled := h.settled hsettled
  cases hs with
  | push _ hr | executeReturn hr | executeThrow _ hr | completeStart _ hr => simp [hserved] at hr
  | data hl hopen => simp [hl, hopen] at hsettled
  | nextResults hl | emit _ _ hl => simp [hl] at hsettled
  | endStart hl hopen => simp [hl, hopen] at hsettled
  | endFinish | completeFinish => simp [hserved]
  | _ => exact ⟨rfl, rfl, rfl, hserved⟩

theorem failure_of_not_settled (h : ¬ s.Settled) : s.failure = [] := by
  unfold State.failure
  by_cases hserved : s.request = .served
  · have hnone : s.exceptionPtr = none := by
      by_contra hex
      exact h ⟨Option.isSome_iff_ne_none.mpr hex, hserved⟩
    simp [hnone]
  · rw [if_neg hserved]

theorem failure_step (hsettled : ¬ s.Settled) (hs : Step p s l s') :
    l = .completeStart ∧ s'.failure = s.exceptionPtr.toList.map exceptionEmission ∨
      l ≠ .completeStart ∧ s'.failure = [] := by
  have hfailure := failure_of_not_settled hsettled
  cases hs with
  | completeStart =>
    left
    simp [State.failure]
  | executeReturn | executeThrow =>
    right
    simp [State.failure]
  | endFinish | completeFinish =>
    right
    have hfailure' := hfailure
    simpa [State.failure] using hfailure'
  | _ => exact .inr ⟨by simp, hfailure⟩

theorem reports_step (hsettled : ¬ s.Settled)
    (h : s.reports = s.delivered.map (resultEmission p)) (hs : Step p s l s') :
    s'.reports = s'.delivered.map (resultEmission p) ++ s'.failure := by
  obtain ⟨emissions, hemitted, hemits⟩ := hs.emits
  have hreports : s'.reports = s.reports ++ emissions.filter (!·.isEnd) := by
    simp [State.reports, hemitted]
  have hdelivered : s'.delivered = s.delivered ++ resultsOf emissions := by
    simp [State.delivered, hemitted]
  rw [hreports, hdelivered, h, List.map_append, List.append_assoc]
  congr 1
  -- what is new is a result, the exception or "end"
  cases hemits with
  | result =>
    obtain ⟨hl, -⟩ | ⟨-, hfailure⟩ := failure_step hsettled hs
    · cases hl
    · simp [hfailure]
  | exception hex =>
    obtain ⟨-, hfailure⟩ | ⟨hl, -⟩ := failure_step hsettled hs
    · simp [hfailure, hex]
    · exact absurd rfl hl
  | «end» =>
    obtain ⟨hl, -⟩ | ⟨-, hfailure⟩ := failure_step hsettled hs
    · cases hl
    · simp [hfailure]
  | nothing hnone =>
    obtain ⟨hl, hfailure⟩ | ⟨-, hfailure⟩ := failure_step hsettled hs
    · simp [hfailure, hnone hl, resultsOf]
    · simp [hfailure, resultsOf]

theorem reports_of_reachable (hr : (system p).Reachable s) :
    s.reports = s.delivered.map (resultEmission p) ++ s.failure := by
  refine hr.invariant (fun s => s.reports = s.delivered.map (resultEmission p) ++ s.failure)
    (fun s h => ?_) (fun s l s' hr h hs => ?_)
  · subst h
    rfl
  · by_cases hsettled : s.Settled
    · obtain ⟨hemitted, -, hex, hserved⟩ :=
        (teardown_of_reachable hr).settled_step hsettled hs
      have hfailure : s'.failure = s.failure := by
        simp [State.failure, hex, hserved, hsettled.served]
      rw [State.reports, State.delivered, hemitted, hfailure]
      exact h
    · refine reports_step hsettled ?_ hs
      rwa [failure_of_not_settled hsettled, List.append_nil] at h

/-! ### When everything is reported -/

/-- Once the exception has been emitted as `error` or the worker has been deleted, what
    has been emitted besides "end" is every result pushed, once and in order, and then
    the exception. -/
def Reported (p : Platform) (s : State) : Prop :=
  ∀ exception, s.exceptionPtr = some exception →
    .exception "error" (v8Error exception) ∈ s.emitted ∨ 0 < s.deletes →
    s.reports = s.pushed.map (handedOver p) ++ [.exception "error" (v8Error exception)]

/-- `ExecuteComplete` is served with an exception only when the buffer is empty. -/
def DrainedAtFailure (s : State) (l : Label) : Prop :=
  l = .completeStart → s.exceptionPtr.isSome → s.resultsPtr = []

/-- Nothing was left in the buffer when `ExecuteComplete` was served with an exception. -/
def NothingLost (s : State) : Prop := s.Settled → s.resultsPtr = []

/-- Once `ExecuteComplete` is served with an exception, there is no batch. -/
theorem pushed_of_settled (hr : (system p).Reachable s) (hsettled : s.Settled) :
    s.delivered ++ s.resultsPtr = s.pushed := by
  have hbatch : s.loop.batch = [] := by
    rcases (teardown_of_reachable hr).settled hsettled with hl | ⟨hl, -⟩
    · rw [hl]
      rfl
    · rw [hl]
      rfl
  exact ((conserved_of_reachable hr).staged hbatch).append_buffer

theorem failure_of_served {exception : GeodeException} (hex : s.exceptionPtr = some exception)
    (hserved : s.request = .served) : s.failure = [exceptionEmission exception] := by
  simp [State.failure, hex, hserved]

theorem mem_reports {emission : Emission} (hend : emission.isEnd = false) :
    emission ∈ s.reports ↔ emission ∈ s.emitted := by
  simp [State.reports, hend]

/-- The exception is emitted, and the worker deleted, by `ExecuteComplete`. -/
theorem served_of_emitted (hr : (system p).Reachable s) {exception : GeodeException}
    (h : exceptionEmission exception ∈ s.emitted ∨ 0 < s.deletes) : s.request = .served := by
  rcases h with hmem | hdeleted
  · rw [← mem_reports (isEnd_exceptionEmission exception), reports_of_reachable hr,
      List.mem_append] at hmem
    rcases hmem with hmem | hmem
    · obtain ⟨resultPtr, -, heq⟩ := List.mem_map.mp hmem
      have hresult := congrArg Emission.resultPtr? heq
      simp at hresult
    · by_contra hserved
      simp [State.failure, hserved] at hmem
  · have h := teardown_of_reachable hr
    have hready : s.ready = true := by
      by_contra hready
      simp [h.deleted, hready] at hdeleted
    simp only [State.ready, Bool.and_eq_true] at hready
    exact h.completed hready.2

theorem reported_iff_nothingLost (hr : (system p).Reachable s) : Reported p s ↔ NothingLost s := by
  have hreports := reports_of_reachable hr
  have hhanded : handedOver p = resultEmission p := (funext (resultEmission_eq p)).symm
  simp only [Reported, hhanded, ← exceptionEmission_eq]
  constructor
  · intro h hsettled
    obtain ⟨exception, hex⟩ := Option.isSome_iff_exists.mp hsettled.threw
    have hpushed := pushed_of_settled hr hsettled
    rw [failure_of_served hex hsettled.served] at hreports
    have hmem : exceptionEmission exception ∈ s.emitted := by
      rw [← mem_reports (isEnd_exceptionEmission exception), hreports]
      simp
    have hall := h exception hex (.inl hmem)
    rw [hreports] at hall
    have hlength := congrArg List.length hall
    have hlength' := congrArg List.length hpushed
    simp only [List.length_append, List.length_map] at hlength hlength'
    exact List.eq_nil_of_length_eq_zero (by omega)
  · intro h exception hex hemitted
    have hserved := served_of_emitted hr hemitted
    have hsettled : s.Settled := ⟨by simp [hex], hserved⟩
    have hpushed := pushed_of_settled hr hsettled
    rw [h hsettled, List.append_nil] at hpushed
    rw [hreports, failure_of_served hex hserved, hpushed]

theorem nothingLost_step (hguard : DrainedAtFailure s l) (h : NothingLost s)
    (hs : Step p s l s') : NothingLost s' := by
  cases hs with
  | push _ hr =>
    intro hsettled
    have hserved := hsettled.served
    simp [hr] at hserved
  | executeReturn | executeThrow =>
    intro hsettled
    cases hsettled.served
  | nextResults => exact fun _ => rfl
  | completeStart =>
    intro hsettled
    have hbuffer := hguard rfl (by simpa using hsettled.threw)
    simpa using hbuffer
  | endFinish | completeFinish =>
    intro hsettled
    have hbuffer := h ⟨by simpa using hsettled.threw, by simpa using hsettled.served⟩
    simpa using hbuffer
  | _ => exact fun hsettled => h ⟨hsettled.threw, hsettled.served⟩

theorem nothingLost_of_step (hr : (system p).Reachable s) (hs : Step p s l s')
    (h : NothingLost s') : NothingLost s ∧ DrainedAtFailure s l := by
  constructor
  · intro hsettled
    obtain ⟨-, hbuffer, hex, hserved⟩ := (teardown_of_reachable hr).settled_step hsettled hs
    rw [← hbuffer]
    exact h ⟨by rw [hex]; exact hsettled.threw, hserved⟩
  · rintro rfl hex
    cases hs with
    | completeStart =>
      have hbuffer := h ⟨by simpa using hex, rfl⟩
      simpa using hbuffer

/-- In every reachable state the results and then the error are reported if and
    only if `Data` had drained the buffer whenever `ExecuteComplete` was served
    with an exception. -/
theorem reported_iff_restrict (hr : (system p).Reachable s) :
    Reported p s ↔ ((system p).restrict DrainedAtFailure).Reachable s := by
  rw [reported_iff_nothingLost hr]
  refine hr.iff_restrict NothingLost (fun s h => ?_) ?_ ?_
  · subst h
    intro hsettled
    cases hsettled.threw
  · intro s l s' _ h hguard hs
    exact nothingLost_step hguard h hs
  · intro s l s' hr hs h
    exact nothingLost_of_step hr hs h

def failureException : GeodeException := ⟨"apache::geode::client::TimeoutException", "timed out"⟩

/-- `null` was added and emitted, then `execute` threw. -/
def resultThenError : State :=
  { State.start with
    closed := true
    request := .served
    exceptionPtr := some failureException
    ended := true
    executeCompleted := true
    resultsPending := true
    pushed := [none]
    emitted := [resultEmission nativeClient none, exceptionEmission failureException]
    finished := [.data, .executeComplete]
    deletes := 1 }

theorem resultThenError_reachable : (system nativeClient).Reachable resultThenError := by
  have h₁ := (TransitionSystem.Reachable.start rfl : (system nativeClient).Reachable .start)
  have h₂ := h₁.step (.push _ none rfl)
  have h₃ := ((h₂.step (.data _ rfl rfl)).step (.nextResults _ rfl)).step (.emit _ none [] rfl)
  have h₄ := ((h₃.step (.emitted _ rfl)).step (.lockProcessed _ rfl rfl)).step (.signal _ rfl)
  have h₅ := (h₄.step (.unlockProcessed _ rfl)).step (.send _ (by decide))
  have h₆ := h₅.step (.executeThrow _ failureException rfl ⟨rfl, .inl rfl⟩)
  exact (h₆.step (.completeStart _ rfl rfl)).step (.completeFinish _ rfl)

theorem reported_iff_restrict_resultThenError :
    Reported nativeClient resultThenError ↔
      ((system nativeClient).restrict DrainedAtFailure).Reachable resultThenError :=
  reported_iff_restrict resultThenError_reachable

/-- `null` was added, `execute` threw, and `ExecuteComplete` was served first. -/
def lostResult : State :=
  { State.start with
    resultsPtr := [none]
    resultsPending := true
    closed := true
    request := .served
    exceptionPtr := some failureException
    ended := true
    executeCompleted := true
    pushed := [none]
    emitted := [exceptionEmission failureException]
    finished := [.executeComplete]
    deletes := 1 }

theorem lostResult_reachable : (system nativeClient).Reachable lostResult := by
  have h₁ := (TransitionSystem.Reachable.start rfl : (system nativeClient).Reachable .start)
  have h₂ := (h₁.step (.push _ none rfl)).step (.send _ (by decide))
  have h₃ := h₂.step (.executeThrow _ failureException rfl ⟨rfl, .inl rfl⟩)
  exact (h₃.step (.completeStart _ rfl rfl)).step (.completeFinish _ rfl)

theorem not_reported_lostResult :
    ¬ ∀ s, (system nativeClient).Reachable s → Reported nativeClient s := by
  intro h
  have hreports := h lostResult lostResult_reachable failureException rfl (.inr (by decide))
  have hlength := congrArg List.length hreports
  simp [State.reports, lostResult] at hlength

end NodeGemfire.ExecuteFunction
