import NodeGemfire.Region.Refinement

/-!
# One channel for every outcome

An asynchronous call throws, or its callback hears of the outcome, or, without a
callback, an `error` event tells of a failure. A call that throws because a part
of its arguments is not serializable goes on all the same and queues its worker,
which then uses a second channel.

## Main definitions

- `ExactlyOneChannel` — the outcome of a call is heard of once
-/

namespace NodeGemfire

variable {σ : Type}

/-- The call throws and nothing more is heard of it, or it does not throw and its
    outcome is reported once. -/
def ExactlyOneChannel (client : Client σ) (m : AsyncMethod) (info : List JsValue)
    (s : Session σ) : Prop :=
  let o := m.perform client info s
  (o.thrown ≠ [] ∧ o.reports = []) ∨
    (o.thrown = [] ∧ Reported ((m.request info).arguments client s) (m.callback info)
      ((m.request info).fails client s) o.reports)

theorem Reported.eq_nil_iff {arguments : List JsValue} {callback : Option JsValue} {failed : Bool}
    {reports : List Report} (h : Reported arguments callback failed reports) :
    reports = [] ↔ callback = none ∧ failed = false := by
  cases callback with
  | none =>
    cases failed with
    | false => exact iff_of_true h ⟨rfl, rfl⟩
    | true =>
      obtain ⟨error, rfl⟩ := h
      simp
  | some callback =>
    cases failed with
    | false =>
      rw [show reports = _ from h]
      simp
    | true =>
      obtain ⟨error, rfl⟩ := h
      simp

/-- A call uses exactly one channel if and only if it is rejected, or every part
    that is converted is serializable, or there is nothing to report. -/
theorem exactlyOneChannel_iff (client : Client σ) (m : AsyncMethod) (info : List JsValue)
    (s : Session σ) :
    ExactlyOneChannel client m info s ↔
      m.Rejected client info ∨ (m.request info).Serializable client.platform ∨
        (m.callback info = none ∧ (m.request info).fails client s = false) := by
  by_cases hrejected : m.Rejected client info
  · obtain ⟨-, hthrown, hreports⟩ := AsyncMethod.perform_of_rejected hrejected s
    exact iff_of_true (.inl ⟨hthrown, hreports⟩) (.inl hrejected)
  · obtain ⟨-, hthrown, hreported⟩ := AsyncMethod.perform_of_accepted hrejected s
    simp only [ExactlyOneChannel, hrejected, false_or]
    by_cases hserializable : (m.request info).Serializable client.platform
    · exact iff_of_true (.inr ⟨hthrown.mpr hserializable, hreported⟩) (.inl hserializable)
    · have hne : (m.perform client info s).thrown ≠ [] := mt hthrown.mp hserializable
      rw [← hreported.eq_nil_iff]
      simp [hne, hserializable]

/-- The arguments of `region.put("foo", function () {}, callback)`. -/
def putFunctionInfo : List JsValue :=
  [.string (.ofAscii "foo"), .object .function [], .object .function []]

/-- The call throws, and then calls back with an error. -/
theorem not_exactlyOneChannel_put :
    ¬ExactlyOneChannel memoryClient .put putFunctionInfo (.start []) := by
  have hthrown : (AsyncMethod.put.perform memoryClient putFunctionInfo (.start [])).thrown =
      [⟨"Error", "Unable to serialize to GemFire; functions are not supported."⟩] := rfl
  have hreports : (AsyncMethod.put.perform memoryClient putFunctionInfo (.start [])).reports =
      [.callbackError (.object .function [])
        ⟨"InvalidValueError", "Invalid GemFire value."⟩] := rfl
  rintro (⟨-, h⟩ | ⟨h, -⟩)
  · rw [hreports] at h
    exact absurd h (List.cons_ne_nil _ _)
  · rw [hthrown] at h
    exact absurd h (List.cons_ne_nil _ _)

end NodeGemfire
