import NodeGemfire.Conversions.Leaves

/-!
# 64-bit integers across the boundary

A 64-bit integer is delivered as the double nearest to it, which is another
integer, or is also nearest to another integer, from 2^53 on. The warnings begin
one integer before that.

## Main results

- `silent_int64_exact` — without a warning the number is the integer, and no other
  integer is delivered as it
-/

namespace NodeGemfire

variable {value other : Int64}

theorem v8ValueInt64_value : (v8ValueInt64 value).value = Number.ofInt64 value := by
  rw [v8ValueInt64]
  split
  · rfl
  · split <;> rfl

/-- There is no warning for the safe integers, which have at most 53 bits. -/
theorem v8ValueInt64_warned_eq_nil_iff :
    (v8ValueInt64 value).warned = [] ↔ value.toInt.natAbs < 2 ^ 53 := by
  have hmax : maxSafeInteger = 2 ^ 53 - 1 := rfl
  have hmin : minSafeInteger = -(2 ^ 53 - 1) := rfl
  rw [v8ValueInt64]
  by_cases hgreater : maxSafeInteger < value.toInt
  · rw [if_pos hgreater]
    refine iff_of_false (List.cons_ne_nil _ _) ?_
    omega
  · by_cases hless : value.toInt < minSafeInteger
    · rw [if_neg hgreater, if_pos hless]
      refine iff_of_false (List.cons_ne_nil _ _) ?_
      omega
    · rw [if_neg hgreater, if_neg hless]
      refine iff_of_true rfl ?_
      omega

/-- The number delivered has the rounded value. -/
theorem ofInt64_eq_iff : Number.ofInt64 other = Number.ofInt64 value ↔
    roundToDouble other.toInt = roundToDouble value.toInt := by
  rw [Number.ofInt64, Number.ofInt64, Number.finite.injEq, Subtype.ext_iff]
  exact Int.cast_inj

/-- **No silent loss**: an integer delivered without a warning is delivered exactly, and
    no other integer is delivered as the same number. -/
theorem silent_int64_exact (h : (v8ValueInt64 value).warned = []) :
    (∃ number : Double, (v8ValueInt64 value).value = .finite number ∧
      number.val = (value.toInt : ℚ)) ∧
    ∀ other : Int64, (v8ValueInt64 other).value = (v8ValueInt64 value).value → other = value := by
  have hsafe := v8ValueInt64_warned_eq_nil_iff.mp h
  have hexact : roundToDouble value.toInt = value.toInt := roundToDouble_of_natAbs_lt hsafe
  constructor
  · refine ⟨_, v8ValueInt64_value, ?_⟩
    exact congrArg Int.cast hexact
  · intro other heq
    rw [v8ValueInt64_value, v8ValueInt64_value, ofInt64_eq_iff, hexact] at heq
    exact Int64.toInt_inj.mp (eq_of_roundToDouble_eq hsafe heq)

/-- The greatest integer without a warning. -/
theorem silent_int64_exact_maxSafeInteger :
    ∃ number : Double, (v8ValueInt64 9007199254740991).value = .finite number ∧
      number.val = ((9007199254740991 : Int64).toInt : ℚ) := by
  have hsilent : (v8ValueInt64 9007199254740991).warned = [] := by decide
  exact (silent_int64_exact hsilent).1

/-- With a warning 2^53 is what 2^53 + 1 is delivered as. -/
example : (v8ValueInt64 9007199254740992).value = (v8ValueInt64 9007199254740993).value :=
  ofInt64_eq_iff.mpr (by decide)

end NodeGemfire
