import NodeGemfire.Conversions.FromGemfire
import NodeGemfire.Conversions.Serializable

/-!
# Dates across the boundary

The milliseconds of a Date become a count of nanoseconds in a signed 64-bit
integer, which has room for the years 1677 to 2262. A Date outside of them is
a valid Date still, but comes back as another.
-/

namespace NodeGemfire

/-- The nanoseconds of `ms` milliseconds are a signed 64-bit integer. -/
def FitsNanoseconds (ms : ℤ) : Prop := |ms| ≤ 9223372036854

instance (ms : ℤ) : Decidable (FitsNanoseconds ms) := inferInstanceAs (Decidable (_ ≤ _))

/-- Nanoseconds that fit do not wrap. -/
theorem bmod_of_fitsNanoseconds {ms : ℤ} (h : FitsNanoseconds ms) :
    (ms * 1000000).bmod (2 ^ 64) = ms * 1000000 := by
  have hle := abs_le.mp h
  exact Int.bmod_eq_of_le_mul_two (by omega) (by omega)

/-- What a Date is stored as fits, wrapped or not. -/
theorem fitsNanoseconds_gemfireDate (t : TimeValue) : FitsNanoseconds (gemfireDate t) := by
  have hle : -2 ^ 63 ≤ (millisecondsSinceEpoch t * 1000000).bmod (2 ^ 64) := Int.le_bmod (by decide)
  have hlt : (millisecondsSinceEpoch t * 1000000).bmod (2 ^ 64) < 2 ^ 63 := Int.bmod_lt (by decide)
  rw [FitsNanoseconds, gemfireDate, abs_le]
  exact ⟨Int.tdiv_le_tdiv (c := 1000000) (by decide) hle,
    Int.tdiv_le_tdiv (c := 1000000) (by decide) (Int.le_sub_one_of_lt hlt)⟩

/-- What is left of nanoseconds that wrapped is in another millisecond. -/
theorem tdiv_bmod_ne {ms : ℤ} (h : ¬FitsNanoseconds ms) :
    ((ms * 1000000).bmod (2 ^ 64)).tdiv 1000000 ≠ ms := by
  intro heq
  have hle : -2 ^ 63 ≤ (ms * 1000000).bmod (2 ^ 64) := Int.le_bmod (by decide)
  have hlt : (ms * 1000000).bmod (2 ^ 64) < 2 ^ 63 := Int.bmod_lt (by decide)
  have hmod : (ms * 1000000).bmod (2 ^ 64) % 2 ^ 64 = ms * 1000000 % 2 ^ 64 := Int.bmod_emod
  have hdiv := Int.mul_tdiv_add_tmod ((ms * 1000000).bmod (2 ^ 64)) 1000000
  have hrem_lt := Int.tmod_lt_of_pos ((ms * 1000000).bmod (2 ^ 64)) (b := 1000000) (by decide)
  have hlt_rem := Int.lt_tmod_of_pos ((ms * 1000000).bmod (2 ^ 64)) (b := 1000000) (by decide)
  rw [heq] at hdiv
  -- less than a millisecond apart and equal modulo 2^64, they are the same
  apply h
  rw [FitsNanoseconds, abs_le]
  omega

theorem gemfireDate_eq_iff (t : {ms : ℤ // |ms| ≤ 8640000000000000}) :
    gemfireDate (some t) = t ↔ FitsNanoseconds t := by
  constructor
  · intro heq
    by_contra h
    exact tdiv_bmod_ne h heq
  · intro h
    rw [gemfireDate, millisecondsSinceEpoch, bmod_of_fitsNanoseconds h]
    exact Int.mul_tdiv_cancel _ (by decide)

/-! ### Whole Dates -/

/-- The Date with these milliseconds. -/
def dateObject (t : {ms : ℤ // |ms| ≤ 8640000000000000}) : JsValue := .object (.date (some t)) []

variable {p : Platform}

/-- The Date comes back as it was. -/
def DateReturns (p : Platform) (t : {ms : ℤ // |ms| ≤ 8640000000000000}) : Prop :=
  v8Value p (gemfireValue p (dateObject t)).value = pure (dateObject t)

theorem dateReturns_iff {t : {ms : ℤ // |ms| ≤ 8640000000000000}} :
    DateReturns p t ↔ FitsNanoseconds t := by
  have hback : v8Value p (gemfireValue p (dateObject t)).value =
      pure (.object (.date (v8Date (gemfireDate (some t)))) []) := rfl
  rw [← gemfireDate_eq_iff, DateReturns, hback]
  constructor
  · intro h
    have htime : v8Date (gemfireDate (some t)) = some t := by
      have hvalue := congrArg Isolate.value h
      simpa [dateObject] using hvalue
    unfold v8Date at htime
    split at htime
    · exact congrArg Subtype.val (Option.some.inj htime)
    · cases htime
  · intro h
    rw [h, v8Date, dif_pos t.2]
    rfl

/-- Two Dates come back as they were, and are different as values and as keys if they
    are different, if and only if the nanoseconds of both fit. -/
theorem dates_return_iff (p : Platform) (t u : {ms : ℤ // |ms| ≤ 8640000000000000}) :
    (DateReturns p t ∧ DateReturns p u ∧
      ((gemfireValue p (dateObject t)).value = (gemfireValue p (dateObject u)).value → t = u) ∧
      ((gemfireKey p (dateObject t)).value = (gemfireKey p (dateObject u)).value → t = u)) ↔
      FitsNanoseconds t ∧ FitsNanoseconds u := by
  rw [← dateReturns_iff (p := p), ← dateReturns_iff (p := p)]
  constructor
  · rintro ⟨ht, hu, -⟩
    exact ⟨ht, hu⟩
  · rintro ⟨ht, hu⟩
    have hinj : (gemfireValue p (dateObject t)).value = (gemfireValue p (dateObject u)).value →
        t = u := by
      intro heq
      rw [DateReturns, heq, hu] at ht
      have hobject : dateObject u = dateObject t := congrArg Isolate.value ht
      simpa [dateObject] using hobject.symm
    have hkey (t : {ms : ℤ // |ms| ≤ 8640000000000000}) :
        (gemfireKey p (dateObject t)).value = (gemfireValue p (dateObject t)).value := rfl
    refine ⟨ht, hu, hinj, fun heq => hinj ?_⟩
    rw [← hkey, heq, hkey]

/-- The first day of the year 2300 comes back as a day of the year 1715. -/
theorem not_dateReturns_year2300 :
    ¬∀ (p : Platform) (t : {ms : ℤ // |ms| ≤ 8640000000000000}), DateReturns p t := by
  intro h
  have hreturns := dateReturns_iff.mp (h nativeClient ⟨10413792000000, by decide⟩)
  exact absurd hreturns (by decide)

end NodeGemfire
