import NodeGemfire.Lib.Unicode
import Mathlib.Data.List.TakeWhile
import Mathlib.Tactic.IntervalCases

/-!
# Transcoding there and back

UTF-8 decodes to the code points it was encoded from, so that code units that
pass through it come back with each lone surrogate replaced; and what a reader
of a NUL-terminated buffer sees of the encoding is the encoding of what it would
see of the code units.

## Main results

- `Unicode.utf16OfUtf8_utf8OfUtf16` — there and back is `toWellFormed`
- `Unicode.cString_utf8OfUtf16` — cutting at a NUL and encoding commute
-/

theorem cString_eq_self {α : Type*} [DecidableEq α] [OfNat α 0] {s : List α} (h : 0 ∉ s) :
    cString s = s := by
  refine List.takeWhile_eq_self_iff.mpr fun a ha => ?_
  have hne : a ≠ 0 := fun heq => h (heq ▸ ha)
  simpa using hne

theorem zero_not_mem_cString {α : Type*} [DecidableEq α] [OfNat α 0] (s : List α) :
    0 ∉ cString s := by
  intro h
  simpa using List.mem_takeWhile_imp h

/-- A NUL-terminated reader sees all of `s` if and only if there is no NUL in it. -/
theorem cString_eq_self_iff {α : Type*} [DecidableEq α] [OfNat α 0] {s : List α} :
    cString s = s ↔ 0 ∉ s := by
  refine ⟨fun h => ?_, cString_eq_self⟩
  rw [← h]
  exact zero_not_mem_cString s

@[simp] theorem cString_cString {α : Type*} [DecidableEq α] [OfNat α 0] (s : List α) :
    cString (cString s) = cString s := cString_eq_self (zero_not_mem_cString s)

/-- A terminator at the end changes nothing. -/
@[simp] theorem cString_append_zero {α : Type*} [DecidableEq α] [OfNat α 0] (s : List α) :
    cString (s ++ [0]) = cString s := by
  induction s with
  | nil => simp [cString]
  | cons a s ih =>
    by_cases ha : a = 0
    · simp [cString, ha]
    · simpa [cString, ha] using ih

theorem cString_cons_of_ne {α : Type*} [DecidableEq α] [OfNat α 0] {a : α} (ha : a ≠ 0)
    (s : List α) : cString (a :: s) = a :: cString s := by
  simp [cString, ha]

theorem cString_append {α : Type*} [DecidableEq α] [OfNat α 0] {s : List α} (h : 0 ∉ s)
    (t : List α) : cString (s ++ t) = s ++ cString t := by
  induction s with
  | nil => rfl
  | cons a s ih =>
    obtain ⟨ha, hs⟩ := not_or.mp (mt List.mem_cons.mpr h)
    rw [List.cons_append, cString_cons_of_ne (Ne.symm ha), ih hs, List.cons_append]

/-- A map under which only 0 becomes 0 commutes with the cut. -/
theorem cString_map {α β : Type*} [DecidableEq α] [OfNat α 0] [DecidableEq β] [OfNat β 0]
    {f : α → β} (hf : ∀ a, f a = 0 ↔ a = 0) (s : List α) :
    cString (s.map f) = (cString s).map f := by
  induction s with
  | nil => rfl
  | cons a s ih =>
    by_cases ha : a = 0
    · simp [cString, ha, (hf 0).mpr rfl]
    · simpa [cString, ha, mt (hf a).mp ha] using ih

namespace Unicode

/-! ### Decoding one character -/

/-- A code point that is no surrogate. -/
def IsScalar (c : ℕ) : Prop := c < 0xD800 ∨ (0xE000 ≤ c ∧ c < 0x110000)

theorem toNat_tail {m : ℕ} (hm : m < 64) : (UInt8.ofNat (0x80 + m)).toNat = 0x80 + m := by
  rw [UInt8.toNat_ofNat']
  omega

/-- The last byte of a character. -/
theorem decodeFrom_last {b lower upper : UInt8} {bits m : ℕ} (hb : b.toNat = 0x80 + m)
    (hlower : lower.toNat ≤ 0x80 + m) (hupper : 0x80 + m ≤ upper.toNat) (rest : List UInt8) :
    decodeFrom (some ⟨1, lower, upper, bits⟩) (b :: rest) =
      (bits * 64 + m) :: decodeFrom none rest := by
  have hin : lower ≤ b ∧ b ≤ upper := by
    rw [UInt8.le_iff_toNat_le, UInt8.le_iff_toNat_le, hb]
    exact ⟨hlower, hupper⟩
  simp [decodeFrom, nextByte, hin, hb]

/-- A byte of a character that is not the last of it. -/
theorem decodeFrom_more {b lower upper : UInt8} {owed bits m : ℕ} (hb : b.toNat = 0x80 + m)
    (hlower : lower.toNat ≤ 0x80 + m) (hupper : 0x80 + m ≤ upper.toNat) (rest : List UInt8) :
    decodeFrom (some ⟨owed + 2, lower, upper, bits⟩) (b :: rest) =
      decodeFrom (some ⟨owed + 1, 0x80, 0xBF, bits * 64 + m⟩) rest := by
  have hin : lower ≤ b ∧ b ≤ upper := by
    rw [UInt8.le_iff_toNat_le, UInt8.le_iff_toNat_le, hb]
    exact ⟨hlower, hupper⟩
  simp [decodeFrom, nextByte, hin, hb]

theorem decodeFrom_one {c : ℕ} (hc : c < 0x80) (rest : List UInt8) :
    decodeFrom none (UInt8.ofNat c :: rest) = c :: decodeFrom none rest := by
  have hnat : (UInt8.ofNat c).toNat = c := by
    rw [UInt8.toNat_ofNat']
    omega
  have hlt : UInt8.ofNat c < 0x80 := by
    rw [UInt8.lt_iff_toNat_lt, hnat]
    exact hc
  simp [decodeFrom, nextByte, firstByte, hlt, hnat]

/-- The first of two bytes. -/
theorem decodeFrom_two {q : ℕ} (hle : 2 ≤ q) (hlt : q < 32) (rest : List UInt8) :
    decodeFrom none (UInt8.ofNat (0xC0 + q) :: rest) =
      decodeFrom (some ⟨1, 0x80, 0xBF, q⟩) rest := by
  interval_cases q <;> rfl

/-- The first of three bytes. -/
theorem decodeFrom_three {q : ℕ} (hlt : q < 16) (rest : List UInt8) :
    decodeFrom none (UInt8.ofNat (0xE0 + q) :: rest) =
      decodeFrom (some ⟨2, if q = 0 then 0xA0 else 0x80, if q = 13 then 0x9F else 0xBF, q⟩)
        rest := by
  interval_cases q <;> rfl

/-- The first of four bytes. -/
theorem decodeFrom_four {q : ℕ} (hle : q ≤ 4) (rest : List UInt8) :
    decodeFrom none (UInt8.ofNat (0xF0 + q) :: rest) =
      decodeFrom (some ⟨3, if q = 0 then 0x90 else 0x80, if q = 4 then 0x8F else 0xBF, q⟩)
        rest := by
  interval_cases q <;> rfl

/-- **A scalar value decodes** from its bytes, whatever follows them. -/
theorem decodeFrom_utf8Bytes {c : ℕ} (hc : IsScalar c) (rest : List UInt8) :
    decodeFrom none (utf8Bytes c ++ rest) = c :: decodeFrom none rest := by
  unfold IsScalar at hc
  unfold utf8Bytes
  split_ifs with h₁ h₂ h₃
  · exact decodeFrom_one h₁ rest
  · simp only [pow_zero, Nat.div_one, List.cons_append, List.nil_append]
    rw [decodeFrom_two (by omega) (by omega),
      decodeFrom_last (toNat_tail (by omega)) (by simp) (by simp; omega)]
    congr 1
    omega
  · simp only [pow_zero, pow_one, Nat.div_one, List.cons_append, List.nil_append]
    rw [decodeFrom_three (by omega),
      decodeFrom_more (toNat_tail (by omega)) (by split <;> simp; omega)
        (by split <;> (simp; omega)),
      decodeFrom_last (toNat_tail (by omega)) (by simp) (by simp; omega)]
    congr 1
    omega
  · simp only [pow_zero, pow_one, Nat.div_one, List.cons_append, List.nil_append]
    rw [decodeFrom_four (by omega),
      decodeFrom_more (toNat_tail (by omega)) (by split <;> simp; omega)
        (by split <;> (simp; omega)),
      decodeFrom_more (toNat_tail (by omega)) (by simp) (by simp; omega),
      decodeFrom_last (toNat_tail (by omega)) (by simp) (by simp; omega)]
    congr 1
    omega

/-! ### Code units -/

theorem isHighSurrogate_iff {u : UInt16} :
    isHighSurrogate u = true ↔ 0xD800 ≤ u.toNat ∧ u.toNat ≤ 0xDBFF := by
  simp [isHighSurrogate, UInt16.le_iff_toNat_le]

theorem isLowSurrogate_iff {u : UInt16} :
    isLowSurrogate u = true ↔ 0xDC00 ≤ u.toNat ∧ u.toNat ≤ 0xDFFF := by
  simp [isLowSurrogate, UInt16.le_iff_toNat_le]

/-- The code unit, or the replacement character for half of a pair. -/
def toWellFormedUnit (u : UInt16) : UInt16 :=
  if isHighSurrogate u || isLowSurrogate u then 0xFFFD else u

/-- The code units with each lone surrogate replaced. -/
def toWellFormed : List UInt16 → List UInt16
  | [] => []
  | [u] => [toWellFormedUnit u]
  | u :: v :: rest =>
    if isHighSurrogate u && isLowSurrogate v then u :: v :: toWellFormed rest
    else toWellFormedUnit u :: toWellFormed (v :: rest)

/-- No surrogate stands alone. -/
def isWellFormed : List UInt16 → Bool
  | [] => true
  | [u] => !(isHighSurrogate u || isLowSurrogate u)
  | u :: v :: rest =>
    if isHighSurrogate u && isLowSurrogate v then isWellFormed rest
    else !(isHighSurrogate u || isLowSurrogate u) && isWellFormed (v :: rest)

theorem toWellFormedUnit_eq_self_iff {u : UInt16} :
    toWellFormedUnit u = u ↔ (isHighSurrogate u || isLowSurrogate u) = false := by
  unfold toWellFormedUnit
  split
  · rename_i h
    -- the replacement character is no surrogate
    refine ⟨fun heq => ?_, fun hnot => absurd h (by simp [hnot])⟩
    rw [← heq] at h
    exact absurd h (by decide)
  · rename_i h
    simpa using h

/-- What is well formed is left as it is, and nothing else is. -/
theorem toWellFormed_eq_self_iff (s : List UInt16) :
    toWellFormed s = s ↔ isWellFormed s = true := by
  induction s using toWellFormed.induct with
  | case1 => simp [toWellFormed, isWellFormed]
  | case2 u => simp [toWellFormed, isWellFormed, toWellFormedUnit_eq_self_iff]
  | case3 u v rest h ih => simp [toWellFormed, isWellFormed, h, ih]
  | case4 u v rest h ih =>
    rw [toWellFormed, if_neg h, isWellFormed, if_neg h, List.cons.injEq, ih,
      toWellFormedUnit_eq_self_iff]
    simp

theorem isScalar_ofUnit (u : UInt16) : IsScalar (ofUnit u) := by
  unfold ofUnit IsScalar
  split
  · right
    decide
  · rename_i h
    rw [Bool.or_eq_true, isHighSurrogate_iff, isLowSurrogate_iff] at h
    have hlt := u.toNat_lt
    omega

theorem isScalar_ofSurrogates {u v : UInt16} (hu : isHighSurrogate u = true)
    (hv : isLowSurrogate v = true) : IsScalar (ofSurrogates u v) := by
  rw [isHighSurrogate_iff] at hu
  rw [isLowSurrogate_iff] at hv
  unfold IsScalar ofSurrogates
  omega

theorem utf16Units_ofUnit (u : UInt16) : utf16Units (ofUnit u) = [toWellFormedUnit u] := by
  unfold ofUnit toWellFormedUnit
  split
  · rfl
  · have hlt := u.toNat_lt
    rw [utf16Units, if_pos (by omega), UInt16.ofNat_toNat]

theorem utf16Units_ofSurrogates {u v : UInt16} (hu : isHighSurrogate u = true)
    (hv : isLowSurrogate v = true) : utf16Units (ofSurrogates u v) = [u, v] := by
  rw [isHighSurrogate_iff] at hu
  rw [isLowSurrogate_iff] at hv
  have hhigh : 0xD800 + (ofSurrogates u v - 0x10000) / 0x400 = u.toNat := by
    unfold ofSurrogates
    omega
  have hlow : 0xDC00 + (ofSurrogates u v - 0x10000) % 0x400 = v.toNat := by
    unfold ofSurrogates
    omega
  have hge : ¬ofSurrogates u v < 0x10000 := by
    unfold ofSurrogates
    omega
  simp only [utf16Units, hge, if_false, hhigh, hlow, UInt16.ofNat_toNat]

theorem isScalar_of_mem_codePoints (s : List UInt16) : ∀ c ∈ codePoints s, IsScalar c := by
  induction s using codePoints.induct with
  | case1 => simp [codePoints]
  | case2 u => simp [codePoints, isScalar_ofUnit]
  | case3 u v rest h ih =>
    rw [codePoints, if_pos h]
    rw [Bool.and_eq_true] at h
    intro c hc
    rcases List.mem_cons.mp hc with heq | hc
    · rw [heq]
      exact isScalar_ofSurrogates h.1 h.2
    · exact ih c hc
  | case4 u v rest h ih =>
    rw [codePoints, if_neg h]
    intro c hc
    rcases List.mem_cons.mp hc with heq | hc
    · rw [heq]
      exact isScalar_ofUnit u
    · exact ih c hc

/-! ### There and back -/

theorem decodeFrom_flatMap {points : List ℕ} (h : ∀ c ∈ points, IsScalar c) :
    decodeFrom none (points.flatMap utf8Bytes) = points := by
  induction points with
  | nil => rfl
  | cons c points ih =>
    rw [List.flatMap_cons, decodeFrom_utf8Bytes (h c List.mem_cons_self),
      ih fun c' hc' => h c' (List.mem_cons_of_mem c hc')]

/-- The code points that were encoded are decoded. -/
theorem decodeFrom_utf8OfUtf16 (s : List UInt16) :
    decodeFrom none (utf8OfUtf16 s) = codePoints s :=
  decodeFrom_flatMap (isScalar_of_mem_codePoints s)

theorem flatMap_utf16Units_codePoints (s : List UInt16) :
    (codePoints s).flatMap utf16Units = toWellFormed s := by
  induction s using codePoints.induct with
  | case1 => rfl
  | case2 u => simp [codePoints, toWellFormed, utf16Units_ofUnit]
  | case3 u v rest h ih =>
    rw [codePoints, if_pos h, toWellFormed, if_pos h, List.flatMap_cons, ih]
    rw [Bool.and_eq_true] at h
    rw [utf16Units_ofSurrogates h.1 h.2]
    rfl
  | case4 u v rest h ih =>
    rw [codePoints, if_neg h, toWellFormed, if_neg h, List.flatMap_cons, ih, utf16Units_ofUnit]
    rfl

/-- **Through UTF-8 and back**, lone surrogates are replaced and nothing else changes. -/
theorem utf16OfUtf8_utf8OfUtf16 (s : List UInt16) :
    utf16OfUtf8 (utf8OfUtf16 s) = toWellFormed s := by
  rw [utf16OfUtf8, decodeFrom_utf8OfUtf16, flatMap_utf16Units_codePoints]

theorem length_toWellFormed (s : List UInt16) : (toWellFormed s).length = s.length := by
  induction s using toWellFormed.induct with
  | case1 => rfl
  | case2 u => rfl
  | case3 u v rest h ih => simp [toWellFormed, h, ih]
  | case4 u v rest h ih =>
    rw [toWellFormed, if_neg h]
    simp [ih]

/-! ### NUL -/

theorem zero_not_mem_utf8Bytes {c : ℕ} (hc : IsScalar c) (h0 : c ≠ 0) : 0 ∉ utf8Bytes c := by
  unfold IsScalar at hc
  have hbyte {n : ℕ} (h : 0 < n) (hn : n < 256) : (0 : UInt8) ≠ UInt8.ofNat n := by
    intro heq
    have hnat := congrArg UInt8.toNat heq
    rw [UInt8.toNat_ofNat'] at hnat
    simp at hnat
    omega
  unfold utf8Bytes
  split_ifs <;> simp only [List.mem_cons, List.not_mem_nil, or_false, not_or]
  · exact hbyte (by omega) (by omega)
  · exact ⟨hbyte (by omega) (by omega), hbyte (by omega) (by omega)⟩
  · exact ⟨hbyte (by omega) (by omega), hbyte (by omega) (by omega), hbyte (by omega) (by omega)⟩
  · exact ⟨hbyte (by omega) (by omega), hbyte (by omega) (by omega), hbyte (by omega) (by omega),
      hbyte (by omega) (by omega)⟩

theorem ofUnit_eq_zero_iff {u : UInt16} : ofUnit u = 0 ↔ u = 0 := by
  unfold ofUnit
  split
  · rename_i h
    refine ⟨fun heq => absurd heq (by decide), ?_⟩
    rintro rfl
    exact absurd h (by decide)
  · rw [← UInt16.toNat_inj]
    rfl

/-- Cutting at a NUL and reading code points commute. -/
theorem cString_codePoints (s : List UInt16) : cString (codePoints s) = codePoints (cString s) := by
  induction s using codePoints.induct with
  | case1 => rfl
  | case2 u =>
    by_cases hu : u = 0
    · subst hu
      rfl
    · rw [codePoints, cString_cons_of_ne (mt ofUnit_eq_zero_iff.mp hu), cString_cons_of_ne hu]
      rfl
  | case3 u v rest h ih =>
    have hpair := h
    rw [Bool.and_eq_true] at hpair
    have hu : u ≠ 0 := by
      rintro rfl
      exact absurd hpair.1 (by decide)
    have hv : v ≠ 0 := by
      rintro rfl
      exact absurd hpair.2 (by decide)
    have hpoint : ofSurrogates u v ≠ 0 := by
      unfold ofSurrogates
      omega
    rw [codePoints, if_pos h, cString_cons_of_ne hpoint, cString_cons_of_ne hu,
      cString_cons_of_ne hv, codePoints, if_pos h, ih]
  | case4 u v rest h ih =>
    rw [codePoints, if_neg h]
    by_cases hu : u = 0
    · subst hu
      rfl
    · rw [cString_cons_of_ne (mt ofUnit_eq_zero_iff.mp hu), cString_cons_of_ne hu, ih]
      by_cases hv : v = 0
      · subst hv
        rfl
      · rw [cString_cons_of_ne hv, codePoints, if_neg h]

theorem cString_flatMap {points : List ℕ} (h : ∀ c ∈ points, IsScalar c) :
    cString (points.flatMap utf8Bytes) = (cString points).flatMap utf8Bytes := by
  induction points with
  | nil => rfl
  | cons c points ih =>
    by_cases hc : c = 0
    · subst hc
      rfl
    · have hbytes := zero_not_mem_utf8Bytes (h c List.mem_cons_self) hc
      rw [List.flatMap_cons, cString_append hbytes, cString_cons_of_ne hc, List.flatMap_cons,
        ih fun c' hc' => h c' (List.mem_cons_of_mem c hc')]

/-- **Cutting at a NUL and encoding commute.** -/
theorem cString_utf8OfUtf16 (s : List UInt16) :
    cString (utf8OfUtf16 s) = utf8OfUtf16 (cString s) := by
  rw [utf8OfUtf16, cString_flatMap (isScalar_of_mem_codePoints s), cString_codePoints]
  rfl

/-- What comes back through a NUL-terminated buffer of UTF-8. -/
theorem utf16OfUtf8_cString_utf8OfUtf16 (s : List UInt16) :
    utf16OfUtf8 (cString (utf8OfUtf16 s)) = toWellFormed (cString s) := by
  rw [cString_utf8OfUtf16, utf16OfUtf8_utf8OfUtf16]

/-- It is what went in if and only if there is no NUL and no lone surrogate in it. -/
theorem toWellFormed_cString_eq_self_iff {s : List UInt16} :
    toWellFormed (cString s) = s ↔ 0 ∉ s ∧ isWellFormed s = true := by
  constructor
  · intro h
    have hprefix : cString s <+: s := List.takeWhile_prefix _
    have hlength : (cString s).length = s.length := by
      rw [← length_toWellFormed, h]
    have hcut : cString s = s := hprefix.eq_of_length hlength
    rw [hcut] at h
    exact ⟨cString_eq_self_iff.mp hcut, (toWellFormed_eq_self_iff s).mp h⟩
  · rintro ⟨hzero, hformed⟩
    rw [cString_eq_self hzero]
    exact (toWellFormed_eq_self_iff s).mpr hformed

end Unicode
