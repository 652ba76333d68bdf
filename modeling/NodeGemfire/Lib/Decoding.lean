import NodeGemfire.Lib.Transcoding

/-!
# What decoding yields

Whatever the bytes are, decoded they are well-formed UTF-16: every code point is a
scalar value, as no character is completed that is too long, too large or a
surrogate. A NUL is read only from a NUL byte. So one decoding is all it takes:
encoding the result and decoding it again changes nothing.

## Main definitions

- `Unicode.Partial.Sound` — the open character can only complete to a scalar value
-/

namespace Unicode

/-- A scalar value other than NUL. -/
def IsVisible (c : ℕ) : Prop := IsScalar c ∧ c ≠ 0

/-- However the open character goes on, what it completes to is a scalar value. -/
def Partial.Sound (s : Partial) : Prop :=
  1 ≤ s.owed ∧ 0x80 ≤ s.lower.toNat ∧ ∀ b k, s.lower.toNat ≤ b → b ≤ s.upper.toNat →
    k < 64 ^ (s.owed - 1) → IsVisible ((s.bits * 64 + (b - 0x80)) * 64 ^ (s.owed - 1) + k)

/-! ### One byte -/

theorem isVisible_replacement : IsVisible replacement := by
  refine ⟨.inr ?_, ?_⟩ <;> decide

/-- A first byte leaves a sound character open. -/
theorem sound_firstByte {b : UInt8} {s : Partial} (h : (firstByte b).2 = some s) : s.Sound := by
  unfold firstByte at h
  simp only [UInt8.le_iff_toNat_le, UInt8.lt_iff_toNat_lt, ← UInt8.toNat_inj] at h
  split_ifs at h <;> simp only [Option.some.injEq] at h <;> subst h <;>
    refine ⟨by simp, by simp, fun b' k hlower hupper hk => ?_⟩ <;>
    simp [IsVisible, IsScalar] at * <;> omega

theorem isVisible_of_mem_firstByte {b : UInt8} {c : ℕ} (hb : b ≠ 0) (hc : c ∈ (firstByte b).1) :
    IsVisible c := by
  have hpos : b.toNat ≠ 0 := fun heq => hb (UInt8.toNat_inj.mp heq)
  unfold firstByte at hc
  split_ifs at hc with hsmall <;> simp only [List.mem_singleton, List.not_mem_nil] at hc <;>
    subst hc
  · refine ⟨.inl ?_, hpos⟩
    have hlt : b.toNat < 128 := UInt8.lt_iff_toNat_lt.mp hsmall
    omega
  · exact isVisible_replacement

theorem nextByte_some (s : Partial) (b : UInt8) :
    nextByte (some s) b =
      if s.lower ≤ b && b ≤ s.upper then
        if s.owed = 1 then ([s.bits * 64 + (b.toNat - 0x80)], none)
        else ([], some ⟨s.owed - 1, 0x80, 0xBF, s.bits * 64 + (b.toNat - 0x80)⟩)
      else (replacement :: (firstByte b).1, (firstByte b).2) := rfl

/-- A byte that continues a sound character, but does not end it, leaves it sound. -/
theorem Partial.Sound.more {s : Partial} (h : s.Sound) (hmore : s.owed ≠ 1) {b : UInt8}
    (hlower : s.lower ≤ b) (hupper : b ≤ s.upper) :
    Partial.Sound ⟨s.owed - 1, 0x80, 0xBF, s.bits * 64 + (b.toNat - 0x80)⟩ := by
  obtain ⟨howed, -, hsound⟩ := h
  obtain ⟨m, hm⟩ : ∃ m, s.owed = m + 2 := ⟨s.owed - 2, by omega⟩
  refine ⟨by simp only; omega, by simp, fun b' k hlower' hupper' hk => ?_⟩
  simp only [hm, show m + 2 - 1 - 1 = m from rfl] at hk ⊢
  -- the bits of `b'` and of what follows it are what was open after `b`
  have hupper'' : b' ≤ 0xBF := hupper'
  have hlt : (b' - 0x80) * 64 ^ m + k < 64 ^ (m + 1) := by
    have hle : (b' - 0x80 + 1) * 64 ^ m ≤ 64 * 64 ^ m := Nat.mul_le_mul_right _ (by omega)
    rw [Nat.add_mul] at hle
    rw [Nat.pow_succ]
    omega
  have hvisible := hsound b.toNat ((b' - 0x80) * 64 ^ m + k) (UInt8.le_iff_toNat_le.mp hlower)
    (UInt8.le_iff_toNat_le.mp hupper) (by rw [hm]; exact hlt)
  rw [hm, show m + 2 - 1 = m + 1 from rfl, Nat.pow_succ, Nat.mul_comm (64 ^ m) 64,
    ← Nat.mul_assoc, ← Nat.add_assoc, ← Nat.add_mul] at hvisible
  exact hvisible

theorem sound_nextByte {state : Option Partial} {b : UInt8} (hstate : ∀ s ∈ state, s.Sound) :
    ∀ s ∈ (nextByte state b).2, s.Sound := by
  intro s' hs'
  cases state with
  | none => exact sound_firstByte hs'
  | some s =>
    rw [nextByte_some] at hs'
    split_ifs at hs' with hin hlast
    · cases hs'
    · cases hs'
      simp only [Bool.and_eq_true, decide_eq_true_eq] at hin
      exact (hstate s rfl).more hlast hin.1 hin.2
    · exact sound_firstByte hs'

theorem isVisible_of_mem_nextByte {state : Option Partial} {b : UInt8} {c : ℕ}
    (hstate : ∀ s ∈ state, s.Sound) (hb : b ≠ 0) (hc : c ∈ (nextByte state b).1) :
    IsVisible c := by
  cases state with
  | none => exact isVisible_of_mem_firstByte hb hc
  | some s =>
    rw [nextByte_some] at hc
    split_ifs at hc with hin hlast
    · simp only [Bool.and_eq_true, decide_eq_true_eq, UInt8.le_iff_toNat_le] at hin
      have hvisible := (hstate s rfl).2.2 b.toNat 0 hin.1 hin.2 (by simp [hlast])
      rw [hlast] at hvisible
      rw [List.mem_singleton.mp hc]
      simpa using hvisible
    · cases hc
    · rcases List.mem_cons.mp hc with rfl | hc
      · exact isVisible_replacement
      · exact isVisible_of_mem_firstByte hb hc

/-! ### Whole texts -/

/-- Bytes without a NUL decode to scalar values other than NUL. -/
theorem isVisible_of_mem_decodeFrom {bytes : List UInt8} {state : Option Partial}
    (hstate : ∀ s ∈ state, s.Sound) (hbytes : 0 ∉ bytes) :
    ∀ c ∈ decodeFrom state bytes, IsVisible c := by
  induction bytes generalizing state with
  | nil =>
    intro c hc
    unfold decodeFrom at hc
    split at hc
    · obtain rfl := List.mem_singleton.mp hc
      exact isVisible_replacement
    · cases hc
  | cons b bytes ih =>
    have hb : b ≠ 0 := fun heq => hbytes (heq ▸ List.mem_cons_self)
    have hrest : 0 ∉ bytes := fun hmem => hbytes (List.mem_cons_of_mem _ hmem)
    intro c hc
    rcases List.mem_append.mp hc with hc | hc
    · exact isVisible_of_mem_nextByte hstate hb hc
    · exact ih (sound_nextByte hstate) hrest c hc

theorem not_surrogate_ofNat {c : ℕ} (hc : c < 0xD800 ∨ 0xE000 ≤ c ∧ c < 0x110000)
    (hsmall : c < 0x10000) : (UInt16.ofNat c).toNat = c ∧
      isHighSurrogate (UInt16.ofNat c) = false ∧ isLowSurrogate (UInt16.ofNat c) = false := by
  have hnat : (UInt16.ofNat c).toNat = c := by
    rw [UInt16.toNat_ofNat']
    omega
  refine ⟨hnat, ?_, ?_⟩
  · rw [Bool.eq_false_iff, ne_eq, isHighSurrogate_iff, hnat]
    omega
  · rw [Bool.eq_false_iff, ne_eq, isLowSurrogate_iff, hnat]
    omega

theorem surrogates_ofNat {c : ℕ} (hc : c < 0xD800 ∨ 0xE000 ≤ c ∧ c < 0x110000)
    (hlarge : ¬c < 0x10000) :
    isHighSurrogate (UInt16.ofNat (0xD800 + (c - 0x10000) / 0x400)) = true ∧
      isLowSurrogate (UInt16.ofNat (0xDC00 + (c - 0x10000) % 0x400)) = true := by
  constructor
  · rw [isHighSurrogate_iff, UInt16.toNat_ofNat']
    omega
  · rw [isLowSurrogate_iff, UInt16.toNat_ofNat']
    omega

/-- The code units of a scalar value begin no pair that reaches past them. -/
theorem isWellFormed_utf16Units_append {c : ℕ} (hc : IsScalar c) (rest : List UInt16) :
    isWellFormed (utf16Units c ++ rest) = isWellFormed rest := by
  unfold IsScalar at hc
  unfold utf16Units
  split
  · rename_i hsmall
    obtain ⟨-, hhigh, hlow⟩ := not_surrogate_ofNat hc hsmall
    cases rest <;> simp [isWellFormed, hhigh, hlow]
  · rename_i hlarge
    obtain ⟨hhigh, hlow⟩ := surrogates_ofNat hc hlarge
    rw [List.cons_append, List.cons_append, List.nil_append, isWellFormed, hhigh, hlow]
    rfl

theorem zero_not_mem_utf16Units {c : ℕ} (hc : IsVisible c) : 0 ∉ utf16Units c := by
  obtain ⟨hscalar, hne⟩ := hc
  unfold IsScalar at hscalar
  have hunit {n : ℕ} (h : 0 < n) (hn : n < 65536) : (0 : UInt16) ≠ UInt16.ofNat n := by
    intro heq
    have hnat := congrArg UInt16.toNat heq
    rw [UInt16.toNat_ofNat', Nat.mod_eq_of_lt hn] at hnat
    exact h.ne hnat
  unfold utf16Units
  split
  · simpa using hunit (by omega) (by omega)
  · simp only [List.mem_cons, List.not_mem_nil, or_false, not_or]
    exact ⟨hunit (by omega) (by omega), hunit (by omega) (by omega)⟩

theorem isWellFormed_flatMap_utf16Units {points : List ℕ} (h : ∀ c ∈ points, IsVisible c) :
    0 ∉ points.flatMap utf16Units ∧ isWellFormed (points.flatMap utf16Units) = true := by
  induction points with
  | nil => exact ⟨List.not_mem_nil, rfl⟩
  | cons c points ih =>
    have hc := h c List.mem_cons_self
    obtain ⟨hzero, hwell⟩ := ih fun c' hc' => h c' (List.mem_cons_of_mem _ hc')
    rw [List.flatMap_cons, isWellFormed_utf16Units_append hc.1, List.mem_append, not_or]
    exact ⟨⟨zero_not_mem_utf16Units hc, hzero⟩, hwell⟩

/-- What is decoded from bytes without a NUL has no NUL and no lone surrogate. -/
theorem utf16OfUtf8_wellFormed {bytes : List UInt8} (h : 0 ∉ bytes) :
    0 ∉ utf16OfUtf8 bytes ∧ isWellFormed (utf16OfUtf8 bytes) = true :=
  isWellFormed_flatMap_utf16Units (isVisible_of_mem_decodeFrom (by simp) h)

/-! ### Encoding what was decoded -/

theorem codePoints_cons {u : UInt16} (h : isHighSurrogate u = false) (rest : List UInt16) :
    codePoints (u :: rest) = ofUnit u :: codePoints rest := by
  cases rest <;> simp [codePoints, h]

/-- The code units of a scalar value are read as this value. -/
theorem codePoints_utf16Units_append {c : ℕ} (hc : IsScalar c) (rest : List UInt16) :
    codePoints (utf16Units c ++ rest) = c :: codePoints rest := by
  unfold IsScalar at hc
  unfold utf16Units
  split
  · rename_i hsmall
    obtain ⟨hnat, hhigh, hlow⟩ := not_surrogate_ofNat hc hsmall
    rw [List.singleton_append, codePoints_cons hhigh, ofUnit, hhigh, hlow]
    simp [hnat]
  · rename_i hlarge
    obtain ⟨hhigh, hlow⟩ := surrogates_ofNat hc hlarge
    have hpoint : ofSurrogates (UInt16.ofNat (0xD800 + (c - 0x10000) / 0x400))
        (UInt16.ofNat (0xDC00 + (c - 0x10000) % 0x400)) = c := by
      unfold ofSurrogates
      simp only [UInt16.toNat_ofNat']
      omega
    rw [List.cons_append, List.cons_append, List.nil_append, codePoints, hhigh, hlow, hpoint]
    rfl

theorem codePoints_flatMap {points : List ℕ} (h : ∀ c ∈ points, IsScalar c) :
    codePoints (points.flatMap utf16Units) = points := by
  induction points with
  | nil => rfl
  | cons c points ih =>
    rw [List.flatMap_cons, codePoints_utf16Units_append (h c List.mem_cons_self),
      ih fun c' hc' => h c' (List.mem_cons_of_mem _ hc')]

/-- Lone surrogates encode as what replaces them. -/
theorem utf8OfUtf16_toWellFormed (s : List UInt16) :
    utf8OfUtf16 (toWellFormed s) = utf8OfUtf16 s := by
  rw [utf8OfUtf16, ← flatMap_utf16Units_codePoints,
    codePoints_flatMap (isScalar_of_mem_codePoints s)]
  rfl

end Unicode
