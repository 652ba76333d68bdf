import Mathlib.Data.Set.Basic

/-!
# Prefix codes

Words of which none begins another can be written one after the other and told
apart again: `PrefixFree.flatten_injective`.
-/

universe u

variable {α : Type u}

/-- No word is empty, and none is a proper prefix of another. -/
structure PrefixFree (code : Set (List α)) : Prop where
  nonempty : ∀ w ∈ code, w ≠ []
  eq_of_prefix : ∀ w ∈ code, ∀ w' ∈ code, w <+: w' → w = w'

namespace PrefixFree

variable {code : Set (List α)}

/-- Two words at the beginning of one sequence are the same word. -/
theorem eq_of_append (h : PrefixFree code) {w w' rest rest' : List α} (hw : w ∈ code)
    (hw' : w' ∈ code) (heq : w ++ rest = w' ++ rest') : w = w' := by
  have hprefix : w <+: w ++ rest := List.prefix_append w rest
  have hprefix' : w' <+: w ++ rest := by
    rw [heq]
    exact List.prefix_append w' rest'
  rcases List.prefix_or_prefix_of_prefix hprefix hprefix' with hle | hle
  · exact h.eq_of_prefix w hw w' hw' hle
  · exact (h.eq_of_prefix w' hw' w hw hle).symm

/-- **Unique decoding**: the words are determined by their concatenation. -/
theorem flatten_injective (h : PrefixFree code) {words words' : List (List α)}
    (hwords : ∀ w ∈ words, w ∈ code) (hwords' : ∀ w ∈ words', w ∈ code)
    (heq : words.flatten = words'.flatten) : words = words' := by
  induction words generalizing words' with
  | nil =>
    cases words' with
    | nil => rfl
    | cons w' ws' =>
      obtain ⟨hnil, -⟩ := List.append_eq_nil_iff.mp heq.symm
      exact absurd hnil (h.nonempty w' (hwords' w' List.mem_cons_self))
  | cons w ws ih =>
    cases words' with
    | nil =>
      obtain ⟨hnil, -⟩ := List.append_eq_nil_iff.mp heq
      exact absurd hnil (h.nonempty w (hwords w List.mem_cons_self))
    | cons w' ws' =>
      have hfirst : w = w' :=
        h.eq_of_append (hwords w List.mem_cons_self) (hwords' w' List.mem_cons_self) heq
      subst hfirst
      have hrest := ih (fun v hv => hwords v (List.mem_cons_of_mem w hv))
        (fun v hv => hwords' v (List.mem_cons_of_mem w hv)) (List.append_cancel_left heq)
      rw [hrest]

end PrefixFree
