import Mathlib.Data.List.Sort

/-!
# Lists of items with a key

A list whose items carry distinct keys, sorted by key, is determined by its
items alone: `sortOn_eq_of_perm`. A permutation of the keys is the list of keys
of a permutation of the items: `exists_perm_of_map_perm`.
-/

universe u v

variable {α : Type u} {κ : Type v}

theorem exists_perm_of_map_perm (key : α → κ) {keys : List κ} {l : List α}
    (h : keys.Perm (l.map key)) : ∃ l' : List α, l'.Perm l ∧ keys = l'.map key := by
  induction keys generalizing l with
  | nil => exact ⟨[], by simpa using h.symm, rfl⟩
  | cons k keys ih =>
    obtain ⟨a, ha, rfl⟩ := List.mem_map.mp (h.mem_iff.mp List.mem_cons_self)
    obtain ⟨before, after, rfl⟩ := List.append_of_mem ha
    have hmiddle : (before ++ a :: after).Perm (a :: (before ++ after)) := List.perm_middle
    obtain ⟨l', hl', rfl⟩ := ih (h.trans (hmiddle.map key)).cons_inv
    exact ⟨a :: l', (hl'.cons a).trans hmiddle.symm, rfl⟩

/-- A key leads to the one item that carries it. -/
theorem find?_of_nodup_keys [DecidableEq κ] {key : α → κ} {l : List α}
    (hkeys : (l.map key).Nodup) {a : α} (ha : a ∈ l) :
    l.find? (fun b => key b = key a) = some a := by
  obtain ⟨b, hb⟩ : ∃ b, l.find? (fun b => key b = key a) = some b := by
    rw [← Option.isSome_iff_exists, List.find?_isSome]
    exact ⟨a, ha, by simp⟩
  have heq : b = a := List.inj_on_of_nodup_map hkeys (List.mem_of_find?_eq_some hb) ha
    (by simpa using List.find?_some hb)
  rw [hb, heq]

variable [LE κ] [DecidableLE κ]

/-- The items in increasing order of their keys. -/
def sortOn (key : α → κ) (l : List α) : List α := l.insertionSort fun a b => key a ≤ key b

theorem sortOn_perm (key : α → κ) (l : List α) : (sortOn key l).Perm l :=
  List.perm_insertionSort _ l

variable [Std.IsLinearOrder κ]

theorem sortOn_pairwise (key : α → κ) (l : List α) :
    (sortOn key l).Pairwise fun a b => key a ≤ key b := by
  have : Std.Total fun a b => key a ≤ key b := ⟨fun a b => Std.IsLinearPreorder.le_total _ _⟩
  have : IsTrans α fun a b => key a ≤ key b := ⟨fun a b c => Std.IsPreorder.le_trans _ _ _⟩
  exact List.pairwise_insertionSort _ l

/-- Permuted lists with distinct keys sort to the same list. -/
theorem sortOn_eq_of_perm {key : α → κ} {l l' : List α} (hkeys : (l.map key).Nodup)
    (h : l.Perm l') : sortOn key l = sortOn key l' := by
  have hinj : ∀ a ∈ l, ∀ b ∈ l, key a = key b → a = b :=
    fun a ha b hb hab => List.inj_on_of_nodup_map hkeys ha hb hab
  refine List.Perm.eq_of_pairwise ?_ (sortOn_pairwise key l) (sortOn_pairwise key l')
    ((sortOn_perm key l).trans (h.trans (sortOn_perm key l').symm))
  intro a b ha hb hab hba
  exact hinj a ((sortOn_perm key l).mem_iff.mp ha) b
    (h.mem_iff.mpr ((sortOn_perm key l').mem_iff.mp hb))
    (Std.IsPartialOrder.le_antisymm _ _ hab hba)
