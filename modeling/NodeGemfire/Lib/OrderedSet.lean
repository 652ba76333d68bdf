import Mathlib.Data.List.Pairwise
import Mathlib.Data.List.Sort
import Mathlib.Order.Lattice

/-!
# Ordered sets with iterators

A set whose elements are kept in the order of a key, as `std::set` keeps them,
and iteration over it. An iterator that has been advanced past some elements is
the key of the last of them; what it still has to visit are the elements with
a greater key, whatever was inserted or erased in the meantime.

## Main definitions

- `OrderedSet` — a list of elements whose keys increase
- `OrderedSet.insert`, `OrderedSet.erase`, `OrderedSet.ofList`
- `OrderedSet.after`, `OrderedSet.next?` — what an iterator still visits, and the first of it
-/

universe u v

/-- Elements in the order of their keys, no two with the same key. -/
structure OrderedSet {α : Type u} {κ : Type v} [LinearOrder κ] (key : α → κ) where
  toList : List α
  sorted : toList.Pairwise fun a b => key a < key b

namespace OrderedSet

variable {α : Type u} {κ : Type v} [LinearOrder κ] {key : α → κ}

def empty (key : α → κ) : OrderedSet key := ⟨[], .nil⟩

/-- An element with a key that is there already is not inserted. -/
def insertList (key : α → κ) (a : α) : List α → List α
  | [] => [a]
  | b :: bs =>
    if key a < key b then a :: b :: bs
    else if key b < key a then b :: insertList key a bs
    else b :: bs

theorem mem_of_mem_insertList {a b : α} {bs : List α} (h : b ∈ insertList key a bs) :
    b = a ∨ b ∈ bs := by
  induction bs with
  | nil => simpa [insertList] using h
  | cons c cs ih =>
    rw [insertList] at h
    split at h
    · simpa using h
    · split at h
      · rcases List.mem_cons.mp h with rfl | h
        · exact .inr List.mem_cons_self
        · exact (ih h).imp_right (List.mem_cons_of_mem c)
      · exact .inr h

theorem sorted_insertList (a : α) {bs : List α} (h : bs.Pairwise fun a b => key a < key b) :
    (insertList key a bs).Pairwise fun a b => key a < key b := by
  induction bs with
  | nil => exact List.pairwise_singleton _ a
  | cons b bs ih =>
    obtain ⟨hb, hbs⟩ := List.pairwise_cons.mp h
    rw [insertList]
    split
    · rename_i hab
      refine List.pairwise_cons.mpr ⟨fun c hc => ?_, h⟩
      rcases List.mem_cons.mp hc with rfl | hc
      · exact hab
      · exact hab.trans (hb c hc)
    · split
      · rename_i hba
        refine List.pairwise_cons.mpr ⟨fun c hc => ?_, ih hbs⟩
        rcases mem_of_mem_insertList hc with rfl | hc
        · exact hba
        · exact hb c hc
      · exact h

def insert (s : OrderedSet key) (a : α) : OrderedSet key :=
  ⟨insertList key a s.toList, sorted_insertList a s.sorted⟩

def erase (s : OrderedSet key) (k : κ) : OrderedSet key :=
  ⟨s.toList.filter (key · ≠ k), s.sorted.filter _⟩

theorem nodup (s : OrderedSet key) : s.toList.Nodup := by
  refine s.sorted.imp ?_
  rintro a b hab rfl
  exact lt_irrefl _ hab

theorem mem_erase_iff {s : OrderedSet key} {k : κ} {a : α} :
    a ∈ (s.erase k).toList ↔ a ∈ s.toList ∧ key a ≠ k := by
  simp [erase]

theorem length_erase_lt {s : OrderedSet key} {a : α} (h : a ∈ s.toList) :
    (s.erase (key a)).toList.length < s.toList.length := by
  refine List.length_filter_lt_length_iff_exists.mpr ⟨a, h, ?_⟩
  simp

/-- Two elements with one key are the same. -/
theorem eq_of_key_eq {s : OrderedSet key} {a b : α} (ha : a ∈ s.toList) (hb : b ∈ s.toList)
    (h : key a = key b) : a = b := by
  have hnodup : (s.toList.map key).Nodup := List.pairwise_map.mpr (s.sorted.imp fun hlt => hlt.ne)
  exact List.inj_on_of_nodup_map hnodup ha hb h

/-- An element is found by its key. -/
theorem find?_of_mem {s : OrderedSet key} {a : α} (h : a ∈ s.toList) :
    s.toList.find? (key · = key a) = some a := by
  have hsome : (s.toList.find? (key · = key a)).isSome = true :=
    List.find?_isSome.mpr ⟨a, h, by simp⟩
  obtain ⟨b, hb⟩ := Option.isSome_iff_exists.mp hsome
  have hkey : key b = key a := by simpa using List.find?_some hb
  rw [hb, eq_of_key_eq (List.mem_of_find?_eq_some hb) h hkey]

/-! ### Insertion and filtering -/

theorem sublist_insertList (a : α) (bs : List α) : bs.Sublist (insertList key a bs) := by
  induction bs with
  | nil => exact List.nil_sublist _
  | cons b bs ih =>
    rw [insertList]
    split
    · exact List.sublist_cons_self a _
    · split
      · exact ih.cons_cons b
      · exact List.Sublist.refl _

theorem perm_insertList {a : α} {bs : List α} (h : ∀ b ∈ bs, key b ≠ key a) :
    (insertList key a bs).Perm (a :: bs) := by
  induction bs with
  | nil => exact List.Perm.refl _
  | cons b bs ih =>
    obtain ⟨hb, hbs⟩ := List.forall_mem_cons.mp h
    rw [insertList]
    split
    · exact List.Perm.refl _
    · rename_i hab
      rw [if_pos (lt_of_le_of_ne (not_lt.mp hab) hb)]
      exact ((ih hbs).cons b).trans (List.Perm.swap a b bs)

/-- A filter that drops the element does not see its insertion. -/
theorem filter_insertList_of_not {q : α → Bool} {a : α} (hq : q a = false) (bs : List α) :
    (insertList key a bs).filter q = bs.filter q := by
  induction bs with
  | nil => simp [insertList, hq]
  | cons b bs ih =>
    rw [insertList]
    split
    · rw [List.filter_cons_of_neg (by simp [hq])]
    · split
      · rw [List.filter_cons, List.filter_cons, ih]
      · rfl

/-! ### Membership -/

theorem mem_insertList_iff (hkey : Function.Injective key) {a b : α} {bs : List α} :
    b ∈ insertList key a bs ↔ b = a ∨ b ∈ bs := by
  refine ⟨mem_of_mem_insertList, fun h => ?_⟩
  induction bs with
  | nil => simpa [insertList] using h
  | cons c cs ih =>
    rw [insertList]
    split
    · simpa using h
    · rename_i hac
      split
      · rcases h with h | h
        · exact List.mem_cons_of_mem c (ih (.inl h))
        · rcases List.mem_cons.mp h with rfl | h
          · exact List.mem_cons_self
          · exact List.mem_cons_of_mem c (ih (.inr h))
      · rename_i hca
        -- neither key is less than the other, so that the element is there already
        have heq : a = c := hkey (le_antisymm (not_lt.mp hca) (not_lt.mp hac))
        rcases h with rfl | h
        · rw [heq]
          exact List.mem_cons_self
        · exact h

theorem mem_insert_iff (hkey : Function.Injective key) {s : OrderedSet key} {a b : α} :
    b ∈ (s.insert a).toList ↔ b = a ∨ b ∈ s.toList := mem_insertList_iff hkey

/-- Sets with the same elements are the same list. -/
theorem toList_eq_of_mem_iff {s t : OrderedSet key} (h : ∀ a, a ∈ s.toList ↔ a ∈ t.toList) :
    s.toList = t.toList := by
  have : Std.Antisymm fun a b => key a < key b := ⟨fun a b hab hba => absurd hba hab.asymm⟩
  have : Std.Irrefl fun a b => key a < key b := ⟨fun a => lt_irrefl (key a)⟩
  exact s.sorted.eq_of_mem_iff t.sorted h

/-- The set of the elements of a list, inserted one after the other. -/
def ofList (key : α → κ) (l : List α) : OrderedSet key := l.foldl insert (empty key)

theorem mem_foldl_insert_iff (hkey : Function.Injective key) {a : α} (l : List α)
    (s : OrderedSet key) : a ∈ (l.foldl insert s).toList ↔ a ∈ l ∨ a ∈ s.toList := by
  induction l generalizing s with
  | nil => simp
  | cons b l ih =>
    rw [List.foldl_cons, ih, mem_insert_iff hkey, List.mem_cons]
    tauto

theorem mem_ofList_iff (hkey : Function.Injective key) {a : α} {l : List α} :
    a ∈ (ofList key l).toList ↔ a ∈ l := by
  rw [ofList, mem_foldl_insert_iff hkey]
  simp [empty]

/-! ### Iteration -/

/-- What an iterator still visits: everything, or what is greater than its last key. -/
def after (s : OrderedSet key) : Option κ → List α
  | none => s.toList
  | some k => s.toList.filter (k < key ·)

/-- What the iterator points to. -/
def next? (s : OrderedSet key) (cursor : Option κ) : Option α := (s.after cursor).head?

theorem after_eq_nil {s : OrderedSet key} {cursor : Option κ} (h : s.next? cursor = none) :
    s.after cursor = [] := List.head?_eq_none_iff.mp h

theorem sorted_after (s : OrderedSet key) (cursor : Option κ) :
    (s.after cursor).Pairwise fun a b => key a < key b := by
  cases cursor with
  | none => exact s.sorted
  | some k => exact s.sorted.filter _

theorem after_sublist (s : OrderedSet key) (cursor : Option κ) :
    (s.after cursor).Sublist s.toList := by
  cases cursor with
  | none => exact List.Sublist.refl _
  | some k => exact List.filter_sublist

/-- Going on from the key of `a` visits what was to be visited and is greater. -/
theorem after_some_eq_filter (s : OrderedSet key) {cursor : Option κ} {a : α}
    (ha : a ∈ s.after cursor) :
    s.after (some (key a)) = (s.after cursor).filter (key a < key ·) := by
  cases cursor with
  | none => rfl
  | some k =>
    have hk : k < key a := by
      have hmem := (List.mem_filter.mp ha).2
      simpa using hmem
    rw [after, after, List.filter_filter]
    refine List.filter_congr fun b _ => ?_
    by_cases hab : key a < key b
    · simp [hab, hk.trans hab]
    · simp [hab]

/-- An iterator does not visit what has been erased, and all else as before. -/
theorem after_erase (s : OrderedSet key) (k : κ) (cursor : Option κ) :
    (s.erase k).after cursor = (s.after cursor).filter (key · ≠ k) := by
  cases cursor with
  | none => rfl
  | some j =>
    simp only [after, erase, List.filter_filter, Bool.and_comm]

/-- **Advancing an iterator** visits its first element and leaves the others. -/
theorem after_eq_cons {s : OrderedSet key} {cursor : Option κ} {a : α}
    (h : s.next? cursor = some a) : s.after cursor = a :: s.after (some (key a)) := by
  obtain ⟨rest, hrest⟩ := List.head?_eq_some_iff.mp h
  have hmem : a ∈ s.after cursor := by
    rw [hrest]
    exact List.mem_cons_self
  have hsorted := s.sorted_after cursor
  rw [hrest, List.pairwise_cons] at hsorted
  rw [s.after_some_eq_filter hmem, hrest]
  have hall : rest.filter (key a < key ·) = rest := by
    refine List.filter_eq_self.mpr fun b hb => ?_
    simpa using hsorted.1 b hb
  simp [hall]

end OrderedSet
