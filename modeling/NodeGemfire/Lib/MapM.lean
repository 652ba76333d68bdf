import Mathlib.Data.List.Forall2

/-!
# Functions that may fail, over a list

`mapM` of a function that may fail gives the list of its results, element by
element (`mapM_eq_some_iff`), or fails where the function fails on some element
(`mapM_eq_none_iff`).
-/

universe u v w

variable {α : Type u} {β : Type v}

theorem mapM_congr {m : Type v → Type w} [Monad m] [LawfulMonad m] {f g : α → m β} {l : List α}
    (h : ∀ a ∈ l, f a = g a) : l.mapM f = l.mapM g := by
  induction l with
  | nil => rfl
  | cons a l ih =>
    rw [List.forall_mem_cons] at h
    rw [List.mapM_cons, List.mapM_cons, h.1, ih h.2]

theorem mapM_eq_none_iff (f : α → Option β) (l : List α) :
    l.mapM f = none ↔ ∃ a ∈ l, f a = none := by
  induction l with
  | nil => simp
  | cons a l ih =>
    rw [List.mapM_cons, List.exists_mem_cons_iff, ← ih]
    cases ha : f a with
    | none => simp
    | some b => cases hl : l.mapM f <;> simp

/-- A function that fails on no element gives a list of results. -/
theorem exists_mapM_eq_some {f : α → Option β} {l : List α} (h : ∀ a ∈ l, ∃ b, f a = some b) :
    ∃ bs, l.mapM f = some bs := by
  refine Option.ne_none_iff_exists'.mp fun hnone => ?_
  obtain ⟨a, ha, hfails⟩ := (mapM_eq_none_iff f l).mp hnone
  obtain ⟨b, hb⟩ := h a ha
  rw [hfails] at hb
  cases hb

theorem exists_bind_eq_some {γ : Type v} {x : Option β} {f : β → Option γ}
    (hx : ∃ b, x = some b) (hf : ∀ b, ∃ c, f b = some c) : ∃ c, x >>= f = some c := by
  obtain ⟨b, rfl⟩ := hx
  exact hf b

theorem mapM_eq_some_iff {f : α → Option β} {l : List α} {bs : List β} :
    l.mapM f = some bs ↔ List.Forall₂ (fun a b => f a = some b) l bs := by
  induction l generalizing bs with
  | nil => simp [eq_comm]
  | cons a l ih =>
    rw [List.mapM_cons, List.forall₂_cons_left_iff]
    constructor
    · intro h
      obtain ⟨b, hb, hrest⟩ := Option.bind_eq_some_iff.mp h
      obtain ⟨bs', hbs', hcons⟩ := Option.bind_eq_some_iff.mp hrest
      exact ⟨b, bs', hb, ih.mp hbs', (Option.some.inj hcons).symm⟩
    · rintro ⟨b, bs', hb, hbs', rfl⟩
      rw [hb, ih.mpr hbs']
      rfl

theorem map_eq_of_mapM_eq_some {f : α → Option β} {l : List α} {bs : List β}
    (h : l.mapM f = some bs) : l.map f = bs.map some := by
  rw [← List.forall₂_eq_eq_eq, List.forall₂_map_left_iff, List.forall₂_map_right_iff]
  exact mapM_eq_some_iff.mp h
