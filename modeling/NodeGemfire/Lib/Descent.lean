import Mathlib.Data.Fintype.Card
import Mathlib.Data.Fintype.Order
import Mathlib.Logic.Relation

/-!
# Descent along a relation

A recursion that goes from a point to its successors ends when it can be given
fuel for the longest descent. Among finitely many points there is enough fuel if
and only if no cycle can be reached: `exists_within_iff`.

## Main definitions

- `Within` — every descent from a point is shorter than the fuel
- `ReachesCycle` — some descent from a point comes to a point twice
-/

universe u

variable {α : Type u} {r : α → α → Prop} {a b : α}

/-- Every descent from `a` takes fewer than `n` steps. -/
def Within (r : α → α → Prop) : ℕ → α → Prop
  | 0, _ => False
  | n + 1, a => ∀ b, r a b → Within r n b

/-- A point on a cycle can be reached from `a`. -/
def ReachesCycle (r : α → α → Prop) (a : α) : Prop :=
  ∃ b, Relation.ReflTransGen r a b ∧ Relation.TransGen r b b

theorem Within.succ {n : ℕ} (h : Within r n a) : Within r (n + 1) a := by
  induction n generalizing a with
  | zero => exact h.elim
  | succ n ih =>
    intro b hb
    exact ih (h b hb)

theorem Within.mono {n m : ℕ} (h : Within r n a) (hle : n ≤ m) : Within r m a := by
  induction hle with
  | refl => exact h
  | step _ ih => exact ih.succ

theorem Within.acc {n : ℕ} (h : Within r n a) : Acc (flip r) a := by
  induction n generalizing a with
  | zero => exact h.elim
  | succ n ih => exact .intro a fun b hb => ih (h b hb)

/-- With finitely many successors one amount of fuel is enough for all of them. -/
theorem exists_within_of_acc [Finite α] (h : Acc (flip r) a) : ∃ n, Within r n a := by
  induction h with
  | intro a _ ih =>
    choose! fuel hfuel using ih
    obtain ⟨bound, hbound⟩ := (Set.finite_range fuel).bddAbove
    exact ⟨bound + 1, fun b hb => (hfuel b hb).mono (hbound (Set.mem_range_self b))⟩

theorem not_transGen_self_of_acc (h : Acc (flip r) a) : ¬Relation.TransGen r a a := by
  induction h with
  | intro a _ ih =>
    intro hcycle
    -- the cycle through `a` also goes through its next point
    obtain ⟨b, hab, hba⟩ := Relation.TransGen.head'_iff.mp hcycle
    exact ih b hab (Relation.TransGen.tail' hba hab)

theorem not_reachesCycle_of_acc (h : Acc (flip r) a) : ¬ReachesCycle r a := by
  rintro ⟨b, hab, hcycle⟩
  have hb : Acc (flip r) b := by
    clear hcycle
    induction hab with
    | refl => exact h
    | tail _ hr ih => exact ih.inv hr
  exact not_transGen_self_of_acc hb hcycle

/-- The points that `a` reaches are well-founded under descent when none of them
    is on a cycle. -/
theorem acc_of_not_reachesCycle [Finite α] (h : ¬ReachesCycle r a) : Acc (flip r) a := by
  let below (y x : α) : Prop := Relation.ReflTransGen r a x ∧ Relation.TransGen r x y
  have htrans : IsTrans α below := ⟨fun z y x hzy hyx => ⟨hyx.1, hyx.2.trans hzy.2⟩⟩
  have hirrefl : Std.Irrefl below := ⟨fun x hx => h ⟨x, hx.1, hx.2⟩⟩
  have hwf : WellFounded below := Finite.wellFounded_of_trans_of_irrefl below
  have hreached (b : α) : Relation.ReflTransGen r a b → Acc (flip r) b := by
    induction b using hwf.induction with
    | _ b ih =>
      intro hab
      exact .intro b fun c hbc => ih c ⟨hab, .single hbc⟩ (hab.tail hbc)
  exact hreached a .refl

/-- **Termination**: among finitely many points, there is enough fuel for every descent
    from `a` if and only if `a` reaches no cycle. -/
theorem exists_within_iff [Finite α] : (∃ n, Within r n a) ↔ ¬ReachesCycle r a := by
  constructor
  · rintro ⟨n, h⟩
    exact not_reachesCycle_of_acc h.acc
  · intro h
    exact exists_within_of_acc (acc_of_not_reachesCycle h)
