import NodeGemfire.Lib.TransitionSystem
import Mathlib.Data.List.Basic

/-!
# A mailbox with a bell

Writers put items into a mailbox and ring a bell afterwards, each when it gets
to it. The bell remembers that it was rung, not how often. The reader answers it,
or looks in unasked, and then takes everything there is. No item is left in a
mailbox that nobody will look into: `attended_of_reachable`, which every
implementation inherits through a `Simulation`.
-/

universe u

/-- `owed` writers have put an item and not yet rung; `rung` is the bell; and the
    reader is `looking` from its answer on until it has taken the items. -/
structure Mailbox (α : Type u) where
  items : List α
  owed : ℕ
  rung : Bool
  looking : Bool

namespace Mailbox

variable {α : Type u}

inductive Action (α : Type u)
  | put (a : α)
  | ring
  | answer
  | take

/-- The reader resets the bell before it takes the items. -/
inductive Step : Mailbox α → Action α → Mailbox α → Prop
  | put (m : Mailbox α) (a : α) :
    Step m (.put a) { m with items := m.items ++ [a], owed := m.owed + 1 }
  | ring (m : Mailbox α) (h : 0 < m.owed) :
    Step m .ring { m with owed := m.owed - 1, rung := true }
  | answer (m : Mailbox α) (h : m.looking = false) :
    Step m .answer { m with rung := false, looking := true }
  | take (m : Mailbox α) (h : m.looking = true) :
    Step m .take { m with items := [], looking := false }

/-- The mailbox as a transition system, initially empty. -/
def system (α : Type u) : TransitionSystem (Mailbox α) (Action α) where
  start m := m = ⟨[], 0, false, false⟩
  step := Step

/-- Where there are items, the bell is rung, a writer is still to ring it, or the
    reader is looking. -/
def Attended (m : Mailbox α) : Prop :=
  m.items ≠ [] → m.rung = true ∨ 0 < m.owed ∨ m.looking = true

theorem Step.attended {m m' : Mailbox α} {a : Action α} (hs : Step m a m') : m'.Attended := by
  cases hs with
  | put a => exact fun _ => .inr (.inl (Nat.succ_pos _))
  | ring => exact fun _ => .inl rfl
  | answer => exact fun _ => .inr (.inr rfl)
  | take => exact fun hitems => absurd rfl hitems

/-- **No item is stranded.** -/
theorem attended_of_reachable {m : Mailbox α} (hm : (system α).Reachable m) : m.Attended := by
  refine hm.invariant Attended ?_ fun _ _ _ _ _ hs => hs.attended
  rintro _ rfl
  exact fun hitems => absurd rfl hitems

end Mailbox
