import NodeGemfire.Lib.TransitionSystem
import Mathlib.Data.List.Basic

/-!
# A first-in first-out channel

The purpose of a buffered stream, with no buffer in it: items are pushed at one
end and delivered at the other, in the order in which they were pushed, each at
most once. `Channel.delivered_prefix` is what every implementation inherits
through a `Simulation`.
-/

universe u

/-- Everything pushed so far and everything delivered so far. -/
@[ext] structure Channel (α : Type u) where
  pushed : List α
  delivered : List α

namespace Channel

variable {α : Type u}

inductive Action (α : Type u)
  | push (a : α)
  | deliver

/-- A push appends; a delivery hands over the oldest item not yet delivered. -/
inductive Step : Channel α → Action α → Channel α → Prop
  | push (c : Channel α) (a : α) : Step c (.push a) ⟨c.pushed ++ [a], c.delivered⟩
  | deliver (c : Channel α) (a : α) (rest : List α) (h : c.pushed = c.delivered ++ a :: rest) :
      Step c .deliver ⟨c.pushed, c.delivered ++ [a]⟩

/-- The channel as a transition system, initially empty. -/
def system (α : Type u) : TransitionSystem (Channel α) (Action α) where
  start c := c = ⟨[], []⟩
  step := Step

/-- What has been delivered is a prefix of what has been pushed. -/
theorem delivered_prefix {c : Channel α} (hc : (system α).Reachable c) :
    c.delivered <+: c.pushed := by
  refine hc.invariant (fun c => c.delivered <+: c.pushed) (fun c h => ?_)
    (fun c l c' _ ih hs => ?_)
  · subst h
    exact List.prefix_refl []
  · cases hs with
    | push a => exact ih.trans (List.prefix_append _ _)
    | deliver a rest h =>
      refine ⟨rest, ?_⟩
      rw [h]
      simp

/-! ### Channels with a buffer

A reader takes all of a buffer at once and then works on this batch. -/

variable {pushed delivered batch buffer : List α} {a : α}

/-- What was pushed has been delivered, or is in the batch the reader has taken, or
    in the buffer, in this order. -/
def Staged (pushed delivered batch buffer : List α) : Prop :=
  delivered ++ (batch ++ buffer) = pushed

namespace Staged

theorem push (h : Staged pushed delivered batch buffer) (a : α) :
    Staged (pushed ++ [a]) delivered batch (buffer ++ [a]) := by
  rw [Staged, ← List.append_assoc batch, ← List.append_assoc, h]

theorem take (h : Staged pushed delivered [] buffer) : Staged pushed delivered buffer [] := by
  rw [Staged, List.append_nil]
  exact h

theorem deliver (h : Staged pushed delivered (a :: batch) buffer) :
    Staged pushed (delivered ++ [a]) batch buffer := by
  rw [Staged, List.append_assoc]
  exact h

/-- Delivering the first item of the batch is a delivery of the channel. -/
theorem step (h : Staged pushed delivered (a :: batch) buffer) :
    Step ⟨pushed, delivered⟩ .deliver ⟨pushed, delivered ++ [a]⟩ :=
  .deliver _ a (batch ++ buffer) h.symm

theorem delivered_prefix (h : Staged pushed delivered batch buffer) : delivered <+: pushed :=
  ⟨_, h⟩

/-- With nothing in the batch, the buffer is what is not delivered yet. -/
theorem append_buffer (h : Staged pushed delivered [] buffer) : delivered ++ buffer = pushed := h

end Staged

end Channel
