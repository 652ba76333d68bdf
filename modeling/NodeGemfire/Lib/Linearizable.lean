import Mathlib.Data.List.Pairwise
import Mathlib.Data.List.Nodup

/-!
# Linearizable histories

Operations on a shared object are called and return, and between the two others
may be called and return. A history is linearizable when its operations have the
results they would have one after the other, in an order in which an operation
that has returned comes before those that are called afterwards.

The three lemmas `Linearizes.call`, `Linearizes.effect` and `Linearizes.return`
build the order along with the history. `Linearizes.eq_of_awaited` says that only
one order is left where every operation returns before the next is called.

## Main definitions

- `Event` — an operation is called, or returns
- `SequentialRun` — operations one after the other, as a specification allows them
- `Linearizes` — an order of the operations that explains a history
-/

universe u

/-- An operation is called under a number, or the one with this number returns. -/
inductive Event (Op R : Type u)
  | called (i : ℕ) (op : Op)
  | returned (i : ℕ) (result : R)

/-- An operation with its number and its result. -/
structure Completed (Op R : Type u) where
  id : ℕ
  op : Op
  result : R

variable {σ Op R : Type u}

/-! ### Sequential runs -/

/-- The operations follow each other, each as the specification allows it. -/
inductive SequentialRun (spec : σ → Op → R → σ → Prop) : σ → List (Completed Op R) → σ → Prop
  | nil (s : σ) : SequentialRun spec s [] s
  | snoc {s s' s'' : σ} {order : List (Completed Op R)} (h : SequentialRun spec s order s')
      (i : ℕ) (op : Op) (r : R) (hs : spec s' op r s'') :
    SequentialRun spec s (order ++ [⟨i, op, r⟩]) s''

/-- Every operation is one the specification allows in some state. -/
theorem SequentialRun.exists_spec {spec : σ → Op → R → σ → Prop} {s s' : σ}
    {order : List (Completed Op R)} (h : SequentialRun spec s order s') {c : Completed Op R}
    (hc : c ∈ order) : ∃ t t', spec t c.op c.result t' := by
  induction h with
  | nil => exact absurd hc List.not_mem_nil
  | snoc h i op r hs ih =>
    rcases List.mem_append.mp hc with hc | hc
    · exact ih hc
    · rw [List.mem_singleton.mp hc]
      exact ⟨_, _, hs⟩

/-! ### Real time -/

/-- The operation `i` has returned before `j` is called. -/
def Precedes (history : List (Event Op R)) (i j : ℕ) : Prop :=
  ∃ before after, history = before ++ after ∧ (∃ r, .returned i r ∈ before) ∧
    ∃ op, .called j op ∈ after

variable {history : List (Event Op R)} {i j : ℕ}

/-- An event at the end is the call of `j`, or all was there before. -/
theorem Precedes.of_append {e : Event Op R} (h : Precedes (history ++ [e]) i j) :
    Precedes history i j ∨ ∃ op, e = .called j op := by
  obtain ⟨before, after, heq, hreturned, op, hcalled⟩ := h
  rcases List.eq_nil_or_concat' after with rfl | ⟨after', e', rfl⟩
  · exact absurd hcalled List.not_mem_nil
  · rw [← List.append_assoc] at heq
    obtain ⟨hhistory, he⟩ := List.append_inj' heq rfl
    rcases List.mem_append.mp hcalled with hmem | hlast
    · exact .inl ⟨before, after', hhistory, hreturned, op, hmem⟩
    · rw [List.mem_singleton] at hlast
      refine .inr ⟨op, ?_⟩
      rw [hlast]
      exact List.head_eq_of_cons_eq he

/-- Nothing has returned before the first event, so that it may be left out. -/
theorem Precedes.of_cons {e : Event Op R} (h : Precedes (e :: history) i j)
    (hreturned : ∀ r, e ≠ .returned i r) : Precedes history i j := by
  obtain ⟨before, after, heq, ⟨r, hr⟩, hcalled⟩ := h
  cases before with
  | nil => exact absurd hr List.not_mem_nil
  | cons e' before =>
    obtain ⟨rfl, rfl⟩ := List.cons.inj heq
    rcases List.mem_cons.mp hr with rfl | hr
    · exact absurd rfl (hreturned r)
    · exact ⟨before, after, rfl, ⟨r, hr⟩, hcalled⟩

theorem Precedes.append (h : Precedes history i j) (before : List (Event Op R)) :
    Precedes (before ++ history) i j := by
  obtain ⟨before', after, rfl, ⟨r, hr⟩, hcalled⟩ := h
  refine ⟨before ++ before', after, ?_, ⟨r, List.mem_append_right _ hr⟩, hcalled⟩
  rw [List.append_assoc]

theorem Precedes.called (h : Precedes history i j) : ∃ op, .called j op ∈ history := by
  obtain ⟨before, after, rfl, -, op, hcalled⟩ := h
  exact ⟨op, List.mem_append_right _ hcalled⟩

theorem Precedes.returned (h : Precedes history i j) : ∃ r, .returned i r ∈ history := by
  obtain ⟨before, after, rfl, ⟨r, hr⟩, -⟩ := h
  exact ⟨r, List.mem_append_left _ hr⟩

/-! ### Linearizations -/

/-- The operations in this order lead from `s₀` to `s` and explain the history: only
    called operations are among them, those that have returned are, with the result
    they returned, and none comes before one that precedes it. -/
structure Linearizes (spec : σ → Op → R → σ → Prop) (s₀ : σ) (history : List (Event Op R))
    (order : List (Completed Op R)) (s : σ) : Prop where
  sequential : SequentialRun spec s₀ order s
  distinct : (order.map (·.id)).Nodup
  called : ∀ c ∈ order, .called c.id c.op ∈ history
  returned : ∀ i r, .returned i r ∈ history → ∃ c ∈ order, c.id = i ∧ c.result = r
  realTime : order.Pairwise fun c d => ¬Precedes history d.id c.id

namespace Linearizes

variable {spec : σ → Op → R → σ → Prop} {s₀ s s' : σ} {order : List (Completed Op R)} {op : Op}
  {r : R}

theorem nil : Linearizes spec s₀ [] [] s₀ where
  sequential := .nil s₀
  distinct := List.nodup_nil
  called _ hc := absurd hc List.not_mem_nil
  returned _ _ hr := absurd hr List.not_mem_nil
  realTime := List.Pairwise.nil

/-- A call under a new number orders nothing yet. -/
theorem call (h : Linearizes spec s₀ history order s) (op : Op)
    (hnew : ∀ op, .called i op ∉ history) :
    Linearizes spec s₀ (history ++ [.called i op]) order s where
  sequential := h.sequential
  distinct := h.distinct
  called c hc := List.mem_append_left _ (h.called c hc)
  returned j r hr := by
    rcases List.mem_append.mp hr with hr | hr
    · exact h.returned j r hr
    · simp at hr
  realTime := by
    refine h.realTime.imp_of_mem fun {c d} hc _ hcd hprecedes => ?_
    rcases hprecedes.of_append with hbefore | ⟨op', heq⟩
    · exact hcd hbefore
    · obtain ⟨rfl, -⟩ := Event.called.inj heq
      exact hnew _ (h.called c hc)

/-- A called operation takes effect before it returns. -/
theorem effect (h : Linearizes spec s₀ history order s) (hcalled : .called i op ∈ history)
    (hi : i ∉ order.map (·.id)) (hs : spec s op r s') :
    Linearizes spec s₀ history (order ++ [⟨i, op, r⟩]) s' where
  sequential := .snoc h.sequential i op r hs
  distinct := by
    rw [List.map_append, List.map_singleton, ← List.concat_eq_append, List.nodup_concat]
    exact ⟨hi, h.distinct⟩
  called c hc := by
    rcases List.mem_append.mp hc with hc | hc
    · exact h.called c hc
    · rw [List.mem_singleton.mp hc]
      exact hcalled
  returned j r hr := by
    obtain ⟨c, hc, heq⟩ := h.returned j r hr
    exact ⟨c, List.mem_append_left _ hc, heq⟩
  realTime := by
    rw [List.pairwise_append]
    refine ⟨h.realTime, List.pairwise_singleton _ _, fun c hc d hd hprecedes => ?_⟩
    -- what has returned has taken effect
    rw [List.mem_singleton.mp hd] at hprecedes
    obtain ⟨r', hr'⟩ := hprecedes.returned
    obtain ⟨e, he, rfl, -⟩ := h.returned i r' hr'
    exact hi (List.mem_map_of_mem he)

/-- An operation returns the result it has had. -/
theorem «return» (h : Linearizes spec s₀ history order s) (hc : ⟨i, op, r⟩ ∈ order) :
    Linearizes spec s₀ (history ++ [.returned i r]) order s where
  sequential := h.sequential
  distinct := h.distinct
  called c hc := List.mem_append_left _ (h.called c hc)
  returned j r' hr := by
    rcases List.mem_append.mp hr with hr | hr
    · exact h.returned j r' hr
    · obtain ⟨rfl, rfl⟩ := Event.returned.inj (List.mem_singleton.mp hr)
      exact ⟨_, hc, rfl, rfl⟩
  realTime := by
    refine h.realTime.imp fun {c d} hcd hprecedes => ?_
    rcases hprecedes.of_append with hbefore | ⟨op', heq⟩
    · exact hcd hbefore
    · cases heq

end Linearizes

/-! ### One operation at a time -/

/-- The history in which each of these operations returns before the next is called. -/
def awaited (cs : List (Completed Op R)) : List (Event Op R) :=
  cs.flatMap fun c => [.called c.id c.op, .returned c.id c.result]

section Awaited

variable {cs : List (Completed Op R)} {c : Completed Op R}

@[simp] theorem awaited_cons (c : Completed Op R) (cs : List (Completed Op R)) :
    awaited (c :: cs) = [.called c.id c.op, .returned c.id c.result] ++ awaited cs := rfl

theorem called_mem_awaited {op : Op} :
    .called i op ∈ awaited cs ↔ ∃ c ∈ cs, c.id = i ∧ c.op = op := by
  simp only [awaited, List.mem_flatMap, List.mem_cons, List.not_mem_nil, or_false,
    Event.called.injEq, reduceCtorEq]
  exact exists_congr fun c => and_congr_right fun _ => and_congr eq_comm eq_comm

theorem returned_mem_awaited {r : R} :
    .returned i r ∈ awaited cs ↔ ∃ c ∈ cs, c.id = i ∧ c.result = r := by
  simp only [awaited, List.mem_flatMap, List.mem_cons, List.not_mem_nil, or_false, false_or,
    Event.returned.injEq, reduceCtorEq]
  exact exists_congr fun c => and_congr_right fun _ => and_congr eq_comm eq_comm

/-- The operations precede each other as they are listed, and not the other way. -/
theorem pairwise_awaited (hids : (cs.map (·.id)).Nodup) :
    cs.Pairwise fun c d =>
      Precedes (awaited cs) c.id d.id ∧ ¬Precedes (awaited cs) d.id c.id := by
  induction cs with
  | nil => exact List.Pairwise.nil
  | cons c cs ih =>
    rw [List.map_cons, List.nodup_cons] at hids
    refine List.Pairwise.cons (fun d hd => ⟨?_, fun hprecedes => ?_⟩)
      ((ih hids.2).imp_of_mem fun {d e} hd he hde => ⟨hde.1.append _, fun hprecedes => ?_⟩)
    · refine ⟨[.called c.id c.op, .returned c.id c.result], awaited cs, rfl, ⟨c.result, by simp⟩,
        d.op, called_mem_awaited.mpr ⟨d, hd, rfl, rfl⟩⟩
    · -- `c` is not called again after `d` has returned
      have hne : d.id ≠ c.id := fun heq => hids.1 (heq ▸ List.mem_map_of_mem hd)
      have htail := (hprecedes.of_cons (by simp)).of_cons (by simpa using hne.symm)
      obtain ⟨op, hcalled⟩ := htail.called
      obtain ⟨e, he, heq, -⟩ := called_mem_awaited.mp hcalled
      exact hids.1 (heq ▸ List.mem_map_of_mem he)
    · have hne : e.id ≠ c.id := fun heq => hids.1 (heq ▸ List.mem_map_of_mem he)
      exact hde.2 ((hprecedes.of_cons (by simp)).of_cons (by simpa using hne.symm))

/-- **One at a time**: where each operation returns before the next is called, they
    take effect in the order in which they are called. -/
theorem Linearizes.eq_of_awaited {spec : σ → Op → R → σ → Prop} {s₀ s : σ}
    {order : List (Completed Op R)} (h : Linearizes spec s₀ (awaited cs) order s)
    (hids : (cs.map (·.id)).Nodup) : order = cs := by
  have hcs : cs.Nodup := hids.of_map
  have hmem : ∀ d, d ∈ order → d ∈ cs := by
    intro d hd
    obtain ⟨c, hc, hid, hop⟩ := called_mem_awaited.mp (h.called d hd)
    obtain ⟨e, he, heid, her⟩ :=
      h.returned c.id c.result (returned_mem_awaited.mpr ⟨c, hc, rfl, rfl⟩)
    have hde : e = d := List.inj_on_of_nodup_map h.distinct he hd (heid.trans hid)
    have hcd : c = d := by
      cases c
      cases d
      simp_all
    exact hcd ▸ hc
  have hmem' : ∀ c, c ∈ cs → c ∈ order := by
    intro c hc
    obtain ⟨d, hd, hid, -⟩ :=
      h.returned c.id c.result (returned_mem_awaited.mpr ⟨c, hc, rfl, rfl⟩)
    have hdc : d = c := List.inj_on_of_nodup_map hids (hmem d hd) hc hid
    exact hdc ▸ hd
  have hperm : order.Perm cs :=
    (List.perm_ext_iff_of_nodup h.distinct.of_map hcs).mpr fun c => ⟨hmem c, hmem' c⟩
  let comparable (c d : Completed Op R) : Prop :=
    Precedes (awaited cs) c.id d.id ∨ Precedes (awaited cs) d.id c.id
  have : Std.Symm comparable := ⟨fun _ _ h => h.symm⟩
  have hcomparable : cs.Pairwise comparable := (pairwise_awaited hids).imp fun h => .inl h.1
  refine hperm.eq_of_pairwise (fun c d hc hd hcd hdc => ?_) h.realTime
    ((pairwise_awaited hids).imp And.right)
  by_contra hne
  rcases hcomparable.forall (hmem c hc) hd hne with hp | hp
  · exact hdc hp
  · exact hcd hp

end Awaited
