import NodeGemfire.Lib.Linearizable
import NodeGemfire.Lib.Program
import NodeGemfire.Lib.TransitionSystem
import Mathlib.Data.List.Perm.Subperm
import Mathlib.Logic.Hydra
import Mathlib.Tactic.Abel

/-!
# An event loop with a thread pool

The main thread calls operations. Some of them it carries out itself; the others
it queues, and a pool of threads takes them from the queue in order, works on
them at the same time, and hands the results back to the main thread, which
delivers them in the order in which they came. All operations are programs that
use one object, and threads interleave between any two questions.

`WorkQueue.exists_linearizes` says that programs which implement a specification have
results that they may have one after the other; `WorkQueue.wellFounded_work`,
`exists_work_of_not_idle` and `returned_perm_of_idle` say that the work comes to an end,
and that then every operation has returned once.

## Main definitions

- `Host` — the operations as programs, the object, and the number of threads
- `WorkQueue` — where the operations are
- `WorkQueue.system` — all interleavings
- `WorkQueue.Repeatable` — what operations under way have read is still true
-/

universe u

/-- The programs of the operations, how the object answers them, which operations are
    queued, and how many threads there are for these. -/
structure Host (σ Op Q : Type u) (A : Q → Type u) (R : Type u) where
  program : Op → Program Q A R
  answer : (q : Q) → σ → A q × σ
  queues : Op → Bool
  threads : ℕ

/-- An operation that is under way, and what is left of its program. -/
structure Job (Op Q : Type u) (A : Q → Type u) (R : Type u) where
  id : ℕ
  op : Op
  program : Program Q A R

/-- The object, the operation the main thread is in, the operations in the queue and
    on the threads, the results to be delivered, and what has happened so far. -/
structure WorkQueue (σ Op Q : Type u) (A : Q → Type u) (R : Type u) where
  object : σ
  inside : Option (Job Op Q A R)
  waiting : List (Job Op Q A R)
  running : List (Job Op Q A R)
  finished : List (Completed Op R)
  history : List (Event Op R)
  next : ℕ

namespace WorkQueue

variable {σ Op Q R : Type u} {A : Q → Type u}

/-- Nothing has been called yet. -/
def empty (object : σ) : WorkQueue σ Op Q A R := ⟨object, none, [], [], [], [], 0⟩

/-- The main thread calls an operation, or some thread goes on with its work. -/
inductive Label (Op : Type u)
  | call (op : Op)
  | work

inductive Step (host : Host σ Op Q A R) :
    WorkQueue σ Op Q A R → Label Op → WorkQueue σ Op Q A R → Prop
  | queue (w : WorkQueue σ Op Q A R) (op : Op) (hfree : w.inside = none)
      (hqueues : host.queues op = true) :
    Step host w (.call op)
      { w with
        waiting := w.waiting ++ [⟨w.next, op, host.program op⟩]
        history := w.history ++ [.called w.next op]
        next := w.next + 1 }
  | enter (w : WorkQueue σ Op Q A R) (op : Op) (hfree : w.inside = none)
      (hqueues : host.queues op = false) :
    Step host w (.call op)
      { w with
        inside := some ⟨w.next, op, host.program op⟩
        history := w.history ++ [.called w.next op]
        next := w.next + 1 }
  | askInside (w : WorkQueue σ Op Q A R) (i : ℕ) (op : Op) (q : Q) (next : A q → Program Q A R)
      (h : w.inside = some ⟨i, op, .ask q next⟩) :
    Step host w .work
      { w with
        object := (host.answer q w.object).2
        inside := some ⟨i, op, next (host.answer q w.object).1⟩ }
  | leave (w : WorkQueue σ Op Q A R) (i : ℕ) (op : Op) (r : R)
      (h : w.inside = some ⟨i, op, .done r⟩) :
    Step host w .work { w with inside := none, history := w.history ++ [.returned i r] }
  | start (w : WorkQueue σ Op Q A R) (t : Job Op Q A R) (rest : List (Job Op Q A R))
      (h : w.waiting = t :: rest) (hfree : w.running.length < host.threads) :
    Step host w .work { w with waiting := rest, running := w.running ++ [t] }
  | ask (w : WorkQueue σ Op Q A R) (before after : List (Job Op Q A R)) (i : ℕ) (op : Op) (q : Q)
      (next : A q → Program Q A R) (h : w.running = before ++ ⟨i, op, .ask q next⟩ :: after) :
    Step host w .work
      { w with
        object := (host.answer q w.object).2
        running := before ++ ⟨i, op, next (host.answer q w.object).1⟩ :: after }
  | finish (w : WorkQueue σ Op Q A R) (before after : List (Job Op Q A R)) (i : ℕ) (op : Op)
      (r : R) (h : w.running = before ++ ⟨i, op, .done r⟩ :: after) :
    Step host w .work
      { w with running := before ++ after, finished := w.finished ++ [⟨i, op, r⟩] }
  | deliver (w : WorkQueue σ Op Q A R) (c : Completed Op R) (rest : List (Completed Op R))
      (h : w.finished = c :: rest) (hfree : w.inside = none) :
    Step host w .work
      { w with finished := rest, history := w.history ++ [.returned c.id c.result] }

/-- All interleavings, from an object that nothing has used yet. -/
def system (host : Host σ Op Q A R) (object : σ) :
    TransitionSystem (WorkQueue σ Op Q A R) (Label Op) where
  start w := w = empty object
  step := Step host

/-- The operations under way, wherever they are. -/
def jobs (w : WorkQueue σ Op Q A R) : List (Job Op Q A R) :=
  w.inside.toList ++ (w.waiting ++ w.running)

/-- No operation is under way, and no result is left to deliver. -/
def Idle (w : WorkQueue σ Op Q A R) : Prop := w.jobs = [] ∧ w.finished = []

/-! ### What a step does -/

/-- The kinds of steps, without the places of the jobs in the lists. -/
inductive Change (host : Host σ Op Q A R) (w w' : WorkQueue σ Op Q A R) : Prop
  | call (op : Op) (hjobs : w'.jobs.Perm (⟨w.next, op, host.program op⟩ :: w.jobs))
      (hfinished : w'.finished = w.finished) (hobject : w'.object = w.object)
      (hhistory : w'.history = w.history ++ [.called w.next op]) (hnext : w'.next = w.next + 1)
  | move (hjobs : w'.jobs.Perm w.jobs) (hfinished : w'.finished = w.finished)
      (hobject : w'.object = w.object) (hhistory : w'.history = w.history)
      (hnext : w'.next = w.next)
  | ask (i : ℕ) (op : Op) (q : Q) (next : A q → Program Q A R) (others : List (Job Op Q A R))
      (hjob : w.jobs.Perm (⟨i, op, .ask q next⟩ :: others))
      (hjobs : w'.jobs.Perm (⟨i, op, next (host.answer q w.object).1⟩ :: others))
      (hfinished : w'.finished = w.finished) (hobject : w'.object = (host.answer q w.object).2)
      (hhistory : w'.history = w.history) (hnext : w'.next = w.next)
  | finish (i : ℕ) (op : Op) (r : R) (hjobs : w.jobs.Perm (⟨i, op, .done r⟩ :: w'.jobs))
      (hfinished : w'.finished = w.finished ++ [⟨i, op, r⟩]) (hobject : w'.object = w.object)
      (hhistory : w'.history = w.history) (hnext : w'.next = w.next)
  | deliver (c : Completed Op R) (hjobs : w'.jobs = w.jobs)
      (hfinished : w.finished = c :: w'.finished) (hobject : w'.object = w.object)
      (hhistory : w'.history = w.history ++ [.returned c.id c.result]) (hnext : w'.next = w.next)
  | leave (i : ℕ) (op : Op) (r : R) (hjobs : w.jobs = ⟨i, op, .done r⟩ :: w'.jobs)
      (hfinished : w'.finished = w.finished) (hobject : w'.object = w.object)
      (hhistory : w'.history = w.history ++ [.returned i r]) (hnext : w'.next = w.next)

theorem perm_jobs_of_running {w : WorkQueue σ Op Q A R} (before after : List (Job Op Q A R))
    {t : Job Op Q A R} (h : w.running = before ++ t :: after) :
    w.jobs.Perm (t :: (w.inside.toList ++ (w.waiting ++ (before ++ after)))) := by
  rw [jobs, h]
  refine List.Perm.trans ?_ List.perm_middle
  refine List.Perm.append_left _ (List.Perm.trans ?_ List.perm_middle)
  exact List.Perm.append_left _ List.perm_middle

theorem Step.change {host : Host σ Op Q A R} {w w' : WorkQueue σ Op Q A R} {l : Label Op}
    (hs : Step host w l w') : Change host w w' := by
  cases hs with
  | queue op hfree =>
    refine .call op ?_ rfl rfl rfl rfl
    simp only [jobs, hfree, Option.toList_none, List.nil_append, List.append_assoc]
    exact List.perm_middle
  | enter op hfree =>
    refine .call op ?_ rfl rfl rfl rfl
    simp [jobs, hfree]
  | askInside i op q next h =>
    refine .ask i op q next (w.waiting ++ w.running) ?_ (List.Perm.refl _) rfl rfl rfl rfl
    simp [jobs, h]
  | leave i op r h =>
    refine .leave i op r ?_ rfl rfl rfl rfl
    simp [jobs, h]
  | start t rest h =>
    refine .move (List.Perm.append_left _ ?_) rfl rfl rfl rfl
    rw [h, ← List.append_assoc]
    exact (List.perm_append_singleton t _)
  | ask before after i op q next h =>
    refine .ask i op q next _ (perm_jobs_of_running before after h) ?_ rfl rfl rfl rfl
    exact perm_jobs_of_running before after rfl
  | finish before after i op r h =>
    exact .finish i op r (perm_jobs_of_running before after h) rfl rfl rfl rfl
  | deliver c rest h => exact .deliver c rfl h rfl rfl rfl

/-! ### Every operation has one place -/

/-- The number of the operation that is called. -/
def calledId : Event Op R → Option ℕ
  | .called i _ => some i
  | .returned _ _ => none

/-- The number of the operation that returns. -/
def returnedId : Event Op R → Option ℕ
  | .called _ _ => none
  | .returned i _ => some i

/-- The numbers of the operations under way and of those whose results are waiting. -/
def places (w : WorkQueue σ Op Q A R) : List ℕ := w.jobs.map (·.id) ++ w.finished.map (·.id)

/-- Operations are called under the numbers from 0 on, and each of them has returned or
    is in one place. -/
structure Numbered (w : WorkQueue σ Op Q A R) : Prop where
  called : w.history.filterMap calledId = List.range w.next
  returned : (w.history.filterMap returnedId ++ w.places).Perm (List.range w.next)

variable {host : Host σ Op Q A R} {w w' : WorkQueue σ Op Q A R}

theorem Numbered.keep (h : Numbered w) (hcalled : w'.history.filterMap calledId =
      w.history.filterMap calledId) (hnext : w'.next = w.next)
    (hreturned : (w'.history.filterMap returnedId ++ w'.places).Perm
      (w.history.filterMap returnedId ++ w.places)) : Numbered w' where
  called := by rw [hcalled, hnext, h.called]
  returned := by
    rw [hnext]
    exact hreturned.trans h.returned

theorem Change.numbered (hc : Change host w w') (h : Numbered w) : Numbered w' := by
  cases hc with
  | call op hjobs hfinished hobject hhistory hnext =>
    constructor
    · rw [hhistory, hnext, List.filterMap_append, h.called, List.range_succ]
      rfl
    · have hplaces : w'.places.Perm (w.next :: w.places) := by
        rw [places, places, hfinished]
        exact (hjobs.map _).append_right _
      rw [hhistory, hnext, List.filterMap_append, List.range_succ]
      refine ((hplaces.append_left _).trans ?_).trans (List.perm_append_singleton _ _).symm
      rw [show [Event.called w.next op].filterMap (returnedId (R := R)) = [] from rfl,
        List.append_nil]
      exact List.perm_middle.trans (h.returned.cons _)
  | move hjobs hfinished hobject hhistory hnext =>
    refine h.keep (by rw [hhistory]) hnext ?_
    rw [hhistory, places, places, hfinished]
    exact ((hjobs.map _).append_right _).append_left _
  | ask i op q next others hjob hjobs hfinished hobject hhistory hnext =>
    have hid : (w.jobs.map (·.id)).Perm (i :: others.map (·.id)) := hjob.map (·.id)
    have hid' : (w'.jobs.map (·.id)).Perm (i :: others.map (·.id)) := hjobs.map (·.id)
    refine h.keep (by rw [hhistory]) hnext ?_
    rw [hhistory, places, places, hfinished]
    exact ((hid'.trans hid.symm).append_right _).append_left _
  | finish i op r hjobs hfinished hobject hhistory hnext =>
    have hid : (w.jobs.map (·.id)).Perm (i :: w'.jobs.map (·.id)) := hjobs.map (·.id)
    refine h.keep (by rw [hhistory]) hnext ?_
    rw [hhistory, places, places, hfinished, List.map_append, List.map_singleton]
    refine List.Perm.append_left _ ?_
    rw [← List.append_assoc]
    exact (List.perm_append_singleton _ _).trans (hid.append_right _).symm
  | deliver c hjobs hfinished hobject hhistory hnext =>
    refine h.keep (by simp [hhistory, calledId]) hnext ?_
    rw [hhistory, places, places, hjobs, hfinished, List.filterMap_append, List.append_assoc]
    refine List.Perm.append_left _ ?_
    show (c.id :: (w.jobs.map (·.id) ++ w'.finished.map (·.id))).Perm _
    exact List.perm_middle.symm
  | leave i op r hjobs hfinished hobject hhistory hnext =>
    refine h.keep (by simp [hhistory, calledId]) hnext ?_
    rw [hhistory, places, places, hjobs, hfinished, List.filterMap_append, List.append_assoc]
    exact List.Perm.refl _

theorem numbered_of_reachable {object : σ} (hw : (system host object).Reachable w) :
    Numbered w := by
  refine hw.invariant Numbered ?_ fun w l w' _ ih hs => hs.change.numbered ih
  rintro _ rfl
  exact ⟨rfl, List.Perm.refl _⟩

theorem filterMap_calledId_awaited (cs : List (Completed Op R)) :
    (awaited cs).filterMap calledId = cs.map (·.id) := by
  induction cs with
  | nil => rfl
  | cons c cs ih =>
    rw [awaited_cons, List.filterMap_append, ih]
    rfl

/-- Where each operation returns before the next is called, no number is used again. -/
theorem nodup_of_awaited {object : σ} (hw : (system host object).Reachable w)
    {cs : List (Completed Op R)} (hcs : w.history = awaited cs) : (cs.map (·.id)).Nodup := by
  rw [← filterMap_calledId_awaited, ← hcs, (numbered_of_reachable hw).called]
  exact List.nodup_range

/-- **Exactly once**: when nothing is under way any more, the operations that have
    returned are those that have been called. -/
theorem returned_perm_of_idle {object : σ} (hw : (system host object).Reachable w)
    (hidle : w.Idle) :
    (w.history.filterMap returnedId).Perm (w.history.filterMap calledId) := by
  obtain ⟨hcalled, hreturned⟩ := numbered_of_reachable hw
  rw [hcalled]
  simpa [places, hidle.1, hidle.2] using hreturned

end WorkQueue

/-! ### The work comes to an end -/

section Termination

variable {σ Op Q R : Type u} {A : Q → Type u}

/-- How far a job is, with what is left of its program. -/
inductive Stage (Q : Type u) (A : Q → Type u) (R : Type u)
  | waiting (p : Program Q A R)
  | running (p : Program Q A R)
  | finished

namespace Stage

/-- What one step can make of a job. -/
inductive Less : Stage Q A R → Stage Q A R → Prop
  | start (p : Program Q A R) : Less (.running p) (.waiting p)
  | ask (q : Q) (next : A q → Program Q A R) (a : A q) :
      Less (.running (next a)) (.running (.ask q next))
  | finish (r : R) : Less .finished (.running (.done r))

theorem acc_finished : Acc Less (finished : Stage Q A R) := by
  refine .intro _ fun s hs => ?_
  cases hs

theorem acc_running (p : Program Q A R) : Acc Less (running p) := by
  induction p with
  | done r =>
    refine .intro _ fun s hs => ?_
    cases hs
    exact acc_finished
  | ask q next ih =>
    refine .intro _ fun s hs => ?_
    cases hs
    exact ih _

theorem wellFounded_less : WellFounded (Less : Stage Q A R → Stage Q A R → Prop) := by
  refine ⟨fun s => ?_⟩
  cases s with
  | waiting p =>
    refine .intro _ fun s hs => ?_
    cases hs
    exact acc_running p
  | running p => exact acc_running p
  | finished => exact acc_finished

instance : Std.Irrefl (Less : Stage Q A R → Stage Q A R → Prop) := wellFounded_less.irrefl

end Stage

open Relation (CutExpand)

theorem cutExpand_remove {α : Type u} {r : α → α → Prop} {s s' : Multiset α} {a : α}
    (h : s = a ::ₘ s') : CutExpand r s' s := by
  refine ⟨0, a, fun a' ha' => absurd ha' (Multiset.notMem_zero a'), ?_⟩
  rw [h, add_zero, add_comm, Multiset.singleton_add]

theorem cutExpand_replace {α : Type u} {r : α → α → Prop} {s s' rest : Multiset α} {a a' : α}
    (hs : s = a ::ₘ rest) (hs' : s' = a' ::ₘ rest) (h : r a' a) : CutExpand r s' s := by
  rw [hs, hs', ← Multiset.singleton_add, ← Multiset.singleton_add]
  exact Relation.cutExpand_single_add h rest

namespace WorkQueue

variable {host : Host σ Op Q A R} {w w' : WorkQueue σ Op Q A R}

/-- The stages of all operations that have not returned. -/
def stages (w : WorkQueue σ Op Q A R) : Multiset (Stage Q A R) :=
  ↑(w.inside.toList.map fun t => Stage.running t.program) +
    (↑(w.waiting.map fun t => Stage.waiting t.program) +
      (↑(w.running.map fun t => Stage.running t.program) +
        ↑(w.finished.map fun _ => (Stage.finished : Stage Q A R))))

theorem stages_of_inside {t : Job Op Q A R} (h : w.inside = some t) :
    w.stages = .running t.program ::ₘ stages { w with inside := none } := by
  simp [stages, h]

theorem stages_of_waiting {t : Job Op Q A R} {rest : List (Job Op Q A R)}
    (h : w.waiting = t :: rest) :
    w.stages = .waiting t.program ::ₘ stages { w with waiting := rest } := by
  simp only [stages, h, List.map_cons, ← Multiset.cons_coe, ← Multiset.singleton_add]
  abel

theorem stages_of_running (before after : List (Job Op Q A R)) {t : Job Op Q A R}
    (h : w.running = before ++ t :: after) :
    w.stages = .running t.program ::ₘ stages { w with running := before ++ after } := by
  simp only [stages, h, List.map_append, List.map_cons, ← Multiset.coe_add, ← Multiset.cons_coe,
    ← Multiset.singleton_add]
  abel

theorem stages_of_finished (before after : List (Completed Op R)) {c : Completed Op R}
    (h : w.finished = before ++ c :: after) :
    w.stages = .finished ::ₘ stages { w with finished := before ++ after } := by
  simp only [stages, h, List.map_append, List.map_cons, ← Multiset.coe_add, ← Multiset.cons_coe,
    ← Multiset.singleton_add]
  abel

/-- A step of work makes a job smaller, or delivers its result. -/
theorem Step.cutExpand (hs : Step host w .work w') : CutExpand Stage.Less w'.stages w.stages := by
  cases hs with
  | askInside i op q next h =>
    exact cutExpand_replace (stages_of_inside h) (stages_of_inside rfl) (.ask q next _)
  | leave i op r h => exact cutExpand_remove (stages_of_inside h)
  | start t rest h =>
    refine cutExpand_replace (stages_of_waiting h) ?_ (.start t.program)
    rw [stages_of_running w.running [] rfl, List.append_nil]
  | ask before after i op q next h =>
    refine cutExpand_replace (stages_of_running before after h) ?_
      (.ask q next (host.answer q w.object).1)
    rw [stages_of_running before after rfl]
    rfl
  | finish before after i op r h =>
    refine cutExpand_replace (stages_of_running before after h) ?_ (.finish r)
    rw [stages_of_finished w.finished [] rfl, List.append_nil]
  | deliver c rest h => exact cutExpand_remove (stages_of_finished [] rest h)

/-- **The work comes to an end**: without new calls, only finitely many steps follow. -/
theorem wellFounded_work : WellFounded fun w' w => Step host w .work w' :=
  Subrelation.wf Step.cutExpand (InvImage.wf stages Stage.wellFounded_less.cutExpand)

theorem not_work_of_idle (hidle : w.Idle) : ¬Step host w .work w' := by
  obtain ⟨hjobs, hfinished⟩ := hidle
  simp only [jobs, List.append_eq_nil_iff, Option.toList_eq_nil_iff] at hjobs
  intro hs
  have hcut := hs.cutExpand
  simp only [stages, hjobs, hfinished, Option.toList_none, List.map_nil, Multiset.coe_nil,
    add_zero] at hcut
  exact Relation.not_cutExpand_zero _ hcut

/-- **No deadlock**: as long as an operation has not returned, there is work to do. -/
theorem exists_work_of_not_idle (hthreads : 0 < host.threads) (hidle : ¬w.Idle) :
    ∃ w', Step host w .work w' := by
  cases hinside : w.inside with
  | some t =>
    obtain ⟨i, op, p⟩ := t
    cases p with
    | done r => exact ⟨_, .leave w i op r hinside⟩
    | ask q next => exact ⟨_, .askInside w i op q next hinside⟩
  | none =>
    cases hfinished : w.finished with
    | cons c rest => exact ⟨_, .deliver w c rest hfinished hinside⟩
    | nil =>
      cases hrunning : w.running with
      | cons t rest =>
        obtain ⟨i, op, p⟩ := t
        cases p with
        | done r => exact ⟨_, .finish w [] rest i op r hrunning⟩
        | ask q next => exact ⟨_, .ask w [] rest i op q next hrunning⟩
      | nil =>
        cases hwaiting : w.waiting with
        | cons t rest =>
          refine ⟨_, .start w t rest hwaiting ?_⟩
          rw [hrunning]
          exact hthreads
        | nil =>
          refine absurd ⟨?_, hfinished⟩ hidle
          simp [jobs, hinside, hrunning, hwaiting]

end WorkQueue

end Termination

/-! ### Once and for all -/

theorem eq_of_nodup_filterMap {α : Type u} {β : Type*} {f : α → Option β} {l : List α}
    (h : (l.filterMap f).Nodup) {a b : α} {c : β} (ha : a ∈ l) (hb : b ∈ l) (hfa : f a = some c)
    (hfb : f b = some c) : a = b := by
  by_contra hne
  let differ (a b : α) : Prop := ∀ x, f a = some x → ∀ y, f b = some y → x ≠ y
  have hpairwise : l.Pairwise differ := List.pairwise_filterMap.mp h
  have : Std.Symm differ := ⟨fun _ _ hxy y hy x hx => (hxy x hx y hy).symm⟩
  exact hpairwise.forall ha hb hne c hfa c hfb rfl

namespace WorkQueue

variable {σ Op Q R : Type u} {A : Q → Type u} {host : Host σ Op Q A R}
  {w : WorkQueue σ Op Q A R} {object : σ}

/-- When the work is done, an operation that has been called has returned, and that
    once. -/
theorem returned_once (hthreads : 0 < host.threads) (hw : (system host object).Reachable w)
    (hrest : ∀ w', ¬Step host w .work w') {i : ℕ} {op : Op} (hcalled : .called i op ∈ w.history) :
    ∃ r, w.history.filter (returnedId · == some i) = [.returned i r] := by
  have hidle : w.Idle := by
    by_contra hidle
    obtain ⟨w', hs⟩ := exists_work_of_not_idle hthreads hidle
    exact hrest w' hs
  have hmem : i ∈ w.history.filterMap calledId := List.mem_filterMap.mpr ⟨_, hcalled, rfl⟩
  have hnodup : (w.history.filterMap calledId).Nodup := by
    rw [(numbered_of_reachable hw).called]
    exact List.nodup_range
  have hcount : (w.history.filterMap returnedId).count i = 1 := by
    rw [(returned_perm_of_idle hw hidle).count_eq i]
    exact List.count_eq_one_of_mem hnodup hmem
  rw [List.count_filterMap, List.countP_eq_length_filter, List.length_eq_one_iff] at hcount
  obtain ⟨e, he⟩ := hcount
  have hreturned : returnedId e = some i := by
    have hfilter : e ∈ w.history.filter (returnedId · == some i) := he ▸ List.mem_singleton_self e
    simpa using (List.mem_filter.mp hfilter).2
  cases e with
  | called j op' => cases hreturned
  | returned j r =>
    obtain rfl := Option.some.inj hreturned
    exact ⟨r, he⟩

end WorkQueue

/-! ### Linearizability -/

section Linearizability

variable {σ τ Op Q R : Type u} {A : Q → Type u}

/-- What the operations do one after the other. -/
def Host.spec (host : Host σ Op Q A R) (s : σ) (op : Op) (r : R) (s' : σ) : Prop :=
  (host.program op).run host.answer s = (r, s')

/-- The job has been called and has not taken effect: what is left of it implements its
    operation. -/
structure Job.Pending (host : Host σ Op Q A R) (allowed : Op → Program Q A R → σ → Prop)
    (shows : σ → τ → Prop) (spec : τ → Op → R → τ → Prop) (history : List (Event Op R))
    (order : List (Completed Op R)) (t : Job Op Q A R) : Prop where
  called : .called t.id t.op ∈ history
  new : t.id ∉ order.map (·.id)
  implements : t.program.Implements host.answer (allowed t.op) shows fun s r s' => spec s t.op r s'

/-- The job has taken effect: it has the result that it has in the order. -/
def Job.Effected (order : List (Completed Op R)) (t : Job Op Q A R) : Prop :=
  ∃ r, t.program = .done r ∧ ⟨t.id, t.op, r⟩ ∈ order

variable {host : Host σ Op Q A R} {allowed : Op → Program Q A R → σ → Prop}
  {shows : σ → τ → Prop} {spec : τ → Op → R → τ → Prop} {history : List (Event Op R)}
  {order : List (Completed Op R)}

namespace Job

variable {t : Job Op Q A R}

theorem Pending.of_history (h : t.Pending host allowed shows spec history order)
    (e : Event Op R) : t.Pending host allowed shows spec (history ++ [e]) order :=
  ⟨List.mem_append_left _ h.called, h.new, h.implements⟩

theorem Pending.of_order (h : t.Pending host allowed shows spec history order)
    {c : Completed Op R} (hne : t.id ≠ c.id) :
    t.Pending host allowed shows spec history (order ++ [c]) := by
  refine ⟨h.called, ?_, h.implements⟩
  rw [List.map_append, List.mem_append, List.map_singleton, List.mem_singleton]
  exact not_or_intro h.new hne

theorem Effected.of_order (h : t.Effected order) (c : Completed Op R) :
    t.Effected (order ++ [c]) := by
  obtain ⟨r, hprogram, hr⟩ := h
  exact ⟨r, hprogram, List.mem_append_left _ hr⟩

end Job

namespace WorkQueue

/-- Every operation under way may go on in this state of the object. -/
def Guarded (allowed : Op → Program Q A R → σ → Prop) (w : WorkQueue σ Op Q A R)
    (_ : Label Op) : Prop :=
  ∀ t ∈ w.jobs, allowed t.op t.program w.object

/-- The operations under way have had the answers that they would have now. -/
def Repeatable (host : Host σ Op Q A R) : WorkQueue σ Op Q A R → Label Op → Prop :=
  Guarded fun op => (host.program op).Repeats host.answer

variable {w w' : WorkQueue σ Op Q A R} {object : σ} {s₀ s : τ}

/-- The operations that have taken effect explain the history and lead to what the object
    shows, and the others are still to take effect. -/
structure Explained (host : Host σ Op Q A R) (allowed : Op → Program Q A R → σ → Prop)
    (shows : σ → τ → Prop) (spec : τ → Op → R → τ → Prop) (s₀ : τ)
    (order : List (Completed Op R)) (s : τ) (w : WorkQueue σ Op Q A R) : Prop where
  linearizes : Linearizes spec s₀ w.history order s
  shown : shows w.object s
  jobs : ∀ t ∈ w.jobs, t.Pending host allowed shows spec w.history order ∨ t.Effected order
  finished : ∀ c ∈ w.finished, c ∈ order

/-- A job takes effect where it is. -/
theorem Explained.effect (h : Explained host allowed shows spec s₀ order s w)
    {t : Job Op Q A R} {others : List (Job Op Q A R)} (hjobs : w.jobs.Perm (t :: others))
    (hids : (w.jobs.map (·.id)).Nodup) (ht : t.Pending host allowed shows spec w.history order)
    {r : R} {s' : τ} (hs : spec s t.op r s') :
    Linearizes spec s₀ w.history (order ++ [⟨t.id, t.op, r⟩]) s' ∧
      ∀ t' ∈ others, t'.Pending host allowed shows spec w.history (order ++ [⟨t.id, t.op, r⟩]) ∨
        t'.Effected (order ++ [⟨t.id, t.op, r⟩]) := by
  refine ⟨h.linearizes.effect ht.called ht.new hs, fun t' ht' => ?_⟩
  have hperm : (w.jobs.map (·.id)).Perm (t.id :: others.map (·.id)) := hjobs.map (·.id)
  have hnodup := hperm.nodup_iff.mp hids
  have hne : t'.id ≠ t.id := fun heq =>
    (List.nodup_cons.mp hnodup).1 (heq ▸ List.mem_map_of_mem ht')
  rcases h.jobs t' (hjobs.mem_iff.mpr (List.mem_cons_of_mem _ ht')) with hpending | heffected
  · exact .inl (hpending.of_order hne)
  · exact .inr (heffected.of_order _)

/-- A job puts a question: it takes effect with it, or nobody notices. -/
theorem Explained.ask (h : Explained host allowed shows spec s₀ order s w) {i : ℕ} {op : Op}
    {q : Q} {next : A q → Program Q A R} {others : List (Job Op Q A R)}
    (hjob : w.jobs.Perm (⟨i, op, .ask q next⟩ :: others)) (hids : (w.jobs.map (·.id)).Nodup)
    (hallowed : allowed op (.ask q next) w.object) :
    ∃ added s', Linearizes spec s₀ w.history (order ++ added) s' ∧
      shows (host.answer q w.object).2 s' ∧
      ∀ t ∈ ⟨i, op, next (host.answer q w.object).1⟩ :: others,
        t.Pending host allowed shows spec w.history (order ++ added) ∨
          t.Effected (order ++ added) := by
  rcases h.jobs _ (hjob.mem_iff.mpr List.mem_cons_self) with hpending | ⟨r, hdone, -⟩
  · rcases hpending.implements w.object s hallowed h.shown with
      ⟨hshows, hnext⟩ | ⟨r, s', hdone, hspec, hshows⟩
    · refine ⟨[], s, ?_⟩
      rw [List.append_nil]
      refine ⟨h.linearizes, hshows, List.forall_mem_cons.mpr ⟨.inl ?_, fun t ht => ?_⟩⟩
      · exact ⟨hpending.called, hpending.new, hnext⟩
      · exact h.jobs t (hjob.mem_iff.mpr (List.mem_cons_of_mem _ ht))
    · obtain ⟨hlinearizes, hrest⟩ := h.effect hjob hids hpending hspec
      refine ⟨[_], s', hlinearizes, hshows, List.forall_mem_cons.mpr ⟨.inr ?_, hrest⟩⟩
      exact ⟨r, hdone, List.mem_append_right _ (List.mem_singleton_self _)⟩
  · cases hdone

/-- A job that is done takes effect now at the latest. -/
theorem Explained.done (h : Explained host allowed shows spec s₀ order s w) {i : ℕ} {op : Op}
    {r : R} {others : List (Job Op Q A R)} (hjob : w.jobs.Perm (⟨i, op, .done r⟩ :: others))
    (hids : (w.jobs.map (·.id)).Nodup) :
    ∃ added s', Linearizes spec s₀ w.history (order ++ added) s' ∧ shows w.object s' ∧
      ⟨i, op, r⟩ ∈ order ++ added ∧
      ∀ t ∈ others, t.Pending host allowed shows spec w.history (order ++ added) ∨
        t.Effected (order ++ added) := by
  rcases h.jobs _ (hjob.mem_iff.mpr List.mem_cons_self) with hpending | ⟨r', hdone, hr'⟩
  · obtain ⟨s', hspec, hshows⟩ := hpending.implements w.object s h.shown
    obtain ⟨hlinearizes, hrest⟩ := h.effect hjob hids hpending hspec
    exact ⟨_, s', hlinearizes, hshows, List.mem_append_right _ (List.mem_singleton_self _), hrest⟩
  · obtain rfl := Program.done.inj hdone
    refine ⟨[], s, ?_⟩
    rw [List.append_nil]
    exact ⟨h.linearizes, h.shown, hr',
      fun t ht => h.jobs t (hjob.mem_iff.mpr (List.mem_cons_of_mem _ ht))⟩

theorem Change.history_subset (hc : Change host w w') {e : Event Op R} (he : e ∈ w.history) :
    e ∈ w'.history := by
  cases hc with
  | call op hjobs hfinished hobject hhistory hnext => exact hhistory ▸ List.mem_append_left _ he
  | move hjobs hfinished hobject hhistory hnext => exact hhistory ▸ he
  | ask i op q next others hjob hjobs hfinished hobject hhistory hnext => exact hhistory ▸ he
  | finish i op r hjobs hfinished hobject hhistory hnext => exact hhistory ▸ he
  | deliver c hjobs hfinished hobject hhistory hnext => exact hhistory ▸ List.mem_append_left _ he
  | leave i op r hjobs hfinished hobject hhistory hnext =>
    exact hhistory ▸ List.mem_append_left _ he

theorem Explained.change (h : Explained host allowed shows spec s₀ order s w)
    (hnumbered : Numbered w) (hallowed : ∀ t ∈ w.jobs, allowed t.op t.program w.object)
    (himplements : ∀ i op, .called i op ∈ w'.history →
      (host.program op).Implements host.answer (allowed op) shows fun s r s' => spec s op r s')
    (hc : Change host w w') :
    ∃ order' s', Explained host allowed shows spec s₀ order' s' w' := by
  have hids : (w.jobs.map (·.id)).Nodup := by
    have hnodup := hnumbered.returned.nodup_iff.mpr List.nodup_range
    exact (List.nodup_append.mp (List.nodup_append.mp hnodup).2.1).1
  cases hc with
  | call op hjobs hfinished hobject hhistory hnext =>
    have hnew : ∀ op, .called w.next op ∉ w.history := by
      intro op hmem
      have hrange : w.next ∈ w.history.filterMap calledId :=
        List.mem_filterMap.mpr ⟨_, hmem, rfl⟩
      rw [hnumbered.called, List.mem_range] at hrange
      exact absurd hrange (lt_irrefl _)
    have hcalled : .called w.next op ∈ w'.history :=
      hhistory ▸ List.mem_append_right _ (List.mem_singleton_self _)
    refine ⟨order, s, ?_, ?_, ?_, ?_⟩
    · rw [hhistory]
      exact h.linearizes.call op hnew
    · rw [hobject]
      exact h.shown
    · intro t ht
      rcases List.mem_cons.mp (hjobs.mem_iff.mp ht) with rfl | ht
      · refine .inl ⟨hcalled, fun hmem => ?_, himplements _ op hcalled⟩
        obtain ⟨c, hc, hid⟩ := List.mem_map.mp hmem
        have hcalled' := h.linearizes.called c hc
        rw [hid] at hcalled'
        exact hnew c.op hcalled'
      · rw [hhistory]
        exact (h.jobs t ht).imp_left (·.of_history _)
    · rw [hfinished]
      exact h.finished
  | move hjobs hfinished hobject hhistory hnext =>
    refine ⟨order, s, ?_, ?_, ?_, ?_⟩
    · rw [hhistory]
      exact h.linearizes
    · rw [hobject]
      exact h.shown
    · intro t ht
      rw [hhistory]
      exact h.jobs t (hjobs.mem_iff.mp ht)
    · rw [hfinished]
      exact h.finished
  | ask i op q next others hjob hjobs hfinished hobject hhistory hnext =>
    have hmay := hallowed _ (hjob.mem_iff.mpr List.mem_cons_self)
    obtain ⟨added, s', hlinearizes, hshows, hrest⟩ := h.ask hjob hids hmay
    refine ⟨order ++ added, s', ?_, ?_, fun t ht => ?_, fun c hc => ?_⟩
    · rw [hhistory]
      exact hlinearizes
    · rw [hobject]
      exact hshows
    · rw [hhistory]
      exact hrest t (hjobs.mem_iff.mp ht)
    · rw [hfinished] at hc
      exact List.mem_append_left _ (h.finished c hc)
  | finish i op r hjobs hfinished hobject hhistory hnext =>
    obtain ⟨added, s', hlinearizes, hshows, hmem, hrest⟩ := h.done hjobs hids
    refine ⟨order ++ added, s', ?_, ?_, fun t ht => ?_, fun c hc => ?_⟩
    · rw [hhistory]
      exact hlinearizes
    · rw [hobject]
      exact hshows
    · rw [hhistory]
      exact hrest t ht
    · rw [hfinished, List.mem_append, List.mem_singleton] at hc
      rcases hc with hc | rfl
      · exact List.mem_append_left _ (h.finished c hc)
      · exact hmem
  | deliver c hjobs hfinished hobject hhistory hnext =>
    refine ⟨order, s, ?_, ?_, fun t ht => ?_, fun d hd => ?_⟩
    · rw [hhistory]
      exact h.linearizes.return (h.finished c (hfinished ▸ List.mem_cons_self))
    · rw [hobject]
      exact h.shown
    · rw [hjobs] at ht
      rw [hhistory]
      exact (h.jobs t ht).imp_left (·.of_history _)
    · exact h.finished d (hfinished ▸ List.mem_cons_of_mem _ hd)
  | leave i op r hjobs hfinished hobject hhistory hnext =>
    obtain ⟨added, s', hlinearizes, hshows, hmem, hrest⟩ := h.done (List.Perm.of_eq hjobs) hids
    refine ⟨order ++ added, s', ?_, ?_, fun t ht => ?_, fun c hc => ?_⟩
    · rw [hhistory]
      exact hlinearizes.return hmem
    · rw [hobject]
      exact hshows
    · rw [hhistory]
      exact (hrest t ht).imp_left (·.of_history _)
    · rw [hfinished] at hc
      exact List.mem_append_left _ (h.finished c hc)

/-- **Linearizability**: however the threads interleave, operations whose programs
    implement a specification have results that they may have one after the other, as long
    as none of them puts a question where it may not, and the object shows what they lead
    to. -/
theorem exists_linearizes (hw : ((system host object).restrict (Guarded allowed)).Reachable w)
    (hstart : shows object s₀)
    (himplements : ∀ i op, .called i op ∈ w.history →
      (host.program op).Implements host.answer (allowed op) shows fun s r s' => spec s op r s') :
    ∃ order s, Linearizes spec s₀ w.history order s ∧ shows w.object s := by
  have hexplained : ∃ order s, Explained host allowed shows spec s₀ order s w := by
    induction hw with
    | start h =>
      obtain rfl := h
      exact ⟨[], s₀, .nil, hstart, fun t ht => absurd ht List.not_mem_nil,
        fun c hc => absurd hc List.not_mem_nil⟩
    | step hr hs ih =>
      have hc := hs.2.change
      obtain ⟨order, s, h⟩ := ih fun i op hcalled => himplements i op (hc.history_subset hcalled)
      exact h.change (numbered_of_reachable hr.of_restrict) hs.1 himplements hc
  obtain ⟨order, s, h⟩ := hexplained
  exact ⟨order, s, h.linearizes, h.shown⟩

/-- Programs that read first have the results they would have one after the other, however
    the threads interleave, where what they have read remains true until they take effect,
    and leave the object as they would. -/
theorem exists_linearizes_of_readsFirst
    (hw : ((system host object).restrict (Repeatable host)).Reachable w)
    (hreads : ∀ op, (host.program op).ReadsFirst host.answer) :
    ∃ order, Linearizes host.spec object w.history order w.object := by
  have hlinearizes : ∃ order s, Linearizes host.spec object w.history order s ∧ w.object = s :=
    exists_linearizes hw rfl fun _ op _ => (hreads op).implements fun _ => id
  obtain ⟨order, s, h, rfl⟩ := hlinearizes
  exact ⟨order, h⟩

/-- What an operation returns is what it may return in some state. -/
theorem exists_spec_of_returned (hw : (system host object).Reachable w)
    (h : Linearizes spec s₀ w.history order s) {i : ℕ} {op : Op} {r : R}
    (hcalled : .called i op ∈ w.history) (hreturned : .returned i r ∈ w.history) :
    ∃ s s', spec s op r s' := by
  obtain ⟨c, hc, rfl, rfl⟩ := h.returned i r hreturned
  obtain ⟨s, s', hs⟩ := h.sequential.exists_spec hc
  have hnodup : (w.history.filterMap calledId).Nodup := by
    rw [(numbered_of_reachable hw).called]
    exact List.nodup_range
  have hop : Event.called c.id op = .called c.id c.op :=
    eq_of_nodup_filterMap hnodup hcalled (h.called c hc) rfl rfl
  obtain ⟨-, rfl⟩ := Event.called.inj hop
  exact ⟨s, s', hs⟩

/-- What an operation returns is a result of its program, whatever other operations do to
    the object meanwhile. -/
theorem yields_of_returned (hw : (system host object).Reachable w) {P : Op → R → Prop}
    (hyields : ∀ op, (host.program op).Yields (P op)) {i : ℕ} {op : Op} {r : R}
    (hcalled : .called i op ∈ w.history) (hreturned : .returned i r ∈ w.history) : P op r := by
  let unguarded : Op → Program Q A R → σ → Prop := fun _ _ _ => True
  let shows : σ → PUnit.{u + 1} → Prop := fun _ _ => True
  have hguarded : ((system host object).restrict (Guarded unguarded)).Reachable w :=
    hw.restrict fun _ _ _ _ => trivial
  have hlinearizes : ∃ order s,
      Linearizes (fun _ op r _ => P op r) ⟨⟩ w.history order s ∧ shows w.object s :=
    exists_linearizes hguarded trivial fun _ op _ => (hyields op).implements
  obtain ⟨order, s, h, -⟩ := hlinearizes
  obtain ⟨-, -, hP⟩ := exists_spec_of_returned hw h hcalled hreturned
  exact hP

end WorkQueue

end Linearizability
